import HnbCore.Replay
import HnbCore.Lib.UndoLog

/-!
# Recovering the coins

What a block does to the coins is a batch of writes, and its undo data takes the batch back wherever
it is made. An interrupted flush leaves a mix of the coins of two tips; taking the old branch back
and applying the new one turns any such mix into the coins of the new tip.
-/

namespace HnbCore

open Checks AssetState Batch List CCoinsViewDB Coins

variable {coins : Coins} {s t : AssetState} {env : CBlock → Env}

/-- Inputs are spent, and outputs somebody can spend are created. -/
def txBatch (tx : CTransaction) (nHeight : Int) : Batch COutPoint Coin :=
  tx.spentInputs.map (fun txin => (txin.prevout, none)) ++
    (spendableOutputs tx nHeight).map fun e => (e.1, some e.2)

def blockBatch (stored : StoredBlock) (nHeight : Int) : Batch COutPoint Coin :=
  stored.block.vtx.flatMap fun tx => txBatch tx nHeight

/-- What `DisconnectBlock` does to the coins for a transaction and the coins it spent. -/
def txUndoBatch (nHeight : Int) (item : CTransaction × Option (List Coin)) : Batch COutPoint Coin :=
  (spendableOutputs item.1 nHeight).map (fun e => (e.1, none)) ++
    (item.1.vin.zip (item.2.getD [])).reverse.map fun input => (input.1.prevout, some input.2)

def blockUndoBatch (stored : StoredBlock) (nHeight : Int) (vtxundo : List (List Coin)) :
    Batch COutPoint Coin :=
  (stored.block.vtx.zip (none :: vtxundo.map some)).reverse.flatMap (txUndoBatch nHeight)

theorem accessCoin_write (coins : Coins) (batch : Batch COutPoint Coin) :
    accessCoin (write coins batch) = afterAll batch coins.accessCoin := by
  funext out
  rw [accessCoin, find?_write, afterAll, Batch.after]
  cases last batch out with
  | none => rfl
  | some v => cases v <;> rfl

theorem eraseInputs_eq_write (coins : Coins) (vin : List CTxIn) :
    eraseInputs coins vin = write coins (vin.map fun txin => (txin.prevout, none)) := by
  rw [eraseInputs, write, foldl_map]
  rfl

theorem addOutputCoins_eq_write (coins : Coins) (tx : CTransaction) (nHeight : Int) :
    addOutputCoins coins tx nHeight =
      write coins ((spendableOutputs tx nHeight).map fun e => (e.1, some e.2)) := by
  rw [addOutputCoins_eq, write, foldl_map]
  rfl

theorem afterTx_eq_write (coins : Coins) (tx : CTransaction) (nHeight : Int) :
    coins.afterTx tx nHeight = write coins (txBatch tx nHeight) := by
  rw [afterTx, addOutputCoins_eq_write, eraseInputs_eq_write, write_append]
  rfl

variable (stored : StoredBlock)

theorem rollforwardBlock_eq_write (nHeight : Int) (coins : Coins) :
    rollforwardBlock stored nHeight coins = write coins (blockBatch stored nHeight) := by
  unfold rollforwardBlock blockBatch
  induction stored.block.vtx generalizing coins with
  | nil => rfl
  | cons tx txs ih =>
    rw [foldl_cons, ih, afterTx_eq_write, write_append, flatMap_cons]

theorem withoutOutputs_eq_write (coins : Coins) (tx : CTransaction) (nHeight : Int) :
    coins.withoutOutputs tx =
      write coins ((spendableOutputs tx nHeight).map fun e => (e.1, none)) := by
  unfold withoutOutputs spendableOutputs
  induction tx.outputs generalizing coins with
  | nil => rfl
  | cons output outputs ih =>
    rw [foldl_cons, ih, filter_cons]
    cases hspend : isUnspendable output.2.scriptPubKey with
    | true => simp
    | false => simp [write, put]

theorem restoreInput_eq_put {out : COutPoint} {undo : Coin}
    (hspend : isUnspendable undo.out.scriptPubKey = false) (hheight : undo.nHeight ≠ 0) :
    (coins.restoreInput out undo).1 = put coins (out, some undo) := by
  have hcomplete : coins.completeUndo out.hash undo = some undo := if_neg hheight
  simp [restoreInput, hcomplete, addCoin, hspend, put]

/-- A coin that `AddCoin` keeps, of a block other than the genesis block. -/
def Coin.Kept (coin : Coin) : Prop :=
  isUnspendable coin.out.scriptPubKey = false ∧ coin.nHeight ≠ 0

section Disconnect

variable {env : Env} {nHeight : Int} {vUndoData : List (Bytes × CBlockAssetUndo)}
  {scan scan' : DisconnectScan} {s t : AssetState}

theorem restoreInputs_eq_write {inputs : List (CTxIn × Coin)}
    (hkept : ∀ input ∈ inputs, input.2.Kept)
    (h : inputs.foldlM (applyTxInUndo env) scan s = .ok scan' t) :
    scan'.coins = write scan.coins (inputs.map fun input => (input.1.prevout, some input.2)) := by
  induction inputs generalizing scan s with
  | nil =>
    obtain ⟨rfl, -⟩ := run_pure_eq_ok.mp h
    rfl
  | cons input inputs ih =>
    obtain ⟨mid, u, hfirst, hrest⟩ := run_bind_eq_ok.mp h
    obtain ⟨hspend, hheight⟩ := hkept input mem_cons_self
    rw [ih (fun input' hin => hkept input' (mem_cons_of_mem _ hin)) hrest,
      applyTxInUndo_coins hfirst, restoreInput_eq_put hspend hheight]
    rfl

theorem disconnectTx_eq_write {item : CTransaction × Option (List Coin)}
    (hkept : ∀ coin ∈ item.2.getD [], coin.Kept)
    (h : disconnectTx env nHeight vUndoData scan item s = .ok scan' t) :
    scan'.coins = write scan.coins (txUndoBatch nHeight item) := by
  obtain ⟨tx, vprevout⟩ := item
  unfold disconnectTx at h
  obtain ⟨_, _, -, h⟩ := run_bind_eq_ok.mp h
  obtain ⟨_, _, -, h⟩ := run_bind_eq_ok.mp h
  rw [txUndoBatch, ← write_append, ← withoutOutputs_eq_write]
  cases vprevout with
  | none =>
    obtain ⟨rfl, -⟩ := run_pure_eq_ok.mp h
    rw [takeOutputs_coins]
    simp [write]
  | some vprevout =>
    obtain ⟨_, _, -, h⟩ := run_bind_eq_ok.mp h
    rw [← takeOutputs_coins env tx nHeight]
    apply restoreInputs_eq_write _ h
    intro input hin
    exact hkept input.2 (of_mem_zip (mem_reverse.mp hin)).2

theorem disconnectTxs_eq_write {items : List (CTransaction × Option (List Coin))}
    (hkept : ∀ item ∈ items, ∀ coin ∈ item.2.getD [], coin.Kept)
    (h : items.foldlM (disconnectTx env nHeight vUndoData) scan s = .ok scan' t) :
    scan'.coins = write scan.coins (items.flatMap (txUndoBatch nHeight)) := by
  induction items generalizing scan s with
  | nil =>
    obtain ⟨rfl, -⟩ := run_pure_eq_ok.mp h
    rfl
  | cons item items ih =>
    obtain ⟨mid, u, hfirst, hrest⟩ := run_bind_eq_ok.mp h
    rw [ih (fun item' hin => hkept item' (mem_cons_of_mem _ hin)) hrest,
      disconnectTx_eq_write (hkept item mem_cons_self) hfirst, write_append,
      flatMap_cons]

end Disconnect

/-- Whatever coins are there, `DisconnectBlock` makes the writes of the undo data. -/
theorem disconnectBlock_eq_write {env : Env} {stored : StoredBlock} {nHeight : Int}
    {vtxundo : List (List Coin)} {scan : DisconnectScan}
    (hkept : ∀ vprevout ∈ vtxundo, ∀ coin ∈ vprevout, coin.Kept)
    (h : disconnectBlock env stored.block nHeight vtxundo coins s = .ok scan t) :
    scan.coins = write coins (blockUndoBatch stored nHeight vtxundo) := by
  unfold disconnectBlock at h
  obtain ⟨_, _, -, h⟩ := run_bind_eq_ok.mp h
  obtain ⟨_, _, -, h⟩ := run_bind_eq_ok.mp h
  apply disconnectTxs_eq_write _ h
  intro item hin coin hcoin
  have hundo := (of_mem_zip (mem_reverse.mp hin)).2
  rcases mem_cons.mp hundo with hnone | hsome
  · rw [hnone] at hcoin
    cases hcoin
  · obtain ⟨vprevout, hvprevout, heq⟩ := mem_map.mp hsome
    rw [← heq] at hcoin
    exact hkept vprevout hvprevout coin hcoin

theorem accessCoin_erase (coins : Coins) (out : COutPoint) :
    accessCoin (coins.erase out) = afterAll [(out, none)] coins.accessCoin :=
  accessCoin_write coins [(out, none)]

theorem Spends.undoes {vin : List CTxIn} {spent : List Coin} (h : Spends coins vin spent) :
    Undoes coins.accessCoin (vin.map fun txin => (txin.prevout, none))
      ((vin.zip spent).reverse.map fun input => (input.1.prevout, some input.2)) := by
  induction h with
  | nil coins => exact undoes_nil _
  | @cons coins txin vin coin spent found rest ih =>
    have hfirst := undoes_single coins.accessCoin txin.prevout none
    rw [found] at hfirst
    rw [accessCoin_erase] at ih
    have hboth := hfirst.append ih
    simpa using hboth

section Connect

variable {env : ChainEnv} {blockHash : UInt256} {nHeight : Int} {scan scan' : ConnectScan}
  {tx : CTransaction} {txs : List CTransaction} {s t : AssetState}

theorem NewTxids.spendableOutputs (h : NewTxids (tx :: txs) coins) {e : COutPoint × Coin}
    (he : e ∈ spendableOutputs tx nHeight) : coins.accessCoin e.1 = none := by
  have hunused := h.unused tx mem_cons_self e.1.n
  rw [← (mem_spendableOutputs he).1] at hunused
  rw [accessCoin, Option.map_eq_none_iff]
  simpa [KeyedSet.contains_eq_isSome] using hunused

variable (nHeight) in
theorem Spends.txUndoes {spent : List Coin} (hspends : Spends coins tx.spentInputs spent)
    (hnew : NewTxids (tx :: txs) coins) :
    Undoes coins.accessCoin (txBatch tx nHeight)
      (txUndoBatch nHeight (tx, if tx.isCoinBase then none else some spent)) := by
  have hinputs : (tx.vin.zip ((if tx.isCoinBase then none else some spent).getD [])) =
      tx.spentInputs.zip spent := by
    cases hcb : tx.isCoinBase <;> simp [CTransaction.spentInputs, hcb]
  unfold txBatch txUndoBatch
  rw [hinputs]
  apply hspends.undoes.append
  apply undoes_insert
  intro e he
  rw [← accessCoin_write, ← eraseInputs_eq_write]
  cases hfound : (eraseInputs coins tx.spentInputs).accessCoin e.1 with
  | none => rfl
  | some coin =>
    have hcontains : (eraseInputs coins tx.spentInputs).contains e.1 = true := by
      rw [KeyedSet.contains_eq_isSome, accessCoin_eq_some.mp hfound]
      rfl
    have hcoin := ((contains_eraseInputs _ _ _).mp hcontains).1
    have hnone := hnew.spendableOutputs he
    rw [accessCoin, Option.map_eq_none_iff] at hnone
    rw [KeyedSet.contains_eq_isSome, hnone] at hcoin
    cases hcoin

theorem Coins.Kept.afterTx (h : coins.Kept) (hheight : nHeight ≠ 0) :
    (coins.afterTx tx nHeight).Kept := by
  intro out coin haccess
  rcases accessCoin_afterTx haccess with hold | ⟨txout, -, hspend, rfl⟩
  · exact h out coin hold
  · exact ⟨hspend, hheight⟩

theorem Spends.kept {vin : List CTxIn} {spent : List Coin} (h : Spends coins vin spent)
    (hkept : coins.Kept) : ∀ coin ∈ spent, coin.Kept := by
  intro coin hin
  have hmem := mem_map_of_mem (f := some) hin
  rw [← h.access] at hmem
  obtain ⟨txin, -, haccess⟩ := mem_map.mp hmem
  exact hkept txin.prevout coin haccess

/-- The run over the transactions after the coinbase, with the undo data it adds. -/
theorem connectTxs_undoes (hcb : ∀ tx ∈ txs, tx.isCoinBase = false) (hheight : nHeight ≠ 0)
    (hkept : scan.coins.Kept) (hnew : NewTxids txs scan.coins)
    (h : txs.foldlM (connectTx env blockHash nHeight) scan s = .ok scan' t) :
    ∃ spents : List (List Coin), scan'.vtxundo = scan.vtxundo ++ spents ∧
      (∀ spent ∈ spents, ∀ coin ∈ spent, coin.Kept) ∧ scan'.coins.Kept ∧
      scan'.coins = txs.foldl (fun coins tx => coins.afterTx tx nHeight) scan.coins ∧
      Undoes scan.coins.accessCoin (txs.flatMap fun tx => txBatch tx nHeight)
        ((txs.zip (spents.map some)).reverse.flatMap (txUndoBatch nHeight)) := by
  induction txs generalizing scan s with
  | nil =>
    obtain ⟨rfl, -⟩ := run_pure_eq_ok.mp h
    exact ⟨[], by simp, by simp, hkept, rfl, undoes_nil _⟩
  | cons tx txs ih =>
    obtain ⟨mid, u, hfirst, hrest⟩ := run_bind_eq_ok.mp h
    obtain ⟨spent, hspends, hcoins, hundo⟩ := connectTx_afterTx hfirst
    have hplain := hcb tx mem_cons_self
    have hkept' : mid.coins.Kept := hcoins ▸ hkept.afterTx hheight
    obtain ⟨spents, hundo', hspents, hkept'', hcoins', hundoes⟩ :=
      ih (fun tx' hin => hcb tx' (mem_cons_of_mem _ hin)) hkept' (hnew.connectTx hfirst) hrest
    rw [hplain] at hundo
    refine ⟨spent :: spents, ?_, ?_, hkept'', ?_, ?_⟩
    · rw [hundo', hundo]
      simp
    · intro spent' hin
      rcases mem_cons.mp hin with rfl | hin
      · exact hspends.kept hkept
      · exact hspents spent' hin
    · rw [hcoins', hcoins, foldl_cons]
    · have hundoTx := hspends.txUndoes nHeight hnew
      rw [hplain] at hundoTx
      rw [hcoins, afterTx_eq_write, accessCoin_write] at hundoes
      have hboth := hundoTx.append hundoes
      simpa using hboth

end Connect

/-- The coins after the blocks of a chain above the genesis block. -/
def utxo : List StoredBlock → Coins
  | [] => .empty
  | [_] => .empty
  | stored :: below :: chain =>
      rollforwardBlock stored (below :: chain).length (utxo (below :: chain))

theorem utxo_cons {chain : List StoredBlock} (h : chain ≠ []) (stored : StoredBlock) :
    utxo (stored :: chain) = rollforwardBlock stored chain.length (utxo chain) := by
  cases chain with
  | nil => exact absurd rfl h
  | cons below chain => rfl

/-- The undo data of a block takes it back. -/
structure TakesBack (stored : StoredBlock) (nHeight : Int) (coins : Coins) : Prop where
  undone : ∃ vtxundo, stored.vtxundo = some vtxundo ∧
    (∀ vprevout ∈ vtxundo, ∀ coin ∈ vprevout, coin.Kept) ∧
    Undoes coins.accessCoin (blockBatch stored nHeight) (blockUndoBatch stored nHeight vtxundo)

theorem connectBlock_takesBack {env : ChainEnv} {stored : StoredBlock} {nHeight : Int}
    {coins' : Coins} {undo : CBlockUndo} (hmarked : stored.block.HonestlyMarked env)
    (hheight : nHeight ≠ 0) (hkept : coins.Kept) (hnew : NewTxids stored.block.vtx coins)
    (hundone : stored.vtxundo = some undo.vtxundo)
    (h : connectBlock env stored.block nHeight coins s = .ok (undo, coins') t) :
    coins' = rollforwardBlock stored nHeight coins ∧ coins'.Kept ∧
      TakesBack stored nHeight coins := by
  obtain ⟨scan, _, _, hcheck, hscan, -, -, -, rfl, rfl⟩ := connectBlock_ok h
  obtain ⟨coinbase, rest, hvtx, hcb, hrest, -⟩ := (checked_of_checkBlock hcheck hmarked).shape
  rw [hvtx] at hscan hnew
  obtain ⟨mid, u, hfirst, htail⟩ := run_bind_eq_ok.mp hscan
  obtain ⟨spent, hspends, hcoins, hundo⟩ := connectTx_afterTx hfirst
  rw [if_pos hcb] at hundo
  have hkept' : mid.coins.Kept := hcoins ▸ hkept.afterTx hheight
  obtain ⟨spents, hundo', hspents, hkept'', hcoins', hundoes⟩ :=
    connectTxs_undoes hrest hheight hkept' (hnew.connectTx hfirst) htail
  have hvtxundo : scan.vtxundo = spents := by
    rw [hundo', hundo]
    rfl
  refine ⟨?_, hkept'', scan.vtxundo, hundone, hvtxundo ▸ hspents, ?_⟩
  · rw [rollforwardBlock, hvtx, foldl_cons, ← hcoins]
    exact hcoins'
  · have hundoTx := hspends.txUndoes nHeight hnew
    rw [if_pos hcb] at hundoTx
    rw [hcoins, afterTx_eq_write, accessCoin_write] at hundoes
    have hboth := hundoTx.append hundoes
    rw [blockBatch, blockUndoBatch, hvtx, hvtxundo]
    simpa using hboth

section Chain

variable {chain : List StoredBlock} {coins : Coins} {stored : StoredBlock}

theorem HashesName.below (h : HashesName (chainTxs (stored :: chain))) (hbased : chain ≠ []) :
    HashesName (chainTxs chain) := by
  rw [chainTxs_cons hbased] at h
  intro tx htx tx' htx'
  exact h tx (mem_append_left _ htx) tx' (mem_append_left _ htx')

theorem Connected.coins_eq (h : Connected chain coins) (hname : HashesName (chainTxs chain)) :
    coins = utxo chain ∧ coins.Kept := by
  have hempty : Coins.Kept .empty := by intro out coin haccess; cases haccess
  induction h with
  | empty => exact ⟨rfl, hempty⟩
  | genesis stored => exact ⟨rfl, hempty⟩
  | connect env s t stored below based height marked starts connects undone ih =>
    have hnew := Connected.newTxids (.connect env s t stored below based height marked starts
      connects undone) based below hname
    obtain ⟨hcoins, hkept⟩ := ih (hname.below based)
    have hpos := length_pos_iff.mpr based
    obtain ⟨hcoins', hkept', -⟩ := connectBlock_takesBack marked (by omega) hkept hnew undone
      connects
    rw [utxo_cons based, ← hcoins]
    exact ⟨hcoins', hkept'⟩

theorem Connected.takesBack (h : Connected (stored :: chain) coins) (hbased : chain ≠ [])
    (hname : HashesName (chainTxs (stored :: chain))) :
    TakesBack stored chain.length (utxo chain) ∧ ∃ coins, Connected chain coins := by
  cases h with
  | genesis => exact absurd rfl hbased
  | connect env s t _ below based height marked starts connects undone =>
    have hnew := Connected.newTxids (.connect env s t stored below based height marked starts
      connects undone) based below hname
    obtain ⟨hcoins, hkept⟩ := below.coins_eq (hname.below based)
    have hpos := length_pos_iff.mpr based
    obtain ⟨-, -, htakes⟩ := connectBlock_takesBack marked (by omega) hkept hnew undone connects
    rw [← hcoins]
    exact ⟨htakes, _, below⟩

end Chain

/-- The writes of the blocks of a branch, its tip first, on top of a chain of the given length. -/
def branchBatch (branch : List StoredBlock) (base : Nat) : Batch COutPoint Coin :=
  match branch with
  | [] => []
  | stored :: branch => branchBatch branch base ++ blockBatch stored ((branch.length + base : Nat) : Int)

section Branch

variable {base : List StoredBlock}

theorem utxo_append (branch : List StoredBlock) (hbase : base ≠ []) :
    (utxo (branch ++ base)).accessCoin =
      afterAll (branchBatch branch base.length) (utxo base).accessCoin := by
  induction branch with
  | nil => rfl
  | cons stored branch ih =>
    have hne : branch ++ base ≠ [] := by simp [hbase]
    rw [cons_append, utxo_cons hne, rollforwardBlock_eq_write, accessCoin_write, ih,
      ← afterAll_append, length_append]
    rfl

theorem rollHeight_cons {pindex : List StoredBlock} {nHeight : Nat}
    (h : nHeight < pindex.length) (coins : Coins) :
    rollHeight (stored :: pindex) coins nHeight = rollHeight pindex coins nHeight := by
  have hdrop : (stored :: pindex).length - 1 - nHeight = pindex.length - 1 - nHeight + 1 := by
    rw [length_cons]
    omega
  rw [rollHeight, rollHeight, hdrop, drop_succ_cons]

theorem rollHeight_tip (pindex : List StoredBlock) (coins : Coins) :
    rollHeight (stored :: pindex) coins pindex.length =
      rollforwardBlock stored pindex.length coins := by
  simp [rollHeight]

theorem rollForward_eq_write (branch : List StoredBlock) (hbase : base ≠ []) (coins : Coins) :
    rollForward (branch ++ base) (base.length - 1) coins =
      write coins (branchBatch branch base.length) := by
  have hpos := length_pos_iff.mpr hbase
  induction branch with
  | nil =>
    rw [rollForward, nil_append, Nat.sub_self]
    rfl
  | cons stored branch ih =>
    -- the last height is that of the tip, and those before it are of the chain below
    have hcount : (stored :: (branch ++ base)).length - 1 - (base.length - 1) =
        branch.length + 1 := by
      simp only [length_cons, length_append]
      omega
    have hcount' : (branch ++ base).length - 1 - (base.length - 1) = branch.length := by
      rw [length_append]
      omega
    have htip : base.length - 1 + 1 + 1 * branch.length = (branch ++ base).length := by
      rw [length_append]
      omega
    have hbelow : (List.range' (base.length - 1 + 1) branch.length).foldl
          (rollHeight (stored :: (branch ++ base))) coins =
        rollForward (branch ++ base) (base.length - 1) coins := by
      rw [rollForward, hcount']
      apply foldl_ext
      intro coins nHeight hin
      apply rollHeight_cons
      have hlt := (mem_range'_1.mp hin).2
      omega
    rw [cons_append, rollForward, hcount, range'_concat, foldl_append, hbelow, ih,
      htip, foldl_cons, foldl_nil, rollHeight_tip, rollforwardBlock_eq_write,
      write_append, length_append]
    rfl

/-- Rolling a branch back makes the writes of its undo data, whatever coins are there. -/
theorem rollBack_eq_write {branch : List StoredBlock} (h : Connected (branch ++ base) coins)
    (hbase : base ≠ []) (hname : HashesName (chainTxs (branch ++ base))) :
    ∃ undo, Undoes (utxo base).accessCoin (branchBatch branch base.length) undo ∧
      ∀ env view view' s t, rollBack env base (branch ++ base) view s = .ok view' t →
        view' = write view undo := by
  induction branch generalizing coins with
  | nil =>
    refine ⟨[], undoes_nil _, ?_⟩
    intro env view view' s t hroll
    cases base with
    | nil => exact absurd rfl hbase
    | cons stored base =>
      rw [nil_append, rollBack, if_pos rfl] at hroll
      exact (run_pure_eq_ok.mp hroll).1.symm
  | cons stored branch ih =>
    have hne : branch ++ base ≠ [] := by simp [hbase]
    rw [cons_append] at h hname
    obtain ⟨⟨vtxundo, hundone, hkept, hundoes⟩, coins', hbelow⟩ := h.takesBack hne hname
    obtain ⟨undo, hundo, hrest⟩ := ih hbelow (hname.below hne)
    refine ⟨blockUndoBatch stored (branch ++ base).length vtxundo ++ undo, ?_, ?_⟩
    · rw [utxo_append branch hbase] at hundoes
      rw [length_append] at hundoes ⊢
      exact hundo.append hundoes
    · intro env view view' s t hroll
      have hfork : stored :: (branch ++ base) ≠ base := by
        intro heq
        have hlength := congrArg List.length heq
        simp at hlength
        omega
      have hempty : (branch ++ base).isEmpty = false := by simp [hbase]
      rw [cons_append, rollBack, if_neg hfork, hempty, hundone] at hroll
      simp only [Bool.false_eq_true, if_false, run_bind_eq_ok, run_lift_eq_ok,
        require_eq_ok] at hroll
      obtain ⟨_, _, ⟨heq, rfl⟩, scan, u, hdisconnect, hroll⟩ := hroll
      cases heq
      rw [hrest _ _ _ _ _ hroll, disconnectBlock_eq_write hkept hdisconnect, write_append]

end Branch

theorem commonSuffix_suffix {α : Type} [DecidableEq α] (as bs : List α) :
    commonSuffix as bs <:+ as ∧ commonSuffix as bs <:+ bs := by
  induction as generalizing bs with
  | nil => exact ⟨nil_suffix, by simp [commonSuffix]⟩
  | cons a as ih =>
    cases bs with
    | nil => simp [commonSuffix]
    | cons b bs =>
      rw [commonSuffix]
      split
      · rename_i heq
        rw [← heq]
        exact ⟨suffix_rfl, suffix_rfl⟩
      · obtain ⟨hleft, hright⟩ := ih bs
        exact ⟨hleft.trans (suffix_cons a as), hright.trans (suffix_cons b bs)⟩

theorem lastCommonAncestor_suffix {α : Type} [DecidableEq α] (pa pb : List α) :
    lastCommonAncestor pa pb <:+ pa ∧ lastCommonAncestor pa pb <:+ pb := by
  obtain ⟨hleft, hright⟩ := commonSuffix_suffix (pa.drop (pa.length - pb.length))
    (pb.drop (pb.length - pa.length))
  exact ⟨hleft.trans (drop_suffix _ _), hright.trans (drop_suffix _ _)⟩

/-- The hash under which the database names a tip; null before the first block. -/
def tipHash : List StoredBlock → UInt256
  | [] => 0
  | stored :: _ => stored.block.hash

/-- The two tips of a flush, with the coins that belong to them. The block index has them under
their hashes, none of which is null, and a transaction hash names one transaction. -/
structure TwoTips (mapBlockIndex : BlockPointers) where
  old : List StoredBlock
  new : List StoredBlock
  coinsOld : Coins
  coinsNew : Coins
  connectedOld : Connected old coinsOld
  connectedNew : Connected new coinsNew
  named : HashesName (chainTxs old) ∧ HashesName (chainTxs new)
  foundOld : old ≠ [] → mapBlockIndex.find? (tipHash old) = some (tipHash old, old)
  foundNew : mapBlockIndex.find? (tipHash new) = some (tipHash new, new)
  notNull : (old ≠ [] → tipHash old ≠ 0) ∧ tipHash new ≠ 0

namespace TwoTips

variable {mapBlockIndex : BlockPointers} (tips : TwoTips mapBlockIndex)

/-- Every coin is as one of the tips has it. -/
def Mixed (coins : COutPoint → Option Coin) : Prop :=
  ∀ out, coins out = tips.coinsOld.accessCoin out ∨ coins out = tips.coinsNew.accessCoin out

theorem new_ne_nil : tips.new ≠ [] := by
  intro hnil
  apply tips.notNull.2
  rw [hnil]
  rfl

/-- A replay takes the old branch back to the fork and applies the new one. After the first flush
nothing is taken back, and the genesis block is not applied. -/
theorem replayCoins_ok {view : Coins}
    (h : replayCoins env mapBlockIndex view (tipHash tips.new) (tipHash tips.old) s =
      .ok coins t) :
    (tips.old = [] ∧ coins = rollForward tips.new 0 view ∧ s = t) ∨
      lastCommonAncestor tips.old tips.new ≠ [] ∧
        ∃ rolled, rollBack env (lastCommonAncestor tips.old tips.new) tips.old view s =
            .ok rolled t ∧
          coins = rollForward tips.new ((lastCommonAncestor tips.old tips.new).length - 1) rolled := by
  simp only [replayCoins, tips.foundNew, run_bind_eq_ok, run_lift_eq_ok, require_eq_ok] at h
  obtain ⟨_, _, ⟨heq, rfl⟩, h⟩ := h
  cases heq
  by_cases hnull : tips.old = []
  · have hhash : tipHash tips.old = 0 := by rw [hnull]; rfl
    simp only [hhash, if_true] at h
    obtain ⟨rfl, rfl⟩ := run_pure_eq_ok.mp h
    exact .inl ⟨hnull, rfl, rfl⟩
  · have hhash : tipHash tips.old ≠ 0 := tips.notNull.1 hnull
    simp only [hhash, if_false, tips.foundOld hnull, run_bind_eq_ok, run_lift_eq_ok, require_eq_ok,
      ensure_eq_ok, run_pure_eq_ok] at h
    obtain ⟨_, _, ⟨heq, rfl⟩, _, _, ⟨hfork, rfl⟩, rolled, u, hroll, rfl, rfl⟩ := h
    cases heq
    exact .inr ⟨by simpa using hfork, rolled, hroll, rfl⟩

/-- From any mix of the two tips a replay comes to the coins of the new one. -/
theorem replayCoins_eq {view : Coins} (hmixed : tips.Mixed view.accessCoin)
    (h : replayCoins env mapBlockIndex view (tipHash tips.new) (tipHash tips.old) s =
      .ok coins t) : coins.accessCoin = tips.coinsNew.accessCoin := by
  obtain ⟨hold, -⟩ := tips.connectedOld.coins_eq tips.named.1
  obtain ⟨hnew, -⟩ := tips.connectedNew.coins_eq tips.named.2
  unfold Mixed at hmixed
  rw [hold, hnew] at hmixed
  rw [hnew]
  rcases tips.replayCoins_ok h with ⟨hnull, rfl, -⟩ | ⟨hbase, rolled, hroll, rfl⟩
  · have hsplit := dropLast_concat_getLast tips.new_ne_nil
    have hbase : [tips.new.getLast tips.new_ne_nil] ≠ [] := by simp
    have hforward := rollForward_eq_write tips.new.dropLast hbase view
    have hutxo := utxo_append tips.new.dropLast hbase
    rw [hsplit] at hforward hutxo
    rw [hnull, hutxo] at hmixed
    rw [hutxo]
    exact hforward ▸ (accessCoin_write _ _).trans ((undoes_nil _).converges hmixed)
  · obtain ⟨⟨branchOld, hsplitOld⟩, branchNew, hsplitNew⟩ :=
      lastCommonAncestor_suffix tips.old tips.new
    generalize lastCommonAncestor tips.old tips.new = fork at *
    have hforward := rollForward_eq_write branchNew hbase rolled
    have hutxoOld := utxo_append branchOld hbase
    have hutxoNew := utxo_append branchNew hbase
    rw [hsplitNew] at hforward hutxoNew
    have hconnected := tips.connectedOld
    have hname := tips.named.1
    rw [← hsplitOld] at hconnected hname
    obtain ⟨undo, hundoes, hback⟩ := rollBack_eq_write hconnected hbase hname
    rw [hsplitOld] at hback hutxoOld
    rw [hutxoOld, hutxoNew] at hmixed
    rw [hforward, hutxoNew, hback _ _ _ _ _ hroll, write_append, accessCoin_write]
    exact hundoes.converges hmixed

end TwoTips

namespace CoinsDatabase

open CCoinsViewCache

variable (full : Nat → Bool) (finish : List CoinsWrite)

/-- The batches that were written hold a first part of the changed entries, or everything. -/
theorem batchesFrom_take (n : Nat) (items : List (COutPoint × CCoinsCacheEntry))
    (batch : List CoinsWrite) {k : Nat} (hk : 0 < k) :
    (∃ part : List (COutPoint × CCoinsCacheEntry),
      (∀ item ∈ part, item ∈ items ∧ item.2.dirty = true) ∧
      ((batchesFrom full finish n items batch).take k).flatten = batch ++ part.map .coin) ∨
    ((batchesFrom full finish n items batch).take k).flatten =
      batch ++ (items.filter (·.2.dirty)).map .coin ++ finish := by
  induction items generalizing n batch k with
  | nil =>
    right
    cases k with
    | zero => cases hk
    | succ k => simp [batchesFrom]
  | cons item items ih =>
    -- what the round adds to the batch
    obtain ⟨added, hadded, hfilter, hbatch⟩ : ∃ added : List (COutPoint × CCoinsCacheEntry),
        (∀ e ∈ added, e ∈ item :: items ∧ e.2.dirty = true) ∧
        (item :: items).filter (·.2.dirty) = added ++ items.filter (·.2.dirty) ∧
        (if item.2.dirty then batch ++ [.coin item] else batch) = batch ++ added.map .coin := by
      by_cases hdirty : item.2.dirty = true
      · exact ⟨[item], by simp [hdirty], by simp [hdirty], by simp [hdirty]⟩
      · exact ⟨[], by simp, by simp [hdirty], by simp [hdirty]⟩
    have hlater : ∀ {part : List (COutPoint × CCoinsCacheEntry)},
        (∀ e ∈ part, e ∈ items ∧ e.2.dirty = true) →
        ∀ e ∈ added ++ part, e ∈ item :: items ∧ e.2.dirty = true := by
      intro part hpart e he
      rcases mem_append.mp he with he | he
      · exact hadded e he
      · exact ⟨mem_cons_of_mem _ (hpart e he).1, (hpart e he).2⟩
    rw [batchesFrom, hbatch, hfilter]
    by_cases hfull : full n = true
    · simp only [hfull, if_true]
      obtain ⟨k, rfl⟩ := Nat.exists_eq_add_of_lt hk
      rw [Nat.zero_add, take_succ_cons, flatten_cons]
      rcases Nat.eq_zero_or_pos k with rfl | hpos
      · exact .inl ⟨added, hadded, by simp⟩
      · rcases ih (n + 1) [] hpos with ⟨part, hpart, heq⟩ | heq
        · exact .inl ⟨added ++ part, hlater hpart, by rw [heq]; simp⟩
        · exact .inr (by rw [heq]; simp)
    · simp only [hfull, Bool.false_eq_true, if_false]
      rcases ih (n + 1) (batch ++ added.map .coin) hk with ⟨part, hpart, heq⟩ | heq
      · exact .inl ⟨added ++ part, hlater hpart, by rw [heq]; simp⟩
      · exact .inr (by rw [heq]; simp)

theorem batchesFrom_flatten (n : Nat) (items : List (COutPoint × CCoinsCacheEntry))
    (batch : List CoinsWrite) :
    (batchesFrom full finish n items batch).flatten =
      batch ++ (items.filter (·.2.dirty)).map .coin ++ finish := by
  induction items generalizing n batch with
  | nil => simp [batchesFrom]
  | cons item items ih =>
    rw [batchesFrom]
    by_cases hdirty : item.2.dirty = true
    · by_cases hfull : full n = true
      · simp [hdirty, hfull, ih]
      · simp [hdirty, hfull, ih]
    · by_cases hfull : full n = true
      · simp [hdirty, hfull, ih]
      · simp [hdirty, hfull, ih]

variable (db : CoinsDatabase)

theorem writeBatches_eq (batches : List (List CoinsWrite)) :
    db.writeBatches batches = db.writeBatch batches.flatten := by
  rw [writeBatches, writeBatch, foldl_flatten]
  rfl

theorem writeBatch_coins (part : List (COutPoint × CCoinsCacheEntry)) :
    db.writeBatch (part.map .coin) = { db with view := part.foldl writeEntry db.view } := by
  rw [writeBatch, foldl_map]
  induction part generalizing db with
  | nil => rfl
  | cons item part ih => rw [foldl_cons, ih, foldl_cons]; rfl

theorem writeBatch_append (first second : List CoinsWrite) :
    db.writeBatch (first ++ second) = (db.writeBatch first).writeBatch second :=
  foldl_append

/-- Entries of a cache that were written leave, at each outpoint, what was there or what the cache
shows. -/
theorem getCoin_part {base : CCoinsViewDB} {cache : CCoinsMap}
    {part : List (COutPoint × CCoinsCacheEntry)}
    (hpart : ∀ item ∈ part, item ∈ cache.items ∧ item.2.dirty = true) (db : CCoinsViewDB)
    (out : COutPoint) :
    (part.foldl writeEntry db).getCoin out = db.getCoin out ∨
      (part.foldl writeEntry db).getCoin out =
        viewed CCoinsViewDB.view base [cache] out := by
  induction part generalizing db with
  | nil => exact .inl rfl
  | cons item part ih =>
    rw [foldl_cons]
    rcases ih (fun e he => hpart e (mem_cons_of_mem _ he)) (db.writeEntry item) with heq | heq
    · rw [heq, getCoin_writeEntry]
      split
      · rename_i hkey
        obtain ⟨rfl, -⟩ := hkey
        right
        have hfind := KeyedSet.find?_of_mem (hpart item mem_cons_self).1
        simp only [viewed, CCoinsMap.slot, hfind, Option.map_some, WriteBack.shows_some]
        rfl
      · exact .inl rfl
    · exact .inr heq

/-- All changed entries of a cache, written, give what the cache shows. -/
theorem getCoin_all {db : CCoinsViewDB} (cacheOver : CacheOver db coins) (out : COutPoint) :
    ((cacheOver.cache.items.filter (·.2.dirty)).foldl writeEntry db).getCoin out =
      coins.accessCoin out := by
  have hclean : (cacheOver.cache.items.filter (·.2.dirty)).foldl writeEntry db =
      db.batchWrite cacheOver.cache := by
    rw [batchWrite]
    generalize cacheOver.cache.items = items
    clear cacheOver out
    induction items generalizing db with
    | nil => rfl
    | cons item items ih =>
      rw [filter_cons, foldl_cons]
      by_cases hdirty : item.2.dirty = true
      · rw [if_pos hdirty, foldl_cons, ih]
      · have hsame : db.writeEntry item = db := if_neg hdirty
        rw [if_neg hdirty, ih, hsame]
  rw [hclean, ← cacheOver.shows out, ← viewed_write cacheOver.sound]
  exact CCoinsViewDB.view.getCoin_batchWrite db cacheOver.cache out

/-- The database stands for the coins of a tip. -/
structure At (db : CoinsDatabase) (hash : UInt256) (coins : Coins) : Prop where
  bestBlock : db.bestBlock = hash
  headBlocks : db.headBlocks = []
  getCoin : ∀ out, db.view.getCoin out = coins.accessCoin out

variable {db : CoinsDatabase} {coins : Coins}

/-- When all batches are written the database stands for the coins of the cache. -/
theorem writeBatches_all (full : Nat → Bool) (cacheOver : CacheOver db.view coins)
    (hash : UInt256) :
    (db.writeBatches (db.batches full cacheOver.cache hash)).At hash coins := by
  rw [writeBatches_eq, batches, batchesFrom_flatten, writeBatch_append, writeBatch_append,
    writeBatch_coins]
  exact ⟨rfl, rfl, getCoin_all cacheOver⟩

/-- After some batches the database is marked, and mixes what was there with the coins of the
cache; or the flush is through. -/
theorem writeBatches_take (full : Nat → Bool) (cacheOver : CacheOver db.view coins)
    (hash : UInt256) {k : Nat} (hk : 0 < k) :
    let db' := db.writeBatches ((db.batches full cacheOver.cache hash).take k)
    (db'.headBlocks = [hash, db.oldTip] ∧ db'.bestBlock = 0 ∧
      ∀ out, db'.view.getCoin out = db.view.getCoin out ∨
        db'.view.getCoin out = coins.accessCoin out) ∨
    db'.At hash coins := by
  intro db'
  rcases batchesFrom_take full [.headBlocks [], .bestBlock hash] 0
    cacheOver.cache.items [.bestBlock 0, .headBlocks [hash, db.oldTip]] hk with
    ⟨part, hpart, heq⟩ | heq
  · left
    have hdb' : db' =
        ⟨part.foldl writeEntry db.view, 0, [hash, db.oldTip]⟩ := by
      show db.writeBatches _ = _
      rw [writeBatches_eq, batches, heq, writeBatch_append, writeBatch_coins]
      rfl
    rw [hdb']
    refine ⟨rfl, rfl, ?_⟩
    intro out
    rw [← cacheOver.shows out]
    exact getCoin_part hpart db.view out
  · right
    have hall : db' = db.writeBatches (db.batches full cacheOver.cache hash) := by
      show db.writeBatches _ = _
      rw [writeBatches_eq, writeBatches_eq, batches, heq, batchesFrom_flatten]
    rw [hall]
    exact writeBatches_all full cacheOver hash

end CoinsDatabase

/-- What is in the coin database when a flush from the old to the new tip has been interrupted after
one of its batches, and replays after it have been interrupted in the same way. -/
inductive Interrupted {mapBlockIndex : BlockPointers} (tips : TwoTips mapBlockIndex) :
    CoinsDatabase → Prop
  | flush {db : CoinsDatabase} (start : db.At (tipHash tips.old) tips.coinsOld)
      (cacheOver : CacheOver db.view tips.coinsNew) (full : Nat → Bool) (k : Nat) (begun : 0 < k) :
      Interrupted tips
        (db.writeBatches ((db.batches full cacheOver.cache (tipHash tips.new)).take k))
  | replay {db : CoinsDatabase} {env : CBlock → Env} {s : AssetState} (before : Interrupted tips db)
      (flush : ReplayFlush env mapBlockIndex s db) (k : Nat) :
      Interrupted tips (db.writeBatches (flush.batches.take k))

section Recovery

variable {mapBlockIndex : BlockPointers} {tips : TwoTips mapBlockIndex} {db : CoinsDatabase}

/-- The database is at the new tip, or marked and a mix of the two tips. -/
def Recoverable (tips : TwoTips mapBlockIndex) (db : CoinsDatabase) : Prop :=
  (db.headBlocks = [tipHash tips.new, tipHash tips.old] ∧ db.bestBlock = 0 ∧
    tips.Mixed db.view.getCoin) ∨ db.At (tipHash tips.new) tips.coinsNew

/-- The flush of a replay writes coins of the new tip. -/
theorem ReplayFlush.coins_eq (h : Recoverable tips db)
    (flush : ReplayFlush env mapBlockIndex s db) :
    db.headBlocks = [tipHash tips.new, tipHash tips.old] ∧ db.bestBlock = 0 ∧
      tips.Mixed db.view.getCoin ∧ flush.hashNew = tipHash tips.new ∧
      flush.coins.accessCoin = tips.coinsNew.accessCoin := by
  obtain ⟨hashNew, hashOld, coins, assets, heads, replayed, cacheOver, full⟩ := flush
  rcases h with ⟨hheads, hbest, hmixed⟩ | hat
  · rw [hheads] at heads
    cases heads
    exact ⟨hheads, hbest, hmixed, rfl, tips.replayCoins_eq hmixed replayed⟩
  · rw [hat.headBlocks] at heads
    cases heads

theorem Interrupted.recoverable (h : Interrupted tips db) : Recoverable tips db := by
  induction h with
  | @flush db start cacheOver full k begun =>
    rcases CoinsDatabase.writeBatches_take full cacheOver (tipHash tips.new) begun with
      ⟨hheads, hbest, hcoins⟩ | hat
    · have hold : db.oldTip = tipHash tips.old := by
        rw [CoinsDatabase.oldTip, start.bestBlock, start.headBlocks]
        split
        · rename_i hnull
          exact hnull.symm
        · rfl
      rw [hold] at hheads
      refine .inl ⟨hheads, hbest, ?_⟩
      intro out
      rw [← start.getCoin out]
      exact hcoins out
    · exact .inr hat
  | @replay db env s before flush k ih =>
    obtain ⟨hheads, hbest, hmixed, hhash, hcoins⟩ := flush.coins_eq ih
    cases k with
    | zero => exact ih
    | succ k =>
      have htake := CoinsDatabase.writeBatches_take flush.full flush.cacheOver flush.hashNew
        (Nat.succ_pos k)
      rw [hhash] at htake
      rcases htake with ⟨hheads', hbest', hcoins'⟩ | hat
      · have hold : db.oldTip = tipHash tips.old := by
          rw [CoinsDatabase.oldTip, if_pos hbest, hheads]
        rw [hold] at hheads'
        refine .inl ⟨by rw [ReplayFlush.batches, hhash]; exact hheads',
          by rw [ReplayFlush.batches, hhash]; exact hbest', ?_⟩
        intro out
        rw [ReplayFlush.batches, hhash]
        rcases hcoins' out with heq | heq
        · rw [heq]
          exact hmixed out
        · right
          rw [heq, hcoins]
      · right
        rw [ReplayFlush.batches, hhash]
        refine ⟨hat.bestBlock, hat.headBlocks, ?_⟩
        intro out
        rw [hat.getCoin out, hcoins]

/-- When `ReplayBlocks` returns true on such a database, it is at the new tip. -/
theorem Recoverable.replayBlocks {db' : CoinsDatabase} (h : Recoverable tips db)
    (hreplay : ReplayBlocks env mapBlockIndex s db db' t) :
    db'.At (tipHash tips.new) tips.coinsNew := by
  cases hreplay with
  | consistent heads =>
    rcases h with ⟨hheads, -⟩ | hat
    · rw [heads] at hheads
      cases hheads
    · exact hat
  | replayed flush =>
    obtain ⟨-, -, -, hhash, hcoins⟩ := flush.coins_eq h
    have hat := CoinsDatabase.writeBatches_all flush.full flush.cacheOver flush.hashNew
    rw [ReplayFlush.batches]
    refine ⟨hat.bestBlock.trans hhash, hat.headBlocks, ?_⟩
    intro out
    rw [hat.getCoin out, hcoins]

end Recovery

/-- However often the flush and the replays after it were interrupted, when `ReplayBlocks` returns
true the coin database is at the new tip and holds exactly its coins. -/
theorem replay_restores_coins {mapBlockIndex : BlockPointers} (tips : TwoTips mapBlockIndex)
    {db db' : CoinsDatabase} {env : CBlock → Env} {s t : AssetState} (h : Interrupted tips db)
    (hreplay : ReplayBlocks env mapBlockIndex s db db' t) :
    db'.At (tipHash tips.new) tips.coinsNew :=
  h.recoverable.replayBlocks hreplay

/-- The changes that turn the coins of the database into others: every coin is erased, and the
others are written. -/
def rewriteCache (db : CCoinsViewDB) (coins : Coins) : CCoinsMap :=
  write .empty
    ((db.coins.items.map fun item => (item.1, some ⟨.null, true, false⟩)) ++
      coins.items.map fun item => (item.1, some ⟨item.2, true, false⟩))

theorem slot_rewriteCache (db : CCoinsViewDB) (coins : Coins) (out : COutPoint) :
    (rewriteCache db coins).slot out =
      match coins.accessCoin out with
      | some coin => some ⟨coin.unspent?, true, false⟩
      | none => (db.getCoin out).map fun _ => ⟨none, true, false⟩ := by
  have herased := last_items db.coins (fun _ => (⟨.null, true, false⟩ : CCoinsCacheEntry)) out
  have hwritten := last_items coins (fun coin => (⟨coin, true, false⟩ : CCoinsCacheEntry)) out
  rw [CCoinsMap.slot, rewriteCache, find?_write, last_append, herased, hwritten, accessCoin,
    CCoinsViewDB.getCoin, accessCoin]
  cases coins.find? out with
  | some item => rfl
  | none =>
    cases db.coins.find? out with
    | some item => rfl
    | none => rfl

/-- Any coins that are not spent can be written over a database. -/
def CacheOver.rewrite (db : CCoinsViewDB) (coins : Coins)
    (hcoins : ∀ item ∈ coins.items, item.2.isSpent = false) : CacheOver db coins where
  cache := rewriteCache db coins
  sound := by
    refine ⟨?_, trivial⟩
    intro out
    rw [slot_rewriteCache]
    cases coins.accessCoin out with
    | some coin => exact WriteBack.sound_dirty (by simp)
    | none =>
        cases db.getCoin out with
        | some coin => exact WriteBack.sound_dirty (by simp)
        | none => exact WriteBack.sound_none _
  shows := by
    intro out
    show WriteBack.shows ((rewriteCache db coins).slot out) (db.getCoin out) = _
    rw [slot_rewriteCache]
    cases hcoin : coins.accessCoin out with
    | some coin =>
        exact Coin.unspent?_of_unspent
          (hcoins _ (KeyedSet.mem_of_find? (accessCoin_eq_some.mp hcoin)))
    | none =>
        cases db.getCoin out with
        | some coin => rfl
        | none => rfl

def genesisBlock : StoredBlock := ⟨⟨1, [], false⟩, none⟩

theorem chainTxs_eq (branch : List StoredBlock) (genesis : StoredBlock) :
    chainTxs (branch ++ [genesis]) = (branch.map (·.block)).reverse.flatMap (·.vtx) := by
  induction branch with
  | nil => rfl
  | cons stored branch ih =>
    rw [cons_append, chainTxs_cons (by simp), ih]
    simp

/-- The chain of a node as it stands on disk, on top of the genesis block. -/
def Node.onDisk (n : Node) : List StoredBlock :=
  n.chain.map (fun block => ⟨block, (n.undoFile.find? block.hash).map (·.2)⟩) ++ [genesisBlock]

/-- Blocks that were not checked before, with hashes of their own and transactions of their own, and
with coinbases that name their heights. -/
structure FreshBlocks (blocks : List CBlock) : Prop where
  few : blocks.length + 1 < 2 ^ 31
  unchecked : ∀ block ∈ blocks, block.fChecked = false
  heights : ∀ item ∈ blocks.zipIdx 1, ∀ tx ∈ item.1.vtx.head?, tx.startsWithHeight item.2 = true
  hashes : (blocks.map (·.hash)).Nodup
  txids : ((blocks.flatMap (·.vtx)).map (·.hash)).Nodup

theorem FreshBlocks.init {blocks : List CBlock} {block : CBlock}
    (h : FreshBlocks (blocks ++ [block])) : FreshBlocks blocks where
  few := by
    have hfew := h.few
    rw [length_append] at hfew
    omega
  unchecked block' hin := h.unchecked block' (mem_append_left _ hin)
  heights item hin := h.heights item (by rw [zipIdx_append]; exact mem_append_left _ hin)
  hashes := h.hashes.sublist ((sublist_append_left _ _).map _)
  txids := h.txids.sublist (((sublist_append_left _ _).flatMap _).map _)

theorem Node.acts_append (n : Node) (acts later : List Node.Act) :
    n.acts (acts ++ later) = (n.acts acts).bind fun m => m.acts later := by
  induction acts generalizing n with
  | nil => rfl
  | cons a acts ih =>
    rw [cons_append, Node.acts, Node.acts, Option.bind_assoc]
    exact congrArg _ (funext fun m => ih m)

theorem Node.onDisk_insert {n : Node} {block : CBlock} {vtxundo : List (List Coin)} {coins : Coins}
    {assets : AssetState} (hnew : block.hash ∉ n.chain.map (·.hash))
    (hnone : n.undoFile.find? block.hash = none) :
    Node.onDisk ⟨coins, assets, block :: n.chain, n.undoFile.insert (block.hash, vtxundo)⟩ =
      ⟨block, some vtxundo⟩ :: n.onDisk := by
  rw [Node.onDisk, Node.onDisk, map_cons, cons_append, KeyedSet.find?_insert, if_pos rfl, hnone]
  congr 2
  apply map_congr_left
  intro block' hin
  rw [KeyedSet.find?_insert, if_neg]
  exact fun heq => hnew (mem_map.mpr ⟨block', hin, heq.symm⟩)

/-- A node that connects blocks on an empty data directory has a connected chain on disk. -/
theorem Node.connected_of_acts {env : ChainEnv} {blocks : List CBlock} {n : Node}
    (h : FreshBlocks blocks) (hacts : ({} : Node).acts (blocks.map (.connectTip env)) = some n) :
    n.chain = blocks.reverse ∧
      (∀ hash, hash ∉ blocks.map (·.hash) → n.undoFile.find? hash = none) ∧
      Connected n.onDisk n.coins := by
  induction blocks using List.reverseRecOn generalizing n with
  | nil =>
    obtain rfl := Option.some.inj hacts
    exact ⟨rfl, fun _ _ => rfl, .genesis genesisBlock⟩
  | append_singleton blocks block ih =>
    rw [map_append, Node.acts_append, Option.bind_eq_some_iff] at hacts
    obtain ⟨m, hm, hlast⟩ := hacts
    obtain ⟨hchain, hfile, hconnected⟩ := ih h.init hm
    obtain ⟨_, hact, hn⟩ := Option.bind_eq_some_iff.mp hlast
    cases hn
    obtain ⟨undo, coins, assets, hconnect, rfl⟩ := Node.connectTip_some hact
    have hnew : block.hash ∉ blocks.map (·.hash) := by
      have hnodup := h.hashes
      rw [map_append, nodup_append] at hnodup
      exact fun hin => hnodup.2.2 _ hin _ (mem_singleton_self _) rfl
    refine ⟨by rw [hchain, reverse_append]; rfl, fun hash hout => ?_, ?_⟩
    · rw [map_append, mem_append, not_or, map_singleton, mem_singleton] at hout
      rw [KeyedSet.find?_insert, if_neg (Ne.symm hout.2), hfile hash hout.1]
    · have hlength : m.onDisk.length = blocks.length + 1 := by simp [Node.onDisk, hchain]
      have hfew := h.few
      rw [length_append] at hfew
      rw [onDisk_insert (by simpa [hchain] using hnew) (hfile _ hnew)]
      rw [hchain, length_reverse] at hconnect
      refine .connect env m.assets assets _ hconnected (by simp [Node.onDisk]) ?_ ?_ ?_ ?_ rfl
      · rw [hlength]
        exact Nat.lt_of_succ_lt hfew
      · intro hchecked
        rw [h.unchecked block (by simp)] at hchecked
        cases hchecked
      · rw [hlength]
        exact h.heights (block, blocks.length + 1) (by simp [zipIdx_append, Nat.add_comm])
      · rw [hlength]
        exact hconnect

theorem Node.chainTxs_onDisk {blocks : List CBlock} {n : Node} (h : n.chain = blocks.reverse) :
    chainTxs n.onDisk = blocks.flatMap (·.vtx) := by
  rw [Node.onDisk, chainTxs_eq, h]
  simp [Function.comp_def]

theorem FreshBlocks.hashesName {blocks : List CBlock} (h : FreshBlocks blocks) :
    HashesName (blocks.flatMap (·.vtx)) :=
  fun _ htx _ htx' heq => inj_on_of_nodup_map h.txids htx htx' heq

/-- A block whose coinbase names its height. -/
def heightBlock (nHeight : Nat) (hash : UInt256) (values : List CAmount)
    (txs : List CTransaction) : CBlock :=
  ⟨hash, ⟨[⟨⟨0, 2 ^ 32 - 1⟩, pushInt nHeight ++ [0]⟩],
    values.map fun nValue => ⟨nValue, scriptForKeyID issuerKey⟩, hash⟩ :: txs, false⟩

/-- Two chains that the block index finds by their tips. -/
def TwoTips.ofChains {old new : List StoredBlock} {coinsOld coinsNew : Coins}
    (hold : Connected old coinsOld) (hnew : Connected new coinsNew)
    (hnamed : HashesName (chainTxs old) ∧ HashesName (chainTxs new))
    (htips : tipHash old ≠ 0 ∧ tipHash new ≠ 0 ∧ tipHash old ≠ tipHash new) :
    TwoTips ((KeyedSet.empty.insert (tipHash old, old)).insert (tipHash new, new)) where
  old := old
  new := new
  coinsOld := coinsOld
  coinsNew := coinsNew
  connectedOld := hold
  connectedNew := hnew
  named := hnamed
  foundOld _ := by
    rw [KeyedSet.find?_insert, if_neg htips.2.2.symm, KeyedSet.find?_insert, if_pos rfl]
    rfl
  foundNew := by
    rw [KeyedSet.find?_insert, if_pos rfl, KeyedSet.find?_insert, if_neg htips.2.2]
    rfl
  notNull := ⟨fun _ => htips.1, htips.2.1⟩

/-- A first block on top of the genesis block, whose coinbase pays 50 coins. -/
def firstBlock (hash : UInt256) : CBlock := heightBlock 1 hash [50 * coin] []

/-- The flush between two tips is interrupted when one coin is written and the others are still
there. -/
def firstInterrupted (view : CCoinsViewDB) (coins : Coins) (hashOld hashNew : UInt256) :
    CoinsDatabase :=
  let db : CoinsDatabase := ⟨view, hashOld, []⟩
  db.writeBatches ((db.batches (fun n => n = 0) (rewriteCache view coins) hashNew).take 1)

/-- The coin of block 2 that the interrupted flush to block 3 left is erased by the replay. -/
theorem firstTips_restored :
    ∃ (mapBlockIndex : BlockPointers) (tips : TwoTips mapBlockIndex) (db db' : CoinsDatabase)
      (t : AssetState), Interrupted tips db ∧ (db.view.getCoin ⟨2, 0⟩).isSome = true ∧
      (db.view.getCoin ⟨3, 0⟩).isSome = true ∧
      ReplayBlocks (fun _ => regTestChain.toEnv) mapBlockIndex {} db db' t ∧
      db'.At (tipHash tips.new) tips.coinsNew ∧ db'.view.getCoin ⟨2, 0⟩ = none := by
  obtain ⟨old, hold, new, hnew, hcoins, hcoins', db, hdb, hleft, hwritten, hheads, hgone, coins, t,
      hreplay, hunspent⟩ :
      ∃ old, ({} : Node).acts [.connectTip regTestChain (firstBlock 2)] = some old ∧
      ∃ new, ({} : Node).acts [.connectTip regTestChain (firstBlock 3)] = some new ∧
      ∃ hcoins : (∀ item ∈ old.coins.items, item.2.isSpent = false),
      ∃ _ : (∀ item ∈ new.coins.items, item.2.isSpent = false),
      ∃ db, some (firstInterrupted ⟨old.coins, hcoins⟩ new.coins (tipHash old.onDisk)
        (tipHash new.onDisk)) = some db ∧
      (db.view.getCoin ⟨2, 0⟩).isSome = true ∧ (db.view.getCoin ⟨3, 0⟩).isSome = true ∧
      db.headBlocks = [tipHash new.onDisk, tipHash old.onDisk] ∧
      new.coins.accessCoin ⟨2, 0⟩ = none ∧
      ∃ coins t, replayCoins (fun _ => regTestChain.toEnv)
        ((KeyedSet.empty.insert (tipHash old.onDisk, old.onDisk)).insert
          (tipHash new.onDisk, new.onDisk))
        db.view.coins (tipHash new.onDisk) (tipHash old.onDisk) {} = .ok coins t ∧
      ∀ item ∈ coins.items, item.2.isSpent = false := by
    decide +kernel
  have hfresh : FreshBlocks [firstBlock 2] ∧ FreshBlocks [firstBlock 3] := by
    constructor <;> constructor <;> decide +kernel
  obtain ⟨hchain, -, hconnected⟩ := Node.connected_of_acts hfresh.1 hold
  obtain ⟨hchain', -, hconnected'⟩ := Node.connected_of_acts hfresh.2 hnew
  let tips := TwoTips.ofChains hconnected hconnected'
    ⟨Node.chainTxs_onDisk hchain ▸ hfresh.1.hashesName,
      Node.chainTxs_onDisk hchain' ▸ hfresh.2.hashesName⟩
    (by simp [Node.onDisk, hchain, hchain', tipHash]; decide)
  have hinterrupted : Interrupted tips db := by
    rw [← Option.some.inj hdb]
    exact .flush ⟨rfl, rfl, fun _ => rfl⟩ (.rewrite _ _ hcoins') (fun n => n = 0) 1 Nat.one_pos
  have hreplayed := ReplayBlocks.replayed ⟨_, _, coins, t, hheads, hreplay,
    .rewrite db.view coins hunspent, fun _ => false⟩
  have hat := replay_restores_coins tips hinterrupted hreplayed
  exact ⟨_, tips, db, _, _, hinterrupted, hleft, hwritten, hreplayed, hat,
    (hat.getCoin _).trans hgone⟩

/-- Gold is issued in the last of 102 blocks, which spends the coinbase of the first. -/
def goldBlocks : List CBlock :=
  heightBlock 1 7 [500 * coin] [] ::
    ((List.range 100).map fun i => heightBlock (2 + i) (1000 + i) [0] []) ++
    [heightBlock 102 20 [0] [goldIssueTx 21 0]]

theorem goldBlocks_fresh : FreshBlocks goldBlocks := by
  constructor <;> decide +kernel

/-- The chain is connected, and its last two blocks are disconnected again. -/
theorem goldBlocks_run :
    ∃ n : Node, ({} : Node).acts (goldBlocks.map (.connectTip regTestChain)) = some n ∧
      ∃ coins' t, rollBack (fun _ => regTestChain.toEnv) (n.onDisk.drop 2) n.onDisk n.coins n.assets =
        .ok coins' t ∧ n.coins.contains ⟨7, 0⟩ = false ∧ coins'.contains ⟨7, 0⟩ = true := by
  decide +kernel

/-- No two transactions of a connected chain spend the same output. The coins were created by
transactions of the chain and spent by none, and what is created and no input names is a coin. -/
theorem no_double_spend {chain : List StoredBlock} (h : Connected chain coins)
    (hname : HashesName (chainTxs chain)) :
    ((chainTxs chain).Pairwise fun tx later => ∀ out ∈ tx.spentInputs.map (·.prevout),
      out ∉ later.spentInputs.map (·.prevout)) ∧
    TxHistory (chainTxs chain) coins ∧
    ∀ out, (∃ tx ∈ chainTxs chain, tx.Creates out) →
      (∀ tx ∈ chainTxs chain, out ∉ tx.prevouts) → coins.contains out = true := by
  induction h with
  | empty | genesis =>
    exact ⟨.nil, txHistory_empty, fun out ⟨_, hin, _⟩ _ => absurd hin not_mem_nil⟩
  | connect env s t stored below based height marked starts connects undone ih =>
    have hwhole := Connected.connect env s t stored below based height marked starts connects undone
    have hhistory := (hwhole.history hname).1
    have hnew := hwhole.newTxids based below hname
    obtain ⟨honce, hbelow, hleft⟩ := ih (hname.below based)
    have hnodup := hhistory.nodup
    obtain ⟨scan, _, _, -, hscan, -, -, -, -, rfl⟩ := connectBlock_ok connects
    rw [chainTxs_cons based] at hnodup hhistory ⊢
    rw [map_append, nodup_append] at hnodup
    refine ⟨pairwise_append.mpr ⟨honce, connectTxs_spend_once hscan hnew, ?_⟩, hhistory, ?_⟩
    · intro tx htx later hlater out hout hagain
      -- the later block finds the output among the coins below it, or creates it
      rcases connectTxs_spent hscan hlater hagain with hcoin | ⟨creator', hin', hcreates'⟩
      · exact hbelow.unspent out hcoin tx htx hout
      · obtain ⟨creator, hin, hcreates⟩ := hbelow.spent tx htx out hout
        apply hnodup.2.2 _ (mem_map_of_mem hin) _ (mem_map_of_mem hin')
        rw [← hash_of_creates hcreates, hash_of_creates hcreates']
    · rintro out ⟨tx, htx, hcreates⟩ hunspent
      refine connectTxs_leaves hscan ?_ fun tx' htx' => hunspent tx' (mem_append_right _ htx')
      rcases mem_append.mp htx with htx | htx
      · exact .inl (hleft out ⟨tx, htx, hcreates⟩ fun tx' htx' =>
          hunspent tx' (mem_append_left _ htx'))
      · exact .inr ⟨tx, htx, hcreates⟩

/-- The transaction that issues gold spends the coin of the first block, and nothing spends the
gold. -/
theorem goldBlocks_no_double_spend :
    ∃ n : Node, ({} : Node).acts (goldBlocks.map (.connectTip regTestChain)) = some n ∧
      goldIssueTx 21 0 ∈ chainTxs n.onDisk ∧ n.coins.contains ⟨7, 0⟩ = false ∧
      n.coins.contains ⟨21, 2⟩ = true := by
  obtain ⟨n, hn, -⟩ := goldBlocks_run
  obtain ⟨hchain, -, hconnected⟩ := Node.connected_of_acts goldBlocks_fresh hn
  have htxs := Node.chainTxs_onDisk hchain
  obtain ⟨-, hhistory, hleft⟩ := no_double_spend hconnected (htxs ▸ goldBlocks_fresh.hashesName)
  have hissue : goldIssueTx 21 0 ∈ chainTxs n.onDisk := by
    rw [htxs]
    decide +kernel
  refine ⟨n, hn, hissue, ?_, hleft _ ⟨_, hissue, by decide +kernel⟩ ?_⟩
  · rw [Bool.eq_false_iff]
    exact fun hcoin => hhistory.unspent _ hcoin _ hissue (by decide +kernel)
  · rw [htxs]
    decide +kernel

/-- Disconnecting a branch, with the undo data of its blocks, leaves the coins of those below. -/
theorem rollBack_restores (env : CBlock → Env) (s : AssetState) (branch base : List StoredBlock)
    (h : Connected (branch ++ base) coins) (hbase : base ≠ [])
    (hname : HashesName (chainTxs (branch ++ base))) {coins' : Coins}
    (hroll : rollBack env base (branch ++ base) coins s = .ok coins' t) :
    coins'.accessCoin = (utxo base).accessCoin := by
  obtain ⟨undo, hundo, hwrite⟩ := rollBack_eq_write h hbase hname
  have hback : afterAll (undo ++ []) coins.accessCoin = afterAll [] (utxo base).accessCoin :=
    hundo.converges fun k => .inl (by rw [(h.coins_eq hname).1, utxo_append branch hbase])
  rw [hwrite _ _ _ _ _ hroll, accessCoin_write]
  rwa [append_nil] at hback

/-- The block that issues gold and the one below it are disconnected: the coin that was spent is
there again. -/
theorem goldBlocks_rolled_back :
    ∃ n coins' t, ({} : Node).acts (goldBlocks.map (.connectTip regTestChain)) = some n ∧
      rollBack (fun _ => regTestChain.toEnv) (n.onDisk.drop 2) n.onDisk n.coins n.assets =
        .ok coins' t ∧
      n.coins.contains ⟨7, 0⟩ = false ∧ coins'.contains ⟨7, 0⟩ = true ∧
      coins'.accessCoin = (utxo (n.onDisk.drop 2)).accessCoin := by
  obtain ⟨n, hn, coins', t, hroll, hspent, hback⟩ := goldBlocks_run
  obtain ⟨hchain, -, hconnected⟩ := Node.connected_of_acts goldBlocks_fresh hn
  have hname : HashesName (chainTxs n.onDisk) :=
    Node.chainTxs_onDisk hchain ▸ goldBlocks_fresh.hashesName
  have hbase : n.onDisk.drop 2 ≠ [] := by
    have hlength : goldBlocks.length = 102 := by decide +kernel
    rw [Ne, drop_eq_nil_iff, Node.onDisk, hchain]
    simp [hlength]
  refine ⟨n, coins', t, hn, hroll, hspent, hback, ?_⟩
  exact rollBack_restores _ n.assets (n.onDisk.take 2) _ (by rwa [take_append_drop]) hbase
    (by rwa [take_append_drop]) (by rwa [take_append_drop])

end HnbCore
