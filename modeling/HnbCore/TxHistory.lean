import HnbCore.BlockCoins
import HnbCore.ScriptNumbers

/-!
# No transaction is in a chain twice

The check that a block creates no output anew that is still unspent is left out of `ConnectBlock`.
That every coinbase starts with the height of its block stands in for it: two coinbases of a chain
differ, and any other transaction would have to spend its inputs a second time.
-/

namespace HnbCore

open Checks AssetState List UInt8

variable {n m : Nat} {chain : List StoredBlock}

/-- `CScript() << n`. -/
def pushInt (n : Int) : CScript :=
  if n = -1 ∨ (1 ≤ n ∧ n ≤ 16) then [ofNat (n + 0x50).toNat]
  else if n = 0 then [0]
  else pushData (serializeNum n)

/-- The first input starts with the height. -/
def CTransaction.startsWithHeight (tx : CTransaction) (nHeight : Nat) : Bool :=
  tx.vin.head?.any fun txin => (pushInt nHeight).isPrefixOf txin.scriptSig

theorem serializeNum_bytes (h : n < 256 ^ 8) :
    leNat (serializeNum n) = n ∧ (serializeNum n).length ≤ 9 := by
  by_cases hn : n = 0
  · rw [hn]
    exact ⟨rfl, by decide⟩
  · obtain ⟨init, c, hc, hlen, hvalue⟩ := exists_bytes hn h
    have hbytes := serializeNum_signed false hc hlen
    rw [hvalue] at hbytes
    rw [show (n : Int) = signed false n from rfl, hbytes, ← hvalue, encodeSigned]
    split
    · rw [leNat_append]
      simp [signBit, leNat]
      omega
    · simp [signBit]
      omega

theorem pushInt_large (hn : n < 256 ^ 8) (h : 16 < n) :
    pushInt n = ofNat (serializeNum n).length :: serializeNum n := by
  have hlength := (serializeNum_bytes hn).2
  have hsmall : ¬((n : Int) = -1 ∨ (1 ≤ (n : Int) ∧ (n : Int) ≤ 16)) := by omega
  have hzero : ¬((n : Int) = 0) := by omega
  rw [pushInt, if_neg hsmall, if_neg hzero, pushData, if_pos]
  exact lt_of_le_of_lt hlength (by decide)

theorem pushInt_small (h : n ≤ 16) : pushInt n = [if n = 0 then 0 else ofNat (n + 0x50)] := by
  interval_cases n <;> rfl

theorem serializeNum_ne_nil (h : n < 256 ^ 8) (hn : n ≠ 0) : serializeNum n ≠ [] := by
  intro hnil
  have hvalue := (serializeNum_bytes h).1
  rw [hnil] at hvalue
  exact hn hvalue.symm

/-- The lengths of pushed heights are below the opcodes of small numbers. -/
theorem small_ne_large (hn : n ≤ 16) (hm : m < 256 ^ 8) (hlarge : 16 < m) :
    (if n = 0 then 0 else ofNat (n + 0x50)) ≠ ofNat (serializeNum m).length := by
  have hlength := (serializeNum_bytes hm).2
  have hne := length_pos_iff.mpr (serializeNum_ne_nil hm (by omega))
  generalize (serializeNum m).length = len at hlength hne
  interval_cases n <;> interval_cases len <;> decide

theorem eq_of_isPrefixOf_cons {b b' : UInt8} {bs bs' s : Bytes} (h : (b :: bs).isPrefixOf s = true)
    (h' : (b' :: bs').isPrefixOf s = true) :
    b = b' ∧ ∃ s', bs.isPrefixOf s' = true ∧ bs'.isPrefixOf s' = true := by
  cases s with
  | nil => cases h
  | cons c s =>
    simp only [List.isPrefixOf, Bool.and_eq_true, beq_iff_eq] at h h'
    exact ⟨h.1.trans h'.1.symm, s, h.2, h'.2⟩

/-- A script starts with one height only. -/
theorem pushInt_prefix_unique {script : CScript} (hn : n < 256 ^ 8) (hm : m < 256 ^ 8)
    (h : (pushInt n).isPrefixOf script = true) (h' : (pushInt m).isPrefixOf script = true) :
    n = m := by
  rcases Nat.lt_or_ge 16 n with hbig | hsmall
  · rcases Nat.lt_or_ge 16 m with hbig' | hsmall'
    · rw [pushInt_large hn hbig] at h
      rw [pushInt_large hm hbig'] at h'
      obtain ⟨hlength, s, hpre, hpre'⟩ := eq_of_isPrefixOf_cons h h'
      obtain ⟨hvalue, hlt⟩ := serializeNum_bytes hn
      obtain ⟨hvalue', hlt'⟩ := serializeNum_bytes hm
      have hsame : (serializeNum n).length = (serializeNum m).length := by
        have hnat := congrArg UInt8.toNat hlength
        rw [toNat_ofNat', toNat_ofNat'] at hnat
        omega
      have hbytes : serializeNum (n : Int) = serializeNum (m : Int) := by
        rw [ isPrefixOf_iff_prefix] at hpre hpre'
        exact (prefix_of_prefix_length_le hpre hpre' hsame.le).eq_of_length hsame
      rw [← hvalue, hbytes, hvalue']
    · rw [pushInt_large hn hbig] at h
      rw [pushInt_small hsmall'] at h'
      exact absurd (eq_of_isPrefixOf_cons h' h).1 (small_ne_large hsmall' hn hbig)
  · rcases Nat.lt_or_ge 16 m with hbig' | hsmall'
    · rw [pushInt_small hsmall] at h
      rw [pushInt_large hm hbig'] at h'
      exact absurd (eq_of_isPrefixOf_cons h h').1 (small_ne_large hsmall hm hbig')
    · rw [pushInt_small hsmall] at h
      rw [pushInt_small hsmall'] at h'
      have hbyte := (eq_of_isPrefixOf_cons h h').1
      clear h h' hn hm
      interval_cases n <;> interval_cases m <;> first | rfl | (revert hbyte; decide)

theorem CTransaction.startsWithHeight_unique {tx : CTransaction} (hn : n < 256 ^ 8)
    (hm : m < 256 ^ 8) (h : tx.startsWithHeight n = true) (h' : tx.startsWithHeight m = true) :
    n = m := by
  unfold CTransaction.startsWithHeight at h h'
  cases hvin : tx.vin.head? with
  | none =>
    rw [hvin] at h
    cases h
  | some txin =>
    rw [hvin] at h h'
    exact pushInt_prefix_unique hn hm h h'

/-- The hash names the transaction. -/
def HashesName (txs : List CTransaction) : Prop :=
  ∀ tx ∈ txs, ∀ tx' ∈ txs, tx.hash = tx'.hash → tx = tx'

/-- The coins are those that the transactions have created and not spent, and no two of the
transactions have the same hash. -/
structure TxHistory (done : List CTransaction) (coins : Coins) : Prop where
  nodup : (done.map (·.hash)).Nodup
  created : ∀ out, coins.contains out = true → ∃ tx ∈ done, tx.Creates out
  unspent : ∀ out, coins.contains out = true → ∀ tx ∈ done,
    out ∉ tx.spentInputs.map (·.prevout)
  spent : ∀ tx ∈ done, ∀ out ∈ tx.spentInputs.map (·.prevout), ∃ creator ∈ done, creator.Creates out

section History

variable {done vtx : List CTransaction} {coins coins' : Coins} {tx : CTransaction}
  {spent : List Coin}

theorem txHistory_empty : TxHistory [] .empty where
  nodup := .nil
  created := by intro out hcoin; cases hcoin
  unspent := by intro out hcoin tx htx; cases htx
  spent := by intro tx htx; cases htx

theorem TxHistory.newTxids (h : TxHistory done coins)
    (hnodup : ((done ++ vtx).map (·.hash)).Nodup) : NewTxids vtx coins := by
  rw [map_append, nodup_append] at hnodup
  obtain ⟨-, hvtx, hapart⟩ := hnodup
  refine ⟨hvtx, ?_⟩
  intro tx htx n
  rw [Bool.eq_false_iff]
  intro hcoin
  obtain ⟨creator, hin, hcreates⟩ := h.created _ hcoin
  exact hapart _ (mem_map_of_mem hin) _ (mem_map_of_mem htx)
    (hash_of_creates hcreates).symm

theorem TxHistory.add (h : TxHistory done coins) (hfresh : tx.hash ∉ done.map (·.hash))
    (hspends : Spends coins tx.spentInputs spent)
    (hcoins : ∀ out, coins'.contains out = true ↔ tx.Creates out ∨
      (coins.contains out = true ∧ out ∉ tx.spentInputs.map (·.prevout))) :
    TxHistory (done ++ [tx]) coins' := by
  have hspent : ∀ out ∈ tx.spentInputs.map (·.prevout), ∃ creator ∈ done, creator.Creates out :=
    fun out hout => h.created out (spends_contains hspends hout)
  -- an output of the transaction has a hash that none of the earlier ones has
  have hforeign : ∀ out, tx.Creates out → ∀ creator ∈ done, ¬creator.Creates out := by
    intro out hcreates creator hin hcreates'
    apply hfresh
    rw [← hash_of_creates hcreates, hash_of_creates hcreates']
    exact mem_map_of_mem hin
  refine ⟨?_, ?_, ?_, ?_⟩
  · rw [map_append, map_singleton, nodup_append]
    refine ⟨h.nodup, nodup_singleton _, ?_⟩
    intro hash hin hash' hin' heq
    rw [mem_singleton.mp hin'] at heq
    exact hfresh (heq ▸ hin)
  · intro out hout
    rcases (hcoins out).mp hout with hcreates | ⟨hcoin, -⟩
    · exact ⟨tx, by simp, hcreates⟩
    · obtain ⟨creator, hin, hcreates⟩ := h.created out hcoin
      exact ⟨creator, mem_append_left _ hin, hcreates⟩
  · intro out hout tx' htx'
    rcases (hcoins out).mp hout with hcreates | ⟨hcoin, hkept⟩
    · intro hin
      rcases mem_append.mp htx' with htx' | htx'
      · obtain ⟨creator, hcreator, hcreates'⟩ := h.spent tx' htx' out hin
        exact hforeign out hcreates creator hcreator hcreates'
      · rw [mem_singleton.mp htx'] at hin
        obtain ⟨creator, hcreator, hcreates'⟩ := hspent out hin
        exact hforeign out hcreates creator hcreator hcreates'
    · rcases mem_append.mp htx' with htx' | htx'
      · exact h.unspent out hcoin tx' htx'
      · rw [mem_singleton.mp htx']
        exact hkept
  · intro tx' htx' out hout
    have hcreator : ∃ creator ∈ done, creator.Creates out := by
      rcases mem_append.mp htx' with htx' | htx'
      · exact h.spent tx' htx' out hout
      · rw [mem_singleton.mp htx'] at hout
        exact hspent out hout
    obtain ⟨creator, hin, hcreates⟩ := hcreator
    exact ⟨creator, mem_append_left _ hin, hcreates⟩

/-- A transaction that spends coins is not one of those done: its inputs are gone. -/
theorem TxHistory.fresh_of_spends (h : TxHistory done coins)
    (hname : ∀ tx' ∈ done, tx'.hash = tx.hash → tx' = tx) (hcb : tx.isCoinBase = false)
    (hvin : tx.vin ≠ []) (hspends : Spends coins tx.spentInputs spent) :
    tx.hash ∉ done.map (·.hash) := by
  intro hin
  obtain ⟨tx', htx', hhash⟩ := mem_map.mp hin
  have hsame : tx' = tx := hname tx' htx' hhash
  subst hsame
  have hinputs : tx'.spentInputs = tx'.vin := by simp [CTransaction.spentInputs, hcb]
  obtain ⟨txin, hfirst⟩ := exists_mem_of_ne_nil _ hvin
  have hout : txin.prevout ∈ tx'.spentInputs.map (·.prevout) := by
    rw [hinputs]
    exact mem_map_of_mem hfirst
  exact h.unspent _ (spends_contains hspends hout) tx' htx' hout

theorem TxHistory.connectTxs {env : ChainEnv} {blockHash : UInt256} {nHeight : Int}
    {scan scan' : ConnectScan} {s t : AssetState} (h : TxHistory done scan.coins)
    (hname : HashesName (done ++ vtx)) (hcb : ∀ tx ∈ vtx, tx.isCoinBase = false)
    (hvin : ∀ tx ∈ vtx, tx.vin ≠ [])
    (hconnect : vtx.foldlM (connectTx env blockHash nHeight) scan s = .ok scan' t) :
    TxHistory (done ++ vtx) scan'.coins := by
  induction vtx generalizing done scan s with
  | nil =>
    obtain ⟨rfl, -⟩ := run_pure_eq_ok.mp hconnect
    rw [append_nil]
    exact h
  | cons tx vtx ih =>
    obtain ⟨mid, u, hfirst, hrest⟩ := run_bind_eq_ok.mp hconnect
    obtain ⟨⟨spent, hspends⟩, hcoins⟩ := connectTx_coins hfirst
    have hfresh := h.fresh_of_spends
      (fun tx' htx' => hname tx' (mem_append_left _ htx') tx (by simp))
      (hcb tx mem_cons_self) (hvin tx mem_cons_self) hspends
    have hassoc : done ++ tx :: vtx = done ++ [tx] ++ vtx := by simp
    rw [hassoc] at hname ⊢
    exact ih (h.add hfresh hspends hcoins) hname
      (fun tx' htx' => hcb tx' (mem_cons_of_mem _ htx'))
      (fun tx' htx' => hvin tx' (mem_cons_of_mem _ htx')) hrest

end History

/-- A block on disk with its undo data. -/
structure StoredBlock where
  block : CBlock
  vtxundo : Option (List (List Coin))

/-- The chain, its tip first, has been connected block by block on top of the genesis block, and
the coins are what it has left. The database is empty before the genesis block, which leaves no
coin. Heights are of type `int`. -/
inductive Connected : List StoredBlock → Coins → Prop
  | empty : Connected [] .empty
  | genesis (stored : StoredBlock) : Connected [stored] .empty
  | connect {chain : List StoredBlock} {coins coins' : Coins} {undo : CBlockUndo} (env : ChainEnv)
      (s t : AssetState) (stored : StoredBlock) (below : Connected chain coins)
      (based : chain ≠ []) (height : chain.length < 2 ^ 31)
      (marked : stored.block.HonestlyMarked env)
      (starts : ∀ tx ∈ stored.block.vtx.head?, tx.startsWithHeight chain.length = true)
      (connects : connectBlock env stored.block chain.length coins s = .ok (undo, coins') t)
      (undone : stored.vtxundo = some undo.vtxundo) : Connected (stored :: chain) coins'

/-- The transactions of the blocks above the genesis block, in the order they were connected. -/
def chainTxs : List StoredBlock → List CTransaction
  | [] => []
  | [_] => []
  | stored :: below :: chain => chainTxs (below :: chain) ++ stored.block.vtx

theorem chainTxs_cons (h : chain ≠ []) (stored : StoredBlock) :
    chainTxs (stored :: chain) = chainTxs chain ++ stored.block.vtx := by
  cases chain with
  | nil => exact absurd rfl h
  | cons below chain => rfl

/-- A coinbase of the chain names the height of its block. -/
def CoinbasesBelow (nHeight : Nat) (txs : List CTransaction) : Prop :=
  ∀ tx ∈ txs, tx.isCoinBase = true → ∃ n < nHeight, tx.startsWithHeight n = true

theorem Connected.history {coins : Coins} (h : Connected chain coins)
    (hname : HashesName (chainTxs chain)) :
    TxHistory (chainTxs chain) coins ∧ CoinbasesBelow chain.length (chainTxs chain) := by
  induction h with
  | empty => exact ⟨txHistory_empty, by intro tx htx; cases htx⟩
  | genesis stored => exact ⟨txHistory_empty, by intro tx htx; cases htx⟩
  | @connect chain coins coins' undo env s t stored below based height marked starts connects
      undone ih =>
      rw [chainTxs_cons based] at hname ⊢
      obtain ⟨hhistory, hbelow⟩ := ih fun tx htx tx' htx' =>
        hname tx (mem_append_left _ htx) tx' (mem_append_left _ htx')
      obtain ⟨scan, _, _, hcheck, hscan, -, -, -, -, rfl⟩ := connectBlock_ok connects
      obtain ⟨coinbase, rest, hvtx, hcb, hrest, hchecked⟩ :=
        (checked_of_checkBlock hcheck marked).shape
      have hstarts : coinbase.startsWithHeight chain.length = true :=
        starts coinbase (by rw [hvtx]; rfl)
      have hvin : ∀ tx ∈ stored.block.vtx, tx.vin ≠ [] := fun tx htx =>
        (checkTransaction_accepted (hchecked tx htx)).vin_ne_nil
      rw [hvtx] at hscan hname hvin ⊢
      obtain ⟨mid, u, hfirst, htail⟩ := run_bind_eq_ok.mp hscan
      obtain ⟨⟨spent, hspends⟩, hcoins⟩ := connectTx_coins hfirst
      -- an earlier coinbase starts with a smaller height
      have hfresh : coinbase.hash ∉ (chainTxs chain).map (·.hash) := by
        intro hin
        obtain ⟨tx, htx, hhash⟩ := mem_map.mp hin
        have hsame : tx = coinbase :=
          hname tx (mem_append_left _ htx) coinbase (by simp) hhash
        subst hsame
        obtain ⟨n, hlt, hstarts'⟩ := hbelow tx htx hcb
        have heq := CTransaction.startsWithHeight_unique (n := n) (m := chain.length)
          (by omega) (by omega) hstarts' hstarts
        omega
      have hassoc : chainTxs chain ++ coinbase :: rest = chainTxs chain ++ [coinbase] ++ rest := by
        simp
      constructor
      · rw [hassoc] at hname ⊢
        exact (hhistory.add hfresh hspends hcoins).connectTxs hname hrest
          (fun tx htx => hvin tx (mem_cons_of_mem _ htx)) htail
      · intro tx htx hcb'
        rw [length_cons]
        rcases mem_append.mp htx with htx | htx
        · obtain ⟨n, hlt, hstarts'⟩ := hbelow tx htx hcb'
          exact ⟨n, by omega, hstarts'⟩
        · rcases mem_cons.mp htx with rfl | htx
          · exact ⟨chain.length, by omega, hstarts⟩
          · rw [hrest tx htx] at hcb'
            cases hcb'

theorem Connected.newTxids {stored : StoredBlock} {coins coins' : Coins}
    (h : Connected (stored :: chain) coins') (hbased : chain ≠ []) (hbelow : Connected chain coins)
    (hname : HashesName (chainTxs (stored :: chain))) : NewTxids stored.block.vtx coins := by
  have hall := (h.history hname).1.nodup
  rw [chainTxs_cons hbased] at hall hname
  refine TxHistory.newTxids (hbelow.history ?_).1 hall
  intro tx htx tx' htx'
  exact hname tx (mem_append_left _ htx) tx' (mem_append_left _ htx')

end HnbCore
