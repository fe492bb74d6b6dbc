import HnbCore.AddressIndex
import HnbCore.IssueOnce

/-!
# What disconnecting a block leaves of the indexes

Connecting a block and disconnecting it again writes two batches to each index. The spent index gets
the first only, and of an input that spends to a public key the second batch takes back another key
than the first one wrote. So the indexes are as before exactly when they already had what is left.
-/

namespace HnbCore

open Checks AssetState List Batch CAddressUnspentKey KeyedSet

/-! ## The coins a block spends -/

/-- What a block finds at an outpoint: a coin from before it, or an output of its own. -/
def blockCoin (coins : Coins) (nHeight : Int) (vtx : List CTransaction) (out : COutPoint) : Coin :=
  ((coins.accessCoin out).or (vtx.findSome? fun tx => (tx.outputs.find? fun o => o.1 = out).map
    fun o => ⟨o.2, tx.isCoinBase, nHeight⟩)).getD ⟨⟨-1, []⟩, false, 0⟩

/-- The coins are those `AddCoin` keeps, of blocks other than the genesis block. -/
def Coins.Kept (coins : Coins) : Prop :=
  ∀ out coin, coins.accessCoin out = some coin →
    isUnspendable coin.out.scriptPubKey = false ∧ coin.nHeight ≠ 0

variable {out : COutPoint} {tx : CTransaction}

theorem mem_outputs {txout : CTxOut} :
    (out, txout) ∈ tx.outputs ↔ out.hash = tx.hash ∧ tx.vout[out.n]? = some txout := by
  simp only [CTransaction.outputs, mem_map, Prod.exists, Prod.mk.injEq,
    mk_mem_zipIdx_iff_getElem?]
  constructor
  · rintro ⟨txout, i, hget, rfl, rfl⟩
    exact ⟨rfl, hget⟩
  · rintro ⟨hhash, hget⟩
    exact ⟨txout, out.n, hget, by rw [← hhash], rfl⟩

theorem accessCoin_afterTx {coins : Coins} {nHeight : Int}
    {coin : Coin} (h : (coins.afterTx tx nHeight).accessCoin out = some coin) :
    coins.accessCoin out = some coin ∨
      ∃ txout, (out, txout) ∈ tx.outputs ∧ isUnspendable txout.scriptPubKey = false ∧
        coin = ⟨txout, tx.isCoinBase, nHeight⟩ := by
  have hin := mem_of_find? (accessCoin_eq_some.mp h)
  rw [Coins.afterTx, addOutputCoins_eq] at hin
  rcases mem_foldl_assign hin with hnew | hold
  · obtain ⟨⟨out', txout⟩, hout, heq⟩ := mem_map.mp hnew
    cases heq
    obtain ⟨hout, hspend⟩ := mem_filter.mp hout
    exact .inr ⟨txout, hout, by simpa using hspend, rfl⟩
  · have hfind := find?_of_mem hold
    left
    rw [accessCoin_eq_some]
    unfold eraseInputs at hfind
    rw [find?_foldl_erase (fun txin : CTxIn => txin.prevout)] at hfind
    split at hfind
    · cases hfind
    · exact hfind

section

variable {coins : Coins} {nHeight : Int} {vtx : List CTransaction} {out : COutPoint} {coin : Coin}

theorem blockCoin_of_access (h : coins.accessCoin out = some coin) :
    blockCoin coins nHeight vtx out = coin := by
  simp [blockCoin, h]

variable {i n : Nat} {tx : CTransaction} {now : Coins} {spent : List Coin} {vin : List CTxIn}
  {env : Env} {place : TxPlace} {view : COutPoint → Coin}

theorem eq_of_nodup_map {α β : Type} {l : List α} {f : α → β} {j : Nat} {a b : α}
    (hnodup : (l.map f).Nodup) (hi : l[i]? = some a) (hj : l[j]? = some b) (h : f a = f b) :
    i = j := by
  have hlen : i < (l.map f).length := by
    rw [length_map]
    exact (List.getElem?_eq_some_iff.mp hi).1
  apply (getElem?_inj hlen hnodup).mp
  rw [getElem?_map, getElem?_map, hi, hj]
  exact congrArg some h

theorem blockCoin_of_output (hnew : NewTxids vtx coins)
    (hi : vtx[i]? = some tx) {txout : CTxOut} (hout : (out, txout) ∈ tx.outputs) :
    blockCoin coins nHeight vtx out = ⟨txout, tx.isCoinBase, nHeight⟩ := by
  have hhash := (mem_outputs.mp hout).1
  have hnone : coins.accessCoin out = none := by
    have hunused := hnew.unused tx (mem_of_getElem? hi) out.n
    rw [← hhash] at hunused
    simpa [Coins.accessCoin, KeyedSet.contains] using hunused
  have hfind : (tx.outputs.find? fun o => o.1 = out) = some (out, txout) := by
    cases hfind : tx.outputs.find? fun o => o.1 = out with
    | none => simpa using find?_eq_none.mp hfind _ hout
    | some o =>
      obtain ⟨out', txout'⟩ := o
      obtain rfl : out' = out := by simpa using find?_some hfind
      have hget := (mem_outputs.mp (mem_of_find?_eq_some hfind)).2
      rw [(mem_outputs.mp hout).2] at hget
      rw [Option.some.inj hget]
  have hsome : (vtx.findSome? fun tx => (tx.outputs.find? fun o => o.1 = out).map
      fun o => (⟨o.2, tx.isCoinBase, nHeight⟩ : Coin)) =
      some ⟨txout, tx.isCoinBase, nHeight⟩ := by
    cases hsome : vtx.findSome? fun tx => (tx.outputs.find? fun o => o.1 = out).map
        fun o => (⟨o.2, tx.isCoinBase, nHeight⟩ : Coin) with
    | none =>
      have hnot := findSome?_eq_none_iff.mp hsome tx (mem_of_getElem? hi)
      rw [hfind] at hnot
      cases hnot
    | some coin =>
      obtain ⟨tx', hin, hcoin⟩ := exists_of_findSome?_eq_some hsome
      obtain ⟨o, ho, rfl⟩ := Option.map_eq_some_iff.mp hcoin
      have hkey : o.1 = out := by simpa using find?_some ho
      have hhash' := (mem_outputs.mp (mem_of_find?_eq_some ho)).1
      rw [hkey, hhash] at hhash'
      obtain rfl : tx = tx' :=
        inj_on_of_nodup_map hnew.nodup (mem_of_getElem? hi) hin hhash'
      rw [hfind] at ho
      cases ho
      rfl
  simp [blockCoin, hnone, hsome]

/-- What holds of an outpoint that the transaction at a position of the block spends: the coin is
from before the block or an output of an earlier transaction. -/
structure SpendableAt (coins : Coins) (nHeight : Int) (vtx : List CTransaction) (n : Nat)
    (out : COutPoint) : Prop where
  origin : coins.accessCoin out = some (blockCoin coins nHeight vtx out) ∨
    ∃ i < n, ∃ tx, vtx[i]? = some tx ∧ (out, (blockCoin coins nHeight vtx out).out) ∈ tx.outputs
  spendable : isUnspendable (blockCoin coins nHeight vtx out).out.scriptPubKey = false
  height : (blockCoin coins nHeight vtx out).nHeight ≠ 0

theorem SpendableAt.succ (h : SpendableAt coins nHeight vtx n out) :
    SpendableAt coins nHeight vtx (n + 1) out := by
  refine ⟨?_, h.spendable, h.height⟩
  rcases h.origin with hold | ⟨i, hlt, hrest⟩
  · exact .inl hold
  · exact .inr ⟨i, by omega, hrest⟩

/-- The coins while a block is connected, `n` transactions of it done. -/
def CoinsAt (coins : Coins) (nHeight : Int) (vtx : List CTransaction) (n : Nat) (now : Coins) :
    Prop :=
  ∀ out coin, now.accessCoin out = some coin →
    coin = blockCoin coins nHeight vtx out ∧ SpendableAt coins nHeight vtx n out

theorem coinsAt_start (hkept : coins.Kept) : CoinsAt coins nHeight vtx 0 coins := by
  intro out coin haccess
  obtain rfl : blockCoin coins nHeight vtx out = coin := blockCoin_of_access haccess
  obtain ⟨hspend, hheight⟩ := hkept out _ haccess
  exact ⟨rfl, .inl haccess, hspend, hheight⟩

theorem CoinsAt.afterTx (hnew : NewTxids vtx coins)
    (hheight : nHeight ≠ 0) (hn : vtx[n]? = some tx) (h : CoinsAt coins nHeight vtx n now) :
    CoinsAt coins nHeight vtx (n + 1) (now.afterTx tx nHeight) := by
  intro out coin haccess
  rcases accessCoin_afterTx haccess with hold | ⟨txout, hout, hspend, rfl⟩
  · obtain ⟨hcoin, hat⟩ := h out coin hold
    exact ⟨hcoin, hat.succ⟩
  · have hcoin : blockCoin coins nHeight vtx out = ⟨txout, tx.isCoinBase, nHeight⟩ :=
      blockCoin_of_output hnew hn hout
    refine ⟨hcoin.symm, .inr ⟨n, by omega, tx, hn, ?_⟩, ?_, ?_⟩ <;> rw [hcoin]
    · exact hout
    · exact hspend
    · exact hheight

theorem Spends.nodup (h : Spends now vin spent) : (vin.map (·.prevout)).Nodup := by
  induction h with
  | nil => exact .nil
  | cons found rest ih =>
    rw [map_cons, nodup_cons]
    refine ⟨?_, ih⟩
    intro hin
    have hcontains := spends_contains rest hin
    rw [contains_erase] at hcontains
    simp at hcontains

/-- The coins a transaction spends are those the block finds at its inputs. -/
theorem Spends.eq_map {f : COutPoint → Coin} (h : Spends now vin spent)
    (hf : ∀ out coin, now.accessCoin out = some coin → coin = f out) :
    spent = vin.map (fun txin => f txin.prevout) ∧
      ∀ txin ∈ vin, now.accessCoin txin.prevout = some (f txin.prevout) := by
  have hall : ∀ txin ∈ vin, now.accessCoin txin.prevout = some (f txin.prevout) := by
    intro txin hin
    have hsome := mem_map_of_mem (f := fun txin : CTxIn => now.accessCoin txin.prevout) hin
    rw [h.access] at hsome
    obtain ⟨coin, -, hcoin⟩ := mem_map.mp hsome
    rw [← hf txin.prevout coin hcoin.symm]
    exact hcoin.symm
  refine ⟨?_, hall⟩
  apply map_injective_iff.mpr (Option.some_injective Coin)
  rw [← h.access, map_map]
  exact map_congr_left hall

theorem recordTx_congr {view : COutPoint → CTxOut} (view' : COutPoint → CTxOut)
    (h : ∀ txin ∈ tx.spentInputs, view txin.prevout = view' txin.prevout) :
    recordTx env place view tx = recordTx env place view' tx := by
  unfold recordTx
  congr 2
  apply map_congr_left
  rintro ⟨txin, j⟩ hin
  rw [h txin (mem_of_getElem? (mk_mem_zipIdx_iff_getElem?.mp hin))]

/-- The run over the transactions from a position on: each records what the block finds at its
inputs, and leaves it to the undo data. -/
theorem connectTxs_trace {env : ChainEnv} {blockHash : UInt256} {txs : List CTransaction}
    {scan scan' : ConnectScan} {s t : AssetState} (hnew : NewTxids vtx coins)
    (hheight : nHeight ≠ 0) (h : txs.foldlM (connectTx env blockHash nHeight) scan s = .ok scan' t)
    (hdrop : vtx.drop n = txs) (hat : CoinsAt coins nHeight vtx n scan.coins) :
    recordTxs env.toEnv nHeight scan.coins (txs.zipIdx n) =
        .concat ((txs.zipIdx n).map fun item => recordTx env.toEnv ⟨nHeight, item.2, item.1.hash⟩
          (fun out => (blockCoin coins nHeight vtx out).out) item.1) ∧
      scan'.vtxundo = scan.vtxundo ++ (txs.filter fun tx => !tx.isCoinBase).map (fun tx =>
        tx.vin.map fun txin => blockCoin coins nHeight vtx txin.prevout) ∧
      ∀ i tx, n ≤ i → vtx[i]? = some tx → (tx.spentInputs.map (·.prevout)).Nodup ∧
        ∀ txin ∈ tx.spentInputs, SpendableAt coins nHeight vtx i txin.prevout := by
  induction txs generalizing n scan s with
  | nil =>
    obtain ⟨rfl, -⟩ := run_pure_eq_ok.mp h
    refine ⟨rfl, by simp, ?_⟩
    intro i tx hle hi
    have hlen := drop_eq_nil_iff.mp hdrop
    have hlt := (List.getElem?_eq_some_iff.mp hi).1
    omega
  | cons tx txs ih =>
    obtain ⟨mid, u, hfirst, hrest⟩ := run_bind_eq_ok.mp h
    obtain ⟨spent, hspends, hcoins, hundo⟩ := connectTx_afterTx hfirst
    obtain ⟨hspent, haccess⟩ := hspends.eq_map fun out coin hfind => (hat out coin hfind).1
    have hn : vtx[n]? = some tx := by
      rw [← head?_drop, hdrop]
      rfl
    have hdrop' : vtx.drop (n + 1) = txs := by
      rw [← tail_drop, hdrop]
      rfl
    have hat' : CoinsAt coins nHeight vtx (n + 1) mid.coins := by
      rw [hcoins]
      exact hat.afterTx hnew hheight hn
    obtain ⟨hrecord, hundo', hspendable⟩ := ih hrest hdrop' hat'
    refine ⟨?_, ?_, ?_⟩
    · rw [zipIdx_cons, recordTxs, ← hcoins, hrecord]
      have hview : ∀ txin ∈ tx.spentInputs,
          scan.coins.accessOut txin.prevout = (blockCoin coins nHeight vtx txin.prevout).out := by
        intro txin hin
        simp [Coins.accessOut, haccess txin hin]
      rw [recordTx_congr (fun out => (blockCoin coins nHeight vtx out).out) hview]
      rfl
    · rw [hundo', hundo, filter_cons]
      cases hcb : tx.isCoinBase with
      | true => simp
      | false =>
        have hvin : tx.spentInputs = tx.vin := by simp [CTransaction.spentInputs, hcb]
        rw [hvin] at hspent
        simp [hspent]
    · intro i tx' hle hi
      rcases Nat.eq_or_lt_of_le hle with rfl | hlt
      · rw [hn] at hi
        cases hi
        exact ⟨hspends.nodup, fun txin htxin => (hat _ _ (haccess txin htxin)).2⟩
      · exact hspendable i tx' hlt hi

/-- What undoing a transaction collects, when the coins of its inputs are restored as they were. -/
def undoTx (env : Env) (place : TxPlace) (view : COutPoint → Coin) (tx : CTransaction) :
    IndexChanges :=
  .concat (tx.vout.zipIdx.reverse.map (undoOutput env place)) ++
  .concat (tx.spentInputs.zipIdx.reverse.map fun input =>
    undoInput env place (view input.1.prevout).out (view input.1.prevout).nHeight input)

theorem undoInputs_eq {inputs : List (CTxIn × Nat)}
    (h : ∀ input ∈ inputs, isUnspendable (view input.1.prevout).out.scriptPubKey = false ∧
      (view input.1.prevout).nHeight ≠ 0) :
    (undoInputs env place now (inputs.map fun input =>
        ((input.1, view input.1.prevout), input.2))).1 =
      .concat (inputs.map fun input =>
        undoInput env place (view input.1.prevout).out (view input.1.prevout).nHeight input) := by
  induction inputs generalizing now with
  | nil => rfl
  | cons input inputs ih =>
    obtain ⟨hspend, hheight⟩ := h input mem_cons_self
    have hundo : now.completeUndo input.1.prevout.hash (view input.1.prevout) =
        some (view input.1.prevout) := if_neg hheight
    have hout : Coins.accessOut (now.addCoin input.1.prevout (view input.1.prevout))
        input.1.prevout = (view input.1.prevout).out := by
      rw [Coins.addCoin, if_neg (by simp [hspend]), Coins.accessOut, Coins.accessCoin,
        find?_assign, if_pos rfl]
      rfl
    rw [map_cons, undoInputs]
    simp only [Coins.restoreInput, hundo, Option.getD_some, hout]
    rw [ih fun input hin => h input (mem_cons_of_mem _ hin)]
    rfl

theorem zip_spentInputs (tx : CTransaction) (view : COutPoint → Coin) :
    (tx.vin.zip ((if tx.isCoinBase then none
        else some (tx.vin.map fun txin => view txin.prevout)).getD [])).zipIdx.reverse =
      tx.spentInputs.zipIdx.reverse.map fun input =>
        ((input.1, view input.1.prevout), input.2) := by
  unfold CTransaction.spentInputs
  cases tx.isCoinBase with
  | true => simp
  | false =>
    simp only [Bool.false_eq_true, if_false, Option.getD_some]
    have hzip : tx.vin.zip (tx.vin.map fun txin => view txin.prevout) =
        tx.vin.map fun txin => (txin, view txin.prevout) := by
      simpa using zip_map' (f := id) (g := fun txin : CTxIn => view txin.prevout) (l := tx.vin)
    rw [hzip, zipIdx_map, map_reverse]
    rfl

/-- Undoing transactions in any order, the coins they spent being as the block found them. -/
theorem undoTxs_eq {items : List (CTransaction × Nat)}
    (h : ∀ item ∈ items, ∀ txin ∈ item.1.spentInputs,
      isUnspendable (view txin.prevout).out.scriptPubKey = false ∧
        (view txin.prevout).nHeight ≠ 0) :
    undoTxs env nHeight now (items.map fun item => ((item.1, if item.1.isCoinBase then none
        else some (item.1.vin.map fun txin => view txin.prevout)), item.2)) =
      .concat (items.map fun item => undoTx env ⟨nHeight, item.2, item.1.hash⟩ view item.1) := by
  induction items generalizing now with
  | nil => rfl
  | cons item items ih =>
    rw [map_cons, undoTxs]
    dsimp only
    rw [zip_spentInputs, undoInputs_eq, ih fun item hin => h item (mem_cons_of_mem _ hin)]
    · rfl
    · rintro ⟨txin, j⟩ hin
      have hin' := mk_mem_zipIdx_iff_getElem?.mp (mem_reverse.mp hin)
      exact h item mem_cons_self txin (mem_of_getElem? hin')

end

/-! ## What the two batches hold -/

namespace IndexChanges

theorem get_concat {β : Type} {get : IndexChanges → List β} (hnil : get {} = [])
    (happend : ∀ a b, get (a ++ b) = get a ++ get b) (l : List IndexChanges) :
    get (concat l) = l.flatMap get := by
  induction l with
  | nil => exact hnil
  | cons a l ih =>
    rw [flatMap_cons, ← ih]
    exact happend a (concat l)

/-- One of the three lists. -/
structure Field (β : Type) where
  get : IndexChanges → List β
  append : ∀ a b, get (a ++ b) = get a ++ get b
  concat : ∀ l, get (.concat l) = l.flatMap get

def Field.activity : Field (CAddressIndexKey × CAmount) :=
  ⟨(·.addressIndex), fun _ _ => rfl, get_concat rfl fun _ _ => rfl⟩

def Field.unspent : Field (CAddressUnspentKey × CAddressUnspentValue) :=
  ⟨(·.addressUnspentIndex), fun _ _ => rfl, get_concat rfl fun _ _ => rfl⟩

def Field.spent : Field (COutPoint × CSpentIndexValue) :=
  ⟨(·.spentIndex), fun _ _ => rfl, get_concat rfl fun _ _ => rfl⟩

end IndexChanges

/-- An input that is spent, with its position in the block. -/
structure InputAt (vtx : List CTransaction) (i : Nat) (tx : CTransaction) (j : Nat) (txin : CTxIn) :
    Prop where
  inBlock : vtx[i]? = some tx
  inTx : tx.spentInputs[j]? = some txin

structure OutputAt (vtx : List CTransaction) (i : Nat) (tx : CTransaction) (k : Nat)
    (out : CTxOut) : Prop where
  inBlock : vtx[i]? = some tx
  inTx : tx.vout[k]? = some out

section

variable (env : Env) (nHeight : Int) (view : COutPoint → Coin) (vtx : List CTransaction)

def recordBlock : IndexChanges :=
  .concat (vtx.zipIdx.map fun item =>
    recordTx env ⟨nHeight, item.2, item.1.hash⟩ (fun out => (view out).out) item.1)

def undoBlock : IndexChanges :=
  .concat (vtx.zipIdx.reverse.map fun item =>
    undoTx env ⟨nHeight, item.2, item.1.hash⟩ view item.1)

/-- The writes of connecting the block and the erasures of disconnecting it. -/
def activityBatch : Batch CAddressIndexKey CAmount :=
  (recordBlock env nHeight view vtx).addressIndex.map (fun e => (e.1, some e.2)) ++
    (undoBlock env nHeight view vtx).addressIndex.map fun e => (e.1, none)

def spentBatch : Batch COutPoint CSpentIndexValue :=
  (recordBlock env nHeight view vtx).spentIndex.map fun e => (e.1, e.2.entry)

def unspentOps (changes : IndexChanges) : Batch CAddressUnspentKey CAddressUnspentValue :=
  changes.addressUnspentIndex.map fun e => (e.1, e.2.entry)

def unspentBatch : Batch CAddressUnspentKey CAddressUnspentValue :=
  unspentOps (recordBlock env nHeight view vtx) ++ unspentOps (undoBlock env nHeight view vtx)

/-- A key that undoing the block erases. -/
def ErasedKey (key : CAddressIndexKey) : Prop :=
  (∃ i tx j txin a, InputAt vtx i tx j txin ∧
    indexedAddress env (view txin.prevout).out = some a ∧
    key = a.activityKey ⟨nHeight, i, tx.hash⟩ j (!a.payToPublicKey)) ∨
  ∃ i tx k out a, OutputAt vtx i tx k out ∧ indexedAddress env out = some a ∧
    key = a.activityKey ⟨nHeight, i, tx.hash⟩ k false

variable {env nHeight view vtx} {β : Type} {x : β} {place : TxPlace} {i j : Nat} {tx : CTransaction}
  {txin : CTxIn} {a : IndexedAddress} {key : CAddressIndexKey} {α : Type} {l : List α}
  {amount : CAmount} (field : IndexChanges.Field β)

/-- The changes for the elements of a list, each with its position, in either order. -/
theorem mem_concat {items : List (α × Nat)}
    (hitems : ∀ a n, (a, n) ∈ items ↔ l[n]? = some a) {f : α × Nat → IndexChanges} :
    x ∈ field.get (.concat (items.map f)) ↔ ∃ n a, l[n]? = some a ∧ x ∈ field.get (f (a, n)) := by
  rw [field.concat]
  simp only [mem_flatMap, mem_map, Prod.exists, hitems]
  constructor
  · rintro ⟨_, ⟨a, n, hget, rfl⟩, hx⟩
    exact ⟨n, a, hget, hx⟩
  · rintro ⟨n, a, hget, hx⟩
    exact ⟨_, ⟨a, n, hget, rfl⟩, hx⟩

theorem mem_zipIdx_reverse (a : α) (n : Nat) :
    (a, n) ∈ l.zipIdx.reverse ↔ l[n]? = some a := by
  rw [mem_reverse, mk_mem_zipIdx_iff_getElem?]

theorem mem_recordTx {outs : COutPoint → CTxOut} :
    x ∈ field.get (recordTx env place outs tx) ↔
      (∃ j txin, tx.spentInputs[j]? = some txin ∧
        x ∈ field.get (recordInput env place (outs txin.prevout) (txin, j))) ∨
      ∃ k out, tx.vout[k]? = some out ∧ x ∈ field.get (recordOutput env place (out, k)) := by
  rw [recordTx, field.append, mem_append,
    mem_concat field fun _ _ => mk_mem_zipIdx_iff_getElem?,
    mem_concat field fun _ _ => mk_mem_zipIdx_iff_getElem?]

theorem mem_undoTx :
    x ∈ field.get (undoTx env place view tx) ↔
      (∃ j txin, tx.spentInputs[j]? = some txin ∧
        x ∈ field.get (undoInput env place (view txin.prevout).out (view txin.prevout).nHeight
          (txin, j))) ∨
      ∃ k out, tx.vout[k]? = some out ∧ x ∈ field.get (undoOutput env place (out, k)) := by
  rw [undoTx, field.append, mem_append, mem_concat field mem_zipIdx_reverse,
    mem_concat field mem_zipIdx_reverse, or_comm]

/-- Something of a transaction of the block is something of one of its inputs or outputs. -/
theorem exists_inBlock_iff {P : Nat → CTransaction → Nat → CTxIn → Prop}
    {Q : Nat → CTransaction → Nat → CTxOut → Prop} :
    (∃ i tx, vtx[i]? = some tx ∧ ((∃ j txin, tx.spentInputs[j]? = some txin ∧ P i tx j txin) ∨
        ∃ k out, tx.vout[k]? = some out ∧ Q i tx k out)) ↔
      (∃ i tx j txin, InputAt vtx i tx j txin ∧ P i tx j txin) ∨
        ∃ i tx k out, OutputAt vtx i tx k out ∧ Q i tx k out := by
  constructor
  · rintro ⟨i, tx, hi, ⟨j, txin, hj, hP⟩ | ⟨k, out, hk, hQ⟩⟩
    · exact .inl ⟨i, tx, j, txin, ⟨hi, hj⟩, hP⟩
    · exact .inr ⟨i, tx, k, out, ⟨hi, hk⟩, hQ⟩
  · rintro (⟨i, tx, j, txin, hat, hP⟩ | ⟨i, tx, k, out, hat, hQ⟩)
    · exact ⟨i, tx, hat.inBlock, .inl ⟨j, txin, hat.inTx, hP⟩⟩
    · exact ⟨i, tx, hat.inBlock, .inr ⟨k, out, hat.inTx, hQ⟩⟩

theorem mem_recordBlock :
    x ∈ field.get (recordBlock env nHeight view vtx) ↔
      (∃ i tx j txin, InputAt vtx i tx j txin ∧ x ∈ field.get (recordInput env
        ⟨nHeight, i, tx.hash⟩ (view txin.prevout).out (txin, j))) ∨
      ∃ i tx k out, OutputAt vtx i tx k out ∧
        x ∈ field.get (recordOutput env ⟨nHeight, i, tx.hash⟩ (out, k)) := by
  rw [recordBlock, mem_concat field fun _ _ => mk_mem_zipIdx_iff_getElem?]
  simp only [mem_recordTx, exists_inBlock_iff]

theorem mem_undoBlock :
    x ∈ field.get (undoBlock env nHeight view vtx) ↔
      (∃ i tx j txin, InputAt vtx i tx j txin ∧ x ∈ field.get (undoInput env
        ⟨nHeight, i, tx.hash⟩ (view txin.prevout).out (view txin.prevout).nHeight (txin, j))) ∨
      ∃ i tx k out, OutputAt vtx i tx k out ∧
        x ∈ field.get (undoOutput env ⟨nHeight, i, tx.hash⟩ (out, k)) := by
  rw [undoBlock, mem_concat field mem_zipIdx_reverse]
  simp only [mem_undoTx, exists_inBlock_iff]

theorem InputAt.unique {tx' : CTransaction} {txin' : CTxIn} (h : InputAt vtx i tx j txin)
    (h' : InputAt vtx i tx' j txin') : tx = tx' ∧ txin = txin' := by
  have htx := h.inBlock
  rw [h'.inBlock] at htx
  cases htx
  have hin := h.inTx
  rw [h'.inTx] at hin
  cases hin
  exact ⟨rfl, rfl⟩

/-! ## The address index -/

theorem mem_entry {κ ν : Type} {o : Option α} {f : α → κ} {g : α → ν} {k : κ} {v : ν} :
    (k, v) ∈ o.toList.map (fun a => (f a, g a)) ↔ ∃ a, o = some a ∧ k = f a ∧ v = g a := by
  simp only [mem_map, Option.mem_toList, Prod.mk.injEq, eq_comm (b := k), eq_comm (b := v)]

theorem mem_activity_undoBlock :
    (∃ amount, (key, amount) ∈ (undoBlock env nHeight view vtx).addressIndex) ↔
      ErasedKey env nHeight view vtx key := by
  constructor
  · rintro ⟨amount, hin⟩
    rcases (mem_undoBlock .activity).mp hin with ⟨i, tx, j, txin, hat, hx⟩ | ⟨i, tx, k, out, hat, hx⟩
    · obtain ⟨a, ha, heq⟩ := mem_map.mp hx
      refine .inl ⟨i, tx, j, txin, a, hat, Option.mem_toList.mp ha, ?_⟩
      cases hpk : a.payToPublicKey <;> simp_all
    · obtain ⟨a, ha, heq⟩ := mem_map.mp hx
      exact .inr ⟨i, tx, k, out, a, hat, Option.mem_toList.mp ha, (congrArg Prod.fst heq).symm⟩
  · rintro (⟨i, tx, j, txin, a, hat, ha, rfl⟩ | ⟨i, tx, k, out, a, hat, ha, rfl⟩)
    · refine ⟨if a.payToPublicKey then a.amount else -a.amount,
        (mem_undoBlock .activity).mpr (.inl ⟨i, tx, j, txin, hat, ?_⟩)⟩
      refine mem_map.mpr ⟨a, Option.mem_toList.mpr ha, ?_⟩
      cases hpk : a.payToPublicKey <;> simp
    · refine ⟨a.amount, (mem_undoBlock .activity).mpr (.inr ⟨i, tx, k, out, hat, ?_⟩)⟩
      exact mem_map.mpr ⟨a, Option.mem_toList.mpr ha, rfl⟩

theorem last_activity_of_erased (h : ErasedKey env nHeight view vtx key) :
    last (activityBatch env nHeight view vtx) key = some none := by
  obtain ⟨amount, hin⟩ := mem_activity_undoBlock.mpr h
  have hlast : last ((undoBlock env nHeight view vtx).addressIndex.map fun e =>
      (e.1, (none : Option CAmount))) key = some none := by
    apply last_of_mem (mem_map_of_mem (f := fun e => (e.1, (none : Option CAmount))) hin)
    intro v hv
    obtain ⟨e, -, heq⟩ := mem_map.mp hv
    exact (congrArg Prod.snd heq).symm
  rw [activityBatch, last_append, hlast]
  rfl

theorem last_activity_of_not_erased (h : ¬ErasedKey env nHeight view vtx key) :
    last (activityBatch env nHeight view vtx) key =
      last ((recordBlock env nHeight view vtx).addressIndex.map fun e =>
        (e.1, some e.2)) key := by
  rw [activityBatch, last_append, last_eq_none.mpr, Option.none_or]
  intro v hv
  obtain ⟨e, hin, heq⟩ := mem_map.mp hv
  obtain rfl : e.1 = key := congrArg Prod.fst heq
  exact h (mem_activity_undoBlock.mp ⟨e.2, hin⟩)

theorem not_erased_of_publicKey (hat : InputAt vtx i tx j txin)
    (ha : indexedAddress env (view txin.prevout).out = some a) (hpk : a.payToPublicKey = true) :
    ¬ErasedKey env nHeight view vtx (a.activityKey ⟨nHeight, i, tx.hash⟩ j true) := by
  rintro (⟨i', tx', j', txin', a', hat', ha', heq⟩ | ⟨i', tx', k, out, a', hat', ha', heq⟩)
  · obtain rfl : i = i' := congrArg CAddressIndexKey.txindex heq
    obtain rfl : j = j' := congrArg CAddressIndexKey.index heq
    obtain ⟨rfl, rfl⟩ := hat.unique hat'
    rw [ha] at ha'
    cases ha'
    have hspending := congrArg CAddressIndexKey.spending heq
    simp [IndexedAddress.activityKey, hpk] at hspending
  · cases congrArg CAddressIndexKey.spending heq

theorem last_activity_of_publicKey (hat : InputAt vtx i tx j txin)
    (ha : indexedAddress env (view txin.prevout).out = some a) (hpk : a.payToPublicKey = true) :
    last (activityBatch env nHeight view vtx)
      (a.activityKey ⟨nHeight, i, tx.hash⟩ j true) = some (some (-a.amount)) := by
  rw [last_activity_of_not_erased (not_erased_of_publicKey hat ha hpk)]
  apply last_of_mem
  · refine mem_map.mpr ⟨(a.activityKey ⟨nHeight, i, tx.hash⟩ j true, -a.amount), ?_, rfl⟩
    exact (mem_recordBlock .activity).mpr
      (.inl ⟨i, tx, j, txin, hat, mem_entry.mpr ⟨a, ha, rfl, rfl⟩⟩)
  · intro v hv
    obtain ⟨⟨key, amount⟩, hin, heq⟩ := mem_map.mp hv
    cases heq
    rcases (mem_recordBlock .activity).mp hin with ⟨i', tx', j', txin', hat', hx⟩ | ⟨_, _, _, _, _, hx⟩
    · obtain ⟨a', ha', hkey, rfl⟩ := mem_entry.mp hx
      obtain rfl : i = i' := congrArg CAddressIndexKey.txindex hkey
      obtain rfl : j = j' := congrArg CAddressIndexKey.index hkey
      obtain ⟨rfl, rfl⟩ := hat.unique hat'
      rw [ha] at ha'
      cases ha'
      rfl
    · obtain ⟨a', -, hkey, -⟩ := mem_entry.mp hx
      cases congrArg CAddressIndexKey.spending hkey

/-- The address index is as before exactly when it had none of the erased keys, and had what the
block leaves for the inputs that spend to a public key. -/
theorem activity_same_iff (env : Env) (nHeight : Int) (view : COutPoint → Coin)
    (vtx : List CTransaction) (m : KeyedMap CAddressIndexKey CAmount) :
    (∀ key, (write m (activityBatch env nHeight view vtx)).find? key = m.find? key) ↔
      (∀ key, ErasedKey env nHeight view vtx key → m.find? key = none) ∧
      ∀ i tx j txin a, InputAt vtx i tx j txin →
        indexedAddress env (view txin.prevout).out = some a → a.payToPublicKey = true →
        m.find? (a.activityKey ⟨nHeight, i, tx.hash⟩ j true) =
          some (a.activityKey ⟨nHeight, i, tx.hash⟩ j true, -a.amount) := by
  rw [write_same_iff]
  constructor
  · intro h
    constructor
    · intro key herased
      exact h key none (last_activity_of_erased herased)
    · intro i tx j txin a hat ha hpk
      exact h _ _ (last_activity_of_publicKey hat ha hpk)
  · rintro ⟨hclear, hleft⟩ key v hlast
    by_cases herased : ErasedKey env nHeight view vtx key
    · rw [last_activity_of_erased herased] at hlast
      cases hlast
      exact hclear key herased
    · -- what is left is a spending key, and not of another kind of input
      have hin := hlast
      rw [last_activity_of_not_erased herased] at hin
      obtain ⟨⟨key', amount⟩, hmem, heq⟩ := mem_map.mp (mem_of_last hin)
      cases heq
      rcases (mem_recordBlock .activity).mp hmem with
        ⟨i, tx, j, txin, hat, hx⟩ | ⟨i, tx, k, out, hat, hx⟩
      · obtain ⟨a, ha, rfl, rfl⟩ := mem_entry.mp hx
        cases hpk : a.payToPublicKey with
        | true => exact hleft i tx j txin a hat ha hpk
        | false => exact absurd (.inl ⟨i, tx, j, txin, a, hat, ha, by rw [hpk]; rfl⟩) herased
      · obtain ⟨a, ha, rfl, rfl⟩ := mem_entry.mp hx
        exact absurd (.inr ⟨i, tx, k, out, a, hat, ha, rfl⟩) herased

end

/-! ## The spent index -/

/-- What connecting a block makes sure of: its hashes are new, and its inputs spend different
coins, each from before the block or of an earlier transaction. -/
structure BlockSpends (coins : Coins) (nHeight : Int) (vtx : List CTransaction) : Prop where
  newTxids : NewTxids vtx coins
  spendable : ∀ {i tx j txin}, InputAt vtx i tx j txin →
    SpendableAt coins nHeight vtx i txin.prevout
  once : ∀ {i tx j txin i' tx' j' txin'}, InputAt vtx i tx j txin → InputAt vtx i' tx' j' txin' →
    txin.prevout = txin'.prevout → i = i' ∧ j = j'

section

variable {env : Env} {nHeight : Int} {coins : Coins} {vtx : List CTransaction}
  {view : COutPoint → Coin} {place : TxPlace} {i j : Nat} {tx : CTransaction} {txin : CTxIn}
  {out : COutPoint} {coin : Coin} {a : IndexedAddress} {key : CAddressUnspentKey}
  {value : CAddressUnspentValue} {v : Option CAddressUnspentValue}

theorem mem_spentBatch {v : Option CSpentIndexValue} :
    (out, v) ∈ spentBatch env nHeight view vtx ↔
      ∃ i tx j txin, InputAt vtx i tx j txin ∧ out = txin.prevout ∧
        v = (spentValue env ⟨nHeight, i, tx.hash⟩ (view txin.prevout).out j).entry := by
  rw [spentBatch, mem_map]
  constructor
  · rintro ⟨⟨key, value⟩, hin, heq⟩
    cases heq
    rcases (mem_recordBlock .spent).mp hin with ⟨i, tx, j, txin, hat, hx⟩ | ⟨_, _, _, _, _, hx⟩
    · cases mem_singleton.mp hx
      exact ⟨i, tx, j, txin, hat, rfl, rfl⟩
    · cases hx
  · rintro ⟨i, tx, j, txin, hat, rfl, rfl⟩
    refine ⟨(txin.prevout, spentValue env ⟨nHeight, i, tx.hash⟩ (view txin.prevout).out j), ?_, rfl⟩
    exact (mem_recordBlock .spent).mpr (.inl ⟨i, tx, j, txin, hat, mem_singleton_self _⟩)

/-- The spent index is as before exactly when it had the entries that the block writes. -/
theorem spent_same_iff (env : Env) (h : BlockSpends coins nHeight vtx) (view : COutPoint → Coin)
    (m : KeyedMap COutPoint CSpentIndexValue) :
    (∀ out, (write m (spentBatch env nHeight view vtx)).find? out = m.find? out) ↔
      ∀ i tx j txin, InputAt vtx i tx j txin → m.find? txin.prevout =
        (spentValue env ⟨nHeight, i, tx.hash⟩ (view txin.prevout).out j).entry.map
          (txin.prevout, ·) := by
  rw [write_same_iff]
  constructor
  · intro hsame i tx j txin hat
    apply hsame
    apply last_of_mem (mem_spentBatch.mpr ⟨i, tx, j, txin, hat, rfl, rfl⟩)
    intro v hv
    obtain ⟨i', tx', j', txin', hat', hout, rfl⟩ := mem_spentBatch.mp hv
    obtain ⟨rfl, rfl⟩ := h.once hat hat' hout
    obtain ⟨rfl, rfl⟩ := hat.unique hat'
    rfl
  · intro hthere out v hlast
    obtain ⟨i, tx, j, txin, hat, rfl, rfl⟩ := mem_spentBatch.mp (mem_of_last hlast)
    exact hthere i tx j txin hat

/-! ## The unspent index -/

theorem mem_unspentOps {changes : IndexChanges} :
    (key, v) ∈ unspentOps changes ↔
      ∃ value, (key, value) ∈ changes.addressUnspentIndex ∧ v = value.entry := by
  simp [unspentOps, eq_comm]

variable {input : CTxIn × Nat} {prevout : CTxOut} {output : CTxOut × Nat}

/-- What a block does to the unspent index at the position of an input. -/
theorem mem_unspent_undoInput {height : Int} :
    (key, value) ∈ (undoInput env place prevout height input).addressUnspentIndex ↔
      ∃ a, indexedAddress env prevout = some a ∧
        if a.payToPublicKey = true then
          key = a.unspentKey ⟨place.txhash, input.2⟩ ∧ value = .null
        else key = a.unspentKey input.1.prevout ∧
          value = ⟨a.amount, prevout.scriptPubKey, height⟩ := by
  simp only [undoInput, mem_map, Option.mem_toList]
  refine exists_congr fun a => and_congr_right fun _ => ?_
  split <;> simp [eq_comm]

theorem hash_ne_of_access (hnew : NewTxids vtx coins) (hold : coins.accessCoin out = some coin)
    (hi : vtx[i]? = some tx) : out.hash ≠ tx.hash := by
  intro hhash
  have hunused := hnew.unused tx (mem_of_getElem? hi) out.n
  rw [← hhash] at hunused
  rw [KeyedSet.contains, accessCoin_eq_some.mp hold] at hunused
  cases hunused

/-- An input does not spend what its own or a later transaction creates. -/
theorem SpendableAt.hash_ne {n : Nat} (h : SpendableAt coins nHeight vtx n out)
    (hnew : NewTxids vtx coins) (hi : vtx[i]? = some tx) (hle : n ≤ i) : out.hash ≠ tx.hash := by
  intro hhash
  rcases h.origin with hold | ⟨i', hlt, tx', hi', hout⟩
  · exact hash_ne_of_access hnew hold hi hhash
  · have hhash' := (mem_outputs.mp hout).1
    rw [hhash] at hhash'
    have := eq_of_nodup_map hnew.nodup hi hi' hhash'
    omega

/-- The key of an output of the block, or the one that is erased for an input that spends to a public
key. -/
def GoneKey (env : Env) (view : COutPoint → Coin) (vtx : List CTransaction)
    (key : CAddressUnspentKey) : Prop :=
  (∃ i tx j txin a, InputAt vtx i tx j txin ∧
    indexedAddress env (view txin.prevout).out = some a ∧ a.payToPublicKey = true ∧
    key = a.unspentKey ⟨tx.hash, j⟩) ∨
  ∃ i tx k out a, OutputAt vtx i tx k out ∧ indexedAddress env out = some a ∧
    key = a.unspentKey ⟨tx.hash, k⟩

/-- A gone key has the hash of a transaction that erases it when it is undone. -/
theorem GoneKey.erased (h : GoneKey env view vtx key) (nHeight : Int) :
    ∃ i tx, vtx[i]? = some tx ∧ key.txhash = tx.hash ∧
      (key, none) ∈ unspentOps (undoTx env ⟨nHeight, i, tx.hash⟩ view tx) := by
  rcases h with ⟨i, tx, j, txin, a, hat, ha, hpk, rfl⟩ | ⟨i, tx, k, out, a, hat, ha, rfl⟩
  · refine ⟨i, tx, hat.inBlock, rfl, mem_unspentOps.mpr ⟨.null, ?_, rfl⟩⟩
    refine (mem_undoTx .unspent).mpr (.inl ⟨j, txin, hat.inTx, mem_unspent_undoInput.mpr ⟨a, ha, ?_⟩⟩)
    rw [if_pos hpk]
    exact ⟨rfl, rfl⟩
  · refine ⟨i, tx, hat.inBlock, rfl, mem_unspentOps.mpr ⟨.null, ?_, rfl⟩⟩
    exact (mem_undoTx .unspent).mpr
      (.inr ⟨k, out, hat.inTx, mem_entry.mpr ⟨a, ha, rfl, rfl⟩⟩)

variable (h : BlockSpends coins nHeight vtx)

include h

/-- What undoing a transaction does at a key of its own hash is to erase it. At a key with the hash
of a later transaction it does nothing. -/
theorem mem_unspent_undoTx {i' : Nat} {tx' : CTransaction}
    (hi : vtx[i]? = some tx) (hi' : vtx[i']? = some tx') (hle : i ≤ i')
    (hkey : key.txhash = tx'.hash)
    (hv : (key, v) ∈ unspentOps (undoTx env ⟨nHeight, i, tx.hash⟩
      (blockCoin coins nHeight vtx) tx)) : i = i' ∧ v = none := by
  obtain ⟨value, hin, rfl⟩ := mem_unspentOps.mp hv
  rcases (mem_undoTx .unspent).mp hin with ⟨j, txin, hj, hx⟩ | ⟨k, out, hk, hx⟩
  · obtain ⟨a, -, hop⟩ := mem_unspent_undoInput.mp hx
    split at hop
    · obtain ⟨rfl, rfl⟩ := hop
      exact ⟨eq_of_nodup_map h.newTxids.nodup hi hi' hkey, rfl⟩
    · obtain ⟨rfl, -⟩ := hop
      exact absurd hkey ((h.spendable ⟨hi, hj⟩).hash_ne h.newTxids hi' hle)
  · obtain ⟨a, -, rfl, rfl⟩ := mem_entry.mp hx
    exact ⟨eq_of_nodup_map h.newTxids.nodup hi hi' hkey, rfl⟩

theorem last_unspent_of_gone (hgone : GoneKey env (blockCoin coins nHeight vtx) vtx key) :
    last (unspentBatch env nHeight (blockCoin coins nHeight vtx) vtx) key = some none := by
  obtain ⟨i, tx, hi, hhash, hmem⟩ := hgone.erased nHeight
  have hlast : last (unspentOps (undoBlock env nHeight (blockCoin coins nHeight vtx) vtx))
      key = some none := by
    have hconcat := IndexChanges.Field.unspent.concat
    simp only [IndexChanges.Field.unspent] at hconcat
    rw [unspentOps, undoBlock, hconcat, flatMap_map, map_flatMap]
    apply last_flatMap_reverse (i := i) (a := (tx, i))
    · rw [getElem?_zipIdx, hi]
      simp
    · apply last_of_mem hmem
      intro v hv
      exact (mem_unspent_undoTx h hi hi le_rfl hhash hv).2
    · rintro i' hlt ⟨tx', n⟩ hget
      rw [getElem?_zipIdx, Option.map_eq_some_iff] at hget
      obtain ⟨_, hi', heq⟩ := hget
      simp only [Nat.zero_add, Prod.mk.injEq] at heq
      obtain ⟨rfl, rfl⟩ := heq
      rw [last_eq_none]
      intro v hv
      have := (mem_unspent_undoTx h hi' hi (by omega) hhash hv).1
      omega
  rw [unspentBatch, last_append, hlast]
  rfl

/-- The value that is restored for a coin. -/
def unspentValue (a : IndexedAddress) (coin : Coin) : CAddressUnspentValue :=
  ⟨a.amount, coin.out.scriptPubKey, coin.nHeight⟩

/-- What undoing the block does at a key with a foreign hash: the one input that spends this coin
restores it, unless it spends to a public key. -/
theorem mem_unspent_undoBlock_of_foreign
    (hat : InputAt vtx i tx j txin) (hold : coins.accessCoin txin.prevout = some coin)
    (ha : indexedAddress env coin.out = some a)
    (hv : (a.unspentKey txin.prevout, v) ∈
      unspentOps (undoBlock env nHeight (blockCoin coins nHeight vtx) vtx)) :
    a.payToPublicKey = false ∧ v = (unspentValue a coin).entry := by
  obtain ⟨value, hin, rfl⟩ := mem_unspentOps.mp hv
  rcases (mem_undoBlock .unspent).mp hin with
    ⟨i', tx', j', txin', hat', hx⟩ | ⟨i', tx', k, out, hat', hx⟩
  · obtain ⟨a', ha', hop⟩ := mem_unspent_undoInput.mp hx
    split at hop
    · exact absurd (congrArg txhash hop.1)
        (hash_ne_of_access h.newTxids hold hat'.inBlock)
    · rename_i hpk
      obtain ⟨hkey, rfl⟩ := hop
      have hout : txin.prevout = txin'.prevout := by
        have hhash : txin.prevout.hash = txin'.prevout.hash :=
          congrArg txhash hkey
        have hn : txin.prevout.n = txin'.prevout.n := congrArg index hkey
        cases hprev : txin.prevout
        simp_all
      obtain ⟨rfl, rfl⟩ := h.once hat hat' hout
      obtain ⟨rfl, rfl⟩ := hat.unique hat'
      rw [blockCoin_of_access hold, ha] at ha'
      cases ha'
      rw [blockCoin_of_access hold]
      exact ⟨Bool.eq_false_iff.mpr hpk, rfl⟩
  · obtain ⟨a', -, hkey, -⟩ := mem_entry.mp hx
    exact absurd (congrArg txhash hkey)
      (hash_ne_of_access h.newTxids hold hat'.inBlock)

theorem mem_unspent_recordBlock_of_foreign (hold : coins.accessCoin out = some coin)
    (hv : (a.unspentKey out, v) ∈
      unspentOps (recordBlock env nHeight (blockCoin coins nHeight vtx) vtx)) : v = none := by
  obtain ⟨value, hin, rfl⟩ := mem_unspentOps.mp hv
  rcases (mem_recordBlock .unspent).mp hin with ⟨i, tx, j, txin, hat, hx⟩ | ⟨i, tx, k, out', hat, hx⟩
  · obtain ⟨a', -, -, rfl⟩ := mem_entry.mp hx
    rfl
  · obtain ⟨a', -, hkey, -⟩ := mem_entry.mp hx
    exact absurd (congrArg txhash hkey)
      (hash_ne_of_access h.newTxids hold hat.inBlock)

theorem last_unspent_of_foreign
    (hat : InputAt vtx i tx j txin) (hold : coins.accessCoin txin.prevout = some coin)
    (ha : indexedAddress env coin.out = some a) :
    last (unspentBatch env nHeight (blockCoin coins nHeight vtx) vtx)
        (a.unspentKey txin.prevout) =
      some (if a.payToPublicKey then none else (unspentValue a coin).entry) := by
  have hcoin : blockCoin coins nHeight vtx txin.prevout = coin := blockCoin_of_access hold
  rw [unspentBatch, last_append]
  cases hpk : a.payToPublicKey with
  | true =>
    have hundo : last (unspentOps (undoBlock env nHeight (blockCoin coins nHeight vtx) vtx))
        (a.unspentKey txin.prevout) = none := by
      rw [last_eq_none]
      intro v hv
      have hnot := (mem_unspent_undoBlock_of_foreign h hat hold ha hv).1
      rw [hpk] at hnot
      cases hnot
    rw [hundo, Option.none_or]
    apply last_of_mem
    · refine mem_unspentOps.mpr ⟨.null, (mem_recordBlock .unspent).mpr ?_, rfl⟩
      exact .inl ⟨i, tx, j, txin, hat,
        mem_entry.mpr ⟨a, by rwa [hcoin], rfl, rfl⟩⟩
    · intro v hv
      exact mem_unspent_recordBlock_of_foreign h hold hv
  | false =>
    have hundo : last (unspentOps (undoBlock env nHeight (blockCoin coins nHeight vtx) vtx))
        (a.unspentKey txin.prevout) = some (unspentValue a coin).entry := by
      apply last_of_mem
      · refine mem_unspentOps.mpr ⟨unspentValue a coin, (mem_undoBlock .unspent).mpr ?_, rfl⟩
        refine .inl ⟨i, tx, j, txin, hat, mem_unspent_undoInput.mpr ⟨a, by rwa [hcoin], ?_⟩⟩
        rw [if_neg (by simp [hpk]), hcoin]
        exact ⟨rfl, rfl⟩
      · intro v hv
        exact (mem_unspent_undoBlock_of_foreign h hat hold ha hv).2
    rw [hundo]
    rfl

/-- The key of a coin from before the block that an input spends. -/
def ForeignKey (env : Env) (coins : Coins) (vtx : List CTransaction) (key : CAddressUnspentKey) :
    Prop :=
  ∃ i tx j txin coin a, InputAt vtx i tx j txin ∧ coins.accessCoin txin.prevout = some coin ∧
    indexedAddress env coin.out = some a ∧ key = a.unspentKey txin.prevout

theorem InputAt.key_cases (hat : InputAt vtx i tx j txin)
    (ha : indexedAddress env (blockCoin coins nHeight vtx txin.prevout).out = some a) :
    GoneKey env (blockCoin coins nHeight vtx) vtx (a.unspentKey txin.prevout) ∨
      ForeignKey env coins vtx (a.unspentKey txin.prevout) := by
  rcases (h.spendable hat).origin with hold | ⟨i', -, tx', hi', hout⟩
  · exact .inr ⟨i, tx, j, txin, _, a, hat, hold, ha, rfl⟩
  · obtain ⟨hhash, hget⟩ := mem_outputs.mp hout
    exact .inl (.inr ⟨i', tx', txin.prevout.n, _, a, ⟨hi', hget⟩, ha, by rw [← hhash]⟩)

theorem unspentBatch_key_cases
    (hin : (key, v) ∈ unspentBatch env nHeight (blockCoin coins nHeight vtx) vtx) :
    GoneKey env (blockCoin coins nHeight vtx) vtx key ∨ ForeignKey env coins vtx key := by
  rcases mem_append.mp hin with hin | hin
  · obtain ⟨value, hin, -⟩ := mem_unspentOps.mp hin
    rcases (mem_recordBlock .unspent).mp hin with
      ⟨i, tx, j, txin, hat, hx⟩ | ⟨i, tx, k, out, hat, hx⟩
    · obtain ⟨a, ha, rfl, -⟩ := mem_entry.mp hx
      exact hat.key_cases h ha
    · obtain ⟨a, ha, rfl, -⟩ := mem_entry.mp hx
      exact .inl (.inr ⟨i, tx, k, out, a, hat, ha, rfl⟩)
  · obtain ⟨value, hin, -⟩ := mem_unspentOps.mp hin
    rcases (mem_undoBlock .unspent).mp hin with
      ⟨i, tx, j, txin, hat, hx⟩ | ⟨i, tx, k, out, hat, hx⟩
    · obtain ⟨a, ha, hop⟩ := mem_unspent_undoInput.mp hx
      split at hop
      · rename_i hpk
        exact .inl (.inl ⟨i, tx, j, txin, a, hat, ha, hpk, hop.1⟩)
      · rw [hop.1]
        exact hat.key_cases h ha
    · obtain ⟨a, ha, rfl, -⟩ := mem_entry.mp hx
      exact .inl (.inr ⟨i, tx, k, out, a, hat, ha, rfl⟩)

/-- The unspent index is as before exactly when it had none of the keys that are gone, and had what
is left for the coins from before the block. -/
theorem unspent_same_iff (env : Env) (m : KeyedMap CAddressUnspentKey CAddressUnspentValue) :
    (∀ key, (write m (unspentBatch env nHeight (blockCoin coins nHeight vtx) vtx)).find? key =
        m.find? key) ↔
      (∀ key, GoneKey env (blockCoin coins nHeight vtx) vtx key → m.find? key = none) ∧
      ∀ i tx j txin coin a, InputAt vtx i tx j txin → coins.accessCoin txin.prevout = some coin →
        indexedAddress env coin.out = some a → m.find? (a.unspentKey txin.prevout) =
          (if a.payToPublicKey then none else (unspentValue a coin).entry).map
            (a.unspentKey txin.prevout, ·) := by
  rw [write_same_iff]
  constructor
  · intro hsame
    constructor
    · intro key hgone
      exact hsame key none (last_unspent_of_gone h hgone)
    · intro i tx j txin coin a hat hold ha
      exact hsame _ _ (last_unspent_of_foreign h hat hold ha)
  · rintro ⟨hgone, hforeign⟩ key v hlast
    rcases unspentBatch_key_cases h (mem_of_last hlast) with
      hkey | ⟨i, tx, j, txin, coin, a, hat, hold, ha, rfl⟩
    · rw [last_unspent_of_gone h hkey] at hlast
      cases hlast
      exact hgone key hkey
    · rw [last_unspent_of_foreign h hat hold ha] at hlast
      cases hlast
      exact hforeign i tx j txin coin a hat hold ha

end

/-! ## A block connected and disconnected -/

namespace CBlockTreeDB

/-- The three indexes have the same entries. -/
structure Same (db db' : CBlockTreeDB) : Prop where
  addressIndex : ∀ key, db'.addressIndex.find? key = db.addressIndex.find? key
  addressUnspentIndex : ∀ key, db'.addressUnspentIndex.find? key = db.addressUnspentIndex.find? key
  spentIndex : ∀ out, db'.spentIndex.find? out = db.spentIndex.find? out

/-- The indexes have, before a block, what its connection and disconnection leave at the keys they
touch: no entry at the keys they erase last, and at the others the entry they write last. -/
structure Undoable (db : CBlockTreeDB) (env : Env) (nHeight : Int) (coins : Coins)
    (vtx : List CTransaction) : Prop where
  noActivity : ∀ key, ErasedKey env nHeight (blockCoin coins nHeight vtx) vtx key →
    db.addressIndex.find? key = none
  spending : ∀ i tx j txin a, InputAt vtx i tx j txin →
    indexedAddress env (blockCoin coins nHeight vtx txin.prevout).out = some a →
    a.payToPublicKey = true → db.addressIndex.find? (a.activityKey ⟨nHeight, i, tx.hash⟩ j true) =
      some (a.activityKey ⟨nHeight, i, tx.hash⟩ j true, -a.amount)
  noUnspent : ∀ key, GoneKey env (blockCoin coins nHeight vtx) vtx key →
    db.addressUnspentIndex.find? key = none
  unspent : ∀ i tx j txin coin a, InputAt vtx i tx j txin →
    coins.accessCoin txin.prevout = some coin → indexedAddress env coin.out = some a →
    db.addressUnspentIndex.find? (a.unspentKey txin.prevout) =
      (if a.payToPublicKey then none else (unspentValue a coin).entry).map
        (a.unspentKey txin.prevout, ·)
  spent : ∀ i tx j txin, InputAt vtx i tx j txin → db.spentIndex.find? txin.prevout =
    (spentValue env ⟨nHeight, i, tx.hash⟩ (blockCoin coins nHeight vtx txin.prevout).out j).entry.map
      (txin.prevout, ·)

end CBlockTreeDB

section

variable {env : ChainEnv} {block : CBlock} {nHeight : Int} {coins coins' : Coins}
  {undo : CBlockUndo} {s t : AssetState} {vtx rest : List CTransaction} {coinbase : CTransaction}

theorem blockSpends_of_trace {scan : ConnectScan} {blockHash : UInt256} (hnew : NewTxids vtx coins)
    (h : vtx.foldlM (connectTx env blockHash nHeight) ⟨coins, 0, [], []⟩ s = .ok scan t)
    (htrace : ∀ i tx, 0 ≤ i → vtx[i]? = some tx → (tx.spentInputs.map (·.prevout)).Nodup ∧
      ∀ txin ∈ tx.spentInputs, SpendableAt coins nHeight vtx i txin.prevout) :
    BlockSpends coins nHeight vtx := by
  refine ⟨hnew, ?_, ?_⟩
  · intro i tx j txin hat
    exact (htrace i tx (by omega) hat.inBlock).2 txin (mem_of_getElem? hat.inTx)
  · intro i tx j txin i' tx' j' txin' hat hat' hout
    have honce := pairwise_iff_getElem.mp (connectTxs_spend_once h hnew)
    have hmem := mem_map_of_mem (f := (·.prevout)) (mem_of_getElem? hat.inTx)
    have hmem' := mem_map_of_mem (f := (·.prevout)) (mem_of_getElem? hat'.inTx)
    obtain ⟨hlt, rfl⟩ := List.getElem?_eq_some_iff.mp hat.inBlock
    obtain ⟨hlt', rfl⟩ := List.getElem?_eq_some_iff.mp hat'.inBlock
    rcases Nat.lt_trichotomy i i' with hless | rfl | hless
    · exact absurd (hout ▸ hmem') (honce i i' hlt hlt' hless _ hmem)
    · refine ⟨rfl, ?_⟩
      have hnodup := (htrace i vtx[i] (by omega) hat.inBlock).1
      exact eq_of_nodup_map hnodup hat.inTx hat'.inTx hout
    · exact absurd (hout ▸ hmem) (honce i' i hlt' hlt hless _ hmem')

theorem zip_vtxundo (view : COutPoint → Coin)
    (hfirst : coinbase.isCoinBase = true) (hrest : ∀ tx ∈ rest, tx.isCoinBase = false) :
    (coinbase :: rest).zip (none :: ((((coinbase :: rest).filter fun tx => !tx.isCoinBase).map
        fun tx => tx.vin.map fun txin => view txin.prevout)).map some) =
      (coinbase :: rest).map fun tx => (tx, if tx.isCoinBase then none
        else some (tx.vin.map fun txin => view txin.prevout)) := by
  have hfilter : (coinbase :: rest).filter (fun tx => !tx.isCoinBase) = rest := by
    rw [filter_cons, if_neg (by simp [hfirst]), filter_eq_self]
    intro tx hin
    simp [hrest tx hin]
  rw [hfilter, zip_cons_cons, map_cons, if_pos hfirst, map_map]
  congr 1
  have hzip := zip_map' (f := id)
    (g := fun tx : CTransaction => some (tx.vin.map fun txin => view txin.prevout)) (l := rest)
  rw [map_id] at hzip
  rw [Function.comp_def, hzip]
  apply map_congr_left
  intro tx hin
  simp [hrest tx hin]

theorem undoTxs_vtxundo {now : Coins} (h : BlockSpends coins nHeight vtx)
    (hvtx : vtx = coinbase :: rest) (hfirst : coinbase.isCoinBase = true)
    (hrest : ∀ tx ∈ rest, tx.isCoinBase = false) :
    undoTxs env.toEnv nHeight now (vtx.zip (none ::
        (((vtx.filter fun tx => !tx.isCoinBase).map fun tx => tx.vin.map fun txin =>
          blockCoin coins nHeight vtx txin.prevout)).map some)).zipIdx.reverse =
      undoBlock env.toEnv nHeight (blockCoin coins nHeight vtx) vtx := by
  have hzip := zip_vtxundo (blockCoin coins nHeight vtx) hfirst hrest
  rw [← hvtx] at hzip
  rw [hzip, zipIdx_map, ← map_reverse]
  apply undoTxs_eq
  rintro ⟨tx, i⟩ hin txin htxin
  obtain ⟨j, hj⟩ := mem_iff_getElem?.mp htxin
  have hi := mk_mem_zipIdx_iff_getElem?.mp (mem_reverse.mp hin)
  have hat := h.spendable ⟨hi, hj⟩
  exact ⟨hat.spendable, hat.height⟩

end

/-- A disconnect that goes through leaves the three indexes as they were exactly when they already
had what is left. -/
theorem same_of_disconnect {env : ChainEnv} {block : CBlock} {nHeight : Int}
    {coins coins' : Coins} {undo : CBlockUndo} {db db' db'' : CBlockTreeDB} {scan : DisconnectScan}
    {s t t' u : AssetState} (hmark : block.HonestlyMarked env) (hkept : coins.Kept)
    (hheight : nHeight ≠ 0) (hnew : NewTxids block.vtx coins)
    (hconnect : connectBlockIndexes env block nHeight coins db s = .ok (undo, coins', db') t)
    (hdisconnect : disconnectBlockIndexes env.toEnv block nHeight undo.vtxundo coins' db' t' =
      .ok (scan, db'') u) :
    db.Same db'' ↔ db.Undoable env.toEnv nHeight coins block.vtx := by
  obtain ⟨⟨undo', coins''⟩, _, hblock, hresult⟩ := run_bind_eq_ok.mp hconnect
  obtain ⟨heq, rfl⟩ := run_pure_eq_ok.mp hresult
  simp only [Prod.mk.injEq] at heq
  obtain ⟨rfl, rfl, rfl⟩ := heq
  obtain ⟨scan', _, -, hundone⟩ := run_bind_eq_ok.mp hdisconnect
  obtain ⟨heq, rfl⟩ := run_pure_eq_ok.mp hundone
  simp only [Prod.mk.injEq] at heq
  obtain ⟨rfl, rfl⟩ := heq
  obtain ⟨last, coinbase, paid, hcheck, hscan, -, -, -, rfl, rfl⟩ := connectBlock_ok hblock
  obtain ⟨coinbase, rest, hvtx, hfirst, hrest, -⟩ := (checked_of_checkBlock hcheck hmark).shape
  obtain ⟨hrecord, hundo, htrace⟩ := connectTxs_trace hnew hheight hscan rfl (coinsAt_start hkept)
  have hspends : BlockSpends coins nHeight block.vtx := blockSpends_of_trace hnew hscan htrace
  rw [nil_append] at hundo
  simp only at hrecord
  rw [hrecord, hundo, undoTxs_vtxundo hspends hvtx hfirst hrest]
  -- each index has had two batches, which make one
  have hactivity := activity_same_iff env.toEnv nHeight (blockCoin coins nHeight block.vtx)
    block.vtx db.addressIndex
  have hunspent := unspent_same_iff hspends env.toEnv db.addressUnspentIndex
  have hspent := spent_same_iff env.toEnv hspends (blockCoin coins nHeight block.vtx) db.spentIndex
  rw [activityBatch, ← write_append] at hactivity
  rw [unspentBatch, ← write_append] at hunspent
  constructor
  · intro hsame
    obtain ⟨hnoActivity, hspending⟩ := hactivity.mp hsame.addressIndex
    obtain ⟨hnoUnspent, hunspent⟩ := hunspent.mp hsame.addressUnspentIndex
    exact ⟨hnoActivity, hspending, hnoUnspent, hunspent, hspent.mp hsame.spentIndex⟩
  · intro hundoable
    exact ⟨hactivity.mpr ⟨hundoable.noActivity, hundoable.spending⟩,
      hunspent.mpr ⟨hundoable.noUnspent, hundoable.unspent⟩, hspent.mpr hundoable.spent⟩

theorem disconnectBlockIndexes_ok {env : Env} {block : CBlock} {nHeight : Int}
    {vtxundo : List (List Coin)} {coins : Coins} {db : CBlockTreeDB} {s : AssetState} :
    (∃ scan db' u, disconnectBlockIndexes env block nHeight vtxundo coins db s =
        .ok (scan, db') u) ↔
      succeeded (disconnectBlock env block nHeight vtxundo coins s) = true := by
  rw [succeeded_iff, disconnectBlockIndexes]
  constructor
  · rintro ⟨scan, db', u, h⟩
    obtain ⟨scan, u, hscan, -⟩ := run_bind_eq_ok.mp h
    exact ⟨scan, u, hscan⟩
  · rintro ⟨scan, u, hscan⟩
    exact ⟨scan, _, u, run_bind_eq_ok.mpr ⟨scan, u, hscan, rfl⟩⟩

/-- The block is disconnected, and the indexes are as they were. -/
def CBlockTreeDB.RestoredBy (db : CBlockTreeDB)
    (result : EStateM.Result String AssetState (DisconnectScan × CBlockTreeDB)) : Prop :=
  ∃ scan db'' u, result = .ok (scan, db'') u ∧ db.Same db''

/-- Disconnecting a block that was connected leaves the three indexes as they were exactly when it
goes through and they already had what is left. A block with an input whose output the spent index
says nothing of leaves something. -/
theorem indexes_restored_iff (env : ChainEnv) (block : CBlock) (nHeight : Int)
    (coins coins' : Coins) (undo : CBlockUndo) (db db' : CBlockTreeDB) (s t t' : AssetState)
    (hmark : block.HonestlyMarked env) (hkept : coins.Kept) (hheight : nHeight ≠ 0)
    (hnew : NewTxids block.vtx coins)
    (hconnect : connectBlockIndexes env block nHeight coins db s = .ok (undo, coins', db') t) :
    (db.RestoredBy (disconnectBlockIndexes env.toEnv block nHeight undo.vtxundo coins' db' t') ↔
      succeeded (disconnectBlock env.toEnv block nHeight undo.vtxundo coins' t') = true ∧
        db.Undoable env.toEnv nHeight coins block.vtx) ∧
    ∀ i tx j txin, InputAt block.vtx i tx j txin → tx.hash ≠ 0 →
      db.spentIndex.find? txin.prevout = none →
      ¬db.RestoredBy
        (disconnectBlockIndexes env.toEnv block nHeight undo.vtxundo coins' db' t') := by
  have hsame : ∀ scan db'' u, disconnectBlockIndexes env.toEnv block nHeight undo.vtxundo coins' db'
      t' = .ok (scan, db'') u → (db.Same db'' ↔ db.Undoable env.toEnv nHeight coins block.vtx) :=
    fun _ _ _ => same_of_disconnect hmark hkept hheight hnew hconnect
  refine ⟨?_, ?_⟩
  · rw [← disconnectBlockIndexes_ok]
    constructor
    · rintro ⟨scan, db'', u, hdisconnect, hrestored⟩
      exact ⟨⟨scan, db'', u, hdisconnect⟩, (hsame _ _ _ hdisconnect).mp hrestored⟩
    · rintro ⟨⟨scan, db'', u, hdisconnect⟩, hundoable⟩
      exact ⟨scan, db'', u, hdisconnect, (hsame _ _ _ hdisconnect).mpr hundoable⟩
  · rintro i tx j txin hat hhash hnone ⟨scan, db'', u, hdisconnect, hrestored⟩
    have hspent := ((hsame _ _ _ hdisconnect).mp hrestored).spent i tx j txin hat
    have hvalue : ∀ out, (spentValue env.toEnv ⟨nHeight, i, tx.hash⟩ out j).isNull = false :=
      fun _ => decide_eq_false hhash
    simp [hnone, CSpentIndexValue.entry, hvalue] at hspent

/-! ## A block that spends one coin -/

def paidTo (script : CScript) : Coins :=
  empty.insert (⟨7, 0⟩, ⟨⟨500 * coin, script⟩, false, 1⟩)

def payTx : CTransaction := ⟨[⟨⟨7, 0⟩, []⟩], [⟨500 * coin, scriptForKeyID issuerKey⟩], 41⟩

def payBlock : CBlock := minedBlock 30 [0] [payTx]

theorem payBlock_newTxids (script : CScript) : NewTxids payBlock.vtx (paidTo script) := by
  refine ⟨by decide +kernel, ?_⟩
  intro tx hin n
  have hhash : ∀ tx ∈ payBlock.vtx, tx.hash ≠ 7 := by decide +kernel
  rw [paidTo, KeyedSet.contains_insert, KeyedSet.contains_empty, Bool.or_false,
    decide_eq_false_iff_not]
  intro heq
  exact hhash tx hin (congrArg COutPoint.hash heq).symm

theorem paidTo_kept {script : CScript} (h : isUnspendable script = false) :
    (paidTo script).Kept := by
  intro out coin hcoin
  rw [accessCoin_eq_some, paidTo, find?_insert] at hcoin
  split at hcoin
  · cases hcoin
    exact ⟨h, (by decide : (1 : Int) ≠ 0)⟩
  · cases hcoin

/-- The block has been connected and disconnected before, so the spent index has its entry. -/
def paidDB : CBlockTreeDB where
  addressUnspentIndex := empty.insert
    (⟨1, issuerKey, hnb, 7, 0⟩, ⟨500 * coin, scriptForKeyID issuerKey, 1⟩)
  spentIndex := empty.insert (⟨7, 0⟩, ⟨41, 0, 102, 500 * coin, 1, issuerKey⟩)

theorem paidDB_restored : ∃ undo coins' db' t,
    connectBlockIndexes regTestChain payBlock 102 (paidTo (scriptForKeyID issuerKey)) paidDB {} =
      .ok (undo, coins', db') t ∧
    succeeded (disconnectBlock regTestChain.toEnv payBlock 102 undo.vtxundo coins' {}) = true ∧
    paidDB.Undoable regTestChain.toEnv 102 (paidTo (scriptForKeyID issuerKey)) payBlock.vtx := by
  obtain ⟨⟨undo, coins', db'⟩, t, hconnect, scan, _, u, hdisconnect, rfl⟩ :
      ∃ r t, connectBlockIndexes regTestChain payBlock 102 (paidTo (scriptForKeyID issuerKey)) paidDB
          {} = .ok r t ∧
        ∃ scan db'' u, disconnectBlockIndexes regTestChain.toEnv payBlock 102 r.1.vtxundo r.2.1 r.2.2
          {} = .ok (scan, db'') u ∧ db'' = paidDB := by decide +kernel
  refine ⟨undo, coins', db', t, hconnect, (indexes_restored_iff regTestChain payBlock 102 _ _ _ _ _
    _ _ _ (by simp [CBlock.HonestlyMarked, payBlock, minedBlock]) (paidTo_kept (by decide +kernel))
    (by decide) (payBlock_newTxids _) hconnect).1.mp ⟨scan, _, u, hdisconnect, ?_⟩⟩
  exact ⟨fun _ => rfl, fun _ => rfl, fun _ => rfl⟩

/-- A script that pays to a compressed public key. -/
def publicKeyScript : CScript := 33 :: 2 :: List.replicate 32 0 ++ [opChecksig]

/-- The unspent index has the coin. -/
def publicKeyDB : CBlockTreeDB where
  addressUnspentIndex := empty.insert
    (⟨1, regTestChain.hashes.hash160 (2 :: List.replicate 32 0), hnb, 7, 0⟩,
      ⟨500 * coin, publicKeyScript, 1⟩)

/-- After the block is disconnected the spend is still in the address index and in the spent index,
and the coin is missing from the unspent index. -/
theorem publicKey_spend_not_undone :
    ∃ undo coins' db' t scan db'' u,
      connectBlockIndexes regTestChain payBlock 102 (paidTo publicKeyScript) publicKeyDB {} =
        .ok (undo, coins', db') t ∧
      disconnectBlockIndexes regTestChain.toEnv payBlock 102 undo.vtxundo coins' db' {} =
        .ok (scan, db'') u ∧
      ¬publicKeyDB.Same db'' ∧ db''.addressIndex.items.map (·.1.spending) = [true] ∧
      db''.addressUnspentIndex.items = [] ∧ db''.spentIndex.items.map (·.1) = [⟨7, 0⟩] := by
  obtain ⟨⟨undo, coins', db'⟩, t, hconnect, scan, db'', u, hdisconnect, hspent, hleft⟩ :
      ∃ r t, connectBlockIndexes regTestChain payBlock 102 (paidTo publicKeyScript) publicKeyDB {} =
          .ok r t ∧
        ∃ scan db'' u, disconnectBlockIndexes regTestChain.toEnv payBlock 102 r.1.vtxundo r.2.1 r.2.2
            {} = .ok (scan, db'') u ∧
          db''.spentIndex.find? ⟨7, 0⟩ ≠ publicKeyDB.spentIndex.find? ⟨7, 0⟩ ∧
          db''.addressIndex.items.map (·.1.spending) = [true] ∧
          db''.addressUnspentIndex.items = [] ∧ db''.spentIndex.items.map (·.1) = [⟨7, 0⟩] := by
    decide +kernel
  exact ⟨undo, coins', db', t, scan, db'', u, hconnect, hdisconnect,
    fun hsame => hspent (hsame.spentIndex ⟨7, 0⟩), hleft⟩

end HnbCore
