import HnbCore.CoinTotals

/-!
# Which coins a block leaves

The outpoints that are unspent after the transactions of a block: those that were unspent or
created before and are not spent by it.
-/

namespace HnbCore

open Checks AssetState List

/-- The outpoints a transaction names as its inputs. -/
def CTransaction.prevouts (tx : CTransaction) : List COutPoint := tx.vin.map (·.prevout)

/-- The transaction creates a coin at the outpoint. -/
def CTransaction.Creates (tx : CTransaction) (out : COutPoint) : Prop :=
  ∃ txout, (out, txout) ∈ tx.outputs ∧ isUnspendable txout.scriptPubKey = false

instance (tx : CTransaction) (out : COutPoint) : Decidable (tx.Creates out) :=
  decidable_of_iff (∃ item ∈ tx.outputs, item.1 = out ∧ isUnspendable item.2.scriptPubKey = false)
    ⟨fun ⟨item, hin, heq, hspend⟩ => ⟨item.2, heq ▸ hin, hspend⟩,
      fun ⟨txout, hin, hspend⟩ => ⟨(out, txout), hin, rfl, hspend⟩⟩

/-- The inputs that `UpdateCoins` spends. -/
def CTransaction.spentInputs (tx : CTransaction) : List CTxIn :=
  if tx.isCoinBase then [] else tx.vin

theorem contains_eraseInputs (coins : Coins) (vin : List CTxIn) (out : COutPoint) :
    (eraseInputs coins vin).contains out = true ↔
      coins.contains out = true ∧ out ∉ vin.map (·.prevout) := by
  unfold eraseInputs
  induction vin generalizing coins with
  | nil => simp
  | cons txin vin ih =>
    rw [foldl_cons, ih, KeyedSet.contains_erase, map_cons, mem_cons, not_or]
    simp only [Bool.and_eq_true, decide_eq_true_eq, ne_eq]
    constructor
    · rintro ⟨⟨hne, hin⟩, hrest⟩
      exact ⟨hin, fun heq => hne heq.symm, hrest⟩
    · rintro ⟨hin, hne, hrest⟩
      exact ⟨⟨fun heq => hne heq.symm, hin⟩, hrest⟩

theorem contains_addOutputCoins (coins : Coins) (tx : CTransaction) (nHeight : Int)
    (out : COutPoint) :
    (addOutputCoins coins tx nHeight).contains out = true ↔
      tx.Creates out ∨ coins.contains out = true := by
  unfold addOutputCoins CTransaction.Creates
  induction tx.outputs generalizing coins with
  | nil => simp
  | cons first outputs ih =>
    obtain ⟨out', txout⟩ := first
    rw [foldl_cons, ih]
    have hadd : (coins.addCoin out' ⟨txout, tx.isCoinBase, nHeight⟩).contains out = true ↔
        (out = out' ∧ isUnspendable txout.scriptPubKey = false) ∨ coins.contains out = true := by
      unfold Coins.addCoin
      cases hspend : isUnspendable txout.scriptPubKey with
      | true => simp
      | false =>
        simp only [Bool.false_eq_true, if_false, KeyedSet.contains_assign, Bool.or_eq_true,
          decide_eq_true_eq, and_true]
        rw [eq_comm]
    simp only [hadd, mem_cons, Prod.mk.injEq]
    constructor
    · rintro (⟨txout', hin, hspend⟩ | ⟨rfl, hspend⟩ | hcoin)
      · exact .inl ⟨txout', .inr hin, hspend⟩
      · exact .inl ⟨txout, .inl ⟨rfl, rfl⟩, hspend⟩
      · exact .inr hcoin
    · rintro (⟨txout', ⟨rfl, rfl⟩ | hin, hspend⟩ | hcoin)
      · exact .inr (.inl ⟨rfl, hspend⟩)
      · exact .inl ⟨txout', hin, hspend⟩
      · exact .inr (.inr hcoin)

section

variable {env : ChainEnv} {blockHash : UInt256} {nHeight : Int} {scan scan' : ConnectScan}
  {tx : CTransaction} {txs : List CTransaction} {s t : AssetState} {out : COutPoint}

theorem connectTx_coins (h : connectTx env blockHash nHeight scan tx s = .ok scan' t) :
    (∃ spent, Spends scan.coins tx.spentInputs spent) ∧
      ∀ out, scan'.coins.contains out = true ↔ tx.Creates out ∨
        (scan.coins.contains out = true ∧ out ∉ tx.spentInputs.map (·.prevout)) := by
  obtain ⟨nFees, undo, coins, u, -, hupdate, rfl⟩ := connectTx_ok h
  obtain ⟨hspends, hcoins⟩ := updateCoins_ok hupdate
  refine ⟨⟨_, hspends⟩, ?_⟩
  intro out
  change coins = _ at hcoins
  rw [hcoins, contains_addOutputCoins, contains_eraseInputs]
  rfl

theorem spends_contains {coins : Coins} {vin : List CTxIn} {spent : List Coin}
    (h : Spends coins vin spent) {out : COutPoint} (hin : out ∈ vin.map (·.prevout)) :
    coins.contains out = true := by
  obtain ⟨txin, htxin, rfl⟩ := mem_map.mp hin
  have hmem := mem_map_of_mem (f := fun txin : CTxIn => coins.accessCoin txin.prevout) htxin
  rw [h.access] at hmem
  obtain ⟨coin, -, hcoin⟩ := mem_map.mp hmem
  rw [KeyedSet.contains, accessCoin_eq_some.mp hcoin.symm]
  rfl

theorem hash_of_creates (h : tx.Creates out) : out.hash = tx.hash := by
  obtain ⟨txout, hin, -⟩ := h
  simp only [CTransaction.outputs, mem_map] at hin
  obtain ⟨_, -, heq⟩ := hin
  cases heq
  rfl

theorem mem_prevouts_of_spent (h : out ∈ tx.spentInputs.map (·.prevout)) : out ∈ tx.prevouts := by
  unfold CTransaction.spentInputs at h
  split at h
  · cases h
  · exact h

section

variable (h : txs.foldlM (connectTx env blockHash nHeight) scan s = .ok scan' t)
include h

/-- A coin that is there or is created, and that no transaction spends, is left. -/
theorem connectTxs_leaves (hout : scan.coins.contains out = true ∨ ∃ tx ∈ txs, tx.Creates out)
    (hunspent : ∀ tx ∈ txs, out ∉ tx.prevouts) : scan'.coins.contains out = true := by
  induction txs generalizing scan s with
  | nil =>
    obtain ⟨rfl, -⟩ := run_pure_eq_ok.mp h
    exact hout.resolve_right (by simp)
  | cons tx txs ih =>
    obtain ⟨mid, u, hfirst, hrest⟩ := run_bind_eq_ok.mp h
    have hmid := (connectTx_coins hfirst).2 out
    have hkept : out ∉ tx.spentInputs.map (·.prevout) :=
      fun hin => hunspent tx mem_cons_self (mem_prevouts_of_spent hin)
    apply ih hrest
    · rcases hout with hcoin | ⟨creator, hin, hcreates⟩
      · exact .inl (hmid.mpr (.inr ⟨hcoin, hkept⟩))
      · rcases mem_cons.mp hin with rfl | hin
        · exact .inl (hmid.mpr (.inl hcreates))
        · exact .inr ⟨creator, hin, hcreates⟩
    · exact fun tx' hin => hunspent tx' (mem_cons_of_mem tx hin)

/-- A coin that is left was there or is created. -/
theorem connectTxs_origin (hout : scan'.coins.contains out = true) :
    scan.coins.contains out = true ∨ ∃ tx ∈ txs, tx.Creates out := by
  induction txs generalizing scan s with
  | nil =>
    obtain ⟨rfl, -⟩ := run_pure_eq_ok.mp h
    exact .inl hout
  | cons tx txs ih =>
    obtain ⟨mid, u, hfirst, hrest⟩ := run_bind_eq_ok.mp h
    rcases ih hrest with hcoin | ⟨creator, hin, hcreates⟩
    · rcases ((connectTx_coins hfirst).2 out).mp hcoin with hcreates | ⟨hcoin, -⟩
      · exact .inr ⟨tx, mem_cons_self, hcreates⟩
      · exact .inl hcoin
    · exact .inr ⟨creator, mem_cons_of_mem tx hin, hcreates⟩

/-- A coin that is spent was there or is created. -/
theorem connectTxs_spent (htx : tx ∈ txs) (hout : out ∈ tx.spentInputs.map (·.prevout)) :
    scan.coins.contains out = true ∨ ∃ tx ∈ txs, tx.Creates out := by
  induction txs generalizing scan s with
  | nil => cases htx
  | cons first txs ih =>
    obtain ⟨mid, u, hfirst, hrest⟩ := run_bind_eq_ok.mp h
    obtain ⟨⟨spent, hspends⟩, hmid⟩ := connectTx_coins hfirst
    rcases mem_cons.mp htx with rfl | htx
    · exact .inl (spends_contains hspends hout)
    · rcases ih hrest htx with hcoin | ⟨creator, hin, hcreates⟩
      · rcases (hmid out).mp hcoin with hcreates | ⟨hcoin, -⟩
        · exact .inr ⟨first, mem_cons_self, hcreates⟩
        · exact .inl hcoin
      · exact .inr ⟨creator, mem_cons_of_mem first hin, hcreates⟩

end

/-- The transactions have hashes of their own, which no coin has. -/
structure NewTxids (txs : List CTransaction) (coins : Coins) : Prop where
  nodup : (txs.map (·.hash)).Nodup
  unused : ∀ tx ∈ txs, ∀ n, coins.contains ⟨tx.hash, n⟩ = false

/-- When the first transaction is done, the hashes of the others are still new. -/
theorem NewTxids.connectTx (hnew : NewTxids (tx :: txs) scan.coins)
    (h : connectTx env blockHash nHeight scan tx s = .ok scan' t) : NewTxids txs scan'.coins := by
  have hnodup := hnew.nodup
  rw [map_cons, nodup_cons] at hnodup
  refine ⟨hnodup.2, ?_⟩
  intro later hin n
  rw [Bool.eq_false_iff]
  intro hcoin
  rcases ((connectTx_coins h).2 _).mp hcoin with hcreates | ⟨hcoin, -⟩
  · apply hnodup.1
    have hhash : later.hash = tx.hash := hash_of_creates hcreates
    rw [← hhash]
    exact mem_map_of_mem hin
  · rw [hnew.unused later (mem_cons_of_mem tx hin) n] at hcoin
    cases hcoin

/-- Among transactions with new hashes no two spend the same coin. -/
theorem connectTxs_spend_once
    (h : txs.foldlM (connectTx env blockHash nHeight) scan s = .ok scan' t)
    (hnew : NewTxids txs scan.coins) :
    txs.Pairwise fun tx later =>
      ∀ out ∈ tx.spentInputs.map (·.prevout), out ∉ later.spentInputs.map (·.prevout) := by
  induction txs generalizing scan s with
  | nil => exact .nil
  | cons tx txs ih =>
    obtain ⟨mid, u, hfirst, hrest⟩ := run_bind_eq_ok.mp h
    obtain ⟨⟨spent, hspends⟩, hmid⟩ := connectTx_coins hfirst
    -- a coin that is there has the hash of none of the transactions
    have hforeign : ∀ out, scan.coins.contains out = true → ∀ tx' ∈ tx :: txs,
        ¬tx'.Creates out := by
      intro out hcoin tx' hin hcreates
      have hunused := hnew.unused tx' hin out.n
      rw [← hash_of_creates hcreates] at hunused
      rw [hunused] at hcoin
      cases hcoin
    constructor
    · intro later hlater out hout hout'
      have hcoin := spends_contains hspends hout
      rcases connectTxs_spent hrest hlater hout' with hmid' | ⟨creator, hin, hcreates⟩
      · rcases (hmid out).mp hmid' with hcreates | ⟨-, hkept⟩
        · exact hforeign out hcoin tx mem_cons_self hcreates
        · exact hkept hout
      · exact hforeign out hcoin creator (mem_cons_of_mem tx hin) hcreates
    · exact ih hrest (hnew.connectTx hfirst)

theorem connectTxs_disjoint (h : txs.foldlM (connectTx env blockHash nHeight) scan s = .ok scan' t)
    (hnew : NewTxids txs scan.coins) {tx' : CTransaction} (htx : tx ∈ txs) (htx' : tx' ∈ txs)
    (hne : tx ≠ tx') (hout : out ∈ tx.spentInputs.map (·.prevout)) :
    out ∉ tx'.spentInputs.map (·.prevout) := by
  have hsymm : Std.Symm fun tx later : CTransaction =>
      ∀ out ∈ tx.spentInputs.map (·.prevout), out ∉ later.spentInputs.map (·.prevout) :=
    ⟨fun tx later hdisjoint out hlater htx => hdisjoint out htx hlater⟩
  exact (connectTxs_spend_once h hnew).forall htx htx' hne out hout

end

end HnbCore
