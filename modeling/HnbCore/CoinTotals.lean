import HnbCore.ConnectBlock

/-!
# Totals over the coins

What a transaction does to the coin view, and to the sum of any quantity over the unspent coins.
-/

namespace HnbCore

open Checks AssetState List KeyedSet

variable {coins : Coins} {vin : List CTxIn} {env : Env} {s t : AssetState} {out : COutPoint}

/-- The coins without those the inputs name. -/
def eraseInputs (coins : Coins) (vin : List CTxIn) : Coins :=
  vin.foldl (fun coins txin => coins.erase txin.prevout) coins

/-- The inputs name different coins of the view, in this order. -/
inductive Spends : Coins → List CTxIn → List Coin → Prop
  | nil (coins : Coins) : Spends coins [] []
  | cons {coins : Coins} {txin : CTxIn} {vin : List CTxIn} {coin : Coin} {spent : List Coin}
      (found : coins.accessCoin txin.prevout = some coin)
      (rest : Spends (coins.erase txin.prevout) vin spent) :
      Spends coins (txin :: vin) (coin :: spent)

variable {coin : Coin} {spent : List Coin} {scan scan' : SpendScan} {nHeight : Int}
  {tx : CTransaction} {entry : COutPoint × Coin}

theorem accessCoin_eq_some :
    coins.accessCoin out = some coin ↔ coins.find? out = some (out, coin) := by
  constructor
  · intro h
    obtain ⟨⟨out', coin'⟩, hfind, rfl⟩ := Option.map_eq_some_iff.mp h
    obtain rfl : out' = out := key_of_find? hfind
    exact hfind
  · intro h
    simp [Coins.accessCoin, h]

theorem accessCoin_of_erase {out' : COutPoint}
    (h : Coins.accessCoin (coins.erase out') out = some coin) :
    out' ≠ out ∧ coins.accessCoin out = some coin := by
  rw [accessCoin_eq_some, find?_erase] at h
  split at h
  case isTrue => simp at h
  case isFalse hne => exact ⟨hne, accessCoin_eq_some.mpr h⟩

theorem Spends.access (h : Spends coins vin spent) :
    vin.map (fun txin => coins.accessCoin txin.prevout) = spent.map some := by
  suffices ∀ base : Coins, (∀ out coin, coins.accessCoin out = some coin →
      base.accessCoin out = some coin) →
      vin.map (fun txin => base.accessCoin txin.prevout) = spent.map some from
    this coins fun _ _ h => h
  induction h with
  | nil => intro base _; rfl
  | cons found _ ih =>
    intro base hbase
    rw [map_cons, map_cons, hbase _ _ found,
      ih base fun out coin h => hbase _ _ (accessCoin_of_erase h).2]

theorem Spends.mem (h : Spends coins vin spent)
    (hcoin : coin ∈ spent) : ∃ out, (out, coin) ∈ coins.items := by
  have hsome : some coin ∈ vin.map fun txin => coins.accessCoin txin.prevout :=
    h.access ▸ mem_map_of_mem hcoin
  obtain ⟨txin, -, hfound⟩ := mem_map.mp hsome
  exact ⟨txin.prevout, mem_of_find? (accessCoin_eq_some.mp hfound)⟩

/-- A sum over the spent coins is a sum over the inputs that name them. -/
theorem Spends.sum_eq (h : Spends coins vin spent) (f : Coin → Int) :
    (spent.map f).sum =
      (vin.map fun txin => ((coins.accessCoin txin.prevout).map f).getD 0).sum := by
  calc (spent.map f).sum
      = ((spent.map some).map fun c => (c.map f).getD 0).sum := by rw [map_map]; rfl
    _ = _ := by rw [← h.access, map_map]; rfl

theorem spendCoin_ok {found : Coin × Coins} (h : spendCoin env coins out s = .ok found t) :
    coins.accessCoin out = some found.1 ∧ found.2 = coins.erase out := by
  simp only [spendCoin, run_bind_eq_ok, run_lift_eq_ok, demand_eq_ok, run_pure_eq_ok] at h
  obtain ⟨coin, _, ⟨hcoin, rfl⟩, _, _, _, rfl, rfl⟩ := h
  exact ⟨hcoin, rfl⟩

theorem spendInput_ok {txin : CTxIn} (h : spendInput env scan txin s = .ok scan' t) :
    ∃ coin, scan.coins.accessCoin txin.prevout = some coin ∧
      scan' = ⟨scan.vprevout ++ [coin], scan.coins.erase txin.prevout⟩ := by
  simp only [spendInput, run_bind_eq_ok, run_pure_eq_ok] at h
  obtain ⟨⟨coin, coins⟩, _, hspend, rfl, rfl⟩ := h
  obtain ⟨hcoin, rfl⟩ := spendCoin_ok hspend
  exact ⟨coin, hcoin, rfl⟩

theorem spendInputs_ok (h : vin.foldlM (spendInput env) scan s = .ok scan' t) :
    ∃ spent, Spends scan.coins vin spent ∧ scan'.vprevout = scan.vprevout ++ spent ∧
      scan'.coins = eraseInputs scan.coins vin := by
  induction vin generalizing scan s with
  | nil =>
    obtain ⟨rfl, _⟩ := run_pure_eq_ok.mp h
    exact ⟨[], .nil _, by simp, rfl⟩
  | cons txin vin ih =>
    obtain ⟨mid, u, hround, hrest⟩ := run_bind_eq_ok.mp h
    obtain ⟨coin, hcoin, rfl⟩ := spendInput_ok hround
    obtain ⟨spent, hspends, hprev, hcoins⟩ := ih hrest
    exact ⟨coin :: spent, .cons hcoin hspends, by simp [hprev], hcoins⟩

/-- What `UpdateCoins` does to the coins: nothing is spent by a coinbase. -/
theorem updateCoins_ok {blockHash : UInt256}
    {result : CTxUndo × Coins} (h : updateCoins env tx coins nHeight blockHash s = .ok result t) :
    let inputs := if tx.isCoinBase then [] else tx.vin
    Spends coins inputs result.1.vprevout ∧
      result.2 = addOutputCoins (eraseInputs coins inputs) tx nHeight := by
  simp only [updateCoins, spendInputs, run_bind_eq_ok, run_pure_eq_ok] at h
  obtain ⟨scan, _, hscan, undo, _, _, rfl, rfl⟩ := h
  cases hcb : tx.isCoinBase with
  | true =>
    rw [if_pos hcb, run_pure_eq_ok] at hscan
    obtain ⟨rfl, _⟩ := hscan
    exact ⟨.nil _, rfl⟩
  | false =>
    rw [if_neg (by simp [hcb])] at hscan
    obtain ⟨spent, hspends, hprev, hcoins⟩ := spendInputs_ok hscan
    refine ⟨?_, by simp [hcoins]⟩
    simpa [hprev] using hspends

/-- The sum of a quantity over the unspent coins. -/
def totalOf (f : Coin → Int) (coins : Coins) : Int := coins.sumBy fun entry => f entry.2

theorem totalOf_eraseInputs (f : Coin → Int) (h : Spends coins vin spent) :
    totalOf f (eraseInputs coins vin) = totalOf f coins - (spent.map f).sum := by
  induction h with
  | nil => simp [eraseInputs]
  | @cons coins txin vin coin spent found _ ih =>
    have herase := sumBy_erase (accessCoin_eq_some.mp found)
      fun entry : COutPoint × Coin => f entry.2
    simp only [totalOf, eraseInputs, foldl_cons, map_cons, sum_cons] at ih herase ⊢
    omega

/-- The coin an output makes, if it makes one. -/
def spendableOutputs (tx : CTransaction) (nHeight : Int) : List (COutPoint × Coin) :=
  (tx.outputs.filter fun entry => !isUnspendable entry.2.scriptPubKey).map
    fun entry => (entry.1, ⟨entry.2, tx.isCoinBase, nHeight⟩)

theorem mem_spendableOutputs (h : entry ∈ spendableOutputs tx nHeight) :
    entry.1.hash = tx.hash ∧ entry.2.out ∈ tx.vout := by
  obtain ⟨e, he, rfl⟩ := mem_map.mp h
  obtain ⟨⟨out, i⟩, hzip, rfl⟩ := mem_map.mp (mem_of_mem_filter he)
  exact ⟨rfl, (mem_zipIdx' hzip).2 ▸ getElem_mem _⟩

theorem spendableOutputs_nodup (tx : CTransaction) (nHeight : Int) :
    ((spendableOutputs tx nHeight).map Prod.fst).Nodup := by
  have houts : (tx.outputs.map Prod.fst).Nodup := by
    have hindex : tx.outputs.map Prod.fst =
        (List.range tx.vout.length).map fun i => (⟨tx.hash, i⟩ : COutPoint) := by
      rw [CTransaction.outputs, map_map, range_eq_range', ← zipIdx_map_snd 0 tx.vout,
        map_map]
      rfl
    rw [hindex]
    exact nodup_range.map fun i j h => by simpa using h
  rw [spendableOutputs, map_map]
  exact houts.sublist (filter_sublist.map _)

theorem addOutputCoins_eq (coins : Coins) (tx : CTransaction) (nHeight : Int) :
    addOutputCoins coins tx nHeight = (spendableOutputs tx nHeight).foldl assign coins := by
  unfold addOutputCoins spendableOutputs
  induction tx.outputs generalizing coins with
  | nil => rfl
  | cons entry l ih =>
    obtain ⟨out, txOut⟩ := entry
    rw [foldl_cons, ih, filter_cons]
    cases hspend : isUnspendable txOut.scriptPubKey <;> simp [Coins.addCoin, hspend]

/-- New coins, some of them in the place of old ones, add at most their own quantity. -/
theorem totalOf_foldl_assign_le (f : Coin → Int) (l : List (COutPoint × Coin)) (coins : Coins)
    (hcoins : ∀ entry ∈ coins.items, 0 ≤ f entry.2) (hl : ∀ entry ∈ l, 0 ≤ f entry.2) :
    totalOf f (l.foldl assign coins) ≤ totalOf f coins + (l.map fun e => f e.2).sum ∧
      ∀ entry ∈ (l.foldl assign coins).items, 0 ≤ f entry.2 := by
  induction l generalizing coins with
  | nil => exact ⟨by simp, hcoins⟩
  | cons entry l ih =>
    have hentry : 0 ≤ f entry.2 := hl entry mem_cons_self
    have hnonneg : ∀ e ∈ (coins.assign entry).items, 0 ≤ f e.2 := by
      intro e he
      rcases mem_assign he with rfl | hold
      · exact hentry
      · exact hcoins e hold
    have hstep : totalOf f (coins.assign entry) ≤ totalOf f coins + f entry.2 := by
      unfold totalOf
      cases hfind : coins.find? entry.1 with
      | some old =>
        have hold := hcoins old (mem_of_find? hfind)
        have hassign := sumBy_assign_of_find? hfind
          fun e : COutPoint × Coin => f e.2
        omega
      | none =>
        have hnot : coins.contains entry.1 = false := by
          simp [contains_eq_isSome, hfind]
        exact (sumBy_assign_of_not_contains hnot _).le
    obtain ⟨hle, hall⟩ := ih (coins.assign entry) hnonneg
      fun e he => hl e (mem_cons_of_mem _ he)
    refine ⟨?_, hall⟩
    simp only [foldl_cons, map_cons, sum_cons]
    omega

/-- New coins at new and different outpoints add exactly their own quantity. -/
theorem totalOf_foldl_assign (f : Coin → Int) (l : List (COutPoint × Coin)) (coins : Coins)
    (hnodup : (l.map Prod.fst).Nodup) (hfresh : ∀ entry ∈ l, coins.contains entry.1 = false) :
    totalOf f (l.foldl assign coins) = totalOf f coins + (l.map fun e => f e.2).sum := by
  induction l generalizing coins with
  | nil => simp
  | cons entry l ih =>
    rw [map_cons, nodup_cons] at hnodup
    have hnew := hfresh entry mem_cons_self
    rw [foldl_cons, ih (coins.assign entry) hnodup.2 ?_, totalOf,
      sumBy_assign_of_not_contains hnew]
    · simp only [totalOf, map_cons, sum_cons]
      omega
    · intro e he
      have hne : entry.1 ≠ e.1 := fun heq => hnodup.1 (heq ▸ mem_map_of_mem he)
      rw [contains_assign, hfresh e (mem_cons_of_mem _ he)]
      simp [hne]

theorem mem_eraseInputs (h : entry ∈ (eraseInputs coins vin).items) :
    entry ∈ coins.items := by
  induction vin generalizing coins with
  | nil => exact h
  | cons txin vin ih => exact mem_of_mem_filter (ih h)

end HnbCore
