import HnbCore.SpendCoin
import HnbCore.Lib.SubsetSearch

/-!
# Choosing coins

`SelectAssets` of the wallet: for each asset of which there are coins and that has a target, attempts
with weaker and weaker demands on the coins are made until one finds coins for the target. An
attempt is `SelectAssetsMinConf`, which ends in a randomised search for a subset, as
`SelectCoinsMinConf` does.
-/

namespace HnbCore

open SubsetSearch List Option Prod KeyedSet

variable {env : Env} {vCoins : List COutput}

/-- `CInputCoin`; two are told apart by their outpoints. -/
structure CInputCoin where
  outpoint : COutPoint
  txout : CTxOut
  deriving DecidableEq, Repr

abbrev InputCoinSet := KeyedSet CInputCoin.outpoint

/-- A `COutput` of the wallet: the coin, its depth, whether it can be spent, and whether its
transaction is from the wallet itself. -/
structure COutput where
  coin : CInputCoin
  nDepth : Int
  fSpendable : Bool
  fFromMe : Bool
  deriving DecidableEq, Repr

/-- The random choices of one attempt: the order of the coins, and the bits of the two searches. -/
structure SelectionChoices where
  shuffle : List COutput → List COutput
  shuffle_perm : ∀ vCoins, (shuffle vCoins).Perm vCoins
  bits : Nat → Nat → Bool
  changeBits : Nat → Nat → Bool

structure SelectionContext where
  env : Env
  /-- `TransactionWithinChainLimit` of the pool. -/
  withinChainLimit : UInt256 → Nat → Bool
  bSpendZeroConfChange : Bool
  nMaxChainLength : Nat
  fRejectLongChains : Bool
  /-- The choices of each attempt for each asset. -/
  choices : Bytes → Nat → SelectionChoices

/-- What an attempt demands of the coins. -/
structure MinConf where
  nConfMine : Int
  nConfTheirs : Int
  nMaxAncestors : Nat

def minChange : CAmount := 1000000

/-- `nTargetValue + MIN_CHANGE`, a 64-bit sum. -/
def withChange (nTargetValue : CAmount) : CAmount := int64 (nTargetValue + minChange)

theorem le_of_add_minChange_le {a b : CAmount} (h : a + minChange ≤ b) : a ≤ b :=
  (le_add_of_nonneg_right (by decide)).trans h

/-! ## One attempt -/

/-- The amount of an asset output. -/
def assetAmount (env : Env) (txout : CTxOut) : Option CAmount :=
  (spentAsset env txout).map fun asset => asset.2.2

variable (ctx : SelectionContext) (conf : MinConf)

/-- The attempt may use the coin. -/
def COutput.isUsable (output : COutput) : Bool :=
  output.fSpendable &&
    !(output.nDepth < if output.fFromMe then conf.nConfMine else conf.nConfTheirs) &&
    ctx.withinChainLimit output.coin.outpoint.hash conf.nMaxAncestors

def usableAmount (output : COutput) : Option CAmount :=
  if output.isUsable ctx conf then assetAmount ctx.env output.coin.txout else none

def usableValue (output : COutput) : Option CAmount :=
  if output.isUsable ctx conf then some output.coin.txout.nValue else none

/-- The coins below the target and its change, their total, and the smallest of the others. -/
structure CoinScan where
  coinLowestLarger : Option (CInputCoin × CAmount) := none
  vValue : List (CInputCoin × CAmount) := []
  nTotalLower : CAmount := 0

/-- The loop over the coins; a coin of exactly the target ends it. -/
def scanCoins (amount : COutput → Option CAmount) (nTargetValue : CAmount) :
    List COutput → CoinScan → (CInputCoin × CAmount) ⊕ CoinScan
  | [], scan => .inr scan
  | output :: vCoins, scan =>
      match amount output with
      | none => scanCoins amount nTargetValue vCoins scan
      | some nTempAmount =>
          let pair := (output.coin, nTempAmount)
          if nTempAmount = nTargetValue then .inl pair
          else if nTempAmount < withChange nTargetValue then
            scanCoins amount nTargetValue vCoins
              { scan with
                vValue := scan.vValue ++ [pair]
                nTotalLower := int64 (scan.nTotalLower + nTempAmount) }
          else if scan.coinLowestLarger.all fun larger => nTempAmount < larger.2 then
            scanCoins amount nTargetValue vCoins { scan with coinLowestLarger := some pair }
          else scanCoins amount nTargetValue vCoins scan

/-- `ApproximateBestSubset` is the same on the values of coins. -/
def approximateBestAssetSubset (vValue : List (CInputCoin × CAmount))
    (nTotalLower nTargetValue : CAmount) (bits : Nat → Nat → Bool) : Search :=
  Search.repeated int64 nTargetValue bits (vValue.map snd) 1000 0 (.start nTotalLower)

/-- The coins to use, and their amount. -/
def pickCoins (pairs : List (CInputCoin × CAmount)) : InputCoinSet × CAmount :=
  ((pairs.map fst).foldl insert .empty, wrappedSum int64 (pairs.map snd))

/-- The search for the target, and the one that leaves room for change. -/
def searchSubset (choices : SelectionChoices) (nTargetValue nTotalLower : CAmount)
    (vValue : List (CInputCoin × CAmount)) : Search :=
  let search := approximateBestAssetSubset vValue nTotalLower nTargetValue choices.bits
  if search.bestTotal ≠ nTargetValue && nTotalLower ≥ withChange nTargetValue then
    approximateBestAssetSubset vValue nTotalLower (withChange nTargetValue) choices.changeBits
  else search

/-- The coins below the target make it together; one larger coin may still be the better choice. -/
def selectSubset (choices : SelectionChoices) (nTargetValue : CAmount) (scan : CoinScan) :
    InputCoinSet × CAmount :=
  let vValue := scan.vValue.mergeSort fun a b => b.2 ≤ a.2
  let search := searchSubset choices nTargetValue scan.nTotalLower vValue
  let nBest := search.bestTotal
  match scan.coinLowestLarger with
  | some larger =>
      if (nBest ≠ nTargetValue && nBest < withChange nTargetValue) || larger.2 ≤ nBest then
        pickCoins [larger]
      else pickCoins (chosen vValue search.best)
  | none => pickCoins (chosen vValue search.best)

/-- An attempt, by the amounts of the coins it may use. -/
def selectMinConf (amount : COutput → Option CAmount) (choices : SelectionChoices)
    (nTargetValue : CAmount) (vCoins : List COutput) : Option (InputCoinSet × CAmount) :=
  match scanCoins amount nTargetValue (choices.shuffle vCoins) {} with
  | .inl pair => some (pickCoins [pair])
  | .inr scan =>
      if scan.nTotalLower = nTargetValue then some (pickCoins scan.vValue)
      else if scan.nTotalLower < nTargetValue then
        scan.coinLowestLarger.map fun larger => pickCoins [larger]
      else some (selectSubset choices nTargetValue scan)

def selectCoinsMinConf (choices : SelectionChoices)
    (nTargetValue : CAmount) (vCoins : List COutput) : Option (InputCoinSet × CAmount) :=
  selectMinConf (usableValue ctx conf) choices nTargetValue vCoins

def selectAssetsMinConf (choices : SelectionChoices)
    (nTargetValue : CAmount) (vCoins : List COutput) : Option (InputCoinSet × CAmount) :=
  selectMinConf (usableAmount ctx conf) choices nTargetValue vCoins

/-! ## All assets -/

/-- The attempts in their order. -/
def selectionAttempts : List MinConf :=
  [⟨1, 6, 0⟩, ⟨1, 1, 0⟩] ++
  if ctx.bSpendZeroConfChange then
    [⟨0, 1, 2⟩, ⟨0, 1, min 4 (ctx.nMaxChainLength / 3)⟩, ⟨0, 1, ctx.nMaxChainLength / 2⟩,
      ⟨0, 1, ctx.nMaxChainLength⟩] ++
    if ctx.fRejectLongChains then [] else [⟨0, 1, 2 ^ 64 - 1⟩]
  else []

/-- The coins of one asset. -/
def selectAsset (name : Bytes) (nTargetValue : CAmount)
    (vCoins : List COutput) : Option (InputCoinSet × CAmount) :=
  (selectionAttempts ctx).zipIdx.findSome? fun (conf, attempt) =>
    selectAssetsMinConf ctx conf (ctx.choices name attempt) nTargetValue vCoins

/-- The coins chosen so far and the amount of each asset. -/
structure Selection where
  setCoinsRet : InputCoinSet := .empty
  mapValueRet : KeyedMap Bytes CAmount := .empty

/-- One round of the loop over the available assets. -/
def selectRound (targets : KeyedMap Bytes CAmount) (ret : Selection)
    (item : Bytes × List COutput) : Option Selection :=
  match targets.find? item.1 with
  | none => some ret
  | some (_, nTargetValue) =>
      if nTargetValue ≤ 0 then some ret
      else (selectAsset ctx item.1 nTargetValue item.2).map fun (coins, amount) =>
        { setCoinsRet := coins.items.foldl insert ret.setCoinsRet
          mapValueRet := ret.mapValueRet.assign (item.1, amount) }

/-- The coins of the wallet by asset: under a name stand coins of that asset, and no coin stands
there twice. -/
structure AvailableAssets (env : Env) where
  coins : KeyedMap Bytes (List COutput)
  named : ∀ item ∈ coins.items, ∀ output ∈ item.2, ∀ asset,
    spentAsset env output.coin.txout = some asset → asset.1 = item.1
  distinct : (coins.items.flatMap fun item => item.2.map (·.coin.outpoint)).Nodup

def selectAssets (available : AvailableAssets ctx.env)
    (targets : KeyedMap Bytes CAmount) : Option Selection :=
  if !ctx.env.deployments.areAssetsDeployed then none
  else available.coins.items.foldlM (selectRound ctx targets) {}

/-! ## What an attempt finds -/

/-- The coins that an attempt may use, with their amounts. -/
def eligible (amount : COutput → Option CAmount) (vCoins : List COutput) :
    List (CInputCoin × CAmount) :=
  vCoins.filterMap fun output => (amount output).map (output.coin, ·)

/-- Coins of the list, each at most once, with their exact total. It reaches the target, exceeds no
coin that covers target and change, and leaves less than the change only where more is not there. -/
structure Picks (nTargetValue : CAmount) (pairs : List (CInputCoin × CAmount))
    (found : InputCoinSet × CAmount) : Prop where
  picked : ∃ picked : List (CInputCoin × CAmount), picked.Subperm pairs ∧
    found.1.items = (picked.map fst).reverse ∧ found.2 = (picked.map snd).sum
  reaches : nTargetValue ≤ found.2
  tight : ∀ pair ∈ pairs, nTargetValue + minChange ≤ pair.2 → found.2 ≤ pair.2
  change : nTargetValue < found.2 → found.2 < nTargetValue + minChange →
    (∀ pair ∈ pairs, pair.2 < nTargetValue + minChange) ∧
      (pairs.map snd).sum < nTargetValue + minChange

/-- What an attempt returns. With no negative amount it succeeds where the coins reach the target. -/
structure Attempted (nTargetValue : CAmount) (pairs : List (CInputCoin × CAmount))
    (result : Option (InputCoinSet × CAmount)) : Prop where
  succeeds_iff : (∀ pair ∈ pairs, 0 ≤ pair.2) →
    (result.isSome = true ↔ nTargetValue ≤ (pairs.map snd).sum)
  picks : ∀ found, result = some found → Picks nTargetValue pairs found

/-- No sum of the selection leaves the range of 64 bits. -/
structure Fits (nTargetValue : CAmount) (amounts : List CAmount) : Prop where
  target : |nTargetValue + minChange| < 2 ^ 63
  total : (amounts.map (|·|)).sum < 2 ^ 63

theorem int64_wraps : Wraps int64 := ⟨rfl, fun _ _ => Int.bmod_add_bmod⟩

theorem int64_of_abs_lt {x : Int} (h : |x| < 2 ^ 63) : int64 x = x := by
  rw [abs_lt] at h
  rw [int64, Int.bmod_def]
  omega

section Attempt

variable {amount : COutput → Option CAmount} {nTargetValue nTotalLower : CAmount} {scan : CoinScan}
  {pair : CInputCoin × CAmount} {pairs picked vValue : List (CInputCoin × CAmount)}

theorem Fits.withChange_eq {amounts : List CAmount} (h : Fits nTargetValue amounts) :
    withChange nTargetValue = nTargetValue + minChange :=
  int64_of_abs_lt h.target

theorem Fits.subperm {amounts amounts' : List CAmount} (h : Fits nTargetValue amounts)
    (hsub : amounts'.Subperm amounts) : Fits nTargetValue amounts' := by
  refine ⟨h.target, lt_of_le_of_lt ?_ h.total⟩
  obtain ⟨l, hperm, hsub⟩ := hsub
  rw [← (hperm.map _).sum_eq]
  exact (hsub.map _).sum_le_sum (by simp)

theorem Fits.int64_sum {amounts : List CAmount} (h : Fits nTargetValue amounts) :
    int64 amounts.sum = amounts.sum :=
  int64_of_abs_lt (lt_of_le_of_lt (abs_sum_le amounts) h.total)

/-- What the loop over the coins has made of the first ones. -/
structure CoinsScanned (nTargetValue : CAmount) (pairs : List (CInputCoin × CAmount))
    (scan : CoinScan) : Prop where
  lower : scan.vValue = pairs.filter fun pair => pair.2 < nTargetValue + minChange
  total : scan.nTotalLower = int64 (scan.vValue.map snd).sum
  larger : ∀ pair ∈ scan.coinLowestLarger, pair ∈ pairs ∧ nTargetValue + minChange ≤ pair.2
  lowest : ∀ pair ∈ pairs, nTargetValue + minChange ≤ pair.2 →
    ∃ larger ∈ scan.coinLowestLarger, larger.2 ≤ pair.2

/-- What the loop over the coins ends with. -/
def ScanFound (nTargetValue : CAmount) (pairs : List (CInputCoin × CAmount)) :
    (CInputCoin × CAmount) ⊕ CoinScan → Prop
  | .inl pair => pair ∈ pairs ∧ pair.2 = nTargetValue
  | .inr scan => CoinsScanned nTargetValue pairs scan

theorem CoinsScanned.addLower (h : CoinsScanned nTargetValue pairs scan)
    (hsmall : pair.2 < nTargetValue + minChange) :
    CoinsScanned nTargetValue (pairs ++ [pair]) { scan with
      vValue := scan.vValue ++ [pair]
      nTotalLower := int64 (scan.nTotalLower + pair.2) } where
  lower := by simp [h.lower, hsmall]
  total := by simp [h.total, int64_wraps.add]
  larger pair' hpair' := ⟨mem_append_left _ (h.larger pair' hpair').1, (h.larger pair' hpair').2⟩
  lowest pair' hpair' hle := by
    rcases mem_append.mp hpair' with hold | hnew
    · exact h.lowest pair' hold hle
    · rw [mem_singleton.mp hnew] at hle
      exact absurd hsmall (not_lt.mpr hle)

/-- One more coin that covers target and change; the scan keeps the lower one. -/
theorem CoinsScanned.addLarger (h : CoinsScanned nTargetValue pairs scan)
    (hlarge : nTargetValue + minChange ≤ pair.2) {coinLowestLarger : Option (CInputCoin × CAmount)}
    (hfrom : ∀ larger ∈ coinLowestLarger, larger = pair ∨ larger ∈ scan.coinLowestLarger)
    (hbest : ∀ larger, larger = pair ∨ larger ∈ scan.coinLowestLarger →
      ∃ lowest ∈ coinLowestLarger, lowest.2 ≤ larger.2) :
    CoinsScanned nTargetValue (pairs ++ [pair]) { scan with coinLowestLarger } where
  lower := by simp [h.lower, not_lt.mpr hlarge]
  total := h.total
  larger larger hlarger := by
    rcases hfrom larger hlarger with rfl | hold
    · exact ⟨by simp, hlarge⟩
    · exact ⟨mem_append_left _ (h.larger larger hold).1, (h.larger larger hold).2⟩
  lowest pair' hpair' hle := by
    rcases mem_append.mp hpair' with hold | hnew
    · obtain ⟨larger, hlarger, hlow⟩ := h.lowest pair' hold hle
      obtain ⟨lowest, hmem, hlowest⟩ := hbest larger (.inr hlarger)
      exact ⟨lowest, hmem, hlowest.trans hlow⟩
    · exact hbest pair' (.inl (mem_singleton.mp hnew))

theorem scanCoins_spec (amount : COutput → Option CAmount) (vCoins : List COutput)
    (hchange : withChange nTargetValue = nTargetValue + minChange)
    (h : CoinsScanned nTargetValue pairs scan) :
    ScanFound nTargetValue (pairs ++ eligible amount vCoins)
      (scanCoins amount nTargetValue vCoins scan) := by
  induction vCoins generalizing pairs scan with
  | nil =>
    rw [eligible, filterMap_nil, append_nil]
    exact h
  | cons output vCoins ih =>
    rw [scanCoins]
    cases hread : amount output with
    | none =>
      have hrest : eligible amount (output :: vCoins) = eligible amount vCoins := by
        simp [eligible, hread]
      rw [hrest]
      exact ih h
    | some nAmount =>
      have hrest : pairs ++ eligible amount (output :: vCoins) =
          pairs ++ [(output.coin, nAmount)] ++ eligible amount vCoins := by
        simp [eligible, hread]
      rw [hrest]
      simp only [hchange]
      split_ifs with hexact hsmall hlowest
      · exact ⟨by simp, hexact⟩
      · exact ih (h.addLower hsmall)
      · refine ih (h.addLarger (not_lt.mp hsmall) (fun _ hl => .inl (some.inj hl).symm) ?_)
        rintro larger (rfl | hold)
        · exact ⟨_, rfl, le_rfl⟩
        · rw [hold] at hlowest
          exact ⟨_, rfl, (of_decide_eq_true hlowest).le⟩
      · refine ih (h.addLarger (not_lt.mp hsmall) (fun _ hl => .inr hl) ?_)
        rintro larger (rfl | hold)
        · cases hnone : scan.coinLowestLarger with
          | none => simp [hnone] at hlowest
          | some lowest => exact ⟨lowest, rfl, by simpa [hnone] using hlowest⟩
        · exact ⟨larger, hold, le_rfl⟩

theorem pickCoins_items (hnodup : (pairs.map fun pair => pair.1.outpoint).Nodup)
    (hsub : picked.Subperm pairs) :
    (pickCoins picked).1.items = (picked.map fst).reverse := by
  have hkeys : ((picked.map fst).map CInputCoin.outpoint).Nodup := by
    rw [List.map_map]
    obtain ⟨l, hperm, hl⟩ := hsub
    exact (hperm.map _).nodup_iff.mp (hnodup.sublist (hl.map _))
  rw [pickCoins, items_foldl_insert hkeys fun _ _ => rfl]
  exact append_nil _

theorem Fits.pickCoins_value (hfits : Fits nTargetValue (pairs.map snd))
    (hsub : picked.Subperm pairs) : (pickCoins picked).2 = (picked.map snd).sum := by
  obtain ⟨l, hperm, hsub⟩ := hsub
  rw [pickCoins, int64_wraps.wrappedSum_eq]
  exact (hfits.subperm ⟨l.map snd, hperm.map snd, hsub.map snd⟩).int64_sum

theorem picks_exact (hfits : Fits nTargetValue (pairs.map snd))
    (hnodup : (pairs.map fun pair => pair.1.outpoint).Nodup)
    (hsub : picked.Subperm pairs) (hexact : (picked.map snd).sum = nTargetValue) :
    Picks nTargetValue pairs (pickCoins picked) := by
  have hvalue := hfits.pickCoins_value hsub
  refine ⟨⟨_, hsub, pickCoins_items hnodup hsub, hvalue⟩, ?_, ?_, ?_⟩ <;> rw [hvalue, hexact]
  · exact fun _ _ hle => le_of_add_minChange_le hle
  · exact fun hlt => absurd hlt (lt_irrefl _)

theorem approximateBestAssetSubset_sound (htotal : nTotalLower = int64 (vValue.map snd).sum)
    (hreaches : nTargetValue ≤ nTotalLower) (bits : Nat → Nat → Bool) :
    Search.Sound int64 nTargetValue (vValue.map snd)
      (approximateBestAssetSubset vValue nTotalLower nTargetValue bits) := by
  unfold approximateBestAssetSubset
  subst htotal
  exact (Search.sound_start int64_wraps hreaches).repeated int64_wraps bits 1000 0

/-- Both searches end with a subset that reaches the target; where there is enough for change, it is
met exactly or leaves the change. -/
theorem searchSubset_sound (hchange : withChange nTargetValue = nTargetValue + minChange)
    (htotal : nTotalLower = int64 (vValue.map snd).sum)
    (hreaches : nTargetValue ≤ nTotalLower) (choices : SelectionChoices) :
    Search.Sound int64 nTargetValue (vValue.map snd)
        (searchSubset choices nTargetValue nTotalLower vValue) ∧
      ((searchSubset choices nTargetValue nTotalLower vValue).bestTotal < nTargetValue + minChange →
        (searchSubset choices nTargetValue nTotalLower vValue).bestTotal ≠ nTargetValue →
        nTotalLower < nTargetValue + minChange) := by
  unfold searchSubset
  simp only [hchange]
  split
  · rename_i hroom
    have hmore : nTargetValue + minChange ≤ nTotalLower := by
      simpa using (Bool.and_eq_true_iff.mp hroom).2
    obtain ⟨htotals, hbest, hreach⟩ :=
      approximateBestAssetSubset_sound htotal hmore choices.changeBits
    exact ⟨⟨htotals, hbest, le_of_add_minChange_le hreach⟩, fun hlt => absurd hreach (not_le.mpr hlt)⟩
  · rename_i hroom
    refine ⟨approximateBestAssetSubset_sound htotal hreaches choices.bits, fun _ hne => ?_⟩
    simpa [hne] using hroom

section

variable (h : CoinsScanned nTargetValue pairs scan)
include h

theorem CoinsScanned.sublist : scan.vValue.Sublist pairs := h.lower ▸ filter_sublist

theorem CoinsScanned.sum_lower (hfits : Fits nTargetValue (pairs.map snd)) :
    scan.nTotalLower = (scan.vValue.map snd).sum := by
  rw [h.total]
  exact (hfits.subperm (h.sublist.map snd).subperm).int64_sum

theorem CoinsScanned.sum_eq (hfits : Fits nTargetValue (pairs.map snd))
    (hnone : ∀ pair ∈ pairs, pair.2 < nTargetValue + minChange) :
    (pairs.map snd).sum = scan.nTotalLower := by
  rw [h.sum_lower hfits, h.lower, filter_eq_self.mpr (by simpa using hnone)]

theorem CoinsScanned.none_larger (hlarger : scan.coinLowestLarger = none) :
    ∀ pair ∈ pairs, pair.2 < nTargetValue + minChange := by
  intro pair hpair
  by_contra hle
  obtain ⟨larger, hmem, -⟩ := h.lowest pair hpair (not_lt.mp hle)
  rw [hlarger] at hmem
  cases hmem

theorem CoinsScanned.picks_larger (hfits : Fits nTargetValue (pairs.map snd))
    (hnodup : (pairs.map fun pair => pair.1.outpoint).Nodup) (hpair : pair ∈ scan.coinLowestLarger) :
    Picks nTargetValue pairs (pickCoins [pair]) := by
  obtain ⟨hin, hle⟩ := h.larger pair hpair
  have hsub : [pair].Subperm pairs := singleton_subperm_iff.mpr hin
  have hvalue : (pickCoins [pair]).2 = pair.2 :=
    (hfits.pickCoins_value hsub).trans sum_singleton
  refine ⟨⟨_, hsub, pickCoins_items hnodup hsub, hfits.pickCoins_value hsub⟩, ?_, ?_, ?_⟩ <;>
    rw [hvalue]
  · exact le_of_add_minChange_le hle
  · intro pair' hpair' hle'
    obtain ⟨larger, hmem, hlow⟩ := h.lowest pair' hpair' hle'
    cases mem_unique hmem hpair
    exact hlow
  · exact fun _ hless => absurd hless (not_lt.mpr hle)

theorem selectSubset_picks (hfits : Fits nTargetValue (pairs.map snd))
    (hnodup : (pairs.map fun pair => pair.1.outpoint).Nodup)
    (hmore : nTargetValue ≤ scan.nTotalLower) (choices : SelectionChoices) :
    Picks nTargetValue pairs (selectSubset choices nTargetValue scan) := by
  unfold selectSubset
  simp only [hfits.withChange_eq]
  have hperm : (scan.vValue.mergeSort fun a b => b.2 ≤ a.2).Perm scan.vValue :=
    mergeSort_perm _ _
  generalize scan.vValue.mergeSort (fun a b => b.2 ≤ a.2) = vValue at hperm ⊢
  have htotal : scan.nTotalLower = int64 (vValue.map snd).sum := by
    rw [h.total, (hperm.map snd).sum_eq]
  obtain ⟨hsound, hchange⟩ := searchSubset_sound hfits.withChange_eq htotal hmore choices
  generalize searchSubset choices nTargetValue scan.nTotalLower vValue = search at hsound hchange ⊢
  have hsub : (chosen vValue search.best).Subperm pairs :=
    (chosen_sublist vValue search.best).subperm.trans (hperm.subperm.trans h.sublist.subperm)
  have hvalue : (pickCoins (chosen vValue search.best)).2 = search.bestTotal := by
    rw [pickCoins, int64_wraps.wrappedSum_eq, sum_chosen, hsound.best_eq]
  -- the subset is taken where no larger coin is closer
  have hsubset : (∀ larger ∈ scan.coinLowestLarger, search.bestTotal < larger.2 ∧
      (search.bestTotal < nTargetValue + minChange → search.bestTotal = nTargetValue)) →
      Picks nTargetValue pairs (pickCoins (chosen vValue search.best)) := by
    intro hcloser
    refine ⟨⟨_, hsub, pickCoins_items hnodup hsub, hfits.pickCoins_value hsub⟩, ?_, ?_, ?_⟩ <;>
      rw [hvalue]
    · exact hsound.reaches
    · intro pair hpair hle
      obtain ⟨larger, hmem, hlow⟩ := h.lowest pair hpair hle
      exact (hcloser larger hmem).1.le.trans hlow
    · intro hlt hless
      have hnone : ∀ pair ∈ pairs, pair.2 < nTargetValue + minChange := by
        apply h.none_larger
        by_contra hsome
        obtain ⟨larger, hlarger⟩ := ne_none_iff_exists'.mp hsome
        exact hlt.ne' ((hcloser larger hlarger).2 hless)
      rw [h.sum_eq hfits hnone]
      exact ⟨hnone, hchange hless hlt.ne'⟩
  cases hlarger : scan.coinLowestLarger with
  | none => exact hsubset (by simp [hlarger])
  | some larger =>
    simp only
    split
    · exact h.picks_larger hfits hnodup hlarger
    · rename_i hcloser
      simp only [ne_eq, Bool.or_eq_true, Bool.and_eq_true, decide_eq_true_eq, not_or, not_and,
        not_le] at hcloser
      refine hsubset fun larger' hmem => ?_
      cases mem_unique hmem hlarger
      exact ⟨hcloser.2, fun hless => by_contra fun hne => hcloser.1 hne hless⟩

end

theorem eligible_sublist (amount : COutput → Option CAmount) (vCoins : List COutput) :
    ((eligible amount vCoins).map fst).Sublist (vCoins.map COutput.coin) := by
  induction vCoins with
  | nil => exact .slnil
  | cons output vCoins ih =>
    cases hread : amount output with
    | none => simpa [eligible, hread] using ih.cons output.coin
    | some nAmount => simpa [eligible, hread] using ih

theorem Attempted.of_perm {pairs' : List (CInputCoin × CAmount)}
    {result : Option (InputCoinSet × CAmount)} (h : Attempted nTargetValue pairs result)
    (hperm : pairs.Perm pairs') : Attempted nTargetValue pairs' result := by
  have hsum := (hperm.map snd).sum_eq
  refine ⟨fun hnonneg => ?_, fun found hfound => ?_⟩
  · rw [← hsum]
    exact h.succeeds_iff fun pair hpair => hnonneg pair (hperm.subset hpair)
  · obtain ⟨⟨picked, hsub, hrest⟩, hreaches, htight, hchange⟩ := h.picks found hfound
    rw [hsum] at hchange
    refine ⟨⟨picked, hsub.trans hperm.subperm, hrest⟩, hreaches, ?_, fun hlt hless => ?_⟩
    · exact fun pair hpair => htight pair (hperm.symm.subset hpair)
    · obtain ⟨hnone, hless⟩ := hchange hlt hless
      exact ⟨fun pair hpair => hnone pair (hperm.symm.subset hpair), hless⟩

theorem selectMinConf_attempted (amount : COutput → Option CAmount) (choices : SelectionChoices)
    (nTargetValue : CAmount) (hfits : Fits nTargetValue ((eligible amount vCoins).map snd))
    (hnodup : ((eligible amount vCoins).map fun pair => pair.1.outpoint).Nodup) :
    Attempted nTargetValue (eligible amount vCoins)
      (selectMinConf amount choices nTargetValue vCoins) := by
  have hperm : (eligible amount (choices.shuffle vCoins)).Perm (eligible amount vCoins) :=
    (choices.shuffle_perm vCoins).filterMap _
  replace hfits := hfits.subperm (hperm.map snd).subperm
  have hkeys := (hperm.map fun pair => pair.1.outpoint).nodup_iff.mpr hnodup
  apply Attempted.of_perm _ hperm
  have hstart : CoinsScanned nTargetValue [] {} := ⟨rfl, rfl, by simp, by simp⟩
  have hscan := scanCoins_spec amount (choices.shuffle vCoins) hfits.withChange_eq hstart
  rw [nil_append] at hscan
  unfold selectMinConf
  clear hperm hnodup
  generalize eligible amount (choices.shuffle vCoins) = pairs at hfits hkeys hscan ⊢
  have hmember : ∀ pair ∈ pairs, nTargetValue ≤ pair.2 → (∀ pair ∈ pairs, 0 ≤ pair.2) →
      nTargetValue ≤ (pairs.map snd).sum := fun pair hin hle hnonneg =>
    hle.trans (single_le_sum (forall_mem_map.mpr hnonneg) _ (mem_map_of_mem hin))
  cases hresult : scanCoins amount nTargetValue (choices.shuffle vCoins) {} with
  | inl pair =>
    rw [hresult] at hscan
    obtain ⟨hin, hexact⟩ := hscan
    refine ⟨fun hnonneg => iff_of_true rfl (hmember pair hin hexact.ge hnonneg), ?_⟩
    rintro found ⟨⟩
    exact picks_exact hfits hkeys (singleton_subperm_iff.mpr hin) (sum_singleton.trans hexact)
  | inr scan =>
    rw [hresult] at hscan
    have hscanned : CoinsScanned nTargetValue pairs scan := hscan
    have hsub := hscanned.sublist
    have hlower : (∀ pair ∈ pairs, 0 ≤ pair.2) → scan.nTotalLower ≤ (pairs.map snd).sum :=
      fun hnonneg => (hscanned.sum_lower hfits).trans_le
        ((hsub.map snd).sum_le_sum (forall_mem_map.mpr hnonneg))
    simp only
    split_ifs with hexact hless
    · refine ⟨fun hnonneg => iff_of_true rfl (hexact.ge.trans (hlower hnonneg)), ?_⟩
      rintro found ⟨⟩
      exact picks_exact hfits hkeys hsub.subperm ((hscanned.sum_lower hfits).symm.trans hexact)
    · refine ⟨fun hnonneg => ?_, fun found hfound => ?_⟩
      · cases hlarger : scan.coinLowestLarger with
        | none =>
          rw [hscanned.sum_eq hfits (hscanned.none_larger hlarger)]
          simpa using hless
        | some larger =>
          obtain ⟨hin, hle⟩ := hscanned.larger larger hlarger
          exact iff_of_true rfl (hmember larger hin (le_of_add_minChange_le hle) hnonneg)
      · obtain ⟨larger, hlarger, rfl⟩ := map_eq_some_iff.mp hfound
        exact hscanned.picks_larger hfits hkeys hlarger
    · have hmore := not_lt.mp hless
      refine ⟨fun hnonneg => iff_of_true rfl (hmore.trans (hlower hnonneg)), ?_⟩
      rintro found ⟨⟩
      exact selectSubset_picks hscanned hfits hkeys hmore choices

end Attempt

/-- Whatever the random choices, an attempt for coins and one for an asset succeed exactly when the
eligible coins reach the target, and pick from them; no sum may leave 64 bits. -/
theorem minConf_attempted (ctx : SelectionContext) (conf : MinConf) (choices : SelectionChoices)
    (nTargetValue : CAmount) (vCoins : List COutput) :
    (Fits nTargetValue ((eligible (usableValue ctx conf) vCoins).map snd) →
      ((eligible (usableValue ctx conf) vCoins).map fun pair => pair.1.outpoint).Nodup →
      Attempted nTargetValue (eligible (usableValue ctx conf) vCoins)
        (selectCoinsMinConf ctx conf choices nTargetValue vCoins)) ∧
    (Fits nTargetValue ((eligible (usableAmount ctx conf) vCoins).map snd) →
      ((eligible (usableAmount ctx conf) vCoins).map fun pair => pair.1.outpoint).Nodup →
      Attempted nTargetValue (eligible (usableAmount ctx conf) vCoins)
        (selectAssetsMinConf ctx conf choices nTargetValue vCoins)) :=
  ⟨selectMinConf_attempted _ choices nTargetValue, selectMinConf_attempted _ choices nTargetValue⟩

/-! ## What the selection finds -/

/-- The units of an asset that a coin holds. -/
def assetUnits (env : Env) (name : Bytes) (coin : CInputCoin) : CAmount :=
  match spentAsset env coin.txout with
  | some asset => if asset.1 = name then asset.2.2 else 0
  | none => 0

/-- The reported amount of the asset reaches the target and is what the chosen coins hold. -/
def CoversTarget (env : Env) (ret : Selection) (name : Bytes) (nTargetValue : CAmount) : Prop :=
  ∃ nAmount, ret.mapValueRet.find? name = some (name, nAmount) ∧ nTargetValue ≤ nAmount ∧
    nAmount = ret.setCoinsRet.sumBy (assetUnits env name)

section Rounds

variable {ctx : SelectionContext} {targets : KeyedMap Bytes CAmount} {nTargetValue : CAmount}
  {before : List (Bytes × List COutput)} {item : Bytes × List COutput} {ret ret' : Selection}
  {found : InputCoinSet × CAmount} {name : Bytes} {coin : CInputCoin}

/-- Coins of one asset that reach the target, and their amount. -/
structure Covers (env : Env) (nTargetValue : CAmount) (item : Bytes × List COutput)
    (found : InputCoinSet × CAmount) : Prop where
  offered : ∀ coin ∈ found.1.items, coin ∈ item.2.map COutput.coin
  units : ∀ name, found.1.sumBy (assetUnits env name) = if name = item.1 then found.2 else 0
  reaches : nTargetValue ≤ found.2

theorem assetUnits_of_eligible {conf : MinConf} {pair : CInputCoin × CAmount}
    (hnamed : ∀ output ∈ item.2, ∀ asset,
      spentAsset ctx.env output.coin.txout = some asset → asset.1 = item.1)
    (h : pair ∈ eligible (usableAmount ctx conf) item.2) (name : Bytes) :
    assetUnits ctx.env name pair.1 = if name = item.1 then pair.2 else 0 := by
  obtain ⟨output, houtput, hpair⟩ := mem_filterMap.mp h
  obtain ⟨nAmount, hread, rfl⟩ := map_eq_some_iff.mp hpair
  simp only [usableAmount, ite_none_right_eq_some, assetAmount, map_eq_some_iff] at hread
  obtain ⟨-, asset, hasset, rfl⟩ := hread
  simp only [assetUnits, hasset, hnamed output houtput asset hasset, eq_comm]

/-- Every coin of the asset counts, whether an attempt may use it or not. -/
def assetAmounts (env : Env) (vCoins : List COutput) : List CAmount :=
  vCoins.filterMap fun output => assetAmount env output.coin.txout

theorem eligible_amounts_sublist (ctx : SelectionContext) (conf : MinConf) (vCoins : List COutput) :
    ((eligible (usableAmount ctx conf) vCoins).map snd).Sublist (assetAmounts ctx.env vCoins) := by
  induction vCoins with
  | nil => exact .slnil
  | cons output vCoins ih =>
    cases hread : assetAmount ctx.env output.coin.txout with
    | none => simpa [eligible, usableAmount, assetAmounts, hread] using ih
    | some nAmount =>
      by_cases husable : output.isUsable ctx conf = true
      · simpa [eligible, usableAmount, assetAmounts, hread, husable] using ih
      · simpa [eligible, usableAmount, assetAmounts, hread, husable] using ih.cons nAmount

theorem selectAsset_covers (hfits : Fits nTargetValue (assetAmounts ctx.env item.2))
    (hnodup : (item.2.map (·.coin.outpoint)).Nodup)
    (hnamed : ∀ output ∈ item.2, ∀ asset,
      spentAsset ctx.env output.coin.txout = some asset → asset.1 = item.1)
    (h : selectAsset ctx item.1 nTargetValue item.2 = some found) :
    Covers ctx.env nTargetValue item found := by
  obtain ⟨⟨conf, attempt⟩, -, hattempt⟩ := exists_of_findSome?_eq_some h
  have hkeys := (eligible_sublist (usableAmount ctx conf) item.2).map CInputCoin.outpoint
  rw [List.map_map, List.map_map] at hkeys
  have hpicks := (selectMinConf_attempted (usableAmount ctx conf) (ctx.choices item.1 attempt)
    nTargetValue (hfits.subperm (eligible_amounts_sublist ctx conf item.2).subperm)
      (hnodup.sublist hkeys)).picks found hattempt
  obtain ⟨picked, hsub, hitems, htotal⟩ := hpicks.picked
  refine ⟨fun coin hcoin => ?_, fun name => ?_, hpicks.reaches⟩
  · rw [hitems, mem_reverse] at hcoin
    obtain ⟨pair, hpair, rfl⟩ := mem_map.mp hcoin
    exact (eligible_sublist _ _).subset (mem_map_of_mem (hsub.subset hpair))
  · have hunits : picked.map (assetUnits ctx.env name ∘ fst) =
        picked.map fun pair => if name = item.1 then pair.2 else 0 :=
      map_congr_left fun pair hpair =>
        assetUnits_of_eligible hnamed (hsub.subset hpair) name
    rw [sumBy, hitems, map_reverse, sum_reverse, List.map_map, hunits, htotal]
    split <;> simp

/-- Names and coins come once, and coins stand under the name of their asset. -/
structure Separate (env : Env) (items : List (Bytes × List COutput)) : Prop where
  names : (items.map fst).Nodup
  named : ∀ item ∈ items, ∀ output ∈ item.2, ∀ asset,
    spentAsset env output.coin.txout = some asset → asset.1 = item.1
  distinct : (items.flatMap fun item => item.2.map (·.coin.outpoint)).Nodup

theorem Separate.left {later : List (Bytes × List COutput)} (h : Separate env (before ++ later)) :
    Separate env before where
  names := (nodup_append.mp (map_append ▸ h.names)).1
  named item hitem := h.named item (mem_append_left _ hitem)
  distinct := (nodup_append.mp (flatMap_append ▸ h.distinct)).1

/-- What the rounds over the first assets have done. -/
structure Selected (env : Env) (targets : KeyedMap Bytes CAmount)
    (before : List (Bytes × List COutput)) (ret : Selection) : Prop where
  reaches : ∀ item ∈ before, ∀ nTargetValue, targets.find? item.1 = some (item.1, nTargetValue) →
    0 < nTargetValue →
      ∃ nAmount, ret.mapValueRet.find? item.1 = some (item.1, nAmount) ∧ nTargetValue ≤ nAmount
  units : ∀ name, ret.setCoinsRet.sumBy (assetUnits env name) =
    (ret.mapValueRet.find? name).elim 0 snd
  offered : ∀ coin ∈ ret.setCoinsRet.items, ∃ item ∈ before, coin ∈ item.2.map COutput.coin
  reported : ∀ name, ret.mapValueRet.contains name = true → name ∈ before.map fst

theorem Selected.skip (h : Selected env targets before ret)
    (hnone : ∀ nTargetValue, targets.find? item.1 = some (item.1, nTargetValue) →
      nTargetValue ≤ 0) :
    Selected env targets (before ++ [item]) ret where
  reaches := by
    intro item' hitem' nTargetValue htarget hpos
    rcases mem_append.mp hitem' with hold | hnew
    · exact h.reaches item' hold nTargetValue htarget hpos
    · rw [mem_singleton.mp hnew] at htarget
      exact absurd hpos (not_lt.mpr (hnone nTargetValue htarget))
  units := h.units
  offered := by
    intro coin hcoin
    obtain ⟨item', hitem', hin⟩ := h.offered coin hcoin
    exact ⟨item', mem_append_left _ hitem', hin⟩
  reported := by
    intro name hname
    rw [map_append]
    exact mem_append_left _ (h.reported name hname)

theorem Selected.add (h : Selected env targets before ret) (hsep : Separate env (before ++ [item]))
    (htarget : targets.find? item.1 = some (item.1, nTargetValue))
    (hfound : Covers env nTargetValue item found) :
    Selected env targets (before ++ [item])
      { setCoinsRet := found.1.items.foldl insert ret.setCoinsRet
        mapValueRet := ret.mapValueRet.assign (item.1, found.2) } := by
  have hnames := hsep.names
  have hdistinct := hsep.distinct
  rw [map_append, nodup_append] at hnames
  rw [flatMap_append, nodup_append] at hdistinct
  have hother : ∀ item' ∈ before, item'.1 ≠ item.1 := fun item' hitem' =>
    hnames.2.2 item'.1 (mem_map_of_mem hitem') item.1 (by simp)
  -- no coin was chosen before for another asset
  have hfree : ∀ coin ∈ found.1.items, ret.setCoinsRet.contains coin.outpoint = false := by
    intro coin hcoin
    by_contra hcontains
    obtain ⟨coin', hcoin', hkey⟩ := contains_iff.mp (by simpa using hcontains)
    obtain ⟨item', hitem', hin'⟩ := h.offered coin' hcoin'
    obtain ⟨output, houtput, rfl⟩ := mem_map.mp (hfound.offered coin hcoin)
    obtain ⟨output', houtput', rfl⟩ := mem_map.mp hin'
    refine hdistinct.2.2 _ (mem_flatMap.mpr ⟨item', hitem', mem_map_of_mem houtput'⟩) _
      (mem_flatMap.mpr ⟨item, by simp, mem_map_of_mem houtput⟩) hkey
  have hitems := items_foldl_insert found.1.nodup hfree
  have hnew : ret.mapValueRet.find? item.1 = none := by
    by_contra hsome
    have hreported : ret.mapValueRet.contains item.1 = true := by
      rwa [contains_eq_isSome, isSome_iff_ne_none]
    obtain ⟨item', hitem', heq⟩ := mem_map.mp (h.reported item.1 hreported)
    exact hother item' hitem' heq
  constructor
  · intro item' hitem' nTargetValue' htarget' hpos
    rcases mem_append.mp hitem' with hitem' | hitem'
    · obtain ⟨nAmount, hreport, hle⟩ := h.reaches item' hitem' nTargetValue' htarget' hpos
      refine ⟨nAmount, ?_, hle⟩
      rw [find?_assign, if_neg (hother item' hitem').symm, hreport]
    · rw [mem_singleton.mp hitem', htarget] at htarget'
      rw [mem_singleton.mp hitem']
      cases htarget'
      exact ⟨found.2, by rw [find?_assign, if_pos rfl], hfound.reaches⟩
  · intro name
    have hsum : (found.1.items.foldl KeyedSet.insert ret.setCoinsRet).sumBy (assetUnits env name) =
        found.1.sumBy (assetUnits env name) + ret.setCoinsRet.sumBy (assetUnits env name) := by
      simp only [KeyedSet.sumBy, hitems, map_append, map_reverse, sum_append,
        sum_reverse]
    rw [hsum, hfound.units, h.units, find?_assign]
    by_cases hname : name = item.1
    · simp [hname, hnew]
    · rw [if_neg hname, if_neg (Ne.symm hname), zero_add]
  · intro coin hcoin
    rw [hitems] at hcoin
    rcases mem_append.mp hcoin with hcoin | hcoin
    · exact ⟨item, by simp, hfound.offered coin (mem_reverse.mp hcoin)⟩
    · obtain ⟨item', hitem', hin⟩ := h.offered coin hcoin
      exact ⟨item', mem_append_left _ hitem', hin⟩
  · intro name hname
    rw [map_append]
    rw [contains_assign] at hname
    rcases Bool.or_eq_true_iff.mp hname with heq | hreported
    · apply mem_append_right
      simpa using (of_decide_eq_true heq).symm
    · exact mem_append_left _ (h.reported name hreported)

/-- For every target no sum leaves the range of 64 bits. -/
def TargetsFit (env : Env) (targets : KeyedMap Bytes CAmount) (items : List (Bytes × List COutput)) :
    Prop :=
  ∀ item ∈ items, ∀ nTargetValue, targets.find? item.1 = some (item.1, nTargetValue) →
    0 < nTargetValue → Fits nTargetValue (assetAmounts env item.2)

theorem Selected.round (h : Selected ctx.env targets before ret)
    (hfits : TargetsFit ctx.env targets [item]) (hsep : Separate ctx.env (before ++ [item]))
    (hround : selectRound ctx targets ret item = some ret') :
    Selected ctx.env targets (before ++ [item]) ret' := by
  unfold selectRound at hround
  cases htarget : targets.find? item.1 with
  | none =>
    rw [htarget] at hround
    cases hround
    apply h.skip
    intro nTargetValue htarget'
    rw [htarget] at htarget'
    cases htarget'
  | some target =>
    obtain ⟨name, nTargetValue⟩ := target
    have hname : name = item.1 := key_of_find? htarget
    subst hname
    simp only [htarget] at hround
    split at hround
    · rename_i hle
      cases hround
      apply h.skip
      intro nTargetValue' htarget'
      rw [htarget] at htarget'
      cases htarget'
      exact hle
    · rename_i hpos
      obtain ⟨found, hfound, rfl⟩ := map_eq_some_iff.mp hround
      have hdistinct := hsep.distinct
      rw [flatMap_append, nodup_append, flatMap_singleton] at hdistinct
      have hfit := hfits item mem_cons_self nTargetValue htarget (not_le.mp hpos)
      exact h.add hsep htarget
        (selectAsset_covers hfit hdistinct.2.1 (hsep.named item (by simp)) hfound)

theorem Selected.rounds (h : Selected ctx.env targets before ret) (items : List (Bytes × List COutput))
    (hfits : TargetsFit ctx.env targets items) (hsep : Separate ctx.env (before ++ items))
    (hrounds : items.foldlM (selectRound ctx targets) ret = some ret') :
    Selected ctx.env targets (before ++ items) ret' := by
  induction items generalizing before ret with
  | nil =>
    cases hrounds
    rw [append_nil]
    exact h
  | cons item items ih =>
    have hassoc : before ++ item :: items = before ++ [item] ++ items := by simp
    rw [hassoc] at hsep ⊢
    rw [foldlM_cons] at hrounds
    obtain ⟨ret₁, hround, hrest⟩ := bind_eq_some_iff.mp hrounds
    rw [TargetsFit, forall_mem_cons] at hfits
    exact ih (h.round (forall_mem_singleton.mpr hfits.1) hsep.left hround) hfits.2 hsep hrest

end Rounds

/-- When `SelectAssets` returns true and no sum has left 64 bits, it has covered every positive
target if and only if the wallet has an entry for each of their assets. -/
theorem targets_covered_iff (ctx : SelectionContext) (available : AvailableAssets ctx.env)
    (targets : KeyedMap Bytes CAmount) (ret : Selection)
    (hfits : TargetsFit ctx.env targets available.coins.items)
    (h : selectAssets ctx available targets = some ret) :
    (∀ name nTargetValue, targets.find? name = some (name, nTargetValue) → 0 < nTargetValue →
        CoversTarget ctx.env ret name nTargetValue) ↔
      ∀ name nTargetValue, targets.find? name = some (name, nTargetValue) → 0 < nTargetValue →
        available.coins.contains name = true := by
  unfold selectAssets at h
  split at h
  · cases h
  have hstart : Selected ctx.env targets [] {} :=
    ⟨by simp, fun _ => rfl, fun _ hcoin => (by cases hcoin), fun _ hname => (by cases hname)⟩
  have hselected := hstart.rounds available.coins.items hfits
    ⟨available.coins.nodup, available.named, available.distinct⟩ h
  constructor
  · intro hcovers name nTargetValue htarget hpos
    obtain ⟨nAmount, hreport, -⟩ := hcovers name nTargetValue htarget hpos
    have hname := hselected.reported name (by rw [contains_eq_isSome, hreport]; rfl)
    obtain ⟨item, hitem, hkey⟩ := mem_map.mp hname
    exact contains_iff.mpr ⟨item, hitem, hkey⟩
  · intro hheld name nTargetValue htarget hpos
    obtain ⟨item, hitem, rfl⟩ := contains_iff.mp (hheld name nTargetValue htarget hpos)
    obtain ⟨nAmount, hreport, hle⟩ := hselected.reaches item hitem nTargetValue htarget hpos
    refine ⟨nAmount, hreport, hle, ?_⟩
    rw [hselected.units, hreport]
    rfl

/-! ## A wallet with ten units of GOLD -/

/-- The coins are taken in their order, and every bit is set. -/
def firstChoices : SelectionChoices where
  shuffle := id
  shuffle_perm := fun _ => .rfl
  bits := fun _ _ => true
  changeBits := fun _ _ => true

def walletContext : SelectionContext :=
  ⟨regTestEnv, fun _ _ => true, true, 25, false, fun _ _ => firstChoices⟩

/-- Two coins, of four and of six units. -/
def goldOutputs : KeyedMap Bytes (List COutput) :=
  empty.insert (str "GOLD",
    [⟨⟨⟨1, 0⟩, goldTransfer 4⟩, 10, true, true⟩, ⟨⟨⟨2, 0⟩, goldTransfer 6⟩, 10, true, true⟩])

def goldWallet : AvailableAssets walletContext.env where
  coins := goldOutputs
  named := by
    have hall : ∀ item ∈ goldOutputs.items, ∀ output ∈ item.2,
        (spentAsset regTestEnv output.coin.txout).all (fun asset => asset.1 = item.1) = true := by
      decide +kernel
    intro item hitem output houtput asset hasset
    have hname := hall item hitem output houtput
    rw [show spentAsset regTestEnv output.coin.txout = some asset from hasset] at hname
    simpa using hname
  distinct := by decide +kernel

/-- For a target of ten both coins are taken, and for one of eleven there is not enough. -/
theorem goldOutputs_attempted :
    let vCoins := goldOutputs.items.flatMap snd
    (selectAssetsMinConf walletContext ⟨1, 6, 0⟩ firstChoices 10 vCoins).isSome = true ∧
      (selectAssetsMinConf walletContext ⟨1, 6, 0⟩ firstChoices 11 vCoins).isSome = false := by
  intro vCoins
  have hnodup : ((eligible (usableAmount walletContext ⟨1, 6, 0⟩) vCoins).map
      fun pair => pair.1.outpoint).Nodup := by decide +kernel
  have htotal : (((eligible (usableAmount walletContext ⟨1, 6, 0⟩) vCoins).map snd).map
      (|·|)).sum < 2 ^ 63 := by decide +kernel
  have h := fun target (htarget : |target + minChange| < 2 ^ 63) =>
    ((minConf_attempted walletContext ⟨1, 6, 0⟩ firstChoices target vCoins).2 ⟨htarget, htotal⟩
      hnodup).succeeds_iff (by decide +kernel)
  refine ⟨(h 10 (by decide)).mpr (by decide +kernel), ?_⟩
  rw [Bool.eq_false_iff, ne_eq, h 11 (by decide)]
  decide +kernel

theorem goldWallet_covers :
    ∃ ret, selectAssets walletContext goldWallet (empty.insert (str "GOLD", 10)) =
        some ret ∧ CoversTarget regTestEnv ret (str "GOLD") 10 := by
  have hsome : (selectAssets walletContext goldWallet
      (empty.insert (str "GOLD", 10))).isSome = true := by decide +kernel
  obtain ⟨ret, hret⟩ := isSome_iff_exists.mp hsome
  have honly : ∀ name nTargetValue, ((empty : KeyedMap Bytes CAmount).insert
      (str "GOLD", 10)).find? name = some (name, nTargetValue) →
        name = str "GOLD" ∧ nTargetValue = 10 := by
    intro name nTargetValue htarget
    rw [find?_insert] at htarget
    split at htarget <;> cases htarget
    exact ⟨rfl, rfl⟩
  refine ⟨ret, hret, (targets_covered_iff walletContext goldWallet _ ret ?_ hret).mpr ?_
    (str "GOLD") 10 (by decide +kernel) (by decide)⟩
  · intro item hitem nTargetValue htarget _
    rw [(honly _ _ htarget).2]
    have htotal : ∀ item ∈ goldOutputs.items,
        ((assetAmounts regTestEnv item.2).map (|·|)).sum < 2 ^ 63 := by decide +kernel
    exact ⟨by decide, htotal item hitem⟩
  · intro name nTargetValue htarget _
    rw [(honly _ _ htarget).1]
    decide +kernel

/-- A target next to the largest number wraps with its change: the smaller coin is taken for it. -/
example : (selectAssets walletContext goldWallet (empty.insert (str "GOLD", 2 ^ 63 - 1))).map
    (·.mapValueRet.items) = some [(str "GOLD", 4)] := by decide +kernel

/-- A target of an asset that the wallet has no coin of is passed over. -/
theorem missing_asset_selected :
    ∃ ret, selectAssets walletContext goldWallet (empty.insert (str "SILVER", 10)) =
        some ret ∧ ret.mapValueRet.find? (str "SILVER") = none ∧
      ¬CoversTarget regTestEnv ret (str "SILVER") 10 := by
  obtain ⟨ret, hret, hnone⟩ : ∃ ret, selectAssets walletContext goldWallet
      (empty.insert (str "SILVER", 10)) = some ret ∧
      ret.mapValueRet.find? (str "SILVER") = none := by decide +kernel
  refine ⟨ret, hret, hnone, ?_⟩
  rintro ⟨nAmount, hreport, -⟩
  rw [hnone] at hreport
  cases hreport

end HnbCore
