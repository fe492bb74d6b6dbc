import HnbCore.CoinsCache
import HnbCore.LookupAnswers
import HnbCore.AssetConservation

/-!
# Spending a coin and its assets

`SpendCoin` takes the coin out of the coin view and then, with assets deployed, has the asset cache
take the amount off the balance of the address the output names. The second step can fail after
the first one is done.
-/

namespace HnbCore

open AssetState CCoinsViewCache Option Function CCoinsViewDB

/-- The output is no asset output, or its asset and its address can be read. -/
def Readable (env : Env) (txOut : CTxOut) : Prop :=
  txOut.scriptPubKey.isAssetScript.isSome = true →
    ∃ name address nAmount, spentAsset env txOut = some (name, address, nAmount) ∧
      address.isEmpty = false ∧ name.isEmpty = false

namespace AssetState

/-- What a balance lookup answers. -/
def balance (name address : Bytes) (s : AssetState) : Option CAmount :=
  (getBestAssetAddressAmount name address s).1

/-- The balance of a pair after an amount has been taken off one of them. Only a recorded balance
changes, and it does not fall below zero. -/
def balanceAfterSpend (spent : Option (Bytes × Bytes × CAmount)) (name address : Bytes)
    (balance : Option CAmount) : Option CAmount :=
  match spent with
  | some (name', address', nAmount) =>
      if name' = name ∧ address' = address ∧ 0 < nAmount then
        balance.map fun best => max 0 (int64 (best - nAmount))
      else balance
  | none => balance

variable {env : Env} {txOut : CTxOut} {s : AssetState}

theorem trySpendCoin_plain (h : txOut.scriptPubKey.isAssetScript.isSome = false) :
    trySpendCoin env txOut s = (true, s) := by
  rw [trySpendCoin, h]
  rfl

theorem trySpendCoin_unread (h : txOut.scriptPubKey.isAssetScript.isSome = true)
    (hspent : spentAsset env txOut = none) : trySpendCoin env txOut s = (false, s) := by
  rw [trySpendCoin, h, hspent]
  rfl

variable {address name : Bytes} {nAmount : CAmount}

theorem trySpendCoin_read (h : txOut.scriptPubKey.isAssetScript.isSome = true)
    (hspent : spentAsset env txOut = some (name, address, nAmount)) :
    trySpendCoin env txOut s =
      if address.isEmpty || name.isEmpty then (false, s)
      else (true, takeOff name address nAmount s) := by
  rw [trySpendCoin, h, hspent]
  rfl

theorem trySpendCoin_refused (h : (trySpendCoin env txOut s).1 = false) :
    (trySpendCoin env txOut s).2 = s := by
  cases hscript : txOut.scriptPubKey.isAssetScript.isSome with
  | false => rw [trySpendCoin_plain hscript]
  | true =>
    cases hspent : spentAsset env txOut with
    | none => rw [trySpendCoin_unread hscript hspent]
    | some spent =>
      obtain ⟨name, address, nAmount⟩ := spent
      rw [trySpendCoin_read hscript hspent] at h ⊢
      split at h
      · rw [if_pos ‹_›]
      · cases h

theorem trySpendCoin_readable (h : Readable env txOut) (s : AssetState) :
    (trySpendCoin env txOut s).1 = true := by
  cases hscript : txOut.scriptPubKey.isAssetScript.isSome with
  | false => rw [trySpendCoin_plain hscript]
  | true =>
    obtain ⟨name, address, nAmount, hspent, haddress, hname⟩ := h hscript
    rw [trySpendCoin_read hscript hspent, haddress, hname]
    rfl

/-- A lookup copies what it finds below into the view's map, at the pair it is asked for. -/
theorem getBestAssetAddressAmount_snd (name address : Bytes) (s : AssetState) :
    ∃ amounts : KeyedMap (Bytes × Bytes) CAmount,
      (getBestAssetAddressAmount name address s).2 =
        { s with view.mapAssetsAddressAmount := amounts } ∧
      ∀ pair, pair ≠ (name, address) →
        amounts.find? pair = s.view.mapAssetsAddressAmount.find? pair := by
  unfold getBestAssetAddressAmount
  split
  · split
    · exact ⟨_, rfl, fun _ _ => rfl⟩
    · split
      · refine ⟨_, rfl, ?_⟩
        intro pair hne
        rw [KeyedSet.find?_assign, if_neg (Ne.symm hne)]
      · exact ⟨_, rfl, fun _ _ => rfl⟩
  · exact ⟨_, rfl, fun _ _ => rfl⟩

theorem getBestAssetAddressAmount_none (h : balance name address s = none) :
    (getBestAssetAddressAmount name address s).2 = s := by
  unfold balance getBestAssetAddressAmount at h
  unfold getBestAssetAddressAmount
  split
  · rename_i hindex
    rw [if_pos hindex] at h
    split
    · rfl
    · rename_i hview
      simp only [hview] at h
      split
      · rename_i hbelow
        simp only [hbelow] at h
        cases h
      · rfl
  · rfl

/-- The balance recorded for the pair is replaced, and the others stay. -/
theorem takeOff_recorded {best : CAmount}
    (hon : s.fAssetIndex = true) (hpos : 0 < nAmount) (h : balance name address s = some best)
    (name' address' : Bytes) :
    balance name' address' (takeOff name address nAmount s) =
      if name = name' ∧ address = address' then some (max 0 (int64 (best - nAmount)))
      else balance name' address' s := by
  obtain ⟨amounts, hsnd, hother⟩ := getBestAssetAddressAmount_snd name address s
  have hpair : getBestAssetAddressAmount name address s =
      (some best, { s with view.mapAssetsAddressAmount := amounts }) := Prod.ext h hsnd
  have hclamp : (if int64 (best - nAmount) < 0 then 0 else int64 (best - nAmount)) =
      max 0 (int64 (best - nAmount)) := by
    split <;> omega
  unfold takeOff balance
  rw [if_pos (by simp [hon, hpos]), hpair]
  simp only [setAmount, getBestAssetAddressAmount_fst, hon, if_true, KeyedSet.find?_assign, hclamp]
  by_cases hsame : name = name' ∧ address = address'
  · rw [if_pos hsame, if_pos (Prod.ext hsame.1 hsame.2)]
    rfl
  · have hne : (name', address') ≠ (name, address) := by
      rintro heq
      cases heq
      exact hsame ⟨rfl, rfl⟩
    rw [if_neg hsame, if_neg (Ne.symm hne), hother _ hne]

theorem takeOff_unrecorded (nAmount : CAmount)
    (h : balance name address s = none) : takeOff name address nAmount s = s := by
  have hpair : getBestAssetAddressAmount name address s = (none, s) :=
    Prod.ext h (getBestAssetAddressAmount_none h)
  unfold takeOff
  rw [hpair]
  split <;> rfl

theorem balance_takeOff (name address name' address' : Bytes) (nAmount : CAmount) (s : AssetState) :
    balance name' address' (takeOff name address nAmount s) =
      balanceAfterSpend (some (name, address, nAmount)) name' address'
        (balance name' address' s) := by
  show _ = if name = name' ∧ address = address' ∧ 0 < nAmount then _ else _
  cases hbest : balance name address s with
  | none =>
    rw [takeOff_unrecorded nAmount hbest]
    split
    · rename_i hsame
      obtain ⟨rfl, rfl, -⟩ := hsame
      rw [hbest]
      rfl
    · rfl
  | some best =>
    have hon : s.fAssetIndex = true := by
      by_contra hoff
      rw [balance, getBestAssetAddressAmount_fst, if_neg hoff] at hbest
      cases hbest
    by_cases hpos : 0 < nAmount
    · rw [takeOff_recorded hon hpos hbest]
      by_cases hsame : name = name' ∧ address = address'
      · obtain ⟨rfl, rfl⟩ := hsame
        rw [if_pos ⟨rfl, rfl⟩, if_pos ⟨rfl, rfl, hpos⟩, hbest]
        rfl
      · rw [if_neg hsame, if_neg fun h => hsame ⟨h.1, h.2.1⟩]
    · rw [if_neg fun h => hpos h.2.2]
      unfold takeOff
      rw [if_neg (by simp [hpos])]

theorem balance_trySpendCoin (h : (trySpendCoin env txOut s).1 = true) (name address : Bytes) :
    balance name address (trySpendCoin env txOut s).2 =
      balanceAfterSpend (spentAsset env txOut) name address (balance name address s) := by
  cases hscript : txOut.scriptPubKey.isAssetScript.isSome with
  | false =>
    have hnone : spentAsset env txOut = none := by
      rw [spentAsset, isSome_eq_false_iff.mp hscript |> isNone_iff_eq_none.mp]
      rfl
    rw [trySpendCoin_plain hscript, hnone]
    rfl
  | true =>
    cases hspent : spentAsset env txOut with
    | none =>
      rw [trySpendCoin_unread hscript hspent] at h
      cases h
    | some spent =>
      obtain ⟨name', address', nAmount⟩ := spent
      rw [trySpendCoin_read hscript hspent] at h ⊢
      split at h
      · cases h
      · rename_i hnames
        rw [if_neg hnames]
        exact balance_takeOff name' address' name address nAmount s

end AssetState

/-- What `SpendCoin` leaves: its answer, the coin it moved out, the caches and the asset state. -/
structure SpendResult where
  spent : Bool
  moveout : Option Coin
  layers : List CCoinsMap
  assets : AssetState

/-- `SpendCoin` with an asset cache. The entry of the coin view is cleared before the asset cache
is asked. -/
def spendCoinAssets {σ : Type} (env : Env) (view : CCoinsView σ) (base : σ) (cache : CCoinsMap)
    (below : List CCoinsMap) (out : COutPoint) (s : AssetState) : SpendResult :=
  match spendCoin view base cache below out with
  | (none, layers) => ⟨false, none, layers, s⟩
  | (some coin, layers) =>
      if env.deployments.areAssetsDeployed then
        let (spent, s) := trySpendCoin env coin.out s
        ⟨spent, some coin, layers, s⟩
      else ⟨true, some coin, layers, s⟩

section Spend

variable {σ : Type} {env : Env} {view : CCoinsView σ} {base : σ} {cache : CCoinsMap}
  {below : List CCoinsMap} {out : COutPoint} {s : AssetState}

theorem spendCoinAssets_layers :
    (spendCoinAssets env view base cache below out s).layers =
      (spendCoin view base cache below out).2 := by
  unfold spendCoinAssets
  split
  · rename_i h
    rw [h]
  · rename_i h
    rw [h]
    split <;> rfl

theorem spendCoinAssets_moveout :
    (spendCoinAssets env view base cache below out s).moveout =
      (spendCoin view base cache below out).1 := by
  unfold spendCoinAssets
  split
  · rename_i h
    rw [h]
  · rename_i h
    rw [h]
    split <;> rfl

variable (env out s) in
/-- The coin of the view is gone afterwards and every other coin is as it was, whatever the asset
cache says. -/
theorem getCoin_spendCoinAssets (hs : Sound view base (cache :: below)) (out' : COutPoint) :
    (getCoin view base (spendCoinAssets env view base cache below out s).layers out').1 =
      update (fun out => (getCoin view base (cache :: below) out).1) out none out' := by
  obtain ⟨⟨hsound, hmaps⟩, -⟩ := spendCoin_spec out hs
  rw [spendCoinAssets_layers, (getCoin_spec out' hsound).1]
  obtain ⟨rest, hrest⟩ := maps_eq_cons view base below
  obtain ⟨rest', hrest'⟩ := maps_eq_cons view base
    (spendCoin view base cache below out).2
  rw [maps_cons, hrest, hrest'] at hmaps
  rw [(List.cons.inj hmaps).1]
  show update (viewed view base (cache :: below)) out none out' = _
  by_cases hout : out' = out
  · subst hout
    rw [update_self, update_self]
  · rw [update_of_ne hout, update_of_ne hout, (getCoin_spec out' hs).1]

theorem spendCoinAssets_nothing (h : (spendCoin view base cache below out).1 = none) :
    (spendCoinAssets env view base cache below out s).spent = false ∧
      (spendCoinAssets env view base cache below out s).assets = s := by
  unfold spendCoinAssets
  split
  · exact ⟨rfl, rfl⟩
  · rename_i hspend
    rw [hspend] at h
    cases h

variable {coin : Coin}

theorem spendCoinAssets_deployed (h : (spendCoin view base cache below out).1 = some coin)
    (hdeployed : env.deployments.areAssetsDeployed = true) :
    (spendCoinAssets env view base cache below out s).spent = (trySpendCoin env coin.out s).1 ∧
      (spendCoinAssets env view base cache below out s).assets =
        (trySpendCoin env coin.out s).2 := by
  unfold spendCoinAssets
  split
  · rename_i hspend
    rw [hspend] at h
    cases h
  · rename_i hspend
    rw [hspend] at h
    cases h
    rw [if_pos hdeployed]
    exact ⟨rfl, rfl⟩

theorem spendCoinAssets_undeployed (h : (spendCoin view base cache below out).1 = some coin)
    (hdeployed : ¬env.deployments.areAssetsDeployed = true) :
    (spendCoinAssets env view base cache below out s).spent = true ∧
      (spendCoinAssets env view base cache below out s).assets = s := by
  unfold spendCoinAssets
  split
  · rename_i hspend
    rw [hspend] at h
    cases h
  · rw [if_neg hdeployed]
    exact ⟨rfl, rfl⟩

theorem spendCoinAssets_refused
    (h : (spendCoinAssets env view base cache below out s).spent = false) :
    (spendCoinAssets env view base cache below out s).assets = s := by
  cases hspend : (spendCoin view base cache below out).1 with
  | none => exact (spendCoinAssets_nothing hspend).2
  | some coin =>
    by_cases hdeployed : env.deployments.areAssetsDeployed = true
    · obtain ⟨hspent, hassets⟩ := spendCoinAssets_deployed (s := s) hspend hdeployed
      rw [hassets]
      exact trySpendCoin_refused (hspent.symm.trans h)
    · exact (spendCoinAssets_undeployed hspend hdeployed).2

theorem balance_spendCoinAssets
    (h : (spendCoinAssets env view base cache below out s).spent = true) (name address : Bytes) :
    balance name address (spendCoinAssets env view base cache below out s).assets =
      balanceAfterSpend
        (if env.deployments.areAssetsDeployed then
          (spendCoinAssets env view base cache below out s).moveout.bind
            fun coin => spentAsset env coin.out
        else none) name address (balance name address s) := by
  rw [spendCoinAssets_moveout]
  cases hspend : (spendCoin view base cache below out).1 with
  | none =>
    rw [(spendCoinAssets_nothing hspend).1] at h
    cases h
  | some coin =>
    by_cases hdeployed : env.deployments.areAssetsDeployed = true
    · obtain ⟨hspent, hassets⟩ := spendCoinAssets_deployed (s := s) hspend hdeployed
      rw [hassets, if_pos hdeployed, bind_some]
      exact balance_trySpendCoin (hspent.symm.trans h) name address
    · rw [(spendCoinAssets_undeployed hspend hdeployed).2, if_neg hdeployed]
      rfl

theorem spendCoinAssets_readable (hspend : (spendCoin view base cache below out).1 = some coin)
    (h : env.deployments.areAssetsDeployed = true → Readable env coin.out) :
    (spendCoinAssets env view base cache below out s).spent = true := by
  by_cases hdeployed : env.deployments.areAssetsDeployed = true
  · rw [(spendCoinAssets_deployed hspend hdeployed).1]
    exact trySpendCoin_readable (h hdeployed) s
  · exact (spendCoinAssets_undeployed hspend hdeployed).1

end Spend

/-- For a coin whose asset can be read: a refused spend leaves every coin and every balance as it
was; an accepted one removes the coin that was there, and takes its amount off the recorded balance
of the address it names, down to zero at most. -/
theorem spendCoin_all_or_nothing {σ : Type} (env : Env) (view : CCoinsView σ) (base : σ)
    (cache : CCoinsMap) (below : List CCoinsMap) (out : COutPoint) (s : AssetState)
    (hs : Sound view base (cache :: below))
    (hread : ∀ coin, (getCoin view base (cache :: below) out).1 = some coin →
      env.deployments.areAssetsDeployed = true → Readable env coin.out) :
    let result := spendCoinAssets env view base cache below out s
    (result.spent = false →
      (∀ out', (getCoin view base result.layers out').1 =
        (getCoin view base (cache :: below) out').1) ∧
      ∀ name address, balance name address result.assets = balance name address s) ∧
    (result.spent = true →
      (∀ coin, (getCoin view base (cache :: below) out).1 = some coin →
        result.moveout = some coin) ∧
      (∀ out', (getCoin view base result.layers out').1 =
        if out' = out then none else (getCoin view base (cache :: below) out').1) ∧
      ∀ name address, balance name address result.assets =
        balanceAfterSpend
          (if env.deployments.areAssetsDeployed then
            result.moveout.bind fun coin => spentAsset env coin.out
          else none) name address (balance name address s)) := by
  intro result
  have hcoins := getCoin_spendCoinAssets env out s hs
  have hmoved : ∀ coin, (getCoin view base (cache :: below) out).1 = some coin →
      (spendCoin view base cache below out).1 = some coin := by
    intro coin hcoin
    rw [(getCoin_spec out hs).1] at hcoin
    exact (spendCoin_spec out hs).2 coin hcoin
  constructor
  · intro hrefused
    constructor
    · intro out'
      rw [hcoins out']
      by_cases hout : out' = out
      · subst hout
        rw [update_self]
        cases hcoin : (getCoin view base (cache :: below) out').1 with
        | none => rfl
        | some coin =>
          have hspent : result.spent = true :=
            spendCoinAssets_readable (hmoved coin hcoin) (hread coin hcoin)
          rw [hrefused] at hspent
          cases hspent
      · rw [update_of_ne hout]
    · intro name address
      rw [show result.assets = s from spendCoinAssets_refused hrefused]
  · intro hspent
    refine ⟨?_, ?_, balance_spendCoinAssets hspent⟩
    · intro coin hcoin
      rw [show result.moveout = _ from spendCoinAssets_moveout]
      exact hmoved coin hcoin
    · intro out'
      rw [hcoins out', update_apply]

/-- A coin database with one coin, which pays ten units of GOLD to the issuer. -/
def goldCoinDB : CCoinsViewDB where
  coins := goldCoins
  unspent := by
    intro item hitem
    have hall : ∀ item ∈ goldCoins.items, item.2.isSpent = false := by decide +kernel
    exact hall item hitem

/-- The address that the coin pays. -/
def goldHolder : Bytes := regTestEnv.addressOf (goldTransfer 10).scriptPubKey

/-- The asset index is on and the holder has a balance. -/
def goldBalance (amount : CAmount) : AssetState :=
  { goldState with
    fAssetIndex := true
    assetsdb.assetAddressQuantity := KeyedSet.empty.insert ((str "GOLD", goldHolder), amount) }

theorem goldCoin_spent :
    (getCoin view goldCoinDB
      (spendCoinAssets regTestEnv view goldCoinDB .empty [] ⟨1, 0⟩
        (goldBalance 15)).layers ⟨1, 0⟩).1 = none ∧
    balance (str "GOLD") goldHolder
      (spendCoinAssets regTestEnv view goldCoinDB .empty [] ⟨1, 0⟩
        (goldBalance 15)).assets = some 5 := by
  have hcoin : (getCoin view goldCoinDB [.empty] ⟨1, 0⟩).1 =
      some ⟨goldTransfer 10, false, 1⟩ := by decide +kernel
  have hasset : spentAsset regTestEnv (goldTransfer 10) = some (str "GOLD", goldHolder, 10) := by
    decide +kernel
  have hspent : (spendCoinAssets regTestEnv view goldCoinDB .empty [] ⟨1, 0⟩
      (goldBalance 15)).spent = true := by decide +kernel
  obtain ⟨-, hdone⟩ := spendCoin_all_or_nothing regTestEnv view goldCoinDB .empty []
    ⟨1, 0⟩ (goldBalance 15) ⟨fun _ => WriteBack.sound_none _, trivial⟩ (by
      intro coin hfound _ _
      rw [hcoin] at hfound
      cases hfound
      exact ⟨_, _, _, hasset, by decide +kernel, by decide +kernel⟩)
  obtain ⟨hmoved, hcoins, hbalances⟩ := hdone hspent
  constructor
  · exact hcoins ⟨1, 0⟩
  · rw [hbalances, hmoved _ hcoin]
    decide +kernel

/-- With the index off an asset coin is spent and no balance is kept; with it on, a balance of three
units falls to zero when the coin of ten is spent. -/
theorem spend_without_drop :
    (spendCoinAssets regTestEnv view goldCoinDB .empty [] ⟨1, 0⟩ goldState).spent =
        true ∧
      balance (str "GOLD") goldHolder
        (spendCoinAssets regTestEnv view goldCoinDB .empty [] ⟨1, 0⟩
          goldState).assets = balance (str "GOLD") goldHolder goldState ∧
      (spendCoinAssets regTestEnv view goldCoinDB .empty [] ⟨1, 0⟩
        (goldBalance 3)).spent = true ∧
      (spendCoinAssets regTestEnv view goldCoinDB .empty [] ⟨1, 0⟩
        (goldBalance 3)).moveout.bind (fun coin => spentAsset regTestEnv coin.out) =
        some (str "GOLD", goldHolder, 10) ∧
      balance (str "GOLD") goldHolder (goldBalance 3) = some 3 ∧
      balance (str "GOLD") goldHolder
        (spendCoinAssets regTestEnv view goldCoinDB .empty [] ⟨1, 0⟩
          (goldBalance 3)).assets = some 0 := by
  decide +kernel

end HnbCore
