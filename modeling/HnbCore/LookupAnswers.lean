import HnbCore.Flush

/-!
# What the lookups answer

The answers of the lookups as functions of the dirty sets and of what is stored, and when a flush
of the view leaves all of them as they were.
-/

namespace HnbCore

open Overlay Option

/-- The metadata of an asset that waits to be added. -/
def CAssetCacheNewAsset.data (e : CAssetCacheNewAsset) : AssetState.AssetMetaData :=
  ⟨e.asset, some e.blockHeight, e.blockHash⟩

namespace AssetState

section Answers

variable (s : AssetState) (name : Bytes)

/-- What the asset cache and the asset database have under a name. -/
def storedData : Option CDatabasedAssetData :=
  (s.assetsCache.find? name).or (s.assetsdb.assetData.find? name)

@[simp] theorem readAssetData_fst : (s.readAssetData name).1 = s.storedData name := by
  unfold readAssetData storedData Lru.get
  cases s.assetsCache.find? name with
  | some data => rfl
  | none => cases s.assetsdb.assetData.find? name <;> rfl

@[simp] theorem assetIsStored_fst :
    (s.assetIsStored name).1 = (s.storedData name).isSome := by
  unfold assetIsStored storedData
  rw [Lru.exists?_eq]
  cases s.assetsCache.find? name with
  | some data => rfl
  | none => cases s.assetsdb.assetData.find? name <;> rfl

/-- The pending changes of an asset, with one answer for a removal and one for an addition. -/
def pendingAsset {β : Type} (onRem onAdd : CAssetCacheNewAsset → β) : Option β :=
  pending (s.view.setNewAssetsToRemove.find? name) (s.passets.setNewAssetsToRemove.find? name)
    (s.view.setNewAssetsToAdd.find? name) (s.passets.setNewAssetsToAdd.find? name) onRem onAdd

theorem checkIfAssetExists_fst :
    (checkIfAssetExists name true s).1 = (s.fReindex ||
      (s.pendingAsset name (fun _ => false) (fun _ => true)).getD (s.storedData name).isSome) := by
  cases hreindex : s.fReindex
  case true => simp [checkIfAssetExists, hreindex]
  simp only [checkIfAssetExists, pendingAsset, pending, KeyedSet.contains, hreindex]
  rcases (s.view.setNewAssetsToRemove.find? name).eq_none_or_eq_some with hvRem | ⟨_, hvRem⟩
  case inr => simp [hvRem]
  rcases (s.passets.setNewAssetsToRemove.find? name).eq_none_or_eq_some with hpRem | ⟨_, hpRem⟩
  case inr => simp [hvRem, hpRem]
  rcases (s.view.setNewAssetsToAdd.find? name).eq_none_or_eq_some with hvAdd | ⟨_, hvAdd⟩
  case inr => simp [hvRem, hpRem, hvAdd]
  rcases (s.passets.setNewAssetsToAdd.find? name).eq_none_or_eq_some with hpAdd | ⟨_, hpAdd⟩ <;>
    simp [hvRem, hpRem, hvAdd, hpAdd]

/-- Without the duplicate check nothing is reported to exist. -/
theorem checkIfAssetExists_unforced_fst :
    (checkIfAssetExists name false s).1 = s.fReindex := by
  simp only [checkIfAssetExists, Bool.and_false]
  cases hreindex : s.fReindex <;> cases hview : s.view.setNewAssetsToRemove.contains name <;>
    cases hpassets : s.passets.setNewAssetsToRemove.contains name <;> simp

/-- The data of a reissued asset that the view or `passets` has. -/
def reissuedData : Option CNewAsset :=
  ((s.view.mapReissuedAssetData.find? name).or
    (s.passets.mapReissuedAssetData.find? name)).map Prod.snd

theorem getAssetMetaDataIfExists_fst :
    (getAssetMetaDataIfExists name s).1 =
      ((s.reissuedData name).map fun asset => ⟨asset, none, 0⟩).or
        ((s.pendingAsset name (fun _ => none) (fun e => some e.data)).getD (s.storedData name)) := by
  have hstored := s.readAssetData_fst name
  simp only [getAssetMetaDataIfExists, reissuedData]
  cases (s.view.mapReissuedAssetData.find? name).or
      (s.passets.mapReissuedAssetData.find? name) with
  | some item => rfl
  | none =>
    simp only [map_none, none_or, pendingAsset, CAssetCacheNewAsset.data]
    split
    · next answer h => rw [h]; rfl
    · next h => rw [h]; exact hstored

/-- What the verifier cache and the database have under a name. -/
def storedVerifier : Option CNullAssetTxVerifierString :=
  (s.assetsVerifierCache.find? name).or
    ((s.restricteddb.verifiers.find? name).map fun item => ⟨item.2⟩)

/-- The answer of a verifier string that is removed: the old one if a reissue is undone. -/
def removedVerifier (e : CAssetCacheRestrictedVerifiers) : Option CNullAssetTxVerifierString :=
  if e.fUndoingRessiue then some ⟨e.verifier⟩ else none

theorem getAssetVerifierStringIfExists_fst :
    (getAssetVerifierStringIfExists name false s).1 =
      (pending (s.view.setNewRestrictedVerifierToRemove.find? name)
        (s.passets.setNewRestrictedVerifierToRemove.find? name)
        (s.view.setNewRestrictedVerifierToAdd.find? name)
        (s.passets.setNewRestrictedVerifierToAdd.find? name)
        removedVerifier (fun e => some ⟨e.verifier⟩)).getD (s.storedVerifier name) := by
  simp only [getAssetVerifierStringIfExists, unlessSkipped, Bool.false_eq_true, if_false]
  unfold removedVerifier
  split
  · next answer h => rw [h]; rfl
  · next h =>
    rw [h]
    simp only [Lru.get, storedVerifier, getD_none]
    cases s.assetsVerifierCache.find? name with
    | some verifier => rfl
    | none => cases s.restricteddb.verifiers.find? name <;> rfl

/-- Whether the restriction cache or the database has an address as frozen. -/
def storedRestriction (hashes : Hashes) (name address : Bytes) : Bool :=
  s.assetsRestrictionCache.exists? (addressKey hashes name address) ||
    s.restricteddb.restrictedAddresses.contains (address, name)

theorem checkForAddressRestriction_fst (hashes : Hashes) (name address : Bytes) (skip : Bool) :
    (checkForAddressRestriction hashes name address skip s).1 =
      (pending (unlessSkipped skip (s.view.setNewRestrictedAddressToRemove.find? (name, address)))
        (s.passets.setNewRestrictedAddressToRemove.find? (name, address))
        (unlessSkipped skip (s.view.setNewRestrictedAddressToAdd.find? (name, address)))
        (s.passets.setNewRestrictedAddressToAdd.find? (name, address))
        (fun e => decide (e.type = .unfreezeAddress))
        (fun e => decide (e.type = .freezeAddress))).getD
          (s.storedRestriction hashes name address) := by
  simp only [checkForAddressRestriction]
  split
  case h_1 answer hpending => rw [hpending]; rfl
  case h_2 hpending =>
    rw [hpending, getD_none, storedRestriction]
    cases hcache : s.assetsRestrictionCache.exists? (addressKey hashes name address) <;>
      cases hdb : s.restricteddb.restrictedAddresses.contains (address, name) <;> simp

/-- Whether the cache or the database has an asset as globally frozen. -/
def storedGlobalRestriction : Bool :=
  s.assetsGlobalRestrictionCache.exists? name || s.restricteddb.globalRestrictions.contains name

theorem checkForGlobalRestriction_fst (skip : Bool) :
    (checkForGlobalRestriction name skip s).1 =
      (pending (unlessSkipped skip (s.view.setNewRestrictedGlobalToRemove.find? name))
        (s.passets.setNewRestrictedGlobalToRemove.find? name)
        (unlessSkipped skip (s.view.setNewRestrictedGlobalToAdd.find? name))
        (s.passets.setNewRestrictedGlobalToAdd.find? name)
        (fun e => decide (e.type = .globalUnfreeze))
        (fun e => decide (e.type = .globalFreeze))).getD (s.storedGlobalRestriction name) := by
  simp only [checkForGlobalRestriction]
  split
  case h_1 answer hpending => rw [hpending]; rfl
  case h_2 hpending =>
    rw [hpending, getD_none, storedGlobalRestriction]
    cases hcache : s.assetsGlobalRestrictionCache.exists? name <;>
      cases hdb : s.restricteddb.globalRestrictions.contains name <;> simp

/-- With the asset index on, the best amount is that of the view, of `passets` or stored. -/
theorem getBestAssetAddressAmount_fst (name address : Bytes) :
    (getBestAssetAddressAmount name address s).1 =
      if s.fAssetIndex then
        ((s.view.mapAssetsAddressAmount.find? (name, address)).or
          ((s.passets.mapAssetsAddressAmount.find? (name, address)).or
            (s.assetsdb.assetAddressQuantity.find? (name, address)))).map Prod.snd
      else none := by
  unfold getBestAssetAddressAmount
  cases hindex : s.fAssetIndex
  case false => rfl
  simp only [if_true]
  cases s.view.mapAssetsAddressAmount.find? (name, address) with
  | some item => rfl
  | none =>
    rw [none_or]
    cases (s.passets.mapAssetsAddressAmount.find? (name, address)).or
      (s.assetsdb.assetAddressQuantity.find? (name, address)) <;> rfl

end Answers

end AssetState

end HnbCore
