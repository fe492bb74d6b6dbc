import HnbCore.CacheOps

/-!
# Flushing a view

`CAssetsCache::Flush` moves what a view has changed into `passets`. Assets, owners, reissues and
transfers keep an entry that `passets` has under the same key; tags, freezes, verifier strings,
amounts and reissued data are replaced.
-/

namespace HnbCore

open Overlay List KeyedSet

namespace CAssetsCache

section Layers

variable (v : CAssetsCache)

def newAssets : Layer (fun e : CAssetCacheNewAsset => e.asset.strName) :=
  ⟨v.setNewAssetsToAdd, v.setNewAssetsToRemove⟩

def owners : Layer CAssetCacheNewOwner.assetName :=
  ⟨v.setNewOwnerAssetsToAdd, v.setNewOwnerAssetsToRemove⟩

def reissues : Layer CAssetCacheReissueAsset.out :=
  ⟨v.setNewReissueToAdd, v.setNewReissueToRemove⟩

def transfers : Layer CAssetCacheNewTransfer.out :=
  ⟨v.setNewTransferAssetsToAdd, v.setNewTransferAssetsToRemove⟩

def qualifierAddresses : Layer (fun e : CAssetCacheQualifierAddress => (e.assetName, e.address)) :=
  ⟨v.setNewQualifierAddressToAdd, v.setNewQualifierAddressToRemove⟩

def restrictedAddresses :
    Layer (fun e : CAssetCacheRestrictedAddress => (e.assetName, e.address)) :=
  ⟨v.setNewRestrictedAddressToAdd, v.setNewRestrictedAddressToRemove⟩

def restrictedGlobals : Layer CAssetCacheRestrictedGlobal.assetName :=
  ⟨v.setNewRestrictedGlobalToAdd, v.setNewRestrictedGlobalToRemove⟩

def restrictedVerifiers : Layer CAssetCacheRestrictedVerifiers.assetName :=
  ⟨v.setNewRestrictedVerifierToAdd, v.setNewRestrictedVerifierToRemove⟩

end Layers

/-- `for asset in names: map[key].insert(asset)`. -/
def insertNames (m : RootQualifierMap) (key : Bytes × Bytes) (names : List Bytes) :
    RootQualifierMap :=
  names.foldl
    (fun m name => m.assign (key, (((m.find? key).map Prod.snd).getD .empty).insert name)) m

/-- The names of every root qualifier and address of `roots` go into the map. -/
def insertRoots (m roots : RootQualifierMap) : RootQualifierMap :=
  roots.items.foldl (fun m (item : (Bytes × Bytes) × KeyedSet (id : Bytes → Bytes)) =>
    insertNames m item.1 item.2.items) m

/-- `Flush`. The removed sub qualifiers go into the map of the added ones, as the source has it. -/
def flush (view passets : CAssetsCache) : CAssetsCache :=
  let newAssets := mergeKeeping view.newAssets passets.newAssets
  let owners := mergeKeeping view.owners passets.owners
  let reissues := mergeKeeping view.reissues passets.reissues
  let transfers := mergeKeeping view.transfers passets.transfers
  let qualifiers := mergeReplacing view.qualifierAddresses passets.qualifierAddresses
  let restricted := mergeReplacing view.restrictedAddresses passets.restrictedAddresses
  let globals := mergeReplacing view.restrictedGlobals passets.restrictedGlobals
  let verifiers := mergeReplacing view.restrictedVerifiers passets.restrictedVerifiers
  { mapAssetsAddressAmount :=
      view.mapAssetsAddressAmount.items.foldl assign passets.mapAssetsAddressAmount
    mapReissuedAssetData :=
      view.mapReissuedAssetData.items.foldl assign passets.mapReissuedAssetData
    vUndoAssetAmount := passets.vUndoAssetAmount ++ view.vUndoAssetAmount
    vSpentAssets := passets.vSpentAssets ++ view.vSpentAssets
    setNewAssetsToRemove := newAssets.toRemove
    setNewAssetsToAdd := newAssets.toAdd
    setNewReissueToRemove := reissues.toRemove
    setNewReissueToAdd := reissues.toAdd
    setNewOwnerAssetsToAdd := owners.toAdd
    setNewOwnerAssetsToRemove := owners.toRemove
    setNewTransferAssetsToAdd := transfers.toAdd
    setNewTransferAssetsToRemove := transfers.toRemove
    setNewQualifierAddressToAdd := qualifiers.toAdd
    setNewQualifierAddressToRemove := qualifiers.toRemove
    setNewRestrictedAddressToAdd := restricted.toAdd
    setNewRestrictedAddressToRemove := restricted.toRemove
    setNewRestrictedGlobalToAdd := globals.toAdd
    setNewRestrictedGlobalToRemove := globals.toRemove
    setNewRestrictedVerifierToAdd := verifiers.toAdd
    setNewRestrictedVerifierToRemove := verifiers.toRemove
    mapRootQualifierAddressesAdd :=
      insertRoots
        (insertRoots passets.mapRootQualifierAddressesAdd view.mapRootQualifierAddressesAdd)
        view.mapRootQualifierAddressesRemove
    mapRootQualifierAddressesRemove := passets.mapRootQualifierAddressesRemove }

end CAssetsCache

/-- The view is flushed and a fresh one takes its place. -/
def AssetState.flush (s : AssetState) : AssetState :=
  { s with view := .fresh, passets := s.view.flush s.passets }

namespace CAssetsCache

variable (view passets : CAssetsCache)

@[simp] theorem find?_flush_toAdd (name : Bytes) :
    (view.flush passets).setNewAssetsToAdd.find? name =
      if view.setNewAssetsToRemove.contains name then none
      else (passets.setNewAssetsToAdd.find? name).or (view.setNewAssetsToAdd.find? name) :=
  find?_toAdd_mergeKeeping view.newAssets passets.newAssets name

@[simp] theorem find?_flush_toRemove (name : Bytes) :
    (view.flush passets).setNewAssetsToRemove.find? name =
      (if view.setNewAssetsToAdd.contains name then none
        else passets.setNewAssetsToRemove.find? name).or (view.setNewAssetsToRemove.find? name) :=
  find?_toRemove_mergeKeeping view.newAssets passets.newAssets name

@[simp] theorem find?_flush_reissued (name : Bytes) :
    (view.flush passets).mapReissuedAssetData.find? name =
      (view.mapReissuedAssetData.find? name).or (passets.mapReissuedAssetData.find? name) :=
  find?_foldl_assign _ _ _

@[simp] theorem find?_flush_amount (key : Bytes × Bytes) :
    (view.flush passets).mapAssetsAddressAmount.find? key =
      (view.mapAssetsAddressAmount.find? key).or (passets.mapAssetsAddressAmount.find? key) :=
  find?_foldl_assign _ _ _

end CAssetsCache

namespace AssetState

open CAssetsCache

theorem hasRootQualifier_iff {m : RootQualifierMap} {name address : Bytes} :
    hasRootQualifier m name address = true ↔
      ∃ item ∈ m.items, item.1 = (name, address) ∧ item.2.size ≠ 0 := by
  unfold hasRootQualifier
  constructor
  · intro h
    cases hfind : m.find? (name, address) with
    | none => simp [hfind] at h
    | some item =>
      rw [hfind] at h
      exact ⟨item, mem_of_find? hfind, key_of_find? hfind, by simpa using h⟩
  · rintro ⟨item, hmem, hkey, hsize⟩
    rw [← hkey, find?_of_mem hmem]
    simpa using hsize

theorem hasRootQualifier_assign (m : RootQualifierMap) (key : Bytes × Bytes)
    (names : KeyedSet (id : Bytes → Bytes)) (name address : Bytes) :
    hasRootQualifier (m.assign (key, names)) name address =
      if key = (name, address) then decide (names.size ≠ 0)
      else hasRootQualifier m name address := by
  simp only [hasRootQualifier, find?_assign]
  by_cases hkey : key = (name, address) <;> simp [hkey]

theorem hasRootQualifier_insertNames (m : RootQualifierMap) (key : Bytes × Bytes)
    (names : List Bytes) (name address : Bytes) :
    hasRootQualifier (insertNames m key names) name address =
      (hasRootQualifier m name address || decide (key = (name, address) ∧ names.length ≠ 0)) := by
  induction names generalizing m with
  | nil => simp [insertNames]
  | cons n names ih =>
    rw [insertNames, foldl_cons, ← insertNames, ih, hasRootQualifier_assign]
    have hsize : ∀ s : KeyedSet (id : Bytes → Bytes), (s.insert n).size ≠ 0 :=
      fun s => size_insert_ne_zero s n
    by_cases hkey : key = (name, address) <;> simp [hkey, hsize]

/-- The map of root qualifiers that a flush leaves has what either of the two maps has. -/
theorem hasRootQualifier_insertRoots (m roots : RootQualifierMap) (name address : Bytes) :
    hasRootQualifier (insertRoots m roots) name address =
      (hasRootQualifier m name address || hasRootQualifier roots name address) := by
  have hfold : ∀ l : List ((Bytes × Bytes) × KeyedSet (id : Bytes → Bytes)), ∀ m,
      hasRootQualifier (l.foldl (fun m item => insertNames m item.1 item.2.items) m) name address =
        (hasRootQualifier m name address ||
          l.any fun item => decide (item.1 = (name, address) ∧ item.2.size ≠ 0)) := by
    intro l
    induction l with
    | nil => simp
    | cons item l ih =>
      intro m
      rw [foldl_cons, ih, hasRootQualifier_insertNames, any_cons, Bool.or_assoc]
      rfl
  have hroots : (roots.items.any fun item => decide (item.1 = (name, address) ∧ item.2.size ≠ 0)) =
      hasRootQualifier roots name address := by
    rw [Bool.eq_iff_iff, hasRootQualifier_iff, any_eq_true]
    simp only [decide_eq_true_eq]
  rw [insertRoots, hfold, hroots]

end AssetState

end HnbCore
