import HnbCore.LookupAnswers

/-!
# Lookups across a flush

A lookup asks the removals of `passets` before the additions of the view, but a flush lets the
additions of the view cancel those removals. So a flush can change what is found. Stated here is
exactly when it does not.
-/

namespace HnbCore

open Overlay AssetState Option

namespace AssetState

variable (s : AssetState) (hashes : Hashes) (name address : Bytes)

/-- Whether the qualifier cache or the database has a tag of an address. -/
def storedQualifier : Bool :=
  s.assetsQualifierCache.exists? (addressKey hashes name address) ||
    s.restricteddb.addressQualifiers.contains (address, name) ||
    s.restricteddb.checkForAddressRootQualifier address name

/-- Whether the sub qualifiers of `passets`, or those the view adds or removes, have a root. -/
def passetsRoot : Bool := hasRootQualifier s.passets.mapRootQualifierAddressesAdd name address
def viewRoot : Bool := hasRootQualifier s.view.mapRootQualifierAddressesAdd name address
def viewLostRoot : Bool := hasRootQualifier s.view.mapRootQualifierAddressesRemove name address

theorem checkForAddressQualifier_fst :
    (checkForAddressQualifier hashes name address false s).1 =
      (((s.view.setNewQualifierAddressToRemove.find? (name, address)).map fun e =>
          decide (e.type = .removeQualifier)).or
        (((s.passets.setNewQualifierAddressToRemove.find? (name, address)).map fun e =>
          decide (e.type = .removeQualifier)).or
        (((s.view.setNewQualifierAddressToAdd.find? (name, address)).map fun e =>
          decide (e.type = .addQualifier)).or
        ((s.passets.setNewQualifierAddressToAdd.find? (name, address)).map fun e =>
          decide (e.type = .addQualifier) || s.passetsRoot name address)))).getD
        (s.viewRoot name address || s.passetsRoot name address ||
          s.storedQualifier hashes name address) := by
  simp only [checkForAddressQualifier, unlessSkipped, Bool.false_eq_true, if_false, Bool.not_false,
    Bool.true_and, viewRoot, passetsRoot, storedQualifier]
  cases s.view.setNewQualifierAddressToRemove.find? (name, address)
  case some => rfl
  cases s.passets.setNewQualifierAddressToRemove.find? (name, address)
  case some => rfl
  cases s.view.setNewQualifierAddressToAdd.find? (name, address)
  case some => rfl
  cases s.passets.setNewQualifierAddressToAdd.find? (name, address)
  case some => rfl
  cases hview : hasRootQualifier s.view.mapRootQualifierAddressesAdd name address <;>
    cases hpassets : hasRootQualifier s.passets.mapRootQualifierAddressesAdd name address <;>
    cases hcache : s.assetsQualifierCache.exists? (addressKey hashes name address) <;>
    cases hdb : s.restricteddb.addressQualifiers.contains (address, name) <;> simp

/-- A flush adds the roots of both maps of the view to those of `passets`. -/
theorem passetsRoot_flush :
    s.flush.passetsRoot name address =
      (s.passetsRoot name address || s.viewRoot name address || s.viewLostRoot name address) := by
  simp only [passetsRoot, viewRoot, viewLostRoot, flush, CAssetsCache.flush,
    hasRootQualifier_insertRoots]

end AssetState

section Safe

variable (hashes : Hashes) (s : AssetState)

/-- What the tag of one address must look like for a flush to leave it. -/
@[mk_iff]
structure TagSafe (name address : Bytes) : Prop where
  added : ∀ e, s.view.qualifierAddresses.Adds (name, address) e →
    (decide (e.type = .addQualifier) || (s.passetsRoot name address || s.viewRoot name address ||
        s.viewLostRoot name address)) =
      ((s.passets.setNewQualifierAddressToRemove.find? (name, address)).map fun r =>
        decide (r.type = .removeQualifier)).getD (e.type = .addQualifier)
  kept : ∀ e, s.view.setNewQualifierAddressToRemove.find? (name, address) = none →
    s.view.setNewQualifierAddressToAdd.find? (name, address) = none →
    s.passets.setNewQualifierAddressToRemove.find? (name, address) = none →
    s.passets.setNewQualifierAddressToAdd.find? (name, address) = some e →
    s.viewRoot name address = true ∨ s.viewLostRoot name address = true →
    e.type = .addQualifier ∨ s.passetsRoot name address = true
  untouched : s.view.setNewQualifierAddressToRemove.find? (name, address) = none →
    s.view.setNewQualifierAddressToAdd.find? (name, address) = none →
    s.passets.setNewQualifierAddressToRemove.find? (name, address) = none →
    s.passets.setNewQualifierAddressToAdd.find? (name, address) = none →
    s.viewLostRoot name address = true →
    s.viewRoot name address = true ∨ s.passetsRoot name address = true ∨
      s.storedQualifier hashes name address = true

/-- The overlaps of the view and `passets` that a flush leaves the lookups unchanged with. -/
structure FlushSafe : Prop where
  existence : s.fReindex = false → ∀ name e, s.view.newAssets.Adds name e →
    s.passets.setNewAssetsToRemove.contains name = false
  metadata : ∀ name e, s.reissuedData name = none → s.view.newAssets.Adds name e →
    s.passets.setNewAssetsToRemove.contains name = false ∧
      ∀ e', s.passets.setNewAssetsToAdd.find? name = some e' → e'.data = e.data
  tag : ∀ name address, TagSafe hashes s name address
  freeze : ∀ key e r, s.view.restrictedAddresses.Adds key e →
    s.passets.setNewRestrictedAddressToRemove.find? key = some r →
    (e.type = .freezeAddress ↔ r.type = .unfreezeAddress)
  globalFreeze : ∀ name e r, s.view.restrictedGlobals.Adds name e →
    s.passets.setNewRestrictedGlobalToRemove.find? name = some r →
    (e.type = .globalFreeze ↔ r.type = .globalUnfreeze)
  verifier : ∀ name e r, s.view.restrictedVerifiers.Adds name e →
    s.passets.setNewRestrictedVerifierToRemove.find? name = some r →
    r.fUndoingRessiue = true ∧ r.verifier = e.verifier

end Safe

/-- Every lookup answers the same in both states. -/
structure SameAnswers (hashes : Hashes) (s t : AssetState) : Prop where
  existence : ∀ name fForceDuplicateCheck,
    (checkIfAssetExists name fForceDuplicateCheck t).1 =
      (checkIfAssetExists name fForceDuplicateCheck s).1
  metadata : ∀ name, (getAssetMetaDataIfExists name t).1 = (getAssetMetaDataIfExists name s).1
  tag : ∀ name address, (checkForAddressQualifier hashes name address false t).1 =
    (checkForAddressQualifier hashes name address false s).1
  freeze : ∀ name address, (checkForAddressRestriction hashes name address false t).1 =
    (checkForAddressRestriction hashes name address false s).1
  globalFreeze : ∀ name,
    (checkForGlobalRestriction name false t).1 = (checkForGlobalRestriction name false s).1
  verifier : ∀ name, (getAssetVerifierStringIfExists name false t).1 =
    (getAssetVerifierStringIfExists name false s).1
  amount : ∀ name address, (getBestAssetAddressAmount name address t).1 =
    (getBestAssetAddressAmount name address s).1

section Flush

variable (hashes : Hashes) (s : AssetState) (name address : Bytes)

@[simp] theorem storedData_flush : s.flush.storedData name = s.storedData name := rfl

@[simp] theorem reissuedData_flush : s.flush.reissuedData name = s.reissuedData name := by
  simp [AssetState.reissuedData, AssetState.flush, CAssetsCache.fresh]

/-- The pending changes of an asset after a flush are those of the merged layer. -/
theorem pendingAsset_flush {β : Type} (onRem onAdd : CAssetCacheNewAsset → β) :
    s.flush.pendingAsset name onRem onAdd =
      pending none ((mergeKeeping s.view.newAssets s.passets.newAssets).toRemove.find? name) none
        ((mergeKeeping s.view.newAssets s.passets.newAssets).toAdd.find? name) onRem onAdd := rfl

theorem existence_flush_iff (hreindex : s.fReindex = false) :
    (checkIfAssetExists name true s.flush).1 = (checkIfAssetExists name true s).1 ↔
      ∀ e, s.view.newAssets.Adds name e → s.passets.setNewAssetsToRemove.contains name = false := by
  rw [checkIfAssetExists_fst, checkIfAssetExists_fst, storedData_flush, pendingAsset_flush]
  simp only [show s.flush.fReindex = false from hreindex, hreindex, Bool.false_or]
  refine (pending_mergeKeeping_eq_iff s.view.newAssets s.passets.newAssets name (fun _ => true)
    false (s.storedData name).isSome).trans (forall₂_congr fun e _ => ?_)
  show _ = (if s.passets.setNewAssetsToRemove.contains name = true then _ else _) ↔ _
  cases s.passets.setNewAssetsToRemove.contains name <;> simp

theorem metadata_flush_iff :
    (getAssetMetaDataIfExists name s.flush).1 = (getAssetMetaDataIfExists name s).1 ↔
      ∀ e, s.reissuedData name = none → s.view.newAssets.Adds name e →
        s.passets.setNewAssetsToRemove.contains name = false ∧
          ∀ e', s.passets.setNewAssetsToAdd.find? name = some e' → e'.data = e.data := by
  rw [getAssetMetaDataIfExists_fst, getAssetMetaDataIfExists_fst, storedData_flush,
    reissuedData_flush, pendingAsset_flush]
  cases s.reissuedData name with
  | some asset => simp
  | none =>
    simp only [map_none, none_or, forall_const]
    refine (pending_mergeKeeping_eq_iff s.view.newAssets s.passets.newAssets name
      (fun e => some e.data) none (s.storedData name)).trans (forall₂_congr fun e _ => ?_)
    show some ((s.passets.setNewAssetsToAdd.find? name).getD e).data =
      (if s.passets.setNewAssetsToRemove.contains name = true then _ else _) ↔ _
    cases s.passets.setNewAssetsToRemove.contains name <;>
      cases s.passets.setNewAssetsToAdd.find? name <;> simp

theorem tag_flush_fst :
    (checkForAddressQualifier hashes name address false s.flush).1 =
      ((((mergeReplacing s.view.qualifierAddresses s.passets.qualifierAddresses).toRemove.find?
          (name, address)).map fun e => decide (e.type = .removeQualifier)).or
        (((mergeReplacing s.view.qualifierAddresses s.passets.qualifierAddresses).toAdd.find?
          (name, address)).map fun e =>
            decide (e.type = .addQualifier) || s.flush.passetsRoot name address)).getD
        (s.flush.passetsRoot name address || s.storedQualifier hashes name address) := by
  rw [checkForAddressQualifier_fst]
  rfl

theorem tag_flush_iff :
    (checkForAddressQualifier hashes name address false s.flush).1 =
      (checkForAddressQualifier hashes name address false s).1 ↔ TagSafe hashes s name address := by
  rw [tag_flush_fst, checkForAddressQualifier_fst, passetsRoot_flush, find?_toRemove_mergeReplacing,
    find?_toAdd_mergeReplacing, tagSafe_iff]
  simp only [Layer.Adds, CAssetsCache.qualifierAddresses]
  rcases (s.view.setNewQualifierAddressToRemove.find? (name, address)).eq_none_or_eq_some
    with hvRem | ⟨_, hvRem⟩
  case inr => simp [hvRem]
  rcases (s.view.setNewQualifierAddressToAdd.find? (name, address)).eq_none_or_eq_some
    with hvAdd | ⟨e, hvAdd⟩
  case inr =>
    rcases (s.passets.setNewQualifierAddressToRemove.find? (name, address)).eq_none_or_eq_some
      with hpRem | ⟨_, hpRem⟩ <;>
    simp [hvRem, hvAdd, hpRem, KeyedSet.contains]
  rcases (s.passets.setNewQualifierAddressToRemove.find? (name, address)).eq_none_or_eq_some
    with hpRem | ⟨_, hpRem⟩
  case inr => simp [hvRem, hvAdd, hpRem, KeyedSet.contains]
  -- nothing pending but an addition of `passets`, if any: the roots decide
  rcases (s.passets.setNewQualifierAddressToAdd.find? (name, address)).eq_none_or_eq_some
    with hpAdd | ⟨e, hpAdd⟩ <;>
  simp only [hvRem, hvAdd, hpRem, hpAdd, KeyedSet.contains, isSome_none, or_none,
    none_or, map_none, map_some, getD_none, getD_some,
    Bool.false_eq_true, if_false, reduceCtorEq, and_false, IsEmpty.forall_iff, implies_true,
    some.injEq, forall_eq', forall_const, true_and, and_true] <;>
  cases s.passetsRoot name address <;> cases s.viewRoot name address <;>
    cases s.viewLostRoot name address <;> simp

theorem freeze_flush_iff :
    (checkForAddressRestriction hashes name address false s.flush).1 =
      (checkForAddressRestriction hashes name address false s).1 ↔
    ∀ e r, s.view.restrictedAddresses.Adds (name, address) e →
      s.passets.setNewRestrictedAddressToRemove.find? (name, address) = some r →
      (e.type = .freezeAddress ↔ r.type = .unfreezeAddress) := by
  rw [checkForAddressRestriction_fst, checkForAddressRestriction_fst]
  refine (pending_mergeReplacing_eq_iff s.view.restrictedAddresses s.passets.restrictedAddresses
    (name, address) _ _ _).trans ?_
  simp only [decide_eq_decide]
  rfl

theorem globalFreeze_flush_iff :
    (checkForGlobalRestriction name false s.flush).1 = (checkForGlobalRestriction name false s).1 ↔
    ∀ e r, s.view.restrictedGlobals.Adds name e →
      s.passets.setNewRestrictedGlobalToRemove.find? name = some r →
      (e.type = .globalFreeze ↔ r.type = .globalUnfreeze) := by
  rw [checkForGlobalRestriction_fst, checkForGlobalRestriction_fst]
  refine (pending_mergeReplacing_eq_iff s.view.restrictedGlobals s.passets.restrictedGlobals
    name _ _ _).trans ?_
  simp only [decide_eq_decide]
  rfl

theorem verifier_flush_iff :
    (getAssetVerifierStringIfExists name false s.flush).1 =
      (getAssetVerifierStringIfExists name false s).1 ↔
    ∀ e r, s.view.restrictedVerifiers.Adds name e →
      s.passets.setNewRestrictedVerifierToRemove.find? name = some r →
      r.fUndoingRessiue = true ∧ r.verifier = e.verifier := by
  rw [getAssetVerifierStringIfExists_fst, getAssetVerifierStringIfExists_fst]
  refine (pending_mergeReplacing_eq_iff s.view.restrictedVerifiers s.passets.restrictedVerifiers
    name _ _ _).trans (forall₂_congr fun e r => imp_congr_right fun _ => imp_congr_right fun _ => ?_)
  unfold removedVerifier
  cases r.fUndoingRessiue <;> simp [eq_comm]

theorem amount_flush :
    (getBestAssetAddressAmount name address s.flush).1 =
      (getBestAssetAddressAmount name address s).1 := by
  simp [getBestAssetAddressAmount_fst, AssetState.flush, CAssetsCache.fresh, Option.or_assoc]

end Flush

/-- The lookups through a fresh view after a flush answer what they answered through the view just
before it exactly when no change of the view meets one of `passets` that it overturns. -/
theorem flush_sameAnswers_iff (hashes : Hashes) (s : AssetState) :
    SameAnswers hashes s s.flush ↔ FlushSafe hashes s := by
  constructor
  · intro h
    exact {
      existence := fun hreindex name =>
        (existence_flush_iff s name hreindex).mp (h.existence name true)
      metadata := fun name => (metadata_flush_iff s name).mp (h.metadata name)
      tag := fun name address => (tag_flush_iff hashes s name address).mp (h.tag name address)
      freeze := fun key => (freeze_flush_iff hashes s key.1 key.2).mp (h.freeze key.1 key.2)
      globalFreeze := fun name => (globalFreeze_flush_iff s name).mp (h.globalFreeze name)
      verifier := fun name => (verifier_flush_iff s name).mp (h.verifier name) }
  · intro h
    refine {
      existence := fun name fForceDuplicateCheck => ?_
      metadata := fun name => (metadata_flush_iff s name).mpr (h.metadata name)
      tag := fun name address => (tag_flush_iff hashes s name address).mpr (h.tag name address)
      freeze := fun name address =>
        (freeze_flush_iff hashes s name address).mpr (h.freeze (name, address))
      globalFreeze := fun name => (globalFreeze_flush_iff s name).mpr (h.globalFreeze name)
      verifier := fun name => (verifier_flush_iff s name).mpr (h.verifier name)
      amount := amount_flush s }
    cases fForceDuplicateCheck with
    | false =>
      rw [checkIfAssetExists_unforced_fst, checkIfAssetExists_unforced_fst]
      rfl
    | true =>
      cases hreindex : s.fReindex with
      | false => exact (existence_flush_iff s name hreindex).mpr (h.existence hreindex name)
      | true =>
        rw [checkIfAssetExists_fst, checkIfAssetExists_fst, hreindex,
          show s.flush.fReindex = true from hreindex]
        rfl

def silverAsset : CNewAsset := ⟨str "SILVER", 1000, 8, 1, 0, []⟩

/-- Disconnecting a block took the issue of silver and a freeze back, and was flushed. -/
def silverUndone : AssetState :=
  let s : AssetState := { assetsdb.assetData := KeyedSet.empty.insert ⟨silverAsset, some 1, 1⟩ }
  let s := (removeNewAsset silverAsset (str "holder") s).2
  let view := s.view.removeRestrictedAddress (str "$SILVER") (str "holder") .freezeAddress
  { s with view := view }.flush

/-- A view on the new branch issues and freezes again, and takes the tag of a sub qualifier. -/
def silverAgain : AssetState :=
  let s := (addNewAsset silverAsset (str "holder") 2 2 silverUndone).2
  let view := s.view.addRestrictedAddress (str "$SILVER") (str "holder") .freezeAddress
  { s with view := view.addQualifierAddress (str "#KYC/#US") (str "holder") .removeQualifier }

/-- The flush makes the asset exist, freezes the address and gives it the root qualifier. -/
theorem silverAgain_flush_differs :
    (checkIfAssetExists (str "SILVER") true silverAgain).1 = false ∧
      (checkIfAssetExists (str "SILVER") true silverAgain.flush).1 = true ∧
      (checkForAddressRestriction (tableHashes [] []) (str "$SILVER") (str "holder") false
        silverAgain).1 = false ∧
      (checkForAddressRestriction (tableHashes [] []) (str "$SILVER") (str "holder") false
        silverAgain.flush).1 = true ∧
      (checkForAddressQualifier (tableHashes [] []) (str "#KYC") (str "holder") false
        silverAgain).1 = false ∧
      (checkForAddressQualifier (tableHashes [] []) (str "#KYC") (str "holder") false
        silverAgain.flush).1 = true := by
  decide +kernel

end HnbCore
