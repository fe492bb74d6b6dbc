import HnbCore.Lib.Flags
import HnbCore.MarkEvents

/-!
# What is marked

A tag, a freeze or a global freeze is a flag: the database stores it, and `passets` and the view
hold its pending change. Marks are the changes of the flag.
-/

namespace HnbCore

open AssetState Overlay List Option FlagLayer

/-- The pending change of a flag in a cache. -/
def CAssetsCache.layerAt (v : CAssetsCache) : MarkTarget → FlagLayer
  | .tag name address =>
      ⟨(v.setNewQualifierAddressToAdd.find? (name, address)).map
          fun e => decide (e.type = .addQualifier),
        (v.setNewQualifierAddressToRemove.find? (name, address)).map
          fun e => !decide (e.type = .removeQualifier)⟩
  | .freeze name address =>
      ⟨(v.setNewRestrictedAddressToAdd.find? (name, address)).map
          fun e => decide (e.type = .freezeAddress),
        (v.setNewRestrictedAddressToRemove.find? (name, address)).map
          fun e => !decide (e.type = .unfreezeAddress)⟩
  | .freezeAll name =>
      ⟨(v.setNewRestrictedGlobalToAdd.find? name).map fun e => decide (e.type = .globalFreeze),
        (v.setNewRestrictedGlobalToRemove.find? name).map
          fun e => !decide (e.type = .globalUnfreeze)⟩

/-- Whether the database stores a flag as set. -/
def CRestrictedDB.marked (db : CRestrictedDB) : MarkTarget → Bool
  | .tag name address => db.addressQualifiers.contains (address, name)
  | .freeze name address => db.restrictedAddresses.contains (address, name)
  | .freezeAll name => db.globalRestrictions.contains name

/-- A flag as `passets` and the database have it. -/
def AssetState.markedBelow (s : AssetState) (target : MarkTarget) : Bool :=
  (s.passets.layerAt target).answer.getD (s.restricteddb.marked target)

namespace CAssetsCache

@[simp] theorem layerAt_fresh (target : MarkTarget) : fresh.layerAt target = {} := by
  cases target <;> rfl

variable (v : CAssetsCache)

/-- Only the marking of a cache tells its flags. -/
@[simp] theorem layerAt_marking (target : MarkTarget) :
    v.marking.layerAt target = v.layerAt target := by
  cases target <;> rfl

theorem layerAt_changeRoots (given : Bool) (name address : Bytes)
    (target : MarkTarget) : (v.changeRoots given name address).layerAt target = v.layerAt target := by
  unfold changeRoots
  split_ifs <;> cases target <;> rfl

theorem layerAt_change (m : Mark) (target : MarkTarget) :
    (v.mark m).layerAt target =
        (if m.target = target then (v.layerAt target).make m.sets else v.layerAt target) ∧
      (v.unmark m).layerAt target =
        if m.target = target then (v.layerAt target).undo m.sets else v.layerAt target := by
  obtain ⟨marked, sets⟩ := m
  cases marked with
  | tag name address =>
    have hroots := fun given => layerAt_changeRoots v given name address target
    rw [← hroots (decide (tagType sets = .addQualifier))]
    cases target with
    | tag name' address' =>
      constructor
      · refine (ofLayer_make (v.changeRoots _ name address).qualifierAddresses
          ⟨name, address, tagType sets⟩ (name', address') _ _).trans ?_
        cases sets <;> simp [tagType] <;> rfl
      · rw [hroots, ← hroots (decide (tagType sets = .removeQualifier))]
        refine (ofLayer_undo (v.changeRoots _ name address).qualifierAddresses
          ⟨name, address, tagType sets⟩ (name', address') _ _).trans ?_
        cases sets <;> simp [tagType] <;> rfl
    | freeze | freezeAll => exact ⟨rfl, (hroots _).trans (hroots _).symm⟩
  | freeze name address =>
    cases target with
    | freeze name' address' =>
      let freeze : CAssetCacheRestrictedAddress := ⟨name, address, freezeType sets⟩
      refine ⟨(ofLayer_make v.restrictedAddresses freeze (name', address') _ _).trans ?_,
        (ofLayer_undo v.restrictedAddresses freeze (name', address') _ _).trans ?_⟩ <;>
        cases sets <;> simp [freeze, freezeType] <;> rfl
    | tag | freezeAll => exact ⟨rfl, rfl⟩
  | freezeAll name =>
    cases target with
    | freezeAll name' =>
      refine ⟨(ofLayer_make v.restrictedGlobals ⟨name, globalType sets⟩ name' _ _).trans ?_,
        (ofLayer_undo v.restrictedGlobals ⟨name, globalType sets⟩ name' _ _).trans ?_⟩ <;>
        cases sets <;> simp [globalType] <;> rfl
    | tag | freeze => exact ⟨rfl, rfl⟩

end CAssetsCache

/-- The changes that marks make to one flag. -/
def changesOf (target : MarkTarget) (marks : List Mark) : List Bool :=
  marks.filterMap fun m => if m.target = target then some m.sets else none

theorem mem_changesOf {target : MarkTarget} {marks : List Mark} {b : Bool} :
    b ∈ changesOf target marks ↔ ⟨target, b⟩ ∈ marks := by
  simp only [changesOf, mem_filterMap, ite_none_right_eq_some, some.injEq]
  constructor
  · rintro ⟨⟨_, _⟩, hmem, rfl, rfl⟩
    exact hmem
  · intro hmem
    exact ⟨_, hmem, rfl, rfl⟩

namespace CAssetsCache

theorem layerAt_markAll (v : CAssetsCache) (marks : List Mark) (target : MarkTarget) :
    (v.markAll marks).layerAt target =
      (changesOf target marks).foldl make (v.layerAt target) := by
  induction marks generalizing v with
  | nil => rfl
  | cons m marks ih =>
    rw [markAll, foldl_cons, ← markAll, ih, (layerAt_change v _ _).1]
    by_cases htarget : m.target = target <;> simp [htarget, changesOf]

theorem layerAt_unmarkAll (v : CAssetsCache) (marks : List Mark) (target : MarkTarget) :
    (v.unmarkAll marks).layerAt target =
      (changesOf target marks).foldl undo (v.layerAt target) := by
  induction marks generalizing v with
  | nil => rfl
  | cons m marks ih =>
    rw [unmarkAll, foldl_cons, ← unmarkAll, ih, (layerAt_change v _ _).2]
    by_cases htarget : m.target = target <;> simp [htarget, changesOf]

theorem layerAt_flush (view passets : CAssetsCache) (target : MarkTarget) :
    (view.flush passets).layerAt target = (view.layerAt target).merge (passets.layerAt target) := by
  cases target with
  | tag name address =>
    exact ofLayer_mergeReplacing view.qualifierAddresses passets.qualifierAddresses
      (name, address) _ _
  | freeze name address =>
    exact ofLayer_mergeReplacing view.restrictedAddresses passets.restrictedAddresses
      (name, address) _ _
  | freezeAll name =>
    exact ofLayer_mergeReplacing view.restrictedGlobals passets.restrictedGlobals name _ _

end CAssetsCache

/-- No other pair in a set of the database has the cache key of this one. -/
def KeyApart (hashes : Hashes) (pairs : AddressSet) (name address : Bytes) : Prop :=
  ∀ name' address', pairs.contains (address', name') = true →
    addressKey hashes name' address' = addressKey hashes name address →
    name' = name ∧ address' = address

/-- A cache that is backed says no more than the database. -/
theorem backed_or_contains {hashes : Hashes} {pairs : AddressSet} {cache : Lru Bytes Unit}
    {name address : Bytes} (hbacked : cache.Backed (IsKeyOf hashes pairs))
    (hkey : KeyApart hashes pairs name address) :
    (cache.exists? (addressKey hashes name address) || pairs.contains (address, name)) =
      pairs.contains (address, name) := by
  cases hcache : cache.exists? (addressKey hashes name address) with
  | false => rfl
  | true =>
    obtain ⟨name', address', hmem, heq⟩ := hbacked _ hcache
    obtain ⟨rfl, rfl⟩ := hkey name' address' hmem heq
    simp [hmem]

section Lookups

variable {hashes : Hashes} {s : AssetState} {name address : Bytes}

theorem restriction_eq_markedBelow (hbacked : s.FreezesBacked hashes)
    (hkey : KeyApart hashes s.restricteddb.restrictedAddresses name address) :
    (checkForAddressRestriction hashes name address true s).1 =
      s.markedBelow (.freeze name address) := by
  rw [checkForAddressRestriction_fst, storedRestriction, backed_or_contains hbacked hkey]
  simp [unlessSkipped, pending, markedBelow, CAssetsCache.layerAt, answer, CRestrictedDB.marked,
    Function.comp_def]

theorem global_eq_markedBelow (hbacked : s.GlobalsBacked) :
    (checkForGlobalRestriction name true s).1 = s.markedBelow (.freezeAll name) := by
  have hstored : s.storedGlobalRestriction name = s.restricteddb.marked (.freezeAll name) := by
    rw [storedGlobalRestriction, CRestrictedDB.marked]
    cases hcache : s.assetsGlobalRestrictionCache.exists? name with
    | false => rfl
    | true => simp [hbacked name hcache]
  rw [checkForGlobalRestriction_fst, hstored]
  simp [unlessSkipped, pending, markedBelow, CAssetsCache.layerAt, answer, Function.comp_def]

/-- On a fresh view it does not matter whether the view is skipped. -/
theorem restriction_fresh (hview : s.view = .fresh) :
    (checkForAddressRestriction hashes name address false s).1 =
      (checkForAddressRestriction hashes name address true s).1 := by
  rw [checkForAddressRestriction_fst, checkForAddressRestriction_fst, hview]
  rfl

theorem global_fresh (hview : s.view = .fresh) :
    (checkForGlobalRestriction name false s).1 = (checkForGlobalRestriction name true s).1 := by
  rw [checkForGlobalRestriction_fst, checkForGlobalRestriction_fst, hview]
  rfl

theorem AssetState.SameGround.markedBelow {t : AssetState} (h : SameGround hashes s t)
    (target : MarkTarget) :
    t.markedBelow target = s.markedBelow target := by
  rw [AssetState.markedBelow, h.passets, h.restricteddb, ← AssetState.markedBelow]

end Lookups

end HnbCore
