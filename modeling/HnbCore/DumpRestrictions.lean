import HnbCore.DumpRetry
import HnbCore.MarkState

/-!
# What a dump stores of the restrictions

A dump writes the pending change of every flag into the database, as the last of its writes at the
key of the flag.
-/

namespace HnbCore

open AssetState List Option KeyedSet CAssetsCache MarkTarget

/-- Every entry is of one of the two types that its set is for, and about a flag with a property. -/
structure CAssetsCache.Typed (P : MarkTarget → Prop) (v : CAssetsCache) : Prop where
  tagged : ∀ e ∈ v.setNewQualifierAddressToAdd.items, P (.tag e.assetName e.address)
  untagged : ∀ e ∈ v.setNewQualifierAddressToRemove.items, P (.tag e.assetName e.address)
  frozen : ∀ e ∈ v.setNewRestrictedAddressToAdd.items,
    P (.freeze e.assetName e.address) ∧ ∃ sets, e.type = freezeType sets
  unfrozen : ∀ e ∈ v.setNewRestrictedAddressToRemove.items,
    P (.freeze e.assetName e.address) ∧ ∃ sets, e.type = freezeType sets
  globals : ∀ e ∈ v.setNewRestrictedGlobalToAdd.items,
    P (.freezeAll e.assetName) ∧ ∃ sets, e.type = globalType sets
  lifted : ∀ e ∈ v.setNewRestrictedGlobalToRemove.items,
    P (.freezeAll e.assetName) ∧ ∃ sets, e.type = globalType sets

namespace CAssetsCache.Typed

variable {P : MarkTarget → Prop} {v w : CAssetsCache}

theorem fresh : CAssetsCache.fresh.Typed P := by
  constructor <;> exact fun e he => absurd he not_mem_nil

theorem of_marking (h : v.marking = w.marking) (hw : w.Typed P) : v.Typed P where
  tagged := (congrArg setNewQualifierAddressToAdd h :) ▸ hw.tagged
  untagged := (congrArg setNewQualifierAddressToRemove h :) ▸ hw.untagged
  frozen := (congrArg setNewRestrictedAddressToAdd h :) ▸ hw.frozen
  unfrozen := (congrArg setNewRestrictedAddressToRemove h :) ▸ hw.unfrozen
  globals := (congrArg setNewRestrictedGlobalToAdd h :) ▸ hw.globals
  lifted := (congrArg setNewRestrictedGlobalToRemove h :) ▸ hw.lifted

theorem changeRoots (h : v.Typed P) (given : Bool) (name address : Bytes) :
    (v.changeRoots given name address).Typed P := by
  unfold CAssetsCache.changeRoots
  split_ifs <;> exact { h with }

theorem mem_assign_erase {α κ : Type} {key : α → κ} [DecidableEq κ] {Q : α → Prop}
    {into other : KeyedSet key} (hinto : ∀ e ∈ into.items, Q e) (hother : ∀ e ∈ other.items, Q e)
    {a : α} (ha : Q a) (k : κ) :
    (∀ e ∈ (into.assign a).items, Q e) ∧ ∀ e ∈ (other.erase k).items, Q e := by
  refine ⟨fun e he => ?_, fun e he => hother e (mem_of_mem_filter he)⟩
  rcases mem_assign he with rfl | hold
  · exact ha
  · exact hinto e hold

variable {m : Mark} {marks : List Mark}

theorem mark (h : v.Typed P) (hm : P m.target) : (v.mark m).Typed P := by
  obtain ⟨target, sets⟩ := m
  cases target with
  | tag name address =>
    have hroots := h.changeRoots (decide (tagType sets = .addQualifier)) name address
    have hsets := mem_assign_erase hroots.tagged hroots.untagged
      (a := ⟨name, address, tagType sets⟩) hm (name, address)
    exact { hroots with tagged := hsets.1, untagged := hsets.2 }
  | freeze name address =>
    have hsets := mem_assign_erase h.frozen h.unfrozen
      (a := ⟨name, address, freezeType sets⟩) ⟨hm, sets, rfl⟩ (name, address)
    exact { h with frozen := hsets.1, unfrozen := hsets.2 }
  | freezeAll name =>
    have hsets := mem_assign_erase h.globals h.lifted
      (a := ⟨name, globalType sets⟩) ⟨hm, sets, rfl⟩ name
    exact { h with globals := hsets.1, lifted := hsets.2 }

theorem unmark (h : v.Typed P) (hm : P m.target) : (v.unmark m).Typed P := by
  obtain ⟨target, sets⟩ := m
  cases target with
  | tag name address =>
    have hroots := h.changeRoots (decide (tagType sets = .removeQualifier)) name address
    have hsets := mem_assign_erase hroots.untagged hroots.tagged
      (a := ⟨name, address, tagType sets⟩) hm (name, address)
    exact { hroots with tagged := hsets.2, untagged := hsets.1 }
  | freeze name address =>
    have hsets := mem_assign_erase h.unfrozen h.frozen
      (a := ⟨name, address, freezeType sets⟩) ⟨hm, sets, rfl⟩ (name, address)
    exact { h with frozen := hsets.2, unfrozen := hsets.1 }
  | freezeAll name =>
    have hsets := mem_assign_erase h.lifted h.globals
      (a := ⟨name, globalType sets⟩) ⟨hm, sets, rfl⟩ name
    exact { h with globals := hsets.2, lifted := hsets.1 }

theorem markAll (h : v.Typed P) (hm : ∀ m ∈ marks, P m.target) :
    (v.markAll marks).Typed P :=
  List.foldlRecOn marks CAssetsCache.mark h fun _ hv m hmem => hv.mark (hm m hmem)

theorem unmarkAll (h : v.Typed P) (hm : ∀ m ∈ marks, P m.target) :
    (v.unmarkAll marks).Typed P :=
  List.foldlRecOn marks CAssetsCache.unmark h fun _ hv m hmem => hv.unmark (hm m hmem)

/-- What two sets answer at a key comes from an entry with that key. -/
theorem of_layer_answer {α κ : Type} {key : α → κ} [DecidableEq κ] {made undone : KeyedSet key}
    {f g : α → Bool} {k : κ} {R : κ → Prop} (hmade : ∀ e ∈ made.items, R (key e))
    (hundone : ∀ e ∈ undone.items, R (key e))
    (h : FlagLayer.answer ⟨(made.find? k).map f, (undone.find? k).map g⟩ ≠ none) : R k := by
  cases hrem : undone.find? k with
  | some e => exact of_find? hrem hundone
  | none =>
    cases hadd : made.find? k with
    | some e => exact of_find? hadd hmade
    | none => simp [FlagLayer.answer, hrem, hadd] at h

theorem of_answer (h : v.Typed P) {target : MarkTarget} (hanswer : (v.layerAt target).answer ≠ none) :
    P target := by
  cases target with
  | tag name address =>
    exact of_layer_answer (R := fun k => P (.tag k.1 k.2)) h.tagged h.untagged hanswer
  | freeze name address =>
    exact of_layer_answer (R := fun k => P (.freeze k.1 k.2)) (fun e he => (h.frozen e he).1)
      (fun e he => (h.unfrozen e he).1) hanswer
  | freezeAll name =>
    exact of_layer_answer (R := fun k => P (.freezeAll k)) (fun e he => (h.globals e he).1)
      (fun e he => (h.lifted e he).1) hanswer

end CAssetsCache.Typed

/-- What a merge puts into the shared layer was in one of the two layers. -/
theorem mem_mergeReplacing {α κ : Type} {key : α → κ} [DecidableEq κ]
    (view shared : Overlay.Layer key) {P : α → Prop}
    (hview : (∀ e ∈ view.toAdd.items, P e) ∧ ∀ e ∈ view.toRemove.items, P e)
    (hshared : (∀ e ∈ shared.toAdd.items, P e) ∧ ∀ e ∈ shared.toRemove.items, P e) :
    (∀ e ∈ (Overlay.mergeReplacing view shared).toAdd.items, P e) ∧
      ∀ e ∈ (Overlay.mergeReplacing view shared).toRemove.items, P e := by
  constructor
  · intro e he
    have hfind := find?_of_mem he
    rw [Overlay.find?_toAdd_mergeReplacing, ite_none_left_eq_some, or_eq_some_iff]
      at hfind
    rcases hfind.2 with hfound | ⟨-, hfound⟩
    · exact hview.1 e (mem_of_find? hfound)
    · exact hshared.1 e (mem_of_find? hfound)
  · intro e he
    have hfind := find?_of_mem he
    rw [Overlay.find?_toRemove_mergeReplacing, or_eq_some_iff,
      ite_none_left_eq_some] at hfind
    rcases hfind with hfound | ⟨-, -, hfound⟩
    · exact hview.2 e (mem_of_find? hfound)
    · exact hshared.2 e (mem_of_find? hfound)

theorem CAssetsCache.Typed.flush {P : MarkTarget → Prop} {view passets : CAssetsCache}
    (hview : view.Typed P) (hpassets : passets.Typed P) : (view.flush passets).Typed P := by
  have htags := mem_mergeReplacing view.qualifierAddresses passets.qualifierAddresses
    ⟨hview.tagged, hview.untagged⟩ ⟨hpassets.tagged, hpassets.untagged⟩
  have hfreezes := mem_mergeReplacing view.restrictedAddresses passets.restrictedAddresses
    ⟨hview.frozen, hview.unfrozen⟩ ⟨hpassets.frozen, hpassets.unfrozen⟩
  have hglobals := mem_mergeReplacing view.restrictedGlobals passets.restrictedGlobals
    ⟨hview.globals, hview.lifted⟩ ⟨hpassets.globals, hpassets.lifted⟩
  exact ⟨htags.1, htags.2, hfreezes.1, hfreezes.2, hglobals.1, hglobals.2⟩

/-- What the database has stored is about flags with the property. -/
def CRestrictedDB.Within (P : MarkTarget → Prop) (db : CRestrictedDB) : Prop :=
  ∀ target, db.marked target = true → P target

/-- The key that a flag is stored under. -/
def MarkTarget.key : MarkTarget → DumpKey
  | .tag name address => .addressQualifier address name
  | .freeze name address => .restrictedAddress address name
  | .freezeAll name => .globalRestriction name

namespace DumpBatch

/-- What the writes do last to a flag. -/
def change (target : MarkTarget) (batch : DumpBatch) : Option Bool :=
  (Batch.last batch target.key).map Option.isSome

section Change

variable {α κ : Type} {target : MarkTarget} {name address : Bytes} {p : CAssetsCache}
  {fAssetIndex : Bool}

@[simp] theorem change_nil : change target [] = none := rfl

@[simp] theorem change_cons (k : DumpKey) (v : Option DumpValue) (batch : DumpBatch) :
    change target ((k, v) :: batch) =
      (change target batch).or (if k = target.key then some v.isSome else none) := by
  simp only [change, Batch.last, map_or]
  split <;> rfl

theorem change_append (first second : DumpBatch) :
    change target (first ++ second) = (change target second).or (change target first) := by
  rw [change, Batch.last_append, map_or]
  rfl

theorem change_flatMap {groupsOf : α → List DumpBatch}
    (h : ∀ e, change target (groupsOf e).flatten = none) (l : List α) :
    change target (l.flatMap groupsOf).flatten = none := by
  induction l with
  | nil => rfl
  | cons e l ih => simp [change_append, ih, h]

theorem change_map {batchOf : α → DumpBatch} (h : ∀ e, change target (batchOf e) = none)
    (l : List α) : change target (l.map batchOf).flatten = none := by
  induction l with
  | nil => rfl
  | cons e l ih => simp [change_append, ih, h]

/-- The entries of a set change the flag of their own key. -/
theorem change_items {key : α → κ} [DecidableEq κ] (set : KeyedSet key)
    {groupsOf : α → List DumpBatch} {value : α → Bool} (k : κ)
    (hhit : ∀ e ∈ set.items, key e = k → change target (groupsOf e).flatten = some (value e))
    (hmiss : ∀ e, key e ≠ k → change target (groupsOf e).flatten = none) :
    change target (set.items.flatMap groupsOf).flatten = (set.find? k).map value := by
  have hfold : ∀ (l : List α) b, (change target (l.flatMap groupsOf).flatten).or b =
      l.foldl (fun b e => (change target (groupsOf e).flatten).or b) b := by
    intro l
    induction l with
    | nil => exact fun _ => rfl
    | cons e l ih =>
      intro b
      rw [flatMap_cons, flatten_append, change_append, Option.or_assoc, ih]
      rfl
  rw [← or_none (o := change target _), hfold,
    foldl_items_at set none (fun b => b) k
      (fun e b => (change target (groupsOf e).flatten).or b) (fun _ _ _ => rfl)
      fun b e hne => by rw [hmiss e hne]; rfl]
  cases hfind : set.find? k with
  | none => rfl
  | some e => simp [hhit e (mem_of_find? hfind) (key_of_find? hfind)]

@[simp] theorem change_eraseQuantity : change target (eraseQuantity name address) = none := by
  cases target <;> simp [eraseQuantity, key]

@[simp] theorem change_writeQuantity (amount : CAmount) :
    change target (writeQuantity name address amount) = none := by
  cases target <;> simp [writeQuantity, key]

@[simp] theorem change_writeAmount : change target (writeAmount p name address) = none := by
  unfold writeAmount
  split <;> simp

@[simp] theorem change_writeOrEraseAmount :
    change target (writeOrEraseAmount p name address) = none := by
  unfold writeOrEraseAmount
  split
  · split <;> simp
  · rfl

@[simp] theorem change_writePositiveAmount :
    change target (writePositiveAmount p name address) = none := by
  unfold writePositiveAmount
  split
  · split <;> simp
  · rfl

@[simp] theorem change_indexed (batch : DumpBatch) :
    change target (indexed fAssetIndex batch) =
      if fAssetIndex then change target batch else none := by
  cases fAssetIndex <;> rfl

/-- Only the restrictions among the writes change flags. -/
theorem change_dumpGroups :
    change target (dumpGroups fAssetIndex p).flatten =
      change target (restrictions fAssetIndex p).flatten := by
  have hremoved : ∀ e, change target (removedAsset fAssetIndex e).flatten = none := fun e => by
    cases target <;> simp [removedAsset, key]
  have hnew : ∀ e, change target (newAsset fAssetIndex e).flatten = none := fun e => by
    cases target <;> simp [newAsset, key]
  have hreissue : ∀ e, change target (reissue fAssetIndex p e).flatten = none := fun e => by
    unfold reissue
    split
    · cases target <;> simp [key]
    · rfl
  have hundone : ∀ e, change target (undoneReissue fAssetIndex p e).flatten = none := fun e => by
    unfold undoneReissue
    split_ifs
    · rfl
    · split
      · cases target <;> simp [key]
      · rfl
  simp [dumpGroups, balances, spends, change_append, AssetState.flatten_indexed, change_map,
    change_flatMap hremoved, change_flatMap hnew, change_flatMap hreissue, change_flatMap hundone]

theorem change_tags (tags : QualifierSet) (given : QualifierType) :
    change target (tags.items.flatMap
        fun e => tag fAssetIndex e.assetName e.address (e.type = given)).flatten =
      match target with
      | .tag name address => (tags.find? (name, address)).map fun e => decide (e.type = given)
      | _ => none := by
  have htag : ∀ target name address tagged,
      change target (tag fAssetIndex name address tagged).flatten =
        if MarkTarget.tag name address = target then some tagged else none := by
    intro target name address tagged
    cases target <;> cases tagged <;> simp [tag, MarkTarget.key, and_comm]
  cases target with
  | tag name address =>
    refine change_items tags (name, address) (fun e _ hkey => ?_) fun e hkey => ?_
    · rw [htag, if_pos (by simpa using hkey)]
    · rw [htag, if_neg (by simpa using hkey)]
  | freeze | freezeAll => exact change_flatMap (fun e => by simp [htag]) _

theorem change_freezes (freezes : RestrictedSet) {frozen unfrozen : RestrictedType}
    (hne : frozen ≠ unfrozen) (h : ∀ e ∈ freezes.items, e.type = frozen ∨ e.type = unfrozen) :
    change target (freezes.items.flatMap
        fun e => freeze e.assetName e.address e.type frozen unfrozen).flatten =
      match target with
      | .freeze name address => (freezes.find? (name, address)).map fun e => decide (e.type = frozen)
      | _ => none := by
  cases target with
  | freeze name address =>
    refine change_items freezes (name, address) (fun e he hkey => ?_) fun e hkey => ?_
    · obtain ⟨rfl, rfl⟩ := Prod.mk.inj hkey
      rcases h e he with htype | htype <;> simp [freeze, htype, hne.symm, key]
    · have hother : ¬(e.address = address ∧ e.assetName = name) := fun h => hkey (by simp [h])
      unfold freeze
      split_ifs <;> simp [key, hother]
  | tag | freezeAll =>
    refine change_flatMap (fun e => ?_) _
    unfold freeze
    split_ifs <;> simp [key]

theorem change_globals (globals : GlobalSet) {frozen unfrozen : RestrictedType}
    (hne : frozen ≠ unfrozen) (h : ∀ e ∈ globals.items, e.type = frozen ∨ e.type = unfrozen) :
    change target (globals.items.flatMap
        fun e => globalFreeze e.assetName e.type frozen unfrozen).flatten =
      match target with
      | .freezeAll name => (globals.find? name).map fun e => decide (e.type = frozen)
      | _ => none := by
  cases target with
  | freezeAll name =>
    refine change_items globals name (fun e he hkey => ?_) fun e hkey => ?_
    · subst hkey
      rcases h e he with htype | htype <;> simp [globalFreeze, htype, hne.symm, key]
    · unfold globalFreeze
      split_ifs <;> simp [key, hkey]
  | tag | freeze =>
    refine change_flatMap (fun e => ?_) _
    unfold globalFreeze
    split_ifs <;> simp [key]

/-- The writes of the restrictions make the pending changes. -/
theorem change_restrictions {P : MarkTarget → Prop} (hp : p.Typed P) :
    change target (restrictions fAssetIndex p).flatten = (p.layerAt target).answer := by
  have hverifier : ∀ e, change target (newVerifier e).flatten = none := fun e => by
    cases target <;> simp [newVerifier, key]
  have hundone : ∀ e, change target (undoneVerifier e).flatten = none := fun e => by
    cases target <;> simp [undoneVerifier, key]
  have hfreeze : ∀ {type}, (∃ sets, type = freezeType sets) →
      type = .freezeAddress ∨ type = .unfreezeAddress := by
    rintro _ ⟨_ | _, rfl⟩ <;> simp [freezeType]
  have hglobal : ∀ {type}, (∃ sets, type = globalType sets) →
      type = .globalFreeze ∨ type = .globalUnfreeze := by
    rintro _ ⟨_ | _, rfl⟩ <;> simp [globalType]
  simp only [restrictions, flatten_append, change_append, change_flatMap hverifier,
    change_flatMap hundone, change_tags,
    change_freezes _ (by decide) fun e he => hfreeze (hp.frozen e he).2,
    change_freezes _ (by decide) fun e he => (hfreeze (hp.unfrozen e he).2).symm,
    change_globals _ (by decide) fun e he => hglobal (hp.globals e he).2,
    change_globals _ (by decide) fun e he => (hglobal (hp.lifted e he).2).symm]
  cases target <;> simp [layerAt, FlagLayer.answer, Function.comp_def]

end Change

end DumpBatch

namespace AssetState

variable {P : MarkTarget → Prop} (hashes : Hashes) (s : AssetState)

theorem marked_eq_stored (target : MarkTarget) :
    s.restricteddb.marked target = (s.stored target.key).isSome := by
  cases target <;>
    simp [CRestrictedDB.marked, stored, key, contains_eq_isSome]

/-- After a dump the database alone says what `passets` and the database said before. -/
theorem dumpCacheToDatabase_marked (hp : s.passets.Typed P) (target : MarkTarget) :
    (s.dumpCacheToDatabase hashes).restricteddb.marked target = s.markedBelow target := by
  have hchange : DumpBatch.change target (dumpGroups s.fAssetIndex s.passets).flatten =
      (s.passets.layerAt target).answer :=
    DumpBatch.change_dumpGroups.trans (DumpBatch.change_restrictions hp)
  rw [marked_eq_stored, dump_makes hashes s target.key (by cases target <;> rfl), Batch.after,
    markedBelow, ← hchange, DumpBatch.change, marked_eq_stored]
  cases Batch.last _ target.key <;> rfl

theorem markedBelow_dumpCacheToDatabase (hp : s.passets.Typed P) (target : MarkTarget) :
    (s.dumpCacheToDatabase hashes).markedBelow target = s.markedBelow target := by
  have hpassets : (s.dumpCacheToDatabase hashes).passets = .fresh := rfl
  rw [← dumpCacheToDatabase_marked hashes s hp, markedBelow, hpassets, layerAt_fresh]
  rfl

theorem dumpCacheToDatabase_within (hp : s.passets.Typed P) (hdb : s.restricteddb.Within P) :
    (s.dumpCacheToDatabase hashes).restricteddb.Within P := by
  intro target hmarked
  rw [dumpCacheToDatabase_marked hashes s hp, markedBelow] at hmarked
  cases hanswer : (s.passets.layerAt target).answer with
  | none =>
    rw [hanswer, getD_none] at hmarked
    exact hdb target hmarked
  | some b => exact hp.of_answer (by simp [hanswer])

end AssetState

end HnbCore
