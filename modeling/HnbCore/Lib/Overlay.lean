import HnbCore.Lib.KeyedSet

/-!
# Pending changes in two layers

A view lies over a shared layer. Each of the two records its pending changes in a set of removals
and a set of additions. A lookup asks the removals of both layers before the additions of either;
merging the view into the shared layer moves its additions and then its removals.
-/

namespace Overlay

open KeyedSet

variable {α κ β ρ : Type}

/-- What the pending changes of one key answer: the view's removal, the shared layer's removal,
the view's addition and the shared layer's addition, in this order. -/
def pending (viewRem sharedRem : Option ρ) (viewAdd sharedAdd : Option α) (onRem : ρ → β)
    (onAdd : α → β) : Option β :=
  (viewRem.map onRem).or ((sharedRem.map onRem).or ((viewAdd.map onAdd).or (sharedAdd.map onAdd)))

variable {key : α → κ} [DecidableEq κ] (items : List α)

/-- `for item in items: other.erase(item); into.insert(item)`, where an entry of `into` with the
same key stays. -/
def moveKeeping (into other : KeyedSet key) : KeyedSet key × KeyedSet key :=
  items.foldl (fun sets item => (sets.1.insert item, sets.2.erase (key item))) (into, other)

/-- The same loop, where an entry of `into` with the same key is replaced. -/
def moveReplacing (into other : KeyedSet key) : KeyedSet key × KeyedSet key :=
  items.foldl (fun sets item => (sets.1.assign item, sets.2.erase (key item))) (into, other)

theorem moveKeeping_eq (into other : KeyedSet key) :
    moveKeeping items into other =
      (items.foldl KeyedSet.insert into, items.foldl (fun s a => s.erase (key a)) other) := by
  unfold moveKeeping
  induction items generalizing into other with
  | nil => rfl
  | cons a l ih => exact ih _ _

theorem moveReplacing_eq (into other : KeyedSet key) :
    moveReplacing items into other =
      (items.foldl assign into, items.foldl (fun s a => s.erase (key a)) other) := by
  unfold moveReplacing
  induction items generalizing into other with
  | nil => rfl
  | cons a l ih => exact ih _ _

/-- The pending changes of one layer: what it adds and what it removes. -/
structure Layer (key : α → κ) where
  toAdd : KeyedSet key
  toRemove : KeyedSet key

/-- The view's changes go into the shared layer, which keeps the entries it has. -/
def mergeKeeping (view shared : Layer key) : Layer key :=
  let added := moveKeeping view.toAdd.items shared.toAdd shared.toRemove
  let removed := moveKeeping view.toRemove.items added.2 added.1
  ⟨removed.2, removed.1⟩

/-- The view's changes go into the shared layer and replace the entries it has. -/
def mergeReplacing (view shared : Layer key) : Layer key :=
  let added := moveReplacing view.toAdd.items shared.toAdd shared.toRemove
  let removed := moveReplacing view.toRemove.items added.2 added.1
  ⟨removed.2, removed.1⟩

section Merge

variable (view shared : Layer key) (k : κ)

theorem find?_toAdd_mergeKeeping :
    (mergeKeeping view shared).toAdd.find? k =
      if view.toRemove.contains k then none
      else (shared.toAdd.find? k).or (view.toAdd.find? k) := by
  simp only [mergeKeeping, moveKeeping_eq, KeyedSet.find?_foldl_erase, KeyedSet.items_any,
    KeyedSet.find?_foldl_insert, KeyedSet.items_find?]

theorem find?_toRemove_mergeKeeping :
    (mergeKeeping view shared).toRemove.find? k =
      (if view.toAdd.contains k then none else shared.toRemove.find? k).or
        (view.toRemove.find? k) := by
  simp only [mergeKeeping, moveKeeping_eq, KeyedSet.find?_foldl_erase, KeyedSet.items_any,
    KeyedSet.find?_foldl_insert, KeyedSet.items_find?]

theorem find?_toAdd_mergeReplacing :
    (mergeReplacing view shared).toAdd.find? k =
      if view.toRemove.contains k then none
      else (view.toAdd.find? k).or (shared.toAdd.find? k) := by
  simp only [mergeReplacing, moveReplacing_eq, find?_foldl_erase, items_any,
    find?_foldl_assign]

theorem find?_toRemove_mergeReplacing :
    (mergeReplacing view shared).toRemove.find? k =
      (view.toRemove.find? k).or
        (if view.toAdd.contains k then none else shared.toRemove.find? k) := by
  simp only [mergeReplacing, moveReplacing_eq, find?_foldl_erase, items_any,
    find?_foldl_assign]

/-- The view adds an entry under a key and does not remove the key. -/
def Layer.Adds (view : Layer key) (k : κ) (a : α) : Prop :=
  view.toRemove.find? k = none ∧ view.toAdd.find? k = some a

variable (onRem onAdd : α → β) (gone stored : β)

/-- After a merge that keeps, a lookup finds what it found through the view, unless the view adds
the key and the shared layer removes it or has another entry for it. -/
theorem pending_mergeKeeping_eq_iff :
    (pending none ((mergeKeeping view shared).toRemove.find? k) none
        ((mergeKeeping view shared).toAdd.find? k) (fun _ => gone) onAdd).getD stored =
      (pending (view.toRemove.find? k) (shared.toRemove.find? k) (view.toAdd.find? k)
        (shared.toAdd.find? k) (fun _ => gone) onAdd).getD stored ↔
    ∀ a, view.Adds k a → onAdd ((shared.toAdd.find? k).getD a) =
      if shared.toRemove.contains k then gone else onAdd a := by
  rw [find?_toAdd_mergeKeeping, find?_toRemove_mergeKeeping]
  cases hRem : view.toRemove.find? k <;> cases hAdd : view.toAdd.find? k <;>
    cases hRem' : shared.toRemove.find? k <;> cases shared.toAdd.find? k <;>
    simp [Layer.Adds, contains, pending, hRem, hAdd, hRem']

/-- After a merge that replaces, the same, unless the view adds what the shared layer removes. -/
theorem pending_mergeReplacing_eq_iff :
    (pending none ((mergeReplacing view shared).toRemove.find? k) none
        ((mergeReplacing view shared).toAdd.find? k) onRem onAdd).getD stored =
      (pending (view.toRemove.find? k) (shared.toRemove.find? k) (view.toAdd.find? k)
        (shared.toAdd.find? k) onRem onAdd).getD stored ↔
    ∀ a r, view.Adds k a → shared.toRemove.find? k = some r → onAdd a = onRem r := by
  rw [find?_toAdd_mergeReplacing, find?_toRemove_mergeReplacing]
  cases hRem : view.toRemove.find? k <;> cases hAdd : view.toAdd.find? k <;>
    cases shared.toRemove.find? k <;> cases shared.toAdd.find? k <;>
    simp [Layer.Adds, contains, pending, hRem, hAdd]

end Merge

end Overlay
