import Mathlib.Data.List.Induction
import HnbCore.Lib.Overlay

/-!
# A flag under pending changes

A flag is stored somewhere, and over the store lie layers that remember the last change made to the
flag or the last change taken back. Merging a layer into the one below, and writing a layer into
the store, leave the answer as it was. A history of changes, each of which changed the flag, can be
taken back from its end.
-/

/-- The pending change of one flag in one layer; a change is `true` where it sets the flag. -/
structure FlagLayer where
  made : Option Bool := none
  undone : Option Bool := none
  deriving DecidableEq, Repr

namespace FlagLayer

open List

variable (l : FlagLayer)

def make (_ : FlagLayer) (b : Bool) : FlagLayer := ⟨some b, none⟩

def undo (_ : FlagLayer) (b : Bool) : FlagLayer := ⟨none, some b⟩

/-- Taking a change back leaves the opposite. -/
def answer : Option Bool := (l.undone.map (!·)).or l.made

/-- The changes of an upper layer go into a lower one. -/
def merge (upper lower : FlagLayer) : FlagLayer where
  made := if upper.undone.isSome then none else upper.made.or lower.made
  undone := upper.undone.or (if upper.made.isSome then none else lower.undone)

/-- A layer that does not both make and take back. -/
def Single : Prop := l.made = none ∨ l.undone = none

theorem answer_merge {upper : FlagLayer} (h : upper.Single) (lower : FlagLayer) :
    (upper.merge lower).answer = upper.answer.or lower.answer := by
  obtain ⟨made, undone⟩ := upper
  cases made with
  | none => cases undone <;> simp [merge, answer]
  | some b =>
    obtain rfl : undone = none := h.resolve_left (by simp)
    simp [merge, answer]

@[simp] theorem merge_empty (lower : FlagLayer) : merge {} lower = lower := by
  simp [merge]

theorem single_foldl_make {l : FlagLayer} (h : l.Single) (changes : List Bool) :
    (changes.foldl make l).Single :=
  foldlRecOn changes make h fun _ _ _ _ => .inr rfl

theorem single_foldl_undo {l : FlagLayer} (h : l.Single) (changes : List Bool) :
    (changes.foldl undo l).Single :=
  foldlRecOn changes undo h fun _ _ _ _ => .inl rfl

theorem single_empty : Single {} := .inl rfl

/-- The last change counts. -/
theorem answer_foldl_make (changes : List Bool) :
    (changes.foldl make l).answer = changes.getLast?.or l.answer := by
  induction changes using reverseRecOn with
  | nil => simp
  | append_singleton earlier b _ => simp [foldl_append, make, answer]

theorem answer_foldl_undo (changes : List Bool) :
    (changes.foldl undo l).answer = (changes.getLast?.map (!·)).or l.answer := by
  induction changes using reverseRecOn with
  | nil => simp
  | append_singleton earlier b _ => simp [foldl_append, undo, answer]

section Merge

variable {α κ : Type} {key : α → κ} [DecidableEq κ]

/-- The flag of a key, where the entries of a layer of additions and removals carry the changes. -/
def ofLayer (layer : Overlay.Layer key) (k : κ) (made undone : α → Bool) : FlagLayer :=
  ⟨(layer.toAdd.find? k).map made, (layer.toRemove.find? k).map undone⟩

variable (layer : Overlay.Layer key) (e : α) (k : κ) (made undone : α → Bool)

/-- A change replaces what was pending at its key. -/
theorem ofLayer_make :
    ofLayer ⟨layer.toAdd.assign e, layer.toRemove.erase (key e)⟩ k made undone =
      if key e = k then (ofLayer layer k made undone).make (made e)
      else ofLayer layer k made undone := by
  by_cases hkey : key e = k <;>
    simp [ofLayer, make, KeyedSet.find?_assign, KeyedSet.find?_erase, hkey]

theorem ofLayer_undo :
    ofLayer ⟨layer.toAdd.erase (key e), layer.toRemove.assign e⟩ k made undone =
      if key e = k then (ofLayer layer k made undone).undo (undone e)
      else ofLayer layer k made undone := by
  by_cases hkey : key e = k <;>
    simp [ofLayer, undo, KeyedSet.find?_assign, KeyedSet.find?_erase, hkey]

theorem ofLayer_mergeReplacing (view shared : Overlay.Layer key) (k : κ) (made undone : α → Bool) :
    ofLayer (Overlay.mergeReplacing view shared) k made undone =
      (ofLayer view k made undone).merge (ofLayer shared k made undone) := by
  rw [ofLayer, Overlay.find?_toAdd_mergeReplacing, Overlay.find?_toRemove_mergeReplacing]
  cases hadd : view.toAdd.find? k <;> cases hrem : view.toRemove.find? k <;>
    simp [ofLayer, merge, KeyedSet.contains, hadd, hrem]

end Merge

end FlagLayer

namespace Flags

/-- What the changes of a chain of blocks, the latest block first, leave of a flag. -/
def after : List (List Bool) → Bool
  | [] => false
  | block :: rest => block.getLast?.getD (after rest)

theorem after_eq_getLast? (blocks : List (List Bool)) :
    after blocks = (blocks.reverse.flatten.getLast?).getD false := by
  induction blocks with
  | nil => rfl
  | cons block rest ih =>
    rw [after, ih, List.reverse_cons, List.flatten_append, List.flatten_singleton,
      List.getLast?_append]
    cases block.getLast? <;> simp

/-- Every change of a block changes what the blocks before it left. -/
def Alternating : List (List Bool) → Prop
  | [] => True
  | block :: rest => (∀ b ∈ block, b = !after rest) ∧ Alternating rest

section Steps

variable {lower : FlagLayer} {stored : Bool} {block : List Bool} {rest : List (List Bool)}

/-- A block is made on an empty layer, which is then merged. -/
theorem answer_after_block (h : lower.answer.getD stored = after rest) :
    ((block.foldl FlagLayer.make {}).merge lower).answer.getD stored = after (block :: rest) := by
  have hsingle := FlagLayer.single_foldl_make FlagLayer.single_empty block
  rw [FlagLayer.answer_merge hsingle, FlagLayer.answer_foldl_make, after, ← h]
  cases block.getLast? <;> simp [FlagLayer.answer]

/-- The block is taken back, in whatever order. -/
theorem answer_before_block (h : lower.answer.getD stored = after (block :: rest))
    (halternating : Alternating (block :: rest)) {undone : List Bool}
    (hsame : ∀ b, b ∈ undone ↔ b ∈ block) :
    ((undone.foldl FlagLayer.undo {}).merge lower).answer.getD stored = after rest := by
  have hsingle := FlagLayer.single_foldl_undo FlagLayer.single_empty undone
  rw [FlagLayer.answer_merge hsingle, FlagLayer.answer_foldl_undo]
  cases hlast : undone.getLast? with
  | none =>
    have hnil : block = [] := by
      refine List.eq_nil_iff_forall_not_mem.mpr fun b hb => ?_
      rw [List.getLast?_eq_none_iff.mp hlast] at hsame
      simpa using (hsame b).mpr hb
    simpa [hnil, after, FlagLayer.answer] using h
  | some b =>
    have hb := halternating.1 b ((hsame b).mp (List.mem_of_getLast? hlast))
    simp [hb]

end Steps

end Flags
