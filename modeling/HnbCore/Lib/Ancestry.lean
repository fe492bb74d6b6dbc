import Mathlib.Tactic

/-!
# Trees given by parent pointers

A node of a growing tree knows its parent. A property that holds of a node and everything above it
is passed down one pointer at a time, and a branch is a list of nodes, each the child of the next,
that ends at a root.
-/

namespace Ancestry

open List Option

variable {α : Type} {parent : α → Option α}

/-- `a` is `b` or a node above it. -/
inductive Ancestor (parent : α → Option α) (a : α) : α → Prop
  | refl : Ancestor parent a a
  | step {b p : α} : parent b = some p → Ancestor parent a p → Ancestor parent a b

variable {a b c : α} {branch : List α}

theorem ancestor_iff :
    Ancestor parent a b ↔ a = b ∨ ∃ p, parent b = some p ∧ Ancestor parent a p := by
  constructor
  · intro h
    cases h with
    | refl => exact .inl rfl
    | step hp h => exact .inr ⟨_, hp, h⟩
  · rintro (rfl | ⟨p, hp, h⟩)
    · exact .refl
    · exact .step hp h

theorem Ancestor.trans (hab : Ancestor parent a b) (hbc : Ancestor parent b c) :
    Ancestor parent a c := by
  induction hbc with
  | refl => exact hab
  | step hp _ ih => exact .step hp ih

/-- `P` holds of the node and of all above it. -/
def AllAbove (parent : α → Option α) (P : α → Prop) (b : α) : Prop :=
  ∀ a, Ancestor parent a b → P a

section AllAbove

variable {P Q : α → Prop} {b : α}

theorem AllAbove.self (h : AllAbove parent P b) : P b := h b .refl

theorem AllAbove.ancestor {a : α} (h : AllAbove parent P b) (ha : Ancestor parent a b) :
    AllAbove parent P a :=
  fun c hc => h c (hc.trans ha)

theorem AllAbove.up {p : α} (h : AllAbove parent P b) (hp : parent b = some p) :
    AllAbove parent P p :=
  h.ancestor (.step hp .refl)

theorem allAbove_and :
    AllAbove parent (fun a => P a ∧ Q a) b ↔ AllAbove parent P b ∧ AllAbove parent Q b :=
  ⟨fun h => ⟨fun a ha => (h a ha).1, fun a ha => (h a ha).2⟩,
    fun h a ha => ⟨h.1 a ha, h.2 a ha⟩⟩

/-- Inside a set that is closed under parents only the pointers and properties there matter. -/
theorem allAbove_congr {parent' : α → Option α} {S : α → Prop}
    (hclosed : ∀ b, S b → ∀ p, parent b = some p → S p)
    (hparent : ∀ b, S b → parent' b = parent b) (hP : ∀ b, S b → (Q b ↔ P b)) (hb : S b) :
    AllAbove parent' Q b ↔ AllAbove parent P b := by
  have hforth : ∀ {a b : α}, S b → Ancestor parent a b → Ancestor parent' a b ∧ S a := by
    intro a b hb h
    induction h with
    | refl => exact ⟨.refl, hb⟩
    | step hp _ ih =>
      obtain ⟨hpath, ha⟩ := ih (hclosed _ hb _ hp)
      exact ⟨.step ((hparent _ hb).trans hp) hpath, ha⟩
  have hback : ∀ {a b : α}, S b → Ancestor parent' a b → Ancestor parent a b ∧ S a := by
    intro a b hb h
    induction h with
    | refl => exact ⟨.refl, hb⟩
    | step hp _ ih =>
      rw [hparent _ hb] at hp
      obtain ⟨hpath, ha⟩ := ih (hclosed _ hb _ hp)
      exact ⟨.step hp hpath, ha⟩
  constructor
  · intro h a ha
    obtain ⟨hpath, hin⟩ := hforth hb ha
    exact (hP a hin).mp (h a hpath)
  · intro h a ha
    obtain ⟨hpath, hin⟩ := hback hb ha
    exact (hP a hin).mpr (h a hpath)

/-- Taking the property from nodes that are not clear all the way up changes nothing for the ones
that are. -/
theorem AllAbove.of_removed (h : AllAbove parent P b)
    (hkept : ∀ a, AllAbove parent P a → Q a) : AllAbove parent Q b :=
  fun a ha => hkept a (h.ancestor ha)

/-- Where parents are lower, everything above a node can be reached by induction. -/
theorem AllAbove.induction (height : α → Nat) {C : α → Prop}
    (hheight : ∀ b p, parent b = some p → height p < height b)
    (hstep : ∀ b, AllAbove parent P b → (∀ p, parent b = some p → C p) → C b)
    (h : AllAbove parent P b) : C b := by
  induction hb : height b using Nat.strong_induction_on generalizing b with
  | _ n ih =>
    subst hb
    exact hstep b h fun p hp => ih _ (hheight b p hp) (h.up hp) rfl

end AllAbove

/-- The list goes from a node to a root, each node the child of the next. -/
def IsBranch (parent : α → Option α) : List α → Prop
  | [] => True
  | [b] => parent b = none
  | b :: p :: branch => parent b = some p ∧ IsBranch parent (p :: branch)

theorem isBranch_tail (h : IsBranch parent (b :: branch)) :
    IsBranch parent branch := by
  cases branch with
  | nil => trivial
  | cons p branch => exact h.2

theorem isBranch_of_suffix {part : List α} (h : IsBranch parent branch)
    (hsuffix : part <:+ branch) : IsBranch parent part := by
  obtain ⟨front, rfl⟩ := hsuffix
  induction front with
  | nil => exact h
  | cons b front ih => exact ih (isBranch_tail h)

/-- A branch is a node with all above it. -/
theorem mem_branch_iff (h : IsBranch parent (b :: branch)) (a : α) :
    a ∈ b :: branch ↔ Ancestor parent a b := by
  induction branch generalizing b with
  | nil =>
    have hroot : parent b = none := h
    rw [mem_singleton, ancestor_iff, hroot]
    simp
  | cons p branch ih =>
    rw [mem_cons, ih h.2, ancestor_iff (b := b), h.1]
    simp

/-- On a branch the later nodes are above the earlier ones. -/
theorem ancestor_of_branch {front rest : List α}
    (h : IsBranch parent (front ++ b :: rest)) (ha : a ∈ front) : Ancestor parent b a := by
  obtain ⟨before, after, rfl⟩ := append_of_mem ha
  have hsuffix : a :: (after ++ b :: rest) <:+ before ++ a :: after ++ b :: rest := by
    rw [append_assoc]
    exact suffix_append before _
  exact (mem_branch_iff (isBranch_of_suffix h hsuffix) b).mp (by simp)

theorem isBranch_cons (h : IsBranch parent branch)
    (hb : parent b = branch.head?) : IsBranch parent (b :: branch) := by
  cases branch with
  | nil => exact hb
  | cons p branch => exact ⟨hb, h⟩

theorem isBranch_congr {parent' : α → Option α} (h : IsBranch parent branch)
    (hparent : ∀ b ∈ branch, parent' b = parent b) : IsBranch parent' branch := by
  induction branch with
  | nil => trivial
  | cons b branch ih =>
    have htail := ih (isBranch_tail h) fun a ha => hparent a (mem_cons_of_mem b ha)
    cases branch with
    | nil => exact (hparent b mem_cons_self).trans h
    | cons p branch => exact ⟨(hparent b mem_cons_self).trans h.1, htail⟩

/-- The nodes from `b` up to the first that stops the walk, and that one. -/
def walkUp (parent : α → Option α) (stop : α → Bool) : Nat → α → List α × Option α
  | 0, _ => ([], none)
  | fuel + 1, b =>
      if stop b then ([], some b)
      else
        match parent b with
        | none => ([b], none)
        | some p =>
            let (path, last) := walkUp parent stop fuel p
            (b :: path, last)

section Walk

variable {stop : α → Bool} {height : α → Nat}

/-- What a walk that has enough fuel leaves. -/
structure Walked (parent : α → Option α) (stop : α → Bool) (b : α) (path : List α)
    (last : Option α) : Prop where
  passed : ∀ a ∈ path, stop a = false ∧ Ancestor parent a b
  stopped : ∀ f, last = some f → stop f = true ∧ Ancestor parent f b
  linked : ∀ rest, rest.head? = last → IsBranch parent rest → IsBranch parent (path ++ rest)
  headed : ∀ rest : List α, rest.head? = last → (path ++ rest).head? = some b

theorem walked (hheight : ∀ b p, parent b = some p → height p < height b) {fuel : Nat} {b : α}
    (hfuel : height b < fuel) :
    Walked parent stop b (walkUp parent stop fuel b).1 (walkUp parent stop fuel b).2 := by
  induction fuel generalizing b with
  | zero => exact absurd hfuel (Nat.not_lt_zero _)
  | succ fuel ih =>
    unfold walkUp
    by_cases hstop : stop b = true
    · rw [if_pos hstop]
      exact {
        passed := by intro a ha; cases ha
        stopped := by
          intro f hf
          obtain rfl := some.inj hf
          exact ⟨hstop, .refl⟩
        linked := fun rest _ hrest => hrest
        headed := fun rest hhead => hhead }
    · have hstop' := Bool.eq_false_iff.mpr hstop
      rw [if_neg hstop]
      cases hp : parent b with
      | none =>
        exact {
          passed := by
            intro a ha
            rw [mem_singleton.mp ha]
            exact ⟨hstop', .refl⟩
          stopped := by intro f hf; cases hf
          linked := by
            intro rest hhead _
            rw [head?_eq_none_iff.mp hhead]
            exact hp
          headed := fun rest _ => rfl }
      | some p =>
        have hlower := hheight b p hp
        have hw := ih (b := p) (by omega)
        exact {
          passed := by
            intro a ha
            rcases mem_cons.mp ha with rfl | ha
            · exact ⟨hstop', .refl⟩
            · exact ⟨(hw.passed a ha).1, .step hp (hw.passed a ha).2⟩
          stopped := fun f hf => ⟨(hw.stopped f hf).1, .step hp (hw.stopped f hf).2⟩
          linked := fun rest hhead hrest =>
            isBranch_cons (hw.linked rest hhead hrest) (hp.trans (hw.headed rest hhead).symm)
          headed := fun rest _ => rfl }

end Walk

end Ancestry
