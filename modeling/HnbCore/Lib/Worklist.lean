import HnbCore.Lib.Lists
import HnbCore.Lib.TwoWay
import Mathlib.Logic.Relation

/-!
# Walking a graph with a worklist

A set of nodes still to be visited and a set of nodes done. A node is taken from the first set and
put into the second, and its neighbours that are not done are staged.
-/

namespace Worklist

open List PlainSet

variable {α : Type} [DecidableEq α]

/-- The neighbours of a node that are not done yet are staged. -/
def stageAll (done : PlainSet α) (stage : PlainSet α) (next : List α) : PlainSet α :=
  next.foldl (fun stage y => if done.contains y then stage else stage.insert y) stage

/-- At most `fuel` nodes are visited. -/
def walk (next : α → List α) : Nat → PlainSet α → PlainSet α → PlainSet α
  | 0, _, done => done
  | fuel + 1, stage, done =>
      match stage.items with
      | [] => done
      | x :: _ => walk next fuel (stageAll (done.insert x) (stage.erase x) (next x)) (done.insert x)

theorem contains_stageAll (done stage : PlainSet α) (next : List α) (y : α) :
    (stageAll done stage next).contains y = true ↔
      stage.contains y = true ∨ (y ∈ next ∧ done.contains y = false) := by
  have hround : ∀ (stage : PlainSet α) z,
      (if done.contains z then stage else stage.insert z).contains y = true ↔
        stage.contains y = true ∨ (z = y ∧ done.contains y = false) := by
    intro stage z
    split
    · rename_i hz
      refine ⟨.inl, ?_⟩
      rintro (hs | ⟨rfl, hd⟩)
      · exact hs
      · rw [hz] at hd
        cases hd
    · rename_i hz
      rw [PlainSet.contains_insert, Bool.or_eq_true, decide_eq_true_eq, or_comm]
      refine or_congr_right (iff_self_and.mpr ?_)
      rintro rfl
      exact Bool.eq_false_iff.mpr hz
  unfold stageAll
  refine (Lists.foldl_or (P := fun stage : PlainSet α => stage.contains y = true) hround
    (fun _ _ _ => Iff.rfl) next stage).trans ?_
  simp

/-- The walk may start: what is staged is not done, what a done node leads to is done or staged,
and all nodes lie in a finite set. -/
structure Ready (next : α → List α) (all : PlainSet α) (stage done : PlainSet α) : Prop where
  apart : ∀ x, stage.contains x = true → done.contains x = false
  closed : ∀ x, done.contains x = true → ∀ y ∈ next x,
    done.contains y = true ∨ stage.contains y = true
  staged : ∀ x, stage.contains x = true → all.contains x = true
  within : ∀ x, all.contains x = true → ∀ y ∈ next x, all.contains y = true

/-- The nodes of a finite set that are not done. -/
def remaining (all done : PlainSet α) : Nat := all.items.countP fun x => !done.contains x

variable {all done stage : PlainSet α} {x : α} {next : α → List α}

theorem remaining_insert (hx : all.contains x = true)
    (hnot : done.contains x = false) : remaining all (done.insert x) < remaining all done := by
  unfold remaining
  have hmem := contains_iff_mem.mp hx
  have hle : ∀ l : List α, l.countP (fun y => !(done.insert x).contains y) ≤
      l.countP fun y => !done.contains y := by
    intro l
    apply countP_mono_left
    intro y _ hy
    rw [PlainSet.contains_insert] at hy
    simp only [Bool.not_or, Bool.and_eq_true] at hy
    exact hy.2
  obtain ⟨l₁, l₂, hsplit⟩ := append_of_mem hmem
  rw [hsplit, countP_append, countP_append, countP_cons, countP_cons]
  have h₁ := hle l₁
  have h₂ := hle l₂
  simp only [PlainSet.contains_insert, hnot, decide_true, Bool.true_or, Bool.not_true,
    Bool.not_false, Bool.false_eq_true, if_false, if_true]
  simp only [PlainSet.contains_insert] at h₁ h₂
  omega

theorem Ready.step (h : Ready next all stage done) (hx : stage.contains x = true) :
    Ready next all (stageAll (done.insert x) (stage.erase x) (next x)) (done.insert x) := by
  constructor
  · intro y hy
    rcases (contains_stageAll _ _ _ _).mp hy with hy | ⟨-, hy⟩
    · rw [contains_erase, Bool.and_eq_true, Bool.not_eq_true',
        decide_eq_false_iff_not] at hy
      rw [PlainSet.contains_insert, h.apart y hy.2]
      simpa using hy.1
    · exact hy
  · intro y hy z hz
    by_cases hdone : (done.insert x).contains z = true
    · exact .inl hdone
    · right
      rw [contains_stageAll]
      have hdone' := Bool.eq_false_iff.mpr hdone
      rw [PlainSet.contains_insert, Bool.or_eq_true, decide_eq_true_eq] at hy
      rcases hy with rfl | hy
      · exact .inr ⟨hz, hdone'⟩
      · rw [PlainSet.contains_insert, Bool.or_eq_false_iff, decide_eq_false_iff_not] at hdone'
        rcases h.closed y hy z hz with hd | hs
        · rw [hd] at hdone'
          cases hdone'.2
        · left
          rw [contains_erase, hs]
          simpa using hdone'.1
  · intro y hy
    rcases (contains_stageAll _ _ _ _).mp hy with hy | ⟨hy, -⟩
    · rw [contains_erase, Bool.and_eq_true] at hy
      exact h.staged y hy.2
    · exact h.within x (h.staged x hx) y hy
  · exact h.within

/-- With enough fuel the walk ends in the closure of what it started from. -/
theorem walk_spec (fuel : Nat) (h : Ready next all stage done) (hfuel : remaining all done ≤ fuel) :
    (∀ x, done.contains x = true ∨ stage.contains x = true →
      (walk next fuel stage done).contains x = true) ∧
    (∀ x, (walk next fuel stage done).contains x = true → ∀ y ∈ next x,
      (walk next fuel stage done).contains y = true) ∧
    (∀ y, (walk next fuel stage done).contains y = true → done.contains y = true ∨
      ∃ x, stage.contains x = true ∧ Relation.ReflTransGen (fun a b => b ∈ next a) x y) := by
  -- nothing is staged once every node is done
  have hempty : ∀ {stage done : PlainSet α}, Ready next all stage done → stage.items = [] →
      (∀ x, done.contains x = true ∨ stage.contains x = true → done.contains x = true) ∧
      (∀ x, done.contains x = true → ∀ y ∈ next x, done.contains y = true) := by
    intro stage done hr hnil
    have hno : ∀ x, stage.contains x = false := by
      intro x
      simp [KeyedSet.contains, KeyedSet.find?, hnil]
    refine ⟨?_, ?_⟩
    · rintro x (hx | hx)
      · exact hx
      · rw [hno x] at hx
        cases hx
    · intro x hx y hy
      rcases hr.closed x hx y hy with hd | hs
      · exact hd
      · rw [hno y] at hs
        cases hs
  induction fuel generalizing stage done with
  | zero =>
    have hnil : stage.items = [] := by
      rw [eq_nil_iff_forall_not_mem]
      intro x hx
      have hstage := PlainSet.contains_iff_mem.mpr hx
      have hlt := remaining_insert (h.staged x hstage) (h.apart x hstage)
      omega
    obtain ⟨h₁, h₂⟩ := hempty h hnil
    exact ⟨h₁, h₂, fun y hy => .inl hy⟩
  | succ fuel ih =>
    unfold walk
    cases hitems : stage.items with
    | nil =>
      obtain ⟨h₁, h₂⟩ := hempty h hitems
      exact ⟨h₁, h₂, fun y hy => .inl hy⟩
    | cons x rest =>
      have hx : stage.contains x = true := by
        rw [PlainSet.contains_iff_mem, hitems]
        exact mem_cons_self
      have hlt := remaining_insert (h.staged x hx) (h.apart x hx)
      obtain ⟨h₁, h₂, h₃⟩ := ih (h.step hx) (by omega)
      refine ⟨?_, h₂, ?_⟩
      · rintro y (hy | hy)
        · apply h₁ y
          left
          rw [PlainSet.contains_insert, hy, Bool.or_true]
        · apply h₁ y
          by_cases heq : x = y
          · left
            rw [PlainSet.contains_insert, decide_eq_true heq, Bool.true_or]
          · right
            rw [contains_stageAll, PlainSet.contains_erase, hy]
            left
            simpa using heq
      · intro y hy
        rcases h₃ y hy with hd | ⟨z, hz, hpath⟩
        · rw [PlainSet.contains_insert, Bool.or_eq_true, decide_eq_true_eq] at hd
          rcases hd with rfl | hd
          · exact .inr ⟨x, hx, .refl⟩
          · exact .inl hd
        · rcases (contains_stageAll _ _ _ _).mp hz with hs | ⟨hn, -⟩
          · rw [contains_erase, Bool.and_eq_true] at hs
            exact .inr ⟨z, hs.2, hpath⟩
          · exact .inr ⟨x, hx, .head hn hpath⟩

end Worklist
