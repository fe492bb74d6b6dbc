import Mathlib.Tactic

/-!
# A randomised search for a subset

Values are visited in order and included by chance; a value that takes the total to the target is
noted, if that is the best total so far, and put back. When a first pass does not reach the target a
second one includes what is left. Totals are wrapped around as a machine word does.
-/

namespace SubsetSearch

open Function

variable {α : Type}

/-- The sum of the values that a mask includes. -/
def maskSum : List Int → (Nat → Bool) → Int
  | [], _ => 0
  | v :: values, mask => (if mask 0 then v else 0) + maskSum values fun i => mask (i + 1)

/-- The elements that a mask includes. -/
def chosen : List α → (Nat → Bool) → List α
  | [], _ => []
  | a :: l, mask =>
      let rest := chosen l fun i => mask (i + 1)
      if mask 0 then a :: rest else rest

/-- Sums may be wrapped at every step or once. -/
structure Wraps (wrap : Int → Int) : Prop where
  zero : wrap 0 = 0
  add : ∀ a b, wrap (wrap a + b) = wrap (a + b)

/-- The sum, wrapped at every step. -/
def wrappedSum (wrap : Int → Int) (values : List Int) : Int :=
  values.foldl (fun total v => wrap (total + v)) 0

/-- The mask and total of the current try, and the best ones so far. -/
structure Search where
  included : Nat → Bool
  total : Int
  reached : Bool
  best : Nat → Bool
  bestTotal : Int

namespace Search

variable (wrap : Int → Int) (target : Int)

/-- A value is included; if that reaches the target, it is put back once the result is noted. -/
def tryInclude (s : Search) (i : Nat) (v : Int) : Search :=
  let total := wrap (s.total + v)
  let included := update s.included i true
  if target ≤ total then
    { included := update included i false
      total := wrap (total - v)
      reached := true
      best := if total < s.bestTotal then included else s.best
      bestTotal := if total < s.bestTotal then total else s.bestTotal }
  else { s with included := included, total := total }

/-- A pass over values whose positions start at `i`. -/
def pass (use : Search → Nat → Bool) : Nat → List Int → Search → Search
  | _, [], s => s
  | i, v :: values, s =>
      pass use (i + 1) values (if use s i then tryInclude wrap target s i v else s)

/-- One try: the first pass goes by chance, the second takes what is left. -/
def repetition (bits : Nat → Bool) (values : List Int) (s : Search) : Search :=
  let s := { s with included := fun _ => false, total := 0, reached := false }
  let s := pass wrap target (fun _ i => bits i) 0 values s
  if s.reached then s else pass wrap target (fun s i => !s.included i) 0 values s

/-- Tries are made until the target is met exactly or there are no more of them. -/
def repeated (bits : Nat → Nat → Bool) (values : List Int) : Nat → Nat → Search → Search
  | 0, _, s => s
  | n + 1, rep, s =>
      if s.bestTotal = target then s
      else repeated bits values n (rep + 1) (repetition wrap target (bits rep) values s)

/-- At first everything is included. -/
def start (total : Int) : Search := ⟨fun _ => false, 0, false, fun _ => true, total⟩

end Search

theorem Wraps.foldl_add {wrap : Int → Int} (hwrap : Wraps wrap) (values : List Int) (total : Int) :
    values.foldl (fun total v => wrap (total + v)) (wrap total) = wrap (total + values.sum) := by
  induction values generalizing total with
  | nil => simp
  | cons v values ih => rw [List.foldl_cons, hwrap.add, ih, List.sum_cons, add_assoc]

theorem Wraps.wrappedSum_eq {wrap : Int → Int} (hwrap : Wraps wrap) (values : List Int) :
    wrappedSum wrap values = wrap values.sum := by
  have h := hwrap.foldl_add values 0
  rwa [hwrap.zero, zero_add] at h

theorem abs_sum_le (values : List Int) : |values.sum| ≤ (values.map (|·|)).sum := by
  induction values with
  | nil => simp
  | cons v values ih =>
    rw [List.sum_cons, List.map_cons, List.sum_cons]
    exact (abs_add_le v values.sum).trans (by gcongr)

theorem maskSum_true (values : List Int) : maskSum values (fun _ => true) = values.sum := by
  induction values with
  | nil => rfl
  | cons v values ih => simp [maskSum, ih]

theorem maskSum_false (values : List Int) : maskSum values (fun _ => false) = 0 := by
  induction values with
  | nil => rfl
  | cons v values ih => simp [maskSum, ih]

theorem maskSum_update {values : List Int} {i : Nat} {v : Int} (h : values[i]? = some v)
    (mask : Nat → Bool) (b : Bool) :
    maskSum values (update mask i b) =
      maskSum values mask + (if b then v else 0) - if mask i then v else 0 := by
  induction values generalizing i mask with
  | nil => cases h
  | cons w values ih =>
    cases i with
    | zero =>
      cases h
      have hrest : (fun i => update mask 0 b (i + 1)) = fun i => mask (i + 1) := by
        funext i
        exact update_of_ne (Nat.succ_ne_zero i) b mask
      simp only [maskSum, update_self, hrest]
      ring
    | succ i =>
      have hrest : (fun j => update mask (i + 1) b (j + 1)) =
          update (fun j => mask (j + 1)) i b := by
        funext j
        simp [update_apply]
      have hhead : update mask (i + 1) b 0 = mask 0 :=
        update_of_ne (Nat.succ_ne_zero i).symm b mask
      simp only [maskSum, hhead, hrest, ih (by simpa using h)]
      ring

theorem chosen_sublist (l : List α) (mask : Nat → Bool) : (chosen l mask).Sublist l := by
  induction l generalizing mask with
  | nil => exact .slnil
  | cons a l ih =>
    unfold chosen
    split
    · exact (ih _).cons_cons a
    · exact (ih _).cons a

theorem sum_chosen (f : α → Int) (l : List α) (mask : Nat → Bool) :
    ((chosen l mask).map f).sum = maskSum (l.map f) mask := by
  induction l generalizing mask with
  | nil => rfl
  | cons a l ih =>
    unfold chosen
    split
    · rename_i hmask
      simp [maskSum, hmask, ih]
    · rename_i hmask
      simp [maskSum, hmask, ih]

namespace Search

variable {wrap : Int → Int} {target : Int} {all : List Int}

/-- The totals are those of the masks, and the best one reaches the target. -/
structure Sound (wrap : Int → Int) (target : Int) (all : List Int) (s : Search) : Prop where
  total_eq : s.total = wrap (maskSum all s.included)
  best_eq : s.bestTotal = wrap (maskSum all s.best)
  reaches : target ≤ s.bestTotal

section

variable (hwrap : Wraps wrap)
include hwrap

theorem Sound.tryInclude {s : Search} (h : Sound wrap target all s) {i : Nat} {v : Int}
    (hv : all[i]? = some v) (hfree : s.included i = false) :
    Sound wrap target all (tryInclude wrap target s i v) := by
  have hadd : wrap (s.total + v) = wrap (maskSum all (update s.included i true)) := by
    rw [maskSum_update hv, h.total_eq, hwrap.add, hfree]
    simp
  unfold Search.tryInclude
  by_cases hreached : target ≤ wrap (s.total + v)
  · simp only [hreached, if_true]
    constructor
    · simp only
      rw [hadd, sub_eq_add_neg, hwrap.add, maskSum_update hv _ false, update_self]
      simp [sub_eq_add_neg]
    · simp only
      split
      · exact hadd
      · exact h.best_eq
    · simp only
      split
      · exact hreached
      · exact h.reaches
  · simp only [hreached, if_false]
    exact ⟨hadd, h.best_eq, h.reaches⟩

omit hwrap in
theorem included_tryInclude {s : Search} {i j : Nat} (v : Int) (hne : j ≠ i) :
    (tryInclude wrap target s i v).included j = s.included j := by
  unfold tryInclude
  simp only
  split
  · simp [update_of_ne hne]
  · simp [update_of_ne hne]

/-- A pass that visits only positions that are not included yet. -/
theorem Sound.pass (use : Search → Nat → Bool) {P : Nat → Search → Prop}
    (hfree : ∀ s i, P i s → use s i = true → s.included i = false)
    (hstep : ∀ s i v, P i s → P (i + 1) (if use s i then Search.tryInclude wrap target s i v else s))
    (values : List Int) (i : Nat) (hvalues : ∀ j v, values[j]? = some v → all[i + j]? = some v)
    {s : Search} (h : Sound wrap target all s) (hP : P i s) :
    Sound wrap target all (pass wrap target use i values s) := by
  induction values generalizing i s with
  | nil => exact h
  | cons v values ih =>
    have hv : all[i]? = some v := hvalues 0 v rfl
    apply ih (i + 1)
    · intro j w hw
      have hshift := hvalues (j + 1) w (by simpa using hw)
      rwa [← Nat.add_assoc, Nat.add_right_comm] at hshift
    · split
      · rename_i huse
        exact h.tryInclude hwrap hv (hfree s i hP huse)
      · exact h
    · exact hstep s i v hP

theorem Sound.repetition {s : Search} (h : Sound wrap target all s) (bits : Nat → Bool) :
    Sound wrap target all (repetition wrap target bits all s) := by
  have hclear : Sound wrap target all
      { s with included := fun _ => false, total := 0, reached := false } := by
    refine ⟨?_, h.best_eq, h.reaches⟩
    rw [maskSum_false, hwrap.zero]
  -- in the first pass nothing from the current position on is included
  have hfirst := hclear.pass hwrap (fun _ i => bits i)
    (P := fun i s => ∀ j, i ≤ j → s.included j = false)
    (fun s i hP _ => hP i le_rfl)
    (by
      intro s i v hP j hj
      split
      · rw [included_tryInclude v (by omega)]
        exact hP j (by omega)
      · exact hP j (by omega))
    all 0 (by intro j v hv; simpa using hv) (fun _ _ => rfl)
  unfold Search.repetition
  simp only
  split
  · exact hfirst
  · apply hfirst.pass hwrap (P := fun _ _ => True)
    · intro s i _ huse
      simpa using huse
    · intro _ _ _ _
      trivial
    · intro j v hv
      simpa using hv
    · trivial

theorem Sound.repeated {s : Search} (h : Sound wrap target all s) (bits : Nat → Nat → Bool)
    (n rep : Nat) : Sound wrap target all (repeated wrap target bits all n rep s) := by
  induction n generalizing rep s with
  | zero => exact h
  | succ n ih =>
    unfold Search.repeated
    split
    · exact h
    · exact ih (h.repetition hwrap (bits rep)) (rep + 1)

theorem sound_start (h : target ≤ wrap all.sum) : Sound wrap target all (start (wrap all.sum)) := by
  refine ⟨?_, ?_, h⟩
  · exact (maskSum_false all).symm ▸ hwrap.zero.symm
  · exact (maskSum_true all).symm ▸ rfl

end

end Search

end SubsetSearch
