import Mathlib.Tactic

/-!
# Counting in lists, and loops over them
-/

namespace Lists

open List

variable {α : Type} {p q : α → Bool} {l : List α}

theorem eq_of_countP_eq_one (h : l.countP p = 1) {a b : α} (ha : a ∈ l) (hb : b ∈ l)
    (hpa : p a = true) (hpb : p b = true) : a = b := by
  rw [countP_eq_length_filter, length_eq_one_iff] at h
  obtain ⟨c, hc⟩ := h
  have mem_single {x : α} (hx : x ∈ l) (hpx : p x = true) : x = c := by
    have : x ∈ l.filter p := mem_filter.mpr ⟨hx, hpx⟩
    simpa [hc] using this
  rw [mem_single ha hpa, mem_single hb hpb]

/-- Where one predicate implies another and both hold equally often, they hold together. -/
theorem imp_of_countP_eq (himp : ∀ a ∈ l, p a = true → q a = true)
    (h : l.countP q = l.countP p) {a : α} (ha : a ∈ l) (hq : q a = true) : p a = true := by
  induction l with
  | nil => simp at ha
  | cons b l ih =>
    have htail : ∀ a ∈ l, p a = true → q a = true := fun a ha =>
      himp a (mem_cons_of_mem b ha)
    have hle : l.countP p ≤ l.countP q := countP_mono_left htail
    have hhead : p b = true → q b = true := himp b (by simp)
    rw [countP_cons, countP_cons] at h
    rcases mem_cons.mp ha with rfl | hmem
    · by_contra hp
      simp [hq, hp] at h
      omega
    · refine ih htail ?_ hmem
      by_cases hp : p b = true
      · simpa [hp, hhead hp] using h
      · by_cases hqb : q b = true
        · simp [hp, hqb] at h
          omega
        · simpa [hp, hqb] using h

section Loops

variable {σ α : Type} {f : σ → α → σ} {P : σ → Prop} {B : σ → α → Prop}

/-- Every round may take something away, and says beforehand when. -/
theorem foldl_and (hf : ∀ s a, P (f s a) ↔ P s ∧ ¬B s a) (hB : ∀ s a b, B (f s a) b ↔ B s b)
    (l : List α) (s : σ) : P (l.foldl f s) ↔ P s ∧ ¬∃ a ∈ l, B s a := by
  induction l generalizing s with
  | nil => simp
  | cons a l ih =>
    simp only [foldl_cons, ih, hf, hB, exists_mem_cons_iff, and_assoc, not_or]

/-- Every round may add something, and says beforehand when. -/
theorem foldl_or (hf : ∀ s a, P (f s a) ↔ P s ∨ B s a) (hB : ∀ s a b, B (f s a) b ↔ B s b)
    (l : List α) (s : σ) : P (l.foldl f s) ↔ P s ∨ ∃ a ∈ l, B s a := by
  induction l generalizing s with
  | nil => simp
  | cons a l ih => simp only [foldl_cons, ih, hf, hB, exists_mem_cons_iff, or_assoc]

theorem foldl_eq {β : Type} {g : σ → β} (hf : ∀ s a, g (f s a) = g s) (l : List α) (s : σ) :
    g (l.foldl f s) = g s := by
  induction l generalizing s with
  | nil => rfl
  | cons a l ih => rw [foldl_cons, ih, hf]

end Loops

end Lists
