import Mathlib.Tactic

/-!
# Sequences of checks

A validation routine returns at the first check that fails. In `Except ε` this is a chain of
binds; the lemmas here take a chain that succeeded apart, one check or one loop at a time.
-/

namespace Checks

open List

variable {ε α β σ : Type}

/-- Fail with `e` unless the condition holds. -/
def ensure (c : Bool) (e : ε) : Except ε Unit := if c then .ok () else .error e

/-- Checks that are made only when a condition holds. -/
def whenever (c : Bool) (x : Except ε Unit) : Except ε Unit := if c then x else .ok ()

/-- A value that must be there. -/
def require (o : Option α) (e : ε) : Except ε α :=
  match o with
  | some a => .ok a
  | none => .error e

variable {c : Bool} {e e' : ε} {u : Unit} {a : α} {o : Option α} {f : α → Except ε β}
  {x : Except ε α} {l : List α} {t : σ}

@[simp] theorem ensure_eq_ok : ensure c e = .ok u ↔ c = true := by
  cases c <;> simp [ensure]

@[simp] theorem require_eq_ok :
    require o e = .ok a ↔ o = some a := by
  cases o <;> simp [require]

@[simp] theorem bind_eq_ok {b : β} :
    (x >>= f) = .ok b ↔ ∃ a, x = .ok a ∧ f a = .ok b := by
  cases x with
  | error e => simp [bind, Except.bind]
  | ok a => simp [bind, Except.bind]

@[simp] theorem pure_eq_ok {b : α} : (pure a : Except ε α) = .ok b ↔ a = b := by
  simp [pure, Except.pure]

@[simp] theorem whenever_eq_ok {x : Except ε Unit} :
    whenever c x = .ok u ↔ (c = true → x = .ok ()) := by
  cases c <;> simp [whenever]

@[simp] theorem mapError_eq_ok {ε' : Type} {g : ε → ε'} :
    x.mapError g = .ok a ↔ x = .ok a := by
  cases x <;> simp [Except.mapError]

theorem ensure_eq_error : ensure c e = .error e' ↔ c = false ∧ e = e' := by
  cases c <;> simp [ensure]

theorem require_eq_error :
    require o e = .error e' ↔ o = none ∧ e = e' := by
  cases o <;> simp [require]

theorem bind_eq_error :
    (x >>= f) = .error e ↔ x = .error e ∨ ∃ a, x = .ok a ∧ f a = .error e := by
  cases x with
  | error e => simp [bind, Except.bind]
  | ok a => simp [bind, Except.bind]

theorem whenever_eq_error {x : Except ε Unit} :
    whenever c x = .error e ↔ c = true ∧ x = .error e := by
  cases c <;> simp [whenever]

@[simp] theorem forM_eq_ok {f : α → Except ε Unit} :
    forM l f = .ok u ↔ ∀ a ∈ l, f a = .ok () := by
  induction l with
  | nil => simp
  | cons a l ih =>
    rw [forM_cons, bind_eq_ok, forall_mem_cons, ← ih]
    exact ⟨fun ⟨(), ha, hl⟩ => ⟨ha, hl⟩, fun ⟨ha, hl⟩ => ⟨(), ha, hl⟩⟩

theorem forM_eq_error {f : α → Except ε Unit} (h : forM l f = .error e) :
    ∃ a ∈ l, f a = .error e := by
  induction l with
  | nil => cases h
  | cons a l ih =>
    rw [forM_cons, bind_eq_error] at h
    rcases h with ha | ⟨_, -, hl⟩
    · exact ⟨a, mem_cons_self, ha⟩
    · obtain ⟨b, hb, hfail⟩ := ih hl
      exact ⟨b, mem_cons_of_mem _ hb, hfail⟩

/-- What a loop has collected from the elements it has seen. -/
theorem foldlM_induction {f : σ → α → Except ε σ} {P : List α → σ → Prop} {init : σ}
    (hinit : P [] init) (hstep : ∀ done s a t, P done s → f s a = .ok t → P (done ++ [a]) t)
    (h : l.foldlM f init = .ok t) : P l t := by
  suffices ∀ done s, P done s → l.foldlM f s = .ok t → P (done ++ l) t by
    simpa using this [] init hinit h
  clear h hinit init
  induction l with
  | nil =>
    intro done s hP h
    rw [foldlM_nil, pure_eq_ok] at h
    simpa [← h] using hP
  | cons a l ih =>
    intro done s hP h
    rw [foldlM_cons, bind_eq_ok] at h
    obtain ⟨s', hs', hl⟩ := h
    simpa using ih (done ++ [a]) s' (hstep done s a s' hP hs') hl

theorem foldlM_mem {f : σ → α → Except ε σ} {s : σ}
    (h : l.foldlM f s = .ok t) (ha : a ∈ l) : ∃ s₁ s₂, f s₁ a = .ok s₂ := by
  induction l generalizing s with
  | nil => simp at ha
  | cons b l ih =>
    rw [foldlM_cons, bind_eq_ok] at h
    obtain ⟨s', hs', hl⟩ := h
    rcases mem_cons.mp ha with rfl | hmem
    · exact ⟨s, s', hs'⟩
    · exact ih hl hmem

end Checks
