import HnbCore.Lib.StateChecks

/-!
# Two runs side by side

Two checks that stop at the same place, with the same error and in the same state, or both go
through in the same state. What they return may differ, within a relation.
-/

namespace Checks

open List

variable {ε σ α α' β β' τ τ' : Type}

/-- Both runs failed alike, or both went through with related results. -/
inductive Together (R : α → β → Prop) : EStateM.Result ε σ α → EStateM.Result ε σ β → Prop
  | ok {a : α} {b : β} {t : σ} : R a b → Together R (.ok a t) (.ok b t)
  | error {e : ε} {t : σ} : Together R (.error e t) (.error e t)

/-- From every state the two checks run together. -/
def Lockstep (R : α → β → Prop) (x : EStateM ε σ α) (y : EStateM ε σ β) : Prop :=
  ∀ s, Together R (x s) (y s)

variable {R : α → β → Prop} {S : α' → β' → Prop}

theorem lockstep_pure {a : α} {b : β} (h : R a b) :
    Lockstep R (pure a : EStateM ε σ α) (pure b) :=
  fun _ => .ok h

variable {f : α → EStateM ε σ α'} {x : EStateM ε σ α} {y : EStateM ε σ β} {c : Bool} {e : ε}

theorem lockstep_bind {g : β → EStateM ε σ β'} (hxy : Lockstep R x y)
    (hfg : ∀ a b, R a b → Lockstep S (f a) (g b)) : Lockstep S (x >>= f) (y >>= g) := by
  intro s
  show Together S (EStateM.bind x f s) (EStateM.bind y g s)
  unfold EStateM.bind
  have hs := hxy s
  generalize x s = r, y s = q at hs
  cases hs with
  | ok hab => exact hfg _ _ hab _
  | error => exact .error

theorem lockstep_bind_same {g : α → EStateM ε σ β'}
    (hfg : ∀ a, (∃ s t, x s = .ok a t) → Lockstep S (f a) (g a)) :
    Lockstep S (x >>= f) (x >>= g) := by
  refine lockstep_bind (R := fun a b => a = b ∧ ∃ s t, x s = .ok a t) ?_ ?_
  · intro s
    cases hx : x s with
    | ok a t => exact .ok ⟨rfl, s, t, hx⟩
    | error e t => exact .error
  · rintro a b ⟨rfl, hreturned⟩
    exact hfg a hreturned

theorem lockstep_map {f : α → α'} {g : β → β'}
    (hxy : Lockstep R x y) (hfg : ∀ a b, R a b → S (f a) (g b)) :
    Lockstep S (f <$> x) (g <$> y) :=
  lockstep_bind hxy fun a b hab => lockstep_pure (hfg a b hab)

/-- A check that passes may stand on one side only. -/
theorem lockstep_ensure_left (hc : c = true) (hxy : Lockstep R x y) :
    Lockstep R ((monadLift (ensure c e) : EStateM ε σ Unit) >>= fun _ => x) y := by
  subst hc
  exact hxy

theorem lockstep_ensure_right (hc : c = true) (hxy : Lockstep R x y) :
    Lockstep R x ((monadLift (ensure c e) : EStateM ε σ Unit) >>= fun _ => y) := by
  subst hc
  exact hxy

theorem lockstep_foldlM {I : τ → τ' → Prop} {l : List α} {f : τ → α → EStateM ε σ τ}
    {g : τ' → α → EStateM ε σ τ'} (hfg : ∀ a ∈ l, ∀ b c, I b c → Lockstep I (f b a) (g c a))
    {b : τ} {c : τ'} (hbc : I b c) : Lockstep I (l.foldlM f b) (l.foldlM g c) := by
  induction l generalizing b c with
  | nil => exact lockstep_pure hbc
  | cons a l ih =>
    rw [foldlM_cons, foldlM_cons]
    refine lockstep_bind (hfg a mem_cons_self b c hbc) fun b' c' hbc' => ?_
    exact ih (fun a' ha' => hfg a' (mem_cons_of_mem _ ha')) hbc'

theorem Lockstep.eq {y : EStateM ε σ α} (h : Lockstep Eq x y) : x = y := by
  funext s
  have hs := h s
  generalize x s = r, y s = q at hs
  cases hs with
  | ok hab => rw [hab]
  | error => rfl

end Checks
