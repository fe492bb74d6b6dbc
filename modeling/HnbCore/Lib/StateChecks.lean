import HnbCore.Lib.Checks

/-!
# Checks that read and change a state

Checks in `EStateM ε σ`: a failed check keeps the state it has reached. The lemmas take a run that
succeeded apart, and compose what single steps do to the state into what the run does.
-/

namespace Checks

open List

variable {ε ε' σ α β τ : Type}

instance liftExcept : MonadLift (Except ε) (EStateM ε σ) where
  monadLift x := fun s =>
    match x with
    | .ok a => .ok a s
    | .error e => .error e s

/-- A lookup, which answers and may leave a changed state. -/
def ask (f : σ → α × σ) : EStateM ε σ α := fun s => .ok (f s).1 (f s).2

/-- The same checks with another error. -/
def orElseFail (g : ε → ε') (x : EStateM ε σ α) : EStateM ε' σ α := fun s =>
  match x s with
  | .ok a t => .ok a t
  | .error e t => .error (g e) t

/-- Checks that are made only when a condition holds. -/
def onlyIf (c : Bool) (x : EStateM ε σ Unit) : EStateM ε σ Unit := if c then x else pure ()

variable {s t : σ} {x : EStateM ε σ α} {a : α} {u : Unit} {e : ε} {b init : τ}
  {f : τ → α → EStateM ε σ τ} {l : List α} {R : σ → σ → Prop}

theorem run_bind_eq_ok {f : α → EStateM ε σ β} {b : β} :
    (x >>= f) s = .ok b t ↔ ∃ a u, x s = .ok a u ∧ f a u = .ok b t := by
  show (match x s with
    | .ok a u => f a u
    | .error e u => .error e u) = _ ↔ _
  cases x s with
  | ok a u => simp
  | error e u => simp

theorem run_pure_eq_ok {b : α} :
    (pure a : EStateM ε σ α) s = .ok b t ↔ a = b ∧ s = t := by
  simp [pure, EStateM.pure]

theorem run_map_eq_ok {f : α → β} {b : β} :
    (f <$> x) s = .ok b t ↔ ∃ a, x s = .ok a t ∧ f a = b := by
  show (match x s with
    | .ok a u => EStateM.Result.ok (f a) u
    | .error e u => .error e u) = _ ↔ _
  cases x s with
  | ok a u => simp; tauto
  | error e u => simp

theorem run_lift_eq_ok {x : Except ε α} :
    (monadLift x : EStateM ε σ α) s = .ok a t ↔ x = .ok a ∧ s = t := by
  show (match x with
    | .ok a => EStateM.Result.ok a s
    | .error e => .error e s) = _ ↔ _
  cases x <;> simp

theorem run_lift_bind_eq_ok {x : Except ε α} {f : α → EStateM ε σ β} {b : β} :
    ((monadLift x : EStateM ε σ α) >>= f) s = .ok b t ↔ ∃ a, x = .ok a ∧ f a s = .ok b t := by
  simp [run_bind_eq_ok, run_lift_eq_ok]

theorem run_ask_eq_ok {f : σ → α × σ} :
    (ask f : EStateM ε σ α) s = .ok a t ↔ f s = (a, t) := by
  simp [ask, Prod.ext_iff]

theorem run_orElseFail_eq_ok {g : ε → ε'} :
    orElseFail g x s = .ok a t ↔ x s = .ok a t := by
  unfold orElseFail
  cases x s <;> simp

theorem run_onlyIf_eq_ok {c : Bool} {x : EStateM ε σ Unit} :
    onlyIf c x s = .ok u t ↔ (if c then x s = .ok () t else s = t) := by
  cases c <;> simp [onlyIf, run_pure_eq_ok]

theorem run_get_eq_ok {a : σ} : (get : EStateM ε σ σ) s = .ok a t ↔ s = a ∧ s = t := by
  show EStateM.Result.ok s s = .ok a t ↔ _
  simp

theorem run_modify_eq_ok {f : σ → σ} {u : PUnit} :
    (modify f : EStateM ε σ PUnit) s = .ok u t ↔ f s = t := by
  show EStateM.Result.ok PUnit.unit (f s) = .ok u t ↔ _
  simp

theorem run_bind_eq_error {f : α → EStateM ε σ β} :
    (x >>= f) s = .error e t ↔ x s = .error e t ∨ ∃ a u, x s = .ok a u ∧ f a u = .error e t := by
  show (match x s with
    | .ok a u => f a u
    | .error e u => .error e u) = _ ↔ _
  cases x s with
  | ok a u => simp
  | error e u => simp

theorem run_lift_eq_error {x : Except ε α} :
    (monadLift x : EStateM ε σ α) s = .error e t ↔ x = .error e ∧ s = t := by
  show (match x with
    | .ok a => EStateM.Result.ok a s
    | .error e => .error e s) = _ ↔ _
  cases x <;> simp

theorem run_get_ne_error : (get : EStateM ε σ σ) s ≠ .error e t := by
  show EStateM.Result.ok s s ≠ .error e t
  simp

theorem run_modify_ne_error {f : σ → σ} :
    (modify f : EStateM ε σ PUnit) s ≠ .error e t := by
  show EStateM.Result.ok PUnit.unit (f s) ≠ .error e t
  simp

/-- Whether a run went through. -/
def succeeded : EStateM.Result ε σ α → Bool
  | .ok _ _ => true
  | .error _ _ => false

theorem succeeded_iff {r : EStateM.Result ε σ α} : succeeded r = true ↔ ∃ a t, r = .ok a t := by
  cases r <;> simp [succeeded]

instance decidableSome {o : Option α} {P : α → Prop} [DecidablePred P] :
    Decidable (∃ a, o = some a ∧ P a) :=
  match o with
  | none => isFalse (by simp)
  | some a => decidable_of_iff (P a) (by simp)

instance decidableOk {r : EStateM.Result ε σ α} {P : α → σ → Prop} [∀ a t, Decidable (P a t)] :
    Decidable (∃ a t, r = .ok a t ∧ P a t) :=
  match r with
  | .ok a t => decidable_of_iff (P a t) (by simp)
  | .error _ _ => isFalse (by simp)

instance decidableOkPair {r : EStateM.Result ε σ (α × β)} {P : α → β → σ → Prop}
    [∀ a b t, Decidable (P a b t)] : Decidable (∃ a b t, r = .ok (a, b) t ∧ P a b t) :=
  match r with
  | .ok (a, b) t => decidable_of_iff (P a b t) (by simp)
  | .error _ _ => isFalse (by simp)

/-- Every successful run relates the state before and the state after. -/
def Keeps (R : σ → σ → Prop) (x : EStateM ε σ α) : Prop := ∀ s a t, x s = .ok a t → R s t

section Keeps

variable {R : σ → σ → Prop} (hrefl : ∀ s, R s s) (htrans : ∀ s t u, R s t → R t u → R s u)

include hrefl in
theorem keeps_pure (a : α) : Keeps R (pure a : EStateM ε σ α) := by
  intro s b t h
  obtain ⟨-, rfl⟩ := run_pure_eq_ok.mp h
  exact hrefl s

include hrefl in
theorem keeps_lift (x : Except ε α) : Keeps R (monadLift x : EStateM ε σ α) := by
  intro s b t h
  obtain ⟨-, rfl⟩ := run_lift_eq_ok.mp h
  exact hrefl s

theorem keeps_ask {f : σ → α × σ} (hf : ∀ s, R s (f s).2) :
    Keeps R (ask f : EStateM ε σ α) := by
  intro s b t h
  have := run_ask_eq_ok.mp h
  rw [show t = (f s).2 by rw [this]]
  exact hf s

variable {x : EStateM ε σ α} {l : List α}

theorem keeps_orElseFail {g : ε → ε'} (hx : Keeps R x) :
    Keeps R (orElseFail g x) :=
  fun s a t h => hx s a t (run_orElseFail_eq_ok.mp h)

include hrefl in
theorem keeps_onlyIf {c : Bool} {x : EStateM ε σ Unit} (hx : Keeps R x) :
    Keeps R (onlyIf c x) := by
  intro s a t h
  rw [run_onlyIf_eq_ok] at h
  split at h
  · exact hx s () t h
  · exact h ▸ hrefl s

include htrans in
theorem keeps_bind {f : α → EStateM ε σ β} (hx : Keeps R x)
    (hf : ∀ a, Keeps R (f a)) : Keeps R (x >>= f) := by
  intro s b t h
  obtain ⟨a, u, hu, ht⟩ := run_bind_eq_ok.mp h
  exact htrans s u t (hx s a u hu) (hf a u b t ht)

include hrefl htrans in
theorem keeps_foldlM {f : τ → α → EStateM ε σ τ} (init : τ)
    (hf : ∀ b, ∀ a ∈ l, Keeps R (f b a)) : Keeps R (l.foldlM f init) := by
  induction l generalizing init with
  | nil => exact keeps_pure hrefl init
  | cons a l ih =>
    rw [foldlM_cons]
    exact keeps_bind htrans (hf init a mem_cons_self)
      (fun b => ih b fun c a' ha' => hf c a' (mem_cons_of_mem _ ha'))

theorem forM_eq_foldlM (l : List α) (f : α → EStateM ε σ Unit) :
    forM l f = l.foldlM (fun _ => f) () := by
  induction l with
  | nil => rfl
  | cons a l ih => rw [forM_cons, ih, foldlM_cons]

include hrefl htrans in
theorem keeps_forM {f : α → EStateM ε σ Unit} (hf : ∀ a ∈ l, Keeps R (f a)) :
    Keeps R (forM l f) := by
  rw [forM_eq_foldlM]
  exact keeps_foldlM hrefl htrans () fun _ => hf

end Keeps

/-- A loop keeps what each of its rounds keeps, whatever the rounds do to the state. -/
theorem run_foldlM_induction {P : List α → τ → Prop} (hinit : P [] init)
    (hstep : ∀ done b a s c t, P done b → f b a s = .ok c t → P (done ++ [a]) c)
    (h : l.foldlM f init s = .ok b t) : P l b := by
  suffices ∀ done init s, P done init → l.foldlM f init s = .ok b t → P (done ++ l) b by
    simpa using this [] init s hinit h
  clear h hinit
  induction l with
  | nil =>
    intro done init s hP h
    rw [foldlM_nil, run_pure_eq_ok] at h
    simpa [← h.1] using hP
  | cons a l ih =>
    intro done init s hP h
    obtain ⟨c, u, hc, hl⟩ := run_bind_eq_ok.mp h
    simpa using ih (done ++ [a]) c u (hstep done init a s c u hP hc) hl

/-- Every round of a loop that succeeded is a round that succeeded, from a state that the rounds
before it lead to. -/
theorem run_foldlM_mem_keeps (hrefl : ∀ s, R s s) (htrans : ∀ s t u, R s t → R t u → R s u)
    (hf : ∀ c, ∀ a ∈ l, Keeps R (f c a)) (h : l.foldlM f init s = .ok b t) (ha : a ∈ l) :
    ∃ c s₁ c' s₂, R s s₁ ∧ f c a s₁ = .ok c' s₂ := by
  induction l generalizing init s with
  | nil => simp at ha
  | cons a' l ih =>
    obtain ⟨c, u, hround, hl⟩ := run_bind_eq_ok.mp h
    rcases mem_cons.mp ha with rfl | hmem
    · exact ⟨init, s, c, u, hrefl s, hround⟩
    · obtain ⟨d, s₁, d', s₂, hs₁, hs₂⟩ := ih (fun d e he => hf d e (mem_cons_of_mem _ he)) hl hmem
      exact ⟨d, s₁, d', s₂, htrans s u s₁ (hf init a' mem_cons_self s c u hround) hs₁, hs₂⟩

theorem run_forM_mem_keeps (hrefl : ∀ s, R s s) (htrans : ∀ s t u, R s t → R t u → R s u)
    {f : α → EStateM ε σ Unit} (hf : ∀ a ∈ l, Keeps R (f a)) (h : forM l f s = .ok u t)
    (ha : a ∈ l) : ∃ s₁ s₂, R s s₁ ∧ f a s₁ = .ok () s₂ := by
  rw [forM_eq_foldlM] at h
  obtain ⟨_, s₁, _, s₂, hs₁, hround⟩ := run_foldlM_mem_keeps hrefl htrans (fun _ => hf) h ha
  exact ⟨s₁, s₂, hs₁, hround⟩

theorem run_foldlM_mem (h : l.foldlM f init s = .ok b t) (ha : a ∈ l) :
    ∃ c s₁ c' s₂, f c a s₁ = .ok c' s₂ := by
  obtain ⟨c, s₁, c', s₂, -, hround⟩ := run_foldlM_mem_keeps (R := fun _ _ => True) (fun _ => trivial)
    (fun _ _ _ _ _ => trivial) (fun _ _ _ _ _ _ _ => trivial) h ha
  exact ⟨c, s₁, c', s₂, hround⟩

/-- A loop whose rounds change the state as those of another loop do. -/
theorem run_forM_of_foldlM {g : α → EStateM ε σ Unit}
    (hf : ∀ b a s c t, f b a s = .ok c t → g a s = .ok () t) (h : l.foldlM f init s = .ok b t) :
    forM l g s = .ok () t := by
  induction l generalizing init s with
  | nil =>
    obtain ⟨-, rfl⟩ := run_pure_eq_ok.mp h
    rfl
  | cons a l ih =>
    obtain ⟨c, u, hround, hl⟩ := run_bind_eq_ok.mp h
    exact run_bind_eq_ok.mpr ⟨(), u, hf _ _ _ _ _ hround, ih hl⟩

/-- Every run that fails does so with such an error. -/
def FailsWith (P : ε → Prop) (x : EStateM ε σ α) : Prop := ∀ s e t, x s = .error e t → P e

section FailsWith

variable {P : ε → Prop}

theorem failsWith_lift {x : Except ε α} (hx : ∀ e, x = .error e → P e) :
    FailsWith P (monadLift x : EStateM ε σ α) :=
  fun _ e _ h => hx e (run_lift_eq_error.mp h).1

variable {c : Bool} {e : ε} {f : α → EStateM ε σ β} {l : List α}

theorem failsWith_ensure (he : P e) :
    FailsWith P (monadLift (ensure c e) : EStateM ε σ Unit) :=
  failsWith_lift fun _ h => (ensure_eq_error.mp h).2 ▸ he

theorem failsWith_throw (he : P e) : FailsWith P (throw e : EStateM ε σ α) := by
  intro s e' t h
  cases h
  exact he

theorem failsWith_pure (a : α) : FailsWith P (pure a : EStateM ε σ α) := by
  intro s e t h
  cases h

theorem failsWith_ask (f : σ → α × σ) : FailsWith P (ask f : EStateM ε σ α) := by
  intro s e t h
  cases h

theorem failsWith_onlyIf {x : EStateM ε σ Unit} (hx : FailsWith P x) :
    FailsWith P (onlyIf c x) := by
  cases c with
  | true => exact hx
  | false => exact failsWith_pure ()

theorem failsWith_bind {x : EStateM ε σ α} (hx : FailsWith P x)
    (hf : ∀ a, FailsWith P (f a)) : FailsWith P (x >>= f) := by
  intro s e t h
  rcases run_bind_eq_error.mp h with hfail | ⟨a, u, -, hfail⟩
  · exact hx s e t hfail
  · exact hf a u e t hfail

theorem failsWith_forM {f : α → EStateM ε σ Unit} (hf : ∀ a, FailsWith P (f a)) :
    FailsWith P (forM l f) := by
  induction l with
  | nil => exact failsWith_pure ()
  | cons a l ih =>
    rw [forM_cons]
    exact failsWith_bind (hf a) fun _ => ih

theorem failsWith_mapM (hf : ∀ a, FailsWith P (f a)) :
    FailsWith P (l.mapM f) := by
  induction l with
  | nil => exact failsWith_pure []
  | cons a l ih =>
    rw [mapM_cons]
    exact failsWith_bind (hf a) fun _ => failsWith_bind ih fun _ => failsWith_pure _

end FailsWith

end Checks
