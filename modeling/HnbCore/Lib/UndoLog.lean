import HnbCore.Lib.Batch

/-!
# Taking batches back

The undo data of a batch writes, at every key the batch touches, what was there before. It does so
whichever of the writes have really been made, and that is what makes recovery possible: undo data
and a second batch, made on any mix of two states, give the second state.
-/

namespace Batch

open List

variable {κ ν : Type} [DecidableEq κ] {m : κ → Option ν} {first second undo undo' : Batch κ ν}

/-- What every key holds after the batch. -/
def afterAll (batch : Batch κ ν) (m : κ → Option ν) : κ → Option ν := fun k => after batch k (m k)

theorem afterAll_append (first second : Batch κ ν) (m : κ → Option ν) :
    afterAll (first ++ second) m = afterAll second (afterAll first m) := by
  funext k
  exact after_append first second k (m k)

theorem afterAll_of_untouched {batch : Batch κ ν} {k : κ} (h : last batch k = none) :
    afterAll batch m k = m k := by
  rw [afterAll, after, h]
  rfl

theorem last_items {μ : Type} (entries : KeyedMap κ ν) (f : ν → μ) (k : κ) :
    last (entries.items.map fun e => (e.1, some (f e.2))) k =
      (entries.find? k).map fun e => some (f e.2) := by
  cases hfind : entries.find? k with
  | none =>
    rw [Option.map_none, last_eq_none]
    intro v hin
    obtain ⟨e, he, heq⟩ := mem_map.mp hin
    have hkey : e.1 = k := (Prod.mk.inj heq).1
    have hsome := KeyedSet.find?_of_mem he
    rw [hkey, hfind] at hsome
    cases hsome
  | some e =>
    have hkey : e.1 = k := KeyedSet.key_of_find? hfind
    subst hkey
    rw [Option.map_some]
    apply last_of_mem (mem_map_of_mem (f := fun e : κ × ν => (e.1, some (f e.2)))
      (KeyedSet.mem_of_find? hfind))
    intro v hin
    obtain ⟨e', he', heq⟩ := mem_map.mp hin
    have hkey : e'.1 = e.1 := (Prod.mk.inj heq).1
    have hsame := KeyedSet.find?_of_mem he'
    rw [hkey, hfind] at hsame
    cases hsame
    exact (congrArg Prod.snd heq).symm

/-- The second batch takes the first one back, which was made on `m`. -/
def Undoes (m : κ → Option ν) (batch undo : Batch κ ν) : Prop :=
  ∀ k, last undo k = if (last batch k).isSome then some (m k) else none

theorem undoes_nil (m : κ → Option ν) : Undoes m [] [] := fun _ => rfl

theorem undoes_single (m : κ → Option ν) (k : κ) (v : Option ν) : Undoes m [(k, v)] [(k, m k)] := by
  intro k'
  by_cases hkey : k = k'
  · subst hkey
    simp [last]
  · simp [last, hkey]

/-- New values at keys that hold nothing are taken back by erasing them. -/
theorem undoes_insert {l : List (κ × ν)} (h : ∀ e ∈ l, m e.1 = none) :
    Undoes m (l.map fun e => (e.1, some e.2)) (l.map fun e => (e.1, none)) := by
  intro k
  by_cases htouched : ∃ e ∈ l, e.1 = k
  · obtain ⟨e, he, rfl⟩ := htouched
    have hsome : (last (l.map fun e => (e.1, some e.2)) e.1).isSome = true := by
      rw [Option.isSome_iff_ne_none]
      intro hnone
      exact last_eq_none.mp hnone (some e.2) (mem_map_of_mem he)
    rw [if_pos hsome, h e he]
    apply last_of_mem (mem_map_of_mem (f := fun e : κ × ν => (e.1, none)) he)
    intro v' hin
    obtain ⟨e', -, heq⟩ := mem_map.mp hin
    exact (congrArg Prod.snd heq).symm
  · have huntouched : ∀ {α : Type} (f : κ × ν → Option α),
        last (l.map fun e => (e.1, f e)) k = none := by
      intro α f
      rw [last_eq_none]
      intro v hin
      obtain ⟨e, he, heq⟩ := mem_map.mp hin
      cases heq
      exact htouched ⟨e, he, rfl⟩
    rw [huntouched, huntouched]
    rfl

/-- Batches are taken back in the opposite order. -/
theorem Undoes.append (hfirst : Undoes m first undo) (hsecond : Undoes (afterAll first m) second undo') :
    Undoes m (first ++ second) (undo' ++ undo) := by
  intro k
  rw [last_append, last_append, hfirst k, hsecond k]
  cases hlast : last first k with
  | some v => cases last second k <;> rfl
  | none =>
    rw [afterAll_of_untouched hlast]
    cases last second k <;> rfl

/-- Whatever mix of the two states is there, taking one batch back and making the other gives the
state of the other. -/
theorem Undoes.converges (hundo : Undoes m first undo) {mixed : κ → Option ν}
    (hmixed : ∀ k, mixed k = afterAll first m k ∨ mixed k = afterAll second m k) :
    afterAll (undo ++ second) mixed = afterAll second m := by
  funext k
  cases hsecond : last second k with
  | some v => simp [afterAll, after, last_append, hsecond]
  | none =>
    rw [afterAll_append, afterAll_of_untouched hsecond, afterAll_of_untouched hsecond]
    cases hfirst : last first k with
    | some v => simp [afterAll, after, hundo k, hfirst]
    | none =>
      have huntouched : last undo k = none := by
        rw [hundo k, hfirst]
        rfl
      rw [afterAll_of_untouched huntouched]
      rcases hmixed k with hold | hnew
      · rw [hold, afterAll_of_untouched hfirst]
      · rw [hnew, afterAll_of_untouched hsecond]

end Batch
