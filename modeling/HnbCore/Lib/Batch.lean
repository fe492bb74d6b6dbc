import HnbCore.Lib.KeyedSet

/-!
# Batches of writes

A batch is a list of writes and erasures, made in order. The last one at a key decides what is
there afterwards.
-/

/-- A key with the value to write, or none to erase it. -/
abbrev Batch (κ ν : Type) := List (κ × Option ν)

namespace Batch

open List Option

variable {κ ν α : Type} [DecidableEq κ] {batch : Batch κ ν} {k : κ} {v : Option ν}
  (m : KeyedMap κ ν)

def put : κ × Option ν → KeyedMap κ ν
  | (k, some v) => m.assign (k, v)
  | (k, none) => m.erase k

def write (batch : Batch κ ν) : KeyedMap κ ν := batch.foldl put m

/-- What the batch does last at a key, if it does anything there. -/
def last : Batch κ ν → κ → Option (Option ν)
  | [], _ => none
  | (k', v) :: batch, k => (last batch k).or (if k' = k then some v else none)

theorem find?_put (change : κ × Option ν) (k : κ) :
    (put m change).find? k = if change.1 = k then change.2.map (k, ·) else m.find? k := by
  obtain ⟨k', v⟩ := change
  cases v with
  | none => exact KeyedSet.find?_erase m k k'
  | some v =>
    rw [put, KeyedSet.find?_assign]
    split
    · rename_i heq
      cases heq
      rfl
    · rfl

theorem find?_write (batch : Batch κ ν) (k : κ) :
    (write m batch).find? k =
      match last batch k with
      | some v => v.map (k, ·)
      | none => m.find? k := by
  induction batch generalizing m with
  | nil => rfl
  | cons change batch ih =>
    rw [write, foldl_cons, ← write, ih, last]
    cases last batch k with
    | some v => rfl
    | none =>
      rw [find?_put]
      by_cases hkey : change.1 = k
      · simp [hkey]
      · simp [hkey]

theorem last_append (first second : Batch κ ν) (k : κ) :
    last (first ++ second) k = (last second k).or (last first k) := by
  induction first with
  | nil => simp [last]
  | cons change first ih => rw [cons_append, last, ih, last, Option.or_assoc]

/-- What a key holds after the batch. -/
def after (batch : Batch κ ν) (k : κ) (before : Option ν) : Option ν := (last batch k).getD before

@[simp] theorem after_nil (k : κ) (before : Option ν) : after [] k before = before := rfl

theorem after_append (first second : Batch κ ν) (k : κ) (before : Option ν) :
    after (first ++ second) k before = after second k (after first k before) := by
  unfold after
  rw [last_append]
  cases last second k <;> rfl

theorem after_cons (k' : κ) (v : Option ν) (batch : Batch κ ν) (k : κ) (before : Option ν) :
    after ((k', v) :: batch) k before = after batch k (if k' = k then v else before) := by
  unfold after
  rw [last]
  cases last batch k with
  | some v => rfl
  | none => split <;> rfl

theorem write_append (first second : Batch κ ν) :
    write (write m first) second = write m (first ++ second) :=
  foldl_append.symm

theorem last_eq_none : last batch k = none ↔ ∀ v, (k, v) ∉ batch := by
  induction batch with
  | nil => simp [last]
  | cons change batch ih =>
    obtain ⟨k', v'⟩ := change
    rw [last, or_eq_none_iff, ih]
    constructor
    · rintro ⟨hrest, hne⟩ v hin
      rcases mem_cons.mp hin with heq | hin
      · cases heq
        simp at hne
      · exact hrest v hin
    · intro h
      refine ⟨fun v hin => h v (mem_cons_of_mem _ hin), if_neg ?_⟩
      rintro rfl
      exact h v' mem_cons_self

theorem mem_of_last (h : last batch k = some v) : (k, v) ∈ batch := by
  induction batch with
  | nil => cases h
  | cons change batch ih =>
    obtain ⟨k', v'⟩ := change
    rw [last, or_eq_some_iff] at h
    rcases h with h | ⟨-, h⟩
    · exact mem_cons_of_mem _ (ih h)
    · split at h
      · rename_i hkey
        cases h
        rw [hkey]
        exact mem_cons_self
      · cases h

/-- A change at a key that all changes there agree with is the last one. -/
theorem last_of_mem (hin : (k, v) ∈ batch) (hsame : ∀ v', (k, v') ∈ batch → v' = v) :
    last batch k = some v := by
  cases hlast : last batch k with
  | none => exact absurd hin (last_eq_none.mp hlast v)
  | some v' => rw [hsame v' (mem_of_last hlast)]

/-- Of batches made in reverse order the first that touches a key decides. -/
theorem last_flatMap_reverse {l : List α} {f : α → Batch κ ν} {i : Nat} {a : α}
    (hi : l[i]? = some a) (ha : last (f a) k = some v)
    (hbefore : ∀ j < i, ∀ b, l[j]? = some b → last (f b) k = none) :
    last (l.reverse.flatMap f) k = some v := by
  induction l generalizing i with
  | nil => cases hi
  | cons b l ih =>
    rw [reverse_cons, flatMap_append, last_append, flatMap_singleton]
    cases i with
    | zero =>
      cases hi
      rw [ha]
      rfl
    | succ i =>
      rw [hbefore 0 (by omega) b rfl, none_or]
      exact ih hi fun j hj c hc => hbefore (j + 1) (by omega) c hc

/-- A batch changes nothing when what it does last at each key is there already. -/
theorem write_same_iff {m : KeyedMap κ ν} :
    (∀ k, (write m batch).find? k = m.find? k) ↔
      ∀ k v, last batch k = some v → m.find? k = v.map (k, ·) := by
  constructor
  · intro h k v hlast
    rw [← h k, find?_write, hlast]
  · intro h k
    rw [find?_write]
    cases hlast : last batch k with
    | none => rfl
    | some v => exact (h k v hlast).symm

end Batch
