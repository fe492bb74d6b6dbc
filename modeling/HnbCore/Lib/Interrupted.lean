import HnbCore.Lib.Batch

/-!
# Interrupted batches

The writes of a batch come in groups. Every write of a group is tried, and after the group the
batch is given up if one of them was refused. A write can also stop the batch at once. Whether a
write that did not succeed has been made is left open.
-/

namespace Batch

open List

variable {κ ν : Type} [DecidableEq κ]

/-- How a write ends. -/
inductive WriteResult
  | done
  | refused (made : Bool)
  | thrown (made : Bool)
  deriving DecidableEq, Repr

/-- The write, if it has been made. -/
def putIf (made : Bool) (m : KeyedMap κ ν) (change : κ × Option ν) : KeyedMap κ ν :=
  if made then put m change else m

/-- Where a group of writes leaves the map, and the number of the next write if the batch goes
on. The writes are numbered from `n`. -/
def runGroup (results : Nat → WriteResult) :
    Nat → Bool → KeyedMap κ ν → Batch κ ν → KeyedMap κ ν × Option Nat
  | n, dirty, m, [] => (m, if dirty then none else some n)
  | n, dirty, m, change :: group =>
      match results n with
      | .done => runGroup results (n + 1) dirty (put m change) group
      | .refused made => runGroup results (n + 1) true (putIf made m change) group
      | .thrown made => (putIf made m change, none)

/-- Where the groups leave the map, and whether all of them went through. -/
def runGroups (results : Nat → WriteResult) :
    Nat → KeyedMap κ ν → List (Batch κ ν) → KeyedMap κ ν × Bool
  | _, m, [] => (m, true)
  | n, m, group :: groups =>
      match runGroup results n false m group with
      | (m, some n) => runGroups results n m groups
      | (m, none) => (m, false)

section Spec

variable (results : Nat → WriteResult)

/-- The writes that a group has made, all of them if the batch goes on. -/
theorem runGroup_spec (n : Nat) (dirty : Bool) (m : KeyedMap κ ν) (group : Batch κ ν) :
    ∃ made, made.Sublist group ∧ (runGroup results n dirty m group).1 = write m made ∧
      ((runGroup results n dirty m group).2.isSome = true → dirty = false ∧ made = group) := by
  induction group generalizing n dirty m with
  | nil =>
    refine ⟨[], .slnil, rfl, ?_⟩
    cases dirty with
    | false => exact fun _ => ⟨rfl, rfl⟩
    | true => exact fun h => Bool.noConfusion h
  | cons change group ih =>
    have hmade : ∀ made : Bool, ∃ first, first.Sublist [change] ∧
        putIf made m change = write m first := by
      rintro (_ | _)
      · exact ⟨[], nil_sublist _, rfl⟩
      · exact ⟨[change], List.Sublist.refl _, rfl⟩
    unfold runGroup
    cases results n with
    | done =>
      obtain ⟨rest, hsub, hwrite, hall⟩ := ih (n + 1) dirty (put m change)
      refine ⟨change :: rest, hsub.cons_cons change, hwrite, ?_⟩
      intro h
      obtain ⟨hdirty, hrest⟩ := hall h
      exact ⟨hdirty, by rw [hrest]⟩
    | refused made =>
      obtain ⟨first, hfirst, hput⟩ := hmade made
      obtain ⟨rest, hsub, hwrite, hall⟩ := ih (n + 1) true (putIf made m change)
      refine ⟨first ++ rest, hfirst.append hsub, ?_, ?_⟩
      · rw [hwrite, hput, write_append]
      · intro h
        cases (hall h).1
    | thrown made =>
      obtain ⟨first, hfirst, hput⟩ := hmade made
      refine ⟨first, hfirst.trans ?_, hput, fun h => by cases h⟩
      exact List.Sublist.cons_cons change (nil_sublist group)

/-- The writes that were made, all of them if every group went through. -/
theorem runGroups_spec (n : Nat) (m : KeyedMap κ ν) (groups : List (Batch κ ν)) :
    ∃ made, made.Sublist groups.flatten ∧ (runGroups results n m groups).1 = write m made ∧
      ((runGroups results n m groups).2 = true → made = groups.flatten) := by
  induction groups generalizing n m with
  | nil => exact ⟨[], .slnil, rfl, fun _ => rfl⟩
  | cons group groups ih =>
    obtain ⟨first, hfirst, hwrite, hall⟩ :=
      runGroup_spec results n false m group
    rw [flatten_cons]
    cases hgroup : runGroup results n false m group with
    | mk m' next =>
      rw [hgroup] at hwrite hall
      cases next with
      | none =>
        refine ⟨first, hfirst.trans (sublist_append_left _ _), ?_, ?_⟩
        · simp only [runGroups, hgroup]
          exact hwrite
        · simp only [runGroups, hgroup]
          exact fun h => Bool.noConfusion h
      | some next =>
        obtain ⟨rest, hsub, hwrite', hall'⟩ := ih next m'
        refine ⟨first ++ rest, hfirst.append hsub, ?_, ?_⟩
        · simp only [runGroups, hgroup]
          rw [hwrite', show m' = write m first from hwrite, write_append]
        · simp only [runGroups, hgroup]
          intro h
          rw [(hall rfl).2, hall' h]

theorem runGroup_done (n : Nat) (m : KeyedMap κ ν) (group : Batch κ ν) :
    runGroup (fun _ => .done) n false m group = (write m group, some (n + group.length)) := by
  induction group generalizing n m with
  | nil => rfl
  | cons change group ih =>
    rw [runGroup, ih, length_cons, Nat.add_right_comm]
    rfl

/-- When every write succeeds the whole batch is written. -/
theorem runGroups_done (n : Nat) (m : KeyedMap κ ν) (groups : List (Batch κ ν)) :
    runGroups (fun _ => .done) n m groups = (write m groups.flatten, true) := by
  induction groups generalizing n m with
  | nil => rfl
  | cons group groups ih =>
    rw [runGroups, runGroup_done]
    simp only
    rw [ih, flatten_cons, write_append]

end Spec

/-- Writes at keys of the batch leave no trace once the whole batch has been written. -/
theorem find?_write_again (m : KeyedMap κ ν) {made batch : Batch κ ν}
    (h : ∀ change ∈ made, change ∈ batch) (k : κ) :
    (write (write m made) batch).find? k = (write m batch).find? k := by
  rw [write_append, find?_write, find?_write, last_append]
  cases hlast : last batch k with
  | some v => rfl
  | none =>
    have hmade : last made k = none := by
      rw [last_eq_none] at hlast ⊢
      intro v hin
      exact hlast v (h _ hin)
    rw [hmade]
    rfl

/-- However often a batch is interrupted, once it has gone through the map is what one
uninterrupted batch leaves. -/
theorem runGroups_again (m : KeyedMap κ ν) (groups : List (Batch κ ν))
    (attempts : List (Nat → WriteResult)) (k : κ) :
    (runGroups (fun _ => .done) 0
      (attempts.foldl (fun m results => (runGroups results 0 m groups).1) m) groups).1.find? k =
      (runGroups (fun _ => .done) 0 m groups).1.find? k := by
  rw [runGroups_done, runGroups_done]
  induction attempts generalizing m with
  | nil => rfl
  | cons results attempts ih =>
    obtain ⟨made, hsub, hwrite, -⟩ := runGroups_spec results 0 m groups
    rw [foldl_cons, ih, hwrite]
    exact find?_write_again m (fun change hin => hsub.subset hin) k

end Batch
