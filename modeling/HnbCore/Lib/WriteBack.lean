import HnbCore.Lib.KeyedSet

/-!
# Write-back caches

A layer of a stack of caches, at one key. The layer holds nothing there, or an entry with a value
(`none`: the key was removed) and two flags: the entry may differ from what lies below, and what
lies below is known to hold nothing.
-/

namespace WriteBack

open List Option

variable {ν : Type}

structure Entry (ν : Type) where
  value : Option ν
  dirty : Bool
  fresh : Bool

abbrev Slot (ν : Type) := Option (Entry ν)

/-- What a layer shows over what lies below it. -/
def shows (slot : Slot ν) (below : Option ν) : Option ν := slot.elim below Entry.value

@[simp] theorem shows_none (below : Option ν) : shows none below = below := rfl

@[simp] theorem shows_some (e : Entry ν) (below : Option ν) : shows (some e) below = e.value := rfl

/-- The flags of a slot tell the truth about what lies below. -/
structure Sound (slot : Slot ν) (below : Option ν) : Prop where
  clean : ∀ e, slot = some e → e.dirty = false → e.value = below
  fresh : ∀ e, slot = some e → e.fresh = true → below = none

theorem sound_none (below : Option ν) : Sound none below := by
  constructor <;> intro e he <;> cases he

variable {below value : Option ν} {fresh : Bool} {slot : Slot ν}

theorem sound_dirty (h : fresh = true → below = none) :
    Sound (some ⟨value, true, fresh⟩) below := by
  constructor
  · intro e he hclean
    cases he
    cases hclean
  · intro e he hfresh
    cases he
    exact h hfresh

/-- A copy of what lies below. -/
theorem sound_copy (h : value = below)
    (hfresh : fresh = true → below = none) : Sound (some ⟨value, false, fresh⟩) below := by
  constructor
  · intro e he _
    cases he
    exact h
  · intro e he hf
    cases he
    exact hfresh hf

/-- A new value. It may only replace a value when the caller says so, and is fresh when nothing
was changed here before. -/
def put (slot : Slot ν) (value : ν) (overwrite : Bool) : Option (Entry ν) :=
  let e := slot.getD ⟨none, false, false⟩
  if overwrite then some ⟨some value, true, e.fresh⟩
  else if e.value.isSome then none
  else some ⟨some value, true, e.fresh || !e.dirty⟩

/-- What is left of an entry whose key is removed. -/
def remove (e : Entry ν) : Slot ν := if e.fresh then none else some ⟨none, true, false⟩

/-- An entry of the layer above is written into this one. -/
def merge (child : Entry ν) (slot : Slot ν) : Option (Slot ν) :=
  if child.dirty then
    match slot with
    | none =>
        if child.fresh && child.value.isNone then some none
        else some (some ⟨child.value, true, child.fresh⟩)
    | some ours =>
        if child.fresh && ours.value.isSome then none
        else if ours.fresh && child.value.isNone then some none
        else some (some ⟨child.value, true, ours.fresh⟩)
  else some slot

theorem put_sound (h : Sound slot below) (value : ν)
    {overwrite : Bool} (hfree : overwrite = false → shows slot below = none) :
    ∃ e, put slot value overwrite = some e ∧ e.value = some value ∧ Sound (some e) below := by
  cases overwrite with
  | true =>
    refine ⟨_, rfl, rfl, sound_dirty ?_⟩
    cases slot with
    | none => intro hf; cases hf
    | some e => exact h.fresh e rfl
  | false =>
    have hnone := hfree rfl
    cases slot with
    | none => exact ⟨_, rfl, rfl, sound_dirty fun _ => hnone⟩
    | some e =>
      have hv : e.value = none := hnone
      refine ⟨⟨some value, true, e.fresh || !e.dirty⟩, by simp [put, hv], rfl, sound_dirty ?_⟩
      intro hf
      rcases Bool.or_eq_true_iff.mp hf with hf | hd
      · exact h.fresh e rfl hf
      · rw [← h.clean e rfl (by simpa using hd)]
        exact hv

theorem remove_sound {e : Entry ν} (h : Sound (some e) below) :
    shows (remove e) below = none ∧ Sound (remove e) below := by
  unfold remove
  by_cases hf : e.fresh = true
  · rw [if_pos hf]
    exact ⟨h.fresh e rfl hf, sound_none below⟩
  · rw [if_neg hf]
    exact ⟨rfl, sound_dirty fun hfalse => by cases hfalse⟩

/-- Merging an entry whose flags tell the truth about this layer is never refused, shows here what
the layer above showed, and keeps the flags of this layer true. -/
theorem merge_sound {child : Entry ν} (h : Sound slot below)
    (hchild : child.dirty = true → child.fresh = true → shows slot below = none) :
    ∃ merged, merge child slot = some merged ∧ Sound merged below ∧
      shows merged below = if child.dirty then child.value else shows slot below := by
  by_cases hd : child.dirty = true
  · have hfresh := hchild hd
    simp only [merge, if_pos hd]
    cases slot with
    | none =>
      by_cases hskip : (child.fresh && child.value.isNone) = true
      · obtain ⟨hf, hv⟩ := Bool.and_eq_true_iff.mp hskip
        refine ⟨none, by simp only [if_pos hskip], h, ?_⟩
        rw [isNone_iff_eq_none.mp hv]
        exact hfresh hf
      · exact ⟨_, by simp only [if_neg hskip], sound_dirty hfresh, rfl⟩
    | some ours =>
      have hkept : ¬(child.fresh && ours.value.isSome) = true := by
        intro hboth
        obtain ⟨hf, hv⟩ := Bool.and_eq_true_iff.mp hboth
        have hnone : ours.value = none := hfresh hf
        rw [hnone] at hv
        cases hv
      by_cases hskip : (ours.fresh && child.value.isNone) = true
      · obtain ⟨hf, hv⟩ := Bool.and_eq_true_iff.mp hskip
        refine ⟨none, by simp only [if_neg hkept, if_pos hskip], sound_none below, ?_⟩
        rw [isNone_iff_eq_none.mp hv]
        exact h.fresh ours rfl hf
      · exact ⟨_, by simp only [if_neg hkept, if_neg hskip], sound_dirty (h.fresh ours rfl), rfl⟩
  · exact ⟨slot, by simp only [merge, if_neg hd], h, by rw [if_neg hd]⟩

variable {α κ σ β ε : Type} [DecidableEq κ] {key : α → κ}

/-- A fallible loop over a table whose step rewrites what is observed at the item's key and
nothing else. -/
theorem foldlM_at {step : σ → α → Except ε σ} {obs : σ → κ → β} {next : α → β → Option β}
    (hstep : ∀ x a b, next a (obs x (key a)) = some b →
      ∃ y, step x a = .ok y ∧ ∀ k, obs y k = if key a = k then b else obs x k)
    (items : List α) (hnodup : (items.map key).Nodup) (x : σ)
    (hnext : ∀ a ∈ items, (next a (obs x (key a))).isSome) :
    ∃ y, items.foldlM step x = .ok y ∧ ∀ k, some (obs y k) =
      match items.find? (fun a => key a = k) with
      | some a => next a (obs x k)
      | none => some (obs x k) := by
  induction items generalizing x with
  | nil => exact ⟨x, rfl, fun k => rfl⟩
  | cons a items ih =>
    rw [map_cons, nodup_cons] at hnodup
    obtain ⟨b, hb⟩ := isSome_iff_exists.mp (hnext a mem_cons_self)
    obtain ⟨y, hy, hobs⟩ := hstep x a b hb
    have hother : ∀ c ∈ items, obs y (key c) = obs x (key c) := by
      intro c hc
      have hne : key a ≠ key c := fun he => hnodup.1 (he ▸ List.mem_map_of_mem hc)
      rw [hobs, if_neg hne]
    obtain ⟨z, hz, hzobs⟩ := ih hnodup.2 y (by
      intro c hc
      rw [hother c hc]
      exact hnext c (mem_cons_of_mem a hc))
    refine ⟨z, ?_, ?_⟩
    · rw [foldlM_cons, hy]
      exact hz
    · intro k
      rw [hzobs k, hobs k]
      by_cases hk : key a = k
      · have hnone : items.find? (fun c => key c = k) = none := by
          rw [find?_eq_none]
          intro c hc hck
          exact hnodup.1 (by
            rw [hk, ← of_decide_eq_true hck]
            exact List.mem_map_of_mem hc)
        rw [hnone, if_pos hk, find?_cons_of_pos (by simpa using hk), ← hk]
        exact hb.symm
      · rw [if_neg hk, find?_cons_of_neg (by simpa using hk)]

end WriteBack
