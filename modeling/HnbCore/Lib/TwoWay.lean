import HnbCore.Lib.KeyedSet

/-!
# Relations kept in two maps of sets

Keys and their holders: one map gives the holders of a key, the other the keys of a holder. A
holder leaves the relation by its keys: for each of them it is taken out of the first map.
-/

/-- A set of values. -/
abbrev PlainSet (α : Type) := KeyedSet (id : α → α)

namespace PlainSet

variable {α : Type} [DecidableEq α]

theorem contains_insert (s : PlainSet α) (a b : α) :
    (s.insert a).contains b = (decide (a = b) || s.contains b) :=
  KeyedSet.contains_insert s a b

theorem contains_erase (s : PlainSet α) (a b : α) :
    (s.erase a).contains b = (!decide (a = b) && s.contains b) := by
  rw [KeyedSet.contains_erase]
  by_cases h : a = b <;> simp [h]

theorem contains_iff_mem {s : PlainSet α} {a : α} : s.contains a = true ↔ a ∈ s.items := by
  rw [KeyedSet.contains_iff]
  simp

end PlainSet

structure TwoWay (κ η : Type) where
  forward : KeyedMap κ (PlainSet η) := .empty
  backward : KeyedMap η (PlainSet κ) := .empty
  deriving DecidableEq

namespace TwoWay

open KeyedSet

variable {κ η : Type} [DecidableEq κ] [DecidableEq η]

/-- `map[key]` of a map of sets. -/
def members {ι β : Type} [DecidableEq ι] (m : KeyedMap ι (PlainSet β)) (i : ι) : PlainSet β :=
  match m.find? i with
  | some (_, s) => s
  | none => .empty

variable (t : TwoWay κ η)

def link (k : κ) (h : η) : TwoWay κ η :=
  ⟨t.forward.assign (k, (members t.forward k).insert h),
    t.backward.assign (h, (members t.backward h).insert k)⟩

/-- `forward.at(k).erase(h)`. -/
def eraseHolder (h : η) (forward : KeyedMap κ (PlainSet η)) (k : κ) : KeyedMap κ (PlainSet η) :=
  match forward.find? k with
  | some (_, s) => forward.assign (k, s.erase h)
  | none => forward

/-- The same, and a key without holders is erased. -/
def dropHolder (h : η) (forward : KeyedMap κ (PlainSet η)) (k : κ) : KeyedMap κ (PlainSet η) :=
  match forward.find? k with
  | some (_, s) =>
      if (s.erase h).size = 0 then forward.erase k else forward.assign (k, s.erase h)
  | none => forward

/-- A holder leaves; its keys stay in the first map. -/
def unlinkKeeping (h : η) : TwoWay κ η :=
  if t.backward.contains h then
    ⟨(members t.backward h).items.foldl (eraseHolder h) t.forward, t.backward.erase h⟩
  else t

/-- A holder leaves, and so do the keys that have no other. -/
def unlinkDropping (h : η) : TwoWay κ η :=
  if t.backward.contains h then
    ⟨(members t.backward h).items.foldl (dropHolder h) t.forward, t.backward.erase h⟩
  else t

/-- A holder leaves the first map only. -/
def unlinkForward (h : η) : TwoWay κ η :=
  if t.backward.contains h then
    ⟨(members t.backward h).items.foldl (dropHolder h) t.forward, t.backward⟩
  else t

def Holds (k : κ) (h : η) : Prop := (members t.forward k).contains h = true

def Lists (h : η) (k : κ) : Prop := (members t.backward h).contains k = true

/-- The two maps are inverse relations. -/
def Inverse : Prop := ∀ k h, t.Holds k h ↔ t.Lists h k

/-- A holder occurs in one of the two maps. -/
def Mentions (h : η) : Prop :=
  t.backward.contains h = true ∨ ∃ k, t.Holds k h

variable {β ι : Type} {forward : KeyedMap κ (PlainSet η)}

theorem members_assign [DecidableEq ι] (m : KeyedMap ι (PlainSet β)) (i : ι)
    (s : PlainSet β) (j : ι) :
    members (m.assign (i, s)) j = if i = j then s else members m j := by
  unfold members
  rw [find?_assign]
  by_cases h : i = j <;> simp [h]

theorem members_erase [DecidableEq ι] (m : KeyedMap ι (PlainSet β)) (i j : ι) :
    members (m.erase i) j = if i = j then .empty else members m j := by
  unfold members
  rw [find?_erase]
  by_cases h : i = j <;> simp [h]

theorem contains_of_members [DecidableEq ι] [DecidableEq β]
    {m : KeyedMap ι (PlainSet β)} {i : ι} {b : β} (h : (members m i).contains b = true) :
    m.contains i = true := by
  unfold members at h
  unfold contains
  cases hfind : m.find? i with
  | none =>
    rw [hfind] at h
    cases h
  | some item => rfl

@[simp] theorem not_holds_empty (k : κ) (h : η) : ¬({} : TwoWay κ η).Holds k h := by
  intro hh
  cases hh

theorem inverse_empty : ({} : TwoWay κ η).Inverse := by
  intro k h
  exact Iff.rfl

theorem not_mentions_empty (h : η) : ¬({} : TwoWay κ η).Mentions h := by
  rintro (hb | ⟨k, hk⟩)
  · cases hb
  · exact not_holds_empty k h hk

section Link

variable (t : TwoWay κ η) (k : κ) (h : η)

theorem holds_link (k' : κ) (h' : η) :
    (t.link k h).Holds k' h' ↔ (k = k' ∧ h = h') ∨ t.Holds k' h' := by
  simp only [Holds, link, members_assign]
  by_cases hk : k = k'
  · subst hk
    simp [PlainSet.contains_insert]
  · simp [hk]

theorem lists_link (h' : η) (k' : κ) :
    (t.link k h).Lists h' k' ↔ (k = k' ∧ h = h') ∨ t.Lists h' k' := by
  simp only [Lists, link, members_assign]
  by_cases hh : h = h'
  · subst hh
    simp [PlainSet.contains_insert]
  · simp [hh]

theorem mentions_link (h' : η) : (t.link k h).Mentions h' ↔ h = h' ∨ t.Mentions h' := by
  unfold Mentions
  simp only [holds_link]
  have hb : (t.link k h).backward.contains h' = (decide (h = h') || t.backward.contains h') :=
    contains_assign _ _ _
  rw [hb, Bool.or_eq_true, decide_eq_true_eq]
  constructor
  · rintro ((hh | hc) | ⟨k', ⟨-, hh⟩ | hk⟩)
    · exact .inl hh
    · exact .inr (.inl hc)
    · exact .inl hh
    · exact .inr (.inr ⟨k', hk⟩)
  · rintro (hh | hc | ⟨k', hk⟩)
    · exact .inl (.inl hh)
    · exact .inl (.inr hc)
    · exact .inr ⟨k', .inr hk⟩

variable {t}

theorem Inverse.link (ht : t.Inverse) : (t.link k h).Inverse := by
  intro k' h'
  rw [holds_link, lists_link, ht k' h']

end Link

theorem contains_eraseHolder (h : η) (forward : KeyedMap κ (PlainSet η)) (k k' : κ) (h' : η) :
    (members (eraseHolder h forward k) k').contains h' =
      ((members forward k').contains h' && !(decide (k = k') && decide (h = h'))) := by
  unfold eraseHolder
  cases hfind : forward.find? k with
  | none =>
    by_cases hk : k = k'
    · subst hk
      simp [members, hfind]
    · simp [hk]
  | some item =>
    rw [members_assign]
    by_cases hk : k = k'
    · subst hk
      simp only [members, hfind, PlainSet.contains_erase, if_true, decide_true, Bool.true_and]
      rw [Bool.and_comm]
    · simp [hk]

theorem contains_dropHolder (h : η) (forward : KeyedMap κ (PlainSet η)) (k k' : κ) (h' : η) :
    (members (dropHolder h forward k) k').contains h' =
      ((members forward k').contains h' && !(decide (k = k') && decide (h = h'))) := by
  rw [← contains_eraseHolder]
  unfold dropHolder eraseHolder
  cases hfind : forward.find? k with
  | none => rfl
  | some item =>
    by_cases hsize : (item.2.erase h).size = 0
    · simp only [hsize, if_true]
      have hempty : ∀ x, (item.2.erase h).contains x = false := by
        intro x
        have hnil := List.length_eq_zero_iff.mp hsize
        simp [contains, find?, hnil]
      rw [members_erase, members_assign]
      by_cases hk : k = k'
      · simp only [hk, if_true, hempty]
        rfl
      · simp [hk]
    · simp only [hsize, if_false]

/-- Taking a holder out at every key of a list. -/
theorem contains_foldl_unlink {step : KeyedMap κ (PlainSet η) → κ → KeyedMap κ (PlainSet η)}
    {h : η} (hstep : ∀ m k k' h', (members (step m k) k').contains h' =
      ((members m k').contains h' && !(decide (k = k') && decide (h = h'))))
    (keys : List κ) (forward : KeyedMap κ (PlainSet η)) (k' : κ) (h' : η) :
    (members (keys.foldl step forward) k').contains h' =
      ((members forward k').contains h' && !(decide (k' ∈ keys) && decide (h = h'))) := by
  induction keys generalizing forward with
  | nil => simp
  | cons k keys ih =>
    rw [List.foldl_cons, ih, hstep, Bool.and_assoc]
    congr 1
    by_cases hk : k = k'
    · subst hk
      by_cases hh : h = h' <;> simp [hh]
    · have hk' : ¬k' = k := fun e => hk e.symm
      simp [hk, hk']

/-- A holder has left both maps. -/
structure Leaves (t t' : TwoWay κ η) (h : η) : Prop where
  holds : ∀ k h', t'.Holds k h' ↔ t.Holds k h' ∧ ¬(h = h' ∧ t.Lists h k)
  lists : ∀ h' k, t'.Lists h' k ↔ t.Lists h' k ∧ h ≠ h'
  back : ∀ h', t'.backward.contains h' = true ↔ t.backward.contains h' = true ∧ h ≠ h'

section Unlink

variable {t t' : TwoWay κ η} {h h' : η}

/-- By its keys, each of which loses it. -/
theorem leaves_of_step {step : KeyedMap κ (PlainSet η) → κ → KeyedMap κ (PlainSet η)}
    (hstep : ∀ m k k' h', (members (step m k) k').contains h' =
      ((members m k').contains h' && !(decide (k = k') && decide (h = h')))) :
    Leaves t (if t.backward.contains h then
      ⟨(members t.backward h).items.foldl step t.forward, t.backward.erase h⟩ else t) h := by
  by_cases hc : t.backward.contains h = true
  · rw [if_pos hc]
    refine ⟨fun k' h' => ?_, fun h' k => ?_, fun h' => ?_⟩
    · rw [Holds, contains_foldl_unlink hstep]
      simp only [Holds, Lists, PlainSet.contains_iff_mem, Bool.and_eq_true, Bool.not_eq_true',
        Bool.and_eq_false_iff, decide_eq_false_iff_not]
      tauto
    · rw [Lists, members_erase]
      by_cases hh : h = h' <;> simp [hh, Lists]
    · rw [contains_erase]
      by_cases hh : h = h' <;> simp [hh]
  · rw [if_neg hc]
    have hno : ∀ k, ¬t.Lists h k := fun k hl => hc (contains_of_members hl)
    refine ⟨fun k' h' => ?_, fun h' k => ?_, fun h' => ?_⟩
    · simp [hno]
    · exact ⟨fun hl => ⟨hl, fun heq => hno k (heq ▸ hl)⟩, And.left⟩
    · exact ⟨fun hb => ⟨hb, fun heq => hc (heq ▸ hb)⟩, And.left⟩

theorem unlinkKeeping_leaves (t : TwoWay κ η) (h : η) : Leaves t (t.unlinkKeeping h) h :=
  leaves_of_step (contains_eraseHolder h)

theorem unlinkDropping_leaves (t : TwoWay κ η) (h : η) : Leaves t (t.unlinkDropping h) h :=
  leaves_of_step (contains_dropHolder h)

/-- A holder that another leaves behind was there before. -/
theorem Leaves.mentions (hl : Leaves t t' h) (hm : t'.Mentions h') : t.Mentions h' := by
  rcases hm with hb | ⟨k, hk⟩
  · exact .inl ((hl.back h').mp hb).1
  · exact .inr ⟨k, ((hl.holds k h').mp hk).1⟩

theorem backward_unlinkForward : (t.unlinkForward h).backward = t.backward := by
  unfold unlinkForward
  split <;> rfl

theorem forward_unlinkForward : (t.unlinkForward h).forward = (t.unlinkDropping h).forward := by
  unfold unlinkForward unlinkDropping
  split <;> rfl

theorem mentions_of_unlinkForward (hm : (t.unlinkForward h).Mentions h') : t.Mentions h' := by
  rcases hm with hb | ⟨k, hk⟩
  · rw [backward_unlinkForward] at hb
    exact .inl hb
  · rw [Holds, forward_unlinkForward] at hk
    exact .inr ⟨k, (((unlinkDropping_leaves t h).holds k h').mp hk).1⟩

end Unlink

/-- A key of the first map, with holders or without. -/
theorem forward_link (k : κ) (h : η) (k' : κ) :
    (t.link k h).forward.contains k' = (decide (k = k') || t.forward.contains k') :=
  contains_assign _ _ _

theorem contains_of_dropHolder {h : η} {k k' : κ}
    (hc : (dropHolder h forward k).contains k' = true) : forward.contains k' = true := by
  unfold dropHolder at hc
  split at hc
  · rename_i item s hfind
    split at hc
    · rw [contains_erase] at hc
      exact (Bool.and_eq_true_iff.mp hc).2
    · rw [contains_assign] at hc
      rcases Bool.or_eq_true_iff.mp hc with hk | hc
      · cases of_decide_eq_true hk
        rw [contains, hfind]
        rfl
      · exact hc
  · exact hc

theorem contains_of_dropHolders {h : η} {keys : List κ} {k : κ}
    (hc : (keys.foldl (dropHolder h) forward).contains k = true) : forward.contains k = true := by
  induction keys generalizing forward with
  | nil => exact hc
  | cons _ keys ih => exact contains_of_dropHolder (ih hc)

theorem forward_of_unlinkDropping {t : TwoWay κ η} {h : η} {k : κ}
    (hc : (t.unlinkDropping h).forward.contains k = true) : t.forward.contains k = true := by
  unfold unlinkDropping at hc
  split at hc
  · exact contains_of_dropHolders hc
  · exact hc

theorem forward_of_unlinkForward {t : TwoWay κ η} {h : η} {k : κ}
    (hc : (t.unlinkForward h).forward.contains k = true) : t.forward.contains k = true := by
  rw [forward_unlinkForward] at hc
  exact forward_of_unlinkDropping hc

/-- The two maps are inverse, and mention holders that are live only. -/
structure Linked (t : TwoWay κ η) (live : η → Prop) : Prop where
  inverse : t.Inverse
  live : ∀ h, t.Mentions h → live h

theorem linked_empty (live : η → Prop) : ({} : TwoWay κ η).Linked live :=
  ⟨inverse_empty, fun h hm => absurd hm (not_mentions_empty h)⟩

namespace Linked

variable {t : TwoWay κ η} {live live' : η → Prop} {h : η}

section

variable (ht : t.Linked live)
include ht

theorem mono (himp : ∀ h, t.Mentions h → live h → live' h) :
    t.Linked live' :=
  ⟨ht.inverse, fun h hm => himp h hm (ht.live h hm)⟩

theorem link (k : κ) (hh : live h) : (t.link k h).Linked live := by
  refine ⟨ht.inverse.link k h, ?_⟩
  intro h' hm
  rcases (t.mentions_link k h h').mp hm with rfl | hm
  · exact hh
  · exact ht.live h' hm

/-- A holder has left both maps: the relation is what it was between the others. -/
theorem unlinked {t' : TwoWay κ η} (hl : Leaves t t' h) :
    t'.Linked fun h' => live h' ∧ h ≠ h' := by
  have hgone : ∀ k h', t'.Holds k h' → t.Holds k h' ∧ h ≠ h' := by
    intro k h' hk
    obtain ⟨hk, hnot⟩ := (hl.holds k h').mp hk
    refine ⟨hk, fun heq => hnot ⟨heq, ?_⟩⟩
    rw [heq]
    exact (ht.inverse k h').mp hk
  constructor
  · intro k h'
    rw [hl.lists, ← ht.inverse k h']
    constructor
    · exact hgone k h'
    · rintro ⟨hk, hne⟩
      exact (hl.holds k h').mpr ⟨hk, fun hboth => hne hboth.1⟩
  · rintro h' (hb | ⟨k, hk⟩)
    · obtain ⟨hb, hne⟩ := (hl.back h').mp hb
      exact ⟨ht.live h' (.inl hb), hne⟩
    · obtain ⟨hk, hne⟩ := hgone k h' hk
      exact ⟨ht.live h' (.inr ⟨k, hk⟩), hne⟩

theorem unlinkKeeping (h : η) : (t.unlinkKeeping h).Linked fun h' => live h' ∧ h ≠ h' :=
  ht.unlinked (unlinkKeeping_leaves t h)

theorem unlinkDropping (h : η) : (t.unlinkDropping h).Linked fun h' => live h' ∧ h ≠ h' :=
  ht.unlinked (unlinkDropping_leaves t h)

/-- A holder that the second map does not have leaves nothing behind in it. -/
theorem unlinkForward (hno : t.backward.contains h = false) :
    (t.unlinkForward h).Linked fun h' => live h' ∧ h ≠ h' := by
  have hsame : t.unlinkForward h = t := by
    rw [TwoWay.unlinkForward, hno]
    rfl
  rw [hsame]
  apply ht.mono
  intro h' hm hlive
  refine ⟨hlive, ?_⟩
  rintro rfl
  rcases hm with hb | ⟨k, hk⟩
  · rw [hno] at hb
    cases hb
  · have hb := contains_of_members ((ht.inverse k h).mp hk)
    rw [hno] at hb
    cases hb

end

end Linked

end TwoWay

/-- Each key has one holder and each holder one key; the two maps are inverse, and the holders are
live. -/
structure Paired {κ η : Type} [DecidableEq κ] [DecidableEq η] (forward : KeyedMap κ η)
    (backward : KeyedMap η κ) (live : η → Prop) : Prop where
  inverse : ∀ k h, forward.find? k = some (k, h) ↔ backward.find? h = some (h, k)
  live : ∀ k h, forward.find? k = some (k, h) → live h

namespace Paired

open KeyedSet

variable {κ η : Type} [DecidableEq κ] [DecidableEq η] {forward : KeyedMap κ η}
  {backward : KeyedMap η κ} {live live' : η → Prop} {k : κ} {h : η}

theorem empty (live : η → Prop) :
    Paired (empty : KeyedMap κ η) (empty : KeyedMap η κ) live := by
  constructor
  · intro k h
    simp
  · intro k h hk
    cases hk

section

variable (hp : Paired forward backward live)
include hp

theorem mono (himp : ∀ k h, forward.find? k = some (k, h) → live h → live' h) :
    Paired forward backward live' :=
  ⟨hp.inverse, fun k h hk => himp k h hk (hp.live k h hk)⟩

theorem erase (hk : backward.find? h = some (h, k)) :
    Paired (forward.erase k) (backward.erase h) fun h' => live h' ∧ h ≠ h' := by
  have hkey := (hp.inverse k h).mpr hk
  have hboth : ∀ k' h', forward.find? k' = some (k', h') → (k = k' ↔ h = h') := by
    intro k' h' hk'
    constructor
    · rintro rfl
      rw [hkey] at hk'
      cases hk'
      rfl
    · rintro rfl
      have hback := (hp.inverse k' h).mp hk'
      rw [hk] at hback
      cases hback
      rfl
  have hforward : ∀ k' h', (forward.erase k).find? k' = some (k', h') ↔
      forward.find? k' = some (k', h') ∧ h ≠ h' := by
    intro k' h'
    rw [find?_erase]
    split
    · rename_i heq
      constructor
      · intro hn
        cases hn
      · rintro ⟨hk', hne⟩
        exact absurd ((hboth k' h' hk').mp heq) hne
    · rename_i hne
      constructor
      · intro hk'
        exact ⟨hk', fun heq => hne ((hboth k' h' hk').mpr heq)⟩
      · exact And.left
  constructor
  · intro k' h'
    rw [hforward, hp.inverse k' h', find?_erase]
    split
    · rename_i heq
      simp [heq]
    · rename_i hne
      exact ⟨And.left, fun hk' => ⟨hk', hne⟩⟩
  · intro k' h' hk'
    obtain ⟨hk', hne⟩ := (hforward k' h').mp hk'
    exact ⟨hp.live k' h' hk', hne⟩

theorem erase_none (hnone : backward.find? h = none) :
    Paired forward backward fun h' => live h' ∧ h ≠ h' := by
  apply hp.mono
  intro k' h' hk' hlive
  refine ⟨hlive, ?_⟩
  rintro rfl
  rw [(hp.inverse k' h).mp hk'] at hnone
  cases hnone

theorem put {forward' : KeyedMap κ η} {backward' : KeyedMap η κ} (hforward : forward.find? k = none)
    (hbackward : backward.find? h = none) (hh : live h)
    (hforward' : ∀ k', forward'.find? k' = if k = k' then some (k, h) else forward.find? k')
    (hbackward' : ∀ h', backward'.find? h' = if h = h' then some (h, k) else backward.find? h') :
    Paired forward' backward' live := by
  constructor
  · intro k' h'
    rw [hforward', hbackward']
    by_cases hk : k = k'
    · subst hk
      by_cases hh : h = h'
      · subst hh
        simp
      · have hno : ¬backward.find? h' = some (h', k) := by
          rw [← hp.inverse, hforward]
          simp
        simp [hh, hno]
    · by_cases hh : h = h'
      · subst hh
        have hno : ¬forward.find? k' = some (k', h) := by
          rw [hp.inverse, hbackward]
          simp
        simp [hk, hno]
      · rw [if_neg hk, if_neg hh]
        exact hp.inverse k' h'
  · intro k' h' hk'
    rw [hforward'] at hk'
    split at hk'
    · cases hk'
      exact hh
    · exact hp.live k' h' hk'

theorem assign (hforward : forward.find? k = none)
    (hbackward : backward.find? h = none) (hh : live h) :
    Paired (forward.assign (k, h)) (backward.assign (h, k)) live :=
  hp.put hforward hbackward hh (find?_assign _ _) (find?_assign _ _)

theorem insert (hforward : forward.find? k = none)
    (hbackward : backward.find? h = none) (hh : live h) :
    Paired (forward.insert (k, h)) (backward.insert (h, k)) live := by
  apply hp.put hforward hbackward hh
  · intro k'
    rw [find?_insert]
    split
    · rename_i heq
      rw [← show k = k' from heq, hforward]
      rfl
    · rfl
  · intro h'
    rw [find?_insert]
    split
    · rename_i heq
      rw [← show h = h' from heq, hbackward]
      rfl
    · rfl

end

end Paired
