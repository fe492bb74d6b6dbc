import Mathlib.Algebra.BigOperators.Group.List.Basic
import Mathlib.Data.List.Nodup
import Mathlib.Tactic

/-!
# Sets keyed by a projection

The ordered containers of a C++ program: a `std::set` whose comparison reads one part of its
elements, and a `std::map` as the set of its pairs. Iteration order is not part of the type.
-/

/-- A finite set whose elements are told apart by `key` alone. -/
structure KeyedSet {α κ : Type} (key : α → κ) where
  items : List α
  nodup : (items.map key).Nodup

/-- A finite map, as the set of its pairs keyed by the first component. -/
abbrev KeyedMap (κ ν : Type) := KeyedSet (Prod.fst : κ × ν → κ)

namespace KeyedSet

open List

variable {α κ : Type} {key : α → κ}

def empty : KeyedSet key := ⟨[], nodup_nil⟩

instance : Inhabited (KeyedSet key) := ⟨empty⟩

instance [DecidableEq α] : DecidableEq (KeyedSet key) := fun s t =>
  decidable_of_iff (s.items = t.items) ⟨fun h => by cases s; cases t; simp_all, fun h => by rw [h]⟩

variable [DecidableEq κ]

def find? (s : KeyedSet key) (k : κ) : Option α := s.items.find? (fun a => key a = k)

def contains (s : KeyedSet key) (k : κ) : Bool := (s.find? k).isSome

variable {k : κ} {s : KeyedSet key} {a b : α} {l : List α} {β : Type}

theorem not_mem_map_key (h : s.contains k = false) :
    k ∉ s.items.map key := by
  intro hk
  obtain ⟨a, ha, rfl⟩ := mem_map.mp hk
  have hnone : s.items.find? (fun b => key b = key a) = none := by
    simpa [contains, find?] using h
  exact (find?_eq_none.mp hnone a ha) (by simp)

/-- `std::set::insert`: an element with the same key already there stays. -/
def insert (s : KeyedSet key) (a : α) : KeyedSet key :=
  if h : s.contains (key a) = true then s
  else ⟨a :: s.items, by
    have hk := not_mem_map_key (s := s) (by simpa using h)
    simpa using ⟨by simpa using hk, s.nodup⟩⟩

def erase (s : KeyedSet key) (k : κ) : KeyedSet key :=
  ⟨s.items.filter (fun a => key a ≠ k), s.nodup.sublist (filter_sublist.map key)⟩

/-- `map[k] = v`: an element with the same key is replaced. -/
def assign (s : KeyedSet key) (a : α) : KeyedSet key := (s.erase (key a)).insert a

def size (s : KeyedSet key) : Nat := s.items.length

@[simp] theorem find?_empty (k : κ) : (empty : KeyedSet key).find? k = none := rfl

@[simp] theorem contains_empty (k : κ) : (empty : KeyedSet key).contains k = false := rfl

theorem contains_eq_isSome (s : KeyedSet key) (k : κ) : s.contains k = (s.find? k).isSome := rfl

theorem key_of_find? (h : s.find? k = some a) : key a = k := by
  simpa using find?_some h

theorem mem_of_find? (h : s.find? k = some a) :
    a ∈ s.items :=
  mem_of_find?_eq_some h

/-- What holds of the key of every element holds of a key that is found. -/
theorem of_find? {R : κ → Prop} (h : s.find? k = some a) (hR : ∀ a ∈ s.items, R (key a)) : R k :=
  key_of_find? h ▸ hR a (mem_of_find? h)

theorem find?_cons (a : α) (l : List α) (h : ((a :: l).map key).Nodup) (k : κ) :
    find? ⟨a :: l, h⟩ k =
      if key a = k then some a else find? ⟨l, (nodup_cons.mp (by simpa using h)).2⟩ k := by
  by_cases hk : key a = k <;> simp [find?, hk]

theorem find?_of_mem (h : a ∈ s.items) : s.find? (key a) = some a := by
  obtain ⟨l, hl⟩ := s
  induction l with
  | nil => simp at h
  | cons b l ih =>
    rw [find?_cons]
    rcases mem_cons.mp h with rfl | hmem
    · simp
    · have hne : key b ≠ key a := by
        intro heq
        have hb : key b ∉ l.map key := (nodup_cons.mp (by simpa using hl)).1
        exact hb (heq ▸ mem_map_of_mem hmem)
      rw [if_neg hne]
      exact ih _ hmem

theorem contains_iff :
    s.contains k = true ↔ ∃ a ∈ s.items, key a = k := by
  rw [contains, Option.isSome_iff_exists]
  constructor
  · rintro ⟨a, ha⟩
    exact ⟨a, mem_of_find? ha, key_of_find? ha⟩
  · rintro ⟨a, ha, rfl⟩
    exact ⟨a, find?_of_mem ha⟩

theorem find?_insert (s : KeyedSet key) (a : α) (k : κ) :
    (s.insert a).find? k = if key a = k then some ((s.find? k).getD a) else s.find? k := by
  unfold insert
  split
  case isTrue h =>
    obtain ⟨b, hb⟩ := Option.isSome_iff_exists.mp h
    split
    case isTrue heq => subst heq; simp [hb]
    case isFalse => rfl
  case isFalse h =>
    have hnone : s.find? (key a) = none := by simpa [contains] using h
    rw [find?_cons]
    split
    case isTrue heq => subst heq; simp [hnone]
    case isFalse => rfl

theorem size_insert_ne_zero (s : KeyedSet key) (a : α) : (s.insert a).size ≠ 0 := by
  have hfind := find?_insert s a (key a)
  intro hsize
  rw [show (s.insert a).find? (key a) = none by
    simp [find?, length_eq_zero_iff.mp hsize]] at hfind
  cases hs : s.find? (key a) <;> simp [hs] at hfind

theorem contains_insert (s : KeyedSet key) (a : α) (k : κ) :
    (s.insert a).contains k = (decide (key a = k) || s.contains k) := by
  by_cases hk : key a = k <;> simp [contains, find?_insert, hk]

theorem find?_erase (s : KeyedSet key) (k k' : κ) :
    (s.erase k').find? k = if k' = k then none else s.find? k := by
  simp only [find?, erase, find?_filter]
  split
  case isTrue h => subst h; simp
  case isFalse h =>
    apply congrArg (fun p => s.items.find? p)
    funext a
    by_cases ha : key a = k
    · have : key a ≠ k' := fun h' => h (h'.symm.trans ha)
      simp [ha, Ne.symm h]
    · simp [ha]

theorem contains_erase (s : KeyedSet key) (k k' : κ) :
    (s.erase k').contains k = (decide (k' ≠ k) && s.contains k) := by
  by_cases hk : k' = k <;> simp [contains, find?_erase, hk]

theorem find?_assign (s : KeyedSet key) (a : α) (k : κ) :
    (s.assign a).find? k = if key a = k then some a else s.find? k := by
  rw [assign, find?_insert, find?_erase]
  by_cases hk : key a = k <;> simp [hk]

theorem contains_assign (s : KeyedSet key) (a : α) (k : κ) :
    (s.assign a).contains k = (decide (key a = k) || s.contains k) := by
  by_cases hk : key a = k <;> simp [contains, find?_assign, hk]

theorem mem_assign (h : b ∈ (s.assign a).items) :
    b = a ∨ b ∈ s.items := by
  have hfind := find?_of_mem h
  rw [find?_assign] at hfind
  split at hfind
  case isTrue => exact .inl (Option.some.inj hfind).symm
  case isFalse => exact .inr (mem_of_find? hfind)

theorem mem_foldl_assign (h : b ∈ (l.foldl assign s).items) : b ∈ l ∨ b ∈ s.items := by
  induction l generalizing s with
  | nil => exact .inr h
  | cons a l ih =>
    rcases ih h with hl | hs
    · exact .inl (mem_cons_of_mem _ hl)
    · rcases mem_assign hs with rfl | hs
      · exact .inl mem_cons_self
      · exact .inr hs

theorem find?_foldl_insert (l : List α) (s : KeyedSet key) (k : κ) :
    (l.foldl insert s).find? k = (s.find? k).or (l.find? (fun a => key a = k)) := by
  induction l generalizing s with
  | nil => simp
  | cons a l ih =>
    rw [foldl_cons, ih, find?_insert, List.find?_cons]
    by_cases hk : key a = k
    · cases hs : s.find? k <;> simp [hk]
    · simp [hk]

theorem find?_foldl_erase (f : β → κ) (l : List β) (s : KeyedSet key) (k : κ) :
    (l.foldl (fun t b => t.erase (f b)) s).find? k =
      if l.any (fun b => f b = k) then none else s.find? k := by
  induction l generalizing s with
  | nil => simp
  | cons b l ih =>
    rw [foldl_cons, ih, find?_erase, any_cons]
    by_cases hb : f b = k <;> by_cases hl : l.any (fun b => f b = k) <;> simp [hb, hl]

/-- A loop of assignments over another set: the set's own entries win. -/
theorem find?_foldl_assign (t s : KeyedSet key) (k : κ) :
    (t.items.foldl assign s).find? k = (t.find? k).or (s.find? k) := by
  obtain ⟨l, hl⟩ := t
  induction l generalizing s with
  | nil => simp [find?]
  | cons a l ih =>
    rw [foldl_cons, ih _ (nodup_cons.mp (by simpa using hl)).2, find?_assign, find?_cons]
    by_cases hk : key a = k
    · have hnone : l.find? (fun b => key b = k) = none := by
        refine find?_eq_none.mpr fun b hb => ?_
        have ha : key a ∉ l.map key := (nodup_cons.mp (by simpa using hl)).1
        intro hbk
        exact ha (by rw [hk, ← of_decide_eq_true hbk]; exact mem_map_of_mem hb)
      simp [find?, hk, hnone]
    · simp [hk]

/-- A loop over a set's items whose rounds show at one key only by the entry with that key. -/
theorem foldl_items_at {σ : Type} {f : σ → α → σ} (s : KeyedSet key) (x : σ) (obs : σ → β)
    (k : κ) (value : α → β → β) (hhit : ∀ x a, key a = k → obs (f x a) = value a (obs x))
    (hmiss : ∀ x a, key a ≠ k → obs (f x a) = obs x) :
    obs (s.items.foldl f x) = (s.find? k).elim (obs x) fun a => value a (obs x) := by
  have hnone : ∀ (l : List α) (x : σ), (∀ a ∈ l, key a ≠ k) → obs (l.foldl f x) = obs x := by
    intro l
    induction l with
    | nil => exact fun _ _ => rfl
    | cons a l ih =>
      intro x hl
      rw [foldl_cons, ih _ fun b hb => hl b (mem_cons_of_mem _ hb),
        hmiss x a (hl a mem_cons_self)]
  obtain ⟨l, hl⟩ := s
  induction l generalizing x with
  | nil => rfl
  | cons a l ih =>
    have hnodup := nodup_cons.mp hl
    rw [find?_cons, foldl_cons]
    by_cases hk : key a = k
    · rw [if_pos hk, hnone l _ fun b hb hbk => hnodup.1 ?_, hhit x a hk]
      · rfl
      · rw [hk, ← hbk]
        exact mem_map_of_mem hb
    · rw [if_neg hk, ih _ hnodup.2, hmiss x a hk]

/-- Scanning a set's items for a key finds what a lookup finds. -/
theorem items_find? (s : KeyedSet key) (k : κ) :
    s.items.find? (fun a => key a = k) = s.find? k := rfl

theorem items_any (s : KeyedSet key) (k : κ) :
    s.items.any (fun a => key a = k) = s.contains k := by
  rw [Bool.eq_iff_iff, contains_iff]
  simp

/-- A set whose entries are all in another set of the same size is that set. -/
theorem find?_eq_of_mem_of_size {t : KeyedSet key} (hmem : ∀ a ∈ s.items, a ∈ t.items)
    (hsize : s.size = t.size) (k : κ) : s.find? k = t.find? k := by
  have hperm : s.items.Perm t.items :=
    ((s.nodup.of_map key).subperm hmem).perm_of_length_le hsize.ge
  have hiff : ∀ a, s.find? k = some a ↔ t.find? k = some a := by
    intro a
    constructor
    · intro h
      exact key_of_find? h ▸ find?_of_mem (hperm.subset (mem_of_find? h))
    · intro h
      exact key_of_find? h ▸ find?_of_mem (hperm.symm.subset (mem_of_find? h))
  exact Option.ext hiff

def sumBy (s : KeyedSet key) (f : α → Int) : Int := (s.items.map f).sum

omit [DecidableEq κ] in
@[simp] theorem sumBy_empty (f : α → Int) : (empty : KeyedSet key).sumBy f = 0 := rfl

theorem erase_of_not_contains (h : s.contains k = false) :
    s.erase k = s := by
  have hall : ∀ a ∈ s.items, decide (key a ≠ k) = true := by
    intro a ha
    have hk := not_mem_map_key h
    simp only [decide_eq_true_eq]
    rintro rfl
    exact hk (mem_map_of_mem ha)
  cases s
  simp only [erase, mk.injEq]
  exact filter_eq_self.mpr hall

theorem sumBy_erase (h : s.find? k = some a) (f : α → Int) :
    (s.erase k).sumBy f = s.sumBy f - f a := by
  obtain ⟨l, hl⟩ := s
  induction l with
  | nil => simp [find?] at h
  | cons b l ih =>
    rw [find?_cons] at h
    by_cases hb : key b = k
    · simp only [hb, if_true, Option.some.injEq] at h
      subst h
      have hrest : l.filter (fun a => !decide (key a = k)) = l := by
        refine filter_eq_self.mpr fun a ha => ?_
        have hnot : key b ∉ l.map key := (nodup_cons.mp (by rwa [map_cons] at hl)).1
        simp only [Bool.not_eq_true', decide_eq_false_iff_not]
        rintro rfl
        exact hnot (hb ▸ mem_map_of_mem ha)
      simp [sumBy, erase, hb, hrest]
    · simp only [hb, if_false] at h
      have ih' := ih _ h
      simp only [sumBy, erase, ne_eq, decide_not] at ih'
      simp [sumBy, erase, hb, ih']
      omega

theorem sumBy_insert (h : s.contains (key a) = false) (f : α → Int) :
    (s.insert a).sumBy f = s.sumBy f + f a := by
  simp [insert, h, sumBy, add_comm]

/-- New elements with different keys come before the others. -/
theorem items_foldl_insert (hnodup : (l.map key).Nodup)
    (hnew : ∀ a ∈ l, s.contains (key a) = false) :
    (l.foldl insert s).items = l.reverse ++ s.items := by
  induction l generalizing s with
  | nil => rfl
  | cons a l ih =>
    obtain ⟨hnot, hnodup⟩ := nodup_cons.mp hnodup
    have hfirst : (s.insert a).items = a :: s.items := by
      simp [insert, hnew a mem_cons_self]
    rw [foldl_cons, ih hnodup, hfirst, reverse_cons, append_assoc,
      singleton_append]
    intro b hb
    rw [contains_insert, hnew b (mem_cons_of_mem _ hb), Bool.or_false,
      decide_eq_false_iff_not]
    rintro heq
    exact hnot (heq ▸ mem_map_of_mem hb)

theorem sumBy_assign_of_not_contains (h : s.contains (key a) = false)
    (f : α → Int) : (s.assign a).sumBy f = s.sumBy f + f a := by
  rw [assign, erase_of_not_contains h, sumBy_insert h]

theorem sumBy_assign_of_find? (h : s.find? (key a) = some b)
    (f : α → Int) : (s.assign a).sumBy f = s.sumBy f - f b + f a := by
  have hnot : (s.erase (key a)).contains (key a) = false := by simp [contains_erase]
  rw [assign, sumBy_insert hnot, sumBy_erase h]

end KeyedSet
