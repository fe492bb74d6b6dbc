import HnbCore.Lib.KeyedSet

/-!
# A least recently used cache

The most recently used entry stands first. A cache in front of a store is sound when everything it
holds is in the store; what a sound cache and its store answer together is what the store answers.
-/

/-- At most `maxSize` entries, the most recently used one first. -/
structure Lru (κ ν : Type) where
  entries : KeyedMap κ ν
  maxSize : Nat
  bounded : entries.size ≤ maxSize

namespace Lru

open KeyedSet

open List Option

variable {κ ν : Type} [DecidableEq κ]

def empty (maxSize : Nat) : Lru κ ν := ⟨KeyedSet.empty, maxSize, Nat.zero_le _⟩

def find? (c : Lru κ ν) (k : κ) : Option ν := (c.entries.find? k).map Prod.snd

def exists? (c : Lru κ ν) (k : κ) : Bool := c.entries.contains k

theorem exists?_eq (c : Lru κ ν) (k : κ) : c.exists? k = (c.find? k).isSome := by
  simp [exists?, find?, contains_eq_isSome]

/-- The entries without the least recently used one. -/
def dropLast (m : KeyedMap κ ν) : KeyedMap κ ν :=
  ⟨m.items.dropLast, m.nodup.sublist ((dropLast_sublist _).map _)⟩

theorem size_assign_le (m : KeyedMap κ ν) (e : κ × ν) : (m.assign e).size ≤ m.size + 1 := by
  have herase : (m.erase e.1).size ≤ m.size := length_filter_le _ _
  have hinsert : ((m.erase e.1).insert e).size ≤ (m.erase e.1).size + 1 := by
    unfold KeyedSet.insert
    split
    · omega
    · simp [size]
  exact hinsert.trans (by omega)

/-- The entry goes to the front; when the cache is too large its last entry goes. -/
def put (c : Lru κ ν) (k : κ) (v : ν) : Lru κ ν :=
  if h : (c.entries.assign (k, v)).size ≤ c.maxSize then ⟨c.entries.assign (k, v), c.maxSize, h⟩
  else ⟨dropLast (c.entries.assign (k, v)), c.maxSize, by
    have hsize := size_assign_le c.entries (k, v)
    have hbounded := c.bounded
    have hdrop : (dropLast (c.entries.assign (k, v))).size
        = (c.entries.assign (k, v)).size - 1 := length_dropLast
    omega⟩

def erase (c : Lru κ ν) (k : κ) : Lru κ ν :=
  ⟨c.entries.erase k, c.maxSize, (length_filter_le _ _).trans c.bounded⟩

/-- A hit moves the entry to the front. -/
def get (c : Lru κ ν) (k : κ) : Option ν × Lru κ ν :=
  match c.find? k with
  | some v => (some v, c.put k v)
  | none => (none, c)

@[simp] theorem get_fst (c : Lru κ ν) (k : κ) : (c.get k).1 = c.find? k := by
  unfold get
  cases h : c.find? k <;> rfl

@[simp] theorem find?_empty (n : Nat) (k : κ) : (empty n : Lru κ ν).find? k = none := rfl

variable {c : Lru κ ν} {k k' : κ} {v : ν} {store store' : κ → Option ν} {P P' : κ → Prop}

theorem find?_eq_some :
    c.find? k = some v ↔ (k, v) ∈ c.entries.items := by
  constructor
  · intro h
    obtain ⟨⟨k', v'⟩, hfind, rfl⟩ := map_eq_some_iff.mp h
    cases key_of_find? hfind
    exact mem_of_find? hfind
  · intro h
    rw [find?, show k = Prod.fst (k, v) from rfl, find?_of_mem h]
    rfl

theorem find?_erase (c : Lru κ ν) (k k' : κ) :
    (c.erase k').find? k = if k' = k then none else c.find? k := by
  simp only [find?, erase, KeyedSet.find?_erase]
  split <;> rfl

/-- A cache only ever holds what it held before and the entry just put. -/
theorem find?_put {w : ν} (h : (c.put k v).find? k' = some w) :
    (k' = k ∧ w = v) ∨ (k' ≠ k ∧ c.find? k' = some w) := by
  have hassign : (k', w) ∈ (c.entries.assign (k, v)).items := by
    have hmem := find?_eq_some.mp h
    unfold put at hmem
    split at hmem
    · exact hmem
    · exact dropLast_subset _ hmem
  have hfind := find?_of_mem hassign
  rw [find?_assign] at hfind
  by_cases hk : k = k'
  · subst hk
    simp at hfind
    exact .inl ⟨rfl, hfind.symm⟩
  · simp only [hk, if_false] at hfind
    exact .inr ⟨fun e => hk e.symm, by rw [find?, hfind]; rfl⟩

/-- Everything the cache holds is in the store. -/
def Sound (c : Lru κ ν) (store : κ → Option ν) : Prop :=
  ∀ k v, c.find? k = some v → store k = some v

theorem sound_empty (n : Nat) (store : κ → Option ν) : (empty n : Lru κ ν).Sound store := by
  intro k v h
  simp at h

theorem Sound.put (hc : c.Sound store) (hk : store k = some v) : (c.put k v).Sound store := by
  intro k' w h
  rcases find?_put h with ⟨rfl, rfl⟩ | ⟨_, hold⟩
  · exact hk
  · exact hc k' w hold

theorem Sound.get (hc : c.Sound store) (k : κ) :
    (c.get k).2.Sound store := by
  unfold Lru.get
  cases h : c.find? k with
  | some v => exact hc.put (hc k v h)
  | none => exact hc

/-- Looking in a sound cache first and then in the store finds what is in the store. -/
theorem Sound.find?_or (hc : c.Sound store) (k : κ) :
    (c.find? k).or (store k) = store k := by
  cases h : c.find? k with
  | some v => simp [hc k v h]
  | none => simp

/-- The store changes at one key and the cache follows by putting the new value. -/
theorem Sound.put_of_update (hc : c.Sound store)
    (hk : store' k = some v) (hother : ∀ k', k' ≠ k → store' k' = store k') :
    (c.put k v).Sound store' := by
  intro k' w h
  rcases find?_put h with ⟨rfl, rfl⟩ | ⟨hne, hold⟩
  · exact hk
  · rw [hother k' hne]
    exact hc k' w hold

/-- The store changes at one key and the cache follows by forgetting it. -/
theorem Sound.erase_of_update (hc : c.Sound store)
    (hother : ∀ k', k' ≠ k → store' k' = store k') : (c.erase k).Sound store' := by
  intro k' w h
  rw [find?_erase] at h
  split at h
  case isTrue => simp at h
  case isFalse hne =>
    rw [hother k' (fun e => hne e.symm)]
    exact hc k' w h

/-- Every key the cache holds has a property. -/
def Backed (c : Lru κ ν) (P : κ → Prop) : Prop := ∀ k, c.exists? k = true → P k

theorem exists?_put (h : (c.put k v).exists? k' = true) :
    k' = k ∨ (k' ≠ k ∧ c.exists? k' = true) := by
  rw [exists?_eq] at h
  obtain ⟨w, hw⟩ := isSome_iff_exists.mp h
  rcases find?_put hw with ⟨hk, -⟩ | ⟨hk, hold⟩
  · exact .inl hk
  · exact .inr ⟨hk, by rw [exists?_eq, hold]; rfl⟩

theorem exists?_erase (c : Lru κ ν) (k k' : κ) :
    (c.erase k').exists? k = (decide (k' ≠ k) && c.exists? k) := by
  rw [exists?_eq, find?_erase, exists?_eq]
  by_cases hk : k' = k <;> simp [hk]

theorem backed_empty (n : Nat) (P : κ → Prop) : (empty n : Lru κ ν).Backed P := by
  intro k h
  simp [exists?_eq] at h

theorem Backed.put (hc : c.Backed P) (hk : P k) :
    (c.put k v).Backed P := by
  intro k' h
  rcases exists?_put h with rfl | ⟨-, hold⟩
  · exact hk
  · exact hc k' hold

theorem Backed.put_of_update (hc : c.Backed P)
    (hk : P' k) (hother : ∀ k', k' ≠ k → P k' → P' k') : (c.put k v).Backed P' := by
  intro k' h
  rcases exists?_put h with rfl | ⟨hne, hold⟩
  · exact hk
  · exact hother k' hne (hc k' hold)

theorem Backed.erase_of_update (hc : c.Backed P)
    (hother : ∀ k', k' ≠ k → P k' → P' k') : (c.erase k).Backed P' := by
  intro k' h
  rw [exists?_erase, Bool.and_eq_true, decide_eq_true_eq] at h
  exact hother k' (fun e => h.1 e.symm) (hc k' h.2)

end Lru
