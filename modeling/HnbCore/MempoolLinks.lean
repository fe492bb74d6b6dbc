import HnbCore.Mempool

/-!
# The links between the entries of the pool

`mapLinks` keeps the parents and children of every entry, `mapNextTx` the entry that spends an
outpoint. Removals keep both true of the entries that stay.
-/

namespace HnbCore

open List Option Lists KeyedSet

namespace CTxMemPool

/-! ## What the links say -/

variable (pool : CTxMemPool)

/-- The transaction of an entry. -/
def tx? (hash : UInt256) : Option CTransaction :=
  (pool.mapTx.find? hash).map (·.tx)

/-- An entry spends an output of another. -/
def IsChild (parent child : UInt256) : Prop :=
  pool.exists? parent = true ∧
    ∃ tx, pool.tx? child = some tx ∧ ∃ txin ∈ tx.vin, txin.prevout.hash = parent

/-- The links of an entry have the child. -/
def HasChild (parent child : UInt256) : Prop :=
  (pool.getMemPoolChildren parent).contains child = true

/-- The links of an entry have the parent. -/
def HasParent (child parent : UInt256) : Prop :=
  (pool.getMemPoolParents child).contains parent = true

/-- The links and the spent outpoints are those of the entries. -/
structure Sound (pool : CTxMemPool) : Prop where
  children : ∀ parent child,
    (pool.getMemPoolChildren parent).contains child = true ↔ pool.IsChild parent child
  parents : ∀ child parent,
    (pool.getMemPoolParents child).contains parent = true ↔ pool.IsChild parent child
  nextTx : ∀ out tx, pool.mapNextTx.find? out = some (out, tx) ↔
    pool.tx? tx.hash = some tx ∧ out ∈ tx.vin.map (·.prevout)

section

variable {pool pool' : CTxMemPool} {hash : UInt256} {tx : CTransaction}

theorem exists?_eq_isSome (pool : CTxMemPool) (hash : UInt256) :
    pool.exists? hash = (pool.tx? hash).isSome := by
  simp [exists?, tx?, KeyedSet.contains]

theorem exists?_of_tx? (h : pool.tx? hash = some tx) : pool.exists? hash = true := by
  rw [exists?_eq_isSome, h]
  rfl

theorem tx?_of_find? {entry : CTxMemPoolEntry} (h : pool.mapTx.find? hash = some entry) :
    pool.tx? hash = some entry.tx := by
  rw [tx?, h]
  rfl

theorem hash_of_tx? (h : pool.tx? hash = some tx) : tx.hash = hash := by
  obtain ⟨entry, hfind, rfl⟩ := map_eq_some_iff.mp h
  have hkey : entry.hash = hash := key_of_find? hfind
  exact hkey

theorem SameTxs.tx? (h : SameTxs pool pool') (hash : UInt256) : pool'.tx? hash = pool.tx? hash := by
  have htxs := congrArg (Option.map Prod.fst) (h.txs hash)
  simpa [CTxMemPool.tx?, Function.comp_def] using htxs

theorem tx?_removeUnchecked (pool : CTxMemPool) (hash hash' : UInt256) :
    (pool.removeUnchecked hash).tx? hash' = if hash = hash' then none else pool.tx? hash' := by
  unfold removeUnchecked tx?
  cases hfind : pool.mapTx.find? hash with
  | none =>
    by_cases hh : hash = hash'
    · subst hh
      simp [hfind]
    · simp [hh]
  | some entry =>
    rw [find?_erase]
    by_cases hh : hash = hash' <;> simp [hh]

end

/-! ## Updates of the links -/

section Updates

variable (pool : CTxMemPool) (entry other : UInt256) (add : Bool)

theorem links_assign (l : TxLinks) (hash : UInt256) :
    { pool with mapLinks := pool.mapLinks.assign (entry, l) }.links hash =
      if entry = hash then l else pool.links hash := by
  rw [links, find?_assign]
  by_cases h : entry = hash <;> simp [h, links]

theorem parents_updateChild :
    (pool.updateChild entry other add).getMemPoolParents = pool.getMemPoolParents := by
  funext hash
  unfold getMemPoolParents updateChild
  rw [links_assign]
  split <;> simp_all

theorem children_updateParent :
    (pool.updateParent entry other add).getMemPoolChildren = pool.getMemPoolChildren := by
  funext hash
  unfold getMemPoolChildren updateParent
  rw [links_assign]
  split <;> simp_all

theorem hasChild_updateChild (hash child : UInt256) :
    (pool.updateChild entry other add).HasChild hash child ↔
      if add then pool.HasChild hash child ∨ (entry = hash ∧ other = child)
      else pool.HasChild hash child ∧ ¬(entry = hash ∧ other = child) := by
  unfold HasChild getMemPoolChildren updateChild
  rw [links_assign]
  by_cases h : entry = hash
  · cases add <;> simp [h, PlainSet.contains_insert, PlainSet.contains_erase, or_comm, and_comm]
  · cases add <;> simp [h]

theorem hasParent_updateParent (hash parent : UInt256) :
    (pool.updateParent entry other add).HasParent hash parent ↔
      if add then pool.HasParent hash parent ∨ (entry = hash ∧ other = parent)
      else pool.HasParent hash parent ∧ ¬(entry = hash ∧ other = parent) := by
  unfold HasParent getMemPoolParents updateParent
  rw [links_assign]
  by_cases h : entry = hash
  · cases add <;> simp [h, PlainSet.contains_insert, PlainSet.contains_erase, or_comm, and_comm]
  · cases add <;> simp [h]

theorem mapLinks_modify (f : CTxMemPoolEntry → CTxMemPoolEntry) :
    (pool.modify f entry).mapLinks = pool.mapLinks := by
  unfold modify
  split <;> rfl

end Updates

theorem mapLinks_foldl_modify (f : CTxMemPoolEntry → CTxMemPoolEntry) (l : List UInt256)
    (pool : CTxMemPool) : (l.foldl (modify f) pool).mapLinks = pool.mapLinks :=
  foldl_eq (fun pool hash => mapLinks_modify pool hash f) l pool

theorem links_eq_of_mapLinks {pool pool' : CTxMemPool} (h : pool'.mapLinks = pool.mapLinks)
    (hash : UInt256) : pool'.links hash = pool.links hash := by
  unfold links
  rw [h]

/-! ## Removal -/

section Removal

variable (pool : CTxMemPool) (hash : UInt256)

theorem foldl_updateChild (add : Bool) (l : List UInt256) :
    (∀ parent child, (l.foldl (fun pool parent => pool.updateChild parent hash add) pool).HasChild
        parent child ↔
      if add then pool.HasChild parent child ∨ (parent ∈ l ∧ hash = child)
      else pool.HasChild parent child ∧ ¬(parent ∈ l ∧ hash = child)) ∧
    (l.foldl (fun pool parent => pool.updateChild parent hash add) pool).getMemPoolParents =
      pool.getMemPoolParents := by
  constructor
  · intro parent child
    have hround := fun pool first => hasChild_updateChild pool first hash add parent child
    cases add
    · rw [foldl_and (P := (HasChild · parent child)) hround
        fun _ _ _ => Iff.rfl]
      simp
    · rw [foldl_or (P := (HasChild · parent child)) hround
        fun _ _ _ => Iff.rfl]
      simp
  · exact foldl_eq (fun pool parent => parents_updateChild pool parent hash add) l pool

theorem foldl_updateParent (l : List UInt256) :
    (∀ child parent, (l.foldl (fun pool child => pool.updateParent child hash false)
        pool).HasParent child parent ↔
      pool.HasParent child parent ∧ ¬(child ∈ l ∧ hash = parent)) ∧
    (l.foldl (fun pool child => pool.updateParent child hash false) pool).getMemPoolChildren =
      pool.getMemPoolChildren := by
  constructor
  · intro child parent
    rw [foldl_and (P := (HasParent · child parent))
      (fun pool first => hasParent_updateParent pool first hash false child parent)
      fun _ _ _ => Iff.rfl]
    simp
  · exact foldl_eq (fun pool child => children_updateParent pool child hash false) l pool

theorem updateAncestorsForRemoval_links :
    (∀ parent child, (pool.updateAncestorsForRemoval hash).HasChild parent child ↔
      pool.HasChild parent child ∧
        ¬(hash = child ∧ pool.exists? hash = true ∧ pool.HasParent hash parent)) ∧
    (pool.updateAncestorsForRemoval hash).getMemPoolParents = pool.getMemPoolParents := by
  unfold updateAncestorsForRemoval
  cases hfind : pool.mapTx.find? hash with
  | none =>
    simp [exists?, KeyedSet.contains, hfind]
  | some entry =>
    have hthere : pool.exists? hash = true := by simp [exists?, KeyedSet.contains, hfind]
    have hkey : entry.hash = hash := KeyedSet.key_of_find? hfind
    obtain ⟨hchildren, hparents⟩ :=
      foldl_updateChild pool hash false (pool.getMemPoolParents hash).items
    have hlinks := fun f l pool => links_eq_of_mapLinks (mapLinks_foldl_modify f l pool)
    simp only [updateAncestorsOf, hkey]
    constructor
    · intro parent child
      have hround := hchildren parent child
      unfold HasChild getMemPoolChildren at *
      rw [hlinks, hround, if_neg Bool.false_ne_true, ← PlainSet.contains_iff_mem]
      simp [hthere, HasParent, and_comm (b := hash = child)]
    · funext child
      rw [getMemPoolParents, hlinks, ← getMemPoolParents, hparents]

variable (l : List UInt256)

/-- The first pass: every entry of the list is taken out of the children of its parents. -/
theorem foldl_updateAncestorsForRemoval :
    (∀ parent child, (l.foldl updateAncestorsForRemoval pool).HasChild parent child ↔
      pool.HasChild parent child ∧
        ¬(child ∈ l ∧ pool.exists? child = true ∧ pool.HasParent child parent)) ∧
    (l.foldl updateAncestorsForRemoval pool).getMemPoolParents = pool.getMemPoolParents := by
  have hparents := fun pool hash => (updateAncestorsForRemoval_links pool hash).2
  constructor
  · intro parent child
    rw [foldl_and (P := (HasChild · parent child))
      fun pool hash => (updateAncestorsForRemoval_links pool hash).1 parent child]
    · simp
    · intro pool hash hash'
      rw [(updateAncestorsForRemoval_same pool hash).exists?, HasParent, hparents]
      rfl
  · exact foldl_eq hparents l pool

/-- The second pass: every entry of the list is taken out of the parents of its children. -/
theorem foldl_updateChildrenForRemoval :
    (∀ child parent, (l.foldl updateChildrenForRemoval pool).HasParent child parent ↔
      pool.HasParent child parent ∧ ¬(parent ∈ l ∧ pool.HasChild parent child)) ∧
    (l.foldl updateChildrenForRemoval pool).getMemPoolChildren = pool.getMemPoolChildren := by
  have hchildren : ∀ (pool : CTxMemPool) hash,
      (pool.updateChildrenForRemoval hash).getMemPoolChildren = pool.getMemPoolChildren :=
    fun pool hash => (foldl_updateParent pool hash _).2
  constructor
  · intro child parent
    have hround : ∀ (pool : CTxMemPool) hash, (pool.updateChildrenForRemoval hash).HasParent child
        parent ↔ pool.HasParent child parent ∧
          ¬(child ∈ (pool.getMemPoolChildren hash).items ∧ hash = parent) := fun pool hash =>
      (foldl_updateParent pool hash _).1 child parent
    rw [foldl_and (P := (HasParent · child parent)) hround]
    · simp [HasChild, PlainSet.contains_iff_mem]
    · intro pool hash hash'
      rw [hchildren]
  · exact foldl_eq hchildren l pool

theorem mapLinks_updateDescendantsForRemoval :
    (l.foldl updateDescendantsForRemoval pool).mapLinks = pool.mapLinks := by
  apply foldl_eq
  intro pool hash
  unfold updateDescendantsForRemoval
  split
  · exact mapLinks_foldl_modify _ _ _
  · rfl

theorem links_removeUnchecked (hash hash' : UInt256) :
    (pool.removeUnchecked hash).links hash' =
      if hash = hash' ∧ pool.exists? hash = true then {} else pool.links hash' := by
  unfold removeUnchecked
  cases hfind : pool.mapTx.find? hash with
  | none =>
    simp [exists?, KeyedSet.contains, hfind]
  | some entry =>
    have hthere : pool.exists? hash = true := by simp [exists?, KeyedSet.contains, hfind]
    simp only [links, KeyedSet.find?_erase, hthere, and_true]
    by_cases hh : hash = hash' <;> simp [hh]

theorem foldl_removeUnchecked :
    (∀ hash, (l.foldl removeUnchecked pool).tx? hash = if hash ∈ l then none else pool.tx? hash) ∧
    ∀ hash, (l.foldl removeUnchecked pool).links hash =
      if hash ∈ l ∧ pool.exists? hash = true then {} else pool.links hash := by
  induction l generalizing pool with
  | nil => simp
  | cons first l ih =>
    obtain ⟨htx, hlinks⟩ := ih (pool.removeUnchecked first)
    constructor
    · intro hash
      rw [foldl_cons, htx, tx?_removeUnchecked]
      by_cases hin : hash ∈ l
      · simp [hin]
      · by_cases hfirst : first = hash
        · simp [hin, hfirst]
        · have hne : ¬hash = first := fun heq => hfirst heq.symm
          simp [hin, hfirst, hne]
    · intro hash
      rw [foldl_cons, hlinks, links_removeUnchecked, exists?_removeUnchecked]
      by_cases hfirst : first = hash
      · subst hfirst
        simp
      · have hne : ¬hash = first := fun heq => hfirst heq.symm
        simp [hfirst, hne]

variable {pool}

theorem nextTx_removeUnchecked (h : ∀ out tx, pool.mapNextTx.find? out = some (out, tx) ↔
      pool.tx? tx.hash = some tx ∧ out ∈ tx.vin.map (·.prevout)) (hash : UInt256)
    (out : COutPoint) (tx : CTransaction) :
    (pool.removeUnchecked hash).mapNextTx.find? out = some (out, tx) ↔
      (pool.removeUnchecked hash).tx? tx.hash = some tx ∧ out ∈ tx.vin.map (·.prevout) := by
  rw [tx?_removeUnchecked]
  unfold removeUnchecked
  cases hfind : pool.mapTx.find? hash with
  | none =>
    rw [h]
    split
    · rename_i heq
      rw [← heq, tx?, hfind]
      simp
    · rfl
  | some entry =>
    have htx : pool.tx? hash = some entry.tx := by rw [tx?, hfind]; rfl
    have hkey := hash_of_tx? htx
    simp only [find?_foldl_erase]
    by_cases hspent : entry.tx.vin.any (fun txin => txin.prevout = out) = true
    · -- the entry is the only one that spends this outpoint
      simp only [hspent, if_true, reduceCtorEq, false_iff]
      rintro ⟨hthere, hin⟩
      split at hthere
      · cases hthere
      · rename_i hne
        have hnext := (h out tx).mpr ⟨hthere, hin⟩
        have hown := (h out entry.tx).mpr ⟨by rw [hkey]; exact htx, by simpa using hspent⟩
        rw [hnext] at hown
        cases hown
        exact hne hkey.symm
    · simp only [hspent, if_false, h, Bool.false_eq_true]
      split
      · rename_i heq
        constructor
        · rintro ⟨hthere, hin⟩
          rw [← heq, htx] at hthere
          cases hthere
          exact absurd (by simpa using hin) hspent
        · rintro ⟨hnone, -⟩
          cases hnone
      · rfl

theorem Sound.updateForRemoveFromMempool (h : pool.Sound) (stage : TxidSet)
    (updateDescendants : Bool) :
    (∀ parent child, (pool.updateForRemoveFromMempool stage
        updateDescendants).HasChild parent child ↔
      pool.IsChild parent child ∧ stage.contains child = false) ∧
    ∀ child parent, (pool.updateForRemoveFromMempool stage
        updateDescendants).HasParent child parent ↔
      pool.IsChild parent child ∧
        ¬(stage.contains parent = true ∧ stage.contains child = false) := by
  -- the sums of the descendants first; they leave the links alone
  obtain ⟨pool₁, hpool₁, hlinks, hexists⟩ : ∃ pool₁, pool₁ = (if updateDescendants then
      stage.items.foldl updateDescendantsForRemoval pool else pool) ∧
      (∀ hash, pool₁.links hash = pool.links hash) ∧
      ∀ hash, pool₁.exists? hash = pool.exists? hash := by
    refine ⟨_, rfl, ?_, ?_⟩
    · intro hash
      split
      · exact links_eq_of_mapLinks (mapLinks_updateDescendantsForRemoval pool stage.items) hash
      · rfl
    · intro hash
      split
      · exact (SameTxs.foldl updateDescendantsForRemoval_same stage.items pool).exists? hash
      · rfl
  have hchildren₁ : ∀ parent child,
      pool₁.HasChild parent child ↔ pool.IsChild parent child := by
    intro parent child
    rw [HasChild, getMemPoolChildren, hlinks]
    exact h.children parent child
  have hparents₁ : ∀ child parent,
      pool₁.HasParent child parent ↔ pool.IsChild parent child := by
    intro child parent
    rw [HasParent, getMemPoolParents, hlinks]
    exact h.parents child parent
  obtain ⟨hchildren₂, hparents₂⟩ := foldl_updateAncestorsForRemoval pool₁ stage.items
  obtain ⟨hparents₃, hchildren₃⟩ := foldl_updateChildrenForRemoval
    (stage.items.foldl updateAncestorsForRemoval pool₁) stage.items
  have hchildren : ∀ parent child,
      (stage.items.foldl updateAncestorsForRemoval pool₁).HasChild parent child ↔
        pool.IsChild parent child ∧ stage.contains child = false := by
    intro parent child
    rw [hchildren₂, hchildren₁, hparents₁, hexists, ← PlainSet.contains_iff_mem]
    constructor
    · rintro ⟨hchild, hnot⟩
      obtain ⟨-, tx, htx, -⟩ := id hchild
      refine ⟨hchild, Bool.eq_false_iff.mpr fun hin => hnot ⟨hin, exists?_of_tx? htx, hchild⟩⟩
    · rintro ⟨hchild, hout⟩
      refine ⟨hchild, ?_⟩
      rintro ⟨hin, -⟩
      rw [hout] at hin
      cases hin
  simp only [CTxMemPool.updateForRemoveFromMempool, ← hpool₁]
  constructor
  · intro parent child
    rw [HasChild, hchildren₃]
    exact hchildren parent child
  · intro child parent
    rw [hparents₃, HasParent, hparents₂, ← HasParent, hparents₁, hchildren,
      ← PlainSet.contains_iff_mem]
    constructor
    · rintro ⟨hchild, hnot⟩
      exact ⟨hchild, fun hb => hnot ⟨hb.1, hchild, hb.2⟩⟩
    · rintro ⟨hchild, hnot⟩
      exact ⟨hchild, fun hb => hnot ⟨hb.1, hb.2.2⟩⟩

/-- `RemoveStaged` takes out the entries of the stage and no others, and keeps the links. -/
theorem Sound.removeStaged (h : pool.Sound) (stage : TxidSet) (updateDescendants : Bool) :
    (pool.removeStaged stage updateDescendants).Sound ∧
      ∀ hash, (pool.removeStaged stage updateDescendants).tx? hash =
        if stage.contains hash = true then none else pool.tx? hash := by
  have hsame := updateForRemoveFromMempool_same pool stage updateDescendants
  obtain ⟨htx, hlinks⟩ := foldl_removeUnchecked
    (pool.updateForRemoveFromMempool stage updateDescendants) stage.items
  obtain ⟨hchildren, hparents⟩ := h.updateForRemoveFromMempool stage updateDescendants
  have htx' : ∀ hash, (pool.removeStaged stage updateDescendants).tx? hash =
      if stage.contains hash = true then none else pool.tx? hash := by
    intro hash
    rw [CTxMemPool.removeStaged, htx, hsame.tx?]
    simp only [PlainSet.contains_iff_mem]
  have hchild : ∀ parent child, (pool.removeStaged stage updateDescendants).IsChild parent child ↔
      pool.IsChild parent child ∧ stage.contains parent = false ∧ stage.contains child = false := by
    intro parent child
    unfold IsChild
    rw [exists?_eq_isSome, exists?_eq_isSome, htx', htx']
    by_cases hp : stage.contains parent = true <;> by_cases hc : stage.contains child = true <;>
      simp [hp, hc]
  have hgone : ∀ hash, (pool.removeStaged stage updateDescendants).links hash =
      if stage.contains hash = true ∧ pool.exists? hash = true then {} else
        (pool.updateForRemoveFromMempool stage updateDescendants).links hash := by
    intro hash
    rw [CTxMemPool.removeStaged, hlinks, hsame.exists?]
    simp only [PlainSet.contains_iff_mem]
  refine ⟨⟨?_, ?_, ?_⟩, htx'⟩
  · intro parent child
    rw [hchild, getMemPoolChildren, hgone]
    split
    · rename_i hin
      simp [hin.1]
    · rename_i hin
      rw [← getMemPoolChildren, ← HasChild, hchildren]
      constructor
      · rintro ⟨hc, hout⟩
        exact ⟨hc, Bool.eq_false_iff.mpr fun hp => hin ⟨hp, hc.1⟩, hout⟩
      · rintro ⟨hc, -, hout⟩
        exact ⟨hc, hout⟩
  · intro child parent
    rw [hchild, getMemPoolParents, hgone]
    split
    · rename_i hin
      simp [hin.1]
    · rename_i hin
      rw [← getMemPoolParents, ← HasParent, hparents]
      constructor
      · rintro ⟨hc, hnot⟩
        obtain ⟨-, tx, htx, -⟩ := id hc
        have hout : stage.contains child = false :=
          Bool.eq_false_iff.mpr fun hs => hin ⟨hs, exists?_of_tx? htx⟩
        exact ⟨hc, Bool.eq_false_iff.mpr fun hp => hnot ⟨hp, hout⟩, hout⟩
      · rintro ⟨hc, hout, -⟩
        refine ⟨hc, ?_⟩
        rintro ⟨hp, -⟩
        rw [hout] at hp
        cases hp
  · refine List.foldlRecOn (motive := fun pool : CTxMemPool => ∀ out tx,
      pool.mapNextTx.find? out = some (out, tx) ↔
        pool.tx? tx.hash = some tx ∧ out ∈ tx.vin.map (·.prevout)) stage.items _ ?_
      fun pool h hash _ => nextTx_removeUnchecked h hash
    intro out tx
    rw [hsame.nextTx, hsame.tx?]
    exact h.nextTx out tx

end Removal

/-! ## Descendants -/

section Descendants

variable {pool : CTxMemPool}

/-- An entry comes from another through any number of children. -/
def Descends (pool : CTxMemPool) : UInt256 → UInt256 → Prop := Relation.ReflTransGen pool.IsChild

/-- The hashes of the entries. -/
def txids (pool : CTxMemPool) : TxidSet :=
  ⟨pool.mapTx.items.map (·.hash), by
    rw [List.map_id]
    exact pool.mapTx.nodup⟩

theorem contains_txids (hash : UInt256) : pool.txids.contains hash = pool.exists? hash := by
  rw [Bool.eq_iff_iff, PlainSet.contains_iff_mem, exists?, KeyedSet.contains_iff]
  simp [txids]

theorem IsChild.exists? {parent child : UInt256} (h : pool.IsChild parent child) :
    pool.exists? child = true := by
  obtain ⟨-, tx, htx, -⟩ := h
  exact exists?_of_tx? htx

/-- The set is one of entries and has the children of its members. -/
structure ClosedSet (pool : CTxMemPool) (set : TxidSet) : Prop where
  entries : ∀ hash, set.contains hash = true → pool.exists? hash = true
  children : ∀ parent child, set.contains parent = true → pool.IsChild parent child →
    set.contains child = true

theorem ClosedSet.descends {set : TxidSet} (h : pool.ClosedSet set) {hash hash' : UInt256}
    (hin : set.contains hash = true) (hpath : pool.Descends hash hash') :
    set.contains hash' = true := by
  induction hpath with
  | refl => exact hin
  | tail _ hchild ih => exact h.children _ _ ih hchild

/-- `CalculateDescendants` adds an entry and all that comes from it. -/
theorem Sound.calculateDescendants (h : pool.Sound) {set : TxidSet} (hset : pool.ClosedSet set)
    {hash : UInt256} (hthere : pool.exists? hash = true) :
    pool.ClosedSet (pool.calculateDescendants hash set) ∧
      ∀ hash', (pool.calculateDescendants hash set).contains hash' = true ↔
        set.contains hash' = true ∨ pool.Descends hash hash' := by
  have hchildren : ∀ x y, y ∈ (pool.getMemPoolChildren x).items ↔ pool.IsChild x y := by
    intro x y
    rw [← PlainSet.contains_iff_mem]
    exact h.children x y
  let stage : TxidSet := if set.contains hash then .empty else empty.insert hash
  have hstage : ∀ x, stage.contains x = true ↔ hash = x ∧ set.contains hash = false := by
    intro x
    have hno : (empty : TxidSet).contains x = false := rfl
    simp only [stage]
    cases hin : set.contains hash with
    | true => simp [hno]
    | false => simp [PlainSet.contains_insert, hno]
  have hready :
      Worklist.Ready (fun x => (pool.getMemPoolChildren x).items) pool.txids stage set := by
    constructor
    · intro x hx
      obtain ⟨rfl, hout⟩ := (hstage x).mp hx
      exact hout
    · intro x hx y hy
      exact .inl (hset.children x y hx ((hchildren x y).mp hy))
    · intro x hx
      obtain ⟨rfl, -⟩ := (hstage x).mp hx
      rw [contains_txids]
      exact hthere
    · intro x _ y hy
      rw [contains_txids]
      exact ((hchildren x y).mp hy).exists?
  have hfuel : Worklist.remaining pool.txids set ≤ pool.mapTx.size := by
    unfold Worklist.remaining
    refine countP_le_length.trans ?_
    simp [txids, size]
  obtain ⟨hstart, hclosed, hleast⟩ := Worklist.walk_spec pool.mapTx.size hready hfuel
  have hresult : pool.calculateDescendants hash set = Worklist.walk
      (fun x => (pool.getMemPoolChildren x).items) pool.mapTx.size stage set := rfl
  rw [← hresult] at hstart hclosed hleast
  have hpath : ∀ y, (pool.calculateDescendants hash set).contains y = true →
      set.contains y = true ∨ pool.Descends hash y := by
    intro y hy
    rcases hleast y hy with hy | ⟨x, hx, hreach⟩
    · exact .inl hy
    · obtain ⟨rfl, -⟩ := (hstage x).mp hx
      exact .inr (Relation.ReflTransGen.mono (fun a b hab => (hchildren a b).mp hab) _ _ hreach)
  have hset' : pool.ClosedSet (pool.calculateDescendants hash set) := by
    constructor
    · intro y hy
      rcases hpath y hy with hy | hy
      · exact hset.entries y hy
      · rcases Relation.ReflTransGen.cases_tail hy with rfl | ⟨z, -, hchild⟩
        · exact hthere
        · exact hchild.exists?
    · intro x y hx hchild
      exact hclosed x hx y ((hchildren x y).mpr hchild)
  refine ⟨hset', fun y => ⟨hpath y, ?_⟩⟩
  rintro (hy | hy)
  · exact hstart y (.inl hy)
  · apply hset'.descends _ hy
    apply hstart
    cases hin : set.contains hash with
    | true => exact .inl rfl
    | false => exact .inr ((hstage hash).mpr ⟨rfl, hin⟩)

/-- `removeRecursive` of an entry takes out what comes from it and no others. -/
theorem Sound.removeRecursive (h : pool.Sound) {tx : CTransaction}
    (hthere : pool.exists? tx.hash = true) :
    (pool.removeRecursive tx).Sound ∧ ∀ hash tx', (pool.removeRecursive tx).tx? hash = some tx' ↔
      pool.tx? hash = some tx' ∧ ¬pool.Descends tx.hash hash := by
  have hempty : pool.ClosedSet .empty := by
    constructor
    · intro hash hin
      cases hin
    · intro parent child hin
      cases hin
  obtain ⟨-, hset⟩ := h.calculateDescendants hempty hthere
  have hstage : pool.calculateAllDescendants (pool.recursiveRoots tx) =
      pool.calculateDescendants tx.hash .empty := by
    rw [recursiveRoots, if_pos hthere]
    rfl
  obtain ⟨hsound, htx⟩ := h.removeStaged (pool.calculateDescendants tx.hash .empty) false
  rw [CTxMemPool.removeRecursive, hstage]
  refine ⟨hsound, ?_⟩
  intro hash tx'
  rw [htx]
  split
  · rename_i hin
    have hpath := ((hset hash).mp hin).resolve_left (by intro hno; cases hno)
    simp [hpath]
  · rename_i hout
    have hpath : ¬pool.Descends tx.hash hash := fun hp => hout ((hset hash).mpr (.inr hp))
    simp [hpath]

end Descendants

/-! ## Adding an entry -/

section Adding

variable (pool : CTxMemPool)

theorem foldl_linkParent (hash : UInt256) (l : List UInt256) :
    (∀ child parent, (l.foldl (fun pool parent => pool.updateParent hash parent true)
        pool).HasParent child parent ↔
      pool.HasParent child parent ∨ (parent ∈ l ∧ hash = child)) ∧
    (l.foldl (fun pool parent => pool.updateParent hash parent true) pool).getMemPoolChildren =
      pool.getMemPoolChildren := by
  constructor
  · intro child parent
    rw [foldl_or (P := (HasParent · child parent))
      (fun pool first => hasParent_updateParent pool hash first true child parent)
      fun _ _ _ => Iff.rfl]
    simp [and_comm]
  · exact foldl_eq (fun pool first => children_updateParent pool hash first true) l pool

theorem contains_searchForParents (tx : CTransaction) (parent : UInt256) :
    (pool.searchForParents tx).contains parent = true ↔
      pool.exists? parent = true ∧ ∃ txin ∈ tx.vin, txin.prevout.hash = parent := by
  have hround : ∀ (parents : TxidSet) (txin : CTxIn),
      (if pool.exists? txin.prevout.hash then parents.insert txin.prevout.hash
        else parents).contains parent = true ↔ parents.contains parent = true ∨
          (pool.exists? parent = true ∧ txin.prevout.hash = parent) := by
    intro parents txin
    split
    · rename_i hthere
      rw [PlainSet.contains_insert, Bool.or_eq_true, decide_eq_true_eq, or_comm]
      refine or_congr_right (iff_and_self.mpr ?_)
      rintro rfl
      exact hthere
    · rename_i hno
      refine ⟨.inl, ?_⟩
      rintro (hin | ⟨hex, rfl⟩)
      · exact hin
      · exact absurd hex hno
  unfold searchForParents
  refine (foldl_or (P := fun parents : TxidSet => parents.contains parent = true) hround
    (fun _ _ _ => Iff.rfl) tx.vin .empty).trans ?_
  simp only [contains_empty, Bool.false_eq_true, false_or]
  constructor
  · rintro ⟨txin, hin, hthere, heq⟩
    exact ⟨hthere, txin, hin, heq⟩
  · rintro ⟨hthere, txin, hin, heq⟩
    exact ⟨txin, hin, hthere, heq⟩

theorem links_insertEntry (entry : CTxMemPoolEntry) (hash : UInt256) :
    (pool.insertEntry entry).links hash = pool.links hash := by
  simp only [insertEntry, links, find?_insert]
  by_cases h : entry.hash = hash
  · cases pool.mapLinks.find? hash <;> simp [h]
  · simp [h]

theorem mapLinks_takeDelta (hash : UInt256) : (pool.takeDelta hash).mapLinks = pool.mapLinks := by
  unfold takeDelta
  split
  · split
    · exact mapLinks_modify _ _ _
    · rfl
  · rfl

/-- The entry is new to the pool: its inputs are not spent, and no entry spends it. -/
structure Enters (pool : CTxMemPool) (tx : CTransaction) : Prop where
  fresh : pool.exists? tx.hash = false
  unspent : ∀ txin ∈ tx.vin, pool.mapNextTx.contains txin.prevout = false
  childless : ∀ hash tx', pool.tx? hash = some tx' → ∀ txin ∈ tx'.vin, txin.prevout.hash ≠ tx.hash
  notOwn : ∀ txin ∈ tx.vin, txin.prevout.hash ≠ tx.hash

/-- The links that `addUnchecked` adds: between the entry and the entries it spends. -/
theorem addUnchecked_links {entry : CTxMemPoolEntry} (hnew : pool.Enters entry.tx)
    (hparentless : ∀ parent, ¬pool.HasParent entry.hash parent) (setAncestors : TxidSet) :
    (∀ parent child, (pool.addUnchecked entry setAncestors).HasChild parent child ↔
      pool.HasChild parent child ∨ (entry.hash = child ∧ pool.exists? parent = true ∧
        ∃ txin ∈ entry.tx.vin, txin.prevout.hash = parent)) ∧
    ∀ child parent, (pool.addUnchecked entry setAncestors).HasParent child parent ↔
      pool.HasParent child parent ∨ (entry.hash = child ∧ pool.exists? parent = true ∧
        ∃ txin ∈ entry.tx.vin, txin.prevout.hash = parent) := by
  -- the pool with the entry, before it is linked
  obtain ⟨pool₁, hpool₁⟩ : ∃ pool₁ : CTxMemPool,
      pool₁ = ((pool.insertEntry entry).takeDelta entry.hash).insertNextTx entry.tx := ⟨_, rfl⟩
  have hlinks₁ : ∀ hash, pool₁.links hash = pool.links hash := by
    intro hash
    rw [hpool₁, ← links_insertEntry pool entry hash]
    exact links_eq_of_mapLinks (mapLinks_takeDelta _ entry.hash) hash
  have hexists₁ : ∀ hash, pool₁.exists? hash =
      (decide (entry.hash = hash) || pool.exists? hash) := by
    intro hash
    rw [hpool₁, (insertNextTx_same pool entry).exists?]
    exact contains_insert _ _ _
  have hspent : ∀ parent, (pool₁.searchForParents entry.tx).contains parent = true ↔
      pool.exists? parent = true ∧ ∃ txin ∈ entry.tx.vin, txin.prevout.hash = parent := by
    intro parent
    rw [contains_searchForParents, hexists₁, Bool.or_eq_true, decide_eq_true_eq]
    constructor
    · rintro ⟨hparent, txin, hin, hprevout⟩
      exact ⟨hparent.resolve_left fun heq => hnew.notOwn txin hin (hprevout.trans heq.symm),
        txin, hin, hprevout⟩
    · exact fun ⟨hparent, hin⟩ => ⟨.inr hparent, hin⟩
  obtain ⟨hparents₂, hchildren₂⟩ :=
    foldl_linkParent pool₁ entry.hash (pool₁.searchForParents entry.tx).items
  have hthere : (pool₁.linkParents entry.tx).exists? entry.hash = true := by
    rw [(linkParents_same pool₁ entry.tx).exists?, hexists₁]
    simp
  obtain ⟨entry', hfind⟩ := isSome_iff_exists.mp hthere
  have hkey : entry'.hash = entry.hash := key_of_find? hfind
  have hresult : (pool.addUnchecked entry setAncestors).mapLinks =
      (((pool₁.linkParents entry.tx).getMemPoolParents entry.hash).items.foldl
        (fun pool parent => pool.updateChild parent entry.hash true)
          (pool₁.linkParents entry.tx)).mapLinks := by
    simp only [addUnchecked, ← hpool₁, hfind, updateEntryForAncestors, updateAncestorsOf,
      mapLinks_modify, mapLinks_foldl_modify, hkey]
  obtain ⟨hchildren₃, hparents₃⟩ := foldl_updateChild (pool₁.linkParents entry.tx) entry.hash true
    ((pool₁.linkParents entry.tx).getMemPoolParents entry.hash).items
  have hparents : ∀ child parent, (pool₁.linkParents entry.tx).HasParent child parent ↔
      pool.HasParent child parent ∨ (entry.hash = child ∧ pool.exists? parent = true ∧
        ∃ txin ∈ entry.tx.vin, txin.prevout.hash = parent) := by
    intro child parent
    have hround := hparents₂ child parent
    rw [← PlainSet.contains_iff_mem, hspent, and_comm (b := entry.hash = child)] at hround
    rw [HasParent, HasParent, getMemPoolParents, getMemPoolParents, ← hlinks₁ child]
    exact hround
  have hchildren : ∀ parent child,
      (pool₁.linkParents entry.tx).HasChild parent child ↔ pool.HasChild parent child := by
    intro parent child
    have hsame : (pool₁.linkParents entry.tx).getMemPoolChildren = pool₁.getMemPoolChildren :=
      hchildren₂
    rw [HasChild, hsame, getMemPoolChildren, hlinks₁]
    rfl
  constructor
  · intro parent child
    rw [HasChild, getMemPoolChildren, links_eq_of_mapLinks hresult, ← getMemPoolChildren,
      ← HasChild, hchildren₃, if_pos rfl, hchildren, ← PlainSet.contains_iff_mem, ← HasParent,
      hparents, or_iff_right (hparentless parent), and_comm (b := entry.hash = child)]
    simp
  · intro child parent
    rw [HasParent, getMemPoolParents, links_eq_of_mapLinks hresult, ← getMemPoolParents, hparents₃]
    exact hparents child parent

theorem sound_empty : ({} : CTxMemPool).Sound := by
  have hnone : ∀ parent child, ¬({} : CTxMemPool).IsChild parent child := by
    rintro parent child ⟨hparent, -⟩
    cases hparent
  refine ⟨fun parent child => ?_, fun child parent => ?_, fun out tx => ?_⟩
  · exact ⟨fun h => (by cases h), fun h => absurd h (hnone parent child)⟩
  · exact ⟨fun h => (by cases h), fun h => absurd h (hnone parent child)⟩
  · exact ⟨fun h => (by cases h), fun h => (by cases h.1)⟩

variable {pool}

theorem tx?_addUnchecked {entry : CTxMemPoolEntry} (hfresh : pool.exists? entry.hash = false)
    (setAncestors : TxidSet) (hash : UInt256) :
    (pool.addUnchecked entry setAncestors).tx? hash =
      if entry.hash = hash then some entry.tx else pool.tx? hash := by
  rw [(addUnchecked_same pool entry setAncestors).tx?]
  simp only [tx?, insertNextTx, insertEntry, find?_insert]
  split
  · rename_i heq
    rw [exists?, KeyedSet.contains, isSome_eq_false_iff, isNone_iff_eq_none,
      heq] at hfresh
    rw [hfresh]
    rfl
  · rfl

theorem find?_insertNextTx (pool : CTxMemPool) (tx : CTransaction)
    (hunspent : ∀ txin ∈ tx.vin, pool.mapNextTx.contains txin.prevout = false) (out : COutPoint) :
    (pool.insertNextTx tx).mapNextTx.find? out =
      if out ∈ tx.vin.map (·.prevout) then some (out, tx) else pool.mapNextTx.find? out := by
  have hfold : (pool.insertNextTx tx).mapNextTx =
      (tx.vin.map fun txin => (txin.prevout, tx)).foldl KeyedSet.insert pool.mapNextTx := by
    rw [foldl_map]
    rfl
  rw [hfold, find?_foldl_insert]
  split
  · rename_i hin
    obtain ⟨txin, htxin, rfl⟩ := List.mem_map.mp hin
    have hnone := hunspent txin htxin
    rw [KeyedSet.contains, isSome_eq_false_iff, isNone_iff_eq_none] at hnone
    rw [hnone, none_or]
    cases hfind : (tx.vin.map fun txin => (txin.prevout, tx)).find?
        (fun item => item.1 = txin.prevout) with
    | none =>
      have hno := find?_eq_none.mp hfind (txin.prevout, tx) (List.mem_map_of_mem htxin)
      simp at hno
    | some item =>
      obtain ⟨txin', -, rfl⟩ := List.mem_map.mp (mem_of_find?_eq_some hfind)
      have hkey := find?_some hfind
      rw [decide_eq_true_eq] at hkey
      rw [← hkey]
  · rename_i hout
    have hnone : (tx.vin.map fun txin => (txin.prevout, tx)).find?
        (fun item => item.1 = out) = none := by
      rw [find?_eq_none]
      intro item hitem
      obtain ⟨txin, htxin, rfl⟩ := List.mem_map.mp hitem
      simp only [decide_eq_true_eq]
      rintro rfl
      exact hout (List.mem_map_of_mem htxin)
    rw [hnone, or_none]

theorem Sound.addUnchecked (h : pool.Sound) {entry : CTxMemPoolEntry} (hnew : pool.Enters entry.tx)
    (setAncestors : TxidSet) : (pool.addUnchecked entry setAncestors).Sound := by
  have htx := tx?_addUnchecked hnew.fresh setAncestors
  have hexists := exists?_addUnchecked pool entry setAncestors
  have hparentless : ∀ parent, ¬pool.HasParent entry.hash parent := by
    intro parent hc
    have hthere := ((h.parents _ _).mp hc).exists?
    rw [show pool.exists? entry.hash = false from hnew.fresh] at hthere
    cases hthere
  have hchild : ∀ parent child, (pool.addUnchecked entry setAncestors).IsChild parent child ↔
      pool.IsChild parent child ∨ (entry.hash = child ∧ pool.exists? parent = true ∧
        ∃ txin ∈ entry.tx.vin, txin.prevout.hash = parent) := by
    intro parent child
    unfold IsChild
    rw [hexists, htx, Bool.or_eq_true, decide_eq_true_eq]
    by_cases hown : entry.hash = child
    · rw [if_pos hown]
      constructor
      · rintro ⟨hparent, tx, heq, txin, hin, hprevout⟩
        cases heq
        refine .inr ⟨hown, hparent.resolve_left ?_, txin, hin, hprevout⟩
        exact fun heq => hnew.notOwn txin hin (hprevout.trans heq.symm)
      · rintro (⟨-, tx, htx', -⟩ | ⟨-, hparent, hin⟩)
        · have hthere := exists?_of_tx? htx'
          rw [← hown, show pool.exists? entry.hash = false from hnew.fresh] at hthere
          cases hthere
        · exact ⟨.inr hparent, entry.tx, rfl, hin⟩
    · rw [if_neg hown]
      constructor
      · rintro ⟨hparent, tx, htx', txin, hin, hprevout⟩
        refine .inl ⟨hparent.resolve_left ?_, tx, htx', txin, hin, hprevout⟩
        exact fun heq => hnew.childless child tx htx' txin hin (hprevout.trans heq.symm)
      · rintro (⟨hparent, hrest⟩ | ⟨heq, -⟩)
        · exact ⟨.inr hparent, hrest⟩
        · exact absurd heq hown
  obtain ⟨hchildren, hparents⟩ := addUnchecked_links pool hnew hparentless setAncestors
  refine ⟨?_, ?_, ?_⟩
  · intro parent child
    rw [← HasChild, hchildren, hchild, HasChild, h.children]
  · intro child parent
    rw [← HasParent, hparents, hchild, HasParent, h.parents]
  · intro out tx
    rw [(addUnchecked_same pool entry setAncestors).nextTx, htx]
    have hnext := find?_insertNextTx (pool.insertEntry entry) entry.tx hnew.unspent out
    rw [hnext]
    by_cases hspent : out ∈ entry.tx.vin.map (·.prevout)
    · rw [if_pos hspent]
      constructor
      · intro heq
        cases heq
        exact ⟨if_pos rfl, hspent⟩
      · rintro ⟨hthere, hin⟩
        split at hthere
        · cases hthere
          rfl
        · obtain ⟨txin, htxin, rfl⟩ := List.mem_map.mp hspent
          have hno := hnew.unspent txin htxin
          rw [KeyedSet.contains, (h.nextTx _ tx).mpr ⟨hthere, hin⟩] at hno
          cases hno
    · rw [if_neg hspent]
      refine (h.nextTx out tx).trans ?_
      split
      · rename_i heq
        constructor
        · rintro ⟨hthere, -⟩
          have hno := hnew.fresh
          rw [show entry.tx.hash = tx.hash from heq, exists?_of_tx? hthere] at hno
          cases hno
        · rintro ⟨heq, hin⟩
          cases heq
          exact absurd hin hspent
      · rfl

end Adding

end CTxMemPool

end HnbCore
