import HnbCore.HeaderWork

/-!
# The block index on disk

An entry of the block index keeps the fields of its header. `GetBlockHeader` puts them together
again, with the height of the index for the height in the header, and `WriteBatchSync` stores them,
with the nonce of the time of the header. At a restart `LoadBlockIndexGuts` files every entry under
the hash it computes from what it has read.
-/

namespace HnbCore

open Checks List Option KeyedSet

variable {tree tree' : BlockTree} {rules : HeaderRules} {block : CBlockHeader}

/-- `CDiskBlockIndex`: an entry with the hash of the one before it. -/
structure CDiskBlockIndex extends CBlockIndex where
  hashPrev : UInt256

open CDiskBlockIndex

/-- What `CDiskBlockIndex` serializes: the nonce of X16R, or the nonce and mix hash of KAWPOW. -/
structure DiskEntry where
  nHeight : Nat
  nStatus : BlockStatus
  nVersion : Int
  hashPrev : UInt256
  hashMerkleRoot : UInt256
  nTime : UInt32
  nBits : UInt32
  nonce : UInt32 ⊕ UInt64 × UInt256

/-- An entry as `SetNull` leaves it. -/
def CBlockIndex.null : CBlockIndex := ⟨none, 0, 0, {}, 0, 0, 0, 0, 0, 0, 0, 0⟩

namespace CDiskBlockIndex

def ofIndex (pindex : CBlockIndex) : CDiskBlockIndex :=
  { pindex with hashPrev := pindex.pprev.getD 0 }

def serialize (rules : HeaderRules) (diskindex : CDiskBlockIndex) : DiskEntry where
  nHeight := diskindex.nHeight
  nStatus := diskindex.nStatus
  nVersion := diskindex.nVersion
  hashPrev := diskindex.hashPrev
  hashMerkleRoot := diskindex.hashMerkleRoot
  nTime := diskindex.nTime
  nBits := diskindex.nBits
  nonce :=
    if diskindex.nTime < rules.nKAWPOWActivationTime then .inl diskindex.nNonce
    else .inr (diskindex.nNonce64, diskindex.mixHash)

/-- The header of an entry that was read. -/
def header (diskindex : CDiskBlockIndex) : CBlockHeader where
  nVersion := diskindex.nVersion
  hashPrevBlock := diskindex.hashPrev
  hashMerkleRoot := diskindex.hashMerkleRoot
  nTime := diskindex.nTime
  nBits := diskindex.nBits
  nNonce := diskindex.nNonce
  nHeight := UInt32.ofNat diskindex.nHeight
  nNonce64 := diskindex.nNonce64
  mixHash := diskindex.mixHash

def getBlockHash (rules : HeaderRules) (diskindex : CDiskBlockIndex) : UInt256 :=
  diskindex.header.getHash rules

end CDiskBlockIndex

/-- Reading an entry: its time says which nonce follows, and the other one stays null. -/
def DiskEntry.unserialize (rules : HeaderRules) (entry : DiskEntry) : Option CDiskBlockIndex :=
  let diskindex : CDiskBlockIndex :=
    { CBlockIndex.null with
      nHeight := entry.nHeight
      nStatus := entry.nStatus
      nVersion := entry.nVersion
      hashPrev := entry.hashPrev
      hashMerkleRoot := entry.hashMerkleRoot
      nTime := entry.nTime
      nBits := entry.nBits }
  if entry.nTime < rules.nKAWPOWActivationTime then
    match entry.nonce with
    | .inl nNonce => some { diskindex with nNonce := nNonce }
    | .inr _ => none
  else
    match entry.nonce with
    | .inl _ => none
    | .inr (nNonce64, mixHash) => some { diskindex with nNonce64 := nNonce64, mixHash := mixHash }

/-- The entries of the block tree database, under the hash of the block. -/
abbrev BlockIndexDB := KeyedMap UInt256 DiskEntry

/-- The part of `WriteBatchSync` for the block index. -/
def writeBatchSync (rules : HeaderRules) (db : BlockIndexDB)
    (vBlocks : List (UInt256 × CBlockIndex)) : BlockIndexDB :=
  vBlocks.foldl
    (fun db (hash, pindex) => db.assign (hash, (ofIndex pindex).serialize rules)) db

namespace BlockTree

/-- `InsertBlockIndex`: an entry that is not there yet is made; the null hash stands for none. -/
def insertBlockIndex (tree : BlockTree) (hash : UInt256) : BlockTree :=
  if hash = 0 then tree
  else
    match tree.find? hash with
    | some _ => tree
    | none => tree.set hash .null

end BlockTree

/-- The entry that `LoadBlockIndexGuts` fills in. -/
def CDiskBlockIndex.loaded (diskindex : CDiskBlockIndex) : CBlockIndex :=
  { diskindex.toCBlockIndex with
    pprev := if diskindex.hashPrev = 0 then none else some diskindex.hashPrev }

/-- One round of `LoadBlockIndexGuts`. There is no entry to fill in for the null hash. -/
def loadEntry (rules : HeaderRules) (tree : BlockTree) (entry : DiskEntry) : Option BlockTree := do
  let diskindex ← entry.unserialize rules
  let hash := diskindex.getBlockHash rules
  if hash = 0 then none
  else
    let tree := (tree.insertBlockIndex hash).insertBlockIndex diskindex.hashPrev
    if checkProofOfWork rules hash diskindex.nBits then some (tree.set hash diskindex.loaded)
    else none

def loadBlockIndexGuts (rules : HeaderRules) (db : BlockIndexDB) : Option BlockTree :=
  db.items.foldlM (fun tree item => loadEntry rules tree item.2) ⟨.empty, [], none⟩

namespace CBlockHeader

variable {rules : HeaderRules} {block : CBlockHeader}

/-- The header without the nonce that is not of its time. -/
def kept (rules : HeaderRules) (block : CBlockHeader) : CBlockHeader :=
  if block.nTime < rules.nKAWPOWActivationTime then { block with nNonce64 := 0, mixHash := 0 }
  else { block with nNonce := 0 }

theorem getHash_kept (rules : HeaderRules) (block : CBlockHeader) :
    (block.kept rules).getHash rules = block.getHash rules := by
  unfold kept getHash
  split <;> rfl

/-- The hash from before KAWPOW does not read the height. -/
theorem getHash_of_old (h : block.nTime < rules.nKAWPOWActivationTime) (nHeight : UInt32) :
    { block with nHeight := nHeight }.getHash rules = block.getHash rules := by
  simp only [getHash, if_pos h]
  rfl

end CBlockHeader

namespace CDiskBlockIndex

/-- The entry that comes back from disk. -/
def reread (rules : HeaderRules) (pindex : CBlockIndex) : CDiskBlockIndex :=
  let block := pindex.getBlockHeader.kept rules
  { pindex with
    pprev := none
    nChainWork := 0
    nTimeMax := 0
    nNonce := block.nNonce
    nNonce64 := block.nNonce64
    mixHash := block.mixHash
    hashPrev := block.hashPrevBlock }

variable (rules : HeaderRules) (pindex : CBlockIndex)

theorem unserialize_serialize :
    ((ofIndex pindex).serialize rules).unserialize rules = some (reread rules pindex) := by
  have hnTime : pindex.getBlockHeader.nTime = pindex.nTime := rfl
  by_cases htime : pindex.nTime < rules.nKAWPOWActivationTime
  · simp only [DiskEntry.unserialize, serialize, ofIndex, reread, CBlockHeader.kept, hnTime, htime,
      if_true]
    rfl
  · simp only [DiskEntry.unserialize, serialize, ofIndex, reread, CBlockHeader.kept, hnTime, htime,
      if_false]
    rfl

theorem header_reread :
    (reread rules pindex).header = pindex.getBlockHeader.kept rules := by
  unfold reread CBlockHeader.kept
  split <;> rfl

theorem getBlockHash_reread :
    (reread rules pindex).getBlockHash rules = pindex.getBlockHeader.getHash rules := by
  rw [getBlockHash, header_reread, CBlockHeader.getHash_kept]

end CDiskBlockIndex

/-- The height in the header is the one after the parent's. -/
def HeightWritten (tree : BlockTree) (block : CBlockHeader) : Prop :=
  ∀ prev, tree.find? block.hashPrevBlock = some prev →
    block.nHeight = UInt32.ofNat (prev.nHeight + 1)

/-- The header is from before KAWPOW, or its height is the one after the parent's. -/
def KeepsHash (rules : HeaderRules) (tree : BlockTree) (block : CBlockHeader) : Prop :=
  block.nTime < rules.nKAWPOWActivationTime ∨ HeightWritten tree block

/-- The entry stands for the header with another height. -/
theorem newIndex_header {prev : CBlockIndex} (hprev : tree.find? block.hashPrevBlock = some prev) :
    (tree.newIndex block).getBlockHeader =
      { block with nHeight := UInt32.ofNat (prev.nHeight + 1) } := by
  simp only [BlockTree.newIndex, hprev]
  rfl

theorem newIndex_getHash {prev : CBlockIndex} (hprev : tree.find? block.hashPrevBlock = some prev)
    (h : KeepsHash rules tree block) :
    (tree.newIndex block).getBlockHeader.getHash rules = block.getHash rules := by
  rw [newIndex_header hprev]
  rcases h with hold | hheight
  · exact CBlockHeader.getHash_of_old hold _
  · rw [← hheight prev hprev]

/-- An accepted header passes the proof-of-work check that is made with its hash. -/
theorem checkBlockHeader_getHash (h : checkBlockHeader rules tree block = .ok ()) :
    checkProofOfWork rules (block.getHash rules) block.nBits = true := by
  unfold checkBlockHeader at h
  by_cases hbelow : isBelowCheckpoint rules tree block = true
  · rw [if_pos hbelow] at h
    simpa using h
  · rw [if_neg hbelow] at h
    by_cases htime : block.nTime < rules.nKAWPOWActivationTime
    · have hfull : block.getHashFull rules = (block.getHash rules, 0) := by
        simp only [CBlockHeader.getHashFull, CBlockHeader.getHash, if_pos htime]
      rw [hfull] at h
      have hwhen : ¬rules.nKAWPOWActivationTime ≤ block.nTime := UInt32.not_le.mpr htime
      simpa [hwhen] using h
    · have hle : rules.nKAWPOWActivationTime ≤ block.nTime := UInt32.not_lt.mp htime
      have hfull : block.getHashFull rules = block.kawpowHash rules := if_neg htime
      rw [hfull] at h
      obtain ⟨hwork, hmix⟩ : checkProofOfWork rules (block.kawpowHash rules).1 block.nBits = true ∧
          (block.kawpowHash rules).2 = block.mixHash := by simpa [hle] using h
      have hhash : block.getHash rules = (block.kawpowHash rules).1 := by
        rw [CBlockHeader.getHash, if_neg htime, ← hmix]
        exact rules.pow.noVerify_eq _ _ _
      rw [hhash]
      exact hwork

/-- Every entry rebuilds to its hash, which is no null hash and has the work of its entry, and the
entry before it is there. -/
def IndexRebuilds (rules : HeaderRules) (tree : BlockTree) : Prop :=
  ∀ hash e, tree.find? hash = some e →
    e.getBlockHeader.getHash rules = hash ∧ hash ≠ 0 ∧
      checkProofOfWork rules hash e.getBlockHeader.nBits = true ∧
      (e.getBlockHeader.hashPrevBlock ≠ 0 →
        (tree.find? e.getBlockHeader.hashPrevBlock).isSome = true)

theorem SameHeaders.isSome (h : SameHeaders tree tree') (hash : UInt256) :
    (tree'.find? hash).isSome = (tree.find? hash).isSome := by
  have heq := congrArg Option.isSome (h hash)
  simpa using heq

theorem IndexRebuilds.of_sameHeaders (h : IndexRebuilds rules tree)
    (hsame : SameHeaders tree tree') : IndexRebuilds rules tree' := by
  intro hash e' hfind
  obtain ⟨e, he, hfixed⟩ := hsame.find? hfind
  have hheader : e.getBlockHeader = e'.getBlockHeader := congrArg Prod.fst hfixed
  obtain ⟨hhash, hnull, hwork, hprev⟩ := h hash e he
  rw [hheader] at hhash hwork hprev
  refine ⟨hhash, hnull, hwork, ?_⟩
  intro hne
  rw [hsame.isSome]
  exact hprev hne

/-- Headers are offered one after the other, and the statuses of entries change. A new header that
is accepted keeps its hash, which is not null. -/
inductive IndexRun (rules : HeaderRules) : BlockTree → BlockTree → Prop
  | start (tree : BlockTree) : IndexRun rules tree tree
  | accepted {tree₀ tree tree' : BlockTree} (ctx : HeaderContext) (block : CBlockHeader) :
      IndexRun rules tree₀ tree → KeepsHash rules tree block → block.getHash rules ≠ 0 →
      acceptBlockHeader rules ctx block tree = .ok () tree' → IndexRun rules tree₀ tree'
  | refused {tree₀ tree tree' : BlockTree} (ctx : HeaderContext) (block : CBlockHeader)
      (e : Reject) :
      IndexRun rules tree₀ tree → acceptBlockHeader rules ctx block tree = .error e tree' →
      IndexRun rules tree₀ tree'
  | marked {tree₀ tree tree' : BlockTree} :
      IndexRun rules tree₀ tree → SameHeaders tree tree' → IndexRun rules tree₀ tree'

/-- A header that is accepted is in the index already, or is new and was checked. -/
theorem acceptBlockHeader_cases {ctx : HeaderContext}
    (hgenesis : (tree.find? rules.hashGenesisBlock).isSome = true)
    (h : acceptBlockHeader rules ctx block tree = .ok () tree') :
    tree' = tree ∨
      ∃ prev, tree.find? (block.getHash rules) = none ∧
        tree.find? block.hashPrevBlock = some prev ∧ checkBlockHeader rules tree block = .ok () ∧
        tree' = tree.addToBlockIndex rules block := by
  simp only [acceptBlockHeader, run_bind_eq_ok, run_get_eq_ok] at h
  obtain ⟨tree, _, ⟨rfl, rfl⟩, h⟩ := h
  split at h
  case isTrue heq =>
    left
    obtain rfl := run_modify_eq_ok.mp h
    obtain ⟨e, hfind⟩ := isSome_iff_exists.mp hgenesis
    simp [BlockTree.addToBlockIndex, heq, hfind]
  case isFalse =>
    cases hknown : tree.find? (block.getHash rules) with
    | some pindex =>
      left
      simp only [hknown] at h
      exact (run_lift_eq_ok.mp h).2.symm
    | none =>
      right
      simp only [hknown] at h
      obtain ⟨prev, hprev, hcheck, -, rfl⟩ := checkNewHeader_ok h
      exact ⟨prev, rfl, hprev, hcheck, rfl⟩

theorem IndexRebuilds.accepted {ctx : HeaderContext} (h : IndexRebuilds rules tree)
    (hgenesis : (tree.find? rules.hashGenesisBlock).isSome = true)
    (hkeeps : KeepsHash rules tree block) (hnull : block.getHash rules ≠ 0)
    (hok : acceptBlockHeader rules ctx block tree = .ok () tree') :
    IndexRebuilds rules tree' ∧ (tree'.find? rules.hashGenesisBlock).isSome = true := by
  rcases acceptBlockHeader_cases hgenesis hok with rfl | ⟨prev, hnew, hprev, hcheck, rfl⟩
  · exact ⟨h, hgenesis⟩
  have hstays : ∀ hash, (tree.find? hash).isSome = true →
      ((tree.addToBlockIndex rules block).find? hash).isSome = true := by
    intro hash hsome
    obtain ⟨e, hfind⟩ := isSome_iff_exists.mp hsome
    rw [addToBlockIndex_keeps hash e hfind]
    rfl
  refine ⟨?_, hstays _ hgenesis⟩
  intro hash e hfind
  rw [find?_addToBlockIndex hnew] at hfind
  split at hfind
  case isTrue heq =>
    obtain rfl := some.inj hfind
    subst heq
    have hheader := newIndex_header hprev
    refine ⟨newIndex_getHash hprev hkeeps, hnull, ?_, ?_⟩
    · rw [hheader]
      exact checkBlockHeader_getHash hcheck
    · intro _
      apply hstays
      rw [hheader]
      show (tree.find? block.hashPrevBlock).isSome = true
      rw [hprev]
      rfl
  case isFalse =>
    obtain ⟨hhash, hnull', hwork, hlinked⟩ := h hash e hfind
    exact ⟨hhash, hnull', hwork, fun hne => hstays _ (hlinked hne)⟩

theorem IndexRun.rebuilds {tree₀ : BlockTree} (hrun : IndexRun rules tree₀ tree)
    (h : IndexRebuilds rules tree₀)
    (hgenesis : (tree₀.find? rules.hashGenesisBlock).isSome = true) :
    IndexRebuilds rules tree ∧ (tree.find? rules.hashGenesisBlock).isSome = true := by
  induction hrun with
  | start => exact ⟨h, hgenesis⟩
  | accepted ctx block _ hkeeps hnull hok ih => exact ih.1.accepted ih.2 hkeeps hnull hok
  | refused ctx block e _ herror ih =>
    have hsame := acceptBlockHeader_error herror
    exact ⟨ih.1.of_sameHeaders hsame, (hsame.isSome _).trans ih.2⟩
  | marked _ hsame ih => exact ⟨ih.1.of_sameHeaders hsame, (hsame.isSome _).trans ih.2⟩

/-- What of an entry comes back from disk: its height and its header, up to the nonce that is not of
its time. -/
def CBlockIndex.stored (rules : HeaderRules) (e : CBlockIndex) : CBlockHeader × Nat :=
  (e.getBlockHeader.kept rules, e.nHeight)

/-- The two trees have the same entries under the same hashes. -/
def SameTree (rules : HeaderRules) (tree tree' : BlockTree) : Prop :=
  ∀ hash, (tree'.find? hash).map (CBlockIndex.stored rules) =
    (tree.find? hash).map (CBlockIndex.stored rules)

theorem kept_kept (rules : HeaderRules) (block : CBlockHeader) :
    (block.kept rules).kept rules = block.kept rules := by
  have htime : (block.kept rules).nTime = block.nTime := by
    unfold CBlockHeader.kept
    split <;> rfl
  by_cases hold : block.nTime < rules.nKAWPOWActivationTime
  · rw [CBlockHeader.kept, htime, if_pos hold, CBlockHeader.kept, if_pos hold]
  · rw [CBlockHeader.kept, htime, if_neg hold, CBlockHeader.kept, if_neg hold]

theorem loaded_getBlockHeader (diskindex : CDiskBlockIndex) :
    diskindex.loaded.getBlockHeader = diskindex.header := by
  unfold loaded
  by_cases hnull : diskindex.hashPrev = 0
  · rw [if_pos hnull]
    simp only [CBlockIndex.getBlockHeader, header, hnull]
    rfl
  · rw [if_neg hnull]
    rfl

theorem stored_loaded (rules : HeaderRules) (e : CBlockIndex) :
    (reread rules e).loaded.stored rules = e.stored rules := by
  unfold CBlockIndex.stored
  rw [loaded_getBlockHeader, header_reread, kept_kept]
  rfl

theorem find?_insertBlockIndex (tree : BlockTree) (hash hash' : UInt256) :
    (tree.insertBlockIndex hash).find? hash' =
      if hash = hash' ∧ hash ≠ 0 then some ((tree.find? hash).getD .null)
      else tree.find? hash' := by
  unfold BlockTree.insertBlockIndex
  by_cases hnull : hash = 0
  · rw [if_pos hnull, if_neg fun h => h.2 hnull]
  · rw [if_neg hnull]
    by_cases hsame : hash = hash'
    · subst hsame
      rw [if_pos ⟨rfl, hnull⟩]
      cases hfind : tree.find? hash with
      | some e => simpa using hfind
      | none =>
        simp only [find?_set, if_true]
        rfl
    · rw [if_neg fun h => hsame h.1]
      cases tree.find? hash with
      | some e => rfl
      | none => simp only [find?_set, hsame, if_false]

/-- The database has the entries of the tree. -/
def HasEntries (rules : HeaderRules) (tree : BlockTree) (items : List (UInt256 × DiskEntry)) :
    Prop :=
  ∀ item ∈ items, ∃ e, tree.find? item.1 = some e ∧
    item.2 = (ofIndex e).serialize rules

/-- An entry has been filled in. -/
def FilledIn (rules : HeaderRules) (tree loading : BlockTree) (hash : UInt256) : Prop :=
  ∃ e, tree.find? hash = some e ∧
    loading.find? hash = some (reread rules e).loaded

section Load

variable {rules : HeaderRules} {tree loading : BlockTree}

/-- One round fills in the entry of the block it has read, keeps those filled in before and makes
no entry for a hash that is not in the tree. -/
theorem loadEntry_spec (h : IndexRebuilds rules tree)
    (hloading : ∀ hash, (loading.find? hash).isSome = true → (tree.find? hash).isSome = true)
    {hash : UInt256} {e : CBlockIndex} (hfind : tree.find? hash = some e) :
    ∃ loading', loadEntry rules loading ((ofIndex e).serialize rules) =
        some loading' ∧
      (∀ hash, (loading'.find? hash).isSome = true → (tree.find? hash).isSome = true) ∧
      FilledIn rules tree loading' hash ∧
      ∀ hash', FilledIn rules tree loading hash' → FilledIn rules tree loading' hash' := by
  obtain ⟨hhash, hnull, hwork, hprev⟩ := h hash e hfind
  have hprevHash : (reread rules e).hashPrev = e.getBlockHeader.hashPrevBlock := by
    unfold reread CBlockHeader.kept
    split <;> rfl
  have hbits : checkProofOfWork rules hash (reread rules e).nBits = true := hwork
  have hload : loadEntry rules loading ((ofIndex e).serialize rules) =
      some (((loading.insertBlockIndex hash).insertBlockIndex e.getBlockHeader.hashPrevBlock).set
        hash (reread rules e).loaded) := by
    unfold loadEntry
    rw [unserialize_serialize, bind_eq_bind, bind_some,
      getBlockHash_reread, hhash, if_neg hnull]
    simp only [hbits, if_true, hprevHash]
  refine ⟨_, hload, ?_, ⟨e, hfind, by rw [find?_set, if_pos rfl]⟩, ?_⟩
  · intro hash' hsome
    rw [find?_set] at hsome
    by_cases heq : hash = hash'
    · subst heq
      rw [hfind]
      rfl
    · rw [if_neg heq, find?_insertBlockIndex] at hsome
      split at hsome
      · rename_i hparent
        rw [← hparent.1]
        exact hprev hparent.2
      · rw [find?_insertBlockIndex, if_neg fun h => heq h.1] at hsome
        exact hloading hash' hsome
  · rintro hash' ⟨e', hfind', hfilled⟩
    refine ⟨e', hfind', ?_⟩
    rw [find?_set]
    by_cases heq : hash = hash'
    · subst heq
      rw [hfind] at hfind'
      cases hfind'
      rw [if_pos rfl]
    · rw [if_neg heq, find?_insertBlockIndex]
      split
      · rename_i hparent
        rw [hparent.1, find?_insertBlockIndex, if_neg fun h => heq h.1, hfilled]
        rfl
      · rw [find?_insertBlockIndex, if_neg fun h => heq h.1, hfilled]

variable (loading) in
theorem load_spec (h : IndexRebuilds rules tree) (items : List (UInt256 × DiskEntry))
    (hitems : HasEntries rules tree items)
    (hloading : ∀ hash, (loading.find? hash).isSome = true → (tree.find? hash).isSome = true) :
    ∃ loaded, items.foldlM (fun tree item => loadEntry rules tree item.2) loading = some loaded ∧
      (∀ hash, (loaded.find? hash).isSome = true → (tree.find? hash).isSome = true) ∧
      (∀ item ∈ items, FilledIn rules tree loaded item.1) ∧
      ∀ hash, FilledIn rules tree loading hash → FilledIn rules tree loaded hash := by
  induction items generalizing loading with
  | nil => exact ⟨loading, rfl, hloading, by simp, fun _ h => h⟩
  | cons item items ih =>
    obtain ⟨e, hfind, hentry⟩ := hitems item mem_cons_self
    obtain ⟨loading', hload, hloading', hfilled, hkeep⟩ := loadEntry_spec h hloading hfind
    obtain ⟨loaded, hrest, hloaded, hall, hkeep'⟩ :=
      ih loading' (fun item hitem => hitems item (mem_cons_of_mem _ hitem)) hloading'
    refine ⟨loaded, ?_, hloaded, ?_, fun hash hdone => hkeep' hash (hkeep hash hdone)⟩
    · rw [foldlM_cons, hentry, hload, bind_eq_bind, bind_some, hrest]
    · intro item' hitem'
      rcases mem_cons.mp hitem' with rfl | hitem'
      · exact hkeep' _ hfilled
      · exact hall item' hitem'

end Load

/-- All entries of a tree, written over a database with no others. -/
theorem find?_writeBatchSync (rules : HeaderRules) (tree : BlockTree) (db : BlockIndexDB)
    (hash : UInt256) :
    (writeBatchSync rules db tree.mapBlockIndex.items).find? hash =
      match tree.find? hash with
      | some e => some (hash, (ofIndex e).serialize rules)
      | none => db.find? hash := by
  unfold writeBatchSync
  rw [foldl_items_at tree.mapBlockIndex db (fun db => db.find? hash) hash
    (fun item _ => some (hash, (ofIndex item.2).serialize rules))]
  · unfold BlockTree.find?
    cases tree.mapBlockIndex.find? hash <;> rfl
  · intro db item hkey
    subst hkey
    simp only [find?_assign, if_true]
  · intro db item hkey
    simp only [find?_assign, hkey, if_false]

/-- What was written is loaded again, and gives the same tree. -/
theorem restart_sameTree (h : IndexRebuilds rules tree) (db : BlockIndexDB)
    (hdb : ∀ hash, (db.find? hash).isSome = true → (tree.find? hash).isSome = true) :
    ∃ tree', loadBlockIndexGuts rules (writeBatchSync rules db tree.mapBlockIndex.items) =
        some tree' ∧ SameTree rules tree tree' := by
  have hwritten := find?_writeBatchSync rules tree db
  have hitems : HasEntries rules tree
      (writeBatchSync rules db tree.mapBlockIndex.items).items := by
    intro item hitem
    have hfound := find?_of_mem hitem
    rw [hwritten] at hfound
    cases hfind : tree.find? item.1 with
    | none =>
      simp only [hfind] at hfound
      have hsome := hdb item.1 (by rw [hfound]; rfl)
      rw [hfind] at hsome
      cases hsome
    | some e =>
      rw [hfind] at hfound
      exact ⟨e, rfl, (congrArg Prod.snd (some.inj hfound)).symm⟩
  obtain ⟨tree', hload, honly, hfilled, -⟩ := load_spec ⟨.empty, [], none⟩ h
    (writeBatchSync rules db tree.mapBlockIndex.items).items hitems
    (by intro hash hsome; cases hsome)
  refine ⟨tree', hload, ?_⟩
  intro hash
  cases hfind : tree.find? hash with
  | none =>
    cases hfind' : tree'.find? hash with
    | none => rfl
    | some e =>
      have hsome := honly hash (by rw [hfind']; rfl)
      rw [hfind] at hsome
      cases hsome
  | some e =>
    have hmem := mem_of_find? ((hwritten hash).trans (by rw [hfind]))
    obtain ⟨e', he', hfind'⟩ := hfilled _ hmem
    rw [hfind] at he'
    cases he'
    rw [hfind', map_some, map_some, stored_loaded]

/-- The hash of the header that is rebuilt from the entry, and the hash that is computed from the
entry after it was written and read, are the one of the entry. -/
def Persists (rules : HeaderRules) (tree : BlockTree) (hash : UInt256) : Prop :=
  ∃ e, tree.find? hash = some e ∧ e.getBlockHeader.getHash rules = hash ∧
    ∃ diskindex, ((ofIndex e).serialize rules).unserialize rules = some diskindex ∧
      diskindex.getBlockHash rules = hash

theorem persists_iff {hash : UInt256} {e : CBlockIndex} (hfind : tree.find? hash = some e) :
    Persists rules tree hash ↔ e.getBlockHeader.getHash rules = hash := by
  constructor
  · rintro ⟨e', hfind', hhash, -⟩
    rw [hfind] at hfind'
    cases hfind'
    exact hhash
  · intro hhash
    exact ⟨e, hfind, hhash, _, unserialize_serialize rules e,
      (getBlockHash_reread rules e).trans hhash⟩

/-- A new header whose hash no other height gives persists if and only if it is from before KAWPOW
or has the height after its parent's. In a run where every header that is accepted is such a one
and has no null hash, every entry persists, and a restart loads the same tree. -/
theorem block_index_persists (rules : HeaderRules) :
    (∀ ctx block tree tree', acceptBlockHeader rules ctx block tree = .ok () tree' →
      block.getHash rules ≠ rules.hashGenesisBlock → tree.find? (block.getHash rules) = none →
      (rules.nKAWPOWActivationTime ≤ block.nTime → ∀ nHeight, nHeight ≠ block.nHeight →
        { block with nHeight := nHeight }.getHash rules ≠ block.getHash rules) →
      (Persists rules tree' (block.getHash rules) ↔ KeepsHash rules tree block)) ∧
    ∀ tree₀ tree, IndexRun rules tree₀ tree → IndexRebuilds rules tree₀ →
      (tree₀.find? rules.hashGenesisBlock).isSome = true →
      (∀ hash, (tree.find? hash).isSome = true → Persists rules tree hash) ∧
      ∀ db : BlockIndexDB,
        (∀ hash, (db.find? hash).isSome = true → (tree.find? hash).isSome = true) →
        ∃ tree', loadBlockIndexGuts rules (writeBatchSync rules db tree.mapBlockIndex.items) =
          some tree' ∧ SameTree rules tree tree' := by
  constructor
  · intro ctx block tree tree' h hgenesis hnew hother
    obtain ⟨prev, hprev, -, -, rfl⟩ := checkNewHeader_ok (acceptBlockHeader_new h hgenesis hnew)
    have hfind := find?_addToBlockIndex hnew (block.getHash rules)
    rw [if_pos rfl] at hfind
    rw [persists_iff hfind]
    constructor
    · intro hhash
      by_cases hold : block.nTime < rules.nKAWPOWActivationTime
      · exact Or.inl hold
      · right
        intro prev' hprev'
        rw [hprev] at hprev'
        cases hprev'
        by_contra hne
        rw [newIndex_header hprev] at hhash
        exact hother (UInt32.not_lt.mp hold) _ (Ne.symm hne) hhash
    · exact newIndex_getHash hprev
  · intro tree₀ tree hrun hstart hgenesis
    have hrebuilds := (hrun.rebuilds hstart hgenesis).1
    constructor
    · intro hash hsome
      obtain ⟨e, hfind⟩ := isSome_iff_exists.mp hsome
      exact (persists_iff hfind).mpr (hrebuilds hash e hfind).1
    · intro db hdb
      exact restart_sameTree hrebuilds db hdb

/-- The hash of a header depends on its height, and every header has its work. -/
def heightRules : HeaderRules :=
  { cheapRules with
    pow := {
      hashX16R := fun input => input.hashMerkleRoot
      hashX16RV2 := fun input => input.hashMerkleRoot
      serializeHash := fun input => input.hashMerkleRoot + BitVec.ofNat 256 input.nHeight.toNat
      progpowHash := fun _ headerHash _ => (headerHash, 7)
      progpowHashNoVerify := fun _ headerHash _ _ => headerHash
      noVerify_eq := fun _ _ _ => rfl } }

theorem headerAt_getHash (nHeight : UInt32) :
    (headerAt nHeight).getHash heightRules = 5 + BitVec.ofNat 256 nHeight.toNat := by
  have htime : ¬(headerAt nHeight).nTime < heightRules.nKAWPOWActivationTime := by
    show ¬(150 : UInt32) < 100
    decide
  rw [CBlockHeader.getHash, if_neg htime]
  rfl

theorem headerAt_other {nHeight nHeight' : UInt32} (h : nHeight' ≠ nHeight) :
    (headerAt nHeight').getHash heightRules ≠ (headerAt nHeight).getHash heightRules := by
  rw [headerAt_getHash, headerAt_getHash]
  intro heq
  have hnat := congrArg BitVec.toNat (BitVec.add_right_inj _ |>.mp heq)
  have hlt := nHeight.toNat_lt
  have hlt' := nHeight'.toNat_lt
  rw [BitVec.toNat_ofNat, BitVec.toNat_ofNat, Nat.mod_eq_of_lt (by omega),
    Nat.mod_eq_of_lt (by omega)] at hnat
  exact h (UInt32.toNat_inj.mp hnat)

theorem genesisTree_rebuilds : IndexRebuilds heightRules genesisTree := by
  have hall : ∀ item ∈ genesisTree.mapBlockIndex.items,
      item.2.getBlockHeader.getHash heightRules = item.1 ∧ item.1 ≠ 0 ∧
        checkProofOfWork heightRules item.1 item.2.getBlockHeader.nBits = true ∧
        item.2.getBlockHeader.hashPrevBlock = 0 := by decide +kernel
  intro hash e hfind
  obtain ⟨item, hitem, rfl⟩ := map_eq_some_iff.mp hfind
  obtain ⟨hhash, hnull, hwork, hprev⟩ := hall item (mem_of_find? hitem)
  rw [key_of_find? hitem] at hhash hnull hwork
  exact ⟨hhash, hnull, hwork, fun hne => absurd hprev hne⟩

theorem headerAt_one_persists :
    ∃ tree', acceptBlockHeader heightRules quietContext (headerAt 1) genesisTree = .ok () tree' ∧
      Persists heightRules tree' ((headerAt 1).getHash heightRules) ∧
      (∃ tree'', loadBlockIndexGuts heightRules
          (writeBatchSync heightRules .empty tree'.mapBlockIndex.items) = some tree'' ∧
        SameTree heightRules tree' tree'') := by
  have hok : succeeded (acceptBlockHeader heightRules quietContext (headerAt 1) genesisTree) =
      true := by decide +kernel
  obtain ⟨⟨⟩, tree', h⟩ := succeeded_iff.mp hok
  obtain ⟨hnew, hruns⟩ := block_index_persists heightRules
  have hwritten : KeepsHash heightRules genesisTree (headerAt 1) := by
    right
    intro prev hprev
    obtain rfl : _ = prev := some.inj hprev
    decide +kernel
  refine ⟨tree', h, ?_, ?_⟩
  · exact (hnew quietContext (headerAt 1) genesisTree tree' h (by decide +kernel)
      (by decide +kernel) (fun _ _ => headerAt_other)).mpr hwritten
  · obtain ⟨-, hrestart⟩ := hruns genesisTree tree'
      (.accepted quietContext (headerAt 1) (.start _) hwritten (by decide +kernel) h)
      genesisTree_rebuilds (by decide +kernel)
    exact hrestart .empty (by intro hash hsome; cases hsome)

/-- A header at height one that claims height two is accepted; the entry rebuilds to another
hash. -/
theorem headerAt_two_changes_hash :
    ∃ tree', acceptBlockHeader heightRules quietContext (headerAt 2) genesisTree = .ok () tree' ∧
      genesisTree.find? ((headerAt 2).getHash heightRules) = none ∧
      ∃ e, tree'.find? ((headerAt 2).getHash heightRules) = some e ∧
        e.getBlockHeader.getHash heightRules ≠ (headerAt 2).getHash heightRules := by
  have hok : succeeded (acceptBlockHeader heightRules quietContext (headerAt 2) genesisTree) =
      true := by decide +kernel
  obtain ⟨⟨⟩, tree', h⟩ := succeeded_iff.mp hok
  have hnew : genesisTree.find? ((headerAt 2).getHash heightRules) = none := by decide +kernel
  obtain ⟨prev, hprev, -, -, rfl⟩ :=
    checkNewHeader_ok (acceptBlockHeader_new h (by decide +kernel) hnew)
  refine ⟨_, h, hnew, genesisTree.newIndex (headerAt 2), ?_, by decide +kernel⟩
  rw [find?_addToBlockIndex hnew, if_pos rfl]

end HnbCore
