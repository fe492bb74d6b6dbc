import HnbCore.BlockCoins
import HnbCore.MempoolIndex
import HnbCore.MempoolLinks

/-!
# The pool after a block

The inputs of the entries come from the coins of the chain or from other entries. When a block is
connected, mined entries leave alone, entries that conflict with the block leave with all that
comes from them, and entries that are evicted for what the block changes leave alone again.
-/

namespace HnbCore

open List KeyedSet CTransaction CTxMemPool

variable {tx : CTransaction}

namespace CTxMemPool

variable {child : UInt256} {pool : CTxMemPool}

/-! ## Removing mined and conflicting entries -/

theorem Sound.nextTx_of_tx? (h : pool.Sound) {hash : UInt256} (htx : pool.tx? hash = some tx)
    {out : COutPoint} (hspends : out ∈ tx.prevouts) :
    pool.mapNextTx.find? out = some (out, tx) := by
  refine (h.nextTx out tx).mpr ⟨?_, hspends⟩
  rwa [hash_of_tx? htx]

/-- The entry comes from one that spends an outpoint which a transaction of the list, another one,
spends. -/
def LosesTo (pool : CTxMemPool) (done : List CTransaction) (hash : UInt256) : Prop :=
  ∃ tx ∈ done, ∃ root rootTx, pool.tx? root = some rootTx ∧ root ≠ tx.hash ∧
    (∃ out ∈ tx.prevouts, out ∈ rootTx.prevouts) ∧ pool.Descends root hash

/-- What is left of a pool after some transactions have been removed as `removeForBlock` does it:
they are gone, entries lose a parent to them only, an entry is gone for a reason, and the outpoints
they spend are spent by no entry. -/
structure Cleared (start pool : CTxMemPool) (done : List CTransaction) (outs : List COutPoint) :
    Prop where
  sound : pool.Sound
  sub : ∀ hash tx, pool.tx? hash = some tx → start.tx? hash = some tx
  gone : ∀ tx ∈ done, pool.exists? tx.hash = false
  closed : ∀ parent child, start.IsChild parent child → pool.exists? child = true →
    pool.exists? parent = true ∨ parent ∈ done.map (·.hash)
  reason : ∀ hash, start.exists? hash = true → pool.exists? hash = false →
    hash ∈ done.map (·.hash) ∨ start.LosesTo done hash
  unspent : ∀ out ∈ outs, ∀ hash tx, pool.tx? hash = some tx → out ∉ tx.prevouts

namespace Cleared

variable {start pool : CTxMemPool} {done : List CTransaction} {outs : List COutPoint}

theorem refl (h : start.Sound) : Cleared start start [] [] where
  sound := h
  sub := fun _ _ htx => htx
  gone := by simp
  closed := fun _ _ hchild _ => .inl hchild.1
  reason := by
    intro hash hthere hgone
    rw [hthere] at hgone
    cases hgone
  unspent := by simp

variable {hash parent : UInt256}

section

variable (h : Cleared start pool done outs)
include h

theorem exists_start (hthere : pool.exists? hash = true) : start.exists? hash = true := by
  rw [exists?_eq_isSome, Option.isSome_iff_exists] at hthere
  obtain ⟨tx, htx⟩ := hthere
  exact exists?_of_tx? (h.sub hash tx htx)

theorem tx?_eq (hthere : pool.exists? hash = true) : pool.tx? hash = start.tx? hash := by
  rw [exists?_eq_isSome, Option.isSome_iff_exists] at hthere
  obtain ⟨tx, htx⟩ := hthere
  rw [htx, h.sub hash tx htx]

theorem isChild_start (hchild : pool.IsChild parent child) : start.IsChild parent child := by
  obtain ⟨hparent, tx, htx, hin⟩ := hchild
  exact ⟨h.exists_start hparent, tx, h.sub child tx htx, hin⟩

theorem isChild_of_start
    (hchild : start.IsChild parent child) (hparent : pool.exists? parent = true)
    (hthere : pool.exists? child = true) : pool.IsChild parent child := by
  obtain ⟨-, tx, htx, hin⟩ := hchild
  refine ⟨hparent, tx, ?_, hin⟩
  rw [h.tx?_eq hthere]
  exact htx

theorem not_mem (hthere : pool.exists? hash = true) : hash ∉ done.map (·.hash) := by
  intro hin
  obtain ⟨tx, htx, rfl⟩ := mem_map.mp hin
  rw [h.gone tx htx] at hthere
  cases hthere

/-- More entries leave, for a reason, and take their children along unless they are among the
transactions removed. -/
theorem leave {later : List CTransaction}
    {pool' : CTxMemPool} {leaves : UInt256 → Prop} (hsound : pool'.Sound)
    (htx : ∀ hash tx, pool'.tx? hash = some tx ↔ pool.tx? hash = some tx ∧ ¬leaves hash)
    (hlater : ∀ tx ∈ later, leaves tx.hash)
    (hclosed : ∀ parent child, pool.IsChild parent child → leaves parent →
      leaves child ∨ parent ∈ later.map (·.hash))
    (hreason : ∀ hash, pool.exists? hash = true → leaves hash →
      hash ∈ later.map (·.hash) ∨ start.LosesTo done hash) :
    Cleared start pool' (done ++ later) outs := by
  have hthere : ∀ hash, pool'.exists? hash = true ↔ pool.exists? hash = true ∧ ¬leaves hash := by
    intro hash
    simp only [exists?_eq_isSome, Option.isSome_iff_exists, htx, exists_and_right]
  constructor
  · exact hsound
  · exact fun hash tx hsome => h.sub hash tx ((htx hash tx).mp hsome).1
  · intro tx hin
    rw [Bool.eq_false_iff]
    intro hex
    obtain ⟨hex, hstays⟩ := (hthere _).mp hex
    rcases mem_append.mp hin with hin | hin
    · exact h.not_mem hex (mem_map_of_mem hin)
    · exact hstays (hlater tx hin)
  · intro parent child hchild hex
    obtain ⟨hex, hstays⟩ := (hthere child).mp hex
    rw [map_append, mem_append]
    rcases h.closed parent child hchild hex with hparent | hin
    · by_cases hleaves : leaves parent
      · have hchild' := h.isChild_of_start hchild hparent hex
        exact .inr (.inr ((hclosed parent child hchild' hleaves).resolve_left hstays))
      · exact .inl ((hthere parent).mpr ⟨hparent, hleaves⟩)
    · exact .inr (.inl hin)
  · intro hash hstart hgone
    have hwhy : hash ∈ later.map (·.hash) ∨ hash ∈ done.map (·.hash) ∨ start.LosesTo done hash := by
      cases hpool : pool.exists? hash with
      | false => exact .inr (h.reason hash hstart hpool)
      | true =>
        refine (hreason hash hpool ?_).imp_right .inr
        by_contra hstays
        rw [(hthere hash).mpr ⟨hpool, hstays⟩] at hgone
        cases hgone
    rw [map_append, mem_append]
    rcases hwhy with hin | hin | ⟨tx, hin, hroot⟩
    · exact .inl (.inr hin)
    · exact .inl (.inl hin)
    · exact .inr ⟨tx, mem_append_left _ hin, hroot⟩
  · exact fun out hout hash tx hsome => h.unspent out hout hash tx ((htx hash tx).mp hsome).1

theorem removeOwn (tx : CTransaction) :
    Cleared start (if pool.exists? tx.hash then
      pool.removeStaged (empty.insert tx.hash) true else pool) (done ++ [tx]) outs := by
  have hleave : ∀ pool', pool'.Sound → (∀ hash tx', pool'.tx? hash = some tx' ↔
      pool.tx? hash = some tx' ∧ ¬hash = tx.hash) → Cleared start pool' (done ++ [tx]) outs := by
    intro pool' hsound htx
    apply h.leave hsound htx
    · exact fun tx' hin => congrArg hash (mem_singleton.mp hin)
    · exact fun parent child _ hown => .inr (mem_singleton.mpr hown)
    · exact fun hash _ hown => .inl (mem_singleton.mpr hown)
  split
  · obtain ⟨hsound, htx⟩ := h.sound.removeStaged (empty.insert tx.hash) true
    apply hleave _ hsound
    intro hash tx'
    have hempty : (empty : TxidSet).contains hash = false := rfl
    simp only [htx, PlainSet.contains_insert, hempty, Bool.or_false, decide_eq_true_eq,
      @eq_comm _ tx.hash]
    split <;> simp [*]
  · rename_i hno
    apply hleave _ h.sound
    refine fun hash tx' => ⟨fun hsome => ⟨hsome, ?_⟩, And.left⟩
    rintro rfl
    exact hno (exists?_of_tx? hsome)

/-- An entry that spends an outpoint of the transaction leaves with all that comes from it. -/
theorem removeConflict (htx : tx ∈ done) {txin : CTxIn} (htxin : txin ∈ tx.vin) :
    Cleared start (CTxMemPool.removeConflict tx.hash pool txin) done (outs ++ [txin.prevout]) := by
  unfold CTxMemPool.removeConflict
  cases hfind : pool.mapNextTx.find? txin.prevout with
  | none =>
    refine { h with unspent := ?_ }
    intro out hout hash tx' hsome hspends
    rcases mem_append.mp hout with hout | hout
    · exact h.unspent out hout hash tx' hsome hspends
    · rw [mem_singleton.mp hout] at hspends
      rw [h.sound.nextTx_of_tx? hsome hspends] at hfind
      cases hfind
  | some item =>
    obtain ⟨out, conflict⟩ := item
    obtain rfl : out = txin.prevout := key_of_find? hfind
    obtain ⟨hconflict, hspends⟩ := (h.sound.nextTx _ conflict).mp hfind
    have hthere := exists?_of_tx? hconflict
    have hne : conflict.hash ≠ tx.hash := fun heq =>
      h.not_mem hthere (heq ▸ mem_map_of_mem htx)
    have hsound : (pool.clearPrioritisation conflict.hash).Sound :=
      ⟨h.sound.children, h.sound.parents, h.sound.nextTx⟩
    obtain ⟨hsound', htx'⟩ := hsound.removeRecursive hthere
    simp only [ne_eq, hne, not_false_iff, if_true]
    -- a parent that leaves takes its children along
    have hleft := h.leave hsound' htx' (forall_mem_nil _)
      (fun _ _ hchild hleaves => .inl (hleaves.tail hchild)) (by
      intro hash _ hdescends
      refine .inr ⟨tx, htx, conflict.hash, conflict, h.sub _ _ hconflict, hne,
        ⟨txin.prevout, mem_map_of_mem htxin, hspends⟩, ?_⟩
      exact Relation.ReflTransGen.mono (fun _ _ => h.isChild_start) _ _ hdescends)
    rw [append_nil] at hleft
    refine { hleft with unspent := ?_ }
    intro out hout hash tx' hsome hspends'
    rcases mem_append.mp hout with hout | hout
    · exact hleft.unspent out hout hash tx' hsome hspends'
    · obtain ⟨hsome, hnot⟩ := (htx' hash tx').mp hsome
      rw [mem_singleton.mp hout] at hspends'
      rw [h.sound.nextTx_of_tx? hsome hspends'] at hfind
      cases hfind
      rw [hash_of_tx? hsome] at hnot
      exact hnot .refl

theorem removeConflicts (htx : tx ∈ done) :
    Cleared start (pool.removeConflicts tx) done (outs ++ tx.prevouts) := by
  have hfold : ∀ (vin : List CTxIn) (pool : CTxMemPool) (outs : List COutPoint),
      (∀ txin ∈ vin, txin ∈ tx.vin) → Cleared start pool done outs →
        Cleared start (vin.foldl (CTxMemPool.removeConflict tx.hash) pool) done
          (outs ++ vin.map (·.prevout)) := by
    intro vin
    induction vin with
    | nil =>
      intro pool outs _ h
      simpa using h
    | cons txin vin ih =>
      intro pool outs hin h
      have hround := ih _ _ (fun txin' hmem => hin txin' (mem_cons_of_mem txin hmem))
        (h.removeConflict htx (hin txin mem_cons_self))
      rw [append_assoc] at hround
      exact hround
  exact hfold tx.vin pool outs (fun _ hin => hin) h

theorem removeMined (tx : CTransaction) :
    Cleared start (pool.removeMined tx) (done ++ [tx]) (outs ++ tx.prevouts) := by
  have hall := (h.removeOwn tx).removeConflicts
    (mem_append_right done (mem_singleton.mpr rfl))
  exact ⟨⟨hall.sound.children, hall.sound.parents, hall.sound.nextTx⟩, hall.sub, hall.gone,
    hall.closed, hall.reason, hall.unspent⟩

theorem foldl_removeMined (txs : List CTransaction) :
    Cleared start (txs.foldl CTxMemPool.removeMined pool) (done ++ txs)
      (outs ++ txs.flatMap (·.prevouts)) := by
  induction txs generalizing pool done outs with
  | nil => simpa using h
  | cons tx txs ih =>
    have hround := ih (h.removeMined tx)
    rw [append_assoc, append_assoc] at hround
    exact hround

end

end Cleared

/-! ## What the block evicts -/

theorem tx?_of_markForRemoval {fails : CTransaction → Bool} {trans : List CTransaction}
    (h : ∀ tx ∈ trans, pool.tx? tx.hash = some tx) (hash : UInt256) :
    ∀ tx ∈ pool.markForRemoval fails trans hash, pool.tx? tx.hash = some tx := by
  unfold markForRemoval
  cases hfind : pool.mapTx.find? hash with
  | none => exact h
  | some entry =>
    have htx := tx?_of_find? hfind
    have hentry : pool.tx? entry.tx.hash = some entry.tx := by
      rw [hash_of_tx? htx]
      exact htx
    simp only
    split
    · intro tx hin
      rcases mem_append.mp hin with hin | hin
      · exact h tx hin
      · rw [mem_singleton.mp hin]
        exact hentry
    · exact h

theorem tx?_of_assetConflicts {env : Env} {passes : CTransaction → Bool}
    {data : ConnectedBlockAssetData} :
    ∀ tx ∈ pool.assetConflicts env passes data, pool.tx? tx.hash = some tx := by
  have hfold : ∀ {α : Type} (f : List CTransaction → α → List CTransaction),
      (∀ trans a, (∀ tx ∈ trans, pool.tx? tx.hash = some tx) →
        ∀ tx ∈ f trans a, pool.tx? tx.hash = some tx) →
      ∀ (l : List α) (trans : List CTransaction), (∀ tx ∈ trans, pool.tx? tx.hash = some tx) →
        ∀ tx ∈ l.foldl f trans, pool.tx? tx.hash = some tx := by
    intro α f hf l
    induction l with
    | nil => exact fun trans h => h
    | cons a l ih => exact fun trans h => ih _ (hf trans a h)
  have hmark : ∀ (fails : CTransaction → Bool) (l : List UInt256) (trans : List CTransaction),
      (∀ tx ∈ trans, pool.tx? tx.hash = some tx) →
        ∀ tx ∈ l.foldl (pool.markForRemoval fails) trans, pool.tx? tx.hash = some tx :=
    fun fails l trans h => hfold _ (fun _ hash hin => tx?_of_markForRemoval hin hash) l trans h
  unfold assetConflicts
  apply hfold
  · intro trans e h
    split
    · exact hmark _ _ _ h
    · exact h
  apply hfold
  · intro trans e h
    split
    · exact hmark _ _ _ (hmark _ _ _ h)
    · exact hmark _ _ _ h
    · exact h
  apply hfold
  · exact fun trans e h => hmark _ _ _ h
  apply hfold
  · exact fun trans e h => hmark _ _ _ h
  apply hfold
  · intro trans e h
    cases hname : pool.mapAssetToHash.find? e.asset.strName with
    | none => exact h
    | some item =>
      obtain ⟨name, hash⟩ := item
      cases hfind : pool.mapTx.find? hash with
      | none => simpa [hfind] using h
      | some entry =>
        have htx := tx?_of_find? hfind
        simp only [hfind]
        intro tx hin
        rcases mem_append.mp hin with hin | hin
        · exact h tx hin
        · rw [mem_singleton.mp hin, hash_of_tx? htx]
          exact htx
  · simp

/-! ## Where the inputs come from -/

/-- The outpoint is a coin, or an output of another entry that can be spent. -/
def InputKnown (pool : CTxMemPool) (coins : Coins) (hash : UInt256) (out : COutPoint) : Prop :=
  coins.contains out = true ∨
    (out.hash ≠ hash ∧ ∃ parent ∈ pool.tx? out.hash, parent.Creates out)

def InputsKnown (pool : CTxMemPool) (coins : Coins) : Prop :=
  ∀ entry ∈ pool.mapTx.items, ∀ out ∈ entry.tx.prevouts, pool.InputKnown coins entry.hash out

instance (pool : CTxMemPool) (coins : Coins) (hash : UInt256) (out : COutPoint) :
    Decidable (pool.InputKnown coins hash out) :=
  inferInstanceAs (Decidable (_ ∨ _))

instance (pool : CTxMemPool) (coins : Coins) : Decidable (pool.InputsKnown coins) :=
  inferInstanceAs (Decidable (∀ entry ∈ pool.mapTx.items, _))

/-- What the pool and the chain owe to the hashes of transactions and to `CheckTransaction`: the
transactions of the block are new, those of the pool are not on the chain, a hash stands for one
transaction, and no entry spends the null outpoint. -/
structure FitsChain (pool : CTxMemPool) (coins : Coins) (vtx : List CTransaction) : Prop where
  newTxids : NewTxids vtx coins
  unmined : ∀ hash, pool.exists? hash = true → ∀ n, coins.contains ⟨hash, n⟩ = false
  sameTx : ∀ tx ∈ vtx, ∀ tx', pool.tx? tx.hash = some tx' → tx' = tx
  notNull : ∀ hash tx, pool.tx? hash = some tx → ∀ out ∈ tx.prevouts, out.isNull = false

/-- The entry comes from one that is not mined and spends an outpoint that the block spends. -/
def ConflictsWith (pool : CTxMemPool) (vtx : List CTransaction) (hash : UInt256) : Prop :=
  ∃ root rootTx, pool.tx? root = some rootTx ∧ root ∉ vtx.map (·.hash) ∧
    (∃ tx ∈ vtx, ∃ out ∈ tx.prevouts, out ∈ rootTx.prevouts) ∧ pool.Descends root hash

/-- A child of an evicted entry that is not mined is mined, evicted or in conflict itself. -/
def EvictsWhole (pool : CTxMemPool) (vtx evicted : List CTransaction) : Prop :=
  ∀ tx ∈ evicted, tx.hash ∉ vtx.map (·.hash) → ∀ child, pool.IsChild tx.hash child →
    child ∈ vtx.map (·.hash) ∨ child ∈ evicted.map (·.hash) ∨ pool.ConflictsWith vtx child

theorem inputsKnown_iff {coins : Coins} : pool.InputsKnown coins ↔
    ∀ hash tx, pool.tx? hash = some tx → ∀ out ∈ tx.prevouts, pool.InputKnown coins hash out := by
  constructor
  · intro h hash tx htx
    obtain ⟨entry, hfind, rfl⟩ := Option.map_eq_some_iff.mp htx
    have hkey : entry.hash = hash := key_of_find? hfind
    rw [← hkey]
    exact h entry (mem_of_find? hfind)
  · intro h entry hin
    exact h entry.hash entry.tx (tx?_of_find? (find?_of_mem hin))

section Block

variable {env : ChainEnv} {blockHash : UInt256} {nHeight : Int} {scan scan' : ConnectScan}
  {vtx evicted : List CTransaction} {s t : AssetState} {pool : CTxMemPool} {outs : List COutPoint}

theorem spent_of_prevouts {out : COutPoint} (hout : out ∈ tx.prevouts)
    (hnull : out.isNull = false) : out ∈ tx.spentInputs.map (·.prevout) := by
  unfold spentInputs
  split
  · rename_i hcb
    unfold isCoinBase at hcb
    split at hcb
    · rename_i txin hvin
      simp only [prevouts, hvin, map_cons, map_nil,
        mem_singleton] at hout
      rw [hout, hcb] at hnull
      cases hnull
    · cases hcb
  · exact hout

variable (h : pool.FitsChain scan.coins vtx)
  (hconnect : vtx.foldlM (connectTx env blockHash nHeight) scan s = .ok scan' t)

include h hconnect

theorem FitsChain.parent_mined {parent : UInt256} (hchild : pool.IsChild parent child)
    (hmined : child ∈ vtx.map (·.hash)) : parent ∈ vtx.map (·.hash) := by
  obtain ⟨tx, htx, rfl⟩ := mem_map.mp hmined
  obtain ⟨hparent, tx', htx', txin, htxin, rfl⟩ := hchild
  obtain rfl := h.sameTx tx htx tx' htx'
  have hout : txin.prevout ∈ tx'.prevouts := mem_map_of_mem htxin
  have hspent := spent_of_prevouts hout (h.notNull _ _ htx' _ hout)
  rcases connectTxs_spent hconnect htx hspent with hcoin | ⟨creator, hin, hcreates⟩
  · have hunmined := h.unmined _ hparent txin.prevout.n
    rw [hunmined] at hcoin
    cases hcoin
  · rw [hash_of_creates hcreates]
    exact mem_map_of_mem hin

variable {cleared : CTxMemPool} {hash : UInt256}

/-- What conflicts with the block is not in the pool once its transactions are cleared. -/
theorem FitsChain.conflict_gone (hcleared : Cleared pool cleared vtx (vtx.flatMap (·.prevouts)))
    (hconflict : pool.ConflictsWith vtx hash) : cleared.exists? hash = false := by
  obtain ⟨root, rootTx, hroot, hunmined, ⟨tx, htx, out, hout, hspends⟩, hpath⟩ := hconflict
  -- up the path every entry is unmined, and in the pool if the one below is
  have hup : hash ∉ vtx.map (·.hash) ∧
      (cleared.exists? hash = true → cleared.exists? root = true) := by
    induction hpath with
    | refl => exact ⟨hunmined, id⟩
    | tail _ hchild ih =>
      refine ⟨fun hmined => ih.1 (h.parent_mined hconnect hchild hmined), fun hthere => ?_⟩
      exact ih.2 ((hcleared.closed _ _ hchild hthere).resolve_right ih.1)
  rw [Bool.eq_false_iff]
  intro hthere
  have hroot' := hcleared.tx?_eq (hup.2 hthere)
  rw [hroot] at hroot'
  exact hcleared.unspent out (mem_flatMap.mpr ⟨tx, htx, hout⟩) root rootTx hroot' hspends

/-- An entry that is neither mined nor in conflict stays when the block is cleared. -/
theorem FitsChain.stays (hcleared : Cleared pool cleared vtx (vtx.flatMap (·.prevouts)))
    (hthere : pool.exists? hash = true) (hunmined : hash ∉ vtx.map (·.hash))
    (hfree : ¬pool.ConflictsWith vtx hash) : cleared.exists? hash = true := by
  by_contra hgone
  rcases hcleared.reason hash hthere (Bool.eq_false_iff.mpr hgone) with hmined |
    ⟨tx, htx, root, rootTx, hroot, hne, ⟨out, hout, hspends⟩, hpath⟩
  · exact hunmined hmined
  · refine hfree ⟨root, rootTx, hroot, ?_, ⟨tx, htx, out, hout, hspends⟩, hpath⟩
    -- two transactions of the block would spend the same coin
    intro hmined
    obtain ⟨rootTx', hrootTx', rfl⟩ := mem_map.mp hmined
    obtain rfl := h.sameTx rootTx' hrootTx' rootTx hroot
    have hnull := h.notNull _ _ hroot out hspends
    have hdiff : rootTx ≠ tx := fun heq => hne (congrArg CTransaction.hash heq)
    exact connectTxs_disjoint hconnect h.newTxids hrootTx' htx hdiff
      (spent_of_prevouts hspends hnull) (spent_of_prevouts hout hnull)

/-- After a block and its evictions the inputs of the entries that are left are known exactly when
no child of an evicted entry is left behind. -/
theorem FitsChain.inputsKnown_iff (hsound : pool.Sound) (hknown : pool.InputsKnown scan.coins)
    (hevicted : ∀ tx ∈ evicted, pool.tx? tx.hash = some tx) :
    (evicted.foldl removeMined (vtx.foldl removeMined pool)).InputsKnown scan'.coins ↔
      pool.EvictsWhole vtx evicted := by
  have hblock : Cleared pool (vtx.foldl removeMined pool) vtx (vtx.flatMap (·.prevouts)) :=
    (Cleared.refl hsound).foldl_removeMined vtx
  have hrest : Cleared (vtx.foldl removeMined pool)
      (evicted.foldl removeMined (vtx.foldl removeMined pool)) evicted
        (evicted.flatMap (·.prevouts)) :=
    (Cleared.refl hblock.sound).foldl_removeMined evicted
  rw [CTxMemPool.inputsKnown_iff] at hknown ⊢
  generalize evicted.foldl removeMined (vtx.foldl removeMined pool) = final at hrest ⊢
  generalize vtx.foldl removeMined pool = cleared at hblock hrest ⊢
  constructor
  · intro hfinal tx htx hunmined child hchild
    by_contra hstays
    simp only [not_or] at hstays
    obtain ⟨hunmined', hkept, hfree⟩ := hstays
    have hcleared := h.stays hconnect hblock hchild.exists? hunmined' hfree
    -- no other entry spends what an evicted one spends
    have hthere : final.exists? child = true := by
      by_contra hgone
      rcases hrest.reason child hcleared (Bool.eq_false_iff.mpr hgone) with hin |
        ⟨other, hother, root, rootTx, hroot, hne, ⟨out, hout, hspends⟩, -⟩
      · exact hkept hin
      · have hroot' := hblock.sub root rootTx hroot
        have hnext := hsound.nextTx_of_tx? hroot' hspends
        rw [hsound.nextTx_of_tx? (hevicted other hother) hout] at hnext
        cases hnext
        exact hne (hash_of_tx? hroot').symm
    obtain ⟨hparent, childTx, hchildTx, txin, htxin, hprevout⟩ := hchild
    have hchildTx' : final.tx? child = some childTx := by
      rw [hrest.tx?_eq hthere, hblock.tx?_eq hcleared]
      exact hchildTx
    rcases hfinal child childTx hchildTx' txin.prevout (mem_map_of_mem htxin) with
      hcoin | ⟨-, parentTx, hparentTx, -⟩
    · rcases connectTxs_origin hconnect hcoin with hcoin | ⟨creator, hin, hcreates⟩
      · have hnew := h.unmined _ hparent txin.prevout.n
        rw [← hprevout] at hnew
        rw [hnew] at hcoin
        cases hcoin
      · apply hunmined
        rw [← hprevout, hash_of_creates hcreates]
        exact mem_map_of_mem hin
    · rw [hprevout] at hparentTx
      exact hrest.not_mem (exists?_of_tx? hparentTx) (mem_map_of_mem htx)
  · intro hwhole hash tx htx out hout
    have hcleared := exists?_of_tx? (hrest.sub hash tx htx)
    have htx₁ := hrest.sub hash tx htx
    have htx₀ := hblock.sub hash tx htx₁
    have hunspent : ∀ mined ∈ vtx, out ∉ mined.prevouts := fun mined hin hspends =>
      hblock.unspent out (mem_flatMap.mpr ⟨mined, hin, hspends⟩) hash tx htx₁ hout
    rcases hknown hash tx htx₀ out hout with hcoin | ⟨hne, parentTx, hparentTx, hcreates⟩
    · exact .inl (connectTxs_leaves hconnect (.inl hcoin) hunspent)
    · obtain ⟨txin, htxin, rfl⟩ := mem_map.mp hout
      have hchild : pool.IsChild txin.prevout.hash hash :=
        ⟨exists?_of_tx? hparentTx, tx, htx₀, txin, htxin, rfl⟩
      rcases hblock.closed _ _ hchild hcleared with hparent | hmined
      · rcases hrest.closed _ _ (hblock.isChild_of_start hchild hparent hcleared)
          (exists?_of_tx? htx) with hparent' | hin
        · right
          refine ⟨hne, parentTx, ?_, hcreates⟩
          rw [hrest.tx?_eq hparent', hblock.tx?_eq hparent]
          exact hparentTx
        · -- the parent was evicted: the child would have left as well
          exfalso
          obtain ⟨parent, hparentIn, hparentHash⟩ := mem_map.mp hin
          rw [← hparentHash] at hchild hparent
          rcases hwhole parent hparentIn (hblock.not_mem hparent) hash hchild with
            hmined | hkept | hconflict
          · exact hblock.not_mem hcleared hmined
          · exact hrest.not_mem (exists?_of_tx? htx) hkept
          · rw [h.conflict_gone hconnect hblock hconflict] at hcleared
            cases hcleared
      · left
        obtain ⟨mined, hminedIn, hminedHash⟩ := mem_map.mp hmined
        have hsame := h.sameTx mined hminedIn parentTx (by rw [hminedHash]; exact hparentTx)
        rw [hsame] at hcreates
        exact connectTxs_leaves hconnect (.inr ⟨mined, hminedIn, hcreates⟩) hunspent

end Block

/-! ## Runs of the pool -/

/-- The pools that admissions, removals and connected blocks lead to. -/
inductive Built : CTxMemPool → Prop
  | empty : Built {}
  | addUnchecked {pool : CTxMemPool} {entry : CTxMemPoolEntry} (setAncestors : TxidSet) :
      Built pool → pool.Enters entry.tx → Built (pool.addUnchecked entry setAncestors)
  | removeStaged {pool : CTxMemPool} (stage : TxidSet) (updateDescendants : Bool) :
      Built pool → Built (pool.removeStaged stage updateDescendants)
  | removeForBlock {pool : CTxMemPool} (env : Env) (passes : CTransaction → Bool)
      (vtx : List CTransaction) (data : ConnectedBlockAssetData) :
      Built pool → Built (pool.removeForBlock env passes vtx data)

theorem Built.sound {pool : CTxMemPool} (h : Built pool) : pool.Sound := by
  induction h with
  | empty => exact sound_empty
  | addUnchecked _ _ hnew ih => exact ih.addUnchecked hnew _
  | removeStaged stage _ _ ih => exact (ih.removeStaged stage _).1
  | removeForBlock _ _ vtx _ _ ih =>
    have hmined := ((Cleared.refl ih).foldl_removeMined vtx).sound
    exact ((Cleared.refl hmined).foldl_removeMined _).sound

/-- In every run the links of the entries are the spends between them, and no two entries spend the
same output. -/
theorem built_pool_sound {pool : CTxMemPool} (h : Built pool) :
    pool.Sound ∧ ∀ hash hash' tx tx', pool.tx? hash = some tx → pool.tx? hash' = some tx' →
      ∀ out ∈ tx.prevouts, out ∈ tx'.prevouts → hash = hash' := by
  refine ⟨h.sound, fun hash hash' tx tx' htx htx' out hout hout' => ?_⟩
  have hnext := h.sound.nextTx_of_tx? htx hout
  rw [h.sound.nextTx_of_tx? htx' hout'] at hnext
  cases hnext
  exact (hash_of_tx? htx).symm.trans (hash_of_tx? htx')

end CTxMemPool

/-- When a block is connected over a pool whose entries spend coins or outputs of other entries, the
same holds of what is left exactly when the children of the entries that are evicted for what the
block changes leave as well. -/
theorem closed_after_block_iff (env : ChainEnv) (block : CBlock) (nHeight : Int)
    (coins coins' : Coins) (undo : CBlockUndo) (s t : AssetState) (pool : CTxMemPool)
    (passes : CTransaction → Bool) (data : CTxMemPool.ConnectedBlockAssetData)
    (hsound : pool.Sound) (hfits : pool.FitsChain coins block.vtx)
    (hconnect : connectBlock env block nHeight coins s = .ok (undo, coins') t)
    (hknown : pool.InputsKnown coins) :
    (pool.removeForBlock env.toEnv passes block.vtx data).InputsKnown coins' ↔
      pool.EvictsWhole block.vtx (pool.assetConflicts env.toEnv passes data) := by
  obtain ⟨scan, coinbase, paid, -, hscan, -, -, -, -, rfl⟩ := connectBlock_ok hconnect
  exact hfits.inputsKnown_iff hscan hsound hknown tx?_of_assetConflicts

/-- A transfer of the owner token that the issue of gold in transaction 31 creates. -/
def goldChildTx : CTransaction := ⟨[⟨⟨31, 1⟩, []⟩], [goldOwnerTransfer], 33⟩

def issueCoins : Coins :=
  empty.insert (⟨7, 0⟩, ⟨⟨500 * coin, scriptForKeyID issuerKey⟩, false, 1⟩)

/-- The issue of gold waits. -/
def goldIssuePool : CTxMemPool :=
  ({} : CTxMemPool).addUnchecked (.make (goldIssueTx 31 0) 0 0 1 0) .empty

/-- The issue of gold and its child wait. -/
def linkedPool : CTxMemPool :=
  goldIssuePool.addUnchecked (.make goldChildTx 0 0 1 0) (empty.insert 31)

theorem linkedPool_built : Built linkedPool := by
  refine .addUnchecked _ (.addUnchecked _ .empty
    ⟨rfl, by decide +kernel, nofun, by decide +kernel⟩)
    ⟨by decide +kernel, by decide +kernel, fun hash tx htx => ?_, by decide +kernel⟩
  rw [goldIssuePool, tx?_addUnchecked rfl] at htx
  split at htx
  · cases htx
    decide +kernel
  · cases htx

theorem linkedPool_sound : linkedPool.Sound ∧ linkedPool.IsChild 31 33 := by
  obtain ⟨hsound, -⟩ := built_pool_sound linkedPool_built
  exact ⟨hsound, (hsound.children 31 33).mp (by decide +kernel)⟩

def goldPool : CTxMemPool :=
  { linkedPool with toAssetMaps := AssetMaps.trackIssue {} goldAsset.strName 31 }

variable {hash : UInt256}

theorem tx?_goldPool (h : goldPool.tx? hash = some tx) :
    tx = goldIssueTx 31 0 ∧ hash = 31 ∨ tx = goldChildTx ∧ hash = 33 := by
  change linkedPool.tx? hash = some tx at h
  rw [linkedPool, tx?_addUnchecked (by decide +kernel)] at h
  split at h
  · rename_i hkey
    cases h
    exact .inr ⟨rfl, hkey.symm⟩
  · rw [goldIssuePool, tx?_addUnchecked rfl] at h
    split at h
    · rename_i hkey
      cases h
      exact .inl ⟨rfl, hkey.symm⟩
    · cases h

theorem goldPool_sound : goldPool.Sound :=
  ⟨linkedPool_built.sound.children, linkedPool_built.sound.parents, linkedPool_built.sound.nextTx⟩

theorem issueCoins_contains (h : hash ≠ 7) (n : Nat) :
    issueCoins.contains ⟨hash, n⟩ = false := by
  rw [issueCoins, KeyedSet.contains_insert, KeyedSet.contains_empty, Bool.or_false,
    decide_eq_false_iff_not]
  intro heq
  exact h (congrArg COutPoint.hash heq).symm

theorem goldPool_fitsChain :
    goldPool.FitsChain issueCoins (minedBlock 30 [0] [goldIssueTx 31 0]).vtx where
  newTxids := ⟨by decide +kernel, fun tx hin => issueCoins_contains (by revert tx; decide +kernel)⟩
  unmined := by
    intro hash hexists
    rw [exists?_eq_isSome] at hexists
    obtain ⟨tx, htx⟩ := Option.isSome_iff_exists.mp hexists
    apply issueCoins_contains
    obtain ⟨-, rfl⟩ | ⟨-, rfl⟩ := tx?_goldPool htx <;> decide
  sameTx := by
    intro tx hin tx' htx
    have hsame : ∀ tx ∈ (minedBlock 30 [0] [goldIssueTx 31 0]).vtx,
        ∀ tx' ∈ goldPool.tx? tx.hash, tx' = tx := by
      decide +kernel
    exact hsame tx hin tx' htx
  notNull := by
    intro hash tx htx
    obtain ⟨rfl, -⟩ | ⟨rfl, -⟩ := tx?_goldPool htx <;> decide +kernel

/-- The issue is mined and its child stays, with a coin of the chain as its input. -/
theorem goldPool_closed_after_block :
    goldPool.InputsKnown issueCoins ∧
      ∃ undo coins' t, connectBlock regTestChain (minedBlock 30 [0] [goldIssueTx 31 0]) 102
          issueCoins {} = .ok (undo, coins') t ∧
        (goldPool.removeForBlock regTestChain.toEnv (fun _ => true)
          (minedBlock 30 [0] [goldIssueTx 31 0]).vtx (.ofCache t.view)).InputsKnown coins' := by
  have hknown : goldPool.InputsKnown issueCoins := by decide +kernel
  obtain ⟨undo, coins', t, hconnect, hevicted⟩ : ∃ undo coins' t, connectBlock regTestChain
      (minedBlock 30 [0] [goldIssueTx 31 0]) 102 issueCoins {} = .ok (undo, coins') t ∧
      (goldPool.assetConflicts regTestChain.toEnv (fun _ => true) (.ofCache t.view)).map (·.hash) =
        [31] := by
    decide +kernel
  refine ⟨hknown, undo, coins', t, hconnect, ?_⟩
  refine (closed_after_block_iff _ _ _ _ _ _ _ _ _ _ _ goldPool_sound goldPool_fitsChain hconnect
    hknown).mpr ?_
  -- the one entry evicted is the one that is mined
  intro tx hin hunmined
  have hhash := mem_map_of_mem (f := (·.hash)) hin
  rw [hevicted] at hhash
  rw [mem_singleton.mp hhash] at hunmined
  exact absurd (by decide +kernel) hunmined

/-- Gold is issued by transaction 31 in the pool, with a child, and by transaction 32 in a block. The
block evicts 31 and leaves its child behind. -/
theorem evicted_issue_leaves_child :
    ∃ n : Node, ({} : Node).acts (maturedActs [500 * coin, 500 * coin]) = some n ∧
      ∃ pool undo coins' t,
        pool = (acceptToMemoryPoolWorker regTestChain.toEnv .lax 102 n.coins n.assets
          (acceptToMemoryPoolWorker regTestChain.toEnv .lax 102 n.coins n.assets {}
            (goldIssueTx 31 0)).1 goldChildTx).1 ∧
        connectBlock regTestChain (minedBlock 30 [0] [goldIssueTx 32 1]) 102 n.coins n.assets =
          .ok (undo, coins') t ∧
        pool.InputsKnown n.coins ∧
        ¬(pool.removeForBlock regTestChain.toEnv (fun _ => true)
          (minedBlock 30 [0] [goldIssueTx 32 1]).vtx (.ofCache t.view)).InputsKnown coins' := by
  obtain ⟨n, hn, undo, coins', t, hconnect, hboth⟩ :
      ∃ n, ({} : Node).acts (maturedActs [500 * coin, 500 * coin]) = some n ∧
      let pool := (acceptToMemoryPoolWorker regTestChain.toEnv .lax 102 n.coins n.assets
        (acceptToMemoryPoolWorker regTestChain.toEnv .lax 102 n.coins n.assets {}
          (goldIssueTx 31 0)).1 goldChildTx).1
      ∃ undo coins' t, connectBlock regTestChain (minedBlock 30 [0] [goldIssueTx 32 1]) 102 n.coins
          n.assets = .ok (undo, coins') t ∧ pool.InputsKnown n.coins ∧
        ¬(pool.removeForBlock regTestChain.toEnv (fun _ => true)
          (minedBlock 30 [0] [goldIssueTx 32 1]).vtx (.ofCache t.view)).InputsKnown coins' := by
    decide +kernel
  exact ⟨n, hn, _, undo, coins', t, rfl, hconnect, hboth⟩

end HnbCore
