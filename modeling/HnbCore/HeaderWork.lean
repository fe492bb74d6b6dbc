import HnbCore.Headers

/-!
# Proof of work and the height of a header

The height that chooses between the full and the cheap proof-of-work check is a field of the
header; the height in the index is counted from the parent. Nothing compares the two.
-/

namespace HnbCore

open Checks List Option CBlockIndex BlockTree

variable {tree tree' : BlockTree} {rules : HeaderRules} {block : CBlockHeader} {ctx : HeaderContext}
  {e : Reject}

theorem checkFailedAncestors_ok {hash : UInt256} {pindexPrev : CBlockIndex}
    (h : checkFailedAncestors hash pindexPrev tree = .ok () tree') : tree' = tree := by
  unfold checkFailedAncestors at h
  split at h
  case isTrue => simpa using h.symm
  case isFalse =>
    split at h
    case h_1 => simpa using h.symm
    case h_2 => simp at h

theorem checkNewHeader_ok (h : checkNewHeader rules ctx block tree = .ok () tree') :
    ∃ prev, tree.find? block.hashPrevBlock = some prev ∧ checkBlockHeader rules tree block = .ok () ∧
      contextualCheckBlockHeader rules ctx tree prev block = .ok () ∧
      tree' = tree.addToBlockIndex rules block := by
  simp only [checkNewHeader, run_bind_eq_ok, run_get_eq_ok, run_lift_eq_ok, demand_eq_ok,
    run_modify_eq_ok] at h
  obtain ⟨_, _, ⟨rfl, rfl⟩, _, _, ⟨hcheck, rfl⟩, prev, _, ⟨hprev, rfl⟩, _, _, ⟨_, rfl⟩, _, _,
    ⟨hctx, rfl⟩, _, _, hfailed, rfl⟩ := h
  rw [checkFailedAncestors_ok hfailed]
  exact ⟨prev, hprev, hcheck, hctx, rfl⟩

theorem acceptBlockHeader_new (h : acceptBlockHeader rules ctx block tree = .ok () tree')
    (hgenesis : block.getHash rules ≠ rules.hashGenesisBlock)
    (hnew : tree.find? (block.getHash rules) = none) :
    checkNewHeader rules ctx block tree = .ok () tree' := by
  simp only [acceptBlockHeader, run_bind_eq_ok, run_get_eq_ok] at h
  obtain ⟨_, _, ⟨rfl, rfl⟩, h⟩ := h
  simpa [hgenesis, hnew] using h

/-- Above the last checkpoint, by the height in the header, the proof of work is recomputed. -/
theorem checkBlockHeader_full (h : checkBlockHeader rules tree block = .ok ())
    (htime : rules.nKAWPOWActivationTime ≤ block.nTime)
    (habove : isBelowCheckpoint rules tree block = false) :
    checkProofOfWork rules (block.kawpowHash rules).1 block.nBits = true ∧
      (block.kawpowHash rules).2 = block.mixHash := by
  have hfull : block.getHashFull rules = block.kawpowHash rules := if_neg (UInt32.not_lt.mpr htime)
  simpa [checkBlockHeader, habove, hfull, htime] using h

theorem isBelowCheckpoint_eq_false
    (h : ∀ pcheckpoint, getLastCheckpoint rules tree = some pcheckpoint →
      pcheckpoint.nHeight < block.nHeight.toNat) : isBelowCheckpoint rules tree block = false := by
  unfold isBelowCheckpoint
  cases hlast : getLastCheckpoint rules tree with
  | none => simp
  | some pcheckpoint =>
    have hlt := h pcheckpoint hlast
    have hsmall : pcheckpoint.nHeight < 2 ^ 32 := hlt.trans block.nHeight.toNat_lt
    simp only [Nat.mod_eq_of_lt hsmall]
    simp only [Bool.and_eq_false_iff, decide_eq_false_iff_not]
    right
    omega

/-- The header's own height is the one after its parent's, and above the last checkpoint its
KAWPOW hash and mix hash hold when they are recomputed. -/
def TiedToHeight (rules : HeaderRules) (tree : BlockTree) (block : CBlockHeader) : Prop :=
  ∃ prev, tree.find? block.hashPrevBlock = some prev ∧ block.nHeight.toNat = prev.nHeight + 1 ∧
    ((∀ pcheckpoint, getLastCheckpoint rules tree = some pcheckpoint →
        pcheckpoint.nHeight < prev.nHeight + 1) →
      checkProofOfWork rules (block.kawpowHash rules).1 block.nBits = true ∧
        (block.kawpowHash rules).2 = block.mixHash)

/-- The miner wrote the height of the parent plus one into the header. -/
def WritesHeight (tree : BlockTree) (block : CBlockHeader) : Prop :=
  ∀ prev, tree.find? block.hashPrevBlock = some prev → block.nHeight.toNat = prev.nHeight + 1

theorem tied_of_writesHeight (h : checkNewHeader rules ctx block tree = .ok () tree')
    (htime : rules.nKAWPOWActivationTime ≤ block.nTime) (hwrites : WritesHeight tree block) :
    TiedToHeight rules tree block := by
  obtain ⟨prev, hprev, hcheck, -, -⟩ := checkNewHeader_ok h
  have hheight := hwrites prev hprev
  refine ⟨prev, hprev, hheight, fun habove => ?_⟩
  exact checkBlockHeader_full hcheck htime
    (isBelowCheckpoint_eq_false fun pcheckpoint hlast => hheight ▸ habove pcheckpoint hlast)

theorem TiedToHeight.writesHeight (h : TiedToHeight rules tree block) :
    WritesHeight tree block := by
  obtain ⟨prev, hprev, hheight, -⟩ := h
  intro prev' hprev'
  rw [hprev, some.injEq] at hprev'
  rw [hheight, hprev']

/-- What of an entry never changes. -/
def CBlockIndex.fixed (e : CBlockIndex) : CBlockHeader × Nat := (e.getBlockHeader, e.nHeight)

/-- The two trees have the same entries up to their status. -/
def SameHeaders (tree tree' : BlockTree) : Prop :=
  ∀ hash, (tree'.find? hash).map fixed = (tree.find? hash).map fixed

theorem find?_set (tree : BlockTree) (hash hash' : UInt256) (pindex : CBlockIndex) :
    (tree.set hash pindex).find? hash' = if hash = hash' then some pindex else tree.find? hash' := by
  simp only [BlockTree.find?, BlockTree.set, KeyedSet.find?_assign]
  split <;> rfl

theorem markFailed_sameHeaders (failedit : UInt256) (fuel : Nat) (hash : UInt256)
    (tree : BlockTree) : SameHeaders tree (tree.markFailed failedit fuel hash) := by
  induction fuel generalizing hash tree with
  | zero => exact fun _ => rfl
  | succ fuel ih =>
    unfold markFailed
    split
    case isTrue => exact fun _ => rfl
    case isFalse =>
      cases hfind : tree.find? hash with
      | none => exact fun _ => rfl
      | some pindex =>
        have hset : SameHeaders tree (tree.set hash pindex.markFailedChild) := by
          intro hash'
          rw [find?_set]
          split
          case isTrue heq => simp [← heq, hfind, markFailedChild, fixed,
            getBlockHeader]
          case isFalse => rfl
        cases hprev : pindex.pprev with
        | none => simpa only [hprev] using hset
        | some prev =>
          simp only [hprev]
          exact fun hash' => (ih prev _ hash').trans (hset hash')

theorem SameHeaders.find? (h : SameHeaders tree tree') {hash : UInt256} {e' : CBlockIndex}
    (hfind : tree'.find? hash = some e') : ∃ e, tree.find? hash = some e ∧ e.fixed = e'.fixed := by
  have heq := h hash
  rw [hfind, map_some] at heq
  exact map_eq_some_iff.mp heq.symm

theorem SameHeaders.symm (h : SameHeaders tree tree') :
    SameHeaders tree' tree := fun hash => (h hash).symm

/-- A header that stands above every checkpoint in the index has its full proof of work. -/
def WorkDone (rules : HeaderRules) (tree : BlockTree) (block : CBlockHeader) : Prop :=
  ∃ prev, tree.find? block.hashPrevBlock = some prev ∧ block.nHeight.toNat = prev.nHeight + 1 ∧
    ((∀ checkpoint ∈ rules.mapCheckpoints, ∀ e, tree.find? checkpoint.2 = some e →
        e.nHeight < prev.nHeight + 1) →
      checkProofOfWork rules (block.kawpowHash rules).1 block.nBits = true ∧
        (block.kawpowHash rules).2 = block.mixHash)

theorem TiedToHeight.workDone (h : TiedToHeight rules tree block) : WorkDone rules tree block := by
  obtain ⟨prev, hprev, hheight, hfull⟩ := h
  refine ⟨prev, hprev, hheight, fun habove => hfull fun pcheckpoint hlast => ?_⟩
  obtain ⟨checkpoint, hmem, hfound⟩ := exists_of_findSome?_eq_some hlast
  exact habove checkpoint (mem_reverse.mp hmem) pcheckpoint hfound

/-- The work of a header stays done when entries are added or change their status. -/
theorem WorkDone.mono (h : WorkDone rules tree block) (hkeep : ∀ hash e, tree.find? hash = some e →
      ∃ e', tree'.find? hash = some e' ∧ e'.fixed = e.fixed) : WorkDone rules tree' block := by
  obtain ⟨prev, hprev, hheight, hfull⟩ := h
  obtain ⟨prev', hprev', hsame⟩ := hkeep _ _ hprev
  have hnum : prev'.nHeight = prev.nHeight := congrArg Prod.snd hsame
  refine ⟨prev', hprev', by omega, fun habove => hfull fun checkpoint hmem e hfind => ?_⟩
  obtain ⟨e', hfind', hsame'⟩ := hkeep _ _ hfind
  have hnum' : e'.nHeight = e.nHeight := congrArg Prod.snd hsame'
  have := habove checkpoint hmem e' hfind'
  omega

/-- Every entry but the genesis block stands for a header with its hash whose work is done. -/
def IndexTied (rules : HeaderRules) (tree : BlockTree) : Prop :=
  ∀ hash e, tree.find? hash = some e → hash ≠ rules.hashGenesisBlock →
    e.getBlockHeader.getHash rules = hash ∧
      (rules.nKAWPOWActivationTime ≤ e.nTime → WorkDone rules tree e.getBlockHeader)

theorem IndexTied.of_sameHeaders (h : IndexTied rules tree) (hsame : SameHeaders tree tree') :
    IndexTied rules tree' := by
  intro hash e' hfind hne
  obtain ⟨e, he, hfixed⟩ := hsame.find? hfind
  have hheader : e.getBlockHeader = e'.getBlockHeader := congrArg Prod.fst hfixed
  obtain ⟨hhash, hwork⟩ := h hash e he hne
  rw [hheader] at hhash hwork
  have htime : e.nTime = e'.nTime := congrArg CBlockHeader.nTime hheader
  refine ⟨hhash, fun hle => (hwork (htime ▸ hle)).mono fun hash₁ e₁ hfind₁ => ?_⟩
  obtain ⟨e₂, he₂, hfixed₂⟩ := hsame.symm.find? hfind₁
  exact ⟨e₂, he₂, hfixed₂⟩

/-- The new entry keeps the header as it was sent if that has the height of the index. -/
theorem newIndex_getBlockHeader {prev : CBlockIndex}
    (hprev : tree.find? block.hashPrevBlock = some prev) (hwrites : WritesHeight tree block) :
    (tree.newIndex block).getBlockHeader = block := by
  have hheight : UInt32.ofNat (prev.nHeight + 1) = block.nHeight := by
    rw [← hwrites prev hprev, UInt32.ofNat_toNat]
  simp only [newIndex, hprev, getBlockHeader, ofHeader, hheight,
    getD_some]

theorem find?_addToBlockIndex (hnew : tree.find? (block.getHash rules) = none) (hash : UInt256) :
    (tree.addToBlockIndex rules block).find? hash =
      if block.getHash rules = hash then some (tree.newIndex block) else tree.find? hash := by
  rw [← find?_set]
  simp only [addToBlockIndex, hnew]
  rfl

theorem checkFailedAncestors_error {hash : UInt256} {pindexPrev : CBlockIndex}
    (h : checkFailedAncestors hash pindexPrev tree = .error e tree') : SameHeaders tree tree' := by
  unfold checkFailedAncestors at h
  split at h
  case isTrue => simp at h
  case isFalse =>
    split at h
    case h_1 => simp at h
    case h_2 failedit _ =>
      simp only [EStateM.Result.error.injEq] at h
      exact h.2 ▸ markFailed_sameHeaders failedit _ hash tree

/-- A new header is refused before its ancestors are looked at, or because of them. -/
theorem checkNewHeader_refused (h : checkNewHeader rules ctx block tree = .error e tree') :
    tree' = tree ∨ ∃ prev,
      checkFailedAncestors block.hashPrevBlock prev tree = .error e tree' := by
  simp only [checkNewHeader, run_bind_eq_error, run_get_ne_error, run_get_eq_ok, run_lift_eq_error,
    run_lift_eq_ok, run_modify_ne_error, false_or, and_false, exists_false, or_false] at h
  obtain ⟨_, _, ⟨rfl, rfl⟩, h⟩ := h
  rcases h with ⟨_, rfl⟩ | ⟨_, _, ⟨_, rfl⟩, h⟩
  · exact .inl rfl
  rcases h with ⟨_, rfl⟩ | ⟨prev, _, ⟨_, rfl⟩, h⟩
  · exact .inl rfl
  rcases h with ⟨_, rfl⟩ | ⟨_, _, ⟨_, rfl⟩, h⟩
  · exact .inl rfl
  rcases h with ⟨_, rfl⟩ | ⟨_, _, ⟨_, rfl⟩, h⟩
  · exact .inl rfl
  · exact .inr ⟨prev, h⟩

theorem checkNewHeader_error (h : checkNewHeader rules ctx block tree = .error e tree') :
    SameHeaders tree tree' := by
  rcases checkNewHeader_refused h with rfl | ⟨prev, hfailed⟩
  · exact fun _ => rfl
  · exact checkFailedAncestors_error hfailed

theorem acceptBlockHeader_error (herror : acceptBlockHeader rules ctx block tree = .error e tree') :
    SameHeaders tree tree' := by
  simp only [acceptBlockHeader, run_bind_eq_error, run_get_ne_error, run_get_eq_ok,
    false_or] at herror
  obtain ⟨tree, _, ⟨rfl, rfl⟩, herror⟩ := herror
  split at herror
  case isTrue => exact absurd herror run_modify_ne_error
  case isFalse =>
    cases hknown : tree.find? (block.getHash rules) with
    | some pindex =>
      simp only [hknown] at herror
      obtain ⟨-, rfl⟩ := run_lift_eq_error.mp herror
      exact fun _ => rfl
    | none =>
      simp only [hknown] at herror
      exact checkNewHeader_error herror

/-- Blocks are offered one after the other; those that are accepted carry their height. -/
inductive HeaderRun (rules : HeaderRules) : BlockTree → BlockTree → Prop
  | start (tree : BlockTree) : HeaderRun rules tree tree
  | accepted {tree₀ tree tree' : BlockTree} (ctx : HeaderContext) (block : CBlockHeader) :
      HeaderRun rules tree₀ tree → WritesHeight tree block →
      acceptBlockHeader rules ctx block tree = .ok () tree' → HeaderRun rules tree₀ tree'
  | refused {tree₀ tree tree' : BlockTree} (ctx : HeaderContext) (block : CBlockHeader)
      (e : Reject) :
      HeaderRun rules tree₀ tree → acceptBlockHeader rules ctx block tree = .error e tree' →
      HeaderRun rules tree₀ tree'

theorem addToBlockIndex_keeps (hash : UInt256) (e : CBlockIndex)
    (hfind : tree.find? hash = some e) :
    (tree.addToBlockIndex rules block).find? hash = some e := by
  cases hnew : tree.find? (block.getHash rules) with
  | some _ => simpa [addToBlockIndex, hnew] using hfind
  | none =>
    rw [find?_addToBlockIndex hnew, if_neg, hfind]
    rintro rfl
    simp [hfind] at hnew

theorem IndexTied.addToBlockIndex (h : IndexTied rules tree)
    (hblock : tree.find? (block.getHash rules) = none →
      block.getHash rules ≠ rules.hashGenesisBlock →
      (tree.newIndex block).getBlockHeader = block ∧
        (rules.nKAWPOWActivationTime ≤ block.nTime → WorkDone rules tree block)) :
    IndexTied rules (tree.addToBlockIndex rules block) := by
  have hkeep : ∀ hash e, tree.find? hash = some e →
      ∃ e', (tree.addToBlockIndex rules block).find? hash = some e' ∧ e'.fixed = e.fixed :=
    fun hash e hfind => ⟨e, addToBlockIndex_keeps hash e hfind, rfl⟩
  intro hash e hfind hne
  cases hnew : tree.find? (block.getHash rules) with
  | some _ =>
    have hsame : tree.addToBlockIndex rules block = tree := by
      simp [BlockTree.addToBlockIndex, hnew]
    rw [hsame] at hfind ⊢
    exact h hash e hfind hne
  | none =>
    rw [find?_addToBlockIndex hnew] at hfind
    split at hfind
    case isTrue heq =>
      obtain rfl := some.inj hfind
      subst heq
      obtain ⟨hheader, hwork⟩ := hblock hnew hne
      have htime : (tree.newIndex block).nTime = block.nTime :=
        congrArg CBlockHeader.nTime hheader
      rw [hheader, htime]
      exact ⟨rfl, fun hle => (hwork hle).mono hkeep⟩
    case isFalse =>
      obtain ⟨hhash, hwork⟩ := h hash e hfind hne
      exact ⟨hhash, fun htime => (hwork htime).mono hkeep⟩

/-- One offered header keeps the index tied, if it carries its height. -/
theorem IndexTied.accepted (h : IndexTied rules tree) (hwrites : WritesHeight tree block)
    (hok : acceptBlockHeader rules ctx block tree = .ok () tree') : IndexTied rules tree' := by
  simp only [acceptBlockHeader, run_bind_eq_ok, run_get_eq_ok] at hok
  obtain ⟨tree, _, ⟨rfl, rfl⟩, hok⟩ := hok
  split at hok
  case isTrue hgenesis =>
    obtain rfl := run_modify_eq_ok.mp hok
    exact h.addToBlockIndex fun _ hne => absurd hgenesis hne
  case isFalse =>
    cases hknown : tree.find? (block.getHash rules) with
    | some pindex =>
      simp only [hknown] at hok
      obtain ⟨-, rfl⟩ := run_lift_eq_ok.mp hok
      exact h
    | none =>
      simp only [hknown] at hok
      obtain ⟨prev, hprev, -, -, rfl⟩ := checkNewHeader_ok hok
      exact h.addToBlockIndex fun _ _ => ⟨newIndex_getBlockHeader hprev hwrites,
        fun htime => (tied_of_writesHeight hok htime hwrites).workDone⟩

theorem IndexTied.refused (h : IndexTied rules tree)
    (herror : acceptBlockHeader rules ctx block tree = .error e tree') : IndexTied rules tree' :=
  h.of_sameHeaders (acceptBlockHeader_error herror)

theorem HeaderRun.indexTied {tree₀ : BlockTree} (hrun : HeaderRun rules tree₀ tree)
    (h : IndexTied rules tree₀) : IndexTied rules tree := by
  induction hrun with
  | start => exact h
  | accepted ctx block _ hwrites hok ih => exact ih.accepted hwrites hok
  | refused ctx block e _ herror ih => exact ih.refused herror

/-- A new KAWPOW header that is accepted is tied to its height if and only if the miner wrote that
height into it; and in a run where every accepted header has its height written into it, every
entry of the index is tied. -/
theorem header_work_tied (rules : HeaderRules) :
    (∀ ctx block tree tree', acceptBlockHeader rules ctx block tree = .ok () tree' →
      rules.nKAWPOWActivationTime ≤ block.nTime →
      block.getHash rules ≠ rules.hashGenesisBlock → tree.find? (block.getHash rules) = none →
      (TiedToHeight rules tree block ↔ WritesHeight tree block)) ∧
    ∀ tree₀ tree, HeaderRun rules tree₀ tree → IndexTied rules tree₀ → IndexTied rules tree := by
  constructor
  · intro ctx block tree tree' h htime hgenesis hnew
    exact ⟨TiedToHeight.writesHeight,
      tied_of_writesHeight (acceptBlockHeader_new h hgenesis hnew) htime⟩
  · intro tree₀ tree hrun h
    exact hrun.indexTied h

/-- A header with a wrong mix hash passes the cheap check; no header passes the full one. -/
def cheapRules : HeaderRules where
  pow := {
    hashX16R := fun _ => 0
    hashX16RV2 := fun _ => 0
    serializeHash := fun input => input.hashMerkleRoot
    progpowHash := fun _ _ _ => (BitVec.allOnes 256, 8)
    progpowHashNoVerify := fun _ headerHash mixHash _ =>
      if mixHash = 8 then BitVec.allOnes 256 else headerHash
    noVerify_eq := fun _ _ _ => rfl }
  nKAWPOWActivationTime := 100
  nX16RV2ActivationTime := 50
  powLimit := 2 ^ 255
  hashGenesisBlock := 1
  mapCheckpoints := [(0, 1)]
  fCheckpointsEnabled := true
  nDGWActivationBlock := 0
  nMaxReorgDepth := 60
  nMinReorgPeers := 4
  nMinReorgAge := 3600
  getNextWorkRequired := fun _ _ _ => 0x207fffff

/-- Every header passes both checks when its mix hash is seven. -/
def honestRules : HeaderRules :=
  { cheapRules with
    pow := { cheapRules.pow with
      progpowHash := fun _ _ _ => (0, 7)
      progpowHashNoVerify := fun _ headerHash mixHash _ => if mixHash = 7 then 0 else headerHash
      noVerify_eq := fun _ _ _ => rfl } }

/-- The genesis block, at height zero, is the last checkpoint. -/
def genesisTree : BlockTree where
  mapBlockIndex := KeyedSet.empty.insert
    (1, ⟨none, 0, 2, { nValid := blockValidScripts }, 0, 1, 10, 0x207fffff, 0, 0, 0, 10⟩)

def quietContext : HeaderContext := ⟨0, 10, none, 200, 200, false⟩

/-- A header on top of the genesis block that claims the given height. -/
def headerAt (nHeight : UInt32) : CBlockHeader := ⟨4, 1, 5, 150, 0x207fffff, 0, nHeight, 0, 7⟩

theorem headerAt_one_tied :
    (∃ tree', acceptBlockHeader honestRules quietContext (headerAt 1) genesisTree = .ok () tree' ∧
      IndexTied honestRules tree') ∧
      TiedToHeight honestRules genesisTree (headerAt 1) := by
  have hok : succeeded (acceptBlockHeader honestRules quietContext (headerAt 1) genesisTree) =
      true := by decide +kernel
  obtain ⟨⟨⟩, tree', h⟩ := succeeded_iff.mp hok
  have hwrites : WritesHeight genesisTree (headerAt 1) := by
    intro prev hprev
    obtain rfl : _ = prev := some.inj hprev
    decide +kernel
  have hgenesis : IndexTied honestRules genesisTree := by
    intro hash e hfind hne
    have hnone : genesisTree.find? hash = none := by
      simp [BlockTree.find?, genesisTree, KeyedSet.find?_insert]
      exact fun heq => hne heq.symm
    simp [hfind] at hnone
  obtain ⟨hnew, hruns⟩ := header_work_tied honestRules
  refine ⟨⟨tree', h, hruns genesisTree tree'
    (.accepted quietContext (headerAt 1) (.start _) hwrites h) hgenesis⟩, ?_⟩
  exact (hnew quietContext (headerAt 1) genesisTree tree' h (by decide) (by decide)
    (by decide +kernel)).mpr hwrites

/-- The height after the checkpoint is one, but a header that claims zero is taken without its
full proof of work. -/
theorem headerAt_zero_accepted :
    (∃ tree', acceptBlockHeader cheapRules quietContext (headerAt 0) genesisTree = .ok () tree') ∧
      cheapRules.nKAWPOWActivationTime ≤ (headerAt 0).nTime ∧
      genesisTree.find? ((headerAt 0).getHash cheapRules) = none ∧
      checkProofOfWork cheapRules ((headerAt 0).kawpowHash cheapRules).1 (headerAt 0).nBits = false ∧
      ¬ TiedToHeight cheapRules genesisTree (headerAt 0) := by
  have hok : succeeded (acceptBlockHeader cheapRules quietContext (headerAt 0) genesisTree) =
      true := by decide +kernel
  obtain ⟨⟨⟩, tree', h⟩ := succeeded_iff.mp hok
  refine ⟨⟨tree', h⟩, by decide, by decide +kernel, by decide +kernel, ?_⟩
  rintro ⟨prev, -, hheight, -⟩
  exact absurd hheight (Nat.succ_ne_zero prev.nHeight).symm

end HnbCore
