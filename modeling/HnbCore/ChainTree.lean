import HnbCore.ChainState

/-!
# The tree of the block index

The index grows and its entries change their status, but nothing else of an entry changes, and a
mark of failure is set on entries that have a failed block above them already, or on a block that
was just found invalid.
-/

namespace HnbCore

open Checks Ancestry List Option CBlockIndex

/-- What of an entry never changes. -/
def CBlockIndex.place (e : CBlockIndex) : Option UInt256 × Nat × Nat × UInt32 :=
  (e.pprev, e.nHeight, e.nChainWork, e.nTime)

namespace BlockTree

variable {e prev : CBlockIndex} {rules : HeaderRules} {block : CBlockHeader} {a p : UInt256}
  {f : CBlockIndex → CBlockIndex} {ctx : HeaderContext}

/-- Neither the entry nor one above it is marked failed. -/
def Clear (tree : BlockTree) (hash : UInt256) : Prop :=
  AllAbove tree.parent (fun a => ∃ e, tree.find? a = some e ∧ e.failed = false) hash

/-- Parents are in the index, one lower and with less work; a block that is known to have failed
is marked. -/
structure WellFormed (tree : BlockTree) : Prop where
  parents : ∀ {hash e p}, tree.find? hash = some e → e.pprev = some p →
    ∃ ep, tree.find? p = some ep ∧ e.nHeight = ep.nHeight + 1 ∧ ep.nChainWork < e.nChainWork
  valid : ∀ {hash e}, tree.find? hash = some e → blockValidTree ≤ e.nStatus.nValid
  failedBlocks : ∀ f ∈ tree.failedBlocks, ∃ e, tree.find? f = some e ∧ e.failed = true

/-- Entries stay, with the marks they have. -/
structure Extends (tree tree' : BlockTree) : Prop where
  kept : ∀ {hash e}, tree.find? hash = some e →
    ∃ e', tree'.find? hash = some e' ∧ e'.place = e.place ∧
      e.nStatus.nValid ≤ e'.nStatus.nValid ∧ (e.failed = true → e'.failed = true)

/-- New marks go to entries that were not clear. -/
structure Grows (tree tree' : BlockTree) : Prop extends Extends tree tree' where
  clear : ∀ {hash e'}, tree.Clear hash → tree'.find? hash = some e' → e'.failed = false

variable {tree tree' tree'' : BlockTree} {hash : UInt256}

theorem parent_eq (h : tree.find? hash = some e) : tree.parent hash = e.pprev := by
  rw [parent, h]
  rfl

theorem find?_of_parent (h : tree.parent hash = some p) :
    ∃ e, tree.find? hash = some e ∧ e.pprev = some p :=
  bind_eq_some_iff.mp h

theorem Clear.found (h : tree.Clear hash) : ∃ e, tree.find? hash = some e ∧ e.failed = false :=
  h.self

def heightOf (tree : BlockTree) (hash : UInt256) : Nat :=
  ((tree.find? hash).map nHeight).getD 0

def workOf (tree : BlockTree) (hash : UInt256) : Nat :=
  ((tree.find? hash).map nChainWork).getD 0

namespace WellFormed

section

variable (h : tree.WellFormed)
include h

theorem parent_found (hp : tree.parent hash = some p) :
    ∃ ep, tree.find? p = some ep := by
  obtain ⟨e, he, hprev⟩ := find?_of_parent hp
  obtain ⟨ep, hep, -⟩ := h.parents he hprev
  exact ⟨ep, hep⟩

theorem parent_below (hp : tree.parent hash = some p) :
    tree.heightOf hash = tree.heightOf p + 1 ∧ tree.workOf p < tree.workOf hash := by
  obtain ⟨e, he, hprev⟩ := find?_of_parent hp
  obtain ⟨ep, hep, hheight, hwork⟩ := h.parents he hprev
  simpa [heightOf, workOf, he, hep] using ⟨hheight, hwork⟩

theorem parent_lower (b p : UInt256) (hp : tree.parent b = some p) :
    tree.heightOf p < tree.heightOf b := by
  have hheight := (h.parent_below hp).1
  omega

theorem found_of_ancestor {b : UInt256} (ha : Ancestor tree.parent a b)
    (hb : tree.find? b = some e) : ∃ ea, tree.find? a = some ea := by
  induction ha generalizing e with
  | refl => exact ⟨e, hb⟩
  | step hp _ ih =>
    obtain ⟨ep, hep⟩ := h.parent_found hp
    exact ih hep

end

end WellFormed

namespace Extends

section

variable (h : Extends tree tree')
include h

theorem parent (he : tree.find? hash = some e) :
    tree'.parent hash = tree.parent hash := by
  obtain ⟨e', he', hplace, -⟩ := h.kept he
  rw [parent_eq he, parent_eq he']
  exact congrArg Prod.fst hplace

theorem workOf (he : tree.find? hash = some e) :
    tree'.workOf hash = tree.workOf hash := by
  obtain ⟨e', he', hplace, -⟩ := h.kept he
  have hwork : e'.nChainWork = e.nChainWork := congrArg (fun place => place.2.2.1) hplace
  simp [BlockTree.workOf, he, he', hwork]

/-- Above an entry only the pointers of the old tree matter. -/
theorem allAbove_iff (hwf : tree.WellFormed) {P : UInt256 → Prop} (he : tree.find? hash = some e) :
    AllAbove tree'.parent P hash ↔ AllAbove tree.parent P hash := by
  apply allAbove_congr (S := fun b => ∃ e, tree.find? b = some e)
  · intro b _ p hp
    exact hwf.parent_found hp
  · rintro b ⟨e, he⟩
    exact h.parent he
  · intro b _
    exact Iff.rfl
  · exact ⟨e, he⟩

theorem ancestor_iff (hwf : tree.WellFormed) (he : tree.find? hash = some e) :
    Ancestor tree'.parent a hash ↔ Ancestor tree.parent a hash := by
  have hiff := h.allAbove_iff hwf (P := (· ≠ a)) he
  constructor
  · intro ha
    by_contra hnot
    exact (hiff.mpr fun b hb hba => hnot (hba ▸ hb)) a ha rfl
  · intro ha
    by_contra hnot
    exact (hiff.mp fun b hb hba => hnot (hba ▸ hb)) a ha rfl

theorem trans (h' : Extends tree' tree'') : Extends tree tree'' where
  kept he := by
    obtain ⟨e', he', hplace, hvalid, hfailed⟩ := h.kept he
    obtain ⟨e'', he'', hplace', hvalid', hfailed'⟩ := h'.kept he'
    exact ⟨e'', he'', hplace'.trans hplace, hvalid.trans hvalid', fun hf => hfailed' (hfailed hf)⟩

end

end Extends

namespace Grows

theorem refl (tree : BlockTree) : Grows tree tree where
  kept h := ⟨_, h, rfl, Nat.le_refl _, id⟩
  clear h h' := by
    obtain ⟨e, he, hfailed⟩ := h.found
    rw [he, some.injEq] at h'
    rw [← h', hfailed]

theorem clear_iff (h : Grows tree tree') (hwf : tree.WellFormed) (he : tree.find? hash = some e) :
    tree'.Clear hash ↔ tree.Clear hash := by
  unfold Clear
  rw [h.allAbove_iff hwf he]
  constructor
  · intro hclear a ha
    obtain ⟨ea, hea⟩ := hwf.found_of_ancestor ha he
    obtain ⟨ea', hea', -, -, hfailed⟩ := h.kept hea
    obtain ⟨ea'', hea'', hnot⟩ := hclear a ha
    rw [hea', some.injEq] at hea''
    subst hea''
    refine ⟨ea, hea, Bool.eq_false_iff.mpr fun hf => ?_⟩
    rw [hfailed hf] at hnot
    cases hnot
  · intro hclear
    refine AllAbove.of_removed hclear fun a ha => ?_
    obtain ⟨ea, hea, -⟩ := ha.self
    obtain ⟨ea', hea', -⟩ := h.kept hea
    exact ⟨ea', hea', h.clear ha hea'⟩

theorem trans (h : Grows tree tree') (hwf : tree.WellFormed) (h' : Grows tree' tree'') :
    Grows tree tree'' where
  toExtends := h.toExtends.trans h'.toExtends
  clear hclear he'' := by
    obtain ⟨e, he, -⟩ := hclear.found
    exact h'.clear ((h.clear_iff hwf he).mpr hclear) he''

end Grows

theorem find?_update (tree : BlockTree) (hash hash' : UInt256) (f : CBlockIndex → CBlockIndex) :
    (tree.update hash f).find? hash' =
      if hash = hash' then (tree.find? hash').map f else tree.find? hash' := by
  cases he : tree.find? hash with
  | none =>
    have hsame : tree.update hash f = tree := by rw [update, he]
    rw [hsame]
    split
    case isTrue heq => rw [← heq, he]; rfl
    case isFalse => rfl
  | some e =>
    have hset : tree.update hash f = tree.set hash (f e) := by rw [update, he]
    rw [hset, find?_set]
    split
    case isTrue heq => rw [← heq, he]; rfl
    case isFalse => rfl

theorem update_failedBlocks (tree : BlockTree) (hash : UInt256) (f : CBlockIndex → CBlockIndex) :
    (tree.update hash f).failedBlocks = tree.failedBlocks := by
  unfold update
  split <;> rfl

/-- A change of the status of one entry, which is never made better. -/
structure Stamps (f : CBlockIndex → CBlockIndex) : Prop where
  place : ∀ e, (f e).place = e.place
  valid : ∀ e, e.nStatus.nValid ≤ (f e).nStatus.nValid
  failed : ∀ e, e.failed = true → (f e).failed = true

theorem stamps_markFailedChild : Stamps markFailedChild where
  place _ := rfl
  valid _ := Nat.le_refl _
  failed _ _ := Bool.or_true _

theorem stamps_markFailedValid : Stamps markFailedValid where
  place _ := rfl
  valid _ := Nat.le_refl _
  failed _ _ := Bool.true_or _

theorem stamps_raiseValidity (nUpTo : Nat) : Stamps (raiseValidity nUpTo) where
  place e := by unfold raiseValidity; split <;> rfl
  valid e := by
    unfold raiseValidity
    split
    case isTrue => exact Nat.le_refl _
    case isFalse => exact Nat.le_max_left _ _
  failed e h := by rw [raiseValidity, if_pos h, h]

theorem raiseValidity_failed (nUpTo : Nat) (e : CBlockIndex) :
    (e.raiseValidity nUpTo).failed = e.failed := by
  unfold raiseValidity
  split <;> rfl

/-- An entry of the updated tree, and what it was. -/
theorem of_find?_update (hf : Stamps f) {hash' : UInt256} {e' : CBlockIndex}
    (h : (tree.update hash f).find? hash' = some e') :
    ∃ e, tree.find? hash' = some e ∧ e'.place = e.place ∧
      e.nStatus.nValid ≤ e'.nStatus.nValid ∧ (e.failed = true → e'.failed = true) := by
  rw [find?_update] at h
  split at h
  case isTrue =>
    obtain ⟨e, he, rfl⟩ := map_eq_some_iff.mp h
    exact ⟨e, he, hf.place e, hf.valid e, hf.failed e⟩
  case isFalse => exact ⟨e', h, rfl, Nat.le_refl _, id⟩

theorem kept_update (hash : UInt256) (hf : Stamps f) {hash' : UInt256}
    (h : tree.find? hash' = some e) :
    ∃ e', (tree.update hash f).find? hash' = some e' ∧ e'.place = e.place ∧
      e.nStatus.nValid ≤ e'.nStatus.nValid ∧ (e.failed = true → e'.failed = true) := by
  rw [find?_update]
  split
  case isTrue =>
    rw [h]
    exact ⟨f e, rfl, hf.place e, hf.valid e, hf.failed e⟩
  case isFalse => exact ⟨e, h, rfl, Nat.le_refl _, id⟩

theorem grows_update (hf : Stamps f)
    (hclear : ∀ e, tree.find? hash = some e → tree.Clear hash → (f e).failed = false) :
    Grows tree (tree.update hash f) where
  kept he := kept_update hash hf he
  clear {hash' e'} hc he' := by
    rw [find?_update] at he'
    split at he'
    case isTrue heq =>
      subst heq
      obtain ⟨e, he, rfl⟩ := map_eq_some_iff.mp he'
      exact hclear e he hc
    case isFalse =>
      obtain ⟨e, he, hfailed⟩ := hc.found
      rw [he, some.injEq] at he'
      rw [← he', hfailed]

theorem WellFormed.update (h : tree.WellFormed) (hf : Stamps f) :
    (tree.update hash f).WellFormed where
  parents {hash' e' p} he' hp := by
    obtain ⟨e, he, hplace, -⟩ := of_find?_update hf he'
    have hprev : e.pprev = some p := (congrArg Prod.fst hplace).symm.trans hp
    have hheight : e'.nHeight = e.nHeight := congrArg (fun place => place.2.1) hplace
    have hwork : e'.nChainWork = e.nChainWork := congrArg (fun place => place.2.2.1) hplace
    obtain ⟨ep, hep, hup, hless⟩ := h.parents he hprev
    obtain ⟨ep', hep', hplace', -⟩ := kept_update hash hf hep
    have hheight' : ep'.nHeight = ep.nHeight := congrArg (fun place => place.2.1) hplace'
    have hwork' : ep'.nChainWork = ep.nChainWork := congrArg (fun place => place.2.2.1) hplace'
    exact ⟨ep', hep', by omega, by omega⟩
  valid he' := by
    obtain ⟨e, he, -, hvalid, -⟩ := of_find?_update hf he'
    exact (h.valid he).trans hvalid
  failedBlocks g hg := by
    rw [update_failedBlocks] at hg
    obtain ⟨e, he, hfailed⟩ := h.failedBlocks g hg
    obtain ⟨e', he', -, -, hmore⟩ := kept_update hash hf he
    exact ⟨e', he', hmore hfailed⟩

theorem not_clear_of_ancestor (ha : Ancestor tree.parent a hash) (he : tree.find? a = some e)
    (hfailed : e.failed = true) : ¬ tree.Clear hash := by
  intro hclear
  obtain ⟨e', he', hnot⟩ := hclear a ha
  rw [he, some.injEq] at he'
  rw [← he', hfailed] at hnot
  cases hnot

theorem grows_markFailedChild (ha : Ancestor tree.parent a hash) (he : tree.find? a = some e)
    (hfailed : e.failed = true) : Grows tree (tree.update hash .markFailedChild) :=
  grows_update stamps_markFailedChild fun _ _ hclear =>
    absurd hclear (not_clear_of_ancestor ha he hfailed)

theorem grows_raiseValidity (nUpTo : Nat) :
    Grows tree (tree.update hash (.raiseValidity nUpTo)) := by
  apply grows_update (stamps_raiseValidity nUpTo)
  intro e he hclear
  obtain ⟨e', he', hnot⟩ := hclear.found
  rw [he, some.injEq] at he'
  rw [raiseValidity_failed, he', hnot]

theorem ancestor_of_getAncestor {height fuel : Nat}
    (h : tree.getAncestor height fuel hash = some a) : Ancestor tree.parent a hash := by
  induction fuel generalizing hash with
  | zero => cases h
  | succ fuel ih =>
    unfold getAncestor at h
    cases he : tree.find? hash with
    | none => simp [he] at h
    | some e =>
      simp only [he] at h
      by_cases hhere : e.nHeight = height
      · rw [if_pos hhere, some.injEq] at h
        exact h ▸ .refl
      · rw [if_neg hhere] at h
        by_cases hbelow : e.nHeight < height
        · rw [if_pos hbelow] at h
          cases h
        · rw [if_neg hbelow] at h
          obtain ⟨p, hp, hup⟩ := bind_eq_some_iff.mp h
          exact .step ((parent_eq he).trans hp) (ih hup)

/-- The walk of `AcceptBlockHeader` marks entries below a failed block. -/
theorem grows_markFailed {failedit : UInt256} (fuel : Nat) (hwf : tree.WellFormed)
    (ha : Ancestor tree.parent failedit hash) {f : CBlockIndex}
    (hf : tree.find? failedit = some f) (hfailed : f.failed = true) :
    Grows tree (tree.markFailed failedit fuel hash) ∧
      (tree.markFailed failedit fuel hash).WellFormed ∧
      ∀ h, (tree.markFailed failedit fuel hash).find? h = none ↔ tree.find? h = none := by
  induction fuel generalizing tree hash f with
  | zero => exact ⟨.refl _, hwf, fun _ => Iff.rfl⟩
  | succ fuel ih =>
    unfold markFailed
    by_cases hstop : hash = failedit
    · rw [if_pos hstop]
      exact ⟨.refl _, hwf, fun _ => Iff.rfl⟩
    · rw [if_neg hstop]
      cases he : tree.find? hash with
      | none => exact ⟨.refl _, hwf, fun _ => Iff.rfl⟩
      | some e =>
        have hset : tree.set hash e.markFailedChild = tree.update hash .markFailedChild := by
          rw [update, he]
        have hgrows := grows_markFailedChild ha hf hfailed
        have hwf' : (tree.update hash .markFailedChild).WellFormed :=
          hwf.update stamps_markFailedChild
        have hsame : ∀ h, (tree.update hash .markFailedChild).find? h = none ↔
            tree.find? h = none := by
          intro h
          rw [find?_update]
          split <;> simp
        simp only [hset]
        cases hp : e.pprev with
        | none => exact ⟨hgrows, hwf', hsame⟩
        | some p =>
          have hup : Ancestor tree.parent failedit p := by
            rcases Ancestry.ancestor_iff.mp ha with heq | ⟨q, hq, hup⟩
            · exact absurd heq.symm hstop
            · rw [parent_eq he, hp, some.injEq] at hq
              exact hq ▸ hup
          obtain ⟨ep, hep, -⟩ := hwf.parents he hp
          obtain ⟨f', hf', -, -, hmore⟩ := hgrows.kept hf
          obtain ⟨hgrows', hwf'', hsame'⟩ :=
            ih hwf' ((hgrows.ancestor_iff hwf hep).mpr hup) hf' (hmore hfailed)
          exact ⟨hgrows.trans hwf hgrows', hwf'', fun h => (hsame' h).trans (hsame h)⟩

theorem getBlockProof_pos {hash : UInt256} {nBits : UInt32}
    (h : checkProofOfWork rules hash nBits = true) : 0 < getBlockProof nBits := by
  simp only [checkProofOfWork, Bool.and_eq_true, Bool.not_eq_true', Bool.or_eq_false_iff,
    decide_eq_false_iff_not] at h
  obtain ⟨⟨⟨⟨hneg, hzero⟩, hover⟩, -⟩, -⟩ := h
  rw [getBlockProof, if_neg (by simp [hneg, hzero, hover])]
  exact Nat.succ_pos _

theorem getBlockProof_of_checkBlockHeader (h : checkBlockHeader rules tree block = .ok ()) :
    0 < getBlockProof block.nBits := by
  unfold checkBlockHeader at h
  split at h
  case isTrue => exact getBlockProof_pos (dos_eq_ok.mp h)
  case isFalse =>
    simp only [bind_eq_ok, dos_eq_ok] at h
    obtain ⟨_, hpow, -⟩ := h
    exact getBlockProof_pos hpow

/-- A header that was accepted was known, or is new on top of a known one. -/
theorem acceptBlockHeader_ok (hgenesis : (tree.find? rules.hashGenesisBlock).isSome = true)
    (h : acceptBlockHeader rules ctx block tree = .ok () tree') :
    (tree' = tree ∧ ∃ e, tree.find? (block.getHash rules) = some e ∧
      (e.failed = false ∨ block.getHash rules = rules.hashGenesisBlock)) ∨
    (tree.find? (block.getHash rules) = none ∧ ∃ prev,
      tree.find? block.hashPrevBlock = some prev ∧ checkBlockHeader rules tree block = .ok () ∧
      contextualCheckBlockHeader rules ctx tree prev block = .ok () ∧
      tree' = tree.addToBlockIndex rules block) := by
  simp only [acceptBlockHeader, run_bind_eq_ok, run_get_eq_ok] at h
  obtain ⟨_, _, ⟨rfl, rfl⟩, h⟩ := h
  by_cases hhash : block.getHash rules = rules.hashGenesisBlock
  · rw [if_pos hhash] at h
    obtain ⟨e, he⟩ := isSome_iff_exists.mp hgenesis
    rw [← hhash] at he
    have hsame : tree.addToBlockIndex rules block = tree := by simp [addToBlockIndex, he]
    exact .inl ⟨(run_modify_eq_ok.mp h).symm.trans hsame, e, he, .inr hhash⟩
  · rw [if_neg hhash] at h
    cases he : tree.find? (block.getHash rules) with
    | some e =>
      simp only [he] at h
      obtain ⟨hfailed, rfl⟩ := run_lift_eq_ok.mp h
      rw [dos_eq_ok, Bool.not_eq_true'] at hfailed
      exact .inl ⟨rfl, e, rfl, .inl hfailed⟩
    | none =>
      simp only [he] at h
      exact .inr ⟨rfl, checkNewHeader_ok h⟩

theorem checkFailedAncestors_grows {e : Reject} (hwf : tree.WellFormed)
    (h : checkFailedAncestors hash prev tree = .error e tree') :
    Grows tree tree' ∧ tree'.WellFormed ∧ ∀ h, tree'.find? h = none ↔ tree.find? h = none := by
  unfold checkFailedAncestors at h
  split at h
  case isTrue => cases h
  case isFalse =>
    split at h
    case h_1 => cases h
    case h_2 failedit hfound =>
      simp only [EStateM.Result.error.injEq] at h
      obtain ⟨-, rfl⟩ := h
      obtain ⟨f, hf, hfailed⟩ := hwf.failedBlocks failedit (mem_of_find?_eq_some hfound)
      have habove := find?_some hfound
      simp only [hf, decide_eq_true_eq] at habove
      exact grows_markFailed _ hwf (ancestor_of_getAncestor habove) hf hfailed

/-- A header that is refused leaves marks below a failed block. -/
theorem acceptBlockHeader_refused {e : Reject} (hwf : tree.WellFormed)
    (h : acceptBlockHeader rules ctx block tree = .error e tree') :
    Grows tree tree' ∧ tree'.WellFormed ∧ ∀ h, tree'.find? h = none ↔ tree.find? h = none := by
  have hsame : Grows tree tree ∧ tree.WellFormed ∧
      ∀ h, tree.find? h = none ↔ tree.find? h = none := ⟨.refl _, hwf, fun _ => Iff.rfl⟩
  simp only [acceptBlockHeader, run_bind_eq_error, run_get_ne_error, run_get_eq_ok,
    false_or] at h
  obtain ⟨_, _, ⟨rfl, rfl⟩, h⟩ := h
  split at h
  case isTrue => exact absurd h run_modify_ne_error
  case isFalse =>
    cases hknown : tree.find? (block.getHash rules) with
    | some pindex =>
      simp only [hknown] at h
      obtain ⟨-, rfl⟩ := run_lift_eq_error.mp h
      exact hsame
    | none =>
      simp only [hknown] at h
      rcases checkNewHeader_refused h with rfl | ⟨prev, hfailed⟩
      · exact hsame
      · exact checkFailedAncestors_grows hwf hfailed

theorem newIndex_place (hprev : tree.find? block.hashPrevBlock = some prev) :
    (tree.newIndex block).place =
      (some block.hashPrevBlock, prev.nHeight + 1, prev.nChainWork + getBlockProof block.nBits,
        block.nTime) ∧
      (tree.newIndex block).nStatus = { nValid := blockValidTree } := by
  simp [newIndex, hprev, CBlockIndex.place, ofHeader]

theorem grows_addToBlockIndex :
    Grows tree (tree.addToBlockIndex rules block) where
  kept he := ⟨_, addToBlockIndex_keeps _ _ he, rfl, Nat.le_refl _, id⟩
  clear hclear he' := by
    obtain ⟨e, he, hfailed⟩ := hclear.found
    rw [addToBlockIndex_keeps _ _ he, some.injEq] at he'
    rw [← he', hfailed]

theorem WellFormed.addToBlockIndex (hwf : tree.WellFormed)
    (hnew : tree.find? (block.getHash rules) = none)
    (hprev : tree.find? block.hashPrevBlock = some prev) (hproof : 0 < getBlockProof block.nBits) :
    (tree.addToBlockIndex rules block).WellFormed where
  parents {hash e p} he hp := by
    rw [find?_addToBlockIndex hnew] at he
    split at he
    case isTrue heq =>
      obtain rfl := some.inj he
      obtain ⟨hplace, -⟩ := newIndex_place hprev
      have hparent : (tree.newIndex block).pprev = some block.hashPrevBlock :=
        congrArg Prod.fst hplace
      have hheight : (tree.newIndex block).nHeight = prev.nHeight + 1 :=
        congrArg (fun place => place.2.1) hplace
      have hwork : (tree.newIndex block).nChainWork =
          prev.nChainWork + getBlockProof block.nBits := congrArg (fun place => place.2.2.1) hplace
      rw [hparent, some.injEq] at hp
      subst hp
      exact ⟨prev, addToBlockIndex_keeps _ _ hprev, hheight, by omega⟩
    case isFalse =>
      obtain ⟨ep, hep, hrest⟩ := hwf.parents he hp
      exact ⟨ep, addToBlockIndex_keeps _ _ hep, hrest⟩
  valid {hash e} he := by
    rw [find?_addToBlockIndex hnew] at he
    split at he
    case isTrue =>
      obtain rfl := some.inj he
      rw [(newIndex_place hprev).2]
    case isFalse => exact hwf.valid he
  failedBlocks f hf := by
    have hsame : (tree.addToBlockIndex rules block).failedBlocks = tree.failedBlocks := by
      simp only [BlockTree.addToBlockIndex, hnew]
      rfl
    rw [hsame] at hf
    obtain ⟨e, he, hfailed⟩ := hwf.failedBlocks f hf
    exact ⟨e, addToBlockIndex_keeps _ _ he, hfailed⟩

theorem grows_of_accepted (hwf : tree.WellFormed)
    (hgenesis : (tree.find? rules.hashGenesisBlock).isSome = true)
    (h : acceptBlockHeader rules ctx block tree = .ok () tree') :
    Grows tree tree' ∧ tree'.WellFormed ∧ ∃ e, tree'.find? (block.getHash rules) = some e ∧
      (e.failed = false ∨ block.getHash rules = rules.hashGenesisBlock) := by
  rcases acceptBlockHeader_ok hgenesis h with ⟨rfl, hfound⟩ | ⟨hnew, prev, hprev, hcheck, -, rfl⟩
  · exact ⟨.refl _, hwf, hfound⟩
  · refine ⟨grows_addToBlockIndex,
      hwf.addToBlockIndex hnew hprev (getBlockProof_of_checkBlockHeader hcheck), ?_⟩
    refine ⟨tree.newIndex block, ?_, .inl ?_⟩
    · rw [find?_addToBlockIndex hnew, if_pos rfl]
    · rw [CBlockIndex.failed, (newIndex_place hprev).2]
      rfl

end BlockTree

end HnbCore
