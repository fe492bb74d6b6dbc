import HnbCore.ChainTree

/-!
# What the candidate set misses

`setBlockIndexCandidates` does not hold every block that could be the tip: blocks that are worse
than the tip are dropped. What it keeps is told by a floor, a candidate whose chain has been
connected once: no eligible block that is as good as the floor is missing. `mapBlocksUnlinked`
holds the blocks that wait for a parent.
-/

namespace HnbCore

open Ancestry BlockTree List Option ChainState

namespace ChainState

variable {rules : ChainRules} {s s' : ChainState} {queue : List UInt256} {a b h : UInt256}
  {e : CBlockIndex}

/-! ## The order of the candidates -/

def rank (rules : ChainRules) (s : ChainState) (h : UInt256) : ℕ ×ₗ ℕᵒᵈ ×ₗ ℕᵒᵈ :=
  toLex (s.nChainWork h, toLex (OrderDual.toDual (s.nSequenceId h),
    OrderDual.toDual (rules.address h)))

theorem worse_iff : s.worse rules a b = true ↔ s.rank rules a < s.rank rules b := by
  simp only [worse, rank, Prod.Lex.toLex_lt_toLex, OrderDual.toDual_lt_toDual,
    OrderDual.toDual_inj]
  split_ifs <;> simp <;> omega

theorem worse_eq_false : s.worse rules a b = false ↔ s.rank rules b ≤ s.rank rules a := by
  rw [← not_lt, ← worse_iff, Bool.not_eq_true]

theorem work_le_of_rank_le (h : s.rank rules a ≤ s.rank rules b) :
    s.nChainWork a ≤ s.nChainWork b := by
  rcases (Prod.Lex.toLex_le_toLex).mp h with hlt | ⟨heq, -⟩
  · exact Nat.le_of_lt hlt
  · exact Nat.le_of_eq heq

theorem rank_congr (hwork : s'.nChainWork h = s.nChainWork h)
    (hseq : s'.nSequenceId h = s.nSequenceId h) : s'.rank rules h = s.rank rules h := by
  rw [rank, rank, hwork, hseq]

/-! ## Soundness -/

/-- The block and all above it have their data and no mark of failure. -/
def Eligible (s : ChainState) (h : UInt256) : Prop :=
  AllAbove s.tree.parent
    (fun a => (∃ e, s.tree.find? a = some e ∧ e.failed = false) ∧ s.hasData a = true) h

/-- What the index, the data and the waiting blocks say of each other. The blocks of the queue are
about to be linked. -/
structure Linked (queue : List UInt256) (s : ChainState) : Prop where
  wellFormed : s.tree.WellFormed
  indexed : ∀ {h}, s.hasData h = true →
    ∃ e, s.tree.find? h = some e ∧ (e.failed = false → blockValidTransactions ≤ e.nStatus.nValid)
  counted : ∀ {h}, s.hasData h = true → s.nTx h ≠ 0
  linkedDown : ∀ {h p}, s.nChainTx h ≠ 0 → s.tree.parent h = some p → s.nChainTx p ≠ 0
  pending : ∀ {h}, s.hasData h = true → s.nChainTx h = 0 → h ∈ queue ∨
    ∃ p, s.tree.parent h = some p ∧
      (s.failed p = true ∨ (s.nChainTx p = 0 ∧ (p, h) ∈ s.mapBlocksUnlinked))
  queued : ∀ h ∈ queue, s.hasData h = true ∧ s.nChainTx h = 0 ∧
    ∀ p, s.tree.parent h = some p → s.nChainTx p ≠ 0
  waiting : ∀ item ∈ s.mapBlocksUnlinked, s.hasData item.2 = true ∧ s.nChainTx item.2 = 0 ∧
    s.tree.parent item.2 = some item.1
  apart : (queue ++ s.mapBlocksUnlinked.map Prod.snd).Nodup

/-- All linked blocks that are eligible are candidates, or all that are as good as some candidate
whose chain goes through. -/
def Floor (rules : ChainRules) (s : ChainState) : Prop :=
  (∀ h, s.Eligible h → s.nChainTx h ≠ 0 → s.setBlockIndexCandidates.contains h = true) ∨
  ∃ f, s.setBlockIndexCandidates.contains f = true ∧ s.Eligible f ∧
    AllAbove s.tree.parent (rules.connects · = true) f ∧
    ∀ h, s.Eligible h → s.nChainTx h ≠ 0 → s.rank rules f ≤ s.rank rules h →
      s.setBlockIndexCandidates.contains h = true

structure Active (rules : ChainRules) (s : ChainState) : Prop where
  candidates : ∀ {h}, s.setBlockIndexCandidates.contains h = true → s.nChainTx h ≠ 0
  branch : IsBranch s.tree.parent s.chainActive
  active : ∀ h ∈ s.chainActive,
    s.Eligible h ∧ rules.connects h = true ∧ s.nChainTx h ≠ 0

structure Chosen (rules : ChainRules) (s : ChainState) : Prop extends Active rules s where
  floor : s.Floor rules

structure Sound (rules : ChainRules) (s : ChainState) : Prop extends Linked [] s, Chosen rules s where
  genesis : (s.tree.find? rules.headers.hashGenesisBlock).isSome = true

/-! ## Reading the invariants -/

theorem hasData_of_linked (h : s.nChainTx a ≠ 0) : s.hasData a = true := by
  unfold nChainTx at h
  unfold hasData KeyedSet.contains
  cases hdata : s.data.find? a with
  | none => simp [hdata] at h
  | some d => rfl

theorem failed_eq (h : s.tree.find? a = some e) : s.failed a = e.failed := by
  simp [failed, h]

theorem Eligible.clear (h : s.Eligible a) : s.tree.Clear a := (allAbove_and.mp h).1

theorem Eligible.hasData (h : s.Eligible a) : s.hasData a = true := h.self.2

theorem Eligible.up (h : s.Eligible a) {p : UInt256} (hp : s.tree.parent a = some p) :
    s.Eligible p :=
  AllAbove.up h hp

theorem Eligible.not_failed (h : s.Eligible a) : s.failed a = false := by
  obtain ⟨e, he, hfailed⟩ := h.self.1
  rw [failed_eq he, hfailed]

theorem Linked.eligible_linked (hl : Linked [] s) (h : s.Eligible a) : s.nChainTx a ≠ 0 := by
  refine AllAbove.induction s.tree.heightOf (C := fun b => s.nChainTx b ≠ 0)
    hl.wellFormed.parent_lower ?_ h
  intro b hb habove hzero
  rcases hl.pending (Eligible.hasData hb) hzero with hnil | ⟨p, hp, hfailed | ⟨hpzero, -⟩⟩
  · cases hnil
  · rw [(Eligible.up hb hp).not_failed] at hfailed
    cases hfailed
  · exact habove p hp hpzero

theorem Linked.found (hl : Linked queue s) (h : s.nChainTx a ≠ 0) :
    ∃ e, s.tree.find? a = some e := by
  obtain ⟨e, he, -⟩ := hl.indexed (hasData_of_linked h)
  exact ⟨e, he⟩

theorem Active.connected (hc : Active rules s) (h : a ∈ s.chainActive) :
    AllAbove s.tree.parent (rules.connects · = true) a := by
  obtain ⟨front, rest, heq⟩ := append_of_mem h
  have hbranch : IsBranch s.tree.parent (a :: rest) :=
    isBranch_of_suffix hc.branch (heq ▸ suffix_append front (a :: rest))
  intro b hb
  have hin := (mem_branch_iff hbranch b).mpr hb
  exact (hc.active b (heq ▸ mem_append_right front hin)).2.1

theorem tip_mem {tip : UInt256} (h : s.tip = some tip) : tip ∈ s.chainActive :=
  mem_of_head? h

/-! ## Changes of the tree -/

theorem data_congr (hdata : s'.data = s.data) (h : UInt256) :
    s'.hasData h = s.hasData h ∧ s'.nTx h = s.nTx h ∧ s'.nChainTx h = s.nChainTx h ∧
      s'.nSequenceId h = s.nSequenceId h := by
  simp only [hasData, nTx, nChainTx, nSequenceId, hdata, and_self]

theorem failed_of_extends (hext : Extends s.tree s'.tree) (h : s.failed a = true) :
    s'.failed a = true := by
  cases he : s.tree.find? a with
  | none => simp [failed, he] at h
  | some e =>
    obtain ⟨e', he', -, -, hmore⟩ := hext.kept he
    rw [failed_eq he] at h
    rw [failed_eq he']
    exact hmore h

theorem found_of_extends (hext : Extends s.tree s'.tree) (h : (s.tree.find? a).isSome = true) :
    (s'.tree.find? a).isSome = true := by
  obtain ⟨e, he⟩ := isSome_iff_exists.mp h
  obtain ⟨e', he', -⟩ := hext.kept he
  rw [he']
  rfl

theorem Linked.extends (hl : Linked queue s) (hext : Extends s.tree s'.tree)
    (hwf : s'.tree.WellFormed) (hdata : s'.data = s.data)
    (hwait : s'.mapBlocksUnlinked = s.mapBlocksUnlinked) : Linked queue s' := by
  have hparent : ∀ {h}, s.hasData h = true → s'.tree.parent h = s.tree.parent h := by
    intro h hh
    obtain ⟨e, he, -⟩ := hl.indexed hh
    exact hext.parent he
  obtain ⟨tree, data, _, wait, _, _⟩ := s'
  obtain rfl : data = s.data := hdata
  obtain rfl : wait = s.mapBlocksUnlinked := hwait
  constructor
  · exact hwf
  · intro h hh
    obtain ⟨e, he, hlevel⟩ := hl.indexed hh
    obtain ⟨e', he', -, hmore, hmark⟩ := hext.kept he
    refine ⟨e', he', fun hnot => ?_⟩
    have hclear : e.failed = false := by
      refine Bool.eq_false_iff.mpr fun hf => ?_
      rw [hmark hf] at hnot
      cases hnot
    exact (hlevel hclear).trans hmore
  · exact hl.counted
  · intro h p hh hp
    exact hl.linkedDown hh ((hparent (hasData_of_linked hh)).symm.trans hp)
  · intro h hh hzero
    rcases hl.pending hh hzero with hin | ⟨p, hp, hrest⟩
    · exact .inl hin
    · exact .inr ⟨p, (hparent hh).trans hp, hrest.imp_left (failed_of_extends hext)⟩
  · intro h hin
    obtain ⟨hh, hzero, hp⟩ := hl.queued h hin
    exact ⟨hh, hzero, fun p hpar => hp p ((hparent hh).symm.trans hpar)⟩
  · intro item hin
    obtain ⟨hh, hzero, hp⟩ := hl.waiting item hin
    exact ⟨hh, hzero, (hparent hh).trans hp⟩
  · exact hl.apart

/-- The eligible blocks stay those that were, or lose some that do not go through; candidates that
are not eligible may go, and the chain may lose its tips. -/
theorem Chosen.change (hc : Chosen rules s) (hl : Linked queue s)
    (hext : Extends s.tree s'.tree) (hcount : ∀ a, s'.nChainTx a = s.nChainTx a)
    (hseq : ∀ a, s'.nSequenceId a = s.nSequenceId a)
    (hchain : s'.chainActive <:+ s.chainActive)
    (hless : ∀ {a}, s.nChainTx a ≠ 0 → s'.Eligible a → s.Eligible a)
    (hkept : ∀ {a}, s.nChainTx a ≠ 0 → s.Eligible a →
      AllAbove s.tree.parent (rules.connects · = true) a → s'.Eligible a)
    (hcands : ∀ {a}, s'.setBlockIndexCandidates.contains a = true →
      s.setBlockIndexCandidates.contains a = true)
    (hcands' : ∀ {a}, s'.Eligible a → s.setBlockIndexCandidates.contains a = true →
      s'.setBlockIndexCandidates.contains a = true) : Chosen rules s' := by
  have hrank : ∀ {a}, s.nChainTx a ≠ 0 → s'.rank rules a = s.rank rules a := by
    intro a ha
    obtain ⟨e, he⟩ := hl.found ha
    exact rank_congr (hext.workOf he) (hseq a)
  refine ⟨⟨?_, ?_, ?_⟩, ?_⟩
  · intro a ha
    rw [hcount]
    exact hc.candidates (hcands ha)
  · refine isBranch_congr (isBranch_of_suffix hc.branch hchain) fun a ha => ?_
    obtain ⟨-, -, hlinked⟩ := hc.active a (hchain.subset ha)
    obtain ⟨e, he⟩ := hl.found hlinked
    exact hext.parent he
  · intro a ha
    obtain ⟨helig, hconn, hlinked⟩ := hc.active a (hchain.subset ha)
    rw [hcount]
    exact ⟨hkept hlinked helig (hc.connected (hchain.subset ha)), hconn, hlinked⟩
  · rcases hc.floor with hall | ⟨f, hf, helig, hconn, hrest⟩
    · left
      intro a ha hlinked
      rw [hcount] at hlinked
      exact hcands' ha (hall a (hless hlinked ha) hlinked)
    · right
      have hflinked := hc.candidates hf
      obtain ⟨e, he⟩ := hl.found hflinked
      have hf' := hkept hflinked helig hconn
      refine ⟨f, hcands' hf' hf, hf', (hext.allAbove_iff hl.wellFormed he).mpr hconn, ?_⟩
      intro a ha hlinked hle
      rw [hcount] at hlinked
      rw [hrank hlinked, hrank hflinked] at hle
      exact hcands' ha (hrest a (hless hlinked ha) hlinked hle)

/-- New marks on entries that are not clear, and new entries, change nothing. -/
theorem eligible_grows (hl : Linked queue s) (hgrows : Grows s.tree s'.tree)
    (hdata : s'.data = s.data) (ha : s.hasData a = true) : s'.Eligible a ↔ s.Eligible a := by
  obtain ⟨e, he, -⟩ := hl.indexed ha
  have hhas : (fun b => s'.hasData b = true) = fun b => s.hasData b = true := by
    funext b
    rw [(data_congr hdata b).1]
  rw [Eligible, allAbove_and, Eligible, allAbove_and, hhas]
  exact and_congr (hgrows.clear_iff hl.wellFormed he) (hgrows.allAbove_iff hl.wellFormed he)

/-- The chain may lose its tips, and the set candidates that are not eligible. -/
theorem Sound.grows (hs : Sound rules s) (hgrows : Grows s.tree s'.tree)
    (hwf : s'.tree.WellFormed) (hdata : s'.data = s.data)
    (hwait : s'.mapBlocksUnlinked = s.mapBlocksUnlinked)
    (hchain : s'.chainActive <:+ s.chainActive)
    (hcands : ∀ {a}, s'.setBlockIndexCandidates.contains a = true →
      s.setBlockIndexCandidates.contains a = true)
    (hcands' : ∀ {a}, s.Eligible a → s.setBlockIndexCandidates.contains a = true →
      s'.setBlockIndexCandidates.contains a = true) : Sound rules s' where
  toLinked := hs.toLinked.extends hgrows.toExtends hwf hdata hwait
  toChosen := by
    have helig : ∀ {a}, s.nChainTx a ≠ 0 → (s'.Eligible a ↔ s.Eligible a) := fun ha =>
      eligible_grows hs.toLinked hgrows hdata (hasData_of_linked ha)
    refine hs.toChosen.change hs.toLinked hgrows.toExtends
      (fun a => (data_congr hdata a).2.2.1) (fun a => (data_congr hdata a).2.2.2) hchain
      (fun ha => (helig ha).mp) (fun ha h _ => (helig ha).mpr h) hcands ?_
    intro a ha hin
    exact hcands' ((helig (hs.candidates hin)).mp ha) hin
  genesis := found_of_extends hgrows.toExtends hs.genesis

theorem Sound.processHeader (hs : Sound rules s) (around : Surroundings) (block : CBlockHeader) :
    Sound rules (s.processHeader rules around block) := by
  unfold ChainState.processHeader
  split
  case h_1 tree haccept =>
    obtain ⟨hgrows, hwf, -⟩ := grows_of_accepted hs.wellFormed hs.genesis haccept
    exact hs.grows hgrows hwf rfl rfl suffix_rfl id fun _ => id
  case h_2 e tree hrefuse =>
    obtain ⟨hgrows, hwf, -⟩ := acceptBlockHeader_refused hs.wellFormed hrefuse
    exact hs.grows hgrows hwf rfl rfl suffix_rfl id fun _ => id

/-! ## Linking -/

section Link

theorem find?_linkData (x : UInt256) :
    (s.linkData h).data.find? x =
      if h = x then
        some (h, ⟨s.nTx h, ((s.tree.parent h).map s.nChainTx).getD 0 + s.nTx h,
          s.nBlockSequenceId⟩)
      else s.data.find? x :=
  KeyedSet.find?_assign _ _ _

theorem nTx_linkData (x : UInt256) : (s.linkData h).nTx x = s.nTx x := by
  rw [nTx, find?_linkData]
  split
  case isTrue heq => exact heq ▸ rfl
  case isFalse => rfl

theorem hasData_linkData (hh : s.hasData h = true) (x : UInt256) :
    (s.linkData h).hasData x = s.hasData x := by
  rw [hasData, KeyedSet.contains, find?_linkData]
  by_cases heq : h = x
  · rw [if_pos heq, ← heq, hh]
    rfl
  · rw [if_neg heq]
    rfl

theorem nChainTx_linkData (x : UInt256) :
    (s.linkData h).nChainTx x =
      if h = x then ((s.tree.parent h).map s.nChainTx).getD 0 + s.nTx h else s.nChainTx x := by
  rw [nChainTx, find?_linkData]
  split <;> rfl

theorem rank_linkData {x : UInt256} (hne : h ≠ x) :
    (s.linkData h).rank rules x = s.rank rules x := by
  refine rank_congr rfl ?_
  rw [nSequenceId, find?_linkData, if_neg hne]
  rfl

/-- Linking a block brings those that wait for it into the queue. -/
theorem Linked.linkData (hl : Linked (h :: queue) s) :
    Linked (queue ++ s.unlinkedChildren h) (s.linkData h) := by
  obtain ⟨hh, hzero, hparent⟩ := hl.queued h mem_cons_self
  have hcount : (s.linkData h).nChainTx h ≠ 0 := by
    rw [nChainTx_linkData, if_pos rfl]
    have hnTx := hl.counted hh
    omega
  have hmore : ∀ {x}, s.nChainTx x ≠ 0 → (s.linkData h).nChainTx x ≠ 0 := by
    intro x hx
    by_cases heq : h = x
    · exact heq ▸ hcount
    · rwa [nChainTx_linkData, if_neg heq]
  have hchild : ∀ {x}, x ∈ s.unlinkedChildren h ↔ (h, x) ∈ s.mapBlocksUnlinked := by
    intro x
    simp [unlinkedChildren]
  have hnodup := nodup_cons.mp hl.apart
  have hother : ∀ {x}, x ∈ queue ∨ x ∈ s.mapBlocksUnlinked.map Prod.snd → h ≠ x := by
    rintro x hx rfl
    exact hnodup.1 (mem_append.mpr hx)
  constructor
  · exact hl.wellFormed
  · intro x hx
    rw [hasData_linkData hh] at hx
    exact hl.indexed hx
  · intro x hx
    rw [hasData_linkData hh] at hx
    rw [nTx_linkData]
    exact hl.counted hx
  · intro x p hx hp
    by_cases heq : h = x
    · exact hmore (hparent p (heq ▸ hp))
    · rw [nChainTx_linkData, if_neg heq] at hx
      exact hmore (hl.linkedDown hx hp)
  · intro x hx hxzero
    rw [hasData_linkData hh] at hx
    have hne : h ≠ x := by
      rintro rfl
      exact hcount hxzero
    rw [nChainTx_linkData, if_neg hne] at hxzero
    rcases hl.pending hx hxzero with hin | ⟨p, hp, hfailed | ⟨hpzero, hin⟩⟩
    · rcases mem_cons.mp hin with rfl | hin
      · exact absurd rfl hne
      · exact .inl (mem_append_left _ hin)
    · exact .inr ⟨p, hp, .inl hfailed⟩
    · by_cases hph : h = p
      · subst hph
        exact .inl (mem_append_right _ (hchild.mpr hin))
      · refine .inr ⟨p, hp, .inr ⟨?_, ?_⟩⟩
        · rwa [nChainTx_linkData, if_neg hph]
        · exact mem_filter.mpr ⟨hin, by simpa using Ne.symm hph⟩
  · intro x hx
    rcases mem_append.mp hx with hx | hx
    · obtain ⟨hdata, hxzero, hp⟩ := hl.queued x (mem_cons_of_mem h hx)
      rw [hasData_linkData hh, nChainTx_linkData, if_neg (hother (.inl hx))]
      exact ⟨hdata, hxzero, fun p hpar => hmore (hp p hpar)⟩
    · have hin := hchild.mp hx
      obtain ⟨hdata, hxzero, hp⟩ := hl.waiting _ hin
      have hne := hother (.inr (List.mem_map_of_mem hin))
      rw [hasData_linkData hh, nChainTx_linkData, if_neg hne]
      refine ⟨hdata, hxzero, fun p hpar => ?_⟩
      obtain rfl : h = p := some.inj (hp.symm.trans hpar)
      exact hcount
  · intro item hin
    have hin := mem_of_mem_filter hin
    obtain ⟨hdata, hxzero, hp⟩ := hl.waiting item hin
    rw [hasData_linkData hh, nChainTx_linkData, if_neg (hother (.inr (List.mem_map_of_mem hin)))]
    exact ⟨hdata, hxzero, hp⟩
  · have hperm : (s.mapBlocksUnlinked.filter (fun item => item.1 = h) ++
        s.mapBlocksUnlinked.filter fun item => item.1 ≠ h).Perm s.mapBlocksUnlinked := by
      simpa using filter_append_perm (fun item : UInt256 × UInt256 => item.1 = h)
        s.mapBlocksUnlinked
    have hmap := (hperm.map Prod.snd).append_left queue
    rw [map_append, ← append_assoc] at hmap
    exact hmap.nodup_iff.mpr hnodup.2

/-- A block that is linked becomes a candidate unless it is worse than the tip. -/
theorem contains_link (x : UInt256) :
    (s.link rules h).setBlockIndexCandidates.contains x = true ↔
      s.setBlockIndexCandidates.contains x = true ∨
        (h = x ∧ ∀ tip, s.tip = some tip →
          (s.linkData h).rank rules tip ≤ (s.linkData h).rank rules h) := by
  unfold link
  have hbetter : ((s.linkData h).tip.all fun tip => !(s.linkData h).worse rules h tip) = true ↔
      ∀ tip, s.tip = some tip →
        (s.linkData h).rank rules tip ≤ (s.linkData h).rank rules h := by
    rw [Option.all_eq_true]
    exact forall₂_congr fun tip _ => by rw [Bool.not_eq_true', worse_eq_false]
  simp only
  split
  case isTrue hall =>
    rw [PlainSet.contains_insert, Bool.or_eq_true, decide_eq_true_eq]
    have hall' := hbetter.mp hall
    constructor
    · rintro (heq | hin)
      · exact .inr ⟨heq, hall'⟩
      · exact .inl hin
    · rintro (hin | ⟨heq, -⟩)
      · exact .inr hin
      · exact .inl heq
  case isFalse hall =>
    constructor
    · exact .inl
    · rintro (hin | ⟨-, hall'⟩)
      · exact hin
      · exact absurd (hbetter.mpr hall') hall

theorem link_eq (rules : ChainRules) (s : ChainState) (h : UInt256) :
    ∃ cands, s.link rules h = { s.linkData h with setBlockIndexCandidates := cands } := by
  unfold link
  simp only
  split
  · exact ⟨_, rfl⟩
  · exact ⟨_, rfl⟩

theorem Linked.link (hl : Linked (h :: queue) s) :
    Linked (queue ++ s.unlinkedChildren h) (s.link rules h) := by
  obtain ⟨cands, heq⟩ := link_eq rules s h
  rw [heq]
  exact hl.linkData.extends (Grows.refl _).toExtends hl.wellFormed rfl rfl

theorem Chosen.floor_tip (hc : Chosen rules s) {tip : UInt256} (htip : s.tip = some tip) :
    ∃ f, s.setBlockIndexCandidates.contains f = true ∧ s.Eligible f ∧
      AllAbove s.tree.parent (rules.connects · = true) f ∧ s.rank rules tip ≤ s.rank rules f ∧
      ∀ h, s.Eligible h → s.nChainTx h ≠ 0 → s.rank rules f ≤ s.rank rules h →
        s.setBlockIndexCandidates.contains h = true := by
  obtain ⟨helig, -, hlinked⟩ := hc.active tip (tip_mem htip)
  have hconn := hc.connected (tip_mem htip)
  rcases hc.floor with hall | ⟨f, hf, hfelig, hfconn, hrest⟩
  · exact ⟨tip, hall tip helig hlinked, helig, hconn, le_rfl, fun x hx hxl _ => hall x hx hxl⟩
  · rcases le_total (s.rank rules f) (s.rank rules tip) with hle | hle
    · exact ⟨tip, hrest tip helig hlinked hle, helig, hconn, le_rfl,
        fun x hx hxl hxr => hrest x hx hxl (hle.trans hxr)⟩
    · exact ⟨f, hf, hfelig, hfconn, hle, hrest⟩

theorem Chosen.link (hc : Chosen rules s) (hl : Linked (h :: queue) s) :
    Chosen rules (s.link rules h) := by
  obtain ⟨hh, hzero, -⟩ := hl.queued h mem_cons_self
  have hcontains := @contains_link rules s h
  obtain ⟨cands, heq⟩ := link_eq rules s h
  rw [heq] at hcontains ⊢
  have hcount : ∀ x, (s.linkData h).nChainTx x = _ := nChainTx_linkData
  have hcounth : (s.linkData h).nChainTx h ≠ 0 := by
    rw [hcount, if_pos rfl]
    have hnTx := hl.counted hh
    omega
  have hother : ∀ {x}, s.nChainTx x ≠ 0 → h ≠ x := by
    rintro x hx rfl
    exact hx hzero
  have hmore : ∀ {x}, s.nChainTx x ≠ 0 → (s.linkData h).nChainTx x ≠ 0 := by
    intro x hx
    rwa [hcount, if_neg (hother hx)]
  have hless : ∀ {x}, h ≠ x → (s.linkData h).nChainTx x ≠ 0 → s.nChainTx x ≠ 0 := by
    intro x hne hx
    rwa [hcount, if_neg hne] at hx
  have helig : ∀ {x}, (s.linkData h).Eligible x ↔ s.Eligible x := by
    intro x
    have hhas : (s.linkData h).hasData = s.hasData := funext (hasData_linkData hh)
    rw [Eligible, Eligible, hhas]
    rfl
  have hrank : ∀ {x}, h ≠ x →
      { s.linkData h with setBlockIndexCandidates := cands }.rank rules x = s.rank rules x :=
    fun {x} hne => (rank_linkData hne : (s.linkData h).rank rules x = _)
  refine ⟨⟨?_, ?_, ?_⟩, ?_⟩
  · intro x hx
    rcases (hcontains x).mp hx with hx | ⟨rfl, -⟩
    · exact hmore (hc.candidates hx)
    · exact hcounth
  · exact hc.branch
  · intro x hx
    obtain ⟨hxe, hxc, hxl⟩ := hc.active x hx
    exact ⟨helig.mpr hxe, hxc, hmore hxl⟩
  · cases htip : s.tip with
    | none =>
      -- without a tip every block that is linked becomes a candidate
      have hnew : cands.contains h = true := by
        refine (hcontains h).mpr (.inr ⟨rfl, fun tip hsome => ?_⟩)
        rw [htip] at hsome
        cases hsome
      rcases hc.floor with hall | ⟨f, hf, hfelig, hfconn, hrest⟩
      · left
        intro x hx hxl
        by_cases hne : h = x
        · exact hne ▸ hnew
        · exact (hcontains x).mpr (.inl (hall x (helig.mp hx) (hless hne hxl)))
      · right
        have hfne := hother (hc.candidates hf)
        refine ⟨f, (hcontains f).mpr (.inl hf), helig.mpr hfelig, hfconn, ?_⟩
        intro x hx hxl hle
        by_cases hne : h = x
        · exact hne ▸ hnew
        · rw [hrank hfne, hrank hne] at hle
          exact (hcontains x).mpr (.inl (hrest x (helig.mp hx) (hless hne hxl) hle))
    | some tip =>
      obtain ⟨f, hf, hfelig, hfconn, htle, hrest⟩ := hc.floor_tip htip
      have hfne := hother (hc.candidates hf)
      have htne := hother (hc.active tip (tip_mem htip)).2.2
      right
      refine ⟨f, (hcontains f).mpr (.inl hf), helig.mpr hfelig, hfconn, ?_⟩
      intro x hx hxl hle
      by_cases hne : h = x
      · subst hne
        refine (hcontains h).mpr (.inr ⟨rfl, fun tip' hsome => ?_⟩)
        obtain rfl : tip = tip' := some.inj (htip.symm.trans hsome)
        rw [rank_linkData htne]
        rw [hrank hfne] at hle
        exact htle.trans hle
      · rw [hrank hfne, hrank hne] at hle
        exact (hcontains x).mpr (.inl (hrest x (helig.mp hx) (hless hne hxl) hle))

/-- With enough fuel the queue is emptied. -/
theorem linkQueue_sound {fuel : Nat} (hl : Linked queue s) (hc : Chosen rules s)
    (hfuel : queue.length + s.mapBlocksUnlinked.length ≤ fuel) :
    Linked [] (s.linkQueue rules fuel queue) ∧ Chosen rules (s.linkQueue rules fuel queue) ∧
      (s.linkQueue rules fuel queue).tree = s.tree ∧
      (s.linkQueue rules fuel queue).chainActive = s.chainActive := by
  induction fuel generalizing queue s with
  | zero =>
    have hnil : queue = [] := length_eq_zero_iff.mp (by omega)
    subst hnil
    exact ⟨hl, hc, rfl, rfl⟩
  | succ fuel ih =>
    cases queue with
    | nil => exact ⟨hl, hc, rfl, rfl⟩
    | cons h queue =>
      obtain ⟨cands, heq⟩ := link_eq rules s h
      have hsplit : (s.unlinkedChildren h).length + (s.link rules h).mapBlocksUnlinked.length =
          s.mapBlocksUnlinked.length := by
        rw [heq, unlinkedChildren, length_map]
        have hperm := (filter_append_perm (fun item : UInt256 × UInt256 => item.1 = h)
          s.mapBlocksUnlinked).length_eq
        rw [length_append] at hperm
        simpa [linkData] using hperm
      rw [length_cons] at hfuel
      have hl' : Linked (queue ++ s.unlinkedChildren h) (s.link rules h) := hl.link
      obtain ⟨hl', hc', htree, hchain⟩ := ih hl' (hc.link hl)
        (by rw [length_append]; omega)
      exact ⟨hl', hc', htree.trans (by rw [heq]; rfl), hchain.trans (by rw [heq]; rfl)⟩

end Link

/-! ## Blocks that arrive -/

section Received

variable {nTx : Nat}

theorem find?_received (x : UInt256) :
    (s.received h nTx).data.find? x =
      if h = x then some (h, { nTx := nTx }) else s.data.find? x :=
  KeyedSet.find?_assign _ _ _

theorem hasData_received (x : UInt256) :
    (s.received h nTx).hasData x = (decide (h = x) || s.hasData x) :=
  KeyedSet.contains_assign _ _ _

theorem nChainTx_received (hnew : s.hasData h = false) (x : UInt256) :
    (s.received h nTx).nChainTx x = s.nChainTx x := by
  rw [nChainTx, find?_received]
  by_cases heq : h = x
  · rw [if_pos heq, ← heq]
    by_contra hne
    rw [hasData_of_linked (Ne.symm hne)] at hnew
    cases hnew
  · rw [if_neg heq]
    rfl

theorem nSequenceId_received (hnew : s.hasData h = false) (x : UInt256) :
    (s.received h nTx).nSequenceId x = s.nSequenceId x := by
  rw [nSequenceId, find?_received]
  by_cases heq : h = x
  · subst heq
    have hnone : s.data.find? h = none := by simpa [hasData, KeyedSet.contains] using hnew
    rw [if_pos rfl, nSequenceId, hnone]
    rfl
  · rw [if_neg heq]
    rfl

theorem received_grows : Grows s.tree (s.received h nTx).tree :=
  grows_raiseValidity blockValidTransactions

/-- A block that has arrived waits in the queue or for its parent. -/
theorem Linked.received (hl : Linked [] s) (he : s.tree.find? h = some e)
    (hnew : s.hasData h = false) (hnTx : nTx ≠ 0) {wait : List (UInt256 × UInt256)}
    (hself : h ∈ queue ∨ ∃ p, s.tree.parent h = some p ∧
      (s.failed p = true ∨ (s.nChainTx p = 0 ∧ (p, h) ∈ wait)))
    (hqueue : ∀ x ∈ queue, x = h ∧ ∀ p, s.tree.parent h = some p → s.nChainTx p ≠ 0)
    (hold : ∀ item ∈ s.mapBlocksUnlinked, item ∈ wait)
    (hwait : ∀ item ∈ wait, item ∈ s.mapBlocksUnlinked ∨
      (item.2 = h ∧ s.tree.parent h = some item.1)) (hapart : (queue ++ wait.map Prod.snd).Nodup) :
    Linked queue { s.received h nTx with mapBlocksUnlinked := wait } := by
  have hgrows : Grows s.tree (s.received h nTx).tree := received_grows
  have hcount : ∀ x, (s.received h nTx).nChainTx x = s.nChainTx x := nChainTx_received hnew
  have hhas : ∀ {x}, (s.received h nTx).hasData x = true → s.hasData x = true ∨ h = x := by
    intro x hx
    rw [hasData_received, Bool.or_eq_true, decide_eq_true_eq] at hx
    exact hx.symm
  have hzero : s.nChainTx h = 0 := by
    by_contra hne
    rw [hasData_of_linked hne] at hnew
    cases hnew
  have hparent : ∀ {x}, s.hasData x = true ∨ h = x →
      (s.received h nTx).tree.parent x = s.tree.parent x := by
    rintro x (hx | rfl)
    · obtain ⟨e, he, -⟩ := hl.indexed hx
      exact hgrows.parent he
    · exact hgrows.parent he
  have hfailed : ∀ {p}, s.failed p = true → (s.received h nTx).failed p = true :=
    failed_of_extends hgrows.toExtends
  constructor
  · exact hl.wellFormed.update (stamps_raiseValidity _)
  · intro x hx
    by_cases heq : h = x
    · subst heq
      refine ⟨e.raiseValidity blockValidTransactions, ?_, fun hnot => ?_⟩
      · show (s.tree.update h _).find? h = _
        rw [find?_update, if_pos rfl, he]
        rfl
      · rw [raiseValidity_failed] at hnot
        rw [CBlockIndex.raiseValidity, if_neg (by rw [hnot]; exact Bool.false_ne_true)]
        exact Nat.le_max_right _ _
    · have hx' : s.hasData x = true := (hhas hx).resolve_right heq
      obtain ⟨ex, hex, hlevel⟩ := hl.indexed hx'
      refine ⟨ex, ?_, hlevel⟩
      show (s.tree.update h _).find? x = _
      rw [find?_update, if_neg heq, hex]
  · intro x hx
    show (s.received h nTx).nTx x ≠ 0
    rw [ChainState.nTx, find?_received]
    by_cases heq : h = x
    · rw [if_pos heq]
      exact hnTx
    · rw [if_neg heq]
      exact hl.counted ((hhas hx).resolve_right heq)
  · intro x p hx hp
    have hx' : s.nChainTx x ≠ 0 := by rwa [← hcount]
    show (s.received h nTx).nChainTx p ≠ 0
    rw [hcount]
    exact hl.linkedDown hx' ((hparent (.inl (hasData_of_linked hx'))).symm.trans hp)
  · intro x hx hxzero
    have hpar := hparent (hhas hx)
    have hxzero' : s.nChainTx x = 0 := (hcount x).symm.trans hxzero
    by_cases heq : h = x
    · subst heq
      refine hself.imp_right ?_
      rintro ⟨p, hp, hrest⟩
      exact ⟨p, hpar.trans hp, hrest.imp hfailed fun hw => ⟨(hcount p).trans hw.1, hw.2⟩⟩
    · rcases hl.pending ((hhas hx).resolve_right heq) hxzero' with hnil | ⟨p, hp, hrest⟩
      · cases hnil
      · exact .inr ⟨p, hpar.trans hp,
          hrest.imp hfailed fun hw => ⟨(hcount p).trans hw.1, hold _ hw.2⟩⟩
  · intro x hx
    obtain ⟨rfl, hp⟩ := hqueue x hx
    refine ⟨?_, (hcount x).trans hzero, fun p hpar => ?_⟩
    · show (s.received x nTx).hasData x = true
      rw [hasData_received, decide_eq_true rfl, Bool.true_or]
    · show (s.received x nTx).nChainTx p ≠ 0
      rw [hcount]
      exact hp p ((hparent (.inr rfl)).symm.trans hpar)
  · intro item hin
    have hgoal : ∀ {x p}, s.hasData x = true ∨ h = x → s.nChainTx x = 0 →
        s.tree.parent x = some p → (s.received h nTx).hasData x = true ∧
          (s.received h nTx).nChainTx x = 0 ∧ (s.received h nTx).tree.parent x = some p := by
      intro x p hx hxzero hp
      rw [hasData_received, hcount, hparent hx, Bool.or_eq_true, decide_eq_true_eq]
      exact ⟨hx.symm, hxzero, hp⟩
    rcases hwait item hin with hin | ⟨heq, hp⟩
    · obtain ⟨hdata, hxzero, hp⟩ := hl.waiting item hin
      exact hgoal (.inl hdata) hxzero hp
    · rw [← heq] at hp hzero
      exact hgoal (.inr heq.symm) hzero hp
  · exact hapart

/-- The new block is not above a linked one, so nothing changes for those. -/
theorem eligible_received (hl : Linked queue s) (hnew : s.hasData h = false)
    (ha : s.nChainTx a ≠ 0) : (s.received h nTx).Eligible a ↔ s.Eligible a := by
  have hgrows : Grows s.tree (s.received h nTx).tree := received_grows
  apply allAbove_congr (S := fun b => s.nChainTx b ≠ 0)
  · intro b hb p hp
    exact hl.linkedDown hb hp
  · intro b hb
    obtain ⟨e, he⟩ := hl.found hb
    exact hgrows.parent he
  · intro b hb
    have hdata := hasData_of_linked hb
    have hne : h ≠ b := by
      rintro rfl
      rw [hdata] at hnew
      cases hnew
    have hfind : (s.received h nTx).tree.find? b = s.tree.find? b := by
      show (s.tree.update h _).find? b = _
      rw [find?_update, if_neg hne]
    rw [hfind, hasData_received, hdata, Bool.or_true]
  · exact ha

theorem Chosen.received (hc : Chosen rules s) (hl : Linked queue s) (hnew : s.hasData h = false)
    {wait : List (UInt256 × UInt256)} :
    Chosen rules { s.received h nTx with mapBlocksUnlinked := wait } := by
  have hgrows : Grows s.tree (s.received h nTx).tree := received_grows
  have helig : ∀ {a}, s.nChainTx a ≠ 0 → ((s.received h nTx).Eligible a ↔ s.Eligible a) :=
    eligible_received hl hnew
  exact hc.change hl hgrows.toExtends (nChainTx_received hnew) (nSequenceId_received hnew)
    suffix_rfl (fun ha => (helig ha).mp) (fun ha hold _ => (helig ha).mpr hold) id fun _ => id

theorem Sound.receivedBlockTransactions (hs : Sound rules s) (he : s.tree.find? h = some e)
    (hnew : s.hasData h = false) (hnTx : nTx ≠ 0) :
    Sound rules (s.receivedBlockTransactions rules h nTx) := by
  have hgrows : Grows s.tree (s.received h nTx).tree := received_grows
  have hparent := hgrows.parent he
  have hcount : ∀ x, (s.received h nTx).nChainTx x = s.nChainTx x := nChainTx_received hnew
  have hc : ∀ wait, Chosen rules { s.received h nTx with mapBlocksUnlinked := wait } :=
    fun wait => hs.toChosen.received hs.toLinked hnew
  have hfresh : h ∉ s.mapBlocksUnlinked.map Prod.snd := by
    intro hin
    obtain ⟨item, hitem, rfl⟩ := List.mem_map.mp hin
    rw [(hs.waiting item hitem).1] at hnew
    cases hnew
  have hgenesis : ((s.received h nTx).tree.find? rules.headers.hashGenesisBlock).isSome = true :=
    found_of_extends hgrows.toExtends hs.genesis
  -- the block is linked at once
  have hnow : (∀ p, s.tree.parent h = some p → s.nChainTx p ≠ 0) →
      Sound rules ((s.received h nTx).linkQueue rules (s.mapBlocksUnlinked.length + 1) [h]) := by
    intro hp
    have hl : Linked [h] { s.received h nTx with mapBlocksUnlinked := s.mapBlocksUnlinked } :=
      hs.toLinked.received he hnew hnTx (.inl mem_cons_self)
        (fun x hx => ⟨mem_singleton.mp hx, hp⟩) (fun _ => id) (fun _ => .inl)
        (nodup_cons.mpr ⟨hfresh, hs.apart⟩)
    have hfuel : [h].length + s.mapBlocksUnlinked.length ≤ s.mapBlocksUnlinked.length + 1 := by
      rw [length_singleton, Nat.add_comm]
    have hl : Linked [h] (s.received h nTx) := hl
    obtain ⟨hl', hc', htree, -⟩ := linkQueue_sound hl (hc s.mapBlocksUnlinked) hfuel
    exact ⟨hl', hc', by rw [htree]; exact hgenesis⟩
  unfold ChainState.receivedBlockTransactions
  simp only
  rw [hparent]
  cases hp : s.tree.parent h with
  | none =>
    apply hnow
    intro p hsome
    rw [hp] at hsome
    cases hsome
  | some p =>
    simp only
    split
    case isTrue hlinked =>
      rw [hcount] at hlinked
      apply hnow
      intro q hq
      obtain rfl : p = q := some.inj (hp.symm.trans hq)
      exact hlinked
    case isFalse hlinked =>
      rw [hcount, not_not] at hlinked
      split
      case isTrue =>
        refine ⟨hs.toLinked.received he hnew hnTx (.inr ⟨p, hp, .inr ⟨hlinked, by simp⟩⟩)
          (fun x hx => by cases hx) (fun item hin => mem_append_left _ hin) ?_ ?_, hc _,
          hgenesis⟩
        · intro item hin
          rcases mem_append.mp hin with hin | hin
          · exact .inl hin
          · rw [mem_singleton.mp hin]
            exact .inr ⟨rfl, hp⟩
        · rw [nil_append, map_append, nodup_append]
          refine ⟨hs.apart, nodup_singleton _, ?_⟩
          rintro x hx y hy rfl
          obtain rfl : x = h := mem_singleton.mp hy
          exact hfresh hx
      case isFalse hinvalid =>
        have hfailed : s.failed p = true := by
          obtain ⟨ep, hep⟩ := hs.wellFormed.parent_found hp
          obtain ⟨ep', hep', -, hlevel, -⟩ := hgrows.kept hep
          have hmark : ep'.failed = ep.failed := by
            have hfind : (s.tree.update h (.raiseValidity _)).find? p = some ep' := hep'
            rw [find?_update, hep] at hfind
            split at hfind
            case isTrue => rw [← some.inj hfind, raiseValidity_failed]
            case isFalse => rw [some.inj hfind]
          have hvalid := (hs.wellFormed.valid hep).trans hlevel
          rw [failed_eq hep, ← hmark]
          simpa [isValid, hep', CBlockIndex.isValid, hvalid] using hinvalid
        exact ⟨hs.toLinked.received he hnew hnTx (.inr ⟨p, hp, .inl hfailed⟩)
          (fun x hx => by cases hx) (fun _ => id) (fun _ => .inl) hs.apart, hc _, hgenesis⟩

end Received

/-! ## A block that fails -/

/-- Blocks that do not descend from the failed one stay eligible, and no others. -/
theorem eligible_failed (hl : Linked queue s) (hext : Extends s.tree s'.tree)
    (hself : ∀ e', s'.tree.find? h = some e' → e'.failed = true)
    (hothers : ∀ x, ¬ Ancestor s.tree.parent h x → s'.tree.find? x = s.tree.find? x)
    (hdata : s'.data = s.data) (ha : s.hasData a = true) :
    s'.Eligible a ↔ s.Eligible a ∧ ¬ Ancestor s.tree.parent h a := by
  obtain ⟨ea, hea, -⟩ := hl.indexed ha
  rw [Eligible, hext.allAbove_iff hl.wellFormed hea]
  have hsame : ∀ {b}, ¬ Ancestor s.tree.parent h b →
      (((∃ e, s'.tree.find? b = some e ∧ e.failed = false) ∧ s'.hasData b = true) ↔
        ((∃ e, s.tree.find? b = some e ∧ e.failed = false) ∧ s.hasData b = true)) := by
    intro b hnot
    rw [hothers b hnot, (data_congr hdata b).1]
  constructor
  · intro habove
    have hnot : ¬ Ancestor s.tree.parent h a := by
      intro hh
      obtain ⟨⟨e', he', hclear⟩, -⟩ := habove h hh
      rw [hself e' he'] at hclear
      cases hclear
    exact ⟨fun b hb => (hsame fun hh => hnot (hh.trans hb)).mp (habove b hb), hnot⟩
  · rintro ⟨habove, hnot⟩ b hb
    exact (hsame fun hh => hnot (hh.trans hb)).mpr (habove b hb)

section Fails

/-- The tree in which a block is marked as having failed itself. -/
def failTree (tree : BlockTree) (h : UInt256) (known : Bool) : BlockTree :=
  let tree := tree.update h .markFailedValid
  if known then { tree with failedBlocks := h :: tree.failedBlocks } else tree

variable {tree : BlockTree} {known : Bool}

theorem find?_failTree (x : UInt256) :
    (failTree tree h known).find? x = (tree.update h .markFailedValid).find? x := by
  cases known <;> rfl

theorem failTree_extends : Extends tree (failTree tree h known) where
  kept he := by
    rw [find?_failTree]
    exact kept_update h stamps_markFailedValid he

theorem failTree_self {e' : CBlockIndex} (he' : (failTree tree h known).find? h = some e') :
    e'.failed = true := by
  rw [find?_failTree, find?_update, if_pos rfl] at he'
  obtain ⟨e, -, rfl⟩ := map_eq_some_iff.mp he'
  rfl

theorem failTree_others (x : UInt256) (hne : h ≠ x) :
    (failTree tree h known).find? x = tree.find? x := by
  rw [find?_failTree, find?_update, if_neg hne]

theorem failTree_wellFormed (hwf : tree.WellFormed) (he : tree.find? h = some e) :
    (failTree tree h known).WellFormed := by
  have hupdate : (tree.update h .markFailedValid).WellFormed := hwf.update stamps_markFailedValid
  cases known with
  | false => exact hupdate
  | true =>
    refine ⟨hupdate.parents, hupdate.valid, fun f hf => ?_⟩
    rcases mem_cons.mp hf with rfl | hf
    · refine ⟨e.markFailedValid, ?_, rfl⟩
      show (tree.update f .markFailedValid).find? f = _
      rw [find?_update, if_pos rfl, he]
      rfl
    · exact hupdate.failedBlocks f hf

theorem Linked.failTree (hl : Linked queue s) (he : s.tree.find? h = some e)
    (htree : s'.tree = failTree s.tree h known) (hdata : s'.data = s.data)
    (hwait : s'.mapBlocksUnlinked = s.mapBlocksUnlinked) : Linked queue s' := by
  refine hl.extends ?_ ?_ hdata hwait
  · rw [htree]
    exact failTree_extends
  · rw [htree]
    exact failTree_wellFormed hl.wellFormed he

theorem eligible_failTree (hl : Linked queue s) (htree : s'.tree = failTree s.tree h known)
    (hdata : s'.data = s.data) (ha : s.hasData a = true) :
    s'.Eligible a ↔ s.Eligible a ∧ ¬ Ancestor s.tree.parent h a := by
  refine eligible_failed hl ?_ ?_ ?_ hdata ha
  · rw [htree]
    exact failTree_extends
  · rw [htree]
    exact fun e' => failTree_self
  · rw [htree]
    exact fun x hnot => failTree_others x fun heq => hnot (heq ▸ .refl)

/-- A block that has no data, or that does not go through, may fail. -/
theorem Sound.failTree (hs : Sound rules s) (he : s.tree.find? h = some e)
    (htree : s'.tree = failTree s.tree h known) (hdata : s'.data = s.data)
    (hwait : s'.mapBlocksUnlinked = s.mapBlocksUnlinked) (hchain : s'.chainActive = s.chainActive)
    (hbad : s.hasData h = false ∨ rules.connects h = false)
    (hcands : ∀ {a}, s'.setBlockIndexCandidates.contains a = true →
      s.setBlockIndexCandidates.contains a = true)
    (hcands' : ∀ {a}, h ≠ a → s.setBlockIndexCandidates.contains a = true →
      s'.setBlockIndexCandidates.contains a = true) : Sound rules s' where
  toLinked := hs.toLinked.failTree he htree hdata hwait
  toChosen := by
    have helig : ∀ {a}, s.nChainTx a ≠ 0 →
        (s'.Eligible a ↔ s.Eligible a ∧ ¬ Ancestor s.tree.parent h a) := fun ha =>
      eligible_failTree hs.toLinked htree hdata (hasData_of_linked ha)
    refine hs.toChosen.change hs.toLinked (htree ▸ failTree_extends)
      (fun a => (data_congr hdata a).2.2.1) (fun a => (data_congr hdata a).2.2.2)
      (hchain ▸ suffix_rfl) (fun ha hold => ((helig ha).mp hold).1) ?_ hcands ?_
    · intro a ha hold hconn
      refine (helig ha).mpr ⟨hold, fun hh => ?_⟩
      rcases hbad with hbad | hbad
      · rw [(hold h hh).2] at hbad
        cases hbad
      · rw [hconn h hh] at hbad
        cases hbad
    · intro a hnew hin
      refine hcands' ?_ hin
      rintro rfl
      exact ((helig (hs.candidates hin)).mp hnew).2 .refl
  genesis := found_of_extends (htree ▸ failTree_extends) hs.genesis

end Fails

theorem Sound.acceptBlock (hs : Sound rules s) (around : Surroundings) (block : CBlockHeader)
    (fRequested : Bool) (verdict : BlockVerdict) :
    Sound rules (s.acceptBlock rules around block fRequested verdict) := by
  unfold ChainState.acceptBlock
  split
  case h_1 e tree hrefuse =>
    obtain ⟨hgrows, hwf, -⟩ := acceptBlockHeader_refused hs.wellFormed hrefuse
    exact hs.grows hgrows hwf rfl rfl suffix_rfl id fun _ => id
  case h_2 tree haccept =>
    obtain ⟨hgrows, hwf, e, he, -⟩ := grows_of_accepted hs.wellFormed hs.genesis haccept
    have hs' : Sound rules { s with tree := tree } :=
      hs.grows hgrows hwf rfl rfl suffix_rfl id fun _ => id
    simp only
    split
    case isTrue => exact hs'
    case isFalse hnew =>
      split
      case isTrue => exact hs'
      case isFalse =>
        have hnew := Bool.eq_false_iff.mpr hnew
        cases verdict with
        | passed nTx hnTx => exact hs'.receivedBlockTransactions he hnew hnTx
        | invalid =>
          have htree : tree.update (block.getHash rules.headers) .markFailedValid =
              ChainState.failTree tree (block.getHash rules.headers) false := rfl
          exact hs'.failTree he htree rfl rfl rfl (.inl hnew) id fun _ => id
        | mutated => exact hs'

end ChainState

end HnbCore
