import HnbCore.ChainSound
import Mathlib

/-!
# Chain selection

Every call keeps the candidates sound, whatever blocks fail on the way. When `ActivateBestChain` is
through, no eligible block has more work than the tip.
-/

namespace HnbCore

open Ancestry BlockTree List Option PlainSet ChainState

namespace ChainState

variable {rules : ChainRules} {s s' : ChainState} {a h m : UInt256} {l chain gone : List UInt256}

theorem bestOf_eq_none (h : s.bestOf rules l = none) : l = [] := by
  cases l with
  | nil => rfl
  | cons x l =>
    unfold bestOf at h
    split at h <;> cases h

theorem bestOf_spec {b : UInt256} (h : s.bestOf rules l = some b) :
    b ∈ l ∧ ∀ c ∈ l, s.rank rules c ≤ s.rank rules b := by
  induction l generalizing b with
  | nil => cases h
  | cons x l ih =>
    unfold bestOf at h
    cases hbest : s.bestOf rules l with
    | none =>
      rw [hbest, some.injEq] at h
      rw [bestOf_eq_none hbest, ← h]
      simp
    | some y =>
      obtain ⟨hin, hall⟩ := ih hbest
      simp only [hbest, some.injEq] at h
      by_cases hworse : s.worse rules y x = true
      · rw [if_pos hworse] at h
        subst h
        refine ⟨mem_cons_self, fun c hc => ?_⟩
        rcases mem_cons.mp hc with rfl | hc
        · exact le_rfl
        · exact (hall c hc).trans (le_of_lt (worse_iff.mp hworse))
      · rw [if_neg hworse] at h
        subst h
        refine ⟨mem_cons_of_mem x hin, fun c hc => ?_⟩
        rcases mem_cons.mp hc with rfl | hc
        · exact worse_eq_false.mp (Bool.eq_false_iff.mpr hworse)
        · exact hall c hc

/-- Nothing in the set is better than this block. -/
def Leads (rules : ChainRules) (s : ChainState) (m : UInt256) : Prop :=
  ∀ c, s.setBlockIndexCandidates.contains c = true → s.rank rules c ≤ s.rank rules m

theorem bestCandidate_spec (h : s.bestCandidate rules = some m) :
    s.setBlockIndexCandidates.contains m = true ∧ s.Leads rules m := by
  obtain ⟨hin, hall⟩ := bestOf_spec h
  exact ⟨contains_iff_mem.mpr hin, fun c hc => hall c (contains_iff_mem.mp hc)⟩

/-- No eligible block has more work than the tip. -/
def Best (s : ChainState) : Prop :=
  ∀ h, s.Eligible h → ∃ tip, s.tip = some tip ∧ s.nChainWork h ≤ s.nChainWork tip

theorem Sound.best_of_leads (hs : Sound rules s) (htip : s.tip = some m) (hm : s.Leads rules m) :
    s.Best := by
  intro h hh
  have hlinked := hs.eligible_linked hh
  have hrank : s.rank rules h ≤ s.rank rules m := by
    rcases hs.floor with hall | ⟨f, hf, -, -, hrest⟩
    · exact hm h (hall h hh hlinked)
    · rcases le_total (s.rank rules f) (s.rank rules h) with hle | hle
      · exact hm h (hrest h hh hlinked hle)
      · exact hle.trans (hm f hf)
  exact ⟨m, htip, work_le_of_rank_le hrank⟩

theorem Sound.best_of_empty (hs : Sound rules s) (hnone : s.setBlockIndexCandidates.items = []) :
    s.Best := by
  have hno : ∀ c, s.setBlockIndexCandidates.contains c ≠ true := by
    intro c hc
    rw [PlainSet.contains_iff_mem, hnone] at hc
    cases hc
  intro h hh
  rcases hs.floor with hall | ⟨f, hf, -⟩
  · exact absurd (hall h hh (hs.eligible_linked hh)) (hno h)
  · exact absurd hf (hno f)

theorem split_takeWhile (hin : h ∈ l) : ∃ after, l = l.takeWhile (· ≠ h) ++ h :: after := by
  induction l with
  | nil => cases hin
  | cons x l ih =>
    by_cases hx : x = h
    · subst hx
      exact ⟨l, by simp⟩
    · obtain ⟨after, heq⟩ := ih ((mem_cons.mp hin).resolve_left (Ne.symm hx))
      refine ⟨after, ?_⟩
      rw [takeWhile_cons_of_pos (by simpa using hx), cons_append, ← heq]

/-- What marking a list of blocks leaves alone. -/
structure MarkedAll (l : List UInt256) (s s' : ChainState) : Prop where
  extended : Extends s.tree s'.tree
  wellFormed : s'.tree.WellFormed
  data : s'.data = s.data
  wait : s'.mapBlocksUnlinked = s.mapBlocksUnlinked
  chain : s'.chainActive = s.chainActive
  others : ∀ x, x ∉ l → s'.tree.find? x = s.tree.find? x
  fewer : ∀ x, s'.setBlockIndexCandidates.contains x = true →
    s.setBlockIndexCandidates.contains x = true
  kept : ∀ x, x ∉ l → s.setBlockIndexCandidates.contains x = true →
    s'.setBlockIndexCandidates.contains x = true

theorem markedAll (hwf : s.tree.WellFormed) (l : List UInt256) :
    MarkedAll l s (s.markAll l) := by
  induction l generalizing s with
  | nil =>
    exact ⟨(Grows.refl _).toExtends, hwf, rfl, rfl, rfl, fun _ _ => rfl, fun _ => id,
      fun _ _ => id⟩
  | cons h l ih =>
    have hwf' : (s.tree.update h .markFailedChild).WellFormed := hwf.update stamps_markFailedChild
    have hrest := ih (s := (s.markFailedChild h).eraseCandidate h) hwf'
    have hfirst : Extends s.tree (s.tree.update h .markFailedChild) :=
      ⟨kept_update h stamps_markFailedChild⟩
    refine ⟨hfirst.trans hrest.extended, hrest.wellFormed, hrest.data, hrest.wait, hrest.chain,
      ?_, ?_, ?_⟩
    · intro x hx
      rw [mem_cons, not_or] at hx
      refine (hrest.others x hx.2).trans ?_
      show (s.tree.update h .markFailedChild).find? x = _
      rw [find?_update, if_neg (Ne.symm hx.1)]
    · intro x hx
      have hin := hrest.fewer x hx
      rw [eraseCandidate, contains_erase, Bool.and_eq_true] at hin
      exact hin.2
    · intro x hx hin
      rw [mem_cons, not_or] at hx
      apply hrest.kept x hx.2
      rw [eraseCandidate, contains_erase, Bool.and_eq_true]
      exact ⟨by simpa using Ne.symm hx.1, hin⟩

/-- Where all marked blocks descend from a failed one nothing is lost. -/
theorem MarkedAll.grows (hm : MarkedAll l s s') (hdoomed : ∀ x ∈ l, ¬ s.tree.Clear x) :
    Grows s.tree s'.tree where
  toExtends := hm.extended
  clear {x e'} hclear he' := by
    rw [hm.others x fun hx => hdoomed x hx hclear] at he'
    obtain ⟨e, he, hnot⟩ := hclear.found
    rw [he, some.injEq] at he'
    rw [← he', hnot]

theorem Sound.branchOf (hs : Sound rules s) (m : UInt256) :
    Walked s.tree.parent s.chainActive.contains m (s.branchOf m).1 (s.branchOf m).2 :=
  walked hs.wellFormed.parent_lower (Nat.lt_succ_self _)

theorem Sound.branchOf_whole (hs : Sound rules s) (m : UInt256) :
    ∃ rest, rest <:+ s.chainActive ∧ IsBranch s.tree.parent ((s.branchOf m).1 ++ rest) ∧
      ((s.branchOf m).1 ++ rest).head? = some m := by
  have hwalk := hs.branchOf m
  obtain ⟨rest, hsuffix, hhead⟩ : ∃ rest, rest <:+ s.chainActive ∧
      rest.head? = (s.branchOf m).2 := by
    cases hlast : (s.branchOf m).2 with
    | none => exact ⟨[], nil_suffix, rfl⟩
    | some f =>
      obtain ⟨hin, -⟩ := hwalk.stopped f hlast
      obtain ⟨front, rest, heq⟩ := append_of_mem (List.contains_iff_mem.mp hin)
      exact ⟨f :: rest, heq ▸ suffix_append front (f :: rest), rfl⟩
  exact ⟨rest, hsuffix, hwalk.linked rest hhead (isBranch_of_suffix hs.branch hsuffix),
    hwalk.headed rest hhead⟩

theorem Sound.eligible_of_branch (hs : Sound rules s)
    (hgood : ∀ x ∈ (s.branchOf m).1, s.failed x = false ∧ s.hasData x = true) : s.Eligible m := by
  obtain ⟨rest, hsuffix, hbranch, hfirst⟩ := hs.branchOf_whole m
  intro x hx
  cases hlist : (s.branchOf m).1 ++ rest with
  | nil =>
    rw [hlist] at hfirst
    cases hfirst
  | cons b l =>
    rw [hlist] at hfirst hbranch
    obtain rfl : b = m := some.inj hfirst
    have hin := (mem_branch_iff hbranch x).mpr hx
    rw [← hlist, mem_append] at hin
    rcases hin with hin | hin
    · obtain ⟨hfailed, hdata⟩ := hgood x hin
      obtain ⟨e, he, -⟩ := hs.indexed hdata
      rw [failed_eq he] at hfailed
      exact ⟨⟨e, he, hfailed⟩, hdata⟩
    · exact (hs.active x (hsuffix.subset hin)).1.self

variable {queue above : List UInt256} {fuel : Nat} {e : CBlockIndex} {fInvalidFound : Bool}

theorem Linked.linked_above (hl : Linked queue s) (hm : s.nChainTx m ≠ 0)
    (ha : Ancestor s.tree.parent a m) : s.nChainTx a ≠ 0 := by
  induction ha with
  | refl => exact hm
  | step hp _ ih => exact ih (hl.linkedDown hm hp)

/-- What `FindMostWorkChain` leaves. -/
structure Found (rules : ChainRules) (s s' : ChainState) (most : Option UInt256) : Prop where
  sound : Sound rules s'
  grows : Grows s.tree s'.tree
  data : s'.data = s.data
  chain : s'.chainActive = s.chainActive
  fewer : ∀ x, s'.setBlockIndexCandidates.contains x = true →
    s.setBlockIndexCandidates.contains x = true
  empty : most = none → s'.setBlockIndexCandidates.items = []
  leads : ∀ m, most = some m → s'.Eligible m ∧ s'.Leads rules m

/-- A failed block on a branch: those above it and the block itself are no candidates. -/
theorem Sound.dropBranch (hs : Sound rules s) (hin : h ∈ (s.branchOf m).1)
    (hfailed : s.failed h = true) (habove : above = (s.branchOf m).1.takeWhile (· ≠ h)) :
    Sound rules ((s.markAll above).eraseCandidate h) ∧ Grows s.tree (s.markAll above).tree ∧
      (s.markAll above).data = s.data ∧ (s.markAll above).chainActive = s.chainActive ∧
      ∀ x, ((s.markAll above).eraseCandidate h).setBlockIndexCandidates.contains x = true →
        s.setBlockIndexCandidates.contains x = true := by
  obtain ⟨rest, -, hbranch, -⟩ := hs.branchOf_whole m
  obtain ⟨after, hsplit⟩ := split_takeWhile hin
  rw [← habove] at hsplit
  rw [hsplit, append_assoc] at hbranch
  obtain ⟨e, he⟩ : ∃ e, s.tree.find? h = some e := by
    cases he : s.tree.find? h with
    | none => simp [failed, he] at hfailed
    | some e => exact ⟨e, rfl⟩
  have hdoomed : ∀ x ∈ above, ¬ s.tree.Clear x := by
    intro x hx
    exact not_clear_of_ancestor (ancestor_of_branch hbranch hx) he (failed_eq he ▸ hfailed)
  have hmarked := markedAll hs.wellFormed above
  have hfewer : ∀ x, ((s.markAll above).eraseCandidate h).setBlockIndexCandidates.contains x =
      true → s.setBlockIndexCandidates.contains x = true := by
    intro x hx
    rw [eraseCandidate, contains_erase, Bool.and_eq_true] at hx
    exact hmarked.fewer x hx.2
  refine ⟨?_, hmarked.grows hdoomed, hmarked.data, hmarked.chain, hfewer⟩
  refine hs.grows (hmarked.grows hdoomed) hmarked.wellFormed hmarked.data hmarked.wait
    (hmarked.chain ▸ suffix_rfl) (fun hx => hfewer _ hx) ?_
  intro x hx hc
  rw [eraseCandidate, contains_erase, Bool.and_eq_true]
  refine ⟨?_, hmarked.kept x (fun hin => hdoomed x hin hx.clear) hc⟩
  have hne : h ≠ x := by
    rintro rfl
    rw [hx.not_failed] at hfailed
    cases hfailed
  simpa using hne

theorem dropBranch_eq (hfailed : s.failed h = true) :
    s.dropBranch above h = (s.markAll above).eraseCandidate h := by
  simp only [dropBranch, hfailed, if_true]
  rfl

theorem findMostWorkChain_found {most : Option UInt256} (hs : Sound rules s)
    (h : s.findMostWorkChain rules fuel = some (s', most)) : Found rules s s' most := by
  induction fuel generalizing s with
  | zero => cases h
  | succ fuel ih =>
    unfold findMostWorkChain at h
    cases hbest : s.bestCandidate rules with
    | none =>
      simp only [hbest, some.injEq, Prod.mk.injEq] at h
      obtain ⟨rfl, rfl⟩ := h
      exact ⟨hs, .refl _, rfl, rfl, fun _ => id, fun _ => bestOf_eq_none hbest,
        (fun m hm => by cases hm)⟩
    | some n =>
      obtain ⟨hin, hleads⟩ := bestCandidate_spec hbest
      simp only [hbest] at h
      cases hbad : (s.branchOf n).1.find? fun x => s.failed x || !s.hasData x with
      | none =>
        simp only [hbad, some.injEq, Prod.mk.injEq] at h
        obtain ⟨rfl, rfl⟩ := h
        have hgood : ∀ x ∈ (s.branchOf n).1, s.failed x = false ∧ s.hasData x = true := by
          intro x hx
          simpa using find?_eq_none.mp hbad x hx
        refine ⟨hs, .refl _, rfl, rfl, fun _ => id, (fun hnone => by cases hnone), ?_⟩
        intro m hm
        obtain rfl := some.inj hm
        exact ⟨hs.eligible_of_branch hgood, hleads⟩
      | some t =>
        simp only [hbad] at h
        have hmem := mem_of_find?_eq_some hbad
        have hlinked := hs.linked_above (hs.candidates hin) ((hs.branchOf n).passed t hmem).2
        have hfailed : s.failed t = true := by
          simpa [hasData_of_linked hlinked] using find?_some hbad
        rw [dropBranch_eq hfailed] at h
        obtain ⟨hs', hgrows, hdata, hchain, hfewer⟩ := hs.dropBranch hmem hfailed rfl
        have hfound := ih hs' h
        exact ⟨hfound.sound, hgrows.trans hs.wellFormed hfound.grows,
          hfound.data.trans hdata, hfound.chain.trans hchain,
          fun x hx => hfewer x (hfound.fewer x hx), hfound.empty, hfound.leads⟩

theorem disconnectWhile_spec {go : List UInt256 → Bool} {left : List UInt256} {fOk : Bool}
    (h : disconnectWhile go chain = (gone, left, fOk)) :
    gone ++ left = chain ∧ (fOk = true → left = [] ∨ go left = false) ∧
      (gone ≠ [] → go chain = true) := by
  induction chain generalizing gone left with
  | nil =>
    cases h
    exact ⟨rfl, fun _ => .inl rfl, fun hne => absurd rfl hne⟩
  | cons x chain ih =>
    cases chain with
    | nil =>
      simp only [disconnectWhile, Prod.mk.injEq] at h
      obtain ⟨rfl, rfl, rfl⟩ := h
      exact ⟨rfl, fun hok => .inr (by simpa using hok), fun hne => absurd rfl hne⟩
    | cons y chain =>
      unfold disconnectWhile at h
      by_cases hgo : go (x :: y :: chain) = true
      · rw [if_pos hgo] at h
        simp only [Prod.mk.injEq] at h
        obtain ⟨rfl, rfl, rfl⟩ := h
        obtain ⟨heq, hleft, -⟩ := ih rfl
        exact ⟨by rw [cons_append, heq], hleft, fun _ => hgo⟩
      · rw [if_neg hgo] at h
        simp only [Prod.mk.injEq] at h
        obtain ⟨rfl, rfl, rfl⟩ := h
        exact ⟨rfl, fun _ => .inr (Bool.eq_false_iff.mpr hgo), fun hne => absurd rfl hne⟩

theorem Sound.disconnected (hs : Sound rules s) (hchain : chain <:+ s.chainActive) :
    Sound rules { s with chainActive := chain } :=
  hs.grows (.refl _) hs.wellFormed rfl rfl hchain id fun _ => id

theorem Sound.cons (hs : Sound rules s) (hparent : s.tree.parent h = s.tip) (helig : s.Eligible h)
    (hconn : rules.connects h = true) :
    Sound rules { s with chainActive := h :: s.chainActive } where
  toLinked := hs.toLinked.extends (Grows.refl _).toExtends hs.wellFormed rfl rfl
  toChosen := {
    candidates := hs.candidates
    branch := isBranch_cons hs.branch hparent
    active := by
      intro x hx
      rcases mem_cons.mp hx with rfl | hx
      · exact ⟨helig, hconn, hs.eligible_linked helig⟩
      · exact hs.active x hx
    floor := hs.floor }
  genesis := hs.genesis

theorem Sound.connectTip (hs : Sound rules s) (helig : s.Eligible h)
    (hconn : rules.connects h = true) (hstep : s.connectTip rules h = some s') :
    Sound rules s' ∧ Grows s.tree s'.tree ∧ s'.data = s.data ∧
      s'.setBlockIndexCandidates = s.setBlockIndexCandidates ∧
      s'.chainActive = h :: s.chainActive := by
  unfold ChainState.connectTip at hstep
  split at hstep
  case isFalse => cases hstep
  case isTrue hparent =>
    obtain rfl := some.inj hstep
    obtain ⟨e, he, -⟩ := helig.self.1
    have hmoved : ∀ {tree}, Grows s.tree tree → tree.WellFormed →
        Sound rules { s with tree := tree, chainActive := h :: s.chainActive } := by
      intro tree hgrows hwf
      have hs' : Sound rules { s with tree := tree } :=
        hs.grows hgrows hwf rfl rfl suffix_rfl id fun _ => id
      have hiff : ({ s with tree := tree } : ChainState).Eligible h ↔ s.Eligible h :=
        eligible_grows hs.toLinked hgrows rfl helig.hasData
      exact hs'.cons ((hgrows.parent he).trans hparent) (hiff.mpr helig) hconn
    split
    case isTrue => exact ⟨hmoved (.refl _) hs.wellFormed, .refl _, rfl, rfl, rfl⟩
    case isFalse =>
      have hgrows : Grows s.tree (s.tree.update h (.raiseValidity blockValidScripts)) :=
        grows_raiseValidity blockValidScripts
      exact ⟨hmoved hgrows (hs.wellFormed.update (stamps_raiseValidity _)), hgrows, rfl, rfl, rfl⟩

theorem contains_pruned {tip : UInt256} (x : UInt256) :
    ((s.setBlockIndexCandidates.items.filter (s.worse rules · tip)).foldl KeyedSet.erase
      s.setBlockIndexCandidates).contains x = true ↔
      s.setBlockIndexCandidates.contains x = true ∧ s.rank rules tip ≤ s.rank rules x := by
  have hfind := KeyedSet.find?_foldl_erase id
    (s.setBlockIndexCandidates.items.filter (s.worse rules · tip)) s.setBlockIndexCandidates x
  simp only [id] at hfind
  rw [KeyedSet.contains, hfind, ← worse_eq_false]
  by_cases hin : s.setBlockIndexCandidates.contains x = true
  · have hmem := contains_iff_mem.mp hin
    cases hworse : s.worse rules x tip with
    | true =>
      rw [if_pos (List.any_eq_true.mpr ⟨x, mem_filter.mpr ⟨hmem, hworse⟩, by simp⟩)]
      simp
    | false =>
      rw [if_neg]
      · exact ⟨fun hsome => ⟨hsome, rfl⟩, fun h => h.1⟩
      · intro hany
        obtain ⟨y, hy, heq⟩ := List.any_eq_true.mp hany
        rw [of_decide_eq_true heq] at hy
        rw [(mem_filter.mp hy).2] at hworse
        cases hworse
  · constructor
    · intro hsome
      split at hsome
      case isTrue => cases hsome
      case isFalse => exact absurd hsome hin
    · exact fun h => absurd h.1 hin

/-- The candidates that are left are those as good as the tip. -/
theorem Sound.prune (hs : Sound rules s) (hstep : s.pruneBlockIndexCandidates rules = some s') :
    Sound rules s' ∧ s'.tree = s.tree ∧ s'.data = s.data ∧ s'.chainActive = s.chainActive ∧
      ∀ x, s'.setBlockIndexCandidates.contains x = true →
        s.setBlockIndexCandidates.contains x = true := by
  unfold pruneBlockIndexCandidates at hstep
  cases htip : s.tip with
  | none =>
    rw [htip] at hstep
    cases hstep
  | some tip =>
    simp only [htip] at hstep
    split at hstep
    case isTrue => cases hstep
    case isFalse =>
      obtain rfl := some.inj hstep
      have hfewer : ∀ x, ((s.setBlockIndexCandidates.items.filter (s.worse rules · tip)).foldl
          KeyedSet.erase s.setBlockIndexCandidates).contains x = true →
          s.setBlockIndexCandidates.contains x = true :=
        fun x hx => ((contains_pruned x).mp hx).1
      obtain ⟨f, hf, hfelig, hfconn, htle, hrest⟩ := hs.floor_tip htip
      refine ⟨⟨hs.toLinked.extends (Grows.refl _).toExtends hs.wellFormed rfl rfl, ?_,
        hs.genesis⟩, rfl, rfl, rfl, hfewer⟩
      exact {
        candidates := fun hx => hs.candidates (hfewer _ hx)
        branch := hs.branch
        active := hs.active
        floor := .inr ⟨f, (contains_pruned f).mpr ⟨hf, htle⟩, hfelig, hfconn,
          fun x hx hlinked hle =>
            (contains_pruned x).mpr ⟨hrest x hx hlinked hle, htle.trans hle⟩⟩ }

theorem Sound.invalidBlockFound (hs : Sound rules s)
    (he : s.tree.find? h = some e) (hconn : rules.connects h = false)
    (hstep : s.invalidBlockFound h = some s') :
    Sound rules s' ∧ s'.chainActive = s.chainActive ∧ s.chainActive ≠ [] ∧
      ∀ x, s'.setBlockIndexCandidates.contains x = true →
        s.setBlockIndexCandidates.contains x = true := by
  unfold ChainState.invalidBlockFound at hstep
  split at hstep
  case isTrue => cases hstep
  case isFalse hchain =>
    obtain rfl := some.inj hstep
    have hfewer : ∀ {x}, (s.setBlockIndexCandidates.erase h).contains x = true →
        s.setBlockIndexCandidates.contains x = true := by
      intro x hx
      rw [contains_erase, Bool.and_eq_true] at hx
      exact hx.2
    have htree : { s.tree.update h .markFailedValid with
        failedBlocks := h :: (s.tree.update h .markFailedValid).failedBlocks } =
        ChainState.failTree s.tree h true := rfl
    refine ⟨hs.failTree he htree rfl rfl rfl (.inr hconn) hfewer ?_, rfl, by simpa using hchain,
      fun x => hfewer⟩
    intro x hne hx
    rw [eraseCandidate, contains_erase, Bool.and_eq_true]
    exact ⟨by simpa using hne, hx⟩

/-- What a round of `ActivateBestChain` leaves: sound candidates, none of them new, and if no block
failed the same eligible blocks. -/
structure Moved (rules : ChainRules) (s s' : ChainState) (fInvalidFound : Bool) : Prop where
  sound : Sound rules s'
  fewer : ∀ x, s'.setBlockIndexCandidates.contains x = true →
    s.setBlockIndexCandidates.contains x = true
  kept : fInvalidFound = false → Grows s.tree s'.tree ∧ s'.data = s.data
  rests : fInvalidFound = true → s'.chainActive ≠ []

theorem connectBlocks_moved {old : Option UInt256} {later : List UInt256}
    (hs : Sound rules s) (helig : ∀ x ∈ later, s.Eligible x)
    (h : connectBlocks rules old later s = some (s', fInvalidFound)) :
    Moved rules s s' fInvalidFound := by
  induction later generalizing s with
  | nil =>
    cases h
    exact ⟨hs, fun _ => id, fun _ => ⟨.refl _, rfl⟩, fun hf => by cases hf⟩
  | cons x later ih =>
    have hx := helig x mem_cons_self
    unfold connectBlocks at h
    by_cases hconn : rules.connects x = true
    · rw [if_pos hconn] at h
      obtain ⟨s₁, hconnect, h⟩ := bind_eq_some_iff.mp h
      obtain ⟨s₂, hprune, h⟩ := bind_eq_some_iff.mp h
      obtain ⟨hs₁, hgrows, hdata, hcands, -⟩ := hs.connectTip hx hconn hconnect
      obtain ⟨hs₂, htree, hdata₂, -, hfewer⟩ := hs₁.prune hprune
      have hgrows₂ : Grows s.tree s₂.tree := by rwa [htree]
      have hdata' : s₂.data = s.data := hdata₂.trans hdata
      have hfewer' : ∀ y, s₂.setBlockIndexCandidates.contains y = true →
          s.setBlockIndexCandidates.contains y = true := fun y hy => hcands ▸ hfewer y hy
      split at h
      case isTrue =>
        cases h
        exact ⟨hs₂, hfewer', fun _ => ⟨hgrows₂, hdata'⟩, fun hf => by cases hf⟩
      case isFalse =>
        have hrest := ih hs₂ (fun y hy => (eligible_grows hs.toLinked hgrows₂ hdata'
          (helig y (mem_cons_of_mem x hy)).hasData).mpr
            (helig y (mem_cons_of_mem x hy))) h
        exact ⟨hrest.sound, fun y hy => hfewer' y (hrest.fewer y hy),
          fun hf => ⟨hgrows₂.trans hs.wellFormed (hrest.kept hf).1,
            (hrest.kept hf).2.trans hdata'⟩, hrest.rests⟩
    · rw [if_neg hconn] at h
      obtain ⟨s₁, hfound, heq⟩ := map_eq_some_iff.mp h
      cases heq
      obtain ⟨e, he, -⟩ := hx.self.1
      obtain ⟨hs₁, hchain, hne, hfewer⟩ :=
        hs.invalidBlockFound he (Bool.eq_false_iff.mpr hconn) hfound
      exact ⟨hs₁, hfewer, fun hf => (by cases hf), fun _ => by rw [hchain]; exact hne⟩

theorem activateBestChainStep_moved (hs : Sound rules s) (hm : s.Eligible m)
    (h : s.activateBestChainStep rules m = some (s', gone, fInvalidFound)) :
    Moved rules s s' fInvalidFound := by
  unfold activateBestChainStep at h
  simp only at h
  split at h
  case isFalse => cases h
  case isTrue =>
    obtain ⟨⟨s₁, bad⟩, hconnect, heq⟩ := map_eq_some_iff.mp h
    cases heq
    have hsuffix : (disconnectWhile (fun chain => chain.head? ≠ (s.branchOf m).2)
        s.chainActive).2.1 <:+ s.chainActive := ⟨_, (disconnectWhile_spec rfl).1⟩
    have hmoved := connectBlocks_moved (hs.disconnected hsuffix) (fun x hx => ?_) hconnect
    · exact ⟨hmoved.sound, hmoved.fewer, hmoved.kept, hmoved.rests⟩
    · have hin := mem_reverse.mp hx
      exact AllAbove.ancestor hm ((hs.branchOf m).passed x hin).2

/-- A block that is worked towards. -/
structure Target (rules : ChainRules) (s : ChainState) (m : UInt256) : Prop where
  eligible : s.Eligible m
  leads : s.Leads rules m

theorem Target.moved (ht : Target rules s m) (hs : Sound rules s) (hmoved : Moved rules s s' false) :
    Target rules s' m := by
  obtain ⟨hgrows, hdata⟩ := hmoved.kept rfl
  refine ⟨(eligible_grows hs.toLinked hgrows hdata ht.eligible.hasData).mpr ht.eligible, ?_⟩
  intro c hc
  have hold := hmoved.fewer c hc
  have hrank : ∀ {x}, s.nChainTx x ≠ 0 → s'.rank rules x = s.rank rules x := by
    intro x hx
    obtain ⟨e, he⟩ := hs.found hx
    exact rank_congr (hgrows.workOf he) (data_congr hdata x).2.2.2
  rw [hrank (hs.candidates hold), hrank (hs.eligible_linked ht.eligible)]
  exact ht.leads c hold

theorem activateFrom_best {cached : Option UInt256} (hs : Sound rules s)
    (hcached : ∀ m, cached = some m → Target rules s m)
    (h : s.activateFrom rules fuel cached = some (s', gone)) : Sound rules s' ∧ s'.Best := by
  induction fuel generalizing s cached gone with
  | zero => cases h
  | succ fuel ih =>
    unfold activateFrom at h
    obtain ⟨⟨s₁, most⟩, hfind, h⟩ := bind_eq_some_iff.mp h
    obtain ⟨hs₁, hempty, htarget⟩ : Sound rules s₁ ∧
        (most = none → s₁.setBlockIndexCandidates.items = []) ∧
        ∀ m, most = some m → Target rules s₁ m := by
      cases cached with
      | some m =>
        cases hfind
        exact ⟨hs, fun hnone => (by cases hnone), hcached⟩
      | none =>
        have hfound := findMostWorkChain_found hs hfind
        exact ⟨hfound.sound, hfound.empty, fun m hm =>
          ⟨(hfound.leads m hm).1, (hfound.leads m hm).2⟩⟩
    cases most with
    | none =>
      cases h
      exact ⟨hs₁, hs₁.best_of_empty (hempty rfl)⟩
    | some m =>
      have ht := htarget m rfl
      simp only at h
      split at h
      case isTrue htip =>
        cases h
        exact ⟨hs₁, hs₁.best_of_leads htip ht.leads⟩
      case isFalse =>
        obtain ⟨⟨s₂, gone₂, bad⟩, hstep, h⟩ := bind_eq_some_iff.mp h
        have hmoved := activateBestChainStep_moved hs₁ ht.eligible hstep
        have hnext : ∀ n, (if bad = true then none else some m) = some n →
            Target rules s₂ n := by
          intro n hn
          cases bad with
          | true => cases hn
          | false =>
            obtain rfl := some.inj hn
            exact ht.moved hs₁ hmoved
        by_cases htip : s₂.tip = if bad = true then none else some m
        · simp only [if_pos htip] at h
          cases h
          refine ⟨hmoved.sound, ?_⟩
          cases bad with
          | true =>
            have hnil : s'.chainActive = [] := head?_eq_none_iff.mp htip
            exact absurd hnil (hmoved.rests rfl)
          | false => exact hmoved.sound.best_of_leads htip (hnext m rfl).leads
        · simp only [if_neg htip] at h
          obtain ⟨⟨s₃, gone₃⟩, hrest, h⟩ := bind_eq_some_iff.mp h
          cases h
          exact ih hmoved.sound hnext hrest

/-- The active blocks that are left do not descend from one that is not among them. -/
theorem Sound.not_above (hs : Sound rules s) (hsuffix : chain <:+ s.chainActive) (hout : h ∉ chain)
    (hin : a ∈ chain) : ¬ Ancestor s.tree.parent h a := by
  intro hh
  obtain ⟨front, rest, heq⟩ := append_of_mem hin
  have hbranch : IsBranch s.tree.parent (a :: rest) :=
    isBranch_of_suffix hs.branch ((heq ▸ suffix_append front (a :: rest)).trans hsuffix)
  exact hout (heq ▸ mem_append_right front ((mem_branch_iff hbranch h).mpr hh))

theorem isValid_of_eligible (hl : Linked queue s) (h : s.Eligible a) :
    s.isValid a blockValidTransactions = true := by
  obtain ⟨⟨e, he, hclear⟩, hdata⟩ := h.self
  obtain ⟨e', he', hlevel⟩ := hl.indexed hdata
  obtain rfl : e = e' := some.inj (he.symm.trans he')
  simp [isValid, he, CBlockIndex.isValid, hclear, hlevel hclear]

theorem contains_foldl_insert (l : List UInt256) (set : PlainSet UInt256) (x : UInt256) :
    (l.foldl KeyedSet.insert set).contains x = true ↔ set.contains x = true ∨ x ∈ l := by
  rw [KeyedSet.contains, KeyedSet.find?_foldl_insert, isSome_or, Bool.or_eq_true]
  refine or_congr Iff.rfl ?_
  rw [find?_isSome]
  simp

/-- With its valid blocks in the set again the tip is a floor. -/
theorem sound_readded (hl : Linked [] s) (ha : Active rules s)
    (hgenesis : (s.tree.find? rules.headers.hashGenesisBlock).isSome = true)
    (hstep : s.readdCandidates rules = some s') : Sound rules s' := by
  unfold readdCandidates at hstep
  obtain ⟨tip, htip, hstep⟩ := bind_eq_some_iff.mp hstep
  obtain rfl := some.inj hstep
  obtain ⟨helig, -, hlinked⟩ := ha.active tip (tip_mem htip)
  have hin : ∀ {x}, s.Eligible x → s.nChainTx x ≠ 0 → s.rank rules tip ≤ s.rank rules x →
      x ∈ (s.tree.mapBlockIndex.items.map Prod.fst).filter fun hash =>
        s.isValid hash blockValidTransactions && s.nChainTx hash ≠ 0 &&
          !s.worse rules hash tip := by
    intro x hx hxl hle
    obtain ⟨⟨e, he, -⟩, -⟩ := hx.self
    obtain ⟨item, hitem, -⟩ := map_eq_some_iff.mp he
    refine mem_filter.mpr ⟨List.mem_map.mpr ⟨item, KeyedSet.mem_of_find? hitem,
      KeyedSet.key_of_find? hitem⟩, ?_⟩
    simp [isValid_of_eligible hl hx, hxl, worse_eq_false.mpr hle]
  refine ⟨hl.extends (Grows.refl _).toExtends hl.wellFormed rfl rfl, ⟨⟨?_, ha.branch, ha.active⟩,
    .inr ⟨tip, ?_, helig, ha.connected (tip_mem htip), ?_⟩⟩, hgenesis⟩
  · intro x hx
    rcases (contains_foldl_insert _ _ x).mp hx with hx | hx
    · exact ha.candidates hx
    · have hfilter := (mem_filter.mp hx).2
      simp only [Bool.and_eq_true, decide_eq_true_eq] at hfilter
      exact hfilter.1.2
  · exact (contains_foldl_insert _ _ tip).mpr (.inr (hin helig hlinked le_rfl))
  · intro x hx hxl hle
    exact (contains_foldl_insert _ _ x).mpr (.inr (hin hx hxl hle))

/-- The chain below a block that failed, with what descends from that block marked. -/
theorem invalidated {s₁ : ChainState} {tree : BlockTree} (hs : Sound rules s)
    (hsuffix : chain <:+ s.chainActive) (hout : h ∉ chain)
    (hreadd : s₁.readdCandidates rules = some s') (htree : s₁.tree = tree)
    (hext : Extends s.tree tree) (hwf : tree.WellFormed)
    (hself : ∀ e', tree.find? h = some e' → e'.failed = true)
    (hothers : ∀ x, ¬ Ancestor s.tree.parent h x → tree.find? x = s.tree.find? x)
    (hdata : s₁.data = s.data) (hwait : s₁.mapBlocksUnlinked = s.mapBlocksUnlinked)
    (hchain : s₁.chainActive = chain) (hfewer : ∀ x, s₁.setBlockIndexCandidates.contains x = true →
      s.setBlockIndexCandidates.contains x = true) : Sound rules s' := by
  subst htree
  have hl : Linked [] s₁ := hs.toLinked.extends hext hwf hdata hwait
  have hcount : ∀ x, s₁.nChainTx x = s.nChainTx x := fun x => (data_congr hdata x).2.2.1
  refine sound_readded hl ⟨?_, ?_, ?_⟩ ?_ hreadd
  · intro x hx
    rw [hcount]
    exact hs.candidates (hfewer x hx)
  · rw [hchain]
    refine isBranch_congr (isBranch_of_suffix hs.branch hsuffix) fun x hx => ?_
    obtain ⟨e, he⟩ := hs.found (hs.active x (hsuffix.subset hx)).2.2
    exact hext.parent he
  · intro x hx
    rw [hchain] at hx
    obtain ⟨helig, hconn, hlinked⟩ := hs.active x (hsuffix.subset hx)
    rw [hcount]
    refine ⟨?_, hconn, hlinked⟩
    exact (eligible_failed hs.toLinked hext hself hothers hdata helig.hasData).mpr
      ⟨helig, hs.not_above hsuffix hout hx⟩
  · exact found_of_extends hext hs.genesis

theorem Sound.invalidateBlock (hs : Sound rules s)
    (he : s.tree.find? h = some e) (hstep : s.invalidateBlock rules h = some s') :
    Sound rules s' := by
  unfold ChainState.invalidateBlock at hstep
  cases hdis : disconnectWhile (·.contains h) s.chainActive with
  | mk gone rest =>
    obtain ⟨chain, fOk⟩ := rest
    obtain ⟨hwhole, hstop, hgo⟩ := disconnectWhile_spec hdis
    have hsuffix : chain <:+ s.chainActive := ⟨gone, hwhole⟩
    simp only [hdis] at hstep
    cases fOk with
    | false =>
      cases hstep
      exact hs.disconnected hsuffix
    | true =>
      have hout : h ∉ chain := by
        rcases hstop rfl with rfl | hnot
        · exact not_mem_nil
        · simpa using hnot
      obtain ⟨s₁, hinvalid, hreadd⟩ := bind_eq_some_iff.mp hstep
      -- the blocks that are marked descend from the one that is invalidated
      have hbelow : ∀ x ∈ gone.takeWhile (· ≠ h), Ancestor s.tree.parent h x := by
        intro x hx
        have hne : gone ≠ [] := by
          rintro rfl
          cases hx
        have hin : h ∈ gone ++ chain := hwhole ▸ List.contains_iff_mem.mp (hgo hne)
        obtain ⟨after, hsplit⟩ :=
          split_takeWhile ((mem_append.mp hin).resolve_right hout)
        have hbranch := hs.branch
        rw [← hwhole, hsplit, append_assoc] at hbranch
        exact ancestor_of_branch hbranch hx
      have hmarked := markedAll (s := { s with chainActive := chain }) hs.wellFormed
        (gone.takeWhile (· ≠ h))
      obtain ⟨e₁, he₁, -⟩ := hmarked.extended.kept he
      unfold ChainState.invalidBlockFound at hinvalid
      split at hinvalid
      case isTrue => cases hinvalid
      case isFalse =>
        obtain rfl := some.inj hinvalid
        have htree : ∀ tree : BlockTree, { tree.update h .markFailedValid with
            failedBlocks := h :: (tree.update h .markFailedValid).failedBlocks } =
            ChainState.failTree tree h true := fun _ => rfl
        refine invalidated hs hsuffix hout hreadd (htree _)
          (hmarked.extended.trans failTree_extends)
          (failTree_wellFormed hmarked.wellFormed he₁) (fun e' => failTree_self) ?_
          hmarked.data hmarked.wait hmarked.chain ?_
        · intro x hnot
          have hne : h ≠ x := by
            rintro rfl
            exact hnot .refl
          rw [failTree_others x hne]
          exact hmarked.others x fun hx => hnot (hbelow x hx)
        · intro x hx
          rw [eraseCandidate, contains_erase, Bool.and_eq_true] at hx
          exact hmarked.fewer x hx.2

end ChainState

/-- The genesis block of the chain parameters. -/
structure GenesisBlock (rules : ChainRules) where
  header : CBlockHeader
  nTx : Nat
  named : header.getHash rules.headers = rules.headers.hashGenesisBlock
  notEmpty : nTx ≠ 0

namespace ChainState

/-- The states that calls in any order lead to. -/
inductive Reached (rules : ChainRules) (genesis : GenesisBlock rules) : ChainState → Prop
  | start : Reached rules genesis (loadGenesisBlock rules genesis.header genesis.nTx)
  | step {s s' : ChainState} (event : ChainEvent) : Reached rules genesis s →
      s.step rules event = some s' → Reached rules genesis s'

theorem sound_start (genesis : GenesisBlock rules) :
    Sound rules (loadGenesisBlock rules genesis.header genesis.nTx) := by
  have hfind : ∀ x, (BlockTree.addToBlockIndex rules.headers ⟨.empty, [], none⟩
      genesis.header).find? x = if genesis.header.getHash rules.headers = x then
        some (BlockTree.newIndex ⟨.empty, [], none⟩ genesis.header) else none := by
    intro x
    rw [find?_addToBlockIndex rfl]
    rfl
  have hindex : BlockTree.newIndex ⟨.empty, [], none⟩ genesis.header =
      { CBlockIndex.ofHeader genesis.header with
        nTimeMax := genesis.header.nTime
        nChainWork := getBlockProof genesis.header.nBits
        nStatus := { nValid := blockValidTree } } := rfl
  have hs : Sound rules ⟨.addToBlockIndex rules.headers ⟨.empty, [], none⟩ genesis.header, .empty,
      .empty, [], 1, []⟩ := by
    refine ⟨⟨⟨?_, ?_, ?_⟩, ?_, ?_, ?_, ?_, ?_, ?_, nodup_nil⟩, ⟨⟨?_, trivial, ?_⟩, .inl ?_⟩, ?_⟩
    · intro hash e p he hp
      rw [hfind] at he
      split at he
      case isTrue =>
        rw [← some.inj he, hindex] at hp
        cases hp
      case isFalse => cases he
    · intro hash e he
      rw [hfind] at he
      split at he
      case isTrue =>
        rw [← some.inj he, hindex]
      case isFalse => cases he
    · intro f hf
      cases hf
    · intro x hx
      cases hx
    · intro x hx
      cases hx
    · intro x p hx
      exact absurd rfl hx
    · intro x hx
      cases hx
    · intro x hx
      cases hx
    · intro item hitem
      cases hitem
    · intro x hx
      cases hx
    · intro x hx
      cases hx
    · intro x _ hx
      exact absurd rfl hx
    · rw [hfind, if_pos genesis.named]
      rfl
  exact hs.receivedBlockTransactions ((hfind _).trans (if_pos rfl)) rfl genesis.notEmpty

theorem Sound.step (hs : Sound rules s) {event : ChainEvent}
    (h : s.step rules event = some s') : Sound rules s' := by
  cases event with
  | header around block =>
    obtain rfl := some.inj h
    exact hs.processHeader around block
  | block around block fRequested verdict =>
    obtain rfl := some.inj h
    exact hs.acceptBlock around block fRequested verdict
  | invalidateBlock hash =>
    unfold ChainState.step at h
    simp only at h
    split at h
    case isTrue hin =>
      obtain ⟨item, hitem⟩ := isSome_iff_exists.mp hin
      have he : s.tree.find? hash = some item.2 := by rw [BlockTree.find?, hitem]; rfl
      exact hs.invalidateBlock he h
    case isFalse =>
      obtain rfl := some.inj h
      exact hs
  | activateBestChain fuel =>
    obtain ⟨⟨s₁, gone⟩, hactivate, rfl⟩ := map_eq_some_iff.mp h
    exact (activateFrom_best hs (fun m hm => by cases hm) hactivate).1

variable {genesis : GenesisBlock rules}

theorem Reached.sound (h : Reached rules genesis s) :
    Sound rules s := by
  induction h with
  | start => exact sound_start genesis
  | step event _ hstep ih => exact ih.step hstep

theorem Reached.steps (h : Reached rules genesis s)
    {events : List ChainEvent} (hsteps : s.steps rules events = some s') :
    Reached rules genesis s' := by
  induction events generalizing s with
  | nil => exact some.inj hsteps ▸ h
  | cons event events ih =>
    obtain ⟨s₁, hstep, hrest⟩ := bind_eq_some_iff.mp hsteps
    exact ih (h.step event hstep) hrest

end ChainState

/-- In every run an eligible block is linked, a block with data that is not linked waits under its
parent or has a failed one, and the active chain is a branch of eligible blocks. -/
theorem no_block_forgotten {rules : ChainRules} {genesis : GenesisBlock rules} {s : ChainState}
    (h : s.Reached rules genesis) :
    (∀ hash, s.Eligible hash → s.nChainTx hash ≠ 0) ∧
    (∀ hash, s.hasData hash = true → s.nChainTx hash = 0 → ∃ p, s.tree.parent hash = some p ∧
      (s.failed p = true ∨ (s.nChainTx p = 0 ∧ (p, hash) ∈ s.mapBlocksUnlinked))) ∧
    IsBranch s.tree.parent s.chainActive ∧ ∀ hash ∈ s.chainActive, s.Eligible hash := by
  have hs := h.sound
  refine ⟨fun hash => hs.toLinked.eligible_linked, fun hash hdata hzero => ?_, hs.branch,
    fun hash hin => (hs.active hash hin).1⟩
  exact (hs.pending hdata hzero).resolve_left not_mem_nil

/-- After `ActivateBestChain` no block that has its data and no mark of failure, nor any block above
it without data or with a mark, has more work than the tip; and every block of the active chain went
through `ConnectTip`. -/
theorem most_work_active {rules : ChainRules} {genesis : GenesisBlock rules} {s s' : ChainState}
    (hreached : s.Reached rules genesis) {fuel : Nat} {gone : List UInt256}
    (h : s.activateBestChain rules fuel = some (s', gone)) :
    (∀ hash, s'.Eligible hash →
      ∃ tip, s'.tip = some tip ∧ s'.nChainWork hash ≤ s'.nChainWork tip) ∧
    ∀ hash ∈ s'.chainActive, s'.Eligible hash ∧ rules.connects hash = true := by
  obtain ⟨hsound, hbest⟩ :=
    activateFrom_best hreached.sound (fun m hm => by cases hm) h
  refine ⟨hbest, fun hash hin => ?_⟩
  obtain ⟨helig, hconn, -⟩ := hsound.active hash hin
  exact ⟨helig, hconn⟩

/-- Headers with their nonce for a hash, and a block that does not go through. -/
def plainRules (bad : UInt256) : ChainRules where
  headers := { cheapRules with
    pow := { cheapRules.pow with hashX16R := fun input => BitVec.ofNat 256 input.nNonce.toNat }
    nKAWPOWActivationTime := 2 ^ 31
    nX16RV2ActivationTime := 2 ^ 31
    mapCheckpoints := [] }
  nMinimumChainWork := 0
  address := BitVec.toNat
  connects := (· ≠ bad)

def plainHeader (hashPrevBlock : UInt256) (nNonce nTime : UInt32) : CBlockHeader :=
  ⟨4, hashPrevBlock, 0, nTime, 0x207fffff, nNonce, 0, 0, 0⟩

def plainGenesis (bad : UInt256) : GenesisBlock (plainRules bad) where
  header := plainHeader 0 1 100
  nTx := 1
  named := by rfl
  notEmpty := by decide

def plainSurroundings : Surroundings := ⟨some 8, 1000, 1000, false⟩

def plainBlock (hashPrevBlock : UInt256) (nNonce nTime : UInt32) : ChainEvent :=
  .block plainSurroundings (plainHeader hashPrevBlock nNonce nTime) true (.passed 1 (by decide))

theorem block_three_waits : ∃ s : ChainState, s.hasData 3 = true ∧ ∃ p, s.tree.parent 3 = some p ∧
    (s.failed p = true ∨ (s.nChainTx p = 0 ∧ (p, 3) ∈ s.mapBlocksUnlinked)) := by
  obtain ⟨s, hs, h⟩ : ∃ s, (loadGenesisBlock (plainRules 4) (plainGenesis 4).header 1).steps
      (plainRules 4) [.header plainSurroundings (plainHeader 1 2 200), plainBlock 2 3 300] =
        some s ∧ s.hasData 3 = true ∧ s.nChainTx 3 = 0 := by decide +kernel
  have hreached : s.Reached (plainRules 4) (plainGenesis 4) := ChainState.Reached.start.steps hs
  exact ⟨s, h.1, (no_block_forgotten hreached).2.1 3 h.1 h.2⟩

/-- Block 2 is the tip; then 3 and 4 arrive on another branch, and 4 fails. The chain goes to 3 and
back to 2. -/
theorem back_to_two :
    ∃ (s s' : ChainState) (gone : List UInt256), s.Reached (plainRules 4) (plainGenesis 4) ∧
      s.activateBestChain (plainRules 4) 10 = some (s', gone) ∧ gone = [2, 3] ∧
      s'.tip = some 2 ∧ s'.failed 4 = true ∧ s'.Eligible 2 ∧
      ∀ hash, s'.Eligible hash →
        ∃ tip, s'.tip = some tip ∧ s'.nChainWork hash ≤ s'.nChainWork tip := by
  obtain ⟨s, hs, ⟨s', gone⟩, hactivate, hgone, htip, hfailed⟩ :
      ∃ s, (loadGenesisBlock (plainRules 4) (plainGenesis 4).header 1).steps
        (plainRules 4) [.activateBestChain 10, plainBlock 1 2 200, .activateBestChain 10,
          plainBlock 1 3 300, plainBlock 3 4 400] = some s ∧
        ∃ result, s.activateBestChain (plainRules 4) 10 = some result ∧
          result.2 = [2, 3] ∧ result.1.tip = some 2 ∧ result.1.failed 4 = true := by
    decide +kernel
  have hreached : s.Reached (plainRules 4) (plainGenesis 4) := ChainState.Reached.start.steps hs
  obtain ⟨hbest, hactive⟩ := most_work_active hreached hactivate
  exact ⟨s, s', gone, hreached, hactivate, hgone, htip, hfailed,
    (hactive 2 (tip_mem htip)).1, hbest⟩

end HnbCore
