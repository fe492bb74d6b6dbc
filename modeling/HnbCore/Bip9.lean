import HnbCore.VersionBits
import Mathlib.Data.List.Infix

/-!
# The BIP9 state machine

The states of a deployment as a transition system that advances by one period of blocks at a time
from the genesis block on. Whatever its cache has from other branches, `GetStateFor` answers with
the state of that system on every chain whose median times do not go back.
-/

namespace HnbCore

open List BIP9Deployment

variable {chain : PIndex} {state : ThresholdState} {n : Nat}

namespace BIP9Deployment

variable (d : BIP9Deployment)

/-- The arrows of BIP9, for a period that ends with the last of `blocks`. -/
inductive Arrow (blocks : PIndex) : ThresholdState → ThresholdState → Prop
  | wait (early : blocks.medianTimePast < d.nStartTime)
      (running : blocks.medianTimePast < d.nTimeout) : Arrow blocks .defined .defined
  | start (begun : d.nStartTime ≤ blocks.medianTimePast)
      (running : blocks.medianTimePast < d.nTimeout) : Arrow blocks .defined .started
  | missed (past : d.nTimeout ≤ blocks.medianTimePast) : Arrow blocks .defined .failed
  | timeout (past : d.nTimeout ≤ blocks.medianTimePast) : Arrow blocks .started .failed
  | lockIn (running : blocks.medianTimePast < d.nTimeout)
      (enough : d.nThreshold ≤ (blocks.take d.nPeriod).countP d.condition) :
      Arrow blocks .started .lockedIn
  | signal (running : blocks.medianTimePast < d.nTimeout)
      (few : (blocks.take d.nPeriod).countP d.condition < d.nThreshold) :
      Arrow blocks .started .started
  | activate : Arrow blocks .lockedIn .active
  | active : Arrow blocks .active .active
  | failed : Arrow blocks .failed .failed

end BIP9Deployment

/-- The oldest `n` blocks of a chain. -/
def PIndex.oldest (chain : PIndex) (n : Nat) : PIndex := chain.drop (chain.length - n)

namespace BIP9Deployment

variable (d : BIP9Deployment)

/-- The state after a number of periods of a chain. -/
inductive After (chain : PIndex) : Nat → ThresholdState → Prop
  | genesis : After chain 0 .defined
  | period {n : Nat} {state next : ThresholdState} (before : After chain n state)
      (arrow : d.Arrow (chain.oldest ((n + 1) * d.nPeriod)) state next) : After chain (n + 1) next

/-- The loop of `GetStateSinceHeightFor`; every round goes back by one period. -/
def sinceWalk (initialState : ThresholdState) : Nat → PIndex → ThresholdConditionCache →
    PIndex × ThresholdConditionCache
  | 0, pindexPrev, cache => (pindexPrev, cache)
  | fuel + 1, pindexPrev, cache =>
      let previousPeriodParent := pindexPrev.getAncestor (pindexPrev.nHeight - d.nPeriod)
      if previousPeriodParent = [] then (pindexPrev, cache)
      else
        let (state, cache) := d.getStateFor previousPeriodParent cache
        if state = initialState then sinceWalk initialState fuel previousPeriodParent cache
        else (pindexPrev, cache)

def getStateSinceHeightFor (pindexPrev : PIndex) (cache : ThresholdConditionCache) :
    Int × ThresholdConditionCache :=
  let (initialState, cache) := d.getStateFor pindexPrev cache
  if initialState = .defined then (0, cache)
  else
    let start := d.periodEnd pindexPrev
    let (found, cache) := d.sinceWalk initialState start.length start cache
    (found.nHeight + 1, cache)

inductive Query
  | state (pindexPrev : PIndex)
  | sinceHeight (pindexPrev : PIndex)

/-- What a query leaves in the cache. -/
def afterQuery (cache : ThresholdConditionCache) : Query → ThresholdConditionCache
  | .state pindexPrev => (d.getStateFor pindexPrev cache).2
  | .sinceHeight pindexPrev => (d.getStateSinceHeightFor pindexPrev cache).2

def cacheAfter (queries : List Query) : ThresholdConditionCache :=
  queries.foldl d.afterQuery .empty

variable {d}

theorem sinceWalk_cacheTrue {initialState : ThresholdState} (fuel : Nat) {pindexPrev : PIndex}
    {cache : ThresholdConditionCache} (h : d.CacheTrue cache) :
    d.CacheTrue (d.sinceWalk initialState fuel pindexPrev cache).2 := by
  induction fuel generalizing pindexPrev cache with
  | zero => exact h
  | succ fuel ih =>
    have hnext := (getStateFor_spec h (pindexPrev.getAncestor (pindexPrev.nHeight - d.nPeriod))).2
    simp only [sinceWalk]
    split_ifs
    · exact h
    · exact ih hnext
    · exact hnext

theorem afterQuery_cacheTrue {cache : ThresholdConditionCache} (h : d.CacheTrue cache)
    (query : Query) : d.CacheTrue (d.afterQuery cache query) := by
  cases query with
  | state pindexPrev => exact (getStateFor_spec h pindexPrev).2
  | sinceHeight pindexPrev =>
    have hnext := (getStateFor_spec h pindexPrev).2
    simp only [afterQuery, getStateSinceHeightFor]
    split_ifs
    · exact hnext
    · exact sinceWalk_cacheTrue _ hnext

theorem cacheAfter_cacheTrue (queries : List Query) : d.CacheTrue (d.cacheAfter queries) := by
  have run : ∀ cache, d.CacheTrue cache → d.CacheTrue (queries.foldl d.afterQuery cache) := by
    induction queries with
    | nil => exact fun _ h => h
    | cons query rest ih => exact fun cache h => ih _ (afterQuery_cacheTrue h query)
  exact run _ cacheTrue_empty

theorem arrow_iff {blocks : PIndex} {next : ThresholdState} :
    d.Arrow blocks state next ↔ next = d.stateNext state blocks := by
  constructor
  · intro h
    cases h with
    | wait early running => rw [stateNext, if_neg (by omega), if_neg (by omega)]
    | start begun running => rw [stateNext, if_neg (by omega), if_pos begun]
    | missed past => rw [stateNext, if_pos past]
    | timeout past => rw [stateNext, if_pos past]
    | lockIn running enough => rw [stateNext, if_neg (by omega), if_pos enough]
    | signal running few => rw [stateNext, if_neg (by omega), if_neg (by omega)]
    | activate => rfl
    | active => rfl
    | failed => rfl
  · rintro rfl
    cases state with
    | defined =>
      rw [stateNext]
      split_ifs with hpast hbegun
      · exact .missed hpast
      · exact .start hbegun (by omega)
      · exact .wait (by omega) (by omega)
    | started =>
      rw [stateNext]
      split_ifs with hpast henough
      · exact .timeout hpast
      · exact .lockIn (by omega) henough
      · exact .signal (by omega) (by omega)
    | lockedIn => exact .activate
    | active => exact .active
    | failed => exact .failed

theorem After.unique {state' : ThresholdState} (h : d.After chain n state)
    (h' : d.After chain n state') : state = state' := by
  induction n generalizing state state' with
  | zero =>
    cases h
    cases h'
    rfl
  | succ n ih =>
    cases h with
    | period before arrow =>
      cases h' with
      | period before' arrow' =>
        obtain rfl := ih before before'
        rw [arrow_iff.mp arrow, arrow_iff.mp arrow']

end BIP9Deployment

namespace PIndex

theorem oldest_of_suffix {longer : PIndex} (h : chain <:+ longer) (hn : n ≤ chain.length) :
    longer.oldest n = chain.oldest n := by
  obtain ⟨newer, rfl⟩ := h
  rw [oldest, oldest, length_append, drop_append]
  have hdrop : newer.drop (newer.length + chain.length - n) = [] :=
    drop_eq_nil_of_le (by omega)
  rw [hdrop, nil_append]
  congr 1
  omega

theorem oldest_length (chain : PIndex) : chain.oldest chain.length = chain := by
  rw [oldest, Nat.sub_self, drop_zero]

/-- The median time never goes back along the chain. -/
def Ordered (chain : PIndex) : Prop :=
  ∀ block before, (block :: before) <:+ chain →
    medianTimePast before ≤ medianTimePast (block :: before)

theorem Ordered.suffix {before : PIndex} (h : chain.Ordered) (hsuffix : before <:+ chain) :
    before.Ordered :=
  fun block earlier hearlier => h block earlier (hearlier.trans hsuffix)

theorem Ordered.le {before : PIndex} (h : chain.Ordered) (hsuffix : before <:+ chain) :
    before.medianTimePast ≤ chain.medianTimePast := by
  induction chain with
  | nil =>
    rw [suffix_nil.mp hsuffix]
  | cons block rest ih =>
    rcases suffix_cons_iff.mp hsuffix with rfl | hrest
    · exact le_rfl
    · have hstep := h block rest suffix_rfl
      exact (ih (h.suffix (suffix_cons block rest)) hrest).trans hstep

end PIndex

namespace BIP9Deployment

variable {d : BIP9Deployment}

theorem After.suffix {longer : PIndex} (h : chain <:+ longer) (hafter : d.After chain n state)
    (hn : n * d.nPeriod ≤ chain.length) : d.After longer n state := by
  induction hafter with
  | genesis => exact .genesis
  | @period n state next _ arrow ih =>
    rw [← PIndex.oldest_of_suffix h hn] at arrow
    exact .period (ih (by rw [Nat.add_mul] at hn; omega)) arrow

/-- At the end of a period the early exit gives what the periods before would have given. -/
theorem after_stateAtEnd (hstart : d.nStartTime < d.nTimeout) (n : Nat) (hordered : chain.Ordered)
    (hlength : chain.length = n * d.nPeriod) : d.After chain n (d.stateAtEnd chain) := by
  induction n generalizing chain with
  | zero =>
    obtain rfl := length_eq_zero_iff.mp (hlength.trans (Nat.zero_mul _))
    rw [stateAtEnd_nil]
    exact .genesis
  | succ n ih =>
    have hpos := d.period_pos
    rw [Nat.add_mul, Nat.one_mul] at hlength
    have hne : chain ≠ [] := ne_nil_of_length_pos (by omega)
    have hsuffix : chain.drop d.nPeriod <:+ chain := drop_suffix _ _
    have hrest : (chain.drop d.nPeriod).length = n * d.nPeriod := by
      rw [length_drop]
      omega
    have hbefore := (ih (hordered.suffix hsuffix) hrest).suffix hsuffix hrest.ge
    have hend : chain.oldest ((n + 1) * d.nPeriod) = chain := by
      rw [Nat.add_mul, Nat.one_mul, ← hlength, PIndex.oldest_length]
    refine .period hbefore ?_
    rw [hend, arrow_iff]
    by_cases hearly : chain.medianTimePast < d.nStartTime
    · -- every earlier period ended before the start as well
      have hprev := hordered.le hsuffix
      rw [stateAtEnd_early d hearly, stateAtEnd_early d (hprev.trans_lt hearly), stateNext,
        if_neg (by omega), if_neg (by omega)]
    · exact stateAtEnd_late d hne hearly

theorem periodEnd_eq (pindexPrev : PIndex) :
    d.periodEnd pindexPrev = pindexPrev.drop (pindexPrev.length % d.nPeriod) := by
  unfold periodEnd
  split
  case isTrue h => rw [h, drop_nil]
  case isFalse h =>
    have hlen : (pindexPrev.nHeight + 1) % d.nPeriod =
        ((pindexPrev.length % d.nPeriod : Nat) : Int) := by
      rw [PIndex.nHeight, Int.sub_add_cancel, Int.natCast_emod]
    rw [hlen, PIndex.getAncestor_sub]

theorem after_stateFor (hstart : d.nStartTime < d.nTimeout) {pindexPrev : PIndex}
    (hordered : pindexPrev.Ordered) :
    d.After pindexPrev (pindexPrev.length / d.nPeriod) (d.stateFor pindexPrev) := by
  have hsuffix : d.periodEnd pindexPrev <:+ pindexPrev := by
    rw [periodEnd_eq]
    exact drop_suffix _ _
  have hlength : (d.periodEnd pindexPrev).length = pindexPrev.length / d.nPeriod * d.nPeriod := by
    have := Nat.div_add_mod' pindexPrev.length d.nPeriod
    rw [periodEnd_eq, length_drop]
    omega
  exact (after_stateAtEnd hstart _ (hordered.suffix hsuffix) hlength).suffix hsuffix hlength.ge

theorem After.final {m : Nat} (hfinal : state = .active ∨ state = .failed) (hmn : m ≤ n)
    (hm : d.After chain m state) {later : ThresholdState} (hn : d.After chain n later) :
    later = state := by
  induction n, hmn using Nat.le_induction generalizing later with
  | base => exact hn.unique hm
  | succ n _ ih =>
    cases hn with
    | period before arrow =>
      obtain rfl := ih before
      rw [arrow_iff.mp arrow]
      rcases hfinal with rfl | rfl
      · rfl
      · rfl

end BIP9Deployment

/-- A tree of blocks: what `pprev` points to is in it, and median times do not go back. -/
structure VersionedTree where
  blocks : Set PIndex
  parent : ∀ block before, block :: before ∈ blocks → before ∈ blocks
  medians : ∀ block before, block :: before ∈ blocks →
    PIndex.medianTimePast before ≤ PIndex.medianTimePast (block :: before)

theorem VersionedTree.ordered (tree : VersionedTree) {pindex : PIndex} (h : pindex ∈ tree.blocks) :
    pindex.Ordered := by
  have hclosed : ∀ {chain before : PIndex}, before <:+ chain → chain ∈ tree.blocks →
      before ∈ tree.blocks := by
    intro chain before hsuffix hchain
    induction chain with
    | nil => rwa [suffix_nil.mp hsuffix]
    | cons block rest ih =>
      rcases suffix_cons_iff.mp hsuffix with rfl | hrest
      · exact hchain
      · exact ih hrest (tree.parent block rest hchain)
  exact fun block before hsuffix => tree.medians block before (hclosed hsuffix h)

/-- Whatever was asked before, the answers are the states of the system: it goes from locked in to
active with the next period, and a descendant of an active or failed block is active or failed. -/
theorem getStateFor_bip9 (d : BIP9Deployment) (hstart : d.nStartTime < d.nTimeout)
    (tree : VersionedTree) (queries queries' : List BIP9Deployment.Query) {pindex later : PIndex}
    (hpindex : pindex ∈ tree.blocks) (hlater : later ∈ tree.blocks) (hchain : pindex <:+ later) :
    d.After pindex (pindex.length / d.nPeriod) (d.getStateFor pindex (d.cacheAfter queries)).1 ∧
      ((d.getStateFor pindex (d.cacheAfter queries)).1 = .lockedIn →
        later.length / d.nPeriod = pindex.length / d.nPeriod + 1 →
          (d.getStateFor later (d.cacheAfter queries')).1 = .active) ∧
      ((d.getStateFor pindex (d.cacheAfter queries)).1 = .active →
        (d.getStateFor later (d.cacheAfter queries')).1 = .active) ∧
      ((d.getStateFor pindex (d.cacheAfter queries)).1 = .failed →
        (d.getStateFor later (d.cacheAfter queries')).1 = .failed) := by
  rw [(getStateFor_spec (cacheAfter_cacheTrue queries) pindex).1,
    (getStateFor_spec (cacheAfter_cacheTrue queries') later).1]
  have hafter := after_stateFor hstart (tree.ordered hpindex)
  have hnow := hafter.suffix hchain (Nat.div_mul_le_self _ _)
  have hnext := after_stateFor hstart (tree.ordered hlater)
  have hperiods : pindex.length / d.nPeriod ≤ later.length / d.nPeriod :=
    Nat.div_le_div_right hchain.length_le
  refine ⟨hafter, fun hlocked hone => ?_, fun hactive => ?_, fun hfailed => ?_⟩
  · rw [hone] at hnext
    rw [hlocked] at hnow
    exact hnext.unique (.period hnow .activate)
  · rw [hactive] at hnow
    exact hnow.final (.inl rfl) hperiods hnext
  · rw [hfailed] at hnow
    exact hnow.final (.inr rfl) hperiods hnext

/-- Periods of two blocks, one of which has to signal. -/
def pairDeployment : BIP9Deployment := ⟨0, 1, 100, 2, 1, by decide⟩

/-- Six blocks that all signal. -/
def signalled : PIndex :=
  [⟨6, 1, 15⟩, ⟨5, 1, 14⟩, ⟨4, 1, 13⟩, ⟨3, 1, 12⟩, ⟨2, 1, 11⟩, ⟨1, 1, 10⟩]

def signalledTree : VersionedTree where
  blocks := { pindex | pindex <:+ signalled }
  parent _ _ h := (suffix_cons _ _).trans h
  medians block before h := by
    have hall : (signalled.tails.all fun pindex => match pindex with
        | [] => true
        | block :: before =>
            decide (PIndex.medianTimePast before ≤ PIndex.medianTimePast (block :: before))) =
        true := by decide +kernel
    exact of_decide_eq_true (all_eq_true.mp hall _ ((mem_tails _ _).mpr h))

theorem signalled_activates :
    (pairDeployment.getStateFor (signalled.drop 2) (pairDeployment.cacheAfter [])).1 = .lockedIn ∧
      (pairDeployment.getStateFor signalled
        (pairDeployment.cacheAfter [.sinceHeight (signalled.drop 2)])).1 = .active := by
  have hlocked : (pairDeployment.getStateFor (signalled.drop 2)
      (pairDeployment.cacheAfter [])).1 = .lockedIn := by decide +kernel
  have h := getStateFor_bip9 pairDeployment (by decide) signalledTree []
    [.sinceHeight (signalled.drop 2)] (drop_suffix 2 signalled) suffix_rfl
    (drop_suffix 2 signalled)
  exact ⟨hlocked, h.2.1 hlocked (by decide)⟩

end HnbCore
