import HnbCore.Bytes

/-!
# Version bits and the deployment switches

`AbstractThresholdConditionChecker::GetStateFor` with its cache, and the switches that the asset
code asks. A switch that was once found active is remembered for the rest of the process, so its
answer can depend on tips that were visited before.
-/

namespace HnbCore

open List

/-- What the version bits read of a block. -/
structure VersionedBlock where
  hash : Nat
  nVersion : Int
  nTime : Nat
  deriving DecidableEq, Repr

/-- A `CBlockIndex` pointer: the block with all blocks before it, and `[]` for `nullptr`. -/
abbrev PIndex := List VersionedBlock

inductive ThresholdState
  | defined
  | started
  | lockedIn
  | active
  | failed
  deriving DecidableEq, Repr

/-- A deployment with the period and the threshold that are in force for it. -/
structure BIP9Deployment where
  bit : Nat
  nStartTime : Int
  nTimeout : Int
  nPeriod : Nat
  nThreshold : Nat
  period_pos : 0 < nPeriod

abbrev ThresholdConditionCache := KeyedMap PIndex ThresholdState

namespace PIndex

variable (pindex : PIndex)

def nHeight : Int := (pindex.length : Int) - 1

/-- `GetAncestor`, which has no answer above the block or below the first one. -/
def getAncestor (height : Int) : PIndex :=
  if height > pindex.nHeight ∨ height < 0 then [] else pindex.drop (pindex.nHeight - height).toNat

def medianTimePast : Int :=
  let times := ((pindex.take 11).map (·.nTime)).insertionSort (· ≤ ·)
  times.getD (times.length / 2) 0

theorem getAncestor_sub (n : Nat) :
    pindex.getAncestor (pindex.nHeight - n) = pindex.drop n := by
  unfold getAncestor nHeight
  split
  case isTrue h =>
    have hlen : pindex.length ≤ n := by omega
    exact (drop_eq_nil_of_le hlen).symm
  case isFalse h =>
    congr 1
    omega

end PIndex

namespace BIP9Deployment

variable (d : BIP9Deployment) {cache : ThresholdConditionCache} {pindex : PIndex}

/-- `Condition`: the block has the bit of the deployment set. -/
def condition (block : VersionedBlock) : Bool :=
  BitVec.ofInt 32 block.nVersion &&& (1#32 <<< d.bit) ≠ 0#32

/-- The state after a period that ends with a block. -/
def stateNext (state : ThresholdState) (pindexPrev : PIndex) : ThresholdState :=
  match state with
  | .defined =>
      if pindexPrev.medianTimePast ≥ d.nTimeout then .failed
      else if pindexPrev.medianTimePast ≥ d.nStartTime then .started
      else .defined
  | .started =>
      if pindexPrev.medianTimePast ≥ d.nTimeout then .failed
      else if (pindexPrev.take d.nPeriod).countP d.condition ≥ d.nThreshold then .lockedIn
      else .started
  | .lockedIn => .active
  | .active => .active
  | .failed => .failed

/-- The walk backwards to a block whose state is known, with the blocks on the way; every round
goes back by one period at least. -/
def walkBack : Nat → PIndex → ThresholdConditionCache → List PIndex →
    PIndex × ThresholdConditionCache × List PIndex
  | 0, pindexPrev, cache, vToCompute => (pindexPrev, cache, vToCompute)
  | fuel + 1, pindexPrev, cache, vToCompute =>
      if cache.contains pindexPrev then (pindexPrev, cache, vToCompute)
      else if pindexPrev = [] then ([], cache.assign ([], .defined), vToCompute)
      else if pindexPrev.medianTimePast < d.nStartTime then
        (pindexPrev, cache.assign (pindexPrev, .defined), vToCompute)
      else
        walkBack fuel (pindexPrev.getAncestor (pindexPrev.nHeight - d.nPeriod)) cache
          (pindexPrev :: vToCompute)

/-- The walk forward again, which fills the cache. -/
def walkForward (found : ThresholdState × ThresholdConditionCache) (pindexPrev : PIndex) :
    ThresholdState × ThresholdConditionCache :=
  let next := d.stateNext found.1 pindexPrev
  (next, found.2.assign (pindexPrev, next))

/-- The last block of the period before. -/
def periodEnd (pindexPrev : PIndex) : PIndex :=
  if pindexPrev = [] then []
  else pindexPrev.getAncestor (pindexPrev.nHeight - ((pindexPrev.nHeight + 1) % d.nPeriod))

def getStateFor (pindexPrev : PIndex) (cache : ThresholdConditionCache) :
    ThresholdState × ThresholdConditionCache :=
  let start := d.periodEnd pindexPrev
  let (known, cache, vToCompute) := d.walkBack (start.length + 1) start cache []
  let state := ((cache.find? known).map Prod.snd).getD .defined
  vToCompute.foldl d.walkForward (state, cache)

/-- The state of a block that ends a period, from the one that ends the period before. -/
def stateAtEnd (pindex : PIndex) : ThresholdState :=
  if _h : pindex = [] then .defined
  else if pindex.medianTimePast < d.nStartTime then .defined
  else d.stateNext (stateAtEnd (pindex.drop d.nPeriod)) pindex
termination_by pindex.length
decreasing_by
  have := d.period_pos
  have := length_pos_of_ne_nil _h
  rw [length_drop]
  omega

/-- The state of the deployment for the block that comes after a tip. -/
def stateFor (pindexPrev : PIndex) : ThresholdState := d.stateAtEnd (d.periodEnd pindexPrev)

theorem stateAtEnd_nil : d.stateAtEnd [] = .defined := by
  rw [stateAtEnd]
  simp

theorem stateAtEnd_early (h : pindex.medianTimePast < d.nStartTime) :
    d.stateAtEnd pindex = .defined := by
  rw [stateAtEnd]
  split_ifs
  · rfl
  · rfl

theorem stateAtEnd_late (hne : pindex ≠ []) (h : ¬pindex.medianTimePast < d.nStartTime) :
    d.stateAtEnd pindex = d.stateNext (d.stateAtEnd (pindex.drop d.nPeriod)) pindex := by
  rw [stateAtEnd, dif_neg hne, if_neg h]

/-- Everything in the cache is the state of its block. -/
def CacheTrue (cache : ThresholdConditionCache) : Prop :=
  ∀ item ∈ cache.items, item.2 = d.stateAtEnd item.1

variable {d}

theorem cacheTrue_empty : d.CacheTrue .empty := fun _ h => absurd h not_mem_nil

theorem CacheTrue.assign (h : d.CacheTrue cache) {item : PIndex × ThresholdState}
    (hitem : item.2 = d.stateAtEnd item.1) : d.CacheTrue (cache.assign item) := by
  intro found hfound
  rcases KeyedSet.mem_assign hfound with rfl | hold
  · exact hitem
  · exact h found hold

theorem CacheTrue.find? (h : d.CacheTrue cache) (hknown : cache.contains pindex = true) :
    ((cache.find? pindex).map Prod.snd).getD .defined = d.stateAtEnd pindex := by
  obtain ⟨item, hitem⟩ := Option.isSome_iff_exists.mp hknown
  rw [hitem, Option.map_some, Option.getD_some, h item (KeyedSet.mem_of_find? hitem),
    KeyedSet.key_of_find? hitem]

/-- The blocks of the walk, each one period after the one before it. -/
def Ascending (d : BIP9Deployment) (known : PIndex) : List PIndex → Prop
  | [] => True
  | pindex :: later =>
      pindex.drop d.nPeriod = known ∧ pindex ≠ [] ∧ ¬pindex.medianTimePast < d.nStartTime ∧
        Ascending d pindex later

/-- The walk ends at a block whose state is in the cache, and lists the blocks after it. -/
theorem walkBack_spec {fuel : Nat} {later : List PIndex} (hfuel : pindex.length < fuel)
    (hcache : d.CacheTrue cache) (hlater : d.Ascending pindex later) :
    ∃ known cache' steps, d.walkBack fuel pindex cache later = (known, cache', steps) ∧
      d.CacheTrue cache' ∧ cache'.contains known = true ∧ d.Ascending known steps ∧
      steps.getLastD known = later.getLastD pindex := by
  induction fuel generalizing pindex later with
  | zero => omega
  | succ fuel ih =>
    rw [walkBack]
    split_ifs with hknown hnil hearly
    · exact ⟨pindex, cache, later, rfl, hcache, hknown, hlater, rfl⟩
    · subst hnil
      exact ⟨[], _, later, rfl, hcache.assign d.stateAtEnd_nil.symm,
        by simp [KeyedSet.contains_assign], hlater, rfl⟩
    · exact ⟨pindex, _, later, rfl, hcache.assign (d.stateAtEnd_early hearly).symm,
        by simp [KeyedSet.contains_assign], hlater, rfl⟩
    · have hpos := d.period_pos
      have hlen := length_pos_of_ne_nil hnil
      rw [PIndex.getAncestor_sub]
      have hshort : (pindex.drop d.nPeriod).length < fuel := by
        rw [length_drop]
        omega
      have hsteps : d.Ascending (pindex.drop d.nPeriod) (pindex :: later) :=
        ⟨rfl, hnil, hearly, hlater⟩
      obtain ⟨known, cache', steps, heq, htrue, hknown', hasc, hlast⟩ := ih hshort hsteps
      refine ⟨known, cache', steps, heq, htrue, hknown', hasc, ?_⟩
      rw [hlast, getLastD_cons]

theorem foldl_walkForward_spec {known : PIndex} {steps : List PIndex}
    (hsteps : d.Ascending known steps) (hcache : d.CacheTrue cache) :
    (steps.foldl d.walkForward (d.stateAtEnd known, cache)).1 =
        d.stateAtEnd (steps.getLastD known) ∧
      d.CacheTrue (steps.foldl d.walkForward (d.stateAtEnd known, cache)).2 := by
  induction steps generalizing known cache with
  | nil => exact ⟨rfl, hcache⟩
  | cons pindex later ih =>
    obtain ⟨hdrop, hne, hlate, hlater⟩ := hsteps
    have hstate : d.stateNext (d.stateAtEnd known) pindex = d.stateAtEnd pindex := by
      rw [d.stateAtEnd_late hne hlate, hdrop]
    have hwalk : d.walkForward (d.stateAtEnd known, cache) pindex =
        (d.stateAtEnd pindex, cache.assign (pindex, d.stateAtEnd pindex)) := by
      rw [walkForward, hstate]
    rw [foldl_cons, hwalk, getLastD_cons]
    exact ih hlater (hcache.assign rfl)

/-- Whatever the cache has from earlier tips, the state is that of the chain alone. -/
theorem getStateFor_spec (hcache : d.CacheTrue cache) (pindexPrev : PIndex) :
    (d.getStateFor pindexPrev cache).1 = d.stateFor pindexPrev ∧
      d.CacheTrue (d.getStateFor pindexPrev cache).2 := by
  obtain ⟨known, cache', steps, heq, hcache', hknown, hsteps, hlast⟩ :=
    walkBack_spec (Nat.lt_succ_self (d.periodEnd pindexPrev).length) hcache
      (show d.Ascending (d.periodEnd pindexPrev) [] from trivial)
  have hforward := foldl_walkForward_spec hsteps hcache'
  rw [hlast] at hforward
  simp only [getStateFor, heq, hcache'.find? hknown]
  exact hforward

end BIP9Deployment

inductive DeploymentPos
  | assets
  | msgRestAssets
  | transferScriptSize
  | enforceValue
  | coinbaseAssets
  deriving DecidableEq, Repr

/-- The deployments of a network, and whether it is the test network. -/
structure DeploymentParams where
  vDeployments : DeploymentPos → BIP9Deployment
  isTestNet : Bool

/-- What a process remembers: the flag of each deployment (`fAssetsIsActive`, `fRip5IsActive`,
`fTransferScriptIsActive`, `fEnforcedValuesIsActive`, `fCheckCoinbaseAssetsIsActive`) and
`versionbitscache`. -/
structure SwitchMemory where
  isActive : DeploymentPos → Bool := fun _ => false
  caches : DeploymentPos → ThresholdConditionCache := fun _ => .empty

namespace SwitchMemory

variable (params : DeploymentParams)

/-- `VersionBitsTipState`. -/
def tipState (pos : DeploymentPos) (tip : PIndex)
    (memory : SwitchMemory) : ThresholdState × SwitchMemory :=
  let (state, cache) := (params.vDeployments pos).getStateFor tip (memory.caches pos)
  (state, { memory with caches := Function.update memory.caches pos cache })

def setActive (memory : SwitchMemory) (pos : DeploymentPos) : SwitchMemory :=
  { memory with isActive := Function.update memory.isActive pos true }

/-- A flag that is set answers at once; otherwise the tip is asked, and the flag set if it is. -/
def ask (pos : DeploymentPos) (activates : ThresholdState → Bool)
    (tip : PIndex) (memory : SwitchMemory) : Bool × SwitchMemory :=
  if memory.isActive pos then (true, memory)
  else
    let (state, memory) := tipState params pos tip memory
    if activates state then (true, memory.setActive pos) else (false, memory)

def areEnforcedValuesDeployed : PIndex → SwitchMemory →
    Bool × SwitchMemory :=
  ask params .enforceValue fun state => state = .active || state = .lockedIn

def areCoinbaseCheckAssetsDeployed : PIndex → SwitchMemory →
    Bool × SwitchMemory :=
  ask params .coinbaseAssets fun state => state = .active

/-- On the test network a deployment that is locked in is enough, without being remembered. -/
def areAssetsDeployed (tip : PIndex) (memory : SwitchMemory) : Bool × SwitchMemory :=
  if memory.isActive .assets then (true, memory)
  else
    let (state, memory) := tipState params .assets tip memory
    if state = .active then (true, memory.setActive .assets)
    else if params.isTestNet && state = .lockedIn then (true, memory)
    else (false, memory)

def isRip5Active : PIndex → SwitchMemory → Bool × SwitchMemory :=
  ask params .msgRestAssets fun state => state = .active

def areMessagesDeployed := isRip5Active

def areTransferScriptsSizeDeployed : PIndex → SwitchMemory →
    Bool × SwitchMemory :=
  ask params .transferScriptSize fun state => state = .active

def areRestrictedAssetsDeployed := isRip5Active

end SwitchMemory

inductive Switch
  | enforcedValues
  | coinbaseCheckAssets
  | assets
  | messages
  | transferScriptsSize
  | restrictedAssets
  deriving DecidableEq, Repr

open Switch

namespace Switch

open SwitchMemory

def ask (params : DeploymentParams) : Switch → PIndex → SwitchMemory → Bool × SwitchMemory
  | .enforcedValues => areEnforcedValuesDeployed params
  | .coinbaseCheckAssets => areCoinbaseCheckAssetsDeployed params
  | .assets => areAssetsDeployed params
  | .messages => areMessagesDeployed params
  | .transferScriptsSize => areTransferScriptsSizeDeployed params
  | .restrictedAssets => areRestrictedAssetsDeployed params

def pos : Switch → DeploymentPos
  | .enforcedValues => .enforceValue
  | .coinbaseCheckAssets => .coinbaseAssets
  | .assets => .assets
  | .messages => .msgRestAssets
  | .transferScriptsSize => .transferScriptSize
  | .restrictedAssets => .msgRestAssets

/-- The states that set the flag of a switch. -/
def activates (sw : Switch) (state : ThresholdState) : Bool :=
  state = .active || (sw = .enforcedValues && state = .lockedIn)

/-- The states in which a switch is on: on the test network, assets also where they are locked
in. -/
def isOn (params : DeploymentParams) (sw : Switch) (state : ThresholdState) : Bool :=
  sw.activates state || (sw = .assets && params.isTestNet && state = .lockedIn)

end Switch

/-- The state of a deployment for the block after a tip. -/
def DeploymentParams.stateFor (params : DeploymentParams) (pos : DeploymentPos) (tip : PIndex) :
    ThresholdState := (params.vDeployments pos).stateFor tip

namespace SwitchMemory

/-- The caches hold nothing but true states. -/
def CachesTrue (params : DeploymentParams) (memory : SwitchMemory) : Prop :=
  ∀ pos, (params.vDeployments pos).CacheTrue (memory.caches pos)

variable {params : DeploymentParams} {memory : SwitchMemory}

theorem tipState_spec (h : memory.CachesTrue params) (pos : DeploymentPos) (tip : PIndex) :
    ∃ memory', tipState params pos tip memory = (params.stateFor pos tip, memory') ∧
      memory'.CachesTrue params ∧ memory'.isActive = memory.isActive := by
  obtain ⟨hstate, hcache⟩ := BIP9Deployment.getStateFor_spec (h pos) tip
  refine ⟨_, Prod.ext hstate rfl, fun pos' => ?_, rfl⟩
  by_cases hpos : pos' = pos
  · subst hpos
    simpa [tipState] using hcache
  · simpa [tipState, hpos] using h pos'

/-- What asking a switch answers, and what it leaves in memory. -/
structure Answers (params : DeploymentParams) (sw : Switch) (tip : PIndex) (memory : SwitchMemory)
    (result : Bool × SwitchMemory) : Prop where
  answer : result.1 = (memory.isActive sw.pos || sw.isOn params (params.stateFor sw.pos tip))
  active : ∀ pos, result.2.isActive pos =
    (memory.isActive pos || (pos = sw.pos && sw.activates (params.stateFor sw.pos tip)))
  caches : result.2.CachesTrue params

theorem ask_answers {sw : Switch} {tip : PIndex} (h : memory.CachesTrue params)
    (hon : ∀ state, sw.isOn params state = sw.activates state) :
    Answers params sw tip memory (ask params sw.pos sw.activates tip memory) := by
  unfold ask
  split
  case isTrue hactive =>
    refine ⟨by simp [hactive], fun pos => ?_, h⟩
    by_cases hpos : pos = sw.pos <;> simp [hpos, hactive]
  case isFalse hactive =>
    obtain ⟨memory', heq, hcaches, hsame⟩ := tipState_spec h sw.pos tip
    simp only [heq]
    split
    case isTrue hon' =>
      refine ⟨by simp [hon, hon'], fun pos => ?_, hcaches⟩
      by_cases hpos : pos = sw.pos <;> simp [setActive, hpos, hon', hsame]
    case isFalse hoff =>
      have hoff := Bool.eq_false_iff.mpr hoff
      exact ⟨by simp [hon, hoff, Bool.eq_false_iff.mpr hactive], fun pos => by simp [hoff, hsame],
        hcaches⟩

theorem areAssetsDeployed_answers {tip : PIndex} (h : memory.CachesTrue params) :
    Answers params .assets tip memory (areAssetsDeployed params tip memory) := by
  unfold areAssetsDeployed
  split
  case isTrue hactive =>
    refine ⟨by simp [Switch.pos, hactive], fun pos => ?_, h⟩
    by_cases hpos : pos = .assets <;> simp [Switch.pos, hpos, hactive]
  case isFalse hactive =>
    obtain ⟨memory', heq, hcaches, hsame⟩ := tipState_spec h .assets tip
    simp only [heq]
    split_ifs with hstate htest
    · refine ⟨by simp [Switch.isOn, Switch.activates, Switch.pos, hstate], fun pos => ?_, hcaches⟩
      by_cases hpos : pos = .assets <;>
        simp [Switch.activates, Switch.pos, setActive, hpos, hstate, hsame]
    · refine ⟨?_, fun pos => ?_, hcaches⟩
      · simp only [Bool.and_eq_true, decide_eq_true_eq] at htest
        simp [Switch.isOn, Switch.activates, Switch.pos, htest]
      · simp [Switch.activates, Switch.pos, hstate, hsame]
    · refine ⟨?_, fun pos => ?_, hcaches⟩
      · rw [Bool.and_eq_true, decide_eq_true_eq] at htest
        cases htn : params.isTestNet with
        | false => simp [isOn, activates, pos, hstate, hactive, htn]
        | true =>
          have hopen : params.stateFor .assets tip ≠ .lockedIn := fun hlocked => htest ⟨htn, hlocked⟩
          simp [Switch.isOn, Switch.activates, Switch.pos, hstate, hactive, hopen]
      · simp [Switch.activates, Switch.pos, hstate, hsame]

end SwitchMemory

namespace Switch

variable {params : DeploymentParams}

/-- All switches but the one for assets are one function. -/
theorem ask_eq {sw : Switch} (h : sw ≠ .assets) :
    sw.ask params = SwitchMemory.ask params sw.pos sw.activates := by
  have hplain : ∀ sw : Switch, sw ≠ .enforcedValues →
      sw.activates = fun state => decide (state = .active) := by
    intro sw hsw
    funext state
    simp [activates, hsw]
  have henforced : activates .enforcedValues =
      fun state => decide (state = .active) || decide (state = .lockedIn) := by
    funext state
    simp [activates]
  cases sw with
  | assets => exact absurd rfl h
  | enforcedValues => rw [henforced]; rfl
  | coinbaseCheckAssets => rw [hplain _ (by simp)]; rfl
  | messages => rw [hplain _ (by simp)]; rfl
  | restrictedAssets => rw [hplain _ (by simp)]; rfl
  | transferScriptsSize => rw [hplain _ (by simp)]; rfl

theorem ask_answers {memory : SwitchMemory} (sw : Switch) (tip : PIndex)
    (h : memory.CachesTrue params) :
    SwitchMemory.Answers params sw tip memory (sw.ask params tip memory) := by
  by_cases hsw : sw = .assets
  · subst hsw
    exact SwitchMemory.areAssetsDeployed_answers h
  · rw [ask_eq hsw]
    exact SwitchMemory.ask_answers h fun state => by simp [isOn, hsw]

end Switch

/-- Blocks come and go at the tip, and switches are asked. -/
inductive TipEvent
  | connect (block : VersionedBlock)
  | disconnect
  | ask (sw : Switch)

/-- The tip of the active chain and what the process remembers. -/
structure SwitchNode where
  tip : PIndex := []
  memory : SwitchMemory := {}

open SwitchNode

namespace SwitchNode

variable (params : DeploymentParams)

def step (n : SwitchNode) : TipEvent → SwitchNode
  | .connect block => { n with tip := block :: n.tip }
  | .disconnect => { n with tip := n.tip.tail }
  | .ask sw => { n with memory := (sw.ask params n.tip n.memory).2 }

def run (n : SwitchNode) (history : List TipEvent) : SwitchNode := history.foldl (step params) n

/-- The switches that are asked in a history, with the tips they are asked at. -/
def asks (tip : PIndex) : List TipEvent → List (Switch × PIndex)
  | [] => []
  | .connect block :: later => asks (block :: tip) later
  | .disconnect :: later => asks tip.tail later
  | .ask sw :: later => (sw, tip) :: asks tip later

/-- A deployment was found active. -/
def FoundActive (pos : DeploymentPos) (asked : List (Switch × PIndex)) : Prop :=
  ∃ item ∈ asked, item.1.pos = pos ∧ item.1.activates (params.stateFor pos item.2) = true

variable {params}

/-- A run remembers what it remembered, and every deployment that it found active. -/
theorem run_memory (n : SwitchNode) (h : n.memory.CachesTrue params) (history : List TipEvent) :
    (n.run params history).memory.CachesTrue params ∧
      ∀ pos, (n.run params history).memory.isActive pos = true ↔
        n.memory.isActive pos = true ∨ FoundActive params pos (asks n.tip history) := by
  induction history generalizing n with
  | nil => exact ⟨h, fun pos => by simp [run, asks, FoundActive]⟩
  | cons event later ih =>
    cases event with
    | connect block => exact ih { n with tip := block :: n.tip } h
    | disconnect => exact ih { n with tip := n.tip.tail } h
    | ask sw =>
      have hask := sw.ask_answers n.tip h
      obtain ⟨hcaches, hactive⟩ :=
        ih { n with memory := (sw.ask params n.tip n.memory).2 } hask.caches
      refine ⟨hcaches, fun pos => (hactive pos).trans ?_⟩
      have hfound : FoundActive params pos (asks n.tip (.ask sw :: later)) ↔
          (pos = sw.pos ∧ sw.activates (params.stateFor sw.pos n.tip) = true) ∨
            FoundActive params pos (asks n.tip later) := by
        simp only [FoundActive, asks, exists_mem_cons_iff]
        refine or_congr_left ⟨?_, ?_⟩
        · rintro ⟨rfl, hstate⟩
          exact ⟨rfl, hstate⟩
        · rintro ⟨rfl, hstate⟩
          exact ⟨rfl, hstate⟩
      rw [hask.active, hfound, Bool.or_eq_true, Bool.and_eq_true, decide_eq_true_eq, or_assoc]

theorem cachesTrue_fresh : ({} : SwitchMemory).CachesTrue params :=
  fun _ => BIP9Deployment.cacheTrue_empty

end SwitchNode

/-- After every history a switch answers as it does in a process that was just started at the same
tip, exactly when it is on at this tip or was never found active before. -/
theorem switch_as_fresh_iff (params : DeploymentParams) (history : List TipEvent) (sw : Switch) :
    (sw.ask params (run params {} history).tip
        (run params {} history).memory).1 =
      (sw.ask params (run params {} history).tip {}).1 ↔
    (SwitchNode.FoundActive params sw.pos (asks [] history) →
      sw.isOn params (params.stateFor sw.pos (run params {} history).tip) = true) := by
  have hfresh : ({} : SwitchMemory).CachesTrue params := cachesTrue_fresh
  obtain ⟨hcaches, hactive⟩ := run_memory {} hfresh history
  have hfound := hactive sw.pos
  rw [(sw.ask_answers _ hcaches).answer, (sw.ask_answers _ hfresh).answer]
  simp only [Bool.false_eq_true, false_or] at hfound
  rw [← hfound]
  cases (run params {} history).memory.isActive sw.pos <;>
    cases sw.isOn params (params.stateFor sw.pos (run params {} history).tip) <;> simp

/-- One block a period, and one signal is enough. -/
def quickParams : DeploymentParams where
  vDeployments _ := ⟨5, 0, 1000, 1, 1, Nat.one_pos⟩
  isTestNet := false

/-- A block that signals. -/
def signalBlock (hash : Nat) : VersionedBlock := ⟨hash, 32, 1⟩

/-- Three blocks take the deployment from defined to active; the third is disconnected again. -/
def reorgHistory : List TipEvent :=
  [.connect (signalBlock 1), .connect (signalBlock 2), .connect (signalBlock 3), .ask .assets,
   .disconnect]

theorem reorg_keeps_assets :
    (assets.ask quickParams (run quickParams {} reorgHistory).tip
        (run quickParams {} reorgHistory).memory).1 = true ∧
      (assets.ask quickParams (run quickParams {} reorgHistory).tip {}).1 =
        false := by
  decide +kernel

end HnbCore
