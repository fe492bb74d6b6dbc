import HnbCore.FreezeHistory
import HnbCore.MempoolAccept

/-!
# What the pool's asset maps say

The maps of asset transactions change at two places: where an entry is removed, and where the
worker has taken a transaction in.
-/

namespace HnbCore

open List Option TwoWay CTxMemPool

variable {pool : CTxMemPool} {tx : CTransaction}

namespace AssetMaps

/-- A map mentions the hash. -/
@[mk_iff]
inductive Mentions (maps : AssetMaps) (hash : UInt256) : Prop
  | assetToHash (name : Bytes) (h : maps.mapAssetToHash.find? name = some (name, hash))
  | hashToAsset (h : maps.mapHashToAsset.contains hash = true)
  | addressesMarkedFrozen (h : maps.mapAddressesMarkedFrozen.Mentions hash)
  | assetMarkedGlobalFrozen (h : maps.mapAssetMarkedGlobalFrozen.Mentions hash)
  | addressesQualifiersChanged (h : maps.mapAddressesQualifiersChanged.Mentions hash)
  | assetVerifierChanged (h : maps.mapAssetVerifierChanged.Mentions hash)
  | globalFreezing (h : maps.mapGlobalFreezingAssetTransactions.Mentions hash)
  | globalUnFreezing (h : maps.mapGlobalUnFreezingAssetTransactions.Mentions hash)
  | addressAddedTag (h : maps.mapAddressAddedTag.Mentions hash)
  | addressRemoveTag (h : maps.mapAddressRemoveTag.Mentions hash)
  | reissuedAssets (name : Bytes) (h : maps.mapReissuedAssets.find? name = some (name, hash))
  | reissuedTx (h : maps.mapReissuedTx.contains hash = true)

theorem find?_of_erase {κ ν : Type} [DecidableEq κ] {m : KeyedMap κ ν} {k k' : κ} {item : κ × ν}
    (h : (m.erase k).find? k' = some item) : m.find? k' = some item := by
  rw [KeyedSet.find?_erase] at h
  split at h
  · cases h
  · exact h

theorem contains_of_erase {κ ν : Type} [DecidableEq κ] {m : KeyedMap κ ν} {k k' : κ}
    (h : (m.erase k).contains k' = true) : m.contains k' = true := by
  rw [KeyedSet.contains_erase] at h
  exact (Bool.and_eq_true_iff.mp h).2

variable {maps : AssetMaps} {hash hash' : UInt256}

theorem mentions_of_removeReissue (hash : UInt256) (h : (maps.removeReissue hash).Mentions hash') :
    maps.Mentions hash' := by
  unfold removeReissue at h
  split at h
  · split at h
    · simp only [mentions_iff] at h ⊢
      grind [find?_of_erase, contains_of_erase]
    · exact h
  · exact h

theorem mentions_of_removeIssue (hash : UInt256) (h : (maps.removeIssue hash).Mentions hash') :
    maps.Mentions hash' := by
  unfold removeIssue at h
  split at h
  · simp only [mentions_iff] at h ⊢
    grind [find?_of_erase, contains_of_erase]
  · exact h

theorem mentions_of_removeUnchecked (h : (maps.removeUnchecked hash).Mentions hash') :
    maps.Mentions hash' := by
  apply mentions_of_removeReissue hash
  apply mentions_of_removeIssue hash
  cases h with
  | assetToHash name h => exact .assetToHash name h
  | hashToAsset h => exact .hashToAsset h
  | addressesMarkedFrozen h => exact .addressesMarkedFrozen ((unlinkKeeping_leaves _ _).mentions h)
  | assetMarkedGlobalFrozen h =>
    exact .assetMarkedGlobalFrozen ((unlinkKeeping_leaves _ _).mentions h)
  | addressesQualifiersChanged h =>
    exact .addressesQualifiersChanged ((unlinkKeeping_leaves _ _).mentions h)
  | assetVerifierChanged h => exact .assetVerifierChanged ((unlinkKeeping_leaves _ _).mentions h)
  | globalFreezing h => exact .globalFreezing ((unlinkDropping_leaves _ _).mentions h)
  | globalUnFreezing h => exact .globalUnFreezing ((unlinkDropping_leaves _ _).mentions h)
  | addressAddedTag h => exact .addressAddedTag (mentions_of_unlinkForward h)
  | addressRemoveTag h => exact .addressRemoveTag (mentions_of_unlinkForward h)
  | reissuedAssets name h => exact .reissuedAssets name h
  | reissuedTx h => exact .reissuedTx h

end AssetMaps

namespace CTxMemPool

/-- The pool knows the hash: it has the entry, or a map mentions it. -/
def Knows (pool : CTxMemPool) (hash : UInt256) : Prop :=
  pool.exists? hash = true ∨ pool.toAssetMaps.Mentions hash

theorem toAssetMaps_removeUnchecked (pool : CTxMemPool) (hash : UInt256) :
    (pool.removeUnchecked hash).toAssetMaps =
      if pool.exists? hash then pool.toAssetMaps.removeUnchecked hash else pool.toAssetMaps := by
  unfold removeUnchecked exists? KeyedSet.contains
  cases pool.mapTx.find? hash <;> rfl

theorem unmentioned_removalInvariant (hash : UInt256) :
    RemovalInvariant fun pool => ¬pool.toAssetMaps.Mentions hash := by
  constructor
  · intro pool pool' hsame h
    rw [hsame.maps]
    exact h
  · intro pool removed h
    rw [toAssetMaps_removeUnchecked]
    split
    · exact fun hm => h (AssetMaps.mentions_of_removeUnchecked hm)
    · exact h

end CTxMemPool

inductive OnceChange
  | globalFreeze (name : Bytes)
  | globalUnFreeze (name : Bytes)
  | addTag (address name : Bytes)
  | removeTag (address name : Bytes)
  deriving DecidableEq, Repr

/-- The change an output makes of which the pool takes one at a time. -/
def CTxOut.onceChange (env : Env) (out : CTxOut) : Option OnceChange :=
  if out.scriptPubKey.isAssetScript.isSome then none
  else if out.scriptPubKey.isNullGlobalRestrictionAssetTxDataScript then
    (globalAssetNullDataFromScript out.scriptPubKey).bind fun data =>
      if data.flag = 1 then some (.globalFreeze data.assetName)
      else if data.flag = 0 then some (.globalUnFreeze data.assetName)
      else none
  else if out.scriptPubKey.isNullAssetTxDataScript then
    (assetNullDataFromScript env out.scriptPubKey).bind fun (data, address) =>
      if isAssetNameAQualifier data.assetName false then
        if data.flag = 1 then some (.addTag address data.assetName)
        else some (.removeTag address data.assetName)
      else none
  else none

namespace AssetMaps

/-- The change is pending. -/
def Pending (maps : AssetMaps) : OnceChange → Prop
  | .globalFreeze name => maps.mapGlobalFreezingAssetTransactions.forward.contains name = true
  | .globalUnFreeze name => maps.mapGlobalUnFreezingAssetTransactions.forward.contains name = true
  | .addTag address name => maps.mapAddressAddedTag.forward.contains (address, name) = true
  | .removeTag address name => maps.mapAddressRemoveTag.forward.contains (address, name) = true

variable {env : Env} {maps maps' : AssetMaps} {hash : UInt256}

/-- What one output does to the pending changes: it is refused when its change is pending, and
makes it pending otherwise. -/
def Takes (maps : AssetMaps) (change : Option OnceChange) (result : Check AssetMaps) : Prop :=
  (∃ c reason, change = some c ∧ maps.Pending c ∧ result = .error reason) ∨
    ∃ maps', result = .ok maps' ∧ (∀ c, change = some c → ¬maps.Pending c) ∧
      ∀ c, maps'.Pending c ↔ maps.Pending c ∨ change = some c

theorem takes_nothing (hpending : ∀ c, maps'.Pending c ↔ maps.Pending c) :
    maps.Takes none (.ok maps') := by
  refine .inr ⟨maps', rfl, ?_, ?_⟩
  · intro c hc
    cases hc
  · intro c
    simp [hpending c]

theorem trackAsset_takes (data : CAssetOutputEntry) :
    maps.Takes none (.ok (maps.trackAsset env hash data)) := by
  apply takes_nothing
  intro c
  unfold trackAsset trackIssue
  cases c <;> dsimp only [Pending] <;> split <;> split <;> rfl

/-- A change that may be pending once only, as `trackOnce` takes it in. -/
theorem takes_once {κ : Type} [DecidableEq κ] {m : TwoWay κ UInt256} {k : κ} {reason : String}
    {put : TwoWay κ UInt256 → AssetMaps} {change : OnceChange}
    (hpending : maps.Pending change ↔ m.forward.contains k = true)
    (hput : ∀ c, (put (m.link k hash)).Pending c ↔ maps.Pending c ∨ change = c) :
    maps.Takes (some change) (trackOnce m k hash reason >>= fun m => pure (put m)) := by
  unfold trackOnce
  by_cases hc : m.forward.contains k = true
  · rw [if_pos hc]
    exact .inl ⟨_, _, rfl, hpending.mpr hc, rfl⟩
  · rw [if_neg hc]
    refine .inr ⟨_, rfl, ?_, ?_⟩
    · rintro c ⟨⟩
      exact fun hp => hc (hpending.mp hp)
    · intro c
      rw [hput, some.injEq]

theorem trackGlobal_takes (data : CNullAssetTxData) :
    maps.Takes (if data.flag = 1 then some (.globalFreeze data.assetName)
      else if data.flag = 0 then some (.globalUnFreeze data.assetName) else none)
      (maps.trackGlobal hash data) := by
  unfold trackGlobal
  split
  · apply takes_once Iff.rfl
    intro c
    cases c <;> simp [Pending, forward_link, or_comm]
  · split
    · apply takes_once Iff.rfl
      intro c
      cases c <;> simp [Pending, forward_link, or_comm]
    · exact takes_nothing fun _ => Iff.rfl

theorem trackTag_takes (data : CNullAssetTxData) (address : Bytes) :
    maps.Takes (if isAssetNameAQualifier data.assetName false then
        if data.flag = 1 then some (.addTag address data.assetName)
        else some (.removeTag address data.assetName)
      else none) (maps.trackTag hash data address) := by
  unfold trackTag
  split
  · split
    · apply takes_once Iff.rfl
      intro c
      cases c <;> simp [Pending, forward_link, or_comm]
    · apply takes_once Iff.rfl
      intro c
      cases c <;> simp [Pending, forward_link, or_comm]
  · exact takes_nothing fun _ => Iff.rfl

theorem trackOutput_takes (env : Env) (hash : UInt256) (maps : AssetMaps) (out : CTxOut) :
    maps.Takes (out.onceChange env) (maps.trackOutput env hash out) := by
  unfold CTxOut.onceChange trackOutput
  split
  · cases getAssetData env out.scriptPubKey with
    | none => exact takes_nothing fun _ => Iff.rfl
    | some data => exact trackAsset_takes data
  · split
    · cases globalAssetNullDataFromScript out.scriptPubKey with
      | none => exact takes_nothing fun _ => Iff.rfl
      | some data => exact trackGlobal_takes data
    · split
      · cases assetNullDataFromScript env out.scriptPubKey with
        | none => exact takes_nothing fun _ => Iff.rfl
        | some found => exact trackTag_takes found.1 found.2
      · exact takes_nothing fun _ => Iff.rfl

/-- The loop over the outputs goes through exactly when no change is pending or made twice. -/
theorem trackOutputs_eq_none (vout : List CTxOut) :
    (trackOutputs env hash maps vout).2 = none ↔
      (vout.filterMap (CTxOut.onceChange env)).Nodup ∧
        ∀ c ∈ vout.filterMap (CTxOut.onceChange env), ¬maps.Pending c := by
  induction vout generalizing maps with
  | nil => simp [trackOutputs]
  | cons out vout ih =>
    rcases trackOutput_takes env hash maps out with
      ⟨c, reason, hchange, hpending, hresult⟩ | ⟨maps', hresult, hfree, hpending⟩
    · rw [trackOutputs, hresult, filterMap_cons_some hchange]
      constructor
      · intro h
        cases h
      · intro h
        exact absurd hpending (h.2 c mem_cons_self)
    · rw [trackOutputs, hresult]
      refine (@ih maps').trans ?_
      simp only [hpending]
      cases hchange : out.onceChange env with
      | none => simp [filterMap_cons_none hchange]
      | some c =>
        have hnot := hfree c hchange
        rw [filterMap_cons_some hchange, nodup_cons]
        constructor
        · rintro ⟨hnodup, hall⟩
          refine ⟨⟨fun hmem => hall c hmem (.inr rfl), hnodup⟩, ?_⟩
          intro c' hc'
          rcases mem_cons.mp hc' with rfl | hc'
          · exact hnot
          · exact fun hp => hall c' hc' (.inl hp)
        · rintro ⟨⟨hnew, hnodup⟩, hall⟩
          refine ⟨hnodup, ?_⟩
          rintro c' hc' (hp | heq)
          · exact hall c' (mem_cons_of_mem c hc') hp
          · cases heq
            exact hnew hc'

theorem pending_trackReissues (pairs : List (Bytes × UInt256)) (c : OnceChange) :
    (maps.trackReissues pairs).Pending c ↔ maps.Pending c := by
  unfold trackReissues
  induction pairs generalizing maps with
  | nil => exact Iff.rfl
  | cons pair pairs ih =>
    rw [foldl_cons, ih]
    cases c <;> exact Iff.rfl

/-- The maps take a transaction whose changes are neither pending nor made twice. -/
def Free (env : Env) (maps : AssetMaps) (tx : CTransaction) : Prop :=
  env.deployments.areAssetsDeployed = true →
    (tx.vout.filterMap (CTxOut.onceChange env)).Nodup ∧
      ∀ c ∈ tx.vout.filterMap (CTxOut.onceChange env), ¬maps.Pending c

theorem track_eq_none (env : Env) (maps : AssetMaps) (coins : Coins) (tx : CTransaction)
    (pairs : List (Bytes × UInt256)) :
    (maps.track env coins tx pairs).2 = none ↔ maps.Free env tx := by
  unfold Free
  simp only [track]
  have hthen : ∀ tracked : AssetMaps × Option Reject,
      (thenInputs env coins tx tracked).2 = tracked.2 := by
    rintro ⟨maps, (_ | reason)⟩ <;> rfl
  rw [hthen]
  by_cases hdeployed : env.deployments.areAssetsDeployed = true
  · rw [if_pos hdeployed, trackOutputs_eq_none]
    simp only [pending_trackReissues, hdeployed, forall_const]
  · simp [hdeployed]

theorem pending_of_removeUnchecked {c : OnceChange} (h : (maps.removeUnchecked hash).Pending c) :
    maps.Pending c := by
  have hsame : ((maps.removeReissue hash).removeIssue hash).Pending c ↔ maps.Pending c := by
    unfold removeReissue removeIssue
    cases c <;> dsimp only [Pending] <;> split <;> split <;> (try split) <;> rfl
  rw [← hsame]
  cases c with
  | globalFreeze name => exact forward_of_unlinkDropping h
  | globalUnFreeze name => exact forward_of_unlinkDropping h
  | addTag address name => exact forward_of_unlinkForward h
  | removeTag address name => exact forward_of_unlinkForward h

end AssetMaps

namespace CTxMemPool

variable {rules : AcceptRules}

theorem notPending_removalInvariant (c : OnceChange) :
    RemovalInvariant fun pool => ¬pool.toAssetMaps.Pending c := by
  constructor
  · intro pool pool' hsame h
    rw [hsame.maps]
    exact h
  · intro pool removed h
    rw [toAssetMaps_removeUnchecked]
    split
    · exact fun hp => h (AssetMaps.pending_of_removeUnchecked hp)
    · exact h

theorem findConflicts_eq_nil (h : ∀ txin ∈ tx.vin, pool.mapNextTx.contains txin.prevout = false) :
    pool.findConflicts rules tx = .ok [] := by
  unfold findConflicts
  revert h
  induction tx.vin with
  | nil => exact fun _ => rfl
  | cons txin vin ih =>
    intro h
    have hnone := h txin mem_cons_self
    rw [KeyedSet.contains, isSome_eq_false_iff, isNone_iff_eq_none] at hnone
    rw [foldlM_cons, hnone]
    exact ih fun txin' hin => h txin' (mem_cons_of_mem txin hin)

/-- The pool without the entries that the transaction replaces. -/
def withoutReplaced (pool : CTxMemPool) (rules : AcceptRules) (tx : CTransaction) : CTxMemPool :=
  match pool.findConflicts rules tx with
  | .ok setConflicts => pool.removeStaged (pool.calculateAllDescendants setConflicts) false
  | .error _ => pool

/-- Once a transaction is taken in, the maps are those without what it replaces, or what trimming
leaves of them. -/
theorem pending_store {accepted : AcceptedTx}
    (h : pool.findConflicts rules tx = .ok accepted.setConflicts) :
    (∀ c, (pool.store rules accepted).toAssetMaps.Pending c →
      (pool.withoutReplaced rules tx).toAssetMaps.Pending c) ∧
    (rules.bypassLimits = true →
      (pool.store rules accepted).toAssetMaps = (pool.withoutReplaced rules tx).toAssetMaps) := by
  simp only [store, withoutReplaced, h]
  generalize pool.removeStaged _ _ = rest
  generalize pool.ancestorsFrom _ = setAncestors
  have hmaps : (rest.addUnchecked accepted.entry setAncestors).toAssetMaps = rest.toAssetMaps :=
    (addUnchecked_same _ _ _).maps
  split
  · rw [hmaps]
    exact ⟨fun _ hc => hc, fun _ => rfl⟩
  · next hlimited =>
    refine ⟨fun c => ?_, fun hbypass => absurd hbypass hlimited⟩
    contrapose
    rw [← hmaps]
    exact fun hfree => (notPending_removalInvariant c).limitMempoolSize hfree rules.limits

end CTxMemPool

/-- If the worker returns false the pool does not know the transaction. -/
def AllOrNothing (env : Env) (rules : AcceptRules) (nSpendHeight : Int) (coins : Coins)
    (s : AssetState) (pool : CTxMemPool) (tx : CTransaction) : Prop :=
  ∀ pool' reason, acceptToMemoryPoolWorker env rules nSpendHeight coins s pool tx =
    (pool', some reason) → ¬pool'.Knows tx.hash

/-- The worker fills the maps: the transaction has passed the checks and is in the pool that has
taken it in. -/
def ReachesMaps (env : Env) (rules : AcceptRules) (nSpendHeight : Int) (coins : Coins)
    (s : AssetState) (pool : CTxMemPool) (tx : CTransaction) (pool' : CTxMemPool) : Prop :=
  rules.testAccept = false ∧ pool'.exists? tx.hash = true ∧ ∃ accepted s',
    (acceptChecks env rules nSpendHeight coins pool tx).run s = .ok accepted s' ∧
      pool' = pool.store rules accepted

/-- Admission of a transaction the pool does not know is all or nothing exactly when none of its tag
and global freeze changes is made twice, or is pending in the pool that has taken it in. Pending
there is only what is pending in the pool without the entries it replaces, and all of that when
nothing is trimmed. -/
theorem refused_unknown_iff (env : Env) (rules : AcceptRules) (nSpendHeight : Int) (coins : Coins)
    (s : AssetState) (pool : CTxMemPool) (tx : CTransaction) (hnew : ¬pool.Knows tx.hash) :
    (AllOrNothing env rules nSpendHeight coins s pool tx ↔
      ∀ pool', ReachesMaps env rules nSpendHeight coins s pool tx pool' →
        pool'.toAssetMaps.Free env tx) ∧
    ∀ pool', ReachesMaps env rules nSpendHeight coins s pool tx pool' →
      (∀ c, pool'.toAssetMaps.Pending c →
        (pool.withoutReplaced rules tx).toAssetMaps.Pending c) ∧
      (rules.bypassLimits = true →
        pool'.toAssetMaps = (pool.withoutReplaced rules tx).toAssetMaps) := by
  constructor
  · have hexit := worker_exit env rules nSpendHeight coins s pool tx
    unfold AllOrNothing ReachesMaps
    revert hexit
    generalize (acceptChecks env rules nSpendHeight coins pool tx).run s = checks
    generalize acceptToMemoryPoolWorker env rules nSpendHeight coins s pool tx = result
    intro hexit
    cases hexit with
    | refused reason s' =>
      constructor
      · rintro _ pool' ⟨-, -, accepted, s', h, -⟩
        cases h
      · intro _ pool' reason' h
        cases h
        exact hnew
    | tested accepted s' htest =>
      constructor
      · rintro _ pool' ⟨hfalse, -⟩
        rw [htest] at hfalse
        cases hfalse
      · intro _ pool' reason h
        cases h
    | trimmed accepted s' htest haccepted hgone =>
      constructor
      · rintro _ pool' ⟨-, hthere, accepted', s'', h, rfl⟩
        cases h
        rw [hgone] at hthere
        cases hthere
      · intro _ pool' reason h
        cases h
        rintro (hthere | hmentions)
        · rw [hgone] at hthere
          cases hthere
        · have hunmentioned := unmentioned_removalInvariant tx.hash
          exact hunmentioned.store (fun _ h => h) (fun hm => hnew (.inr hm)) hmentions
    | tracked accepted s' htest haccepted hthere =>
      have htrack := AssetMaps.track_eq_none env (pool.store rules accepted).toAssetMaps coins tx
        accepted.vReissueAssets
      constructor
      · rintro hrefused pool' ⟨-, -, accepted', s'', h, rfl⟩
        cases h
        rw [← htrack]
        cases hreason : ((pool.store rules accepted).toAssetMaps.track env coins tx
          accepted.vReissueAssets).2 with
        | none => rfl
        | some reason => exact absurd (.inl hthere) (hrefused _ reason (Prod.ext rfl hreason))
      · intro hfree pool' reason h
        have hnone := htrack.mpr (hfree _ ⟨htest, hthere, accepted, s', rfl, rfl⟩)
        have hreason := congrArg Prod.snd h
        simp only [hnone] at hreason
        cases hreason
  · rintro pool' ⟨-, -, accepted, s', hchecks, rfl⟩
    exact pending_store (acceptChecks_ok hchecks).conflicts

/-- Only the checks of the consensus rules and of assets, and no limits. -/
def AcceptRules.lax : AcceptRules where
  nAcceptTime := 0
  bypassLimits := true
  testAccept := false
  sizeAndSigOps := fun _ => (1, 0)
  standard := fun _ => .ok ()
  replacementOptOut := fun _ => true
  haveCoinInCache := fun _ => false
  sequenceLocks := fun _ => true
  inputsStandard := fun _ _ => .ok ()
  fees := fun _ _ => .ok ()
  chainLimits := fun _ _ => .ok ()
  replacement := fun _ _ _ => .ok ()
  scripts := fun _ _ => .ok ()
  limits := ⟨0, 0, fun _ => 0, fun _ => 0⟩

/-- `CNullAssetTxData::ConstructGlobalRestrictionTransaction`. -/
def scriptForGlobalRestriction (data : CNullAssetTxData) : CScript :=
  [opHnbAsset, opReserved, opReserved] ++
    pushData (writeString data.assetName ++ writeInt8 data.flag)

/-- The owner of gold freezes restricted gold as a whole. -/
def globalFreezeTx (prevout : COutPoint) (hash : UInt256) : CTransaction :=
  ⟨[⟨prevout, []⟩], [goldOwnerTransfer, ⟨0, scriptForGlobalRestriction ⟨str "$GOLD", 1⟩⟩], hash⟩

def goldIssuedActs : List Node.Act :=
  maturedActs [500 * coin] ++ [.connectTip regTestChain goldIssueBlock]

/-- Pending is one global freeze. -/
def oneFreeze (name : Bytes) (hash : UInt256) : AssetMaps where
  mapGlobalFreezingAssetTransactions := ({} : TwoWay Bytes UInt256).link name hash

theorem mentions_oneFreeze {name : Bytes} {hash hash' : UInt256}
    (h : (oneFreeze name hash).Mentions hash') : hash = hash' := by
  cases h with
  | globalFreezing h => exact ((mentions_link _ _ _ _).mp h).resolve_right (not_mentions_empty hash')
  | assetToHash | hashToAsset | reissuedAssets | reissuedTx => contradiction
  | addressesMarkedFrozen h | assetMarkedGlobalFrozen h | addressesQualifiersChanged h
  | assetVerifierChanged h | globalUnFreezing h | addressAddedTag h | addressRemoveTag h =>
    exact absurd h (not_mentions_empty hash')

/-- Every entry may be replaced. -/
def AcceptRules.replaceable : AcceptRules :=
  { AcceptRules.lax with replacementOptOut := fun _ => false }

/-- A freeze that waits in the pool is replaced by one that spends the same owner token. -/
theorem replaced_freeze_allOrNothing :
    ∃ n pool, ({} : Node).acts goldIssuedActs = some n ∧
      acceptToMemoryPoolWorker regTestChain.toEnv .replaceable 102 n.coins n.assets {}
        (globalFreezeTx ⟨21, 1⟩ 51) = (pool, none) ∧
      pool.toAssetMaps.Pending (.globalFreeze (str "$GOLD")) ∧
      (acceptToMemoryPoolWorker regTestChain.toEnv .replaceable 102 n.coins n.assets pool
        (globalFreezeTx ⟨21, 1⟩ 52)).1.exists? 52 = true ∧
      AllOrNothing regTestChain.toEnv .replaceable 102 n.coins n.assets pool
        (globalFreezeTx ⟨21, 1⟩ 52) := by
  obtain ⟨n, hn, hfirst, habsent, hmaps, hrest, hthere⟩ :
      ∃ n, ({} : Node).acts goldIssuedActs = some n ∧
      let first := acceptToMemoryPoolWorker regTestChain.toEnv .replaceable 102 n.coins n.assets {}
        (globalFreezeTx ⟨21, 1⟩ 51)
      first.2 = none ∧ first.1.exists? 52 = false ∧
        first.1.toAssetMaps = oneFreeze (str "$GOLD") 51 ∧
        (first.1.withoutReplaced .replaceable (globalFreezeTx ⟨21, 1⟩ 52)).toAssetMaps = {} ∧
        (acceptToMemoryPoolWorker regTestChain.toEnv .replaceable 102 n.coins n.assets first.1
          (globalFreezeTx ⟨21, 1⟩ 52)).1.exists? 52 = true := by decide +kernel
  revert hfirst habsent hmaps hrest hthere
  generalize hworker : acceptToMemoryPoolWorker regTestChain.toEnv .replaceable 102 n.coins n.assets {}
    (globalFreezeTx ⟨21, 1⟩ 51) = first
  intro hfirst habsent hmaps hrest hthere
  refine ⟨n, first.1, hn, hworker.trans (Prod.ext rfl hfirst), ?_, hthere, ?_⟩
  · rw [hmaps]
    rfl
  · have hnew : ¬first.1.Knows (globalFreezeTx ⟨21, 1⟩ 52).hash := by
      rintro (hin | hmentions)
      · exact Bool.false_ne_true (habsent.symm.trans hin)
      · rw [hmaps] at hmentions
        exact absurd (mentions_oneFreeze hmentions) (by decide)
    obtain ⟨hiff, hreached⟩ :=
      refused_unknown_iff regTestChain.toEnv .replaceable 102 n.coins n.assets _ _ hnew
    refine hiff.mpr fun pool' hreaches _ => ⟨by decide +kernel, fun c _ => ?_⟩
    rw [(hreached pool' hreaches).2 rfl, hrest]
    cases c <;> exact Bool.false_ne_true

/-- The second freeze of the same asset spends an output of the first. The worker returns false, and
leaves it in the pool. -/
theorem second_globalFreeze_stays :
    ∃ n : Node, ({} : Node).acts goldIssuedActs = some n ∧
      ∃ pool, acceptToMemoryPoolWorker regTestChain.toEnv .lax 102 n.coins n.assets {}
          (globalFreezeTx ⟨21, 1⟩ 51) = (pool, none) ∧
        pool.exists? 52 = false ∧
        ¬AllOrNothing regTestChain.toEnv .lax 102 n.coins n.assets pool
          (globalFreezeTx ⟨51, 0⟩ 52) := by
  obtain ⟨n, hn, hfirst, hnew, hrefused, hthere⟩ :
      ∃ n, ({} : Node).acts goldIssuedActs = some n ∧
      let first := acceptToMemoryPoolWorker regTestChain.toEnv .lax 102 n.coins n.assets {}
        (globalFreezeTx ⟨21, 1⟩ 51)
      let second := acceptToMemoryPoolWorker regTestChain.toEnv .lax 102 n.coins n.assets first.1
        (globalFreezeTx ⟨51, 0⟩ 52)
      first.2 = none ∧ first.1.exists? 52 = false ∧
        second.2 = some ⟨0, "bad-txns-global-freeze-already-in-mempool"⟩ ∧
        second.1.exists? 52 = true := by decide +kernel
  refine ⟨n, hn, _, Prod.ext rfl hfirst, hnew, ?_⟩
  intro h
  exact h _ _ (Prod.ext rfl hrefused) (.inl hthere)

end HnbCore
