import HnbCore.MempoolIndex
import HnbCore.TrackedReissues

/-!
# The maps of the pool and its entries

Over runs of admissions, removals, connected blocks and clears: the maps by which the pool finds
asset transactions mention its entries only, and the two maps of each pair are inverse.
-/

namespace HnbCore

open Checks List Option TwoWay KeyedSet AssetMaps

namespace AssetMaps

/-- Every hash in the maps is live, and the maps of each pair are inverse relations. -/
structure Consistent (maps : AssetMaps) (live : UInt256 → Prop) : Prop where
  issued : Paired maps.mapAssetToHash maps.mapHashToAsset live
  reissued : Paired maps.mapReissuedAssets maps.mapReissuedTx live
  addressesMarkedFrozen : maps.mapAddressesMarkedFrozen.Linked live
  assetMarkedGlobalFrozen : maps.mapAssetMarkedGlobalFrozen.Linked live
  addressesQualifiersChanged : maps.mapAddressesQualifiersChanged.Linked live
  assetVerifierChanged : maps.mapAssetVerifierChanged.Linked live
  globalFreezing : maps.mapGlobalFreezingAssetTransactions.Linked live
  globalUnFreezing : maps.mapGlobalUnFreezingAssetTransactions.Linked live
  addressAddedTag : maps.mapAddressAddedTag.Linked live
  addressRemoveTag : maps.mapAddressRemoveTag.Linked live

/-- The transaction waits to add or remove a tag. -/
def ChangesTag (maps : AssetMaps) (hash : UInt256) : Prop :=
  maps.mapAddressAddedTag.backward.contains hash = true ∨
    maps.mapAddressRemoveTag.backward.contains hash = true

/-- The two states of the maps have the same new assets. -/
def SameIssues (maps' maps : AssetMaps) : Prop :=
  maps'.mapAssetToHash = maps.mapAssetToHash ∧ maps'.mapHashToAsset = maps.mapHashToAsset

theorem consistent_empty (live : UInt256 → Prop) : ({} : AssetMaps).Consistent live :=
  ⟨.empty _, .empty _, linked_empty _, linked_empty _, linked_empty _,
    linked_empty _, linked_empty _, linked_empty _, linked_empty _,
    linked_empty _⟩

namespace Consistent

variable {maps maps' : AssetMaps} {live live' : UInt256 → Prop} {hash : UInt256} {env : Env}

theorem mono (h : maps.Consistent live) (himp : ∀ hash, live hash → live' hash) :
    maps.Consistent live' where
  issued := h.issued.mono fun _ hash _ => himp hash
  reissued := h.reissued.mono fun _ hash _ => himp hash
  addressesMarkedFrozen := h.addressesMarkedFrozen.mono fun hash _ => himp hash
  assetMarkedGlobalFrozen := h.assetMarkedGlobalFrozen.mono fun hash _ => himp hash
  addressesQualifiersChanged := h.addressesQualifiersChanged.mono fun hash _ => himp hash
  assetVerifierChanged := h.assetVerifierChanged.mono fun hash _ => himp hash
  globalFreezing := h.globalFreezing.mono fun hash _ => himp hash
  globalUnFreezing := h.globalUnFreezing.mono fun hash _ => himp hash
  addressAddedTag := h.addressAddedTag.mono fun hash _ => himp hash
  addressRemoveTag := h.addressRemoveTag.mono fun hash _ => himp hash

theorem find?_eq_none_of_dead {forward : KeyedMap Bytes UInt256} {backward : KeyedMap UInt256 Bytes}
    (h : Paired forward backward live) (hdead : ¬live hash) : backward.find? hash = none := by
  cases hfind : backward.find? hash with
  | none => rfl
  | some item =>
    obtain ⟨hash', name⟩ := item
    obtain rfl : hash' = hash := key_of_find? hfind
    exact absurd (h.live name hash' ((h.inverse name hash').mpr hfind)) hdead

/-! ### Removal -/

theorem removeReissue_eq (h : Paired maps.mapReissuedAssets maps.mapReissuedTx live)
    (hash : UInt256) :
    ∃ reissuedAssets reissuedTx,
      maps.removeReissue hash =
        { maps with mapReissuedAssets := reissuedAssets, mapReissuedTx := reissuedTx } ∧
      Paired reissuedAssets reissuedTx fun hash' => live hash' ∧ hash ≠ hash' := by
  unfold removeReissue
  cases hfind : maps.mapReissuedTx.find? hash with
  | none => exact ⟨_, _, rfl, h.erase_none hfind⟩
  | some item =>
    obtain ⟨hash', name⟩ := item
    obtain rfl : hash' = hash := key_of_find? hfind
    have hthere : maps.mapReissuedAssets.contains name = true := by
      rw [KeyedSet.contains, (h.inverse name hash').mpr hfind]
      rfl
    simp only [hthere, if_true]
    exact ⟨_, _, rfl, h.erase hfind⟩

theorem removeIssue_eq (maps : AssetMaps)
    (h : Paired maps.mapAssetToHash maps.mapHashToAsset live) (hash : UInt256) :
    ∃ assetToHash hashToAsset,
      maps.removeIssue hash =
        { maps with mapAssetToHash := assetToHash, mapHashToAsset := hashToAsset } ∧
      Paired assetToHash hashToAsset fun hash' => live hash' ∧ hash ≠ hash' := by
  unfold removeIssue
  cases hfind : maps.mapHashToAsset.find? hash with
  | none => exact ⟨_, _, rfl, h.erase_none hfind⟩
  | some item =>
    obtain ⟨hash', name⟩ := item
    obtain rfl : hash' = hash := key_of_find? hfind
    exact ⟨_, _, rfl, h.erase hfind⟩

/-- An entry that changes no tag leaves the maps as they were for the other entries. -/
theorem removeUnchecked (h : maps.Consistent live) (htag : ¬maps.ChangesTag hash) :
    (maps.removeUnchecked hash).Consistent fun hash' => live hash' ∧ hash ≠ hash' := by
  obtain ⟨reissuedAssets, reissuedTx, hreissue, hreissued⟩ := removeReissue_eq h.reissued hash
  obtain ⟨assetToHash, hashToAsset, hissue, hissued⟩ :=
    removeIssue_eq { maps with mapReissuedAssets := reissuedAssets, mapReissuedTx := reissuedTx }
      h.issued hash
  obtain ⟨hadded, hremoved⟩ := not_or.mp htag
  simp only [AssetMaps.removeUnchecked, hreissue, hissue]
  exact {
    issued := hissued
    reissued := hreissued
    addressesMarkedFrozen := h.addressesMarkedFrozen.unlinkKeeping hash
    assetMarkedGlobalFrozen := h.assetMarkedGlobalFrozen.unlinkKeeping hash
    addressesQualifiersChanged := h.addressesQualifiersChanged.unlinkKeeping hash
    assetVerifierChanged := h.assetVerifierChanged.unlinkKeeping hash
    globalFreezing := h.globalFreezing.unlinkDropping hash
    globalUnFreezing := h.globalUnFreezing.unlinkDropping hash
    addressAddedTag := h.addressAddedTag.unlinkForward (Bool.eq_false_iff.mpr hadded)
    addressRemoveTag := h.addressRemoveTag.unlinkForward (Bool.eq_false_iff.mpr hremoved) }

theorem forgetReissue (h : maps.Consistent live) (hash : UInt256) :
    (maps.forgetReissue hash).Consistent live := by
  unfold AssetMaps.forgetReissue
  cases hfind : maps.mapReissuedTx.find? hash with
  | none => exact h
  | some item =>
    obtain ⟨hash', name⟩ := item
    obtain rfl : hash' = hash := key_of_find? hfind
    exact { h with reissued := (h.reissued.erase hfind).mono fun _ _ _ hlive => hlive.1 }

/-! ### Admission -/

variable {name : Bytes} {data : CNullAssetTxData}

theorem trackReissue (h : maps.Consistent live)
    (hname : maps.mapReissuedAssets.find? name = none) (hhash : maps.mapReissuedTx.find? hash = none)
    (hlive : live hash) : (maps.trackReissues [(name, hash)]).Consistent live :=
  { h with reissued := h.reissued.insert hname hhash hlive }

theorem trackIssue (h : maps.Consistent live)
    (hname : maps.mapAssetToHash.find? name = none) (hhash : maps.mapHashToAsset.find? hash = none)
    (hlive : live hash) : (maps.trackIssue name hash).Consistent live :=
  { h with issued := h.issued.assign hname hhash hlive }

theorem trackAsset (h : maps.Consistent live) (hlive : live hash) {data : CAssetOutputEntry}
    (hnew : data.type = .txNewAsset ∧ isAssetNameAnOwner data.assetName = false →
      maps.mapAssetToHash.find? data.assetName = none ∧ maps.mapHashToAsset.find? hash = none) :
    (maps.trackAsset env hash data).Consistent live := by
  have hmaps : (if data.type = .txNewAsset ∧ isAssetNameAnOwner data.assetName = false then
      maps.trackIssue data.assetName hash else maps).Consistent live := by
    split
    · rename_i hissue
      exact h.trackIssue (hnew hissue).1 (hnew hissue).2 hlive
    · exact h
  simp only [AssetMaps.trackAsset]
  split
  · exact { hmaps with
      addressesQualifiersChanged := hmaps.addressesQualifiersChanged.link _ hlive
      assetVerifierChanged := hmaps.assetVerifierChanged.link _ hlive }
  · exact hmaps

theorem trackOnce {κ : Type} [DecidableEq κ] {m m' : TwoWay κ UInt256} {k : κ} {reason : String}
    (h : m.Linked live) (hlive : live hash) (hok : trackOnce m k hash reason = .ok m') :
    m'.Linked live := by
  unfold AssetMaps.trackOnce at hok
  split at hok
  · cases hok
  · cases hok
    exact h.link k hlive

theorem trackGlobal (h : maps.Consistent live) (hlive : live hash)
    (hok : maps.trackGlobal hash data = .ok maps') :
    maps'.Consistent live ∧ maps'.SameIssues maps := by
  unfold AssetMaps.trackGlobal at hok
  split at hok
  · obtain ⟨m, hm, hok⟩ := bind_eq_ok.mp hok
    cases hok
    exact ⟨{ h with globalFreezing := trackOnce h.globalFreezing hlive hm }, rfl, rfl⟩
  · split at hok
    · obtain ⟨m, hm, hok⟩ := bind_eq_ok.mp hok
      cases hok
      exact ⟨{ h with globalUnFreezing := trackOnce h.globalUnFreezing hlive hm }, rfl, rfl⟩
    · cases hok
      exact ⟨h, rfl, rfl⟩

theorem trackTag (h : maps.Consistent live) (hlive : live hash)
    {address : Bytes} (hok : maps.trackTag hash data address = .ok maps') :
    maps'.Consistent live ∧ maps'.SameIssues maps := by
  unfold AssetMaps.trackTag at hok
  split at hok
  · split at hok
    · obtain ⟨m, hm, hok⟩ := bind_eq_ok.mp hok
      cases hok
      exact ⟨{ h with addressAddedTag := trackOnce h.addressAddedTag hlive hm }, rfl, rfl⟩
    · obtain ⟨m, hm, hok⟩ := bind_eq_ok.mp hok
      cases hok
      exact ⟨{ h with addressRemoveTag := trackOnce h.addressRemoveTag hlive hm }, rfl, rfl⟩
  · cases hok
    exact ⟨h, rfl, rfl⟩

end Consistent

end AssetMaps

/-- The new asset, not an owner token, that an output issues. -/
def CTxOut.newAssetName (env : Env) (out : CTxOut) : Option Bytes :=
  if out.scriptPubKey.isAssetScript.isSome then
    (getAssetData env out.scriptPubKey).bind fun data =>
      if data.type = .txNewAsset ∧ isAssetNameAnOwner data.assetName = false then
        some data.assetName
      else none
  else none

def CTransaction.newAssetNames (env : Env) (tx : CTransaction) : List Bytes :=
  tx.vout.filterMap (CTxOut.newAssetName env)

namespace AssetMaps

variable {maps maps' : AssetMaps} {live : UInt256 → Prop} {hash : UInt256} {env : Env}

/-- The maps of new assets have room for the name and the transaction. -/
def Unissued (maps : AssetMaps) (hash : UInt256) (name : Bytes) : Prop :=
  maps.mapAssetToHash.find? name = none ∧ maps.mapHashToAsset.find? hash = none

theorem trackAsset_keeps_issues {data : CAssetOutputEntry}
    (h : ¬(data.type = .txNewAsset ∧ isAssetNameAnOwner data.assetName = false)) :
    (maps.trackAsset env hash data).SameIssues maps := by
  simp only [trackAsset, if_neg h]
  split <;> exact ⟨rfl, rfl⟩

theorem Consistent.trackOutput (h : maps.Consistent live) (hlive : live hash) {out : CTxOut}
    (hnew : ∀ name ∈ out.newAssetName env, maps.Unissued hash name)
    (hok : maps.trackOutput env hash out = .ok maps') :
    maps'.Consistent live ∧ (out.newAssetName env = none → maps'.SameIssues maps) := by
  unfold AssetMaps.trackOutput at hok
  unfold CTxOut.newAssetName at hnew ⊢
  split at hok
  · rename_i hscript
    simp only [if_pos hscript] at hnew ⊢
    cases hdata : getAssetData env out.scriptPubKey with
    | none =>
      rw [hdata] at hok
      cases hok
      exact ⟨h, fun _ => ⟨rfl, rfl⟩⟩
    | some data =>
      simp only [hdata, bind_some] at hok hnew ⊢
      cases hok
      constructor
      · apply h.trackAsset hlive
        intro hissue
        exact hnew _ (by simp [hissue])
      · intro hnone
        apply trackAsset_keeps_issues
        intro hissue
        simp [hissue] at hnone
  · split at hok
    · cases hdata : globalAssetNullDataFromScript out.scriptPubKey with
      | none =>
        rw [hdata] at hok
        cases hok
        exact ⟨h, fun _ => ⟨rfl, rfl⟩⟩
      | some data =>
        rw [hdata] at hok
        exact (h.trackGlobal hlive hok).imp id fun hsame _ => hsame
    · split at hok
      · cases hdata : assetNullDataFromScript env out.scriptPubKey with
        | none =>
          rw [hdata] at hok
          cases hok
          exact ⟨h, fun _ => ⟨rfl, rfl⟩⟩
        | some found =>
          rw [hdata] at hok
          exact (h.trackTag hlive hok).imp id fun hsame _ => hsame
      · cases hok
        exact ⟨h, fun _ => ⟨rfl, rfl⟩⟩

theorem Consistent.trackOutputs (h : maps.Consistent live) (hlive : live hash) {vout : List CTxOut}
    (hone : (vout.filterMap (CTxOut.newAssetName env)).length ≤ 1)
    (hnew : ∀ name ∈ vout.filterMap (CTxOut.newAssetName env), maps.Unissued hash name) :
    (trackOutputs env hash maps vout).1.Consistent live := by
  induction vout generalizing maps with
  | nil => exact h
  | cons out vout ih =>
    rw [trackOutputs]
    cases hok : maps.trackOutput env hash out with
    | error reason => exact h
    | ok maps' =>
      cases hname : out.newAssetName env with
      | none =>
        rw [filterMap_cons_none hname] at hone hnew
        obtain ⟨h', hkeeps⟩ := h.trackOutput hlive (by simp [hname]) hok
        apply ih h' hone
        intro name hin
        unfold Unissued
        rw [(hkeeps hname).1, (hkeeps hname).2]
        exact hnew name hin
      | some name =>
        rw [filterMap_cons_some hname] at hone hnew
        have hnil : vout.filterMap (CTxOut.newAssetName env) = [] := by
          apply length_eq_zero_iff.mp
          rw [length_cons] at hone
          omega
        have hroom := hnew name mem_cons_self
        obtain ⟨h', -⟩ := h.trackOutput hlive (by simpa [hname] using hroom) hok
        apply ih h'
        · simp [hnil]
        · simp [hnil]

theorem Consistent.trackInput (h : maps.Consistent live) (hlive : live hash) (coins : Coins)
    (txin : CTxIn) : (AssetMaps.trackInput env coins hash maps txin).Consistent live := by
  unfold AssetMaps.trackInput
  split
  · split
    · split
      · split
        · exact { h with
            assetMarkedGlobalFrozen := h.assetMarkedGlobalFrozen.link _ hlive
            addressesMarkedFrozen := h.addressesMarkedFrozen.link _ hlive }
        · exact h
      · exact h
    · exact h
  · exact h

variable {tx : CTransaction}

theorem Consistent.trackInputs (h : maps.Consistent live) (hlive : live tx.hash)
    (coins : Coins) : (AssetMaps.trackInputs env coins maps tx).Consistent live := by
  unfold AssetMaps.trackInputs
  split
  · exact List.foldlRecOn (motive := fun maps => Consistent maps live) tx.vin _ h
      fun _ h txin _ => h.trackInput hlive coins txin
  · exact h

/-- All that the worker writes for a transaction that issues at most one asset. -/
theorem Consistent.track (h : maps.Consistent live) (hlive : live tx.hash)
    (coins : Coins) {pairs : List (Bytes × UInt256)}
    (hpairs : pairs = [] ∨ ∃ name, pairs = [(name, tx.hash)] ∧
      maps.mapReissuedAssets.find? name = none ∧ maps.mapReissuedTx.find? tx.hash = none)
    (hone : (tx.newAssetNames env).length ≤ 1)
    (hnew : ∀ name ∈ tx.newAssetNames env, maps.Unissued tx.hash name) :
    (maps.track env coins tx pairs).1.Consistent live := by
  have hreissues : (maps.trackReissues pairs).Consistent live ∧
      ∀ name, (maps.trackReissues pairs).Unissued tx.hash name ↔ maps.Unissued tx.hash name := by
    rcases hpairs with rfl | ⟨name, rfl, hname, hhash⟩
    · exact ⟨h, fun _ => Iff.rfl⟩
    · exact ⟨h.trackReissue hname hhash hlive, fun _ => Iff.rfl⟩
  have houtputs : (if env.deployments.areAssetsDeployed then
      AssetMaps.trackOutputs env tx.hash (maps.trackReissues pairs) tx.vout
      else (maps.trackReissues pairs, none)).1.Consistent live := by
    split
    · apply hreissues.1.trackOutputs hlive hone
      intro name hin
      exact (hreissues.2 name).mpr (hnew name hin)
    · exact hreissues.1
  simp only [AssetMaps.track]
  revert houtputs
  generalize (if env.deployments.areAssetsDeployed then
      AssetMaps.trackOutputs env tx.hash (maps.trackReissues pairs) tx.vout
      else (maps.trackReissues pairs, none)) = tracked
  intro houtputs
  obtain ⟨maps', (_ | reason)⟩ := tracked
  · exact houtputs.trackInputs hlive coins
  · exact houtputs

end AssetMaps

/-! ## The reissues that the checks hand on -/

theorem reissues_le_one {env : Env} {tx : CTransaction}
    {fCheckDuplicateInputs fMempoolCheck fBlockCheck : Bool}
    (h : checkTransaction env tx fCheckDuplicateInputs fMempoolCheck fBlockCheck = .ok ()) :
    (tx.vout.countP fun out => out.scriptPubKey.isReissueAsset) ≤ 1 := by
  have haccepted := checkTransaction_accepted h
  obtain ⟨flags, hkind⟩ := haccepted.kind
  rcases Nat.eq_zero_or_pos (tx.vout.countP fun out => out.scriptPubKey.isReissueAsset) with
    hzero | hpos
  · omega
  · obtain ⟨out, hout, hreissue⟩ := countP_pos_iff.mp hpos
    have hverify := (reissue_is_last haccepted.vout_ne_nil hkind hout hreissue).1
    obtain ⟨-, -, -, -, -, -, -, hcount⟩ := verifyReissueAsset_ok hverify
    exact le_of_eq hcount

section Pairs

variable {env : Env} {mempool : MempoolAssets} {coins : Coins} {tx : CTransaction}
  {s t : AssetState}

theorem checkAssetOutput_pairs {scan scan' : AssetOutputScan} {out : CTxOut}
    (h : checkAssetOutput env mempool tx scan out s = .ok scan' t) :
    scan'.vPairReissueAssets = scan.vPairReissueAssets ∨
      (out.scriptPubKey.isReissueAsset = true ∧
        ∃ name, mempool.mapReissuedAssets.find? name = none ∧
          scan'.vPairReissueAssets = scan.vPairReissueAssets ++ [(name, tx.hash)]) := by
  unfold checkAssetOutput at h
  obtain ⟨_, _, -, h⟩ := run_bind_eq_ok.mp h
  obtain ⟨_, _, -, h⟩ := run_bind_eq_ok.mp h
  split_ifs at h with htransfer hreissue
  · simp only [run_bind_eq_ok, run_pure_eq_ok] at h
    obtain ⟨_, _, -, _, _, -, _, _, -, rfl, -⟩ := h
    exact .inl rfl
  · obtain ⟨⟨reissue, address⟩, _, hread, h⟩ := run_bind_eq_ok.mp h
    obtain ⟨hread, -⟩ := run_lift_eq_ok.mp hread
    have hscript := isReissueAsset_of_reissueAssetFromScript (demand_eq_ok.mp hread)
    cases hfind : mempool.mapReissuedAssets.find? reissue.strName with
    | some item =>
      simp only [hfind] at h
      obtain ⟨_, _, -, h⟩ := run_bind_eq_ok.mp h
      obtain ⟨rfl, -⟩ := run_pure_eq_ok.mp h
      exact .inl rfl
    | none =>
      simp only [hfind] at h
      obtain ⟨rfl, -⟩ := run_pure_eq_ok.mp h
      exact .inr ⟨hscript, reissue.strName, hfind, rfl⟩
  · obtain ⟨rfl, -⟩ := run_pure_eq_ok.mp h
    exact .inl rfl

/-- What `CheckTxAssets` hands on: at most one pair for each reissue output, of an asset that is not
being reissued. -/
theorem checkTxAssets_pairs {fCheckMempool : Bool} {pairs : List (Bytes × UInt256)}
    (h : checkTxAssets env mempool coins tx fCheckMempool s = .ok pairs t) :
    ∃ names : List Bytes, pairs = names.map (·, tx.hash) ∧
      names.length ≤ (tx.vout.countP fun out => out.scriptPubKey.isReissueAsset) ∧
      ∀ name ∈ names, mempool.mapReissuedAssets.find? name = none := by
  unfold checkTxAssets at h
  simp only [run_bind_eq_ok, run_pure_eq_ok] at h
  obtain ⟨_, _, -, _, _, -, scan, _, hscan, _, _, -, _, _, -, rfl, -⟩ := h
  refine run_foldlM_induction (P := fun done (scan : AssetOutputScan) => ∃ names : List Bytes,
    scan.vPairReissueAssets = names.map (·, tx.hash) ∧
      names.length ≤ (done.countP fun out => out.scriptPubKey.isReissueAsset) ∧
      ∀ name ∈ names, mempool.mapReissuedAssets.find? name = none) ⟨[], rfl, by simp, by simp⟩ ?_ hscan
  rintro done scan out _ scan' _ ⟨names, hpairs, hlength, habsent⟩ hround
  rw [countP_append, countP_singleton]
  rcases checkAssetOutput_pairs hround with hsame | ⟨hscript, name, hnone, hadded⟩
  · exact ⟨names, hsame.trans hpairs, by omega, habsent⟩
  · refine ⟨names ++ [name], ?_, ?_, ?_⟩
    · rw [hadded, hpairs, map_append]
      rfl
    · rw [length_append, if_pos hscript]
      simpa using hlength
    · intro other hother
      rcases mem_append.mp hother with hother | hother
      · exact habsent other hother
      · rw [mem_singleton.mp hother]
        exact hnone

end Pairs

namespace PoolAccepted

variable {env : Env} {rules : AcceptRules} {coins : Coins} {s : AssetState} {pool : CTxMemPool}
  {tx : CTransaction} {accepted : AcceptedTx}

/-- A transaction that is let in reissues at most one asset, which no other entry reissues. -/
theorem pairs (h : PoolAccepted env rules coins s pool tx accepted) :
    accepted.vReissueAssets = [] ∨ ∃ name, accepted.vReissueAssets = [(name, tx.hash)] ∧
      pool.mapReissuedAssets.find? name = none := by
  obtain ⟨view, -, s', hassets⟩ := h.assets
  unfold checkPoolTxAssets at hassets
  split at hassets
  · obtain ⟨names, hpairs, hlength, habsent⟩ := checkTxAssets_pairs hassets
    have hone := reissues_le_one h.checked
    match names with
    | [] => exact .inl hpairs
    | [name] => exact .inr ⟨name, hpairs, habsent name mem_cons_self⟩
    | _ :: _ :: _ =>
      simp only [length_cons] at hlength
      omega
  · obtain ⟨_, _, -, hassets⟩ := run_bind_eq_ok.mp hassets
    obtain ⟨hnil, -⟩ := run_pure_eq_ok.mp hassets
    exact .inl hnil.symm

theorem hash_eq (h : PoolAccepted env rules coins s pool tx accepted) :
    accepted.entry.hash = tx.hash := congrArg CTransaction.hash h.tx_eq

end PoolAccepted

/-! ## Runs of the pool -/

/-- What happens to the pool. Every other removal is a `removeStaged` of a set that is looked up
before: `removeRecursive`, `removeForReorg`, `Expire`, `TrimToSize`. -/
inductive PoolAct
  | accept (env : Env) (rules : AcceptRules) (nSpendHeight : Int) (coins : Coins) (s : AssetState)
      (tx : CTransaction)
  | removeStaged (stage : TxidSet) (updateDescendants : Bool)
  | connectTip (env : Env) (passes : CTransaction → Bool) (vtx : List CTransaction)
      (data : CTxMemPool.ConnectedBlockAssetData)
  | clear

namespace CTxMemPool

def act (pool : CTxMemPool) : PoolAct → CTxMemPool
  | .accept env rules nSpendHeight coins s tx =>
      (acceptToMemoryPoolWorker env rules nSpendHeight coins s pool tx).1
  | .removeStaged stage updateDescendants => pool.removeStaged stage updateDescendants
  | .connectTip env passes vtx data => (pool.forgetReissues vtx).removeForBlock env passes vtx data
  | .clear => pool.clear

/-- The pools that acts lead to, each allowed where it happens. -/
inductive Reachable (P : CTxMemPool → PoolAct → Prop) : CTxMemPool → Prop
  | start : Reachable P {}
  | next {pool : CTxMemPool} {a : PoolAct} : Reachable P pool → P pool a → Reachable P (pool.act a)

/-- The maps agree with the entries of the pool. -/
def MapsConsistent (pool : CTxMemPool) : Prop :=
  pool.toAssetMaps.Consistent fun hash => pool.exists? hash = true

/-- Nothing leaves the pool when it takes the transaction: it replaces nothing, and the limits are
bypassed or wide enough. -/
structure NothingLeaves (pool : CTxMemPool) (rules : AcceptRules) (tx : CTransaction) : Prop where
  unspent : ∀ txin ∈ tx.vin, pool.mapNextTx.contains txin.prevout = false
  room : rules.bypassLimits = true ∨
    (rules.limits.expiry ≤ rules.nAcceptTime ∧
      (∀ entry ∈ pool.mapTx.items, rules.limits.expiry ≤ entry.nTime) ∧
      ∀ pool' : CTxMemPool, (∀ hash, pool'.exists? hash =
        (decide (tx.hash = hash) || pool.exists? hash)) →
          rules.limits.usage pool' ≤ rules.limits.sizelimit)

/-- The steps that keep the maps in order. A transaction issues at most one asset, of a name that
does not wait, and takes no entry that changes a tag out of the pool; no such entry is removed or
waits when a block is connected; and no reissue waits when the pool is cleared. -/
def Tidy (pool : CTxMemPool) : PoolAct → Prop
  | .accept env rules _ _ _ tx =>
      (tx.newAssetNames env).length ≤ 1 ∧
        (∀ name ∈ tx.newAssetNames env, pool.mapAssetToHash.contains name = false) ∧
        ((∀ hash, ¬pool.toAssetMaps.ChangesTag hash) ∨ pool.NothingLeaves rules tx)
  | .removeStaged stage _ => ∀ hash ∈ stage.items, ¬pool.toAssetMaps.ChangesTag hash
  | .connectTip _ _ _ _ => ∀ hash, ¬pool.toAssetMaps.ChangesTag hash
  | .clear => ∀ name, pool.mapReissuedAssets.contains name = false

/-! ### Removals -/

section Removals

variable {pool pool' : CTxMemPool} {hash : UInt256}

theorem changesTag_of_removeUnchecked {hash' : UInt256}
    (h : (pool.removeUnchecked hash).toAssetMaps.ChangesTag hash') :
    pool.toAssetMaps.ChangesTag hash' := by
  have hmaps : (pool.toAssetMaps.removeUnchecked hash).ChangesTag hash' ↔
      pool.toAssetMaps.ChangesTag hash' := by
    unfold AssetMaps.ChangesTag
    simp only [AssetMaps.removeUnchecked, backward_unlinkForward]
    unfold AssetMaps.removeIssue AssetMaps.removeReissue
    split <;> split <;> (try split) <;> rfl
  rw [toAssetMaps_removeUnchecked] at h
  split at h
  · exact hmaps.mp h
  · exact h

theorem MapsConsistent.same (h : pool.MapsConsistent) (hsame : SameTxs pool pool') :
    pool'.MapsConsistent := by
  unfold MapsConsistent
  rw [hsame.maps]
  apply h.mono
  intro hash hexists
  rw [hsame.exists?]
  exact hexists

theorem MapsConsistent.removeUnchecked (h : pool.MapsConsistent)
    (htag : ¬pool.toAssetMaps.ChangesTag hash) : (pool.removeUnchecked hash).MapsConsistent := by
  unfold MapsConsistent
  simp only [toAssetMaps_removeUnchecked, exists?_removeUnchecked, Bool.and_eq_true,
    Bool.not_eq_true', decide_eq_false_iff_not]
  split
  · exact (AssetMaps.Consistent.removeUnchecked h htag).mono fun _ hlive => hlive.symm
  · rename_i hnot
    apply h.mono
    intro hash' hexists
    refine ⟨?_, hexists⟩
    rintro rfl
    exact hnot hexists

theorem MapsConsistent.removeStaged (h : pool.MapsConsistent) {stage : TxidSet}
    (htag : ∀ hash ∈ stage.items, ¬pool.toAssetMaps.ChangesTag hash) (updateDescendants : Bool) :
    (pool.removeStaged stage updateDescendants).MapsConsistent := by
  have hfold : ∀ (l : List UInt256) (pool : CTxMemPool), pool.MapsConsistent →
      (∀ hash ∈ l, ¬pool.toAssetMaps.ChangesTag hash) →
        (l.foldl CTxMemPool.removeUnchecked pool).MapsConsistent := by
    intro l
    induction l with
    | nil => exact fun pool h _ => h
    | cons hash l ih =>
      intro pool h htag
      apply ih _ (h.removeUnchecked (htag hash mem_cons_self))
      intro hash' hin hchanges
      exact htag hash' (mem_cons_of_mem hash hin) (changesTag_of_removeUnchecked hchanges)
  have hsame := updateForRemoveFromMempool_same pool stage updateDescendants
  apply hfold _ _ (h.same hsame)
  rw [hsame.maps]
  exact htag

theorem untagged_removalInvariant :
    RemovalInvariant fun pool => pool.MapsConsistent ∧ ∀ hash, ¬pool.toAssetMaps.ChangesTag hash := by
  constructor
  · rintro pool pool' hsame ⟨h, htag⟩
    refine ⟨h.same hsame, ?_⟩
    rw [hsame.maps]
    exact htag
  · rintro pool hash ⟨h, htag⟩
    exact ⟨h.removeUnchecked (htag hash),
      fun hash' hchanges => htag hash' (changesTag_of_removeUnchecked hchanges)⟩

theorem MapsConsistent.forgetReissues (h : pool.MapsConsistent) (vtx : List CTransaction) :
    (pool.forgetReissues vtx).MapsConsistent :=
  List.foldlRecOn (motive := fun maps => AssetMaps.Consistent maps _) vtx _ h
    fun _ h tx _ => h.forgetReissue tx.hash

theorem changesTag_forgetReissues (vtx : List CTransaction) :
    (pool.forgetReissues vtx).toAssetMaps.ChangesTag hash ↔ pool.toAssetMaps.ChangesTag hash := by
  have hone : ∀ (maps : AssetMaps) (forgotten : UInt256),
      (maps.forgetReissue forgotten).ChangesTag hash ↔ maps.ChangesTag hash := by
    intro maps forgotten
    unfold forgetReissue
    split <;> rfl
  simp only [forgetReissues]
  generalize pool.toAssetMaps = maps
  induction vtx generalizing maps with
  | nil => exact Iff.rfl
  | cons tx vtx ih => exact (ih _).trans (hone maps tx.hash)

/-- `clear` leaves the pending reissues; there are none. -/
theorem MapsConsistent.clear (h : pool.MapsConsistent)
    (hnone : ∀ name, pool.mapReissuedAssets.contains name = false) : pool.clear.MapsConsistent := by
  have hempty : ({} : AssetMaps).Consistent fun hash => pool.clear.exists? hash = true :=
    consistent_empty _
  refine { hempty with reissued := h.reissued.mono ?_ }
  intro name hash hfind _
  have hcontains := hnone name
  rw [KeyedSet.contains, hfind] at hcontains
  cases hcontains

end Removals

/-! ### Admission -/

section Admission

variable {env : Env} {rules : AcceptRules} {coins : Coins} {s : AssetState} {pool : CTxMemPool}
  {tx : CTransaction} {accepted : AcceptedTx} {entry : CTxMemPoolEntry} {limits : Limits}
  {pool' : CTxMemPool}

theorem insertEntry_consistent (h : pool.MapsConsistent) :
    ((pool.insertEntry entry).insertNextTx entry.tx).MapsConsistent := by
  apply AssetMaps.Consistent.mono h
  intro hash hexists
  have hcontains := contains_insert pool.mapTx entry hash
  exact hcontains.trans (by simp [show pool.mapTx.contains hash = true from hexists])

theorem removeStaged_empty_same (pool : CTxMemPool) :
    SameTxs pool (pool.removeStaged .empty false) := updateForRemoveFromMempool_same pool _ false

theorem expire_same {time : Int} (h : ∀ entry ∈ pool.mapTx.items, time ≤ entry.nTime) :
    SameTxs pool (pool.expire time) := by
  have hnone : (pool.mapTx.items.filter fun entry => entry.nTime < time) = [] := by
    rw [filter_eq_nil_iff]
    intro entry hin
    simpa using h entry hin
  simp only [expire, hnone]
  exact removeStaged_empty_same pool

theorem trimToSize_of_room (h : limits.usage pool ≤ limits.sizelimit)
    (fuel : Nat) : trimToSize limits fuel pool = pool := by
  cases fuel with
  | zero => rfl
  | succ fuel =>
    rw [trimToSize, if_neg]
    rintro ⟨-, hover⟩
    omega

/-- Limits that are wide enough take nothing out. -/
theorem limitMempoolSize_same (htimes : ∀ entry ∈ pool.mapTx.items, limits.expiry ≤ entry.nTime)
    (hroom : ∀ pool', SameTxs pool pool' → limits.usage pool' ≤ limits.sizelimit) :
    SameTxs pool (pool.limitMempoolSize limits) := by
  have hexpire := expire_same htimes
  rw [limitMempoolSize, trimToSize_of_room (hroom _ hexpire)]
  exact hexpire

theorem insertEntry_same (hsame : SameTxs pool pool') (entry : CTxMemPoolEntry) :
    SameTxs ((pool.insertEntry entry).insertNextTx entry.tx)
      ((pool'.insertEntry entry).insertNextTx entry.tx) := by
  refine ⟨hsame.maps, ?_, ?_⟩
  · intro hash
    have htxs := hsame.txs hash
    simp only [insertEntry, insertNextTx, find?_insert]
    split
    · cases h' : pool'.mapTx.find? hash <;> cases h : pool.mapTx.find? hash <;>
        simp_all
    · exact htxs
  · simp only [insertEntry, insertNextTx, hsame.nextTx]

/-- The entries of the pool with a new one are the new one and the others. -/
theorem time_of_insertEntry (hsame : SameTxs ((pool.insertEntry entry).insertNextTx entry.tx) pool')
    {other : CTxMemPoolEntry} (hin : other ∈ pool'.mapTx.items) :
    other.nTime = entry.nTime ∨ ∃ old ∈ pool.mapTx.items, other.nTime = old.nTime := by
  have htxs := hsame.txs other.hash
  rw [find?_of_mem hin, map_some] at htxs
  simp only [insertEntry, insertNextTx, find?_insert] at htxs
  cases hold : pool.mapTx.find? other.hash with
  | some old =>
    right
    refine ⟨old, mem_of_find? hold, ?_⟩
    rw [hold] at htxs
    split at htxs
    · exact (Prod.ext_iff.mp (some.inj htxs)).2
    · exact (Prod.ext_iff.mp (some.inj htxs)).2
  | none =>
    left
    rw [hold] at htxs
    split at htxs
    · exact (Prod.ext_iff.mp (some.inj htxs)).2
    · cases htxs

/-- When nothing leaves, the pool after the admission is the pool with the entry. -/
theorem store_same (haccepted : PoolAccepted env rules coins s pool tx accepted)
    (hstays : pool.NothingLeaves rules tx) :
    SameTxs ((pool.insertEntry accepted.entry).insertNextTx accepted.entry.tx)
      (pool.store rules accepted) := by
  have hconflicts : accepted.setConflicts = [] := by
    have hfound := haccepted.conflicts
    rw [findConflicts_eq_nil hstays.unspent] at hfound
    exact (Except.ok.inj hfound).symm
  have hadded := (insertEntry_same (removeStaged_empty_same pool) accepted.entry).trans
    (addUnchecked_same _ _ (pool.ancestorsFrom (pool.searchForParents accepted.entry.tx)))
  simp only [store, hconflicts]
  split
  · exact hadded
  · rename_i hlimits
    obtain ⟨htime, htimes, hroom⟩ := hstays.room.resolve_left hlimits
    apply hadded.trans
    apply limitMempoolSize_same
    · intro other hin
      rcases time_of_insertEntry hadded hin with hnew | ⟨old, hold, heq⟩
      · rw [hnew, haccepted.time_eq]
        exact htime
      · rw [heq]
        exact htimes old hold
    · intro pool' hsame
      apply hroom
      intro hash
      rw [hsame.exists?, hadded.exists?, ← haccepted.hash_eq]
      exact contains_insert _ _ _

theorem MapsConsistent.store (h : pool.MapsConsistent)
    (haccepted : PoolAccepted env rules coins s pool tx accepted)
    (htags : (∀ hash, ¬pool.toAssetMaps.ChangesTag hash) ∨ pool.NothingLeaves rules tx) :
    (pool.store rules accepted).MapsConsistent := by
  rcases htags with hnone | hstays
  · have hstore : (pool.store rules accepted).MapsConsistent ∧
        ∀ hash, ¬(pool.store rules accepted).toAssetMaps.ChangesTag hash :=
      untagged_removalInvariant.store (fun pool h => ⟨insertEntry_consistent h.1, h.2⟩) ⟨h, hnone⟩
    exact hstore.1
  · exact (insertEntry_consistent h).same (store_same haccepted hstays)

theorem unnamed_removalInvariant (name : Bytes) :
    (RemovalInvariant fun pool => pool.mapAssetToHash.find? name = none) ∧
      RemovalInvariant fun pool => pool.mapReissuedAssets.find? name = none := by
  have hmaps : ∀ (maps : AssetMaps) (hash : UInt256),
      (maps.mapAssetToHash.find? name = none →
        (maps.removeUnchecked hash).mapAssetToHash.find? name = none) ∧
      (maps.mapReissuedAssets.find? name = none →
        (maps.removeUnchecked hash).mapReissuedAssets.find? name = none) := by
    intro maps hash
    simp only [AssetMaps.removeUnchecked]
    unfold AssetMaps.removeIssue AssetMaps.removeReissue
    constructor
    · intro h
      split <;> split <;> (try split) <;> simp [find?_erase, h]
    · intro h
      split <;> split <;> (try split) <;> simp [find?_erase, h]
  have hboth : ∀ (f : AssetMaps → Option (Bytes × UInt256)),
      (∀ maps hash, f maps = none → f (maps.removeUnchecked hash) = none) →
        RemovalInvariant fun pool => f pool.toAssetMaps = none := by
    intro f hf
    constructor
    · intro pool pool' hsame h
      rw [hsame.maps]
      exact h
    · intro pool hash h
      rw [toAssetMaps_removeUnchecked]
      split
      · exact hf _ hash h
      · exact h
  exact ⟨hboth _ fun maps hash => (hmaps maps hash).1, hboth _ fun maps hash => (hmaps maps hash).2⟩

theorem not_mentions_of_dead {maps : AssetMaps} {live : UInt256 → Prop} {hash : UInt256}
    (h : maps.Consistent live) (hdead : ¬live hash) : ¬maps.Mentions hash := by
  intro hm
  apply hdead
  cases hm with
  | assetToHash name hfind => exact h.issued.live name hash hfind
  | hashToAsset hc =>
    rw [KeyedSet.contains, AssetMaps.Consistent.find?_eq_none_of_dead h.issued hdead] at hc
    cases hc
  | addressesMarkedFrozen hm => exact h.addressesMarkedFrozen.live hash hm
  | assetMarkedGlobalFrozen hm => exact h.assetMarkedGlobalFrozen.live hash hm
  | addressesQualifiersChanged hm => exact h.addressesQualifiersChanged.live hash hm
  | assetVerifierChanged hm => exact h.assetVerifierChanged.live hash hm
  | globalFreezing hm => exact h.globalFreezing.live hash hm
  | globalUnFreezing hm => exact h.globalUnFreezing.live hash hm
  | addressAddedTag hm => exact h.addressAddedTag.live hash hm
  | addressRemoveTag hm => exact h.addressRemoveTag.live hash hm
  | reissuedAssets name hfind => exact h.reissued.live name hash hfind
  | reissuedTx hc =>
    rw [KeyedSet.contains, AssetMaps.Consistent.find?_eq_none_of_dead h.reissued hdead] at hc
    cases hc

/-- The worker keeps the maps in order for a transaction that issues at most one asset. -/
theorem MapsConsistent.accept (h : pool.MapsConsistent) (nSpendHeight : Int)
    (hone : (tx.newAssetNames env).length ≤ 1)
    (hnew : ∀ name ∈ tx.newAssetNames env, pool.mapAssetToHash.contains name = false)
    (htags : (∀ hash, ¬pool.toAssetMaps.ChangesTag hash) ∨ pool.NothingLeaves rules tx) :
    (acceptToMemoryPoolWorker env rules nSpendHeight coins s pool tx).1.MapsConsistent := by
  have hexit := worker_exit env rules nSpendHeight coins s pool tx
  revert hexit
  generalize (acceptChecks env rules nSpendHeight coins pool tx).run s = checks
  generalize acceptToMemoryPoolWorker env rules nSpendHeight coins s pool tx = result
  intro hexit
  cases hexit with
  | refused reason s' => exact h
  | tested accepted s' htest => exact h
  | trimmed accepted s' htest haccepted hgone => exact h.store haccepted htags
  | tracked accepted s' htest haccepted hthere =>
    have hunknown : ¬(pool.store rules accepted).toAssetMaps.Mentions tx.hash := by
      apply (unmentioned_removalInvariant tx.hash).store fun _ h => h
      apply not_mentions_of_dead h
      simp [haccepted.fresh]
    have hreissuedTx : (pool.store rules accepted).mapReissuedTx.find? tx.hash = none := by
      rw [← not_isSome_iff_eq_none]
      exact fun hsome => hunknown (.reissuedTx hsome)
    have hhashToAsset : (pool.store rules accepted).mapHashToAsset.find? tx.hash = none := by
      rw [← not_isSome_iff_eq_none]
      exact fun hsome => hunknown (.hashToAsset hsome)
    apply (h.store haccepted htags).track hthere
    · rcases haccepted.pairs with hnil | ⟨name, hpair, hname⟩
      · exact .inl hnil
      · exact .inr ⟨name, hpair,
          (unnamed_removalInvariant name).2.store (fun _ h => h) hname, hreissuedTx⟩
    · exact hone
    · intro name hin
      have hname : pool.mapAssetToHash.find? name = none := by
        rw [← not_isSome_iff_eq_none]
        exact Bool.eq_false_iff.mp (hnew name hin)
      exact ⟨(unnamed_removalInvariant name).1.store (fun _ h => h) hname, hhashToAsset⟩

end Admission

theorem MapsConsistent.act {pool : CTxMemPool} (h : pool.MapsConsistent) {a : PoolAct}
    (ha : pool.Tidy a) : (pool.act a).MapsConsistent := by
  cases a with
  | accept env rules nSpendHeight coins s tx => exact h.accept nSpendHeight ha.1 ha.2.1 ha.2.2
  | removeStaged stage updateDescendants => exact h.removeStaged ha updateDescendants
  | connectTip env passes vtx data =>
    have hnone : ∀ hash, ¬(pool.forgetReissues vtx).toAssetMaps.ChangesTag hash :=
      fun hash hchanges => ha hash ((changesTag_forgetReissues vtx).mp hchanges)
    exact (untagged_removalInvariant.removeForBlock ⟨h.forgetReissues vtx, hnone⟩ env passes vtx
      data).1
  | clear => exact h.clear ha

end CTxMemPool

/-- In every run of tidy steps the maps mention entries of the pool only, and each forward map is
the inverse of its backward map. -/
theorem tidy_pool_maps_consistent {pool : CTxMemPool}
    (h : pool.Reachable CTxMemPool.Tidy) : pool.MapsConsistent := by
  induction h with
  | start => exact consistent_empty _
  | next _ ha ih => exact ih.act ha

/-- The first freeze of restricted gold enters the empty pool. -/
theorem globalFreezeTx_maps_consistent :
    ∃ n : Node, ({} : Node).acts goldIssuedActs = some n ∧
      ∃ pool, acceptToMemoryPoolWorker regTestChain.toEnv .lax 102 n.coins n.assets {}
          (globalFreezeTx ⟨21, 1⟩ 51) = (pool, none) ∧
        pool.exists? 51 = true ∧ pool.MapsConsistent := by
  obtain ⟨n, hn, hboth⟩ : ∃ n, ({} : Node).acts goldIssuedActs = some n ∧
      let result := acceptToMemoryPoolWorker regTestChain.toEnv .lax 102 n.coins n.assets {}
        (globalFreezeTx ⟨21, 1⟩ 51)
      result.2 = none ∧ result.1.exists? 51 = true := by decide +kernel
  refine ⟨n, hn, _, Prod.ext rfl hboth.1, hboth.2, ?_⟩
  have hnames : (globalFreezeTx ⟨21, 1⟩ 51).newAssetNames regTestChain.toEnv = [] := by
    decide +kernel
  have htidy : ({} : CTxMemPool).Tidy (.accept regTestChain.toEnv .lax 102 n.coins n.assets
      (globalFreezeTx ⟨21, 1⟩ 51)) := by
    refine ⟨?_, ?_, .inl ?_⟩
    · rw [hnames]
      exact Nat.zero_le 1
    · rw [hnames]
      intro name hin
      cases hin
    · rintro hash (h | h) <;> cases h
  exact tidy_pool_maps_consistent (.next .start htidy)

def uniqueBurnKey : Bytes :=
  [0xdd, 0xa3, 0xd2, 0x17, 0xae, 0x29, 0xb7, 0x3b, 0xa1, 0x3d,
   0x29, 0x14, 0x29, 0xca, 0xd4, 0x3c, 0xd1, 0x22, 0x75, 0x62]

/-- Regtest with the checksum of the address to which unique assets burn. -/
def regTestUnique : Env :=
  { regTestWith .all with
    hashes := tableHashes
      [(111 :: uniqueBurnKey, [0x27, 0x97, 0x39, 0x49]),
       (111 :: issuerKey, [0x98, 0xd5, 0x6f, 0xd1])] [] }

/-- The owner of gold issues two unique assets, paid for by an output of block 7. -/
def twoUniquesTx : CTransaction :=
  ⟨[⟨⟨7, 1⟩, []⟩, ⟨⟨21, 1⟩, []⟩],
   [⟨10 * coin, scriptForKeyID uniqueBurnKey⟩, goldOwnerTransfer,
    ⟨0, CNewAsset.constructTransaction ⟨str "GOLD#A", 1 * coin, 0, 0, 0, []⟩
      (scriptForKeyID issuerKey)⟩,
    ⟨0, CNewAsset.constructTransaction ⟨str "GOLD#B", 1 * coin, 0, 0, 0, []⟩
      (scriptForKeyID issuerKey)⟩], 61⟩

/-- Both unique assets are mapped to the transaction, and the transaction to the second of them
only; when it is mined the name of the first stays. -/
theorem twoUniques_leave_a_name :
    ∃ n : Node, ({} : Node).acts (maturedActs [500 * coin, 10 * coin] ++
        [.connectTip regTestChain goldIssueBlock]) = some n ∧
      ∃ pool : CTxMemPool, pool = (({} : CTxMemPool).act
          (.accept regTestUnique .lax 102 n.coins n.assets twoUniquesTx)).act
            (.connectTip regTestUnique (fun _ => true) [twoUniquesTx] {}) ∧
        pool.Reachable (fun _ _ => True) ∧ pool.exists? 61 = false ∧
        pool.mapAssetToHash.find? (str "GOLD#A") = some (str "GOLD#A", 61) ∧
        ¬pool.MapsConsistent := by
  obtain ⟨n, hn, hboth⟩ : ∃ n, ({} : Node).acts (maturedActs [500 * coin, 10 * coin] ++
      [.connectTip regTestChain goldIssueBlock]) = some n ∧
      let pool := (({} : CTxMemPool).act
        (.accept regTestUnique .lax 102 n.coins n.assets twoUniquesTx)).act
          (.connectTip regTestUnique (fun _ => true) [twoUniquesTx] {})
      pool.exists? 61 = false ∧
        pool.mapAssetToHash.find? (str "GOLD#A") = some (str "GOLD#A", 61) := by
    decide +kernel
  refine ⟨n, hn, _, rfl, .next (.next .start trivial) trivial, hboth.1, hboth.2, ?_⟩
  intro h
  have hlive := h.issued.live _ _ hboth.2
  rw [hboth.1] at hlive
  cases hlive

end HnbCore
