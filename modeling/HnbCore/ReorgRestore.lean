import HnbCore.NameUndo

/-!
# Connecting a block and disconnecting it

Which assets have their existence and their terms back after a block was connected, flushed,
disconnected and flushed.
-/

namespace HnbCore

open Checks AssetState List Option CTransaction NameState AssetEvent

variable {tx : CTransaction} {blockHash : UInt256} {env : Env} {s t : AssetState}
  {r : CReissueAsset} {scan scan' : ConnectScan}

def CTransaction.eventsOf (tx : CTransaction) (env : Env) (nHeight : Int) (blockHash : UInt256)
    (name : Bytes) : List AssetEvent :=
  (tx.connectEvents env nHeight blockHash).filter fun event => event.name = name

/-- The issues and reissues of an asset, in the order of the block. -/
def CBlock.eventsOf (block : CBlock) (env : Env) (nHeight : Int) (name : Bytes) : List AssetEvent :=
  block.vtx.flatMap fun tx => tx.eventsOf env nHeight block.hash name

theorem CBlock.eventsOf_eq (block : CBlock) (env : Env) (nHeight : Int) (name : Bytes) :
    block.eventsOf env nHeight name =
      (block.connectEvents env nHeight).filter fun event => event.name = name := by
  rw [CBlock.connectEvents, filter_flatMap]
  rfl

theorem CTransaction.eventsOf_connects (tx : CTransaction) (env : Env) (nHeight : Int)
    (blockHash : UInt256) (name : Bytes) :
    ∀ event ∈ tx.eventsOf env nHeight blockHash name, event.connects = true :=
  fun event h => tx.connectEvents_connects env nHeight blockHash event (mem_filter.mp h).1

theorem CTransaction.issued_of_reissue (h : tx.reissue env = some r) : tx.issued env = [] := by
  unfold reissue at h
  split at h
  case isTrue hkind =>
    simp only [Bool.and_eq_true, Bool.not_eq_true'] at hkind
    simp [issued, hkind.1, hkind.2]
  case isFalse => cases h

variable {b d m : Bool} {u : Unit} {nHeight : Int} {txs done : List CTransaction} {name : Bytes}
  {asset : CNewAsset}

theorem CTransaction.eventsOf_length (h : checkTransaction env tx d m b = .ok ())
    (nHeight : Int) (blockHash : UInt256) (name : Bytes) :
    (tx.eventsOf env nHeight blockHash name).length ≤ 1 := by
  have hnodup := issuedNames_nodup h
  unfold eventsOf connectEvents
  unfold issuedNames at hnodup
  cases hactive : env.deployments.areAssetsDeployed with
  | false => simp
  | true =>
    rw [hactive, if_pos rfl] at hnodup
    rw [if_pos rfl]
    cases hreissue : tx.reissue env with
    | some r =>
      rw [issued_of_reissue hreissue]
      exact (length_filter_le _ _).trans (by simp)
    | none =>
      have hcount := nodup_iff_count_le_one.mp hnodup name
      rw [count, countP_map] at hcount
      rw [toList_none, map_nil, append_nil, ← countP_eq_length_filter,
        countP_map]
      refine le_trans (le_of_eq (countP_congr fun issued _ => ?_)) hcount
      exact decide_eq_true_iff.trans beq_iff_eq.symm

/-- What disconnecting a transaction does to a name undoes what connecting it did. -/
theorem CTransaction.undoEventsOf (tx : CTransaction) (env : Env) (nHeight : Int)
    (blockHash : UInt256) (name : Bytes) (vUndo : List (Bytes × CBlockAssetUndo)) :
    ((tx.disconnectEvents env vUndo).filter fun event => event.name = name) =
      (tx.eventsOf env nHeight blockHash name).map (undone (undoEntry vUndo name)) := by
  unfold eventsOf connectEvents disconnectEvents
  split
  case isFalse => rfl
  case isTrue =>
    rw [filter_append, filter_append, map_append, List.filter_map, List.filter_map,
      List.filter_map, List.filter_map, List.map_map, List.map_map]
    refine congrArg₂ _ rfl (map_congr_left fun r hr => ?_)
    have hname : r.strName = name := of_decide_eq_true (mem_filter.mp hr).2
    simp [unreissueOf, undone, hname]

/-- The undoing goes from the last event to the first. -/
theorem CBlock.undoEventsOf {block : CBlock}
    (h : ∀ tx ∈ block.vtx, checkTransaction env tx d m b = .ok ()) (nHeight : Int) (name : Bytes)
    (vUndo : List (Bytes × CBlockAssetUndo)) :
    ((block.disconnectEvents env vUndo).filter fun event => event.name = name) =
      (block.eventsOf env nHeight name).reverse.map (undone (undoEntry vUndo name)) := by
  have hself : ∀ tx ∈ block.vtx.reverse, (tx.eventsOf env nHeight block.hash name).reverse =
      tx.eventsOf env nHeight block.hash name := by
    intro tx htx
    have hlength := eventsOf_length (h tx (mem_reverse.mp htx)) nHeight block.hash
      name
    match htail : tx.eventsOf env nHeight block.hash name, hlength with
    | [], _ => rfl
    | [_], _ => rfl
  rw [CBlock.disconnectEvents, filter_flatMap, CBlock.eventsOf, reverse_flatMap,
    map_flatMap]
  refine flatMap_congr fun tx htx => ?_
  rw [Function.comp_apply, hself tx htx]
  exact tx.undoEventsOf env nHeight block.hash name vUndo

theorem AssetState.Does.nameState_of_events {events : List AssetEvent} (h : Does events s t)
    (hs : s.WellFormed) (name : Bytes) :
    t.nameState name =
      (events.filter fun event => event.name = name).foldl step (s.nameState name) := by
  rw [h.nameState hs, run_filter]

theorem contextualCheckReissueAsset_ok {reissue : CReissueAsset} (hs : s.WellFormed)
    (h : contextualCheckReissueAsset env reissue tx s = .ok u t) :
    checkReissueAsset env reissue = .ok () ∧
      ∃ prev, (s.nameState reissue.strName).metadata = some prev ∧
        checkReissueAgainst reissue prev.asset = .ok () := by
  simp only [contextualCheckReissueAsset, run_bind_eq_ok, run_lift_eq_ok, run_ask_eq_ok,
    require_eq_ok] at h
  obtain ⟨_, _, ⟨-, rfl⟩, _, _, ⟨hterms, rfl⟩, found, v, hfound, prev, _, ⟨rfl, rfl⟩, _, _,
    ⟨hagainst, rfl⟩, -⟩ := h
  refine ⟨hterms, prev, ?_, hagainst⟩
  rw [← hs.metadata_eq, hfound]

theorem checkCreated_reissue {mempool : MempoolAssets} {fCheckMempool : Bool}
    (hs : s.WellFormed) (h : checkCreated env mempool tx fCheckMempool s = .ok u t)
    (hr : tx.reissue env = some r) :
    checkReissueAsset env r = .ok () ∧ ∃ prev, (s.nameState r.strName).metadata = some prev ∧
      checkReissueAgainst r prev.asset = .ok () := by
  unfold CTransaction.reissue at hr
  split at hr
  case isFalse => cases hr
  case isTrue hkind =>
    simp only [Bool.and_eq_true, Bool.not_eq_true'] at hkind
    obtain rfl := some.inj hr
    simp only [checkCreated, hkind.1, hkind.2, Bool.false_eq_true, if_false, if_true, rejectWith,
      run_bind_eq_ok, run_lift_eq_ok, demand_eq_ok, run_orElseFail_eq_ok] at h
    obtain ⟨⟨reissue, address⟩, _, ⟨hfrom, rfl⟩, hcheck⟩ := h
    rw [reissueAssetFromTransaction, hkind.2, if_pos rfl, hfrom]
    exact contextualCheckReissueAsset_ok hs hcheck

theorem CTransaction.reissue_of_mem (h : .reissue r ∈ tx.connectEvents env nHeight blockHash) :
    env.deployments.areAssetsDeployed = true ∧ tx.reissue env = some r := by
  unfold connectEvents at h
  split at h
  case isFalse => cases h
  case isTrue hactive =>
    refine ⟨hactive, ?_⟩
    rcases mem_append.mp h with hissue | hreissue
    · obtain ⟨_, -, he⟩ := mem_map.mp hissue
      cases he
    · obtain ⟨r', hr', he⟩ := mem_map.mp hreissue
      cases he
      exact mem_toList.mp hr'

theorem CTransaction.connectEvents_of_reissue
    (h : .reissue r ∈ tx.connectEvents env nHeight blockHash) :
    tx.connectEvents env nHeight blockHash = [.reissue r] := by
  obtain ⟨hactive, hreissue⟩ := reissue_of_mem h
  simp [connectEvents, hactive, hreissue, issued_of_reissue hreissue]

theorem connectTx_reissue_nameState {env : ChainEnv} (hs : s.WellFormed)
    (h : connectTx env blockHash nHeight scan tx s = .ok scan' t)
    (hr : .reissue r ∈ tx.connectEvents env.toEnv nHeight blockHash) :
    t.nameState r.strName = (s.nameState r.strName).step (.reissue r) := by
  rw [(connectTx_effect h).toDoes.nameState hs, connectEvents_of_reissue hr]
  exact if_pos rfl

/-- A reissue outside the coinbase is one of an asset that has metadata, and fits it. -/
theorem connectTx_reissue {env : ChainEnv} (hs : s.WellFormed)
    (hcb : tx.isCoinBase = false) (h : connectTx env blockHash nHeight scan tx s = .ok scan' t)
    (hr : .reissue r ∈ tx.connectEvents env.toEnv nHeight blockHash) :
    checkReissueAsset env.toEnv r = .ok () ∧
      ∃ prev, (s.nameState r.strName).metadata = some prev ∧
        checkReissueAgainst r prev.asset = .ok () := by
  obtain ⟨hactive, hreissue⟩ := reissue_of_mem hr
  obtain ⟨_, _, _, _, hcheck, -⟩ := connectTx_ok h
  obtain ⟨_, hassets⟩ := checkTxAssets_of_checkBlockTx hcb hcheck hactive
  obtain ⟨u, v, hsame, hcreated⟩ := checkCreated_of_checkTxAssets hassets
  rw [← hsame.nameState]
  exact checkCreated_reissue (hsame.does.wellFormed hs) hcreated hreissue

theorem connectTxs_data {env : ChainEnv}
    (hs : s.WellFormed) (hcb : ∀ tx ∈ txs, tx.isCoinBase = false)
    (h : txs.foldlM (connectTx env blockHash nHeight) scan s = .ok scan' t)
    (hr : .reissue r ∈ txs.flatMap fun tx => tx.connectEvents env.toEnv nHeight blockHash) :
    (t.nameState r.strName).data.isSome = true := by
  induction txs generalizing scan s with
  | nil => cases hr
  | cons tx txs ih =>
    obtain ⟨next, u, htx, hrest⟩ := run_bind_eq_ok.mp h
    have hdoes := (connectTx_effect htx).toDoes
    rw [flatMap_cons, mem_append] at hr
    rcases hr with hr | hr
    · -- this transaction reissues, and the rest does not take the data away
      obtain ⟨-, prev, hprev, -⟩ := connectTx_reissue hs (hcb tx mem_cons_self) htx hr
      rw [(connectTxs_effect hrest).toDoes.nameState_of_events (hdoes.wellFormed hs)]
      refine foldl_data_isSome _ ?_
      rw [connectTx_reissue_nameState hs htx hr, step_reissue hprev]
      rfl
    · exact ih (hdoes.wellFormed hs) (fun tx' h' => hcb tx' (mem_cons_of_mem _ h')) hrest hr

theorem undoEntry_append (vUndo later : List (Bytes × CBlockAssetUndo)) (name : Bytes) :
    undoEntry (vUndo ++ later) name = (undoEntry vUndo name).or (undoEntry later name) := by
  rw [undoEntry, find?_append, undoEntry, undoEntry, map_or]

/-- The verifier string that a reissue of a restricted asset brings. -/
def CTransaction.newVerifier (tx : CTransaction) (name : Bytes) :
    Option CNullAssetTxVerifierString :=
  if assetTypeOf name = .restricted then (firstVerifier tx).join else none

/-- The reissue of the asset, if it changes more than the amount and so leaves an undo entry. -/
def CTransaction.change (tx : CTransaction) (env : Env) (name : Bytes) : Option CReissueAsset :=
  if env.deployments.areAssetsDeployed then
    (tx.reissue env).filter fun r => r.strName = name &&
      (r.strIPFSHash ≠ [] || r.nUnits ≠ -1 || (tx.newVerifier name).isSome)
  else none

/-- The first reissue of the asset in the block that changes more than the amount. -/
def CBlock.firstChange (block : CBlock) (env : Env) (name : Bytes) : Option CReissueAsset :=
  block.vtx.findSome? fun tx => tx.change env name

/-- The entry that a reissue leaves is on the terms it found. -/
theorem addCoinsAssets_undo (hs : s.WellFormed)
    (hr : .reissue r ∈ tx.connectEvents env nHeight blockHash) :
    let asset := ((s.nameState r.strName).metadata.map (·.asset)).getD nullAsset
    ∃ strOldVerifier, (addCoinsAssets env tx nHeight blockHash s).1 =
      reissueUndo r asset (tx.newVerifier asset.strName) strOldVerifier := by
  obtain ⟨hactive, hreissue⟩ := reissue_of_mem hr
  unfold CTransaction.reissue at hreissue
  split at hreissue
  case isFalse => cases hreissue
  case isTrue hkind =>
    simp only [Bool.and_eq_true, Bool.not_eq_true'] at hkind
    obtain rfl := some.inj hreissue
    rw [addCoinsAssets, hactive, if_pos rfl, addCreated, if_neg (by simp [hkind.1]),
      if_pos hkind.2, ← hs.metadata_eq]
    exact ⟨_, rfl⟩

theorem addCoinsAssets_no_undo (s : AssetState)
    (hr : ∀ r, .reissue r ∉ tx.connectEvents env nHeight blockHash) :
    (addCoinsAssets env tx nHeight blockHash s).1 = none := by
  unfold addCoinsAssets
  split
  case isFalse => rfl
  case isTrue hactive =>
    have hno : ¬ (tx.isNewAsset env = false ∧ tx.isReissueAsset = true) := by
      rintro ⟨hnew, hreissue⟩
      refine hr ((tx.reissueAssetFromTransaction env).getD (nullReissue, [])).1 ?_
      simp [connectEvents, CTransaction.reissue, hactive, hnew, hreissue]
    change (addCreated env tx nHeight blockHash s).1 = none
    unfold addCreated
    cases hnew : tx.isNewAsset env with
    | true => rfl
    | false =>
      cases hreissue : tx.isReissueAsset with
      | true => exact absurd ⟨hnew, hreissue⟩ hno
      | false =>
        cases hverifier : firstVerifier tx <;> split_ifs <;> rfl

theorem connectTx_undo {env : ChainEnv}
    (h : connectTx env blockHash nHeight scan tx s = .ok scan' t) :
    ∃ v, Untouched s v ∧ scan'.vUndoAssetData = scan.vUndoAssetData ++
      (addCoinsAssets env.toEnv tx nHeight blockHash v).1.toList.filter fun e => !e.1.isEmpty := by
  obtain ⟨nFees, undo, coins, u, hcheck, hupdate, rfl⟩ := connectTx_ok h
  simp only [updateCoins, run_bind_eq_ok, run_ask_eq_ok, run_pure_eq_ok, Prod.mk.injEq] at hupdate
  obtain ⟨spent, v, hspend, assetUndo, w, hadd, ⟨rfl, -⟩, -⟩ := hupdate
  refine ⟨v, ?_, by rw [hadd]⟩
  exact (checkBlockTx_quiet s nFees u hcheck).untouched.trans
    (spendInputs_quiet u spent v hspend).untouched

/-- A reissue leaves an entry on the terms it found, or it changes neither units nor hash. -/
theorem reissueUndo_cases (r : CReissueAsset) (asset : CNewAsset)
    (newVerifier : Option CNullAssetTxVerifierString) (strOldVerifier : Bytes) :
    ((r.strIPFSHash ≠ [] || r.nUnits ≠ -1 || newVerifier.isSome) = false ∧
      reissueUndo r asset newVerifier strOldVerifier = none ∧
      (reissued asset r).units = asset.units ∧
      (reissued asset r).strIPFSHash = asset.strIPFSHash) ∨
    ((r.strIPFSHash ≠ [] || r.nUnits ≠ -1 || newVerifier.isSome) = true ∧
      ∃ u, reissueUndo r asset newVerifier strOldVerifier = some (r.strName, u) ∧
        Records (some u) asset (some r)) := by
  have hempty : (!r.strIPFSHash.isEmpty) = decide (r.strIPFSHash ≠ []) := by
    cases r.strIPFSHash <;> rfl
  unfold reissueUndo
  dsimp only
  rw [hempty]
  cases hchange : (r.strIPFSHash ≠ [] || r.nUnits ≠ -1 || newVerifier.isSome) with
  | true =>
    refine .inr ⟨rfl, _, rfl, ?_, rfl, rfl⟩
    rintro u ⟨⟩
    exact ⟨rfl, rfl⟩
  | false =>
    simp only [Bool.or_eq_false_iff, decide_eq_false_iff_not, ne_eq, not_not] at hchange
    exact .inl ⟨rfl, rfl, by simp [reissued, hchange.1.2], by simp [reissued, hchange.1.1]⟩

/-- The undo data so far has the terms of the asset before the block, or nothing, and then they
have not changed. -/
@[mk_iff Recorded_iff]
structure Recorded (env : Env) (name : Bytes) (asset : CNewAsset) (done : List CTransaction)
    (vUndo : List (Bytes × CBlockAssetUndo)) (s : AssetState) : Prop where
  entry : Records (undoEntry vUndo name) asset (done.findSome? fun tx => tx.change env name)
  found : ∃ m, (s.nameState name).metadata = some m ∧
    (undoEntry vUndo name = none →
      m.asset.units = asset.units ∧ m.asset.strIPFSHash = asset.strIPFSHash)
  both : (undoEntry vUndo name).isSome = (done.findSome? fun tx => tx.change env name).isSome

theorem CTransaction.change_of_reissue
    (h : .reissue r ∈ tx.connectEvents env nHeight blockHash) (name : Bytes) :
    tx.change env name = if r.strName = name &&
      (r.strIPFSHash ≠ [] || r.nUnits ≠ -1 || (tx.newVerifier name).isSome) then some r
      else none := by
  obtain ⟨hactive, hreissue⟩ := reissue_of_mem h
  rw [change, if_pos hactive, hreissue, filter_some]

theorem CTransaction.change_of_no_reissue
    (h : ¬∃ r, .reissue r ∈ tx.connectEvents env nHeight blockHash ∧ r.strName = name) :
    tx.change env name = none := by
  cases hactive : env.deployments.areAssetsDeployed with
  | false => simp [change, hactive]
  | true =>
    cases hreissue : tx.reissue env with
    | none => simp [change, hreissue]
    | some r =>
      have hmem : .reissue r ∈ tx.connectEvents env nHeight blockHash := by
        simp [connectEvents, hactive, hreissue]
      have hne : r.strName ≠ name := fun heq => h ⟨r, hmem, heq⟩
      rw [change_of_reissue hmem]
      simp [hne]

theorem connectTx_recorded {env : ChainEnv} (hname : name ≠ []) (hs : s.WellFormed)
    (h : connectTx env blockHash nHeight scan tx s = .ok scan' t)
    (hrec : Recorded env.toEnv name asset done scan.vUndoAssetData s) :
    Recorded env.toEnv name asset (done ++ [tx]) scan'.vUndoAssetData t := by
  obtain ⟨v, hsame, hundo⟩ := connectTx_undo h
  obtain ⟨m, hm, hunchanged⟩ := hrec.found
  by_cases hr : ∃ r, .reissue r ∈ tx.connectEvents env.toEnv nHeight blockHash ∧ r.strName = name
  · obtain ⟨r, hr, rfl⟩ := hr
    obtain ⟨old, hentry⟩ := addCoinsAssets_undo (hsame.does.wellFormed hs) hr
    rw [hsame.nameState, hm, map_some, getD_some, hs.metadata_name hm] at hentry
    have hafter : (t.nameState r.strName).metadata = some ⟨reissued m.asset r, none, 0⟩ := by
      rw [connectTx_reissue_nameState hs h hr, step_reissue hm]
      exact metadata_of_data rfl
    have hchange := change_of_reissue hr r.strName
    rcases reissueUndo_cases r m.asset (tx.newVerifier r.strName) old with
      ⟨hno, hnone, hunits, hipfs⟩ | ⟨hyes, u, hsome, hu⟩
    · rw [hentry, hnone, toList_none, filter_nil, append_nil] at hundo
      have hsame : tx.change env.toEnv r.strName = none := by
        rwa [hno, Bool.and_false, if_neg Bool.false_ne_true] at hchange
      rw [Recorded_iff, hundo, findSome?_append, findSome?_singleton, hsame,
        or_none]
      refine ⟨hrec.entry, ⟨_, hafter, fun hnone => ?_⟩, hrec.both⟩
      exact ⟨hunits.trans (hunchanged hnone).1, hipfs.trans (hunchanged hnone).2⟩
    · have hnew : undoEntry scan'.vUndoAssetData r.strName =
          (undoEntry scan.vUndoAssetData r.strName).or (some u) := by
        rw [hundo, hentry, hsome, undoEntry_append]
        simp [undoEntry, hname]
      have hchanged : tx.change env.toEnv r.strName = some r := by
        rwa [hyes, decide_eq_true rfl, Bool.and_self, if_pos rfl] at hchange
      rw [Recorded_iff, hnew, findSome?_append, findSome?_singleton, hchanged]
      have hboth := hrec.both
      cases hold : undoEntry scan.vUndoAssetData r.strName with
      | some u₀ =>
        rw [hold, isSome_some, eq_comm, isSome_iff_exists] at hboth
        obtain ⟨r₀, hr₀⟩ := hboth
        have hentry := hrec.entry
        rw [hold, hr₀] at hentry
        rw [hr₀]
        exact ⟨hentry, ⟨_, hafter, fun hnone => by cases hnone⟩, rfl⟩
      | none =>
        rw [hold, isSome_none, eq_comm, isSome_eq_false_iff,
          isNone_iff_eq_none] at hboth
        rw [hboth]
        refine ⟨⟨fun u' hu' => ?_, hu.units, hu.ipfs⟩, ⟨_, hafter, fun hnone => by cases hnone⟩, rfl⟩
        obtain ⟨hunits, hipfs⟩ := hu.terms u' hu'
        exact ⟨hunits.trans (hunchanged hold).1, hipfs.trans (hunchanged hold).2⟩
  · -- the transaction may issue the asset, and its entry is another one
    have hissues : (tx.eventsOf env.toEnv nHeight blockHash name).filterMap reissue? =
        [] := by
      refine filterMap_eq_nil_iff.mpr fun event hevent => ?_
      obtain ⟨hmem, heq⟩ := mem_filter.mp hevent
      cases event with
      | reissue r => exact absurd ⟨r, hmem, of_decide_eq_true heq⟩ hr
      | issue | unissue | unreissue => rfl
    have hmeta := (connect_metadata hm
      (tx.eventsOf_connects env.toEnv nHeight blockHash name)).1
    rw [hissues, foldl_nil, eventsOf,
      ← (connectTx_effect h).toDoes.nameState_of_events hs] at hmeta
    obtain ⟨m', hm', hasset⟩ := map_eq_some_iff.mp hmeta
    have hother : undoEntry scan'.vUndoAssetData name = undoEntry scan.vUndoAssetData name := by
      rw [hundo, undoEntry_append]
      by_cases hreissue : ∃ r, .reissue r ∈ tx.connectEvents env.toEnv nHeight blockHash
      · obtain ⟨r, hmem⟩ := hreissue
        have hne : r.strName ≠ name := fun heq => hr ⟨r, hmem, heq⟩
        obtain ⟨old, hentry⟩ := addCoinsAssets_undo (hsame.does.wellFormed hs) hmem
        rw [hentry]
        rcases reissueUndo_cases r (((v.nameState r.strName).metadata.map (·.asset)).getD nullAsset)
          _ old with ⟨-, hnone, -⟩ | ⟨-, u, hsome, -⟩
        · rw [hnone]
          simp [undoEntry]
        · rw [hsome, toList_some, filter_singleton]
          cases r.strName.isEmpty <;> simp [undoEntry, hne]
      · rw [addCoinsAssets_no_undo v fun r hmem => hreissue ⟨r, hmem⟩]
        simp [undoEntry]
    rw [Recorded_iff, hother, findSome?_append, findSome?_singleton,
      change_of_no_reissue hr, or_none]
    refine ⟨hrec.entry, ⟨m', hm', fun hnone => ?_⟩, hrec.both⟩
    rw [hasset]
    exact hunchanged hnone

theorem connectTxs_recorded {env : ChainEnv} (hname : name ≠ []) (hs : s.WellFormed)
    (h : txs.foldlM (connectTx env blockHash nHeight) scan s = .ok scan' t)
    (hrec : Recorded env.toEnv name asset done scan.vUndoAssetData s) :
    Recorded env.toEnv name asset (done ++ txs) scan'.vUndoAssetData t := by
  induction txs generalizing scan s done with
  | nil =>
    rw [foldlM_nil, run_pure_eq_ok] at h
    obtain ⟨rfl, rfl⟩ := h
    rwa [append_nil]
  | cons tx txs ih =>
    obtain ⟨next, u, htx, hrest⟩ := run_bind_eq_ok.mp h
    have hnext := ih ((connectTx_effect htx).toDoes.wellFormed hs) hrest
      (connectTx_recorded hname hs htx hrec)
    rwa [append_assoc, singleton_append] at hnext

/-- The lookups answer alike on existence, amount, units, the reissuable flag and the hash. -/
@[mk_iff SameAsset_iff]
structure SameAsset (name : Bytes) (s t : AssetState) : Prop where
  found : (checkIfAssetExists name true t).1 = (checkIfAssetExists name true s).1
  terms : (getAssetMetaDataIfExists name t).1.map (·.asset.terms) =
    (getAssetMetaDataIfExists name s).1.map (·.asset.terms)

/-- What a block may do to an asset so that disconnecting it restores the asset. An asset without
metadata is not reissued after the coinbase. One that exists is not issued again, and taking back
the reissues after its last issue, with what the first change records, undoes them all. -/
def CBlock.Restores (block : CBlock) (env : Env) (nHeight : Int) (name : Bytes)
    (s : AssetState) : Prop :=
  let events := block.eventsOf env nHeight name
  let issued := events.any isIssue
  let found := (checkIfAssetExists name true s).1
  match (getAssetMetaDataIfExists name s).1 with
  | none => ∀ tx ∈ block.vtx.tail, ∀ r, .reissue r ∉ tx.eventsOf env nHeight block.hash name
  | some m => (found = true → issued = false) ∧
      Undoable m.asset (events.filterMap reissue?)
        (if found || issued then takenBack events else []) (block.firstChange env name)

theorem filterMap_reissue?_eq_nil {events : List AssetEvent} :
    events.filterMap reissue? = [] ↔ ∀ r, .reissue r ∉ events := by
  rw [filterMap_eq_nil_iff]
  constructor
  · intro hnone r hmem
    cases hnone _ hmem
  · intro hnone event hmem
    cases event with
    | reissue r => exact absurd hmem (hnone r)
    | issue | unissue | unreissue => rfl

/-- A disconnect that goes through gives back an asset exactly when the block restores it. -/
theorem sameAsset_of_disconnect {env : ChainEnv} {block : CBlock} {nHeight : Int}
    {coins coins' coins₁ : Coins} {undo : CBlockUndo} {scan : DisconnectScan}
    {s t t' u : AssetState} {name : Bytes} (hname : name ≠ []) (hs : s.WellFormed)
    (hfresh : s.view = .fresh) (hmark : block.HonestlyMarked env)
    (hconnect : connectBlock env block nHeight coins s = .ok (undo, coins') t)
    (hwritten : Untouched t t')
    (hundo : t'.assetsdb.readBlockUndoAssetData block.hash = undo.vUndoAssetData)
    (hdisconnect : disconnectBlock env.toEnv block nHeight undo.vtxundo coins₁ t'.flush =
      .ok scan u) :
    SameAsset name s u.flush ↔ block.Restores env.toEnv nHeight name s := by
  obtain ⟨scan', _, _, hcheck, hscan, -, -, -, rfl, -⟩ := connectBlock_ok hconnect
  obtain ⟨first, rest, hvtx, -, hrest, htxs⟩ := (checked_of_checkBlock hcheck hmark).shape
  have hdone := (connectBlock_effect hconnect).toDoes
  have hundone := (disconnectBlock_effect hdisconnect).toDoes
  have htWell := (hdone.then hwritten).wellFormed hs
  have huWell := hundone.wellFormed htWell.flush
  have hx : (s.nameState name).Fresh := by constructor <;> simp [nameState, hfresh] <;> rfl
  -- the name goes through the round trip of the machine
  have htrip : u.flush.nameState name =
      (s.nameState name).roundTrip (block.eventsOf env.toEnv nHeight name)
        (undoEntry scan'.vUndoAssetData name) := by
    have hread : t'.flush.assetsdb.readBlockUndoAssetData block.hash = scan'.vUndoAssetData := hundo
    rw [flush_nameState, hundone.nameState_of_events htWell.flush, hread,
      CBlock.undoEventsOf htxs nHeight, flush_nameState,
      (hdone.then hwritten).nameState_of_events hs, ← CBlock.eventsOf_eq]
    rfl
  have hconnects : AllConnect (block.eventsOf env.toEnv nHeight name) := by
    intro event hevent
    obtain ⟨tx, -, htx⟩ := mem_flatMap.mp hevent
    exact tx.eventsOf_connects env.toEnv nHeight block.hash name event htx
  unfold CBlock.Restores
  dsimp only
  rw [SameAsset_iff, huWell.flush.exists_eq, huWell.flush.metadata_eq, hs.exists_eq, hs.metadata_eq,
    htrip]
  cases hmeta : (s.nameState name).metadata with
  | some m =>
    have hstart : Recorded env.toEnv name m.asset [] [] s :=
      ⟨⟨fun u h => by simp [undoEntry] at h, rfl, rfl⟩, ⟨m, hmeta, fun _ => ⟨rfl, rfl⟩⟩, rfl⟩
    have hrec := connectTxs_recorded hname hs hscan hstart
    rw [nil_append] at hrec
    rw [map_some, roundTrip_of_metadata hx hmeta hconnects,
      undoable_iff hrec.entry]
    rfl
  | none =>
    obtain ⟨next, v, hfirst, hlater⟩ := run_bind_eq_ok.mp
      (show (connectTx env block.hash nHeight ⟨coins, 0, [], []⟩ first >>= fun scan =>
        rest.foldlM (connectTx env block.hash nHeight) scan) s = .ok scan' t by
        rwa [hvtx, foldlM_cons] at hscan)
    have hsplit : block.eventsOf env.toEnv nHeight name =
        first.eventsOf env.toEnv nHeight block.hash name ++
          rest.flatMap fun tx => tx.eventsOf env.toEnv nHeight block.hash name := by
      rw [CBlock.eventsOf, hvtx, flatMap_cons]
    rw [map_none, map_eq_none_iff, hsplit,
      roundTrip_of_no_metadata hx hmeta
        (eventsOf_length (htxs first (hvtx ▸ mem_cons_self)) nHeight block.hash
          name) (hsplit ▸ hconnects)]
    · rw [hvtx, tail_cons, filterMap_reissue?_eq_nil]
      simp only [mem_flatMap, not_exists, not_and]
      exact ⟨fun hnone tx htx r => hnone r tx htx, fun hnone r tx htx => hnone tx htx r⟩
    · intro hsome
      rw [ne_eq, filterMap_reissue?_eq_nil, not_forall_not] at hsome
      obtain ⟨r, hmem⟩ := hsome
      obtain ⟨tx, htx, hr⟩ := mem_flatMap.mp hmem
      obtain ⟨hr, hnamed⟩ := mem_filter.mp hr
      have hdata := connectTxs_data ((connectTx_effect hfirst).toDoes.wellFormed hs) hrest hlater
        (mem_flatMap.mpr ⟨tx, htx, hr⟩)
      obtain rfl : r.strName = name := of_decide_eq_true hnamed
      rwa [hdone.nameState_of_events hs, ← CBlock.eventsOf_eq, hsplit] at hdata

/-- Connecting a block to any state, flushing it, disconnecting it with the undo data it left, and
flushing that, gives back an asset exactly when the disconnect goes through and the block restores
the asset. -/
theorem reorg_restores_iff {env : ChainEnv} {block : CBlock} {nHeight : Int}
    {coins coins' coins₁ : Coins} {undo : CBlockUndo} {s t t' : AssetState} {name : Bytes}
    (hname : name ≠ []) (hs : s.WellFormed) (hfresh : s.view = .fresh)
    (hmark : block.HonestlyMarked env)
    (hconnect : connectBlock env block nHeight coins s = .ok (undo, coins') t)
    (hwritten : Untouched t t')
    (hundo : t'.assetsdb.readBlockUndoAssetData block.hash = undo.vUndoAssetData) :
    (∃ scan u, disconnectBlock env.toEnv block nHeight undo.vtxundo coins₁ t'.flush = .ok scan u ∧
        SameAsset name s u.flush) ↔
      succeeded (disconnectBlock env.toEnv block nHeight undo.vtxundo coins₁ t'.flush) = true ∧
        block.Restores env.toEnv nHeight name s := by
  rw [succeeded_iff]
  constructor
  · rintro ⟨scan, u, hdisconnect, hsame⟩
    exact ⟨⟨scan, u, hdisconnect⟩, (sameAsset_of_disconnect hname hs hfresh hmark hconnect hwritten
      hundo hdisconnect).mp hsame⟩
  · rintro ⟨⟨scan, u, hdisconnect⟩, hrestores⟩
    exact ⟨scan, u, hdisconnect, (sameAsset_of_disconnect hname hs hfresh hmark hconnect hwritten
      hundo hdisconnect).mpr hrestores⟩

/-- Gold that can still be made divisible. -/
def wholeGold : CNewAsset := ⟨str "GOLD", 5 * coin, 0, 1, 0, []⟩

/-- Gold is in the database; its owner token and two payments can be spent. -/
def wholeGoldNode : Node where
  coins := ((KeyedSet.empty.insert (⟨1, 0⟩, ⟨⟨100 * coin, scriptForKeyID issuerKey⟩, false, 1⟩)).insert
    (⟨1, 1⟩, ⟨⟨100 * coin, scriptForKeyID issuerKey⟩, false, 1⟩)).insert
    (⟨1, 2⟩, ⟨goldOwnerTransfer, false, 1⟩)
  assets := { assetsdb := { assetData := KeyedSet.empty.insert ⟨wholeGold, some 1, 1⟩ } }

/-- A reissue paid for by one of the payments. -/
def wholeGoldReissueTx (hash : UInt256) (paidBy : Nat) (token : COutPoint) (reissue : CReissueAsset) :
    CTransaction :=
  ⟨[⟨⟨1, paidBy⟩, []⟩, ⟨token, []⟩],
   [⟨100 * coin, scriptForKeyID reissueBurnKey⟩, goldOwnerTransfer,
    ⟨0, reissue.constructTransaction (scriptForKeyID issuerKey)⟩], hash⟩

def moreGold : CReissueAsset := ⟨str "GOLD", 2 * coin, -1, 1, []⟩

def moreGoldBlock : CBlock := minedBlock 50 [0] [wholeGoldReissueTx 51 0 ⟨1, 2⟩ moreGold]

/-- The first reissue changes the units, the second one sets a hash. -/
def twoReissuesBlock : CBlock :=
  minedBlock 60 [0]
    [wholeGoldReissueTx 61 0 ⟨1, 2⟩ ⟨str "GOLD", 0, 2, 1, []⟩,
     wholeGoldReissueTx 62 1 ⟨61, 1⟩ ⟨str "GOLD", 0, -1, 1, [0x12, 0x20] ++ replicate 32 1⟩]

theorem wholeGold_wellFormed : wholeGoldNode.assets.WellFormed := by
  refine ⟨rfl, Lru.sound_empty _ _, ?_, ?_, ?_⟩
  · intro name h; simp [wholeGoldNode] at h
  · intro item h; exact absurd h not_mem_nil
  · intro item h; exact absurd h not_mem_nil

theorem moreGold_restored :
    ∃ undo coins' t scan u,
      connectBlock regTestChain moreGoldBlock 2 wholeGoldNode.coins wholeGoldNode.assets =
        .ok (undo, coins') t ∧
      disconnectBlock regTestChain.toEnv moreGoldBlock 2 undo.vtxundo coins'
        (wholeGoldNode.writeUndo moreGoldBlock undo t).flush = .ok scan u ∧
      SameAsset (str "GOLD") wholeGoldNode.assets u.flush := by
  obtain ⟨undo, coins', t, hconnect, hundo, hclean⟩ : ∃ undo coins' t, connectBlock regTestChain
      moreGoldBlock 2 wholeGoldNode.coins wholeGoldNode.assets = .ok (undo, coins') t ∧
      let t' := wholeGoldNode.writeUndo moreGoldBlock undo t
      t'.assetsdb.readBlockUndoAssetData moreGoldBlock.hash = undo.vUndoAssetData ∧
        succeeded (disconnectBlock regTestChain.toEnv moreGoldBlock 2 undo.vtxundo coins'
          t'.flush) = true := by decide +kernel
  have htrip := (reorg_restores_iff (by decide : str "GOLD" ≠ []) wholeGold_wellFormed rfl
    (by simp [CBlock.HonestlyMarked, moreGoldBlock, minedBlock]) hconnect
    (Node.writeUndo_untouched _ _ _ t) hundo).mpr ⟨hclean, ?_⟩
  · obtain ⟨scan, u, hdisconnect, hsame⟩ := htrip
    exact ⟨undo, coins', t, scan, u, hconnect, hdisconnect, hsame⟩
  have hmeta : (getAssetMetaDataIfExists (str "GOLD") wholeGoldNode.assets).1 =
      some ⟨wholeGold, some 1, 1⟩ := by decide +kernel
  have hall : (moreGoldBlock.eventsOf regTestChain.toEnv 2 (str "GOLD")).filterMap
      reissue? = [moreGold] := by decide +kernel
  have hback : takenBack (moreGoldBlock.eventsOf regTestChain.toEnv 2 (str "GOLD")) =
      [moreGold] := by decide +kernel
  have hissue : (moreGoldBlock.eventsOf regTestChain.toEnv 2 (str "GOLD")).any
      isIssue = false := by decide +kernel
  have hfound : (checkIfAssetExists (str "GOLD") true wholeGoldNode.assets).1 = true := by
    decide +kernel
  simp only [CBlock.Restores, hmeta, hall, hback, hissue, hfound]
  exact ⟨fun _ => trivial, rfl, .inl rfl, rfl, .inl rfl⟩

/-- After two reissues in one block are undone, the hash of the second one stays. -/
theorem twoReissues_not_restored :
    ∃ n n' : Node, wholeGoldNode.connectTip regTestChain twoReissuesBlock = some n ∧
      n.disconnectTip regTestChain.toEnv = some n' ∧
      (getAssetMetaDataIfExists (str "GOLD") wholeGoldNode.assets).1.map (·.asset.terms) =
        some (5 * coin, 0, 1, []) ∧
      (getAssetMetaDataIfExists (str "GOLD") n'.assets).1.map (·.asset.terms) =
        some (5 * coin, 0, 1, [0x12, 0x20] ++ replicate 32 1) := by
  obtain ⟨n, hn, n', hn', hterms⟩ :
      ∃ n, wholeGoldNode.connectTip regTestChain twoReissuesBlock = some n ∧
        ∃ n', n.disconnectTip regTestChain.toEnv = some n' ∧
          (getAssetMetaDataIfExists (str "GOLD") n'.assets).1.map (·.asset.terms) =
            some (5 * coin, 0, 1, [0x12, 0x20] ++ replicate 32 1) := by decide +kernel
  exact ⟨n, n', hn, hn', by decide +kernel, hterms⟩

end HnbCore
