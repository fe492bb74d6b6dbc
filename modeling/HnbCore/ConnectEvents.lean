import HnbCore.CheckFrames

/-!
# The events of a block

What connecting a block does to the names is an issue for every asset its transactions issue and a
reissue for every reissue, in their order; it writes the marks of its outputs into the view, in
their order, too. Disconnecting undoes both from the last transaction to the first. Neither changes
what lies below the view.
-/

namespace HnbCore

open Checks AssetState List Option CAssetsCache CTransaction

variable {s t : AssetState} {env : Env} {tx : CTransaction}
  {vUndoData : List (Bytes × CBlockAssetUndo)} {u : Unit} {hashes : Hashes}
  {op : CAssetsCache → Mark → CAssetsCache}

def issueOf (nHeight : Int) (blockHash : UInt256) (issued : CNewAsset × Bytes) : AssetEvent :=
  .issue ⟨issued.1, issued.2, nHeight, blockHash⟩

def unissueOf (issued : CNewAsset × Bytes) : AssetEvent := .unissue ⟨issued.1, issued.2, 0, 0⟩

def unreissueOf (vUndo : List (Bytes × CBlockAssetUndo)) (r : CReissueAsset) : AssetEvent :=
  .unreissue r (undoEntry vUndo r.strName)

namespace CTransaction

/-- The assets a transaction issues, with their addresses. -/
def issued (tx : CTransaction) (env : Env) : List (CNewAsset × Bytes) :=
  if tx.isNewAsset env then [(tx.assetFromTransaction env).getD (nullAsset, [])]
  else if tx.isReissueAsset then []
  else if tx.isNewUniqueAsset env then
    (tx.vout.filter fun out => isScriptNewUniqueAsset env out.scriptPubKey).map fun out =>
      (assetFromScript env out.scriptPubKey).getD (nullAsset, [])
  else if tx.isNewMsgChannelAsset env then
    [(tx.msgChannelAssetFromTransaction env).getD (nullAsset, [])]
  else if tx.isNewQualifierAsset env then
    [(tx.qualifierAssetFromTransaction env).getD (nullAsset, [])]
  else if tx.isNewRestrictedAsset env then
    [(tx.restrictedAssetFromTransaction env).getD (nullAsset, [])]
  else []

/-- The reissue a transaction makes. -/
def reissue (tx : CTransaction) (env : Env) : Option CReissueAsset :=
  if !tx.isNewAsset env && tx.isReissueAsset then
    some ((tx.reissueAssetFromTransaction env).getD (nullReissue, [])).1
  else none

def connectEvents (tx : CTransaction) (env : Env) (nHeight : Int) (blockHash : UInt256) :
    List AssetEvent :=
  if env.deployments.areAssetsDeployed then
    (tx.issued env).map (issueOf nHeight blockHash) ++ (tx.reissue env).toList.map .reissue
  else []

def disconnectEvents (tx : CTransaction) (env : Env) (vUndo : List (Bytes × CBlockAssetUndo)) :
    List AssetEvent :=
  if env.deployments.areAssetsDeployed then
    (tx.issued env).map unissueOf ++ (tx.reissue env).toList.map (unreissueOf vUndo)
  else []

/-- The marks that the outputs of a transaction make where assets are active. -/
def marks (tx : CTransaction) (env : Env) : List Mark :=
  if env.deployments.areAssetsDeployed then
    tx.vout.filterMap fun out => out.scriptPubKey.mark? env
  else []

/-- They are taken back where restricted assets are active, too. -/
def undoneMarks (tx : CTransaction) (env : Env) : List Mark :=
  if env.deployments.areRestrictedAssetsDeployed then tx.marks env else []

theorem outputs_map_snd (tx : CTransaction) : tx.outputs.map Prod.snd = tx.vout := by
  simp [outputs, Function.comp_def]

theorem flatMap_mark? (tx : CTransaction) (env : Env) :
    (tx.outputs.flatMap fun output => (output.2.scriptPubKey.mark? env).toList) =
      tx.vout.filterMap fun out => out.scriptPubKey.mark? env := by
  rw [← filterMap_eq_flatMap_toList, ← tx.outputs_map_snd, filterMap_map]
  rfl

end CTransaction

variable {blockHash : UInt256} {nHeight : Int} {issued : Option (CNewAsset × Bytes)}

theorem addIssued_effect :
    Effect hashes op [issueOf nHeight blockHash (issued.getD (nullAsset, []))] [] s
      (addIssued issued nHeight blockHash s) :=
  addNewAsset_effect _ _ _ _ s

theorem effect_view {v : CAssetsCache} {marks : List Mark} (h : Untouched s { s with view := v })
    (hmarking : v.marking = marks.foldl op s.view.marking) :
    Effect hashes op [] marks s { s with view := v } :=
  ⟨h.does, sameGround_view s v, hmarking⟩

theorem replaceVerifier_effect {name : Bytes} {newVerifier : Option CNullAssetTxVerifierString} :
    Effect hashes op [] [] s (replaceVerifier name newVerifier s).2 := by
  cases newVerifier with
  | none => exact .refl s
  | some verifier =>
    exact (getAssetVerifierStringIfExists_quiet s).effect.then
      (effect_view (untouched_view rfl rfl rfl) rfl)

theorem addReissued_effect :
    Effect hashes op [.reissue ((tx.reissueAssetFromTransaction env).getD (nullReissue, [])).1] []
      s (addReissued env tx s).2 :=
  ((addReissueAsset_effect _ _ _ _).after (getAssetMetaDataIfExists_quiet _ s).effect).then
    replaceVerifier_effect

theorem addCreated_effect :
    Effect hashes op
      ((tx.issued env).map (issueOf nHeight blockHash) ++ (tx.reissue env).toList.map .reissue) [] s
      (addCreated env tx nHeight blockHash s).2 := by
  unfold addCreated issued reissue
  cases hnew : tx.isNewAsset env
  case true => exact addIssued_effect.then (addOwnerAsset_quiet _).effect
  cases hreissue : tx.isReissueAsset
  case true => exact addReissued_effect
  cases hunique : tx.isNewUniqueAsset env
  case true =>
    have hloop : Effect hashes op _ _ s _ := Effect.foldl (fun s out =>
      @addIssued_effect s _ _ blockHash nHeight (assetFromScript env out.scriptPubKey))
      (tx.vout.filter fun out => isScriptNewUniqueAsset env out.scriptPubKey) s
    rw [← map_eq_flatMap, flatMap_none] at hloop
    simpa [Function.comp_def] using hloop
  cases hchannel : tx.isNewMsgChannelAsset env
  case true => exact addIssued_effect
  cases hqualifier : tx.isNewQualifierAsset env
  case true => exact addIssued_effect
  cases hrestricted : tx.isNewRestrictedAsset env
  case true =>
    cases hverifier : firstVerifier tx with
    | none => exact addIssued_effect
    | some verifier => exact addIssued_effect.then (effect_view (untouched_view rfl rfl rfl) rfl)
  exact .refl s

theorem markOf_effect {mark : Option Mark} :
    Effect hashes .mark [] mark.toList s { s with view := s.view.markOf mark } := by
  rcases mark with - | ⟨⟨name, address⟩ | ⟨name, address⟩ | ⟨name⟩, sets⟩
  · exact .refl s
  · apply effect_view addQualifierAddress_untouched
    simp only [toList_some, foldl_cons, foldl_nil, CAssetsCache.mark, addQualifierAddress,
      changeRoots]
    split_ifs <;> rfl
  · exact effect_view (untouched_view rfl rfl rfl) rfl
  · exact effect_view (untouched_view rfl rfl rfl) rfl

theorem unmarkOf_effect {mark : Option Mark} :
    Effect hashes .unmark [] mark.toList s { s with view := s.view.unmarkOf mark } := by
  rcases mark with - | ⟨⟨name, address⟩ | ⟨name, address⟩ | ⟨name⟩, sets⟩
  · exact .refl s
  · apply effect_view removeQualifierAddress_untouched
    simp only [toList_some, foldl_cons, foldl_nil, unmark, removeQualifierAddress, changeRoots]
    split_ifs <;> rfl
  · exact effect_view (untouched_view rfl rfl rfl) rfl
  · exact effect_view (untouched_view rfl rfl rfl) rfl

theorem addAssetOutput_effect (env : Env) (out : COutPoint) (script : CScript) :
    Effect env.hashes .mark [] (script.mark? env).toList s (addAssetOutput env out script s) := by
  obtain ⟨t, ht, hmark⟩ := addAssetOutput_eq env out script s
  rw [hmark]
  exact markOf_effect.after ht.effect

variable (env tx nHeight blockHash s) in
theorem addCoinsAssets_effect :
    Effect env.hashes .mark (tx.connectEvents env nHeight blockHash) (tx.marks env) s
      (addCoinsAssets env tx nHeight blockHash s).2 := by
  unfold addCoinsAssets connectEvents marks
  cases hactive : env.deployments.areAssetsDeployed
  case false => exact .refl s
  have hboth := (@addCreated_effect s env tx env.hashes _ blockHash nHeight).trans (Effect.foldl
    (fun _ output => addAssetOutput_effect env output.1 output.2.scriptPubKey) tx.outputs _)
  rw [tx.flatMap_mark?, flatMap_none, append_nil] at hboth
  exact hboth

variable {scan scan' : ConnectScan} {coins : Coins}

theorem connectTx_effect {env : ChainEnv}
    (h : connectTx env blockHash nHeight scan tx s = .ok scan' t) :
    Effect env.hashes .mark (tx.connectEvents env.toEnv nHeight blockHash) (tx.marks env.toEnv)
      s t := by
  obtain ⟨nFees, undo, coins, u, hcheck, hupdate, -⟩ := connectTx_ok h
  simp only [updateCoins, run_bind_eq_ok, run_ask_eq_ok, run_pure_eq_ok] at hupdate
  obtain ⟨spent, v, hspend, assetUndo, w, hadd, -, rfl⟩ := hupdate
  have heffect := addCoinsAssets_effect v env.toEnv tx blockHash nHeight
  rw [hadd] at heffect
  exact heffect.after ((checkBlockTx_quiet s nFees u hcheck).trans
    (spendInputs_quiet u spent v hspend)).effect

theorem connectTxs_effect {env : ChainEnv} {txs : List CTransaction}
    (h : txs.foldlM (connectTx env blockHash nHeight) scan s = .ok scan' t) :
    Effect env.hashes .mark (txs.flatMap fun tx => tx.connectEvents env.toEnv nHeight blockHash)
      (txs.flatMap fun tx => tx.marks env.toEnv) s t :=
  Effect.foldlM (fun _ _ _ _ _ => connectTx_effect) h

def CBlock.connectEvents (block : CBlock) (env : Env) (nHeight : Int) : List AssetEvent :=
  block.vtx.flatMap fun tx => tx.connectEvents env nHeight block.hash

def CBlock.marks (block : CBlock) (env : Env) : List Mark :=
  block.vtx.flatMap fun tx => tx.marks env

variable {block : CBlock}

theorem connectBlock_effect {env : ChainEnv} {coins' : Coins}
    {undo : CBlockUndo} (h : connectBlock env block nHeight coins s = .ok (undo, coins') t) :
    Effect env.hashes .mark (block.connectEvents env.toEnv nHeight) (block.marks env.toEnv)
      s t := by
  obtain ⟨scan, _, _, _, hscan, _⟩ := connectBlock_ok h
  exact connectTxs_effect hscan

theorem removeIssued_effect {notRead notRemoved : String} {asset : CNewAsset}
    (h : removeIssued issued notRead notRemoved s = .ok asset t) :
    Effect hashes op [unissueOf (issued.getD (nullAsset, []))] [] s t := by
  simp only [removeIssued, run_bind_eq_ok, run_lift_eq_ok, require_eq_ok, run_ask_eq_ok,
    run_onlyIf_eq_ok, run_pure_eq_ok] at h
  obtain ⟨⟨asset, address⟩, _, ⟨rfl, rfl⟩, known, u, hlookup, _, _, hremove, -, rfl⟩ := h
  have hsame : Quiet hashes s _ := checkIfAssetExists_quiet asset.strName true s
  rw [hlookup] at hsame
  cases known with
  | true =>
    obtain ⟨removed, w, hw, -, rfl⟩ := hremove
    have heffect : Effect hashes op _ _ u _ := removeNewAsset_effect asset address u
    rw [hw] at heffect
    exact heffect.after hsame.effect
  | false =>
    obtain rfl := hremove
    refine hsame.andThen (fun hs => does_nothing ?_) (marked_view rfl)
    have hunknown := hs.exists_eq asset.strName
    rw [hlookup, ← hsame.untouched.nameState] at hunknown
    simp [NameState.step, unissueOf, AssetEvent.name, ← hunknown]

/-- The asset that was removed is not looked at. -/
theorem dropIssued_effect {notRead notRemoved : String} (h : (do
      let _ ← removeIssued issued notRead notRemoved : Contextual Unit) s = .ok u t) :
    Effect hashes op [unissueOf (issued.getD (nullAsset, []))] [] s t := by
  simp only [run_bind_eq_ok, run_pure_eq_ok] at h
  obtain ⟨_, v, hremoved, -, rfl⟩ := h
  exact removeIssued_effect hremoved

theorem removeReissued_effect (h : removeReissued env tx vUndoData s = .ok u t) :
    Effect hashes op [unreissueOf vUndoData
      ((tx.reissueAssetFromTransaction env).getD (nullReissue, [])).1] [] s t := by
  simp only [removeReissued, run_bind_eq_ok, run_lift_eq_ok, require_eq_ok, run_ask_eq_ok,
    run_onlyIf_eq_ok] at h
  obtain ⟨⟨reissue, address⟩, _, ⟨hread, rfl⟩, known, u, hlookup, hremove⟩ := h
  have hsame : Quiet hashes s _ := checkIfAssetExists_quiet reissue.strName true s
  rw [hlookup] at hsame
  have hknown : s.WellFormed → (u.nameState reissue.strName).known = known := by
    intro hs
    rw [hsame.untouched.nameState, ← hs.exists_eq, hlookup]
  rw [hread]
  cases known with
  | true =>
    obtain ⟨removed, w, hw, -, rfl⟩ := hremove
    have heffect : Effect hashes op _ _ s _ := removeReissueAsset_effect address reissue
      ⟨tx.hash, tx.vout.length - 1⟩ vUndoData hsame hknown
    rwa [hw] at heffect
  | false =>
    obtain rfl := hremove
    refine hsame.andThen (fun hs => does_nothing ?_) (marked_view rfl)
    simp [NameState.step, unreissueOf, AssetEvent.name, hknown hs]

theorem removeCreated_effect (h : removeCreated env tx vUndoData s = .ok u t) :
    Effect hashes op
      ((tx.issued env).map unissueOf ++ (tx.reissue env).toList.map (unreissueOf vUndoData)) []
      s t := by
  revert h
  unfold removeCreated issued reissue
  cases hnew : tx.isNewAsset env
  case true =>
    simp only [if_true, run_bind_eq_ok, run_lift_eq_ok, run_modify_eq_ok]
    rintro ⟨_, v, hremoved, _, _, ⟨-, rfl⟩, rfl⟩
    exact (removeIssued_effect hremoved).then (removeOwnerAsset_quiet _).effect
  cases hreissue : tx.isReissueAsset
  case true => exact removeReissued_effect
  cases hunique : tx.isNewUniqueAsset env
  case true =>
    simp only [Bool.false_eq_true, if_false, if_true]
    intro h
    have hloop : Effect hashes op _ _ s t :=
      Effect.forM (fun _ _ _ _ hout => by exact dropIssued_effect hout) h
    rw [← map_eq_flatMap, flatMap_none] at hloop
    simpa [Function.comp_def] using hloop
  cases hchannel : tx.isNewMsgChannelAsset env
  case true => exact dropIssued_effect
  cases hqualifier : tx.isNewQualifierAsset env
  case true => exact dropIssued_effect
  cases hrestricted : tx.isNewRestrictedAsset env
  case true =>
    simp only [Bool.false_eq_true, if_false, if_true, removeRestricted, run_bind_eq_ok,
      run_lift_eq_ok, run_modify_eq_ok]
    rintro ⟨_, v, hremoved, _, _, ⟨-, rfl⟩, _, _, ⟨-, rfl⟩, rfl⟩
    exact (removeIssued_effect hremoved).then (effect_view (untouched_view rfl rfl rfl) rfl)
  intro h
  obtain ⟨-, rfl⟩ := run_pure_eq_ok.mp h
  exact .refl _

theorem removeTransferOutput_quiet (env : Env) (output : COutPoint × CTxOut) :
    Keeps (Quiet env.hashes) (removeTransferOutput env output) :=
  onlyIf_quiet (lift_bind_quiet fun _ => ask_bind_quiet removeTransfer_quiet fun _ => lift_quiet)

theorem removeNullAssetOutput_effect {output : COutPoint × CTxOut}
    (h : removeNullAssetOutput env output s = .ok u t) :
    Effect hashes .unmark [] (output.2.scriptPubKey.mark? env).toList s t := by
  rw [removeNullAssetOutput_ok h]
  exact unmarkOf_effect

theorem undoTxAssets_effect (h : undoTxAssets env tx vUndoData s = .ok u t) :
    Effect env.hashes .unmark (tx.disconnectEvents env vUndoData) (tx.undoneMarks env) s t := by
  rw [undoTxAssets, run_onlyIf_eq_ok] at h
  unfold disconnectEvents undoneMarks marks
  cases hactive : env.deployments.areAssetsDeployed
  case false =>
    simp only [hactive, Bool.false_eq_true, if_false] at h
    rw [h, if_neg Bool.false_ne_true, if_neg Bool.false_ne_true, ite_self]
    exact .refl t
  simp only [hactive, if_true, run_bind_eq_ok, run_onlyIf_eq_ok] at h
  obtain ⟨_, v, hcreated, _, w, htransfers, hnull⟩ := h
  have hbefore : Effect env.hashes .unmark _ _ s w := (removeCreated_effect hcreated).then
    (forM_quiet (removeTransferOutput_quiet env) v _ w htransfers).effect
  cases hrestricted : env.deployments.areRestrictedAssetsDeployed
  case false =>
    simp only [hrestricted, Bool.false_eq_true, if_false] at hnull
    exact hnull ▸ hbefore
  simp only [hrestricted, if_true] at hnull
  have hboth := hbefore.trans (Effect.forM (fun _ _ _ _ h => removeNullAssetOutput_effect h) hnull)
  rw [tx.flatMap_mark?, flatMap_none, append_nil] at hboth
  exact hboth

theorem restoreInputs_quiet {vprevout : List Coin} {scan : DisconnectScan} :
    Keeps (Quiet env.hashes) (restoreInputs env tx vprevout scan) := by
  refine lift_bind_quiet fun _ => foldlM_quiet _ fun scan input => lift_bind_quiet fun _ => ?_
  refine ask_bind_quiet (fun s => ?_) fun _ => pure_quiet
  unfold undoCoinAssets
  split
  · exact undoAssetCoin_quiet s
  · exact .refl s

theorem disconnectTx_effect {scan scan' : DisconnectScan} {item : CTransaction × Option (List Coin)}
    (h : disconnectTx env nHeight vUndoData scan item s = .ok scan' t) :
    Effect env.hashes .unmark (item.1.disconnectEvents env vUndoData) (item.1.undoneMarks env)
      s t := by
  obtain ⟨tx, undo⟩ := item
  simp only [disconnectTx, run_bind_eq_ok, run_get_eq_ok] at h
  obtain ⟨_, _, ⟨rfl, rfl⟩, _, v, hassets, hinputs⟩ := h
  refine (undoTxAssets_effect hassets).then (Quiet.effect ?_)
  cases undo with
  | none => exact pure_quiet v scan' t hinputs
  | some vprevout => exact restoreInputs_quiet v scan' t hinputs

def CBlock.disconnectEvents (block : CBlock) (env : Env)
    (vUndo : List (Bytes × CBlockAssetUndo)) : List AssetEvent :=
  block.vtx.reverse.flatMap fun tx => tx.disconnectEvents env vUndo

def CBlock.undoneMarks (block : CBlock) (env : Env) : List Mark :=
  block.vtx.reverse.flatMap fun tx => tx.undoneMarks env

/-- Disconnecting a block undoes its events and takes its marks back, clean or not. -/
theorem disconnectBlock_effect {vtxundo : List (List Coin)} {scan : DisconnectScan}
    (h : disconnectBlock env block nHeight vtxundo coins s = .ok scan t) :
    Effect env.hashes .unmark
      (block.disconnectEvents env (s.assetsdb.readBlockUndoAssetData block.hash))
      (block.undoneMarks env) s t := by
  simp only [disconnectBlock, run_bind_eq_ok, run_lift_eq_ok, ensure_eq_ok, decide_eq_true_eq,
    run_get_eq_ok] at h
  obtain ⟨_, _, ⟨hlength, rfl⟩, _, _, ⟨rfl, rfl⟩, hloop⟩ := h
  have hvtx : ((block.vtx.zip (none :: vtxundo.map some)).reverse.map Prod.fst) =
      block.vtx.reverse := by
    rw [map_reverse, map_fst_zip (by simp; omega)]
  have heffect := Effect.foldlM (fun _ _ _ _ _ h => disconnectTx_effect h) hloop
  rw [CBlock.disconnectEvents, CBlock.undoneMarks, ← hvtx, flatMap_map, flatMap_map]
  exact heffect

end HnbCore
