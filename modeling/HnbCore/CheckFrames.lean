import HnbCore.EventOps

/-!
# Checks are quiet

The checks of a transaction look names, tags, freezes and verifier strings up. Whatever they answer,
only the least recently used caches and the balances are different afterwards.
-/

namespace HnbCore

open Checks AssetState List

section Rules

variable {hashes : Hashes} {ε α β τ : Type} {a : α} {e : ε} {x : Except ε α}
  {f : α → EStateM ε AssetState β} {l : List α}

theorem pure_quiet : Keeps (Quiet hashes) (pure a : EStateM ε AssetState α) :=
  keeps_pure Quiet.refl a

theorem lift_quiet : Keeps (Quiet hashes) (monadLift x : EStateM ε AssetState α) :=
  keeps_lift Quiet.refl x

theorem bind_quiet {x : EStateM ε AssetState α}
    (hx : Keeps (Quiet hashes) x) (hf : ∀ a, Keeps (Quiet hashes) (f a)) :
    Keeps (Quiet hashes) (x >>= f) :=
  keeps_bind (fun _ _ _ h h' => h.trans h') hx hf

theorem lift_bind_quiet (hf : ∀ a, Keeps (Quiet hashes) (f a)) :
    Keeps (Quiet hashes) (monadLift x >>= f) :=
  bind_quiet lift_quiet hf

theorem ask_bind_quiet {ask' : AssetState → α × AssetState}
    (hask : ∀ s, Quiet hashes s (ask' s).2) (hf : ∀ a, Keeps (Quiet hashes) (f a)) :
    Keeps (Quiet hashes) (ask ask' >>= f) :=
  bind_quiet (keeps_ask hask) hf

theorem onlyIf_quiet {c : Bool} {x : EStateM ε AssetState Unit} (hx : Keeps (Quiet hashes) x) :
    Keeps (Quiet hashes) (onlyIf c x) :=
  keeps_onlyIf Quiet.refl hx

theorem throw_quiet : Keeps (Quiet hashes) (throw e : EStateM ε AssetState α) := by
  intro s a t h
  cases h

theorem forM_quiet {f : α → EStateM ε AssetState Unit}
    (hf : ∀ a, Keeps (Quiet hashes) (f a)) : Keeps (Quiet hashes) (forM l f) :=
  keeps_forM Quiet.refl (fun _ _ _ h h' => h.trans h') fun a _ => hf a

theorem foldlM_quiet {f : τ → α → EStateM ε AssetState τ} (init : τ)
    (hf : ∀ b a, Keeps (Quiet hashes) (f b a)) : Keeps (Quiet hashes) (l.foldlM f init) :=
  keeps_foldlM Quiet.refl (fun _ _ _ h h' => h.trans h') init fun b a _ => hf b a

theorem mapM_quiet (hf : ∀ a, Keeps (Quiet hashes) (f a)) : Keeps (Quiet hashes) (l.mapM f) := by
  induction l with
  | nil =>
    rw [mapM_nil]
    exact pure_quiet
  | cons a l ih =>
    rw [mapM_cons]
    exact bind_quiet (hf a) fun _ => bind_quiet ih fun _ => pure_quiet

end Rules

variable {hashes : Hashes} {env : Env} {mempool : MempoolAssets} {coins : Coins} {tx : CTransaction}
  {txout : CTxOut} {fCheckMempool : Bool} {address : Bytes} {transfer : CAssetTransfer}
  {reissue : CReissueAsset}

theorem verifyChange_quiet {status : AssetState → Bool × AssetState}
    (hstatus : ∀ s, Quiet hashes s (status s).2) {data : CNullAssetTxData}
    {alreadySet notSet : String} :
    Keeps (Quiet hashes) (verifyChange data status alreadySet notSet) := by
  unfold verifyChange
  refine lift_bind_quiet fun _ => ask_bind_quiet hstatus fun _ => ?_
  split <;> exact lift_quiet

theorem contextualCheckNullAssetTxOut_quiet :
    Keeps (Quiet env.hashes) (contextualCheckNullAssetTxOut env txout) := by
  unfold contextualCheckNullAssetTxOut
  refine lift_bind_quiet fun found => ?_
  dsimp only
  split
  · exact verifyChange_quiet checkForAddressQualifier_quiet
  · split
    · exact verifyChange_quiet checkForAddressRestriction_quiet
    · exact throw_quiet

theorem contextualCheckGlobalAssetTxOut_quiet :
    Keeps (Quiet hashes) (contextualCheckGlobalAssetTxOut txout) :=
  lift_bind_quiet fun _ => verifyChange_quiet checkForGlobalRestriction_quiet

theorem contextualCheckVerifierString_quiet {verifier : Bytes} :
    Keeps (Quiet env.hashes) (contextualCheckVerifierString env verifier address) := by
  unfold contextualCheckVerifierString
  refine onlyIf_quiet (lift_bind_quiet fun qualifiers => bind_quiet ?_
    fun _ => onlyIf_quiet (bind_quiet ?_ fun vals => ?_))
  · exact forM_quiet fun _ => ask_bind_quiet (checkIfAssetExists_quiet _ _) fun _ => lift_quiet
  · exact mapM_quiet fun _ => ask_bind_quiet checkForAddressQualifier_quiet fun _ => pure_quiet
  · split
    · exact lift_quiet
    · exact throw_quiet

theorem contextualCheckVerifierAssetTxOut_quiet :
    Keeps (Quiet env.hashes) (contextualCheckVerifierAssetTxOut env txout) :=
  lift_bind_quiet fun _ => keeps_orElseFail contextualCheckVerifierString_quiet

theorem contextualCheckNullAssetOut_quiet :
    Keeps (Quiet env.hashes) (contextualCheckNullAssetOut env txout) := by
  unfold contextualCheckNullAssetOut
  refine lift_bind_quiet fun _ => ?_
  split_ifs
  · exact keeps_orElseFail contextualCheckNullAssetTxOut_quiet
  · exact keeps_orElseFail contextualCheckGlobalAssetTxOut_quiet
  · exact keeps_orElseFail contextualCheckVerifierAssetTxOut_quiet
  · exact throw_quiet

theorem contextualCheckTransferAsset_quiet :
    Keeps (Quiet env.hashes) (contextualCheckTransferAsset env transfer address) := by
  unfold contextualCheckTransferAsset
  refine lift_bind_quiet fun _ => lift_bind_quiet fun _ => lift_bind_quiet fun _ =>
    lift_bind_quiet fun _ => bind_quiet (onlyIf_quiet ?_) fun _ => lift_quiet
  refine lift_bind_quiet fun _ => ask_bind_quiet checkForGlobalRestriction_quiet fun _ =>
    lift_bind_quiet fun _ => keeps_orElseFail ?_
  unfold contextualCheckAgainstVerifyString
  refine ask_bind_quiet getAssetVerifierStringIfExists_quiet fun found => ?_
  cases found with
  | none => exact throw_quiet
  | some verifier => exact contextualCheckVerifierString_quiet

theorem contextualCheckNewAsset_quiet {asset : CNewAsset} :
    Keeps (Quiet env.hashes) (contextualCheckNewAsset env mempool asset fCheckMempool) :=
  lift_bind_quiet fun _ => lift_bind_quiet fun _ => ask_bind_quiet (checkIfAssetExists_quiet _ _) fun _ =>
    lift_bind_quiet fun _ => lift_bind_quiet fun _ => lift_bind_quiet fun _ => lift_quiet

theorem contextualCheckReissueVerifier_quiet :
    Keeps (Quiet env.hashes) (contextualCheckReissueVerifier env reissue address tx) := by
  unfold contextualCheckReissueVerifier
  split
  · exact throw_quiet
  · exact onlyIf_quiet contextualCheckVerifierString_quiet
  · refine onlyIf_quiet (ask_bind_quiet getAssetVerifierStringIfExists_quiet fun found => ?_)
    cases found with
    | none => exact throw_quiet
    | some current => exact contextualCheckVerifierString_quiet

theorem contextualCheckReissueAsset_quiet :
    Keeps (Quiet env.hashes) (contextualCheckReissueAsset env reissue tx) :=
  lift_bind_quiet fun _ => lift_bind_quiet fun _ =>
    ask_bind_quiet (getAssetMetaDataIfExists_quiet _) fun _ =>
    lift_bind_quiet fun _ => lift_bind_quiet fun _ => lift_bind_quiet fun _ =>
    lift_bind_quiet fun _ => onlyIf_quiet contextualCheckReissueVerifier_quiet

theorem checkIssue_quiet {deployed : Bool} {asset : Option (CNewAsset × Bytes)}
    {beforeActive badSerialization : String} {message : String → String} :
    Keeps (Quiet env.hashes) (checkIssue env mempool fCheckMempool deployed beforeActive asset
      badSerialization message) :=
  lift_bind_quiet fun _ => lift_bind_quiet fun _ =>
    bind_quiet (keeps_orElseFail contextualCheckNewAsset_quiet) fun _ => pure_quiet

theorem checkIssueVerifier_quiet : Keeps (Quiet env.hashes) (checkIssueVerifier env tx address) := by
  unfold checkIssueVerifier
  split
  · exact keeps_orElseFail contextualCheckVerifierString_quiet
  · exact throw_quiet
  · exact throw_quiet

theorem contextualCheckUniqueAssetTx_quiet :
    Keeps (Quiet env.hashes) (contextualCheckUniqueAssetTx env mempool tx) :=
  forM_quiet fun _ => onlyIf_quiet (lift_bind_quiet fun _ => contextualCheckNewAsset_quiet)

theorem checkCreated_quiet :
    Keeps (Quiet env.hashes) (checkCreated env mempool tx fCheckMempool) := by
  unfold checkCreated
  split_ifs
  · exact bind_quiet checkIssue_quiet fun _ => pure_quiet
  · exact lift_bind_quiet fun _ => keeps_orElseFail contextualCheckReissueAsset_quiet
  · exact keeps_orElseFail contextualCheckUniqueAssetTx_quiet
  · exact bind_quiet checkIssue_quiet fun _ => pure_quiet
  · exact bind_quiet checkIssue_quiet fun _ => pure_quiet
  · exact bind_quiet checkIssue_quiet fun _ => checkIssueVerifier_quiet
  · exact lift_quiet

theorem checkAssetInput_quiet (totals : AssetTotals) (txin : CTxIn) :
    Keeps (Quiet env.hashes) (checkAssetInput env coins totals txin) := by
  unfold checkAssetInput
  refine lift_bind_quiet fun coin => ?_
  split
  · exact lift_bind_quiet fun _ => bind_quiet (onlyIf_quiet
      (ask_bind_quiet checkForAddressRestriction_quiet fun _ => lift_quiet)) fun _ => pure_quiet
  · exact pure_quiet

theorem checkTransferAmount_quiet : Keeps (Quiet hashes) (checkTransferAmount transfer) := by
  unfold checkTransferAmount
  split
  · exact lift_quiet
  · exact ask_bind_quiet (getAssetMetaDataIfExists_quiet _) fun _ =>
      lift_bind_quiet fun _ => lift_bind_quiet fun _ => lift_quiet

theorem checkAssetOutput_quiet (scan : AssetOutputScan) (txout : CTxOut) :
    Keeps (Quiet env.hashes) (checkAssetOutput env mempool tx scan txout) := by
  unfold checkAssetOutput
  refine lift_bind_quiet fun _ => bind_quiet
    (onlyIf_quiet contextualCheckNullAssetOut_quiet) fun _ => ?_
  split_ifs
  · exact lift_bind_quiet fun _ => bind_quiet
      (keeps_orElseFail contextualCheckTransferAsset_quiet) fun _ =>
      bind_quiet checkTransferAmount_quiet fun _ => pure_quiet
  · refine lift_bind_quiet fun _ => ?_
    dsimp only
    split
    · exact lift_bind_quiet fun _ => pure_quiet
    · exact pure_quiet
  · exact pure_quiet

theorem checkTxAssets_quiet :
    Keeps (Quiet env.hashes) (checkTxAssets env mempool coins tx fCheckMempool) :=
  lift_bind_quiet fun _ => bind_quiet (foldlM_quiet _ checkAssetInput_quiet) fun _ =>
    bind_quiet (foldlM_quiet _ checkAssetOutput_quiet) fun _ =>
    bind_quiet checkCreated_quiet fun _ => lift_bind_quiet fun _ => pure_quiet

theorem checkBlockTx_quiet {env : ChainEnv} {nHeight : Int} {scan : ConnectScan} :
    Keeps (Quiet env.hashes) (checkBlockTx env nHeight scan tx) := by
  unfold checkBlockTx
  split
  · exact pure_quiet
  · refine lift_bind_quiet fun _ => lift_bind_quiet fun _ =>
      bind_quiet ?_ fun _ => lift_bind_quiet fun _ => pure_quiet
    unfold checkBlockTxAssets
    split
    · intro s a t h
      obtain ⟨_, hcheck, _⟩ := run_map_eq_ok.mp h
      exact checkTxAssets_quiet _ _ _ hcheck
    · exact lift_quiet

theorem spendInputs_quiet : Keeps (Quiet env.hashes) (spendInputs env tx coins) := by
  unfold spendInputs
  split
  · exact pure_quiet
  · refine foldlM_quiet _ fun scan txin => bind_quiet (lift_bind_quiet fun _ => ?_) fun _ => pure_quiet
    exact bind_quiet (onlyIf_quiet (ask_bind_quiet trySpendCoin_quiet fun _ => lift_quiet))
      fun _ => pure_quiet

end HnbCore
