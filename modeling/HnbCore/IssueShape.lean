import HnbCore.IssueOnce

/-!
# The shapes of asset creation

`CheckTransaction` picks a branch by the last outputs of a transaction and then counts all of
them. Together the branches leave five shapes, and each that creates something has paid its burn.
-/

namespace HnbCore

open Checks List CTransaction

namespace CTransaction

def issues (tx : CTransaction) : List CTxOut := tx.vout.filter (·.scriptPubKey.isNewAsset)

def owners (tx : CTransaction) : List CTxOut := tx.vout.filter (·.scriptPubKey.isOwnerAsset)

def reissues (tx : CTransaction) : List CTxOut := tx.vout.filter (·.scriptPubKey.isReissueAsset)

/-- Some output pays the burn address of the type, exactly so many times the burn amount. -/
def PaysBurn (env : Env) (tx : CTransaction) (type : AssetType) (count : Nat) : Prop :=
  ∃ out ∈ tx.vout, out.nValue = env.getBurnAmount type * count ∧
    ∃ destination, env.extractDestination out.scriptPubKey = some destination ∧
      env.encodeDestination destination = env.getBurnAddress type

end CTransaction

inductive AssetShape
  | nothing
  | issueWithOwner
  | issueAlone
  | uniques
  | reissue
  deriving DecidableEq, Repr

/-- What a transaction of each shape creates, and the burn it pays. A unique asset on its own is
one of a number of unique assets. -/
def CTransaction.HasShape (env : Env) (tx : CTransaction) : AssetShape → Prop
  | .nothing => tx.issues = [] ∧ tx.owners = [] ∧ tx.reissues = []
  | .issueWithOwner => ∃ issue owner asset address,
      tx.issues = [issue] ∧ tx.owners = [owner] ∧ tx.reissues = [] ∧
        assetFromScript env issue.scriptPubKey = some (asset, address) ∧
        ownerAssetFromScript env owner.scriptPubKey = some (asset.strName ++ ownerTag, address) ∧
        tx.PaysBurn env (assetTypeOf asset.strName) 1
  | .issueAlone => ∃ issue asset address,
      tx.issues = [issue] ∧ tx.owners = [] ∧ tx.reissues = [] ∧
        assetFromScript env issue.scriptPubKey = some (asset, address) ∧
        assetTypeOf asset.strName ≠ .unique ∧ tx.PaysBurn env (assetTypeOf asset.strName) 1
  | .uniques => tx.issues ≠ [] ∧ tx.owners = [] ∧ tx.reissues = [] ∧
      (∃ parent, ∀ issue ∈ tx.issues, ∃ asset address,
        assetFromScript env issue.scriptPubKey = some (asset, address) ∧
          assetTypeOf asset.strName = .unique ∧ getParentName asset.strName = parent) ∧
      (tx.issues.map fun issue =>
        (assetFromScript env issue.scriptPubKey).map (·.1.strName)).Nodup ∧
      tx.PaysBurn env .unique tx.issues.length
  | .reissue => ∃ out reissue address,
      tx.issues = [] ∧ tx.owners = [] ∧ tx.reissues = [out] ∧
        reissueAssetFromScript env out.scriptPubKey = some (reissue, address) ∧
        tx.PaysBurn env .reissue 1

section Outputs

variable {env : Env} {tx : CTransaction} {out : CTxOut} {p : CScript → Bool} {count : Nat}
  {type : AssetType}

theorem filter_of_countP_one
    (h : tx.vout.countP (fun out => p out.scriptPubKey) = 1) (hout : out ∈ tx.vout)
    (hp : p out.scriptPubKey = true) : tx.vout.filter (fun out => p out.scriptPubKey) = [out] := by
  rw [countP_eq_length_filter, length_eq_one_iff] at h
  obtain ⟨only, honly⟩ := h
  have hmem : out ∈ tx.vout.filter (fun out => p out.scriptPubKey) :=
    mem_filter.mpr ⟨hout, hp⟩
  rw [honly, mem_singleton] at hmem
  rw [honly, hmem]

theorem filter_of_countP_zero (h : tx.vout.countP (fun out => p out.scriptPubKey) = 0) :
    tx.vout.filter (fun out => p out.scriptPubKey) = [] := by
  rwa [countP_eq_length_filter, length_eq_zero_iff] at h

theorem paysBurn_of_paysTo (hout : out ∈ tx.vout)
    (h : paysTo env out (env.getBurnAmount type * count) (env.getBurnAddress type) = true) :
    tx.PaysBurn env type count := by
  unfold paysTo at h
  rw [Bool.and_eq_true, decide_eq_true_eq] at h
  obtain ⟨hvalue, hpaid⟩ := h
  cases hdestination : env.extractDestination out.scriptPubKey with
  | none => simp [hdestination] at hpaid
  | some destination =>
    simp only [hdestination, Bool.and_eq_true, decide_eq_true_eq] at hpaid
    exact ⟨out, hout, hvalue, destination, hdestination, hpaid.2⟩

theorem paysBurn_of_issue
    (h : tx.hasIssueBurn env type count = true) : tx.PaysBurn env type count := by
  obtain ⟨out, hout, hburn⟩ := any_eq_true.mp h
  unfold checkIssueBurnTx at hburn
  split at hburn
  · cases hburn
  · exact paysBurn_of_paysTo hout hburn

theorem paysBurn_of_reissue (h : tx.vout.any (checkReissueBurnTx env) = true) :
    tx.PaysBurn env .reissue 1 := by
  obtain ⟨out, hout, hburn⟩ := any_eq_true.mp h
  refine paysBurn_of_paysTo hout ?_
  simpa [checkReissueBurnTx, Env.getBurnAmount, Env.getBurnAddress] using hburn

theorem isScriptOwnerAsset_isSome (script : CScript) :
    (isScriptOwnerAsset script).isSome = script.isOwnerAsset := by
  unfold isScriptOwnerAsset assetDataStart CScript.isOwnerAsset
  cases script.isAssetScript with
  | none => rfl
  | some a => by_cases hn : a.nType = .txNewAsset <;> cases ho : a.fIsOwner <;> simp [hn, ho]

theorem exists_secondLastScript (h : tx.secondLastScript ≠ []) :
    ∃ out ∈ tx.vout, out.scriptPubKey = tx.secondLastScript := by
  unfold secondLastScript at h ⊢
  cases hlast : tx.vout.dropLast.getLast? with
  | none => simp [hlast] at h
  | some out => exact ⟨out, mem_of_mem_dropLast (mem_of_getLast? hlast), rfl⟩

theorem issues_eq_last {nOwners : Nat} {asset : CNewAsset} {address : Bytes} (hne : tx.vout ≠ [])
    (h : IssuesOne env tx nOwners asset address) :
    ∃ issue, tx.issues = [issue] ∧ assetFromScript env issue.scriptPubKey = some (asset, address) := by
  obtain ⟨issue, hmem, hscript⟩ := exists_lastScript hne
  have hfrom : assetFromScript env issue.scriptPubKey = some (asset, address) := hscript ▸ h.found
  exact ⟨issue, filter_of_countP_one h.issues hmem (isNewAsset_of_assetFromScript hfrom), hfrom⟩

end Outputs

section Branches

variable {env : Env} {tx : CTransaction}

theorem hasShape_of_newAsset (hne : tx.vout ≠ []) (hkind : tx.isNewAsset env = true)
    (h : checkNewAssetTx env tx = .ok ()) : tx.HasShape env .issueWithOwner := by
  simp only [checkNewAssetTx, bind_eq_ok, reject_eq_ok, require_eq_ok] at h
  obtain ⟨_, hverify, ⟨asset, address⟩, hasset, _, hownerTx, _⟩ := h
  obtain ⟨asset', address', ownerAddress, hone, howner, -⟩ := verifyNewAsset_ok hverify
  obtain ⟨issue, hissues, hfrom⟩ := issues_eq_last hne hone
  -- the asset whose address the owner output is compared with is the same one
  rw [assetFromTransaction, if_pos hkind, hone.found, Option.some.injEq] at hasset
  obtain ⟨rfl, rfl⟩ := hasset
  simp only [isNewOwnerTxValid, ownerFromTransaction, if_pos hkind,
    howner, bind_eq_ok, require_eq_ok, ensure_eq_ok, Option.some.injEq] at hownerTx
  obtain ⟨_, rfl, _, haddress, -⟩ := hownerTx
  have haddress : ownerAddress = address := by simpa using haddress
  have hlayout := (isNewAsset_layout hkind).2.2.1
  have hscript : tx.secondLastScript ≠ [] := by
    intro hnil
    rw [hnil] at hlayout
    exact absurd hlayout (by decide)
  obtain ⟨owner, hmem, hsecond⟩ := exists_secondLastScript hscript
  rw [isScriptOwnerAsset_isSome, ← hsecond] at hlayout
  exact ⟨issue, owner, asset, address, hissues, filter_of_countP_one hone.owners hmem hlayout,
    filter_of_countP_zero hone.reissues, hfrom, by rw [hsecond, howner, haddress],
    paysBurn_of_issue hone.burn⟩

theorem hasShape_of_issuesOne {asset : CNewAsset} {address : Bytes} (hne : tx.vout ≠ [])
    (h : IssuesOne env tx 0 asset address) (htype : assetTypeOf asset.strName ≠ .unique) :
    tx.HasShape env .issueAlone := by
  obtain ⟨issue, hissues, hfrom⟩ := issues_eq_last hne h
  exact ⟨issue, asset, address, hissues, filter_of_countP_zero h.owners,
    filter_of_countP_zero h.reissues, hfrom, htype, paysBurn_of_issue h.burn⟩

theorem hasShape_of_reissue (hne : tx.vout ≠ []) (h : tx.verifyReissueAsset env = .ok ()) :
    tx.HasShape env .reissue := by
  obtain ⟨reissue, address, hfrom, -, hburn, hissues, howners, hreissues⟩ := verifyReissueAsset_ok h
  obtain ⟨out, hmem, hscript⟩ := exists_lastScript hne
  rw [← hscript] at hfrom
  exact ⟨out, reissue, address, filter_of_countP_zero hissues, filter_of_countP_zero howners,
    filter_of_countP_one hreissues hmem (isReissueAsset_of_reissueAssetFromScript hfrom), hfrom,
    paysBurn_of_reissue hburn⟩

theorem hasShape_of_uniques (h : tx.verifyNewUniqueAsset env = .ok ()) :
    tx.HasShape env .uniques := by
  obtain ⟨scan, hscan, hburn, -, hunique, hcount, hsome, howners, hreissues⟩ :=
    verifyNewUniqueAsset_ok h
  have hissues : tx.issues = tx.vout.filter fun out => isScriptNewUniqueAsset env out.scriptPubKey :=
    filter_congr hunique
  have hlength : tx.issues.length = scan.setUniqueAssets.length := by
    rw [← hcount, issues, ← countP_eq_length_filter]
    rfl
  have hread : ∀ issue ∈ tx.issues, ∃ asset address,
      assetFromScript env issue.scriptPubKey = some (asset, address) ∧
        isAssetNameValid asset.strName = .ok .unique := by
    intro issue hissue
    rw [hissues] at hissue
    exact issuedType_eq_some.mp (of_decide_eq_true (mem_filter.mp hissue).2)
  refine ⟨?_, filter_of_countP_zero howners, filter_of_countP_zero hreissues,
    ⟨scan.assetRoot, fun issue hissue => ?_⟩, ?_, hlength ▸ paysBurn_of_issue hburn⟩
  · intro hnil
    rw [hnil, length_nil] at hlength
    exact hsome hlength.symm
  · obtain ⟨asset, address, hfrom, hvalid⟩ := hread issue hissue
    rw [hissues] at hissue
    obtain ⟨hmem, hyes⟩ := mem_filter.mp hissue
    exact ⟨asset, address, hfrom, assetTypeOf_eq hvalid,
      (uniqueScan_ok hscan).2.2 issue hmem hyes asset address hfrom⟩
  · -- every issue can be read, so the names are those of the scan
    have hnames : (tx.issues.map fun issue =>
        (assetFromScript env issue.scriptPubKey).map (·.1.strName)) =
        (tx.issues.map fun issue =>
          ((assetFromScript env issue.scriptPubKey).getD (nullAsset, [])).1.strName).map some := by
      rw [map_map]
      refine map_congr_left fun issue hissue => ?_
      obtain ⟨asset, address, hfrom, -⟩ := hread issue hissue
      simp [hfrom]
    rw [hnames, hissues]
    exact (uniqueScan_nodup hscan).1.map (Option.some_injective _)

theorem hasShape_of_onlyTransfers (h : checkOnlyTransfers tx = .ok ()) :
    tx.HasShape env .nothing := by
  have hnone := fun out (hout : out ∈ tx.vout) => no_creation_of_onlyTransfers h hout
  refine ⟨?_, ?_, ?_⟩
  · exact filter_eq_nil_iff.mpr fun out hout => by simp [(hnone out hout).1]
  · exact filter_eq_nil_iff.mpr fun out hout => by simp [(hnone out hout).2.1]
  · exact filter_eq_nil_iff.mpr fun out hout => by simp [(hnone out hout).2.2]

/-- The shape can be read off the lists of outputs. -/
def CTransaction.shape (env : Env) (tx : CTransaction) : AssetShape :=
  if tx.reissues ≠ [] then .reissue
  else if tx.owners ≠ [] then .issueWithOwner
  else if tx.issues = [] then .nothing
  else if tx.issues.all fun issue => isScriptNewUniqueAsset env issue.scriptPubKey then .uniques
  else .issueAlone

theorem eq_shape_of_hasShape {shape : AssetShape} (h : tx.HasShape env shape) :
    shape = tx.shape env := by
  unfold CTransaction.shape
  cases shape with
  | nothing =>
    obtain ⟨hissues, howners, hreissues⟩ := h
    simp [hissues, howners, hreissues]
  | issueWithOwner =>
    obtain ⟨issue, owner, _, _, -, howners, hreissues, -⟩ := h
    simp [howners, hreissues]
  | issueAlone =>
    obtain ⟨issue, asset, address, hissues, howners, hreissues, hfrom, htype, -⟩ := h
    have hno : isScriptNewUniqueAsset env issue.scriptPubKey = false := by
      by_contra hyes
      have hunique : issuedType env issue.scriptPubKey = some .unique := by
        simpa [isScriptNewUniqueAsset] using hyes
      exact htype (assetTypeOf_eq (valid_of_issuedType hunique hfrom))
    simp [hissues, howners, hreissues, hno]
  | uniques =>
    obtain ⟨hissues, howners, hreissues, ⟨_, hall⟩, -⟩ := h
    have hyes : ∀ issue ∈ tx.issues, isScriptNewUniqueAsset env issue.scriptPubKey = true := by
      intro issue hissue
      obtain ⟨asset, address, hfrom, htype, -⟩ := hall issue hissue
      have hissued := issuedType_of_assetFromScript hfrom (by simp [htype])
      simp [isScriptNewUniqueAsset, hissued, htype]
    simpa [hissues, howners, hreissues] using hyes
  | reissue =>
    obtain ⟨out, _, _, -, -, hreissues, -⟩ := h
    simp [hreissues]

end Branches

theorem exists_hasShape {env : Env} {tx : CTransaction} {d m b : Bool} (h : Accepted env tx d m b) :
    ∃ shape, tx.HasShape env shape := by
  have hne := h.vout_ne_nil
  obtain ⟨flags, hkind⟩ := h.kind
  rcases checkAssetTx_cases hkind with ⟨hnew, hcheck⟩ | hreissue | hunique | hmsg | hqual |
    hrestricted | htransfers
  · exact ⟨_, hasShape_of_newAsset hne hnew hcheck⟩
  · exact ⟨_, hasShape_of_reissue hne hreissue⟩
  · exact ⟨_, hasShape_of_uniques hunique⟩
  · obtain ⟨asset, address, hone, htype, -⟩ := verifyNewMsgChannelAsset_ok hmsg
    exact ⟨_, hasShape_of_issuesOne hne hone (by simp [htype])⟩
  · obtain ⟨asset, address, hone, htype, -⟩ := verifyNewQualfierAsset_ok hqual
    exact ⟨_, hasShape_of_issuesOne hne hone (by rcases htype with h | h <;> simp [h])⟩
  · obtain ⟨asset, address, hone, htype, -⟩ := verifyNewRestrictedAsset_ok hrestricted
    exact ⟨_, hasShape_of_issuesOne hne hone (by simp [htype])⟩
  · exact ⟨_, hasShape_of_onlyTransfers htransfers⟩

/-- Every accepted transaction has exactly one of the shapes. -/
theorem issuance_shape (env : Env) (tx : CTransaction)
    (fCheckDuplicateInputs fMempoolCheck fBlockCheck : Bool)
    (h : checkTransaction env tx fCheckDuplicateInputs fMempoolCheck fBlockCheck = .ok ()) :
    ∃! shape, tx.HasShape env shape := by
  obtain ⟨shape, hshape⟩ := exists_hasShape (checkTransaction_accepted h)
  refine ⟨shape, hshape, fun other hother => ?_⟩
  rw [eq_shape_of_hasShape hother, eq_shape_of_hasShape hshape]

/-- A message channel that comes with the transfer of its parent's owner token. -/
theorem channelTx_shape :
    checkTransaction regTestEnv channelTx true false true = .ok () ∧
      ∃! shape, channelTx.HasShape regTestEnv shape := by
  have hok : checkTransaction regTestEnv channelTx true false true = .ok () := by decide +kernel
  exact ⟨hok, issuance_shape regTestEnv channelTx true false true hok⟩

end HnbCore
