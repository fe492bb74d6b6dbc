import HnbCore.CheckTransaction
import HnbCore.Lib.Lists

/-!
# Who may issue under a parent

An asset with a parent is issued by a transaction that also moves the token controlling the
parent. Every branch of `CheckTransaction` is followed to see whether it asks for that.
-/

namespace HnbCore

open Checks List CTransaction

variable {env : Env} {tx : CTransaction} {script : CScript} {asset : CNewAsset} {address : Bytes}
  {out : CTxOut} {type : AssetType}

/-- The token that controls the parent of an asset, for the types that have one. -/
def parentToken (name : Bytes) : Option Bytes :=
  match assetTypeOf name with
  | .sub | .unique | .msgchannel => some (getParentName name ++ ownerTag)
  | .subQualifier => some (getParentName name)
  | .restricted => some (name.drop 1 ++ ownerTag)
  | _ => none

/-- Some output transfers the token. -/
def TransfersToken (env : Env) (tx : CTransaction) (token : Bytes) : Prop :=
  ∃ out ∈ tx.vout, ∃ transfer address,
    transferAssetFromScript env out.scriptPubKey = some (transfer, address) ∧
      transfer.strName = token

/-- Every asset the transaction issues under a parent comes with the parent's token. -/
def ParentsTransferred (env : Env) (tx : CTransaction) : Prop :=
  ∀ out ∈ tx.vout, ∀ asset address, assetFromScript env out.scriptPubKey = some (asset, address) →
    ∀ token ∈ parentToken asset.strName, TransfersToken env tx token

/-- The layout that is verified as an ordinary new asset although the name has another parent
rule: an owner output and then a message channel or a sub-qualifier. -/
def OwnerBeforeChild (env : Env) (tx : CTransaction) : Prop :=
  tx.vout.length ≥ 3 ∧ (isScriptOwnerAsset tx.secondLastScript).isSome ∧
    (issuedType env tx.lastScript = some .msgchannel ∨
      issuedType env tx.lastScript = some .subQualifier)

theorem hasTransferOf_iff {token : Bytes} :
    tx.hasTransferOf env token = true ↔ TransfersToken env tx token := by
  simp only [hasTransferOf, any_eq_true, TransfersToken]
  refine exists_congr fun out => and_congr_right fun _ => ?_
  unfold transfers
  cases transferAssetFromScript env out.scriptPubKey with
  | none => simp
  | some found => simp [Prod.ext_iff]

theorem isScriptNewAsset_isSome (script : CScript) :
    (isScriptNewAsset script).isSome = script.isNewAsset := by
  unfold isScriptNewAsset assetDataStart CScript.isNewAsset
  cases script.isAssetScript with
  | none => rfl
  | some a => by_cases hn : a.nType = .txNewAsset <;> cases ho : a.fIsOwner <;> simp [hn, ho]

theorem isNewAsset_of_assetFromScript {found : CNewAsset × Bytes}
    (h : assetFromScript env script = some found) : script.isNewAsset = true := by
  rw [← isScriptNewAsset_isSome]
  unfold assetFromScript fromScript at h
  split at h
  · simp at h
  · rename_i heq
    simp [heq]

theorem isReissueAsset_of_reissueAssetFromScript {found : CReissueAsset × Bytes}
    (h : reissueAssetFromScript env script = some found) : script.isReissueAsset = true := by
  unfold reissueAssetFromScript fromScript isScriptReissueAsset assetDataStart at h
  unfold CScript.isReissueAsset
  cases hscript : script.isAssetScript with
  | none => simp [hscript] at h
  | some a =>
    by_cases htype : a.nType = .txReissueAsset
    · simp [htype]
    · simp [hscript, htype] at h

theorem issuedType_eq_some :
    issuedType env script = some type ↔
      ∃ asset address, assetFromScript env script = some (asset, address) ∧
        isAssetNameValid asset.strName = .ok type := by
  unfold issuedType
  cases assetFromScript env script with
  | none => simp
  | some found =>
    obtain ⟨asset, address⟩ := found
    cases hv : isAssetNameValid asset.strName with
    | error e => simp [Except.toOption, hv]
    | ok t => simp [Except.toOption, hv]

theorem valid_of_issuedType (h : issuedType env script = some type)
    (hfrom : assetFromScript env script = some (asset, address)) :
    isAssetNameValid asset.strName = .ok type := by
  obtain ⟨asset', address', heq, hvalid⟩ := issuedType_eq_some.mp h
  rw [hfrom] at heq
  obtain ⟨rfl, rfl⟩ : asset = asset' ∧ address = address' := by simpa using heq
  exact hvalid

variable {name : Bytes} {s t : CTransaction.UniqueScan} {flags : RestrictedFlags}

theorem assetTypeOf_eq (h : isAssetNameValid name = .ok type) :
    assetTypeOf name = type := by
  simp [assetTypeOf, h]

theorem issuedType_of_assetFromScript (h : assetFromScript env script = some (asset, address))
    (hvalid : assetTypeOf asset.strName ≠ .invalid) :
    issuedType env script = some (assetTypeOf asset.strName) := by
  cases hv : isAssetNameValid asset.strName with
  | error e => simp [assetTypeOf, hv] at hvalid
  | ok t => exact issuedType_eq_some.mpr ⟨asset, address, h, by rw [hv, assetTypeOf_eq hv]⟩

theorem exists_lastScript (h : tx.vout ≠ []) :
    ∃ out ∈ tx.vout, out.scriptPubKey = tx.lastScript := by
  refine ⟨tx.vout.getLast h, getLast_mem h, ?_⟩
  simp [lastScript, getLast?_eq_some_getLast h]

/-- With one issue output in all, and that one last, every issue output is the last. -/
theorem script_eq_last (hne : tx.vout ≠ []) (hcount : (getTxOutAssetTypes tx.vout).nIssues = 1)
    (hlast : tx.lastScript.isNewAsset = true) (hout : out ∈ tx.vout)
    (hnew : out.scriptPubKey.isNewAsset = true) : out.scriptPubKey = tx.lastScript := by
  obtain ⟨last, hmem, hscript⟩ := exists_lastScript hne
  rw [← hscript] at hlast ⊢
  rw [Lists.eq_of_countP_eq_one hcount hout hmem hnew hlast]

theorem parentsTransferred_of_no_issue (h : ∀ out ∈ tx.vout, out.scriptPubKey.isNewAsset = false) :
    ParentsTransferred env tx := by
  intro out hout asset address hfrom
  have := isNewAsset_of_assetFromScript hfrom
  simp [h out hout] at this

/-- A transaction whose only issue output is the last owes the transfer for that one. -/
theorem uniqueIndicator_of_valid (h : isAssetNameValid name = .ok .unique) :
    uniqueIndicator name = true := by
  unfold isAssetNameValid at h
  by_contra hu
  simp only [hu, if_false] at h
  -- every other branch gives a type that is not unique
  repeat' split at h
  all_goals simp_all

theorem upToLast_of_tagIndicator {d : UInt8} (hd : ∀ tag, afterTag tag = true → d ∉ tag)
    (h : tagIndicator d name = true) : upToLast d name = name.takeWhile (· ≠ d) := by
  unfold tagIndicator at h
  split at h
  · simp at h
  · rename_i c tag heq
    simp only [Bool.and_eq_true] at h
    have hc : c = d := by
      have := head?_dropWhile_not (fun x => decide (x ≠ d)) name
      simp only [heq, head?_cons] at this
      simpa using this
    have hname : name = name.takeWhile (· ≠ d) ++ d :: tag := by
      conv_lhs => rw [← takeWhile_append_dropWhile (p := fun x => decide (x ≠ d)) (l := name)]
      rw [heq, hc]
    have hrev : name.reverse.dropWhile (· ≠ d) = d :: (name.takeWhile (· ≠ d)).reverse := by
      conv_lhs => rw [hname]
      rw [reverse_append, reverse_cons, append_assoc,
        dropWhile_append_of_pos]
      · simp
      · intro x hx
        have hne : x ≠ d := fun hxd => hd tag h.2 (by simpa [hxd] using hx)
        simpa using hne
    rw [upToLast, hrev]
    exact reverse_reverse _

theorem getParentName_unique_ne_nil (h : isAssetNameValid name = .ok .unique) :
    getParentName name ≠ [] := by
  have hind := uniqueIndicator_of_valid h
  have hup : upToLast uniqueTagDelimiter name = name.takeWhile (· ≠ uniqueTagDelimiter) := by
    refine upToLast_of_tagIndicator (fun tag htag hmem => ?_) hind
    simp only [afterTag, Bool.and_eq_true, all_eq_true] at htag
    simpa using htag.2 _ hmem
  have hbefore : beforeTag (name.takeWhile (· ≠ uniqueTagDelimiter)) = true := by
    unfold uniqueIndicator tagIndicator at hind
    split at hind
    · simp at hind
    · simp only [Bool.and_eq_true] at hind
      exact hind.1
  have hne : name.takeWhile (· ≠ uniqueTagDelimiter) ≠ [] := by
    intro hnil
    rw [hnil] at hbefore
    simp [beforeTag] at hbefore
  simpa [getParentName, h, hup] using hne

/-- What the verify functions find in a transaction with one issue output, which is the last. -/
structure IssuesOne (env : Env) (tx : CTransaction) (nOwners : Nat) (asset : CNewAsset)
    (address : Bytes) : Prop where
  found : assetFromScript env tx.lastScript = some (asset, address)
  burn : tx.hasIssueBurn env (assetTypeOf asset.strName) 1 = true
  issues : (getTxOutAssetTypes tx.vout).nIssues = 1
  owners : (getTxOutAssetTypes tx.vout).nOwners = nOwners
  reissues : (getTxOutAssetTypes tx.vout).nReissues = 0

theorem IssuesOne.parentsTransferred (h : IssuesOne env tx nOwners asset address)
    (hne : tx.vout ≠ [])
    (htoken : ∀ token ∈ parentToken asset.strName, TransfersToken env tx token) :
    ParentsTransferred env tx := by
  intro out hout asset' address' hfrom token htok
  rw [script_eq_last hne h.issues (isNewAsset_of_assetFromScript h.found) hout
    (isNewAsset_of_assetFromScript hfrom), h.found] at hfrom
  obtain ⟨rfl, rfl⟩ : asset = asset' ∧ address = address' := by simpa using hfrom
  exact htoken token htok

theorem verifyNewAsset_ok (h : tx.verifyNewAsset env = .ok ()) :
    ∃ asset address ownerAddress, IssuesOne env tx 1 asset address ∧
      ownerAssetFromScript env tx.secondLastScript = some (asset.strName ++ ownerTag, ownerAddress) ∧
      (assetTypeOf asset.strName = .sub →
        TransfersToken env tx (getParentName asset.strName ++ ownerTag)) := by
  simp only [verifyNewAsset, bind_eq_ok, ensure_eq_ok, require_eq_ok,
    decide_eq_true_eq] at h
  obtain ⟨_, _, _, _, _, _, ⟨asset, address⟩, hfrom, ⟨_, ownerAddress⟩, howner, _, rfl, _, hburn, _,
    hsub, hcounts⟩ := h
  simp only [Bool.not_eq_true', Bool.or_eq_false_iff, decide_eq_false_iff_not, not_not] at hcounts
  obtain ⟨⟨howners, hissues⟩, hreissues⟩ := hcounts
  refine ⟨asset, address, ownerAddress, ⟨hfrom, hburn, hissues, howners, by omega⟩, howner, ?_⟩
  intro htype
  simpa [htype, hasTransferOf_iff] using hsub

/-- The token that authorises a reissue: the owner token of the asset, or of the asset that a
restricted one belongs to. -/
def CReissueAsset.ownerToken (reissue : CReissueAsset) : Bytes :=
  (if assetTypeOf reissue.strName = .restricted then reissue.strName.drop 1 else reissue.strName) ++
    ownerTag

theorem verifyReissueAsset_ok (h : tx.verifyReissueAsset env = .ok ()) :
    ∃ reissue address, reissueAssetFromScript env tx.lastScript = some (reissue, address) ∧
      TransfersToken env tx reissue.ownerToken ∧ tx.vout.any (checkReissueBurnTx env) = true ∧
      (getTxOutAssetTypes tx.vout).nIssues = 0 ∧
      (getTxOutAssetTypes tx.vout).nOwners = 0 ∧
      (getTxOutAssetTypes tx.vout).nReissues = 1 := by
  simp only [verifyReissueAsset, bind_eq_ok, ensure_eq_ok, require_eq_ok,
    hasTransferOf_iff] at h
  obtain ⟨_, _, _, _, ⟨reissue, address⟩, hfrom, _, htransfer, _, hburn, hcounts⟩ := h
  simp only [Bool.not_eq_true', Bool.or_eq_false_iff, decide_eq_false_iff_not, not_not] at hcounts
  obtain ⟨⟨howners, hreissues⟩, hissues⟩ := hcounts
  exact ⟨reissue, address, hfrom, htransfer, hburn, by omega, by omega, hreissues⟩

theorem onlyOneIssue_ok {strError : String} (h : tx.onlyOneIssue strError = .ok ())
    (hfrom : assetFromScript env tx.lastScript = some (asset, address))
    (hburn : tx.hasIssueBurn env (assetTypeOf asset.strName) 1 = true) :
    IssuesOne env tx 0 asset address := by
  simp only [onlyOneIssue, ensure_eq_ok, Bool.not_eq_true', Bool.or_eq_false_iff,
    decide_eq_false_iff_not, not_not] at h
  obtain ⟨⟨howners, hissues⟩, hreissues⟩ := h
  exact ⟨hfrom, hburn, hissues, howners, by omega⟩

theorem verifyNewMsgChannelAsset_ok (h : tx.verifyNewMsgChannelAsset env = .ok ()) :
    ∃ asset address, IssuesOne env tx 0 asset address ∧
      assetTypeOf asset.strName = .msgchannel ∧
      TransfersToken env tx (getParentName asset.strName ++ ownerTag) := by
  simp only [verifyNewMsgChannelAsset, bind_eq_ok, ensure_eq_ok, require_eq_ok,
    hasTransferOf_iff] at h
  obtain ⟨_, _, _, _, ⟨asset, address⟩, hfrom, _, hburn, _, htransfer, hcounts⟩ := h
  unfold msgChannelAssetFromScript at hfrom
  split at hfrom
  · rename_i hmsg
    have htype := assetTypeOf_eq (valid_of_issuedType (of_decide_eq_true hmsg) hfrom)
    exact ⟨asset, address, onlyOneIssue_ok hcounts hfrom (htype ▸ hburn), htype, htransfer⟩
  · simp at hfrom

theorem verifyNewQualfierAsset_ok (h : tx.verifyNewQualfierAsset env = .ok ()) :
    ∃ asset address, IssuesOne env tx 0 asset address ∧
      (assetTypeOf asset.strName = .qualifier ∨ assetTypeOf asset.strName = .subQualifier) ∧
      (assetTypeOf asset.strName = .subQualifier →
        TransfersToken env tx (getParentName asset.strName)) := by
  simp only [verifyNewQualfierAsset, bind_eq_ok, ensure_eq_ok, require_eq_ok] at h
  obtain ⟨_, _, _, _, ⟨asset, address⟩, hfrom, _, hburn, _, htransfer, hcounts⟩ := h
  unfold qualifierAssetFromScript at hfrom
  split at hfrom
  · rename_i hqual
    simp only [isScriptNewQualifierAsset, Bool.or_eq_true, decide_eq_true_eq] at hqual
    refine ⟨asset, address, onlyOneIssue_ok hcounts hfrom hburn, ?_, fun hsub => ?_⟩
    · rcases hqual with hq | hq
      · exact Or.inl (assetTypeOf_eq (valid_of_issuedType hq hfrom))
      · exact Or.inr (assetTypeOf_eq (valid_of_issuedType hq hfrom))
    · simpa [hsub, hasTransferOf_iff] using htransfer
  · simp at hfrom

theorem verifyNewRestrictedAsset_ok (h : tx.verifyNewRestrictedAsset env = .ok ()) :
    ∃ asset address, IssuesOne env tx 0 asset address ∧
      assetTypeOf asset.strName = .restricted ∧
      TransfersToken env tx (asset.strName.drop 1 ++ ownerTag) := by
  simp only [verifyNewRestrictedAsset, bind_eq_ok, ensure_eq_ok, require_eq_ok,
    hasTransferOf_iff] at h
  obtain ⟨_, _, _, _, ⟨asset, address⟩, hfrom, _, hburn, _, htransfer, hverifier⟩ := h
  unfold restrictedAssetFromScript at hfrom
  split at hfrom
  · rename_i hrestricted
    have hvalid := valid_of_issuedType (of_decide_eq_true hrestricted) hfrom
    have hparent : getParentName asset.strName = asset.strName := by simp [getParentName, hvalid]
    rw [hparent] at htransfer
    refine ⟨asset, address, ?_, assetTypeOf_eq hvalid, htransfer⟩
    split at hverifier
    · simp at hverifier
    · simp at hverifier
    · exact onlyOneIssue_ok hverifier hfrom hburn
  · simp at hfrom

theorem uniqueScanStep_cases (h : uniqueScanStep env s out = .ok t) :
    (isScriptNewUniqueAsset env out.scriptPubKey = false ∧ t = s) ∨
    (isScriptNewUniqueAsset env out.scriptPubKey = true ∧
      ∃ asset address, assetFromScript env out.scriptPubKey = some (asset, address) ∧
        (s.assetRoot = [] ∨ s.assetRoot = getParentName asset.strName) ∧
        asset.strName ∉ s.setUniqueAssets ∧
        t = ⟨getParentName asset.strName, asset.strName :: s.setUniqueAssets⟩) := by
  unfold uniqueScanStep at h
  split at h
  · rename_i hunique
    simp only [bind_eq_ok, require_eq_ok, ensure_eq_ok, pure_eq_ok, decide_eq_true_eq] at h
    obtain ⟨⟨asset, address⟩, hfrom, _, hroot, _, hnew, rfl⟩ := h
    refine Or.inr ⟨hunique, asset, address, hfrom, ?_, by simpa using hnew, by rw [hroot]⟩
    by_cases hnil : s.assetRoot = []
    · exact Or.inl hnil
    · exact Or.inr (by simpa [hnil] using hroot)
  · rename_i hunique
    exact Or.inl ⟨by simpa using hunique, by simpa using h.symm⟩

/-- The unique-asset scan counts the unique issues and finds one parent for all of them. -/
theorem uniqueScan_ok {l : List CTxOut} (h : l.foldlM (uniqueScanStep env) s = .ok t) :
    t.setUniqueAssets.length = s.setUniqueAssets.length +
        l.countP (fun out => isScriptNewUniqueAsset env out.scriptPubKey) ∧
      (s.assetRoot ≠ [] → t.assetRoot = s.assetRoot) ∧
      ∀ out ∈ l, isScriptNewUniqueAsset env out.scriptPubKey = true → ∀ asset address,
        assetFromScript env out.scriptPubKey = some (asset, address) →
          getParentName asset.strName = t.assetRoot := by
  induction l generalizing s with
  | nil =>
    obtain rfl : s = t := by simpa using h
    simp
  | cons out l ih =>
    rw [foldlM_cons, bind_eq_ok] at h
    obtain ⟨s', hstep, hrest⟩ := h
    obtain ⟨hlen, hroot, hparents⟩ := ih hrest
    rcases uniqueScanStep_cases hstep with ⟨hno, rfl⟩ | ⟨hyes, asset, address, hfrom, hs, _, rfl⟩
    · refine ⟨by simpa [hno] using hlen, hroot, ?_⟩
      rintro out' (_ | ⟨_, hmem⟩) hunique
      · simp [hno] at hunique
      · exact hparents out' hmem hunique
    · have hvalid := valid_of_issuedType (of_decide_eq_true hyes) hfrom
      have hne := getParentName_unique_ne_nil hvalid
      have htroot := hroot hne
      refine ⟨?_, ?_, ?_⟩
      · simp only [length_cons] at hlen
        simp only [countP_cons, hyes, if_true]
        omega
      · intro hsne
        rw [htroot]
        exact (hs.resolve_left hsne).symm
      · rintro out' (_ | ⟨_, hmem⟩) hunique asset' address' hfrom'
        · obtain ⟨rfl, rfl⟩ : asset = asset' ∧ address = address' := by simpa [hfrom] using hfrom'
          exact htroot.symm
        · exact hparents out' hmem hunique asset' address' hfrom'

theorem isNewAsset_of_isScriptNewUniqueAsset (h : isScriptNewUniqueAsset env script = true) :
    script.isNewAsset = true := by
  obtain ⟨_, _, hfrom, _⟩ := issuedType_eq_some.mp (of_decide_eq_true h)
  exact isNewAsset_of_assetFromScript hfrom

/-- As many issues as unique issues: every issue is one of a unique asset. -/
theorem verifyNewUniqueAsset_ok (h : tx.verifyNewUniqueAsset env = .ok ()) :
    ∃ scan, tx.vout.foldlM (uniqueScanStep env) ⟨[], []⟩ = .ok scan ∧
      tx.hasIssueBurn env .unique scan.setUniqueAssets.length = true ∧
      TransfersToken env tx (scan.assetRoot ++ ownerTag) ∧
      (∀ out ∈ tx.vout, out.scriptPubKey.isNewAsset = isScriptNewUniqueAsset env out.scriptPubKey) ∧
      (getTxOutAssetTypes tx.vout).nIssues = scan.setUniqueAssets.length ∧
      scan.setUniqueAssets.length ≠ 0 ∧
      (getTxOutAssetTypes tx.vout).nOwners = 0 ∧
      (getTxOutAssetTypes tx.vout).nReissues = 0 := by
  simp only [verifyNewUniqueAsset, bind_eq_ok, ensure_eq_ok, hasTransferOf_iff,
    decide_eq_true_eq] at h
  obtain ⟨_, _, scan, hscan, _, hsome, _, hburn, _, htransfer, hcounts⟩ := h
  simp only [Bool.not_eq_true', Bool.or_eq_false_iff, decide_eq_false_iff_not, not_not] at hcounts
  obtain ⟨⟨howners, hreissues⟩, hissues⟩ := hcounts
  refine ⟨scan, hscan, hburn, htransfer, fun out hout => ?_, hissues, hsome, by omega, by omega⟩
  cases hnew : out.scriptPubKey.isNewAsset with
  | true =>
    refine (Lists.imp_of_countP_eq (p := fun out => isScriptNewUniqueAsset env out.scriptPubKey)
      (q := fun out => out.scriptPubKey.isNewAsset)
      (fun out' _ hu => isNewAsset_of_isScriptNewUniqueAsset hu) ?_ hout hnew).symm
    have hlen := (uniqueScan_ok hscan).1
    simpa [getTxOutAssetTypes, hlen] using hissues
  | false =>
    by_contra hne
    have hunique : isScriptNewUniqueAsset env out.scriptPubKey = true := by simpa using Ne.symm hne
    rw [isNewAsset_of_isScriptNewUniqueAsset hunique] at hnew
    cases hnew

theorem parentsTransferred_of_uniques (h : tx.verifyNewUniqueAsset env = .ok ()) :
    ParentsTransferred env tx := by
  obtain ⟨scan, hscan, -, htransfer, hunique, -⟩ := verifyNewUniqueAsset_ok h
  intro out hout asset address hfrom token htoken
  have hunique : isScriptNewUniqueAsset env out.scriptPubKey = true :=
    hunique out hout ▸ isNewAsset_of_assetFromScript hfrom
  have hvalid := valid_of_issuedType (of_decide_eq_true hunique) hfrom
  have hroot := (uniqueScan_ok hscan).2.2 out hout hunique asset address hfrom
  have : token = scan.assetRoot ++ ownerTag := by
    simpa [parentToken, assetTypeOf_eq hvalid, hroot] using htoken.symm
  exact this ▸ htransfer

theorem no_issue_of_count (h : (getTxOutAssetTypes tx.vout).nIssues = 0) :
    ∀ out ∈ tx.vout, out.scriptPubKey.isNewAsset = false := by
  intro out hout
  have := countP_eq_zero.mp h out hout
  simpa using this

theorem no_creation_of_onlyTransfers (h : checkOnlyTransfers tx = .ok ()) (hout : out ∈ tx.vout) :
    out.scriptPubKey.isNewAsset = false ∧ out.scriptPubKey.isOwnerAsset = false ∧
      out.scriptPubKey.isReissueAsset = false := by
  have hone := forM_eq_ok.mp h out hout
  unfold CScript.isNewAsset CScript.isOwnerAsset CScript.isReissueAsset
  cases hscript : out.scriptPubKey.isAssetScript with
  | none => simp
  | some a =>
    rw [hscript] at hone
    have htype : a.nType = .txTransferAsset := by simpa using hone
    simp [htype]

/-- The layout that goes wrong is one of `IsNewAsset`. -/
theorem isNewAsset_layout (h : tx.isNewAsset env = true) :
    tx.vout.length ≥ 3 ∧ tx.lastScript.isNewAsset = true ∧
      (isScriptOwnerAsset tx.secondLastScript).isSome = true ∧
      issuedType env tx.lastScript ≠ some .unique ∧
      issuedType env tx.lastScript ≠ some .restricted := by
  simp only [isNewAsset, isScriptNewUniqueAsset, isScriptNewRestrictedAsset,
    isScriptNewAsset_isSome, Bool.and_eq_true, decide_eq_true_eq, Bool.not_eq_true',
    Bool.or_eq_false_iff, decide_eq_false_iff_not] at h
  exact ⟨h.1.1.1, h.1.1.2, h.1.2, h.2.1, h.2.2⟩

/-- The branch for ordinary new assets: right for every type but the two it does not expect. -/
theorem parentsTransferred_of_newAsset (hne : tx.vout ≠ []) (hkind : tx.isNewAsset env = true)
    (h : checkNewAssetTx env tx = .ok ()) (hchild : OwnerBeforeChild env tx → ∀ asset address,
      assetFromScript env tx.lastScript = some (asset, address) →
        ∀ token ∈ parentToken asset.strName, TransfersToken env tx token) :
    ParentsTransferred env tx := by
  obtain ⟨hsize, -, howner, hnunique, hnrestricted⟩ := isNewAsset_layout hkind
  simp only [checkNewAssetTx, bind_eq_ok, reject_eq_ok] at h
  obtain ⟨asset, address, _, hone, -, hsub⟩ := verifyNewAsset_ok h.choose_spec.1
  have hfrom := hone.found
  refine hone.parentsTransferred hne fun token htoken => ?_
  have hissued : assetTypeOf asset.strName ≠ .invalid →
      issuedType env tx.lastScript = some (assetTypeOf asset.strName) :=
    issuedType_of_assetFromScript hfrom
  cases htype : assetTypeOf asset.strName <;> rw [htype] at hissued hsub
  case sub =>
    have : token = getParentName asset.strName ++ ownerTag := by
      simpa [parentToken, htype] using htoken.symm
    exact this ▸ hsub rfl
  case unique => exact absurd (hissued (by simp)) hnunique
  case restricted => exact absurd (hissued (by simp)) hnrestricted
  case msgchannel =>
    exact hchild ⟨hsize, howner, Or.inl (hissued (by simp))⟩ asset address hfrom token htoken
  case subQualifier =>
    exact hchild ⟨hsize, howner, Or.inr (hissued (by simp))⟩ asset address hfrom token htoken
  all_goals simp [parentToken, htype] at htoken

/-- The branch of the dispatch that was taken has passed its verify function. -/
theorem checkAssetTx_cases (h : checkAssetTx env tx = .ok flags) :
    (tx.isNewAsset env = true ∧ checkNewAssetTx env tx = .ok ()) ∨
      tx.verifyReissueAsset env = .ok () ∨ tx.verifyNewUniqueAsset env = .ok () ∨
      tx.verifyNewMsgChannelAsset env = .ok () ∨ tx.verifyNewQualfierAsset env = .ok () ∨
      tx.verifyNewRestrictedAsset env = .ok () ∨ checkOnlyTransfers tx = .ok () := by
  unfold checkAssetTx at h
  split_ifs at h with hnew hreissue hunique hmsg hqual hrestricted
  · obtain ⟨_, hcheck, -⟩ := bind_eq_ok.mp h
    exact .inl ⟨hnew, hcheck⟩
  · simp only [checkReissueTx, bind_eq_ok, reject_eq_ok] at h
    obtain ⟨_, hverify, -⟩ := h
    exact .inr (.inl hverify)
  · simp only [checkNewUniqueAssetTx, bind_eq_ok, reject_eq_ok] at h
    obtain ⟨_, ⟨_, hverify, -⟩, -⟩ := h
    exact .inr (.inr (.inl hverify))
  · simp only [checkNewMsgChannelAssetTx, bind_eq_ok, reject_eq_ok] at h
    obtain ⟨_, ⟨_, hverify, -⟩, -⟩ := h
    exact .inr (.inr (.inr (.inl hverify)))
  · simp only [checkNewQualifierAssetTx, bind_eq_ok, reject_eq_ok] at h
    obtain ⟨_, ⟨_, hverify, -⟩, -⟩ := h
    exact .inr (.inr (.inr (.inr (.inl hverify))))
  · simp only [checkNewRestrictedAssetTx, bind_eq_ok, reject_eq_ok] at h
    obtain ⟨_, ⟨_, hverify, -⟩, -⟩ := h
    exact .inr (.inr (.inr (.inr (.inr (.inl hverify)))))
  · obtain ⟨_, hcheck, -⟩ := bind_eq_ok.mp h
    exact .inr (.inr (.inr (.inr (.inr (.inr hcheck)))))

/-- A transaction with a reissue output is verified as a reissue, and that output is its last. -/
theorem reissue_is_last (hne : tx.vout ≠ [])
    (h : checkAssetTx env tx = .ok flags) (hout : out ∈ tx.vout)
    (hreissue : out.scriptPubKey.isReissueAsset = true) :
    tx.verifyReissueAsset env = .ok () ∧ out.scriptPubKey = tx.lastScript := by
  have hsome : (getTxOutAssetTypes tx.vout).nReissues ≠ 0 := fun hnone =>
    absurd hreissue (countP_eq_zero.mp hnone out hout)
  rcases checkAssetTx_cases h with ⟨_, hcheck⟩ | hverify | hunique | hmsg | hqual | hrestricted |
    htransfers
  · simp only [checkNewAssetTx, bind_eq_ok, reject_eq_ok] at hcheck
    obtain ⟨_, hverify, -⟩ := hcheck
    obtain ⟨_, _, _, hone, -⟩ := verifyNewAsset_ok hverify
    exact absurd hone.reissues hsome
  · obtain ⟨reissue, address, hfrom, -, -, -, -, hcount⟩ := verifyReissueAsset_ok hverify
    obtain ⟨last, hmem, hscript⟩ := exists_lastScript hne
    have hlast := isReissueAsset_of_reissueAssetFromScript (hscript ▸ hfrom)
    exact ⟨hverify, Lists.eq_of_countP_eq_one hcount hout hmem hreissue hlast ▸ hscript⟩
  · obtain ⟨_, -, -, -, -, -, -, -, hnone⟩ := verifyNewUniqueAsset_ok hunique
    exact absurd hnone hsome
  · obtain ⟨_, _, hone, -⟩ := verifyNewMsgChannelAsset_ok hmsg
    exact absurd hone.reissues hsome
  · obtain ⟨_, _, hone, -⟩ := verifyNewQualfierAsset_ok hqual
    exact absurd hone.reissues hsome
  · obtain ⟨_, _, hone, -⟩ := verifyNewRestrictedAsset_ok hrestricted
    exact absurd hone.reissues hsome
  · have hnone := (no_creation_of_onlyTransfers htransfers hout).2.2
    rw [hnone] at hreissue
    cases hreissue

/-- An accepted transaction moves the token that controls the parent of everything it issues,
except that a message channel or a sub-qualifier placed after an owner output is never asked for
it. -/
theorem parents_transferred_iff (env : Env) (tx : CTransaction)
    (fCheckDuplicateInputs fMempoolCheck fBlockCheck : Bool)
    (h : checkTransaction env tx fCheckDuplicateInputs fMempoolCheck fBlockCheck = .ok ()) :
    ParentsTransferred env tx ↔
      (OwnerBeforeChild env tx → ∀ asset address,
        assetFromScript env tx.lastScript = some (asset, address) →
          ∀ token ∈ parentToken asset.strName, TransfersToken env tx token) := by
  have hacc := checkTransaction_accepted h
  have hne := hacc.vout_ne_nil
  constructor
  · intro hall _ asset address hfrom
    obtain ⟨out, hout, hscript⟩ := exists_lastScript hne
    exact hall out hout asset address (hscript ▸ hfrom)
  intro hchild
  obtain ⟨flags, hkind⟩ := hacc.kind
  rcases checkAssetTx_cases hkind with ⟨hnew, hcheck⟩ | hreissue | hunique | hmsg | hqual |
    hrestricted | htransfers
  · exact parentsTransferred_of_newAsset hne hnew hcheck hchild
  · obtain ⟨_, _, -, -, -, hcount, -⟩ := verifyReissueAsset_ok hreissue
    exact parentsTransferred_of_no_issue (no_issue_of_count hcount)
  · exact parentsTransferred_of_uniques hunique
  · obtain ⟨asset, address, hone, htype, htransfer⟩ := verifyNewMsgChannelAsset_ok hmsg
    refine hone.parentsTransferred hne ?_
    simpa [parentToken, htype] using htransfer
  · obtain ⟨asset, address, hone, htype, htransfer⟩ := verifyNewQualfierAsset_ok hqual
    refine hone.parentsTransferred hne ?_
    rcases htype with htype | htype
    · simp [parentToken, htype]
    · simpa [parentToken, htype] using htransfer htype
  · obtain ⟨asset, address, hone, htype, htransfer⟩ := verifyNewRestrictedAsset_ok hrestricted
    refine hone.parentsTransferred hne ?_
    simpa [parentToken, htype] using htransfer
  · exact parentsTransferred_of_no_issue fun out hout =>
      (no_creation_of_onlyTransfers htransfers hout).1

/-- The key hash behind the regtest burn address for message channels. -/
def msgChannelBurnKey : Bytes :=
  [0xdd, 0xa3, 0xd2, 0x17, 0xa5, 0x9b, 0x0f, 0x55, 0x0d, 0x69,
   0xeb, 0x3b, 0xe2, 0xbd, 0xcf, 0x28, 0x83, 0xb9, 0x45, 0x8b]

def issuerKey : Bytes := List.replicate 20 1

/-- Regtest with every deployment active; the two checksums are those of the real hash. -/
def regTestEnv : Env where
  hashes := tableHashes
    [(111 :: msgChannelBurnKey, [0x3e, 0x7c, 0x82, 0xdc]),
     (111 :: issuerKey, [0x98, 0xd5, 0x6f, 0xd1])] []
  params := regTestParams
  deployments := .all

def channelAsset : CNewAsset := ⟨str "TEST~CHAN", 1 * coin, 0, 0, 0, []⟩

def channelBurn : CTxOut := ⟨100 * coin, scriptForKeyID msgChannelBurnKey⟩

def channelIssue : CTxOut := ⟨0, channelAsset.constructTransaction (scriptForKeyID issuerKey)⟩

def parentTransferOut : CTxOut :=
  ⟨0, CAssetTransfer.constructTransaction ⟨str "TEST!", 1 * coin, [], 0⟩ (scriptForKeyID issuerKey)⟩

/-- Burn, parent's owner token, channel. -/
def channelTx : CTransaction :=
  ⟨[⟨⟨1, 0⟩, []⟩], [channelBurn, parentTransferOut, channelIssue], 2⟩

/-- Burn, an owner token named after the channel, channel: the parent does not appear. -/
def orphanChannelTx : CTransaction :=
  ⟨[⟨⟨1, 0⟩, []⟩],
   [channelBurn, ⟨0, channelAsset.constructOwnerTransaction (scriptForKeyID issuerKey)⟩,
    channelIssue], 3⟩

theorem channelTx_parents_transferred :
    checkTransaction regTestEnv channelTx true false true = .ok () ∧
      ParentsTransferred regTestEnv channelTx := by
  have hok : checkTransaction regTestEnv channelTx true false true = .ok () := by decide +kernel
  refine ⟨hok, (parents_transferred_iff regTestEnv channelTx true false true hok).mpr ?_⟩
  intro hlayout
  have howner : (isScriptOwnerAsset channelTx.secondLastScript).isSome = false := by decide +kernel
  exact absurd hlayout.2.1 (by simp [howner])

theorem orphanChannelTx_accepted :
    checkTransaction regTestEnv orphanChannelTx true false true = .ok () ∧
      ¬ ParentsTransferred regTestEnv orphanChannelTx := by
  refine ⟨by decide +kernel, fun hall => ?_⟩
  have hfrom : assetFromScript regTestEnv channelIssue.scriptPubKey =
      some (channelAsset, regTestEnv.addressOf channelIssue.scriptPubKey) := by decide +kernel
  have htoken : parentToken channelAsset.strName = some (str "TEST!") := by decide +kernel
  have hmoved := hall channelIssue (by simp [orphanChannelTx]) _ _ hfrom _ htoken
  have hnone : orphanChannelTx.hasTransferOf regTestEnv (str "TEST!") = false := by decide +kernel
  rw [← hasTransferOf_iff, hnone] at hmoved
  exact absurd hmoved (by simp)

end HnbCore
