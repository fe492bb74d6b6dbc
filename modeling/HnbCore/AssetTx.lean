import HnbCore.Transaction

/-!
# Transactions that issue or reissue assets

Which kind a transaction is, decided by its last outputs, and the checks made on each kind.
-/

namespace HnbCore

open Checks

namespace CTransaction

variable (tx : CTransaction)

def lastScript : CScript := (tx.vout.getLast?.map (·.scriptPubKey)).getD []

def secondLastScript : CScript :=
  (tx.vout.dropLast.getLast?.map (·.scriptPubKey)).getD []

variable (env : Env)

/-- `IsNewAsset`: an issue output last and an owner output before it, names of the unique and
restricted types left out. -/
def isNewAsset : Bool :=
  tx.vout.length ≥ 3 && (isScriptNewAsset tx.lastScript).isSome &&
    (isScriptOwnerAsset tx.secondLastScript).isSome &&
    !(isScriptNewUniqueAsset env tx.lastScript || isScriptNewRestrictedAsset env tx.lastScript)

def isReissueAsset : Bool := (isScriptReissueAsset tx.lastScript).isSome

def isNewUniqueAsset : Bool :=
  (isScriptNewAsset tx.lastScript).isSome && isScriptNewUniqueAsset env tx.lastScript

def isNewMsgChannelAsset : Bool :=
  (isScriptNewAsset tx.lastScript).isSome && isScriptNewMsgChannelAsset env tx.lastScript

def isNewQualifierAsset : Bool :=
  (isScriptNewAsset tx.lastScript).isSome && isScriptNewQualifierAsset env tx.lastScript

def isNewRestrictedAsset : Bool :=
  (isScriptNewAsset tx.lastScript).isSome && isScriptNewRestrictedAsset env tx.lastScript

/-- The counts of `GetTxOutAssetTypes`. -/
structure AssetCounts where
  nIssues : Nat
  nReissues : Nat
  nTransfers : Nat
  nOwners : Nat
  deriving DecidableEq, Repr

def getTxOutAssetTypes (vout : List CTxOut) : AssetCounts where
  nIssues := vout.countP fun out => out.scriptPubKey.isNewAsset
  nReissues := vout.countP fun out => out.scriptPubKey.isReissueAsset
  nTransfers := vout.countP fun out => out.scriptPubKey.isTransferAsset
  nOwners := vout.countP fun out => out.scriptPubKey.isOwnerAsset

/-- The output transfers the asset of that name. -/
def transfers (name : Bytes) (out : CTxOut) : Bool :=
  match transferAssetFromScript env out.scriptPubKey with
  | some (transfer, _) => transfer.strName = name
  | none => false

/-- The search for an asset transfer that all the verify functions make. -/
def hasTransferOf (name : Bytes) : Bool :=
  tx.vout.any (transfers env name)

def hasIssueBurn (type : AssetType) (numberIssued : Nat) : Bool :=
  tx.vout.any fun out => checkIssueBurnTx env out type numberIssued

def checkAddingTagBurnFee (count : Nat) : Bool :=
  tx.hasIssueBurn env .nullAddQualifier count

/-- The outcome of `GetVerifierStringFromTx`; `notFound` is its third out-parameter. -/
inductive VerifierSearch
  | found (verifier : CNullAssetTxVerifierString)
  | notFound (strError : String)
  | failed (strError : String)
  deriving DecidableEq, Repr

def getVerifierStringFromTx : VerifierSearch :=
  match tx.vout.filter fun out => out.scriptPubKey.isNullAssetVerifierTxDataScript with
  | [] => .notFound "Verifier string not found"
  | out :: rest =>
      -- the first output is read before the second one is counted
      match assetNullVerifierDataFromScript out.scriptPubKey with
      | none => .failed "Failed to get verifier string from output: "
      | some verifier =>
          if rest.isEmpty then .found verifier
          else .failed "Multiple verifier strings found in transaction"

structure UniqueScan where
  assetRoot : Bytes
  setUniqueAssets : List Bytes

/-- One round of the first loop of `VerifyNewUniqueAsset`. -/
def uniqueScanStep (s : UniqueScan) (out : CTxOut) : Except String UniqueScan :=
  if isScriptNewUniqueAsset env out.scriptPubKey then do
    let (asset, _) ← require (assetFromScript env out.scriptPubKey)
      "bad-txns-issue-unique-asset-from-script"
    let root := getParentName asset.strName
    let assetRoot := if s.assetRoot = [] then root else s.assetRoot
    ensure (assetRoot = root) "bad-txns-issue-unique-asset-compare-failed"
    ensure (!s.setUniqueAssets.contains asset.strName)
      "bad-txns-issue-unique-duplicate-name-in-same-tx"
    return ⟨assetRoot, asset.strName :: s.setUniqueAssets⟩
  else .ok s

def verifyNewUniqueAsset : Except String Unit := do
  ensure (tx.vout.length ≥ 3) "bad-txns-unique-vout-size-to-small"
  let scan ← tx.vout.foldlM (uniqueScanStep env) ⟨[], []⟩
  let assetOutpointCount := scan.setUniqueAssets.length
  ensure (assetOutpointCount ≠ 0) "bad-txns-issue-unique-asset-bad-outpoint-count"
  ensure (tx.hasIssueBurn env .unique assetOutpointCount)
    "bad-txns-issue-unique-asset-burn-outpoints-not-found"
  ensure (tx.hasTransferOf env (scan.assetRoot ++ ownerTag))
    "bad-txns-issue-unique-asset-missing-owner-asset"
  let counts := getTxOutAssetTypes tx.vout
  ensure (!(counts.nOwners > 0 || counts.nReissues > 0 || counts.nIssues ≠ assetOutpointCount))
    "bad-txns-failed-unique-asset-formatting-check"

def verifyNewAsset : Except String Unit := do
  ensure (tx.vout.length ≥ 3) "bad-txns-issue-vout-size-to-small"
  ensure (isScriptNewAsset tx.lastScript).isSome "bad-txns-issue-data-not-found"
  ensure (isScriptOwnerAsset tx.secondLastScript).isSome "bad-txns-issue-owner-data-not-found"
  let (asset, _) ← require (assetFromScript env tx.lastScript) "bad-txns-issue-serialzation-failed"
  let assetType := assetTypeOf asset.strName
  let (strOwnerName, _) ← require (ownerAssetFromScript env tx.secondLastScript)
    "bad-txns-issue-owner-serialzation-failed"
  ensure (strOwnerName = asset.strName ++ ownerTag) "bad-txns-issue-owner-name-doesn't-match"
  ensure (tx.hasIssueBurn env assetType 1) "bad-txns-issue-burn-not-found"
  -- of all the types with a parent, only sub-assets are asked for its owner token here
  ensure (!(assetType = .sub) || tx.hasTransferOf env (getParentName asset.strName ++ ownerTag))
    "bad-txns-issue-new-asset-missing-owner-asset"
  let counts := getTxOutAssetTypes tx.vout
  ensure (!(counts.nOwners ≠ 1 || counts.nIssues ≠ 1 || counts.nReissues > 0))
    "bad-txns-failed-issue-asset-formatting-check"

/-- The shared end of the verify functions for one issued asset without an owner token. -/
def onlyOneIssue (strError : String) : Except String Unit :=
  let counts := getTxOutAssetTypes tx.vout
  ensure (!(counts.nOwners ≠ 0 || counts.nIssues ≠ 1 || counts.nReissues > 0)) strError

def verifyNewMsgChannelAsset : Except String Unit := do
  ensure (tx.vout.length ≥ 3) "bad-txns-issue-msgchannel-vout-size-to-small"
  ensure (isScriptNewAsset tx.lastScript).isSome "bad-txns-issue-data-not-found"
  let (asset, _) ← require (msgChannelAssetFromScript env tx.lastScript)
    "bad-txns-issue-msgchannel-serialzation-failed"
  ensure (tx.hasIssueBurn env .msgchannel 1) "bad-txns-issue-msgchannel-burn-not-found"
  ensure (tx.hasTransferOf env (getParentName asset.strName ++ ownerTag))
    "bad-txns-issue-msg-channel-asset-bad-owner-asset"
  tx.onlyOneIssue "bad-txns-failed-issue-msgchannel-asset-formatting-check"

def verifyNewQualfierAsset : Except String Unit := do
  ensure (tx.vout.length ≥ 2) "bad-txns-issue-qualifier-vout-size-to-small"
  ensure (isScriptNewAsset tx.lastScript).isSome "bad-txns-issue-qualifider-data-not-found"
  let (asset, _) ← require (qualifierAssetFromScript env tx.lastScript)
    "bad-txns-issue-qualifier-serialzation-failed"
  let assetType := assetTypeOf asset.strName
  ensure (tx.hasIssueBurn env assetType 1) "bad-txns-issue-qualifier-burn-not-found"
  -- a qualifier's own name is what is transferred, without the owner tag
  ensure (!(assetType = .subQualifier) || tx.hasTransferOf env (getParentName asset.strName))
    "bad-txns-issue-sub-qualifier-parent-outpoint-not-found"
  tx.onlyOneIssue "bad-txns-failed-issue-asset-formatting-check"

def verifyNewRestrictedAsset : Except String Unit := do
  ensure (tx.vout.length ≥ 4) "bad-txns-issue-restricted-vout-size-to-small"
  ensure (isScriptNewAsset tx.lastScript).isSome "bad-txns-issue-restricted-data-not-found"
  let (asset, _) ← require (restrictedAssetFromScript env tx.lastScript)
    "bad-txns-issue-restricted-serialization-failed"
  let assetType := assetTypeOf asset.strName
  ensure (tx.hasIssueBurn env assetType 1) "bad-txns-issue-restricted-burn-not-found"
  let strippedRoot := (getParentName asset.strName).drop 1 ++ ownerTag
  ensure (tx.hasTransferOf env strippedRoot)
    "bad-txns-issue-restricted-root-owner-token-outpoint-not-found"
  match tx.getVerifierStringFromTx with
  | .notFound e | .failed e => .error e
  | .found _ => tx.onlyOneIssue "bad-txns-failed-issue-asset-formatting-check"

def verifyReissueAsset : Except String Unit := do
  ensure (tx.vout.length ≥ 3) "bad-txns-vout-size-to-small"
  ensure (isScriptReissueAsset tx.lastScript).isSome "bad-txns-reissue-data-not-found"
  let (reissue, _) ← require (reissueAssetFromScript env tx.lastScript)
    "bad-txns-reissue-serialization-failed"
  let assetNameToCheck :=
    if assetTypeOf reissue.strName = .restricted then reissue.strName.drop 1 else reissue.strName
  ensure (tx.hasTransferOf env (assetNameToCheck ++ ownerTag))
    "bad-txns-reissue-owner-outpoint-not-found"
  ensure (tx.vout.any (checkReissueBurnTx env)) "bad-txns-reissue-burn-outpoint-not-found"
  let counts := getTxOutAssetTypes tx.vout
  ensure (!(counts.nOwners > 0 || counts.nReissues ≠ 1 || counts.nIssues > 0))
    "bad-txns-failed-reissue-asset-formatting-check"

def assetFromTransaction : Option (CNewAsset × Bytes) :=
  if tx.isNewAsset env then assetFromScript env tx.lastScript else none

def msgChannelAssetFromTransaction : Option (CNewAsset × Bytes) :=
  if tx.isNewMsgChannelAsset env then msgChannelAssetFromScript env tx.lastScript else none

def qualifierAssetFromTransaction : Option (CNewAsset × Bytes) :=
  if tx.isNewQualifierAsset env then qualifierAssetFromScript env tx.lastScript else none

def restrictedAssetFromTransaction : Option (CNewAsset × Bytes) :=
  if tx.isNewRestrictedAsset env then restrictedAssetFromScript env tx.lastScript else none

def reissueAssetFromTransaction : Option (CReissueAsset × Bytes) :=
  if tx.isReissueAsset then reissueAssetFromScript env tx.lastScript else none

def ownerFromTransaction : Option (Bytes × Bytes) :=
  if tx.isNewAsset env then ownerAssetFromScript env tx.secondLastScript else none

def isNewOwnerTxValid (assetName address : Bytes) :
    Except String Unit := do
  let (ownerName, ownerAddress) ← require (tx.ownerFromTransaction env) "bad-txns-bad-owner"
  ensure (ownerAddress = address) "bad-txns-owner-address-mismatch"
  ensure (ownerName.length ≥ ownerTag.length + minAssetLength) "bad-txns-owner-asset-length"
  ensure (ownerName = assetName ++ ownerTag) "bad-txns-owner-name-mismatch"

end CTransaction

end HnbCore
