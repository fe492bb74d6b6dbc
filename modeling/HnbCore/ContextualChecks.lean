import HnbCore.CheckTransaction
import HnbCore.Lib.StateChecks
import HnbCore.Lookups

/-!
# Checks against the asset state

The checks of `assets.cpp` that look names, tags, freezes and verifier strings up. They run on a
view, and the lookups they make may move entries of the least recently used caches.
-/

namespace HnbCore

open Checks AssetState

/-- A check with an error text that may look things up. -/
abbrev Contextual := EStateM String AssetState

/-- The two maps of the memory pool that asset validation reads. -/
structure MempoolAssets where
  mapAssetToHash : KeyedMap Bytes UInt256 := .empty
  mapReissuedAssets : KeyedMap Bytes UInt256 := .empty

/-- A flag sets or clears what a lookup reports, and only changes of the status are allowed. -/
def verifyChange (data : CNullAssetTxData) (status : AssetState → Bool × AssetState)
    (alreadySet notSet : String) : Contextual Unit := do
  verifyNullAssetDataFlag data.flag
  let current ← ask status
  if data.flag ≠ 0 then ensure (!current) alreadySet else ensure current notSet

variable (env : Env)

def verifyQualifierChange (data : CNullAssetTxData) (address : Bytes) : Contextual Unit :=
  verifyChange data (checkForAddressQualifier env.hashes data.assetName address true)
    "bad-txns-null-data-add-qualifier-when-already-assigned"
    "bad-txns-null-data-removing-qualifier-when-not-assigned"

def verifyRestrictedAddressChange (data : CNullAssetTxData) (address : Bytes) : Contextual Unit :=
  verifyChange data (checkForAddressRestriction env.hashes data.assetName address true)
    "bad-txns-null-data-freeze-address-when-already-frozen"
    "bad-txns-null-data-unfreeze-address-when-not-frozen"

def verifyGlobalRestrictedChange (data : CNullAssetTxData) : Contextual Unit :=
  verifyChange data (checkForGlobalRestriction data.assetName true)
    "bad-txns-null-data-global-freeze-when-already-frozen"
    "bad-txns-null-data-global-unfreeze-when-not-frozen"

def contextualCheckNullAssetTxOut (txout : CTxOut) : Contextual Unit := do
  let (data, address) ← require (assetNullDataFromScript env txout.scriptPubKey)
    "bad-txns-null-asset-data-serialization"
  if isAssetNameAQualifier data.assetName false then verifyQualifierChange env data address
  else if isAssetNameAnRestricted data.assetName then
    verifyRestrictedAddressChange env data address
  else throw "bad-txns-null-asset-data-on-non-restricted-or-qualifier-asset"

def contextualCheckGlobalAssetTxOut (txout : CTxOut) : Contextual Unit := do
  let data ← require (globalAssetNullDataFromScript txout.scriptPubKey)
    "bad-txns-null-global-asset-data-serialization"
  verifyGlobalRestrictedChange data

/-- The tags an address has among the qualifiers of a verifier string. -/
def addressTags (address : Bytes) (qualifiers : List Bytes) : Contextual (List (Bytes × Bool)) :=
  qualifiers.mapM fun qualifier => do
    let hasQualifier ← ask
      (checkForAddressQualifier env.hashes (qualifierChar :: qualifier) address true)
    return (qualifier, hasQualifier)

def contextualCheckVerifierString (verifier checkAddress : Bytes) : Contextual Unit :=
  onlyIf (verifier ≠ str "true") do
    let setFoundQualifiers ← checkVerifierString verifier
    forM setFoundQualifiers fun qualifier => do
      let issued ← ask (checkIfAssetExists (qualifierChar :: qualifier) true)
      ensure issued "bad-txns-null-verifier-contains-non-issued-qualifier"
    -- without an address the syntax check was all there is to do
    onlyIf (!checkAddress.isEmpty) do
      let vals ← addressTags env checkAddress setFoundQualifiers
      match resolveVerifier verifier (fun name => vals.lookup name) with
      | .ok ret => ensure ret "bad-txns-null-verifier-address-failed-verification"
      | .error _ => throw "bad-txns-null-verifier-failed-contexual-syntax-check"

/-- The error text of the inner check is written to a variable that shadows the caller's. -/
def contextualCheckVerifierAssetTxOut (txout : CTxOut) : Contextual Unit := do
  let verifier ← require (assetNullVerifierDataFromScript txout.scriptPubKey)
    "bad-txns-null-verifier-data-serialization"
  orElseFail (fun _ => "") (contextualCheckVerifierString env verifier.verifierString [])

def contextualCheckAgainstVerifyString (transfer : CAssetTransfer) (address : Bytes) :
    Contextual Unit := do
  match ← ask (getAssetVerifierStringIfExists transfer.strName true) with
  | none => throw ("Verifier String doesn't exist for asset: " ++ text transfer.strName)
  | some verifier => contextualCheckVerifierString env verifier.verifierString address

def contextualCheckTransferAsset (transfer : CAssetTransfer) (address : Bytes) :
    Contextual Unit := do
  let assetType ← require (isAssetNameValid transfer.strName).toOption invalidNameText
  ensure (transfer.nAmount > 0)
    "Invalid parameter: asset amount can't be equal to or less than zero."
  whenever env.deployments.areMessagesDeployed do
    ensure (!(transfer.message.isEmpty && transfer.nExpireTime > 0))
      "Invalid parameter: asset transfer expiration time requires a message to be attached to the transfer"
    ensure (transfer.nExpireTime ≥ 0)
      "Invalid parameter: expiration time must be a positive value"
    whenever (!transfer.message.isEmpty) (checkEncoded env transfer.message)
  ensure (!(assetType = .msgchannel && !env.deployments.areMessagesDeployed))
    "bad-txns-transfer-msgchannel-before-messaging-is-active"
  onlyIf (assetType = .restricted) do
    ensure env.deployments.areRestrictedAssetsDeployed
      "bad-txns-transfer-restricted-before-it-is-active"
    let frozen ← ask (checkForGlobalRestriction transfer.strName true)
    ensure (!frozen) "bad-txns-transfer-restricted-asset-that-is-globally-restricted"
    -- a second variable of the same name takes the error text
    orElseFail (fun _ => "") (contextualCheckAgainstVerifyString env transfer address)
  ensure (!((assetType = .qualifier || assetType = .subQualifier) &&
      !env.deployments.areRestrictedAssetsDeployed))
    "bad-txns-transfer-qualifier-before-it-is-active"

def contextualCheckNewAsset (mempool : MempoolAssets) (asset : CNewAsset)
    (fCheckMempool : Bool) : Contextual Unit := do
  ensure env.deployments.areAssetsDeployed "bad-txns-new-asset-when-assets-is-not-active"
  checkNewAsset asset
  let used ← ask (checkIfAssetExists asset.strName true)
  ensure (!used)
    ("Invalid parameter: asset_name '" ++ text asset.strName ++ "' has already been used")
  ensure (!(fCheckMempool && mempool.mapAssetToHash.contains asset.strName))
    "Asset with this name is already in the mempool"
  ensure (asset.nHasIPFS = 0 || asset.strIPFSHash.length = 34 ||
      (env.deployments.areMessagesDeployed && asset.strIPFSHash.length = 32))
    "Invalid parameter: ipfs_hash must be 46 characters. Txid must be valid 64 character hash"
  whenever (asset.nHasIPFS ≠ 0) (checkEncoded env asset.strIPFSHash)

/-- The checks of a reissue against the metadata of the asset it changes. -/
def checkReissueAgainst (reissue : CReissueAsset) (prev : CNewAsset) : Except String Unit := do
  ensure (prev.nReissuable ≠ 0) "Unable to reissue asset: reissuable is set to false"
  ensure (prev.nAmount + reissue.nAmount ≤ maxMoney)
    ("Unable to reissue asset: asset_name '" ++ text reissue.strName ++
      "' the amount trying to reissue is to large")
  ensure (checkAmountWithUnits reissue.nAmount prev.units)
    "Unable to reissue asset: amount must be divisible by the smaller unit assigned to the asset"
  ensure (prev.units ≤ reissue.nUnits || reissue.nUnits = -1)
    "Unable to reissue asset: unit must be larger than current unit selection"

/-- The verifier string a reissue of a restricted asset has to satisfy: the one the transaction
brings, or else the current one. -/
def contextualCheckReissueVerifier (reissue : CReissueAsset) (strAddress : Bytes)
    (tx : CTransaction) : Contextual Unit := do
  match tx.getVerifierStringFromTx with
  | .failed strError => throw strError
  | .found newVerifier =>
      onlyIf (reissue.nAmount > 0)
        (contextualCheckVerifierString env newVerifier.verifierString strAddress)
  | .notFound _ =>
      onlyIf (reissue.nAmount > 0) do
        match ← ask (getAssetVerifierStringIfExists reissue.strName false) with
        | some current => contextualCheckVerifierString env current.verifierString strAddress
        | none => throw "failed to get verifier string from a restricted asset, database is out of sync. Reindex required. Please report this is to development team"

def contextualCheckReissueAsset (reissue : CReissueAsset) (tx : CTransaction) :
    Contextual Unit := do
  let (_, strAddress) ← require (tx.reissueAssetFromTransaction env)
    "bad-txns-reissue-asset-contextual-check"
  checkReissueAsset env reissue
  let found ← ask (getAssetMetaDataIfExists reissue.strName)
  let prev ← require found
    ("Unable to reissue asset: asset_name '" ++ text reissue.strName ++
      "' doesn't exist in the database")
  checkReissueAgainst reissue prev.asset
  ensure (reissue.strIPFSHash.isEmpty || reissue.strIPFSHash.length = 34 ||
      !(env.deployments.areMessagesDeployed && reissue.strIPFSHash.length ≠ 32))
    "Invalid parameter: ipfs_hash must be 34 bytes, Txid must be 32 bytes"
  whenever (!reissue.strIPFSHash.isEmpty) (checkEncoded env reissue.strIPFSHash)
  onlyIf (isAssetNameAnRestricted reissue.strName)
    (contextualCheckReissueVerifier env reissue strAddress tx)

def contextualCheckUniqueAssetTx (mempool : MempoolAssets) (tx : CTransaction) : Contextual Unit :=
  forM tx.vout fun out =>
    onlyIf (isScriptNewUniqueAsset env out.scriptPubKey) do
      let (asset, _) ← require (assetFromScript env out.scriptPubKey)
        "bad-txns-issue-unique-serialization-failed"
      contextualCheckNewAsset env mempool asset false

end HnbCore
