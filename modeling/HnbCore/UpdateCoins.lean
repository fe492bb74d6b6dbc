import HnbCore.CacheOps
import HnbCore.CheckTxAssets

/-!
# The effect of a transaction

`UpdateCoins` spends the inputs of a transaction and adds its outputs, in the coin view and in the
asset view. Operations of the asset view that fail while outputs are added are only logged.
-/

namespace HnbCore

open Checks AssetState

def nullAsset : CNewAsset := ⟨[], 0, maxUnit, 0, 0, []⟩
def nullReissue : CReissueAsset := ⟨[], 0, 0, 1, []⟩
def nullTxData : CNullAssetTxData := ⟨[], -1⟩

/-- The verifier string of the first output that has one, with the text it could be read as. -/
def firstVerifier (tx : CTransaction) : Option (Option CNullAssetTxVerifierString) :=
  (tx.vout.find? fun out => out.scriptPubKey.isNullAssetVerifierTxDataScript).map
    fun out => assetNullVerifierDataFromScript out.scriptPubKey

/-- `AddNewAsset`, its result ignored. -/
def addIssued (issued : Option (CNewAsset × Bytes)) (nHeight : Int) (blockHash : UInt256)
    (s : AssetState) : AssetState :=
  let (asset, strAddress) := issued.getD (nullAsset, [])
  (addNewAsset asset strAddress nHeight blockHash s).2

/-- The new verifier string of a restricted asset goes into the view; the result is the old one. -/
def replaceVerifier (name : Bytes) (newVerifier : Option CNullAssetTxVerifierString)
    (s : AssetState) : Bytes × AssetState :=
  match newVerifier with
  | none => ([], s)
  | some verifier =>
      let (old, s) := getAssetVerifierStringIfExists name false s
      ((old.map (·.verifierString)).getD [],
        { s with view := s.view.addRestrictedVerifier name verifier.verifierString })

/-- The undo entry has the values that the reissue changes, as they were before it. -/
def reissueUndo (reissue : CReissueAsset) (asset : CNewAsset)
    (newVerifier : Option CNullAssetTxVerifierString) (strOldVerifier : Bytes) :
    Option (Bytes × CBlockAssetUndo) :=
  let fIPFSChanged := !reissue.strIPFSHash.isEmpty
  let fUnitsChanged := reissue.nUnits ≠ -1
  if fIPFSChanged || fUnitsChanged || newVerifier.isSome then
    some (reissue.strName, ⟨fIPFSChanged, fUnitsChanged, asset.strIPFSHash, asset.units,
      newVerifier.isSome, strOldVerifier⟩)
  else none

variable (env : Env)

def addReissued (tx : CTransaction) (s : AssetState) :
    Option (Bytes × CBlockAssetUndo) × AssetState :=
  let (reissue, strAddress) := (tx.reissueAssetFromTransaction env).getD (nullReissue, [])
  let (found, s) := getAssetMetaDataIfExists reissue.strName s
  let asset := (found.map (·.asset)).getD nullAsset
  let s := (addReissueAsset reissue strAddress ⟨tx.hash, tx.vout.length - 1⟩ s).2
  let newVerifier := if assetTypeOf asset.strName = .restricted then (firstVerifier tx).join else none
  let (strOldVerifier, s) := replaceVerifier asset.strName newVerifier s
  (reissueUndo reissue asset newVerifier strOldVerifier, s)

/-- The part of `AddCoins` before the loop over the outputs. -/
def addCreated (tx : CTransaction) (nHeight : Int) (blockHash : UInt256)
    (s : AssetState) : Option (Bytes × CBlockAssetUndo) × AssetState :=
  if tx.isNewAsset env then
    let s := addIssued (tx.assetFromTransaction env) nHeight blockHash s
    let (ownerName, ownerAddress) := (tx.ownerFromTransaction env).getD ([], [])
    (none, addOwnerAsset ownerName ownerAddress s)
  else if tx.isReissueAsset then addReissued env tx s
  else if tx.isNewUniqueAsset env then
    (none, (tx.vout.filter fun out => isScriptNewUniqueAsset env out.scriptPubKey).foldl
      (fun s out => addIssued (assetFromScript env out.scriptPubKey) nHeight blockHash s) s)
  else if tx.isNewMsgChannelAsset env then
    (none, addIssued (tx.msgChannelAssetFromTransaction env) nHeight blockHash s)
  else if tx.isNewQualifierAsset env then
    (none, addIssued (tx.qualifierAssetFromTransaction env) nHeight blockHash s)
  else if tx.isNewRestrictedAsset env then
    let issued := tx.restrictedAssetFromTransaction env
    let s := addIssued issued nHeight blockHash s
    match firstVerifier tx with
    | none => (none, s)
    | some verifier =>
        let name := (issued.getD (nullAsset, [])).1.strName
        let text := (verifier.map (·.verifierString)).getD []
        (none, { s with view := s.view.addRestrictedVerifier name text })
  else (none, s)

/-- Tags, freezes and global freezes. -/
def addNullAssetData (script : CScript) (s : AssetState) : AssetState :=
  if script.isNullAssetTxDataScript then
    let (data, address) := (assetNullDataFromScript env script).getD (nullTxData, [])
    match assetTypeOf data.assetName with
    | .restricted =>
        let type := if data.flag ≠ 0 then .freezeAddress else .unfreezeAddress
        { s with view := s.view.addRestrictedAddress data.assetName address type }
    | .qualifier | .subQualifier =>
        let type := if data.flag ≠ 0 then .addQualifier else .removeQualifier
        { s with view := s.view.addQualifierAddress data.assetName address type }
    | _ => s
  else if script.isNullGlobalRestrictionAssetTxDataScript then
    let data := (globalAssetNullDataFromScript script).getD nullTxData
    let type := if data.flag ≠ 0 then .globalFreeze else .globalUnfreeze
    { s with view := s.view.addGlobalRestricted data.assetName type }
  else s

/-- The asset part of the loop body of `AddCoins`. -/
def addAssetOutput (out : COutPoint) (script : CScript) (s : AssetState) : AssetState :=
  let s := match getAssetData env script with
    | some data =>
        if data.type = .txTransferAsset && data.nAmount > 0 then
          addTransferAsset ⟨data.assetName, data.nAmount, data.message, data.expireTime⟩
            (env.encodeDestination data.destination) out s
        else s
    | none => s
  if script.isNullAsset then addNullAssetData env script s else s

/-- The outputs of a transaction with their outpoints. -/
def CTransaction.outputs (tx : CTransaction) : List (COutPoint × CTxOut) :=
  tx.vout.zipIdx.map fun (out, i) => (⟨tx.hash, i⟩, out)

/-- The coins of a transaction. An older coin at the same outpoint is replaced. -/
def addOutputCoins (coins : Coins) (tx : CTransaction) (nHeight : Int) : Coins :=
  tx.outputs.foldl
    (fun coins (out, txOut) => coins.addCoin out ⟨txOut, tx.isCoinBase, nHeight⟩) coins

/-- The asset effects of `AddCoins`; the result is the undo entry, if the transaction leaves one. -/
def addCoinsAssets (tx : CTransaction) (nHeight : Int) (blockHash : UInt256)
    (s : AssetState) : Option (Bytes × CBlockAssetUndo) × AssetState :=
  if env.deployments.areAssetsDeployed then
    let (undo, s) := addCreated env tx nHeight blockHash s
    (undo, tx.outputs.foldl (fun s (out, txOut) => addAssetOutput env out txOut.scriptPubKey s) s)
  else (none, s)

/-- `SpendCoin`, whose failure stops the node. -/
def spendCoin (coins : Coins) (out : COutPoint) : StateCheck (Coin × Coins) := do
  let coin ← demand 0 (coins.accessCoin out) "assertion failed: is_spent"
  onlyIf env.deployments.areAssetsDeployed do
    let spent ← ask (trySpendCoin env coin.out)
    dos 0 spent "assertion failed: is_spent"
  return (coin, coins.erase out)

/-- The coins spent so far, as they go to the undo data, and the coins left. -/
structure SpendScan where
  vprevout : List Coin
  coins : Coins

def spendInput (scan : SpendScan) (txin : CTxIn) : StateCheck SpendScan := do
  let (coin, coins) ← spendCoin env scan.coins txin.prevout
  return ⟨scan.vprevout ++ [coin], coins⟩

/-- A coinbase spends nothing. -/
def spendInputs (tx : CTransaction) (coins : Coins) : StateCheck SpendScan :=
  if tx.isCoinBase then pure ⟨[], coins⟩ else tx.vin.foldlM (spendInput env) ⟨[], coins⟩

/-- The undo data of a transaction: the coins it spent and what its reissue changed. -/
structure CTxUndo where
  vprevout : List Coin
  assetUndo : Option (Bytes × CBlockAssetUndo)

def updateCoins (tx : CTransaction) (coins : Coins) (nHeight : Int)
    (blockHash : UInt256) : StateCheck (CTxUndo × Coins) := do
  let scan ← spendInputs env tx coins
  let assetUndo ← ask (addCoinsAssets env tx nHeight blockHash)
  return (⟨scan.vprevout, assetUndo⟩, addOutputCoins scan.coins tx nHeight)

end HnbCore
