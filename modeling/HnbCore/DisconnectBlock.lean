import HnbCore.ConnectBlock
import HnbCore.Dump

/-!
# Disconnecting a block

`DisconnectBlock` takes the transactions of a block back in reverse order: the outputs are spent,
what the transaction did to the assets is undone, and the inputs are restored from the undo data.
-/

namespace HnbCore

open Checks AssetState

namespace CAssetsDB

/-- No data under the hash of a block is read as empty data. -/
def readBlockUndoAssetData (db : CAssetsDB) (blockhash : UInt256) :
    List (Bytes × CBlockAssetUndo) :=
  ((db.blockUndoAssetData.find? blockhash).map Prod.snd).getD []

def writeBlockUndoAssetData (db : CAssetsDB) (blockhash : UInt256)
    (assetUndoData : List (Bytes × CBlockAssetUndo)) : CAssetsDB :=
  { db with blockUndoAssetData := db.blockUndoAssetData.assign (blockhash, assetUndoData) }

end CAssetsDB

/-- The coins left, and whether everything was as the block had it so far. -/
structure DisconnectScan where
  coins : Coins
  fClean : Bool

variable (env : Env) (tx : CTransaction)

/-- The output's coin must be there as the block made it. What `SpendCoin` does to assets goes into
a copy of the view that is thrown away; whether it succeeds depends on the script alone. -/
def takeOutput (nHeight : Int) (s : AssetState)
    (scan : DisconnectScan) (output : COutPoint × CTxOut) : DisconnectScan :=
  if isUnspendable output.2.scriptPubKey then scan
  else
    match scan.coins.accessCoin output.1 with
    | none => { scan with fClean := false }
    | some coin =>
        let spent := !env.deployments.areAssetsDeployed || (trySpendCoin env coin.out s).1
        let matching := coin.out = output.2 && coin.nHeight = nHeight &&
          coin.fCoinBase = tx.isCoinBase
        ⟨scan.coins.erase output.1, scan.fClean && spent && matching⟩

/-- `GetMaxBlockWeight() / MIN_TRANSACTION_OUTPUT_WEIGHT`. -/
def maxOutputsPerBlock : Nat := 8000000 / 36

/-- `AccessByTxid`: the first unspent output of a transaction. -/
def Coins.accessByTxid (coins : Coins) (txid : UInt256) : Option Coin :=
  (List.range maxOutputsPerBlock).findSome? fun n => coins.accessCoin ⟨txid, n⟩

/-- Undo data without a height takes it from another output of the same transaction. -/
def Coins.completeUndo (coins : Coins) (txid : UInt256) (undo : Coin) : Option Coin :=
  if undo.nHeight = 0 then
    (coins.accessByTxid txid).map fun alternate =>
      { undo with nHeight := alternate.nHeight, fCoinBase := alternate.fCoinBase }
  else some undo

/-- With assets active, the balance of a restored asset coin; the result is whether it is clean. -/
def undoCoinAssets (undo : Coin) (s : AssetState) : Bool × AssetState :=
  if env.deployments.areAssetsDeployed && undo.isAsset then undoAssetCoin env undo s else (true, s)

def applyTxInUndo (scan : DisconnectScan) (input : CTxIn × Coin) :
    Contextual DisconnectScan := do
  let out := input.1.prevout
  let undo ← require (scan.coins.completeUndo out.hash input.2)
    "adding output for transaction without known metadata"
  let clean ← ask (undoCoinAssets env input.2)
  return ⟨scan.coins.addCoin out undo, scan.fClean && !scan.coins.contains out && clean⟩

def restoreInputs (vprevout : List Coin) (scan : DisconnectScan) :
    Contextual DisconnectScan := do
  ensure (vprevout.length = tx.vin.length)
    "DisconnectBlock(): transaction and undo data inconsistent"
  (tx.vin.zip vprevout).reverse.foldlM (applyTxInUndo env) scan

/-- An issued asset is removed if it is known. -/
def removeIssued (issued : Option (CNewAsset × Bytes)) (notRead notRemoved : String) :
    Contextual CNewAsset := do
  let (asset, strAddress) ← require issued notRead
  let known ← ask (checkIfAssetExists asset.strName true)
  onlyIf known do
    let removed ← ask (removeNewAsset asset strAddress)
    ensure removed (notRemoved ++ text asset.strName)
  return asset

/-- A reissue of an asset that is known is taken back. -/
def removeReissued (vUndoData : List (Bytes × CBlockAssetUndo)) :
    Contextual Unit := do
  let (reissue, strAddress) ← require (tx.reissueAssetFromTransaction env)
    "Failed to get reissue asset from transaction"
  let known ← ask (checkIfAssetExists reissue.strName true)
  onlyIf known do
    let removed ← ask (removeReissueAsset reissue strAddress ⟨tx.hash, tx.vout.length - 1⟩ vUndoData)
    ensure removed ("Failed to Undo Reissue Asset. Asset Name : " ++ text reissue.strName)

/-- The last verifier string among the outputs nobody can spend. -/
def lastVerifier : Option CScript :=
  if env.deployments.areRestrictedAssetsDeployed then
    ((tx.vout.map (·.scriptPubKey)).filter fun script => isUnspendable script && script.isNullAsset &&
      script.isNullAssetVerifierTxDataScript).getLast?
  else none

def removeRestricted : Contextual Unit := do
  let asset ← removeIssued (tx.restrictedAssetFromTransaction env)
    "Failed to get restricted asset from transaction"
    "Failed to Undo Restricted Asset. Asset Name : "
  let script ← require (lastVerifier env tx)
    "Failed to find the restricted asset verifier string index from trasaction"
  let verifier ← require (assetNullVerifierDataFromScript script)
    "Failed to get the restricted asset verifier string from trasaction"
  modify fun s =>
    { s with view := s.view.removeRestrictedVerifier asset.strName verifier.verifierString false }

/-- What the transaction issued or reissued is undone. -/
def removeCreated (vUndoData : List (Bytes × CBlockAssetUndo)) : Contextual Unit :=
  if tx.isNewAsset env then do
    let _ ← removeIssued (tx.assetFromTransaction env) "Failed to get asset from transaction"
      "Failed to Remove Asset. Asset Name : "
    let (ownerName, ownerAddress) ← require (tx.ownerFromTransaction env)
      "Failed to get owner from transaction"
    modify (removeOwnerAsset ownerName ownerAddress)
  else if tx.isReissueAsset then removeReissued env tx vUndoData
  else if tx.isNewUniqueAsset env then
    forM (tx.vout.filter fun out => isScriptNewUniqueAsset env out.scriptPubKey) fun out => do
      let _ ← removeIssued (assetFromScript env out.scriptPubKey)
        "Failed to get unique asset from transaction"
        "Failed to Undo Unique Asset. Asset Name : "
  else if tx.isNewMsgChannelAsset env then do
    let _ ← removeIssued (tx.msgChannelAssetFromTransaction env)
      "Failed to get msgchannel asset from transaction"
      "Failed to Undo Msg Channel Asset. Asset Name : "
  else if tx.isNewQualifierAsset env then do
    let _ ← removeIssued (tx.qualifierAssetFromTransaction env)
      "Failed to get qualifier asset from transaction"
      "Failed to Undo Qualifier Asset. Asset Name : "
  else if tx.isNewRestrictedAsset env then removeRestricted env tx
  else pure ()

def removeTransferOutput (output : COutPoint × CTxOut) : Contextual Unit :=
  onlyIf (!isUnspendable output.2.scriptPubKey &&
      (isScriptTransferAsset output.2.scriptPubKey).isSome) do
    let (transfer, strAddress) ← require (transferAssetFromScript env output.2.scriptPubKey)
      "Failed to get transfer asset from transaction"
    let removed ← ask (removeTransfer transfer strAddress output.1)
    ensure removed ("Failed to Remove the transfer of an asset. Asset Name : " ++
      text transfer.strName)

/-- The view without a tag or a freeze that a transaction made. -/
def removeNullAssetTxData (data : CNullAssetTxData) (address : Bytes) (view : CAssetsCache) :
    CAssetsCache :=
  match assetTypeOf data.assetName with
  | .qualifier | .subQualifier =>
      view.removeQualifierAddress data.assetName address
        (if data.flag ≠ 0 then .addQualifier else .removeQualifier)
  | .restricted =>
      view.removeRestrictedAddress data.assetName address
        (if data.flag ≠ 0 then .freezeAddress else .unfreezeAddress)
  | _ => view

/-- Tags, freezes and global freezes of an output nobody can spend. -/
def removeNullAssetOutput (output : COutPoint × CTxOut) : Contextual Unit :=
  let script := output.2.scriptPubKey
  onlyIf (isUnspendable script && script.isNullAsset && !script.isNullAssetVerifierTxDataScript) do
    if script.isNullAssetTxDataScript then do
      let (data, address) ← require (assetNullDataFromScript env script)
        "Failed to get null asset data from transaction"
      modify fun s => { s with view := removeNullAssetTxData data address s.view }
    else if script.isNullGlobalRestrictionAssetTxDataScript then do
      let data ← require (globalAssetNullDataFromScript script)
        "Failed to get global null asset data from transaction"
      let type := if data.flag ≠ 0 then .globalFreeze else .globalUnfreeze
      modify fun s => { s with view := s.view.removeGlobalRestricted data.assetName type }
    else pure ()

def undoTxAssets (vUndoData : List (Bytes × CBlockAssetUndo)) : Contextual Unit :=
  onlyIf env.deployments.areAssetsDeployed do
    removeCreated env tx vUndoData
    forM tx.outputs (removeTransferOutput env)
    onlyIf env.deployments.areRestrictedAssetsDeployed
      (forM tx.outputs (removeNullAssetOutput env))

/-- The coinbase, which stands first, has no undo data. -/
def disconnectTx (nHeight : Int) (vUndoData : List (Bytes × CBlockAssetUndo))
    (scan : DisconnectScan) (item : CTransaction × Option (List Coin)) :
    Contextual DisconnectScan := do
  let tx := item.1
  let s ← get
  let scan := tx.outputs.foldl (takeOutput env tx nHeight s) scan
  undoTxAssets env tx vUndoData
  match item.2 with
  | none => return scan
  | some vprevout => restoreInputs env tx vprevout scan

/-- `DisconnectBlock`, with the coins of the undo file. A result that is not clean is
`DISCONNECT_UNCLEAN`, an error `DISCONNECT_FAILED`. -/
def disconnectBlock (block : CBlock) (nHeight : Int) (vtxundo : List (List Coin))
    (coins : Coins) : Contextual DisconnectScan := do
  ensure (vtxundo.length + 1 = block.vtx.length)
    "DisconnectBlock(): block and undo data inconsistent"
  let s ← get
  let vUndoData := s.assetsdb.readBlockUndoAssetData block.hash
  (block.vtx.zip (none :: vtxundo.map some)).reverse.foldlM
    (disconnectTx env nHeight vUndoData) ⟨coins, true⟩

end HnbCore
