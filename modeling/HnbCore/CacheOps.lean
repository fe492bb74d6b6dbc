import HnbCore.Coins
import HnbCore.Lookups

/-!
# Operations on the view

What connecting and disconnecting the transactions of a block writes into the view. An operation
returns whether it went through, and the state it leaves in either case.
-/

namespace HnbCore

namespace CAssetsCache

variable (v : CAssetsCache)

def pushNewAsset (e : CAssetCacheNewAsset) : CAssetsCache :=
  { v with
    setNewAssetsToRemove := v.setNewAssetsToRemove.erase e.asset.strName
    setNewAssetsToAdd := v.setNewAssetsToAdd.insert e }

def popNewAsset (e : CAssetCacheNewAsset) : CAssetsCache :=
  { v with
    setNewAssetsToAdd := v.setNewAssetsToAdd.erase e.asset.strName
    setNewAssetsToRemove := v.setNewAssetsToRemove.insert e }

def pushReissue (e : CAssetCacheReissueAsset) : CAssetsCache :=
  { v with
    setNewReissueToRemove := v.setNewReissueToRemove.erase e.out
    setNewReissueToAdd := v.setNewReissueToAdd.insert e }

def popReissue (e : CAssetCacheReissueAsset) : CAssetsCache :=
  { v with
    setNewReissueToAdd := v.setNewReissueToAdd.erase e.out
    setNewReissueToRemove := v.setNewReissueToRemove.insert e }

def pushOwner (e : CAssetCacheNewOwner) : CAssetsCache :=
  { v with
    setNewOwnerAssetsToRemove := v.setNewOwnerAssetsToRemove.erase e.assetName
    setNewOwnerAssetsToAdd := v.setNewOwnerAssetsToAdd.insert e }

def popOwner (e : CAssetCacheNewOwner) : CAssetsCache :=
  { v with
    setNewOwnerAssetsToAdd := v.setNewOwnerAssetsToAdd.erase e.assetName
    setNewOwnerAssetsToRemove := v.setNewOwnerAssetsToRemove.insert e }

def pushTransfer (e : CAssetCacheNewTransfer) : CAssetsCache :=
  { v with
    setNewTransferAssetsToRemove := v.setNewTransferAssetsToRemove.erase e.out
    setNewTransferAssetsToAdd := v.setNewTransferAssetsToAdd.insert e }

def popTransfer (e : CAssetCacheNewTransfer) : CAssetsCache :=
  { v with
    setNewTransferAssetsToAdd := v.setNewTransferAssetsToAdd.erase e.out
    setNewTransferAssetsToRemove := v.setNewTransferAssetsToRemove.insert e }

/-- `map[(root, address)].insert(name)`. -/
def insertRoot (m : RootQualifierMap) (name address : Bytes) : RootQualifierMap :=
  let key := (getParentName name, address)
  m.assign (key, (((m.find? key).map Prod.snd).getD .empty).insert name)

/-- `map[(root, address)].erase(name)`. -/
def eraseRoot (m : RootQualifierMap) (name address : Bytes) : RootQualifierMap :=
  let key := (getParentName name, address)
  m.assign (key, (((m.find? key).map Prod.snd).getD .empty).erase name)

/-- The sub qualifiers of an address after one is given or taken. -/
def changeRoots (given : Bool) (name address : Bytes) : CAssetsCache :=
  if isAssetNameASubQualifier name then
    if given then
      { v with
        mapRootQualifierAddressesAdd := insertRoot v.mapRootQualifierAddressesAdd name address
        mapRootQualifierAddressesRemove :=
          eraseRoot v.mapRootQualifierAddressesRemove name address }
    else
      { v with
        mapRootQualifierAddressesRemove :=
          insertRoot v.mapRootQualifierAddressesRemove name address
        mapRootQualifierAddressesAdd := eraseRoot v.mapRootQualifierAddressesAdd name address }
  else v

def addQualifierAddress (name address : Bytes) (type : QualifierType) : CAssetsCache :=
  let v := v.changeRoots (type = .addQualifier) name address
  { v with
    setNewQualifierAddressToRemove := v.setNewQualifierAddressToRemove.erase (name, address)
    setNewQualifierAddressToAdd := v.setNewQualifierAddressToAdd.assign ⟨name, address, type⟩ }

/-- Undoing an addition takes the tag, undoing a removal gives it back. -/
def removeQualifierAddress (name address : Bytes) (type : QualifierType) : CAssetsCache :=
  let v := v.changeRoots (type = .removeQualifier) name address
  { v with
    setNewQualifierAddressToAdd := v.setNewQualifierAddressToAdd.erase (name, address)
    setNewQualifierAddressToRemove :=
      v.setNewQualifierAddressToRemove.assign ⟨name, address, type⟩ }

def addRestrictedAddress (name address : Bytes) (type : RestrictedType) : CAssetsCache :=
  { v with
    setNewRestrictedAddressToRemove := v.setNewRestrictedAddressToRemove.erase (name, address)
    setNewRestrictedAddressToAdd := v.setNewRestrictedAddressToAdd.assign ⟨name, address, type⟩ }

def removeRestrictedAddress (name address : Bytes) (type : RestrictedType) : CAssetsCache :=
  { v with
    setNewRestrictedAddressToAdd := v.setNewRestrictedAddressToAdd.erase (name, address)
    setNewRestrictedAddressToRemove :=
      v.setNewRestrictedAddressToRemove.assign ⟨name, address, type⟩ }

def addGlobalRestricted (name : Bytes) (type : RestrictedType) : CAssetsCache :=
  { v with
    setNewRestrictedGlobalToRemove := v.setNewRestrictedGlobalToRemove.erase name
    setNewRestrictedGlobalToAdd := v.setNewRestrictedGlobalToAdd.assign ⟨name, type⟩ }

def removeGlobalRestricted (name : Bytes) (type : RestrictedType) : CAssetsCache :=
  { v with
    setNewRestrictedGlobalToAdd := v.setNewRestrictedGlobalToAdd.erase name
    setNewRestrictedGlobalToRemove := v.setNewRestrictedGlobalToRemove.assign ⟨name, type⟩ }

/-- A verifier string already waiting to be added stays. -/
def addRestrictedVerifier (name verifier : Bytes) : CAssetsCache :=
  { v with
    setNewRestrictedVerifierToRemove := v.setNewRestrictedVerifierToRemove.erase name
    setNewRestrictedVerifierToAdd :=
      v.setNewRestrictedVerifierToAdd.insert ⟨name, verifier, false⟩ }

def removeRestrictedVerifier (name verifier : Bytes) (fUndoingReissue : Bool) : CAssetsCache :=
  { v with
    setNewRestrictedVerifierToAdd := v.setNewRestrictedVerifierToAdd.erase name
    setNewRestrictedVerifierToRemove :=
      v.setNewRestrictedVerifierToRemove.insert ⟨name, verifier, fUndoingReissue⟩ }

end CAssetsCache

/-- The asset, address and amount that `TrySpendCoin` reads from an asset output. -/
def spentAsset (env : Env) (txOut : CTxOut) : Option (Bytes × Bytes × CAmount) :=
  txOut.scriptPubKey.isAssetScript.bind fun a =>
    match a.nType, a.fIsOwner with
    | .txNewAsset, false =>
        (assetFromScript env txOut.scriptPubKey).map fun (e, d) => (e.strName, d, e.nAmount)
    | .txTransferAsset, _ =>
        (transferAssetFromScript env txOut.scriptPubKey).map fun (e, d) => (e.strName, d, e.nAmount)
    | .txNewAsset, true =>
        (ownerAssetFromScript env txOut.scriptPubKey).map fun (name, d) => (name, d, ownerAssetAmount)
    | .txReissueAsset, _ =>
        (reissueAssetFromScript env txOut.scriptPubKey).map fun (e, d) => (e.strName, d, e.nAmount)
    | _, _ => none

namespace AssetState

def setAmount (s : AssetState) (name address : Bytes) (amount : CAmount) : AssetState :=
  { s with view.mapAssetsAddressAmount :=
      s.view.mapAssetsAddressAmount.assign ((name, address), amount) }

/-- With the asset index on, the best known balance, zero if there is none, is replaced. -/
def updateBalance (name address : Bytes) (f : CAmount → CAmount) (s : AssetState) : AssetState :=
  if s.fAssetIndex then
    let (best, s) := getBestAssetAddressAmount name address s
    s.setAmount name address (f (best.getD 0))
  else s

def addToAssetBalance (name address : Bytes) (nAmount : CAmount) (s : AssetState) : AssetState :=
  updateBalance name address
    (fun best => if isAssetNameAnOwner name then ownerAssetAmount else int64 (best + nAmount)) s

variable (transfer : CAssetTransfer)

def addTransferAsset (address : Bytes) (out : COutPoint) (s : AssetState) : AssetState :=
  let s := addToAssetBalance transfer.strName address transfer.nAmount s
  { s with view := s.view.pushTransfer ⟨transfer, address, out⟩ }

variable (asset : CNewAsset)

def addNewAsset (address : Bytes) (nHeight : Int) (blockHash : UInt256)
    (s : AssetState) : Bool × AssetState :=
  let (found, s) := checkIfAssetExists asset.strName true s
  if found then (false, s)
  else
    let s := { s with view := s.view.pushNewAsset ⟨asset, address, nHeight, blockHash⟩ }
    (true, if s.fAssetIndex then s.setAmount asset.strName address asset.nAmount else s)

def addOwnerAsset (name address : Bytes) (s : AssetState) : AssetState :=
  let s := { s with view := s.view.pushOwner ⟨name, address⟩ }
  if s.fAssetIndex then s.setAmount name address ownerAssetAmount else s

/-- The metadata of an asset after a reissue. -/
def reissued (reissue : CReissueAsset) : CNewAsset :=
  { asset with
    nAmount := asset.nAmount + reissue.nAmount
    nReissuable := reissue.nReissuable
    units := if reissue.nUnits ≠ -1 then reissue.nUnits else asset.units
    nHasIPFS := if reissue.strIPFSHash ≠ [] then 1 else asset.nHasIPFS
    strIPFSHash := if reissue.strIPFSHash ≠ [] then reissue.strIPFSHash else asset.strIPFSHash }

variable (reissue : CReissueAsset)

/-- The lookup answers with the view's own reissued data where there is any, so in both branches
of the source the map's new entry is made from what the lookup found. -/
def addReissueAsset (address : Bytes) (out : COutPoint) (s : AssetState) : Bool × AssetState :=
  match getAssetMetaDataIfExists reissue.strName s with
  | (none, s) => (false, s)
  | (some data, s) =>
      let view := { s.view with mapReissuedAssetData :=
        s.view.mapReissuedAssetData.assign (reissue.strName, reissued data.asset reissue) }
      let s := { s with
        view := view.pushReissue ⟨reissue, address, out, data.nHeight, data.blockHash⟩ }
      (true, updateBalance reissue.strName address (fun best => int64 (best + reissue.nAmount)) s)

/-- With the index on, a positive amount is taken off a recorded balance. -/
def takeOff (name address : Bytes) (nAmount : CAmount) (s : AssetState) : AssetState :=
  if s.fAssetIndex && nAmount > 0 then
    match getBestAssetAddressAmount name address s with
    | (none, s) => s
    | (some best, s) =>
        let left := int64 (best - nAmount)
        let s := s.setAmount name address (if left < 0 then 0 else left)
        { s with view.vSpentAssets := s.view.vSpentAssets ++ [⟨name, address, nAmount⟩] }
  else s

def trySpendCoin (env : Env) (txOut : CTxOut) (s : AssetState) : Bool × AssetState :=
  if txOut.scriptPubKey.isAssetScript.isSome then
    match spentAsset env txOut with
    | none => (false, s)
    | some (name, address, nAmount) =>
        if address.isEmpty || name.isEmpty then (false, s)
        else (true, takeOff name address nAmount s)
  else (true, s)

def removeNewAsset (address : Bytes) (s : AssetState) : Bool × AssetState :=
  let (found, s) := checkIfAssetExists asset.strName true s
  if !found then (false, s)
  else
    let s := { s with view := s.view.popNewAsset ⟨asset, address, 0, 0⟩ }
    (true, if s.fAssetIndex then s.setAmount asset.strName address 0 else s)

def removeOwnerAsset (name address : Bytes) (s : AssetState) : AssetState :=
  let s := { s with view := s.view.popOwner ⟨name, address⟩ }
  if s.fAssetIndex then s.setAmount name address 0 else s

/-- The undo entry of a reissue: the first one in the block under the asset's name. -/
def undoEntry (vUndo : List (Bytes × CBlockAssetUndo)) (name : Bytes) : Option CBlockAssetUndo :=
  (vUndo.find? fun item => item.1 = name).map Prod.snd

/-- The metadata of an asset after a reissue is taken back. -/
def unreissued (reissue : CReissueAsset) (undo : Option CBlockAssetUndo) : CNewAsset :=
  let asset := { asset with nAmount := asset.nAmount - reissue.nAmount, nReissuable := 1 }
  match undo with
  | none => asset
  | some item =>
      let strIPFSHash := if item.fChangedIPFS then item.strIPFS else asset.strIPFSHash
      { asset with
        strIPFSHash := strIPFSHash
        units := if item.fChangedUnits then item.nUnits else asset.units
        nHasIPFS := if strIPFSHash = [] then 0 else asset.nHasIPFS }

/-- The view with the asset data before a reissue, and with the verifier string it replaced. -/
def unreissueView (view : CAssetsCache) (e : CAssetCacheReissueAsset) (assetData : CNewAsset)
    (undo : Option CBlockAssetUndo) : CAssetsCache :=
  let view := { view with mapReissuedAssetData :=
    view.mapReissuedAssetData.assign (assetData.strName, assetData) }
  let view := view.popReissue e
  match undo with
  | some item =>
      if item.fChangedVerifierString then
        view.removeRestrictedVerifier assetData.strName item.verifierString true
      else view
  | none => view

/-- The balance without the reissued amount; the result is whether it was large enough. -/
def takeReissuedAmount (address : Bytes) (s : AssetState) : Bool × AssetState :=
  if s.fAssetIndex then
    match getBestAssetAddressAmount reissue.strName address s with
    | (none, s) =>
        if reissue.nAmount ≠ 0 then (false, s)
        else (true, s.setAmount reissue.strName address 0)
    | (some best, s) =>
        let left := int64 (best - reissue.nAmount)
        (!(left < 0), s.setAmount reissue.strName address left)
  else (true, s)

def removeReissueAsset (address : Bytes) (out : COutPoint)
    (vUndo : List (Bytes × CBlockAssetUndo)) (s : AssetState) : Bool × AssetState :=
  match getAssetMetaDataIfExists reissue.strName s with
  | (none, s) => (false, s)
  | (some data, s) =>
      let undo := undoEntry vUndo reissue.strName
      let view := unreissueView s.view ⟨reissue, address, out, data.nHeight, data.blockHash⟩
        (unreissued data.asset reissue undo) undo
      takeReissuedAmount reissue address { s with view := view }

/-- The balance without the transferred amount, which must be there. -/
def takeTransferredAmount (address : Bytes) (s : AssetState) : Bool × AssetState :=
  if s.fAssetIndex then
    match getBestAssetAddressAmount transfer.strName address s with
    | (none, s) => (false, s)
    | (some best, s) =>
        if best < transfer.nAmount then (false, s)
        else (true, s.setAmount transfer.strName address (int64 (best - transfer.nAmount)))
  else (true, s)

def removeTransfer (address : Bytes) (out : COutPoint) (s : AssetState) : Bool × AssetState :=
  match takeTransferredAmount transfer address s with
  | (false, s) => (false, s)
  | (true, s) => (true, { s with view := s.view.popTransfer ⟨transfer, address, out⟩ })

/-- `UndoAssetCoin` and `AddBackSpentAsset`. An amount of zero is taken for an error. -/
def undoAssetCoin (env : Env) (coin : Coin) (s : AssetState) : Bool × AssetState :=
  match getAssetData env coin.out.scriptPubKey with
  | none => (false, s)
  | some data =>
      let address := env.addressOf coin.out.scriptPubKey
      if data.assetName.isEmpty || address.isEmpty || data.nAmount = 0 then (false, s)
      else
        let s := updateBalance data.assetName address (fun best => int64 (best + data.nAmount)) s
        (true, { s with
          view.vUndoAssetAmount :=
            s.view.vUndoAssetAmount ++ [⟨data.assetName, address, data.nAmount⟩] })

end AssetState

end HnbCore
