import HnbCore.AssetCache
import HnbCore.Lib.Overlay

/-!
# Lookups in the asset state

A lookup reads the dirty sets of the view and of `passets`, then a least recently used cache, then
a database. It returns its answer and the state, in which only the caches may have changed.
-/

namespace HnbCore

namespace CRestrictedDB

/-- `CheckForAddressRootQualifier`: the scan over the keys of an address finds the qualifier itself
or one of its sub qualifiers. -/
def checkForAddressRootQualifier (db : CRestrictedDB) (address qualifier : Bytes) : Bool :=
  db.addressQualifiers.items.any fun k =>
    k.1 = address && (k.2 = qualifier || (qualifier ++ str "/").isPrefixOf k.2)

end CRestrictedDB

namespace AssetState

open Overlay

/-- What the asset cache and the asset database say about a name. -/
def readAssetData (s : AssetState) (name : Bytes) : Option CDatabasedAssetData × AssetState :=
  match s.assetsCache.get name with
  | (some data, cache) => (some data, { s with assetsCache := cache })
  | (none, _) =>
      match s.assetsdb.assetData.find? name with
      | some data => (some data, { s with assetsCache := s.assetsCache.put data.asset.strName data })
      | none => (none, s)

/-- `passetsCache->Exists` or else a read of the database, which fills the cache. -/
def assetIsStored (s : AssetState) (name : Bytes) : Bool × AssetState :=
  if s.assetsCache.exists? name then (true, s)
  else
    match s.assetsdb.assetData.find? name with
    | some data => (true, { s with assetsCache := s.assetsCache.put data.asset.strName data })
    | none => (false, s)

def checkIfAssetExists (name : Bytes) (fForceDuplicateCheck : Bool) (s : AssetState) :
    Bool × AssetState :=
  if s.fReindex then (true, s)
  else if s.view.setNewAssetsToRemove.contains name then (false, s)
  else if s.passets.setNewAssetsToRemove.contains name then (false, s)
  else if s.view.setNewAssetsToAdd.contains name && fForceDuplicateCheck then (true, s)
  else if s.passets.setNewAssetsToAdd.contains name && fForceDuplicateCheck then (true, s)
  else
    let (stored, s) := s.assetIsStored name
    (stored && fForceDuplicateCheck, s)

/-- The metadata of an asset is what the database keeps of it. Height and hash are out-parameters
of the source that the reissued data leaves as the caller had them: unset, and zero. -/
abbrev AssetMetaData := CDatabasedAssetData

def getAssetMetaDataIfExists (name : Bytes) (s : AssetState) : Option AssetMetaData × AssetState :=
  match (s.view.mapReissuedAssetData.find? name).or (s.passets.mapReissuedAssetData.find? name) with
  | some (_, asset) => (some ⟨asset, none, 0⟩, s)
  | none =>
      match pending (s.view.setNewAssetsToRemove.find? name)
          (s.passets.setNewAssetsToRemove.find? name) (s.view.setNewAssetsToAdd.find? name)
          (s.passets.setNewAssetsToAdd.find? name) (fun _ => none)
          (fun e => some ⟨e.asset, some e.blockHeight, e.blockHash⟩) with
      | some answer => (answer, s)
      | none => s.readAssetData name

/-- An entry of the view, which `fSkipTempCache` leaves out. -/
def unlessSkipped {α : Type} (fSkipTempCache : Bool) (entry : Option α) : Option α :=
  if fSkipTempCache then none else entry

def getAssetVerifierStringIfExists (name : Bytes) (fSkipTempCache : Bool) (s : AssetState) :
    Option CNullAssetTxVerifierString × AssetState :=
  match pending (unlessSkipped fSkipTempCache (s.view.setNewRestrictedVerifierToRemove.find? name))
      (s.passets.setNewRestrictedVerifierToRemove.find? name)
      (unlessSkipped fSkipTempCache (s.view.setNewRestrictedVerifierToAdd.find? name))
      (s.passets.setNewRestrictedVerifierToAdd.find? name)
      (fun e => if e.fUndoingRessiue then some ⟨e.verifier⟩ else none)
      (fun e => some ⟨e.verifier⟩) with
  | some answer => (answer, s)
  | none =>
      match s.assetsVerifierCache.get name with
      | (some verifier, cache) => (some verifier, { s with assetsVerifierCache := cache })
      | (none, _) =>
          match s.restricteddb.verifiers.find? name with
          | some (_, verifier) =>
              (some ⟨verifier⟩,
                { s with assetsVerifierCache := s.assetsVerifierCache.put name ⟨verifier⟩ })
          | none => (none, s)

/-- `GetHash` of a name and an address, the key of the tag and freeze caches. -/
def addressKey (hashes : Hashes) (name address : Bytes) : Bytes := hashes.hash (name ++ address)

/-- Whether a map of root qualifiers has a sub qualifier by which the address has the root. -/
def hasRootQualifier (m : RootQualifierMap) (name address : Bytes) : Bool :=
  match m.find? (name, address) with
  | some (_, names) => names.size ≠ 0
  | none => false

def checkForAddressQualifier (hashes : Hashes) (name address : Bytes) (fSkipTempCache : Bool)
    (s : AssetState) : Bool × AssetState :=
  let key := (name, address)
  match unlessSkipped fSkipTempCache (s.view.setNewQualifierAddressToRemove.find? key) with
  | some e => (e.type = .removeQualifier, s)
  | none =>
  match s.passets.setNewQualifierAddressToRemove.find? key with
  | some e => (e.type = .removeQualifier, s)
  | none =>
  match unlessSkipped fSkipTempCache (s.view.setNewQualifierAddressToAdd.find? key) with
  | some e => (e.type = .addQualifier, s)
  | none =>
  match s.passets.setNewQualifierAddressToAdd.find? key with
  | some e =>
      (e.type = .addQualifier ||
        hasRootQualifier s.passets.mapRootQualifierAddressesAdd name address, s)
  | none =>
  if !fSkipTempCache && hasRootQualifier s.view.mapRootQualifierAddressesAdd name address then
    (true, s)
  else if hasRootQualifier s.passets.mapRootQualifierAddressesAdd name address then (true, s)
  else if s.assetsQualifierCache.exists? (addressKey hashes name address) then (true, s)
  else if s.restricteddb.addressQualifiers.contains (address, name) then
    (true, { s with
      assetsQualifierCache := s.assetsQualifierCache.put (addressKey hashes name address) () })
  else (s.restricteddb.checkForAddressRootQualifier address name, s)

def checkForAddressRestriction (hashes : Hashes) (name address : Bytes) (fSkipTempCache : Bool)
    (s : AssetState) : Bool × AssetState :=
  let key := (name, address)
  match pending (unlessSkipped fSkipTempCache (s.view.setNewRestrictedAddressToRemove.find? key))
      (s.passets.setNewRestrictedAddressToRemove.find? key)
      (unlessSkipped fSkipTempCache (s.view.setNewRestrictedAddressToAdd.find? key))
      (s.passets.setNewRestrictedAddressToAdd.find? key)
      (fun e => decide (e.type = .unfreezeAddress)) (fun e => decide (e.type = .freezeAddress)) with
  | some answer => (answer, s)
  | none =>
      if s.assetsRestrictionCache.exists? (addressKey hashes name address) then (true, s)
      else if s.restricteddb.restrictedAddresses.contains (address, name) then
        (true, { s with
          assetsRestrictionCache :=
            s.assetsRestrictionCache.put (addressKey hashes name address) () })
      else (false, s)

def checkForGlobalRestriction (name : Bytes) (fSkipTempCache : Bool) (s : AssetState) :
    Bool × AssetState :=
  match pending (unlessSkipped fSkipTempCache (s.view.setNewRestrictedGlobalToRemove.find? name))
      (s.passets.setNewRestrictedGlobalToRemove.find? name)
      (unlessSkipped fSkipTempCache (s.view.setNewRestrictedGlobalToAdd.find? name))
      (s.passets.setNewRestrictedGlobalToAdd.find? name)
      (fun e => decide (e.type = .globalUnfreeze)) (fun e => decide (e.type = .globalFreeze)) with
  | some answer => (answer, s)
  | none =>
      if s.assetsGlobalRestrictionCache.exists? name then (true, s)
      else if s.restricteddb.globalRestrictions.contains name then
        (true, { s with
          assetsGlobalRestrictionCache := s.assetsGlobalRestrictionCache.put name () })
      else (false, s)

/-- `GetBestAssetAddressAmount`: the amount, which is then in the view's map. -/
def getBestAssetAddressAmount (assetName address : Bytes) (s : AssetState) :
    Option CAmount × AssetState :=
  if s.fAssetIndex then
    match s.view.mapAssetsAddressAmount.find? (assetName, address) with
    | some (_, amount) => (some amount, s)
    | none =>
        match (s.passets.mapAssetsAddressAmount.find? (assetName, address)).or
            (s.assetsdb.assetAddressQuantity.find? (assetName, address)) with
        | some (_, amount) =>
            (some amount, { s with view.mapAssetsAddressAmount :=
              s.view.mapAssetsAddressAmount.assign ((assetName, address), amount) })
        | none => (none, s)
  else (none, s)

end AssetState

end HnbCore
