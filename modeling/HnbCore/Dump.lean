import HnbCore.Flush

/-!
# Dumping the global cache

`CAssetsCache::DumpCacheToDatabase` writes what `passets` has pending into the databases, keeps the
least recently used caches in step and clears the dirty sets. Writes to a database go through.
-/

namespace HnbCore

namespace AssetState

variable (s : AssetState)

/-- The balance of an address goes; without the asset index there is none. -/
def eraseQuantity (name address : Bytes) : AssetState :=
  if s.fAssetIndex then
    { s with assetsdb.assetAddressQuantity :=
        s.assetsdb.assetAddressQuantity.erase (name, address) }
  else s

def writeQuantity (name address : Bytes) (amount : CAmount) : AssetState :=
  if s.fAssetIndex then
    { s with assetsdb.assetAddressQuantity :=
        s.assetsdb.assetAddressQuantity.assign ((name, address), amount) }
  else s

variable (p : CAssetsCache)

/-- The balance that the cache has for an address. -/
def amountOf (name address : Bytes) : Option CAmount :=
  (p.mapAssetsAddressAmount.find? (name, address)).map Prod.snd

/-- The balance of the cache is written, if it has one. -/
def writeAmount (name address : Bytes) : AssetState :=
  match amountOf p name address with
  | some amount => s.writeQuantity name address amount
  | none => s

/-- A balance of zero is erased. -/
def writeOrEraseAmount (name address : Bytes) : AssetState :=
  match amountOf p name address with
  | some amount =>
      if amount = 0 then s.eraseQuantity name address else s.writeQuantity name address amount
  | none => s

/-- Only a balance above zero is written. -/
def writePositiveAmount (name address : Bytes) : AssetState :=
  match amountOf p name address with
  | some amount => if amount > 0 then s.writeQuantity name address amount else s
  | none => s

def dumpRemovedAsset (e : CAssetCacheNewAsset) : AssetState :=
  let s := { s with
    assetsCache := s.assetsCache.erase e.asset.strName
    assetsdb.assetData := s.assetsdb.assetData.erase e.asset.strName
    restricteddb.verifiers := s.restricteddb.verifiers.erase e.asset.strName }
  s.eraseQuantity e.asset.strName e.address

def dumpNewAsset (e : CAssetCacheNewAsset) : AssetState :=
  let data : CDatabasedAssetData := ⟨e.asset, some e.blockHeight, e.blockHash⟩
  let s := { s with
    assetsCache := s.assetsCache.put e.asset.strName data
    assetsdb.assetData := s.assetsdb.assetData.assign data }
  s.writeQuantity e.asset.strName e.address e.asset.nAmount

/-- The owners and the transfers change balances only. -/
def dumpBalances (s : AssetState) : AssetState :=
  let s := p.setNewOwnerAssetsToRemove.items.foldl
    (fun s e => s.eraseQuantity e.assetName e.address) s
  let s := p.setNewOwnerAssetsToAdd.items.foldl
    (fun s e => s.writePositiveAmount p e.assetName e.address) s
  let s := p.setNewTransferAssetsToRemove.items.foldl
    (fun s e => s.writeOrEraseAmount p e.transfer.strName e.address) s
  p.setNewTransferAssetsToAdd.items.foldl
    (fun s e => s.writeAmount p e.transfer.strName e.address) s

/-- The reissued data is written with height and hash of the reissue's entry. -/
def writeReissued (name : Bytes) (asset : CNewAsset) (e : CAssetCacheReissueAsset) : AssetState :=
  { s with
    assetsdb.assetData := s.assetsdb.assetData.assign ⟨asset, e.blockHeight, e.blockHash⟩
    assetsCache := s.assetsCache.erase name }

def dumpReissue (s : AssetState) (e : CAssetCacheReissueAsset) : AssetState :=
  match p.mapReissuedAssetData.find? e.reissue.strName with
  | some (_, asset) =>
      (s.writeReissued e.reissue.strName asset e).writePositiveAmount p e.reissue.strName e.address
  | none => s

/-- A reissue whose asset is removed as well leaves nothing to write. -/
def dumpUndoneReissue (s : AssetState) (e : CAssetCacheReissueAsset) : AssetState :=
  if p.setNewAssetsToRemove.contains e.reissue.strName then s
  else
    match p.mapReissuedAssetData.find? e.reissue.strName with
    | some (_, asset) =>
        (s.writeReissued e.reissue.strName asset e).writeOrEraseAmount p e.reissue.strName
          e.address
    | none => s

def writeVerifier (name verifier : Bytes) : AssetState :=
  { s with
    restricteddb.verifiers := s.restricteddb.verifiers.assign (name, verifier)
    assetsVerifierCache := s.assetsVerifierCache.erase name }

/-- Undoing a reissue writes the old verifier string back. -/
def dumpUndoneVerifier (e : CAssetCacheRestrictedVerifiers) : AssetState :=
  if e.fUndoingRessiue then s.writeVerifier e.assetName e.verifier
  else
    { s with
      restricteddb.verifiers := s.restricteddb.verifiers.erase e.assetName
      assetsVerifierCache := s.assetsVerifierCache.erase e.assetName }

def setTag (hashes : Hashes) (s : AssetState) (name address : Bytes) (tagged : Bool) : AssetState :=
  if tagged then
    { s with
      assetsQualifierCache := s.assetsQualifierCache.put (addressKey hashes name address) ()
      restricteddb.addressQualifiers := s.restricteddb.addressQualifiers.assign (address, name) }
  else
    { s with
      assetsQualifierCache := s.assetsQualifierCache.erase (addressKey hashes name address)
      restricteddb.addressQualifiers := s.restricteddb.addressQualifiers.erase (address, name) }

/-- What an entry does to an address; one of another type does nothing. -/
def setFrozen (hashes : Hashes) (s : AssetState) (name address : Bytes)
    (type frozen unfrozen : RestrictedType) : AssetState :=
  if type = frozen then
    { s with
      assetsRestrictionCache := s.assetsRestrictionCache.put (addressKey hashes name address) ()
      restricteddb.restrictedAddresses :=
        s.restricteddb.restrictedAddresses.assign (address, name) }
  else if type = unfrozen then
    { s with
      assetsRestrictionCache := s.assetsRestrictionCache.erase (addressKey hashes name address)
      restricteddb.restrictedAddresses := s.restricteddb.restrictedAddresses.erase (address, name) }
  else s

def setGloballyFrozen (name : Bytes) (type frozen unfrozen : RestrictedType) : AssetState :=
  if type = frozen then
    { s with
      assetsGlobalRestrictionCache := s.assetsGlobalRestrictionCache.put name ()
      restricteddb.globalRestrictions := s.restricteddb.globalRestrictions.assign name }
  else if type = unfrozen then
    { s with
      assetsGlobalRestrictionCache := s.assetsGlobalRestrictionCache.erase name
      restricteddb.globalRestrictions := s.restricteddb.globalRestrictions.erase name }
  else s

/-- Undoing a removal sets what undoing an addition clears. -/
def dumpRestrictions (hashes : Hashes) (p : CAssetsCache) (s : AssetState) : AssetState :=
  let s := p.setNewRestrictedVerifierToAdd.items.foldl
    (fun s e => s.writeVerifier e.assetName e.verifier) s
  let s := p.setNewRestrictedVerifierToRemove.items.foldl dumpUndoneVerifier s
  let s := p.setNewQualifierAddressToAdd.items.foldl
    (fun s e => setTag hashes s e.assetName e.address (e.type = .addQualifier)) s
  let s := p.setNewQualifierAddressToRemove.items.foldl
    (fun s e => setTag hashes s e.assetName e.address (e.type = .removeQualifier)) s
  let s := p.setNewRestrictedAddressToAdd.items.foldl
    (fun s e => setFrozen hashes s e.assetName e.address e.type .freezeAddress .unfreezeAddress) s
  let s := p.setNewRestrictedAddressToRemove.items.foldl
    (fun s e => setFrozen hashes s e.assetName e.address e.type .unfreezeAddress .freezeAddress) s
  let s := p.setNewRestrictedGlobalToAdd.items.foldl
    (fun s e => s.setGloballyFrozen e.assetName e.type .globalFreeze .globalUnfreeze) s
  p.setNewRestrictedGlobalToRemove.items.foldl
    (fun s e => s.setGloballyFrozen e.assetName e.type .globalUnfreeze .globalFreeze) s

def dumpCacheToDatabase (hashes : Hashes) (s : AssetState) : AssetState :=
  let p := s.passets
  let s := p.setNewAssetsToRemove.items.foldl dumpRemovedAsset s
  let s := p.setNewAssetsToAdd.items.foldl dumpNewAsset s
  let s := dumpBalances p s
  let s := p.setNewReissueToAdd.items.foldl (dumpReissue p) s
  let s := p.setNewReissueToRemove.items.foldl (dumpUndoneReissue p) s
  let s := dumpRestrictions hashes p s
  let s := p.vUndoAssetAmount.foldl (fun s e => s.writeAmount p e.assetName e.address) s
  let s := p.vSpentAssets.foldl (fun s e => s.writeOrEraseAmount p e.assetName e.address) s
  { s with passets := .fresh }

end AssetState

end HnbCore
