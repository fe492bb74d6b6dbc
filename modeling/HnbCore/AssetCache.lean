import HnbCore.Lib.Lru
import HnbCore.Transaction

/-!
# The state of the asset layer

A block is connected or disconnected on a view, a `CAssetsCache` of its own. The view is flushed
into the global cache `passets`, which is dumped into the databases from time to time. In front of
the databases stand least recently used caches.
-/

namespace HnbCore

structure CAssetCacheNewAsset where
  asset : CNewAsset
  address : Bytes
  blockHeight : Int
  blockHash : UInt256
  deriving DecidableEq, Repr

/-- A height of `none` is an `int` of the source that was never set. -/
structure CAssetCacheReissueAsset where
  reissue : CReissueAsset
  address : Bytes
  out : COutPoint
  blockHeight : Option Int
  blockHash : UInt256
  deriving DecidableEq, Repr

structure CAssetCacheNewTransfer where
  transfer : CAssetTransfer
  address : Bytes
  out : COutPoint
  deriving DecidableEq, Repr

structure CAssetCacheNewOwner where
  assetName : Bytes
  address : Bytes
  deriving DecidableEq, Repr

structure CAssetCacheUndoAssetAmount where
  assetName : Bytes
  address : Bytes
  nAmount : CAmount
  deriving DecidableEq, Repr

structure CAssetCacheSpendAsset where
  assetName : Bytes
  address : Bytes
  nAmount : CAmount
  deriving DecidableEq, Repr

inductive QualifierType
  | removeQualifier
  | addQualifier
  deriving DecidableEq, Repr

inductive RestrictedType
  | unfreezeAddress
  | freezeAddress
  | globalUnfreeze
  | globalFreeze
  deriving DecidableEq, Repr

structure CAssetCacheQualifierAddress where
  assetName : Bytes
  address : Bytes
  type : QualifierType
  deriving DecidableEq, Repr

structure CAssetCacheRestrictedAddress where
  assetName : Bytes
  address : Bytes
  type : RestrictedType
  deriving DecidableEq, Repr

structure CAssetCacheRestrictedGlobal where
  assetName : Bytes
  type : RestrictedType
  deriving DecidableEq, Repr

structure CAssetCacheRestrictedVerifiers where
  assetName : Bytes
  verifier : Bytes
  fUndoingRessiue : Bool
  deriving DecidableEq, Repr

-- Each set is ordered by the part of its entries that `operator<` compares.
abbrev NewAssetSet := KeyedSet (fun e : CAssetCacheNewAsset => e.asset.strName)
abbrev ReissueSet := KeyedSet CAssetCacheReissueAsset.out
abbrev TransferSet := KeyedSet CAssetCacheNewTransfer.out
abbrev OwnerSet := KeyedSet CAssetCacheNewOwner.assetName
abbrev QualifierSet :=
  KeyedSet (fun e : CAssetCacheQualifierAddress => (e.assetName, e.address))
abbrev RestrictedSet :=
  KeyedSet (fun e : CAssetCacheRestrictedAddress => (e.assetName, e.address))
abbrev GlobalSet := KeyedSet CAssetCacheRestrictedGlobal.assetName
abbrev VerifierSet := KeyedSet CAssetCacheRestrictedVerifiers.assetName

/-- Root qualifier and address, to the sub qualifiers by which the address has it. -/
abbrev RootQualifierMap := KeyedMap (Bytes × Bytes) (KeyedSet (id : Bytes → Bytes))

structure CAssetsCache where
  mapAssetsAddressAmount : KeyedMap (Bytes × Bytes) CAmount := .empty
  mapReissuedAssetData : KeyedMap Bytes CNewAsset := .empty
  vUndoAssetAmount : List CAssetCacheUndoAssetAmount := []
  vSpentAssets : List CAssetCacheSpendAsset := []
  setNewAssetsToRemove : NewAssetSet := .empty
  setNewAssetsToAdd : NewAssetSet := .empty
  setNewReissueToRemove : ReissueSet := .empty
  setNewReissueToAdd : ReissueSet := .empty
  setNewOwnerAssetsToAdd : OwnerSet := .empty
  setNewOwnerAssetsToRemove : OwnerSet := .empty
  setNewTransferAssetsToAdd : TransferSet := .empty
  setNewTransferAssetsToRemove : TransferSet := .empty
  setNewQualifierAddressToAdd : QualifierSet := .empty
  setNewQualifierAddressToRemove : QualifierSet := .empty
  setNewRestrictedAddressToAdd : RestrictedSet := .empty
  setNewRestrictedAddressToRemove : RestrictedSet := .empty
  setNewRestrictedGlobalToAdd : GlobalSet := .empty
  setNewRestrictedGlobalToRemove : GlobalSet := .empty
  setNewRestrictedVerifierToAdd : VerifierSet := .empty
  setNewRestrictedVerifierToRemove : VerifierSet := .empty
  mapRootQualifierAddressesAdd : RootQualifierMap := .empty
  mapRootQualifierAddressesRemove : RootQualifierMap := .empty
  deriving DecidableEq

/-- The default constructor: an empty view. -/
def CAssetsCache.fresh : CAssetsCache := {}

structure CDatabasedAssetData where
  asset : CNewAsset
  nHeight : Option Int
  blockHash : UInt256
  deriving DecidableEq, Repr

/-- What disconnecting a block needs to take a reissue back. -/
structure CBlockAssetUndo where
  fChangedIPFS : Bool
  fChangedUnits : Bool
  strIPFS : Bytes
  nUnits : Int
  fChangedVerifierString : Bool
  verifierString : Bytes
  deriving DecidableEq, Repr

/-- Asset data is written under the name in the data. -/
structure CAssetsDB where
  assetData : KeyedSet (fun d : CDatabasedAssetData => d.asset.strName) := .empty
  assetAddressQuantity : KeyedMap (Bytes × Bytes) CAmount := .empty
  blockUndoAssetData : KeyedMap UInt256 (List (Bytes × CBlockAssetUndo)) := .empty

structure CRestrictedDB where
  verifiers : KeyedMap Bytes Bytes := .empty
  addressQualifiers : KeyedSet (id : Bytes × Bytes → Bytes × Bytes) := .empty
  restrictedAddresses : KeyedSet (id : Bytes × Bytes → Bytes × Bytes) := .empty
  globalRestrictions : KeyedSet (id : Bytes → Bytes) := .empty

def maxCacheAssetsSize : Nat := 2500

/-- Everything the asset layer reads: the view that is worked on, the global cache, the least
recently used caches and the databases. -/
structure AssetState where
  view : CAssetsCache := {}
  passets : CAssetsCache := {}
  assetsCache : Lru Bytes CDatabasedAssetData := .empty maxCacheAssetsSize
  assetsVerifierCache : Lru Bytes CNullAssetTxVerifierString := .empty maxCacheAssetsSize
  assetsQualifierCache : Lru Bytes Unit := .empty maxCacheAssetsSize
  assetsRestrictionCache : Lru Bytes Unit := .empty maxCacheAssetsSize
  assetsGlobalRestrictionCache : Lru Bytes Unit := .empty maxCacheAssetsSize
  assetsdb : CAssetsDB := {}
  restricteddb : CRestrictedDB := {}
  fReindex : Bool := false
  fAssetIndex : Bool := false

end HnbCore
