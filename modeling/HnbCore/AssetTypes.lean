import HnbCore.AssetNames
import HnbCore.Script

/-!
# Asset records and their serialization
-/

namespace HnbCore

def coin : CAmount := 100000000

def maxUnit : Int := 8
def minUnit : Int := 0

def ownerAssetAmount : CAmount := 1 * coin
def uniqueAssetAmount : CAmount := 1 * coin
def qualifierAssetMinAmount : CAmount := 1 * coin
def qualifierAssetMaxAmount : CAmount := 10 * coin

structure CNewAsset where
  strName : Bytes
  nAmount : CAmount
  units : Int
  nReissuable : Int
  nHasIPFS : Int
  strIPFSHash : Bytes
  deriving DecidableEq, Repr

structure CAssetTransfer where
  strName : Bytes
  nAmount : CAmount
  message : Bytes
  nExpireTime : Int
  deriving DecidableEq, Repr

structure CReissueAsset where
  strName : Bytes
  nAmount : CAmount
  nUnits : Int
  nReissuable : Int
  strIPFSHash : Bytes
  deriving DecidableEq, Repr

structure CNullAssetTxData where
  assetName : Bytes
  flag : Int
  deriving DecidableEq, Repr

structure CNullAssetTxVerifierString where
  verifierString : Bytes
  deriving DecidableEq, Repr

def ipfsSha2256 : UInt8 := 0x12
def txidNotifier : UInt8 := 0x54
def ipfsSha2256Len : UInt8 := 0x20

/-- `ReadWriteAssetHash` when reading: the hash, and whether one was there. -/
def readAssetHash : Reader (Bytes × Bool) := do
  if (← remaining) ≥ 33 then
    let kind ← readBytes 1
    let hash ← readString
    let head := if kind = [ipfsSha2256] then [ipfsSha2256, ipfsSha2256Len] else []
    return (head ++ hash.take 32, true)
  else
    return ([], false)

/-- `ReadWriteAssetHash` when writing. -/
def writeAssetHash (strIPFSHash : Bytes) : Bytes × Bool :=
  if strIPFSHash.length = 34 then ([ipfsSha2256] ++ writeString (strIPFSHash.drop 2), true)
  else if strIPFSHash.length = 32 then ([txidNotifier] ++ writeString strIPFSHash, true)
  else ([], false)

namespace CNewAsset

def unserialize : Reader CNewAsset := do
  let strName ← readString
  let nAmount ← readInt64
  let units ← readInt8
  let nReissuable ← readInt8
  let nHasIPFS ← readInt8
  let strIPFSHash ← if nHasIPFS = 1 then Prod.fst <$> readAssetHash else pure []
  return ⟨strName, nAmount, units, nReissuable, nHasIPFS, strIPFSHash⟩

def serialize (asset : CNewAsset) : Bytes :=
  writeString asset.strName ++ writeInt64 asset.nAmount ++ writeInt8 asset.units ++
    writeInt8 asset.nReissuable ++ writeInt8 asset.nHasIPFS ++
    (if asset.nHasIPFS = 1 then (writeAssetHash asset.strIPFSHash).1 else [])

end CNewAsset

namespace CAssetTransfer

def unserialize : Reader CAssetTransfer := do
  let strName ← readString
  let nAmount ← readInt64
  let (message, validIPFS) ← readAssetHash
  let nExpireTime ← if validIPFS && (← remaining) ≥ 8 then readInt64 else pure 0
  return ⟨strName, nAmount, message, nExpireTime⟩

def serialize (transfer : CAssetTransfer) : Bytes :=
  let (hash, validIPFS) := writeAssetHash transfer.message
  writeString transfer.strName ++ writeInt64 transfer.nAmount ++ hash ++
    (if validIPFS && transfer.nExpireTime ≠ 0 then writeInt64 transfer.nExpireTime else [])

end CAssetTransfer

namespace CReissueAsset

def unserialize : Reader CReissueAsset := do
  let strName ← readString
  let nAmount ← readInt64
  let nUnits ← readInt8
  let nReissuable ← readInt8
  let (strIPFSHash, _) ← readAssetHash
  return ⟨strName, nAmount, nUnits, nReissuable, strIPFSHash⟩

def serialize (reissue : CReissueAsset) : Bytes :=
  writeString reissue.strName ++ writeInt64 reissue.nAmount ++ writeInt8 reissue.nUnits ++
    writeInt8 reissue.nReissuable ++ (writeAssetHash reissue.strIPFSHash).1

end CReissueAsset

def CNullAssetTxData.unserialize : Reader CNullAssetTxData := do
  let assetName ← readString
  let flag ← readInt8
  return ⟨assetName, flag⟩

def CNullAssetTxVerifierString.unserialize : Reader CNullAssetTxVerifierString := do
  return ⟨← readString⟩

/-- What a reader makes of a whole byte string; bytes left over are ignored. -/
def fromStream {α : Type} (r : Reader α) (s : Bytes) : Option α := (r s).map Prod.fst

def opDrop : UInt8 := 0x75

/-- `CScript::operator<<` of a byte vector. -/
def pushData (data : Bytes) : CScript :=
  if data.length < opPushdata1.toNat then UInt8.ofNat data.length :: data
  else if data.length ≤ 0xff then opPushdata1 :: leBytes 1 data.length ++ data
  else if data.length ≤ 0xffff then opPushdata2 :: leBytes 2 data.length ++ data
  else opPushdata4 :: leBytes 4 data.length ++ data

def constructScript (kind : UInt8) (data : Bytes) (script : CScript) : CScript :=
  script ++ [opHnbAsset] ++ pushData ([hnbR, hnbV, hnbN, kind] ++ data) ++ [opDrop]

def CNewAsset.constructTransaction (asset : CNewAsset) (script : CScript) : CScript :=
  constructScript hnbQ asset.serialize script

def CNewAsset.constructOwnerTransaction (asset : CNewAsset) (script : CScript) : CScript :=
  constructScript hnbO (writeString (asset.strName ++ ownerTag)) script

def CAssetTransfer.constructTransaction (transfer : CAssetTransfer) (script : CScript) : CScript :=
  constructScript hnbT transfer.serialize script

def CReissueAsset.constructTransaction (reissue : CReissueAsset) (script : CScript) : CScript :=
  constructScript hnbR reissue.serialize script

/-- `GetScriptForDestination` of a key hash. -/
def scriptForKeyID (id : Bytes) : CScript :=
  [opDup, opHash160] ++ pushData id ++ [opEqualverify, opChecksig]

end HnbCore
