import HnbCore.AssetCache

/-!
# Coins

The unspent outputs as one finite map. The layers of coin views of the source are flattened: a
view shows what it has changed over what lies below it.
-/

namespace HnbCore

structure Coin where
  out : CTxOut
  fCoinBase : Bool
  nHeight : Int
  deriving DecidableEq, Repr

def Coin.isAsset (coin : Coin) : Bool := coin.out.scriptPubKey.isAssetScript.isSome

abbrev Coins := KeyedMap COutPoint Coin

namespace Coins

def accessCoin (coins : Coins) (out : COutPoint) : Option Coin := (coins.find? out).map Prod.snd

def haveInputs (coins : Coins) (tx : CTransaction) : Bool :=
  tx.isCoinBase || tx.vin.all fun txin => coins.contains txin.prevout

/-- An output nobody can spend is not added. -/
def addCoin (coins : Coins) (out : COutPoint) (coin : Coin) : Coins :=
  if isUnspendable coin.out.scriptPubKey then coins else coins.assign (out, coin)

end Coins

structure CAssetOutputEntry where
  type : TxnOutType
  assetName : Bytes
  destination : CTxDestination
  nAmount : CAmount
  message : Bytes
  expireTime : Int
  deriving DecidableEq, Repr

/-- `GetAssetData`. An issue is read by `AssetFromScript`; the branches for message channels,
qualifiers and restricted assets behind it return false. -/
def getAssetData (env : Env) (script : CScript) : Option CAssetOutputEntry := do
  let a ← script.isAssetScript
  match a.nType, a.fIsOwner with
  | .txNewAsset, false =>
      let (asset, address) ← assetFromScript env script
      return ⟨.txNewAsset, asset.strName, env.decodeDestination address, asset.nAmount, [], 0⟩
  | .txTransferAsset, _ =>
      let (transfer, address) ← transferAssetFromScript env script
      return ⟨.txTransferAsset, transfer.strName, env.decodeDestination address, transfer.nAmount,
        transfer.message, transfer.nExpireTime⟩
  | .txNewAsset, true =>
      let (assetName, address) ← ownerAssetFromScript env script
      return ⟨.txNewAsset, assetName, env.decodeDestination address, ownerAssetAmount, [], 0⟩
  | .txReissueAsset, _ =>
      let (reissue, address) ← reissueAssetFromScript env script
      return ⟨.txReissueAsset, reissue.strName, env.decodeDestination address, reissue.nAmount, [], 0⟩
  | _, _ => none

end HnbCore
