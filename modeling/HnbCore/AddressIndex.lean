import HnbCore.BlockCoins
import HnbCore.DisconnectBlock
import HnbCore.Lib.Batch

/-!
# The address index, the unspent index and the spent index

What `ConnectBlock` and `DisconnectBlock` collect for the three indexes of the block database while
they go over the transactions, and how it is written. The options `-addressindex` and `-spentindex`
are on.
-/

namespace HnbCore

open Checks AssetState List Option

variable {s t : AssetState} {env : Env} {scan scan' : DisconnectScan}

/-- The name under which the coin itself is indexed. -/
def hnb : Bytes := str "HNB"

structure CAddressIndexKey where
  type : Nat
  hashBytes : Bytes
  asset : Bytes
  blockHeight : Int
  txindex : Nat
  txhash : UInt256
  index : Nat
  spending : Bool
  deriving DecidableEq, Repr

structure CAddressUnspentKey where
  type : Nat
  hashBytes : Bytes
  asset : Bytes
  txhash : UInt256
  index : Nat
  deriving DecidableEq, Repr

structure CAddressUnspentValue where
  satoshis : CAmount
  script : CScript
  blockHeight : Int
  deriving DecidableEq, Repr

namespace CAddressUnspentValue

def null : CAddressUnspentValue := ⟨-1, [], 0⟩

def isNull (value : CAddressUnspentValue) : Bool := value.satoshis = -1

/-- What is written for a value: a null value erases the key. -/
def entry (value : CAddressUnspentValue) : Option CAddressUnspentValue :=
  if value.isNull then none else some value

end CAddressUnspentValue

structure CSpentIndexValue where
  txid : UInt256
  inputIndex : Nat
  blockHeight : Int
  satoshis : CAmount
  addressType : Nat
  addressHash : Bytes
  deriving DecidableEq, Repr

namespace CSpentIndexValue

def null : CSpentIndexValue := ⟨0, 0, 0, 0, 0, List.replicate 20 0⟩

def isNull (value : CSpentIndexValue) : Bool := value.txid = 0

def entry (value : CSpentIndexValue) : Option CSpentIndexValue :=
  if value.isNull then none else some value

end CSpentIndexValue

/-- The three indexes. A `CSpentIndexKey` has the fields of an outpoint. -/
structure CBlockTreeDB where
  addressIndex : KeyedMap CAddressIndexKey CAmount := .empty
  addressUnspentIndex : KeyedMap CAddressUnspentKey CAddressUnspentValue := .empty
  spentIndex : KeyedMap COutPoint CSpentIndexValue := .empty
  deriving DecidableEq

namespace CBlockTreeDB

variable (db : CBlockTreeDB)

def writeAddressIndex (vect : List (CAddressIndexKey × CAmount)) : CBlockTreeDB :=
  { db with addressIndex := Batch.write db.addressIndex (vect.map fun e => (e.1, some e.2)) }

def eraseAddressIndex (vect : List (CAddressIndexKey × CAmount)) : CBlockTreeDB :=
  { db with addressIndex := Batch.write db.addressIndex (vect.map fun e => (e.1, none)) }

def updateAddressUnspentIndex
    (vect : List (CAddressUnspentKey × CAddressUnspentValue)) : CBlockTreeDB :=
  { db with addressUnspentIndex :=
      Batch.write db.addressUnspentIndex (vect.map fun e => (e.1, e.2.entry)) }

def updateSpentIndex (vect : List (COutPoint × CSpentIndexValue)) : CBlockTreeDB :=
  { db with spentIndex := Batch.write db.spentIndex (vect.map fun e => (e.1, e.2.entry)) }

end CBlockTreeDB

/-- `ParseAssetScript`: the hash, the asset's name and its amount. -/
def parseAssetScript (env : Env) (script : CScript) : Option (Bytes × Bytes × CAmount) := do
  let a ← script.isAssetScript
  let (assetName, assetAmount) ←
    match a.nType, a.fIsOwner with
    | .txNewAsset, true => do
        let (assetName, _) ← ownerAssetFromScript env script
        pure (assetName, ownerAssetAmount)
    | .txNewAsset, false => do
        let (asset, _) ← assetFromScript env script
        pure (asset.strName, asset.nAmount)
    | .txReissueAsset, _ => do
        let (asset, _) ← reissueAssetFromScript env script
        pure (asset.strName, asset.nAmount)
    | .txTransferAsset, _ => do
        let (asset, _) ← transferAssetFromScript env script
        pure (asset.strName, asset.nAmount)
    | _, _ => none
  return ((script.drop 3).take 20, assetName, assetAmount)

/-- A compressed or an uncompressed public key. -/
def CScript.isPayToPublicKey (s : CScript) : Bool :=
  if s.length = 35 then (s.byteAt 1 = 0x02 || s.byteAt 1 = 0x03) && s.byteAt 34 = opChecksig
  else if s.length = 67 then s.byteAt 1 = 0x04 && s.byteAt 66 = opChecksig
  else false

/-- The address an output is indexed under, with the asset and the amount. -/
structure IndexedAddress where
  addressType : Nat
  hashBytes : Bytes
  asset : Bytes
  amount : CAmount
  payToPublicKey : Bool
  deriving DecidableEq, Repr

/-- The four kinds of scripts that are indexed, in the order in which they are tried. -/
def indexedAddress (env : Env) (out : CTxOut) : Option IndexedAddress :=
  let script := out.scriptPubKey
  if script.isPayToScriptHash then
    some ⟨2, (script.drop 2).take 20, hnb, out.nValue, false⟩
  else if script.isPayToPublicKeyHash then
    some ⟨1, (script.drop 3).take 20, hnb, out.nValue, false⟩
  else if script.isPayToPublicKey then
    some ⟨1, env.hashes.hash160 (script.drop 1).dropLast, hnb, out.nValue, true⟩
  else if env.deployments.areAssetsDeployed then
    (parseAssetScript env script).map fun (hashBytes, assetName, assetAmount) =>
      ⟨1, hashBytes, assetName, assetAmount, false⟩
  else none

/-- Where in the chain a transaction stands. -/
structure TxPlace where
  nHeight : Int
  txindex : Nat
  txhash : UInt256

namespace IndexedAddress

def activityKey (a : IndexedAddress) (place : TxPlace) (index : Nat) (spending : Bool) :
    CAddressIndexKey :=
  ⟨a.addressType, a.hashBytes, a.asset, place.nHeight, place.txindex, place.txhash, index, spending⟩

def unspentKey (a : IndexedAddress) (out : COutPoint) : CAddressUnspentKey :=
  ⟨a.addressType, a.hashBytes, a.asset, out.hash, out.n⟩

end IndexedAddress

structure IndexChanges where
  addressIndex : List (CAddressIndexKey × CAmount) := []
  addressUnspentIndex : List (CAddressUnspentKey × CAddressUnspentValue) := []
  spentIndex : List (COutPoint × CSpentIndexValue) := []

namespace IndexChanges

instance : Append IndexChanges where
  append a b := ⟨a.addressIndex ++ b.addressIndex, a.addressUnspentIndex ++ b.addressUnspentIndex,
    a.spentIndex ++ b.spentIndex⟩

def concat (l : List IndexChanges) : IndexChanges := l.foldr (· ++ ·) {}

end IndexChanges

/-- `AccessCoin(out).out`: a coin that is not there has the output of an empty coin. -/
def Coins.accessOut (coins : Coins) (out : COutPoint) : CTxOut :=
  ((coins.accessCoin out).map (·.out)).getD ⟨-1, []⟩

/-- The entry that tells which input spent an output. -/
def spentValue (env : Env) (place : TxPlace) (prevout : CTxOut) (index : Nat) : CSpentIndexValue :=
  let address := indexedAddress env prevout
  ⟨place.txhash, index, place.nHeight, prevout.nValue, (address.map (·.addressType)).getD 0,
    (address.map (·.hashBytes)).getD (List.replicate 20 0)⟩

/-- An input is recorded as a spend of its previous output, which leaves the unspent index. -/
def recordInput (env : Env) (place : TxPlace) (prevout : CTxOut) (input : CTxIn × Nat) :
    IndexChanges :=
  let address := indexedAddress env prevout
  { addressIndex := address.toList.map fun a => (a.activityKey place input.2 true, -a.amount)
    addressUnspentIndex := address.toList.map fun a => (a.unspentKey input.1.prevout, .null)
    spentIndex := [(input.1.prevout, spentValue env place prevout input.2)] }

def recordOutput (env : Env) (place : TxPlace) (output : CTxOut × Nat) : IndexChanges :=
  let address := indexedAddress env output.1
  { addressIndex := address.toList.map fun a => (a.activityKey place output.2 false, a.amount)
    addressUnspentIndex := address.toList.map fun a =>
      (a.unspentKey ⟨place.txhash, output.2⟩,
        ⟨a.amount, output.1.scriptPubKey, place.nHeight⟩) }

/-- `view` has the outputs that are unspent before the transaction. -/
def recordTx (env : Env) (place : TxPlace) (view : COutPoint → CTxOut) (tx : CTransaction) :
    IndexChanges :=
  .concat (tx.spentInputs.zipIdx.map fun input =>
    recordInput env place (view input.1.prevout) input) ++
  .concat (tx.vout.zipIdx.map (recordOutput env place))

/-- What `UpdateCoins` leaves of the coins. -/
def Coins.afterTx (coins : Coins) (tx : CTransaction) (nHeight : Int) : Coins :=
  addOutputCoins (eraseInputs coins tx.spentInputs) tx nHeight

def recordTxs (env : Env) (nHeight : Int) : Coins → List (CTransaction × Nat) → IndexChanges
  | _, [] => {}
  | coins, (tx, i) :: txs =>
      recordTx env ⟨nHeight, i, tx.hash⟩ coins.accessOut tx ++
        recordTxs env nHeight (coins.afterTx tx nHeight) txs

/-- `ConnectBlock` with the indexes it writes. -/
def connectBlockIndexes (env : ChainEnv) (block : CBlock) (nHeight : Int) (coins : Coins)
    (db : CBlockTreeDB) : StateCheck (CBlockUndo × Coins × CBlockTreeDB) := do
  let (undo, coins') ← connectBlock env block nHeight coins
  let changes := recordTxs env.toEnv nHeight coins block.vtx.zipIdx
  return (undo, coins', ((db.writeAddressIndex changes.addressIndex).updateAddressUnspentIndex
    changes.addressUnspentIndex).updateSpentIndex changes.spentIndex)

def undoOutput (env : Env) (place : TxPlace) (output : CTxOut × Nat) : IndexChanges :=
  let address := indexedAddress env output.1
  { addressIndex := address.toList.map fun a => (a.activityKey place output.2 false, a.amount)
    addressUnspentIndex := address.toList.map fun a =>
      (a.unspentKey ⟨place.txhash, output.2⟩, .null) }

/-- The branch for public keys differs from the others: it takes back a receipt at the position of
the input, and restores nothing. -/
def undoInput (env : Env) (place : TxPlace) (prevout : CTxOut) (undoHeight : Int)
    (input : CTxIn × Nat) : IndexChanges :=
  let address := indexedAddress env prevout
  { addressIndex := address.toList.map fun a =>
      if a.payToPublicKey then (a.activityKey place input.2 false, a.amount)
      else (a.activityKey place input.2 true, -a.amount)
    addressUnspentIndex := address.toList.map fun a =>
      if a.payToPublicKey then (a.unspentKey ⟨place.txhash, input.2⟩, .null)
      else (a.unspentKey input.1.prevout, ⟨a.amount, prevout.scriptPubKey, undoHeight⟩)
    spentIndex := [(input.1.prevout, .null)] }

/-- The coin at an input is back, its height completed by `ApplyTxInUndo`. -/
def Coins.restoreInput (coins : Coins) (out : COutPoint) (undo : Coin) : Coins × Coin :=
  let undo := (coins.completeUndo out.hash undo).getD undo
  (coins.addCoin out undo, undo)

def undoInputs (env : Env) (place : TxPlace) :
    Coins → List ((CTxIn × Coin) × Nat) → IndexChanges × Coins
  | coins, [] => ({}, coins)
  | coins, ((txin, undo), j) :: inputs =>
      let (coins, undo) := coins.restoreInput txin.prevout undo
      let (changes, coins') := undoInputs env place coins inputs
      (undoInput env place (coins.accessOut txin.prevout) undo.nHeight (txin, j) ++ changes, coins')

/-- The coins without the outputs of a transaction. -/
def Coins.withoutOutputs (coins : Coins) (tx : CTransaction) : Coins :=
  tx.outputs.foldl (fun coins output =>
    if isUnspendable output.2.scriptPubKey then coins else coins.erase output.1) coins

def undoTxs (env : Env) (nHeight : Int) :
    Coins → List ((CTransaction × Option (List Coin)) × Nat) → IndexChanges
  | _, [] => {}
  | coins, ((tx, vprevout), i) :: txs =>
      let place := ⟨nHeight, i, tx.hash⟩
      let (changes, coins) := undoInputs env place (coins.withoutOutputs tx)
        (tx.vin.zip (vprevout.getD [])).zipIdx.reverse
      .concat (tx.vout.zipIdx.reverse.map (undoOutput env place)) ++ changes ++
        undoTxs env nHeight coins txs

/-- `DisconnectBlock` with the indexes it writes. What it collects for the spent index is not
written. -/
def disconnectBlockIndexes (env : Env) (block : CBlock) (nHeight : Int) (vtxundo : List (List Coin))
    (coins : Coins) (db : CBlockTreeDB) : Contextual (DisconnectScan × CBlockTreeDB) := do
  let scan ← disconnectBlock env block nHeight vtxundo coins
  let changes := undoTxs env nHeight coins
    (block.vtx.zip (none :: vtxundo.map some)).zipIdx.reverse
  return (scan, (db.eraseAddressIndex changes.addressIndex).updateAddressUnspentIndex
    changes.addressUnspentIndex)

theorem connectTx_afterTx {env : ChainEnv} {blockHash : UInt256} {nHeight : Int}
    {scan scan' : ConnectScan} {tx : CTransaction}
    (h : connectTx env blockHash nHeight scan tx s = .ok scan' t) :
    ∃ spent, Spends scan.coins tx.spentInputs spent ∧
      scan'.coins = scan.coins.afterTx tx nHeight ∧
      scan'.vtxundo = if tx.isCoinBase then scan.vtxundo else scan.vtxundo ++ [spent] := by
  obtain ⟨nFees, undo, coins, u, -, hupdate, rfl⟩ := connectTx_ok h
  obtain ⟨hspends, hcoins⟩ := updateCoins_ok hupdate
  exact ⟨undo.vprevout, hspends, hcoins, rfl⟩

theorem takeOutput_coins (env : Env) (tx : CTransaction) (nHeight : Int) (s : AssetState)
    (scan : DisconnectScan) (output : COutPoint × CTxOut) :
    (takeOutput env tx nHeight s scan output).coins =
      if isUnspendable output.2.scriptPubKey then scan.coins else scan.coins.erase output.1 := by
  unfold takeOutput
  split
  · rfl
  · cases hcoin : scan.coins.accessCoin output.1 with
    | none =>
      rw [Coins.accessCoin, map_eq_none_iff] at hcoin
      exact (KeyedSet.erase_of_not_contains (by simp [KeyedSet.contains, hcoin])).symm
    | some coin => rfl

theorem takeOutputs_coins (env : Env) (tx : CTransaction) (nHeight : Int) (s : AssetState)
    (scan : DisconnectScan) :
    (tx.outputs.foldl (takeOutput env tx nHeight s) scan).coins = scan.coins.withoutOutputs tx := by
  unfold Coins.withoutOutputs
  induction tx.outputs generalizing scan with
  | nil => rfl
  | cons output outputs ih => rw [foldl_cons, ih, takeOutput_coins, foldl_cons]

theorem applyTxInUndo_coins {input : CTxIn × Coin}
    (h : applyTxInUndo env scan input s = .ok scan' t) :
    scan'.coins = (scan.coins.restoreInput input.1.prevout input.2).1 := by
  simp only [applyTxInUndo, run_bind_eq_ok, run_lift_eq_ok, require_eq_ok, run_pure_eq_ok] at h
  obtain ⟨undo, _, ⟨hundo, rfl⟩, clean, _, -, rfl, -⟩ := h
  rw [Coins.restoreInput, hundo]
  rfl

end HnbCore
