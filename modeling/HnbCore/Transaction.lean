import HnbCore.Params
import HnbCore.Verifier

/-!
# Transactions and the asset data in their outputs
-/

namespace HnbCore

open Checks

abbrev UInt256 := BitVec 256

structure COutPoint where
  hash : UInt256
  n : Nat
  deriving DecidableEq, Repr

def COutPoint.isNull (out : COutPoint) : Bool := out.hash = 0 && out.n = 2 ^ 32 - 1

structure CTxIn where
  prevout : COutPoint
  scriptSig : CScript
  deriving DecidableEq, Repr

structure CTxOut where
  nValue : CAmount
  scriptPubKey : CScript
  deriving DecidableEq, Repr

/-- A transaction with the hash its constructor computed. -/
structure CTransaction where
  vin : List CTxIn
  vout : List CTxOut
  hash : UInt256
  deriving DecidableEq, Repr

def maxMoney : CAmount := 21000000000 * coin

def moneyRange (nValue : CAmount) : Bool := 0 ≤ nValue && nValue ≤ maxMoney

def compactSizeLength (n : Nat) : Nat := (writeCompactSize n).length

namespace CTransaction

def isCoinBase (tx : CTransaction) : Bool :=
  match tx.vin with
  | [txin] => txin.prevout.isNull
  | _ => false

/-- The serialized size without witness data. -/
def getSerializeSize (tx : CTransaction) : Nat :=
  let script (s : CScript) := compactSizeLength s.length + s.length
  4 + compactSizeLength tx.vin.length + (tx.vin.map fun txin => 36 + script txin.scriptSig + 4).sum +
    compactSizeLength tx.vout.length + (tx.vout.map fun txout => 8 + script txout.scriptPubKey).sum + 4

/-- `GetValueOut`: asset outputs are skipped until enforced values are active. -/
def getValueOut (tx : CTransaction) (fAreEnforcedValues : Bool) : Except String CAmount :=
  tx.vout.foldlM (fun nValueOut txOut =>
    if !fAreEnforcedValues && txOut.scriptPubKey.isAssetScript.isSome then .ok nValueOut
    else do
      let nValueOut := nValueOut + txOut.nValue
      ensure (moneyRange txOut.nValue && moneyRange nValueOut) "GetValueOut: value out of range"
      return nValueOut) 0

end CTransaction

/-- The starting index of the asset data, for a script of the given kind. -/
def assetDataStart (nType : TxnOutType) (fIsOwner : Bool) (script : CScript) : Option Nat :=
  match script.isAssetScript with
  | some a => if a.nType = nType && a.fIsOwner = fIsOwner then some a.nStartingIndex else none
  | none => none

variable (script : CScript)

def isScriptNewAsset : Option Nat := assetDataStart .txNewAsset false script

def isScriptOwnerAsset : Option Nat := assetDataStart .txNewAsset true script

def isScriptReissueAsset : Option Nat :=
  assetDataStart .txReissueAsset false script

def isScriptTransferAsset : Option Nat :=
  assetDataStart .txTransferAsset false script

variable (env : Env)

/-- The record that starts at the index, with the address of the script. -/
def fromScript {α : Type} (start : Option Nat) (r : Reader α) (script : CScript) :
    Option (α × Bytes) :=
  match start with
  | none => none
  | some nStartingIndex =>
      (fromStream r (script.drop nStartingIndex)).map fun a => (a, env.addressOf script)

def assetFromScript (script : CScript) : Option (CNewAsset × Bytes) :=
  fromScript env (isScriptNewAsset script) CNewAsset.unserialize script

def ownerAssetFromScript (script : CScript) : Option (Bytes × Bytes) :=
  fromScript env (isScriptOwnerAsset script) readString script

def reissueAssetFromScript (script : CScript) : Option (CReissueAsset × Bytes) :=
  fromScript env (isScriptReissueAsset script) CReissueAsset.unserialize script

/-- Until the deployment for longer transfer scripts is active the data is taken from byte 31,
wherever the marker ended. -/
def transferAssetFromScript (script : CScript) : Option (CAssetTransfer × Bytes) :=
  fromScript env
    ((isScriptTransferAsset script).map fun nStartingIndex =>
      if env.deployments.areTransferScriptsSizeDeployed then nStartingIndex else 31)
    CAssetTransfer.unserialize script

/-- The type of the asset a script issues, for a name that is valid. -/
def issuedType (script : CScript) : Option AssetType :=
  match assetFromScript env script with
  | none => none
  | some (asset, _) => (isAssetNameValid asset.strName).toOption

def isScriptNewUniqueAsset (script : CScript) : Bool :=
  issuedType env script = some .unique

def isScriptNewMsgChannelAsset (script : CScript) : Bool :=
  issuedType env script = some .msgchannel

def isScriptNewQualifierAsset (script : CScript) : Bool :=
  issuedType env script = some .qualifier || issuedType env script = some .subQualifier

def isScriptNewRestrictedAsset (script : CScript) : Bool :=
  issuedType env script = some .restricted

def msgChannelAssetFromScript (script : CScript) : Option (CNewAsset × Bytes) :=
  if isScriptNewMsgChannelAsset env script then assetFromScript env script else none

def qualifierAssetFromScript (script : CScript) : Option (CNewAsset × Bytes) :=
  if isScriptNewQualifierAsset env script then assetFromScript env script else none

def restrictedAssetFromScript (script : CScript) : Option (CNewAsset × Bytes) :=
  if isScriptNewRestrictedAsset env script then assetFromScript env script else none

def assetNullDataFromScript (script : CScript) : Option (CNullAssetTxData × Bytes) :=
  fromScript env (if script.isNullAssetTxDataScript then some 23 else none)
    CNullAssetTxData.unserialize script

def globalAssetNullDataFromScript : Option CNullAssetTxData :=
  if script.isNullGlobalRestrictionAssetTxDataScript then
    fromStream CNullAssetTxData.unserialize (script.drop 4)
  else none

def assetNullVerifierDataFromScript : Option CNullAssetTxVerifierString :=
  if script.isNullAssetVerifierTxDataScript then
    fromStream CNullAssetTxVerifierString.unserialize (script.drop 3)
  else none

/-- `GetAssetAmountFromScript`: here transfers are always read from the starting index. -/
def getAssetAmountFromScript : Option CAmount :=
  match script.isAssetScript with
  | none => none
  | some a =>
      let data := script.drop a.nStartingIndex
      match a.nType, a.fIsOwner with
      | .txNewAsset, false => (fromStream CNewAsset.unserialize data).map (·.nAmount)
      | .txNewAsset, true => some ownerAssetAmount
      | .txTransferAsset, _ => (fromStream CAssetTransfer.unserialize data).map (·.nAmount)
      | .txReissueAsset, _ => (fromStream CReissueAsset.unserialize data).map (·.nAmount)
      | _, _ => none

def isUnspendable : Bool :=
  (script.length > 0 && script.byteAt 0 = opReturn) ||
    (script.length > 0 && script.byteAt 0 = opHnbAsset) ||
    script.length > maxScriptSize || getAssetAmountFromScript script = some 0

/-- The output pays the amount to the address. -/
def paysTo (txOut : CTxOut) (amount : CAmount) (address : Bytes) : Bool :=
  txOut.nValue = amount &&
    match env.extractDestination txOut.scriptPubKey with
    | none => false
    | some destination =>
        isValidDestination destination && env.encodeDestination destination = address

def checkIssueBurnTx (txOut : CTxOut) (type : AssetType) (numberIssued : Nat) : Bool :=
  if type = .reissue || type = .vote || type = .owner || type = .invalid then false
  else paysTo env txOut (env.getBurnAmount type * numberIssued) (env.getBurnAddress type)

def checkReissueBurnTx (txOut : CTxOut) : Bool :=
  paysTo env txOut env.params.nReissueAssetBurnAmount env.params.strReissueAssetBurnAddress

end HnbCore
