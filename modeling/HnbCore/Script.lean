import HnbCore.Bytes

/-!
# Scripts and the asset markers in them

`CScript`: reading operations, and the recognisers that tell asset scripts from others by the
bytes at fixed offsets.
-/

namespace HnbCore

abbrev CScript := Bytes

def op0 : UInt8 := 0x00
def opPushdata1 : UInt8 := 0x4c
def opPushdata2 : UInt8 := 0x4d
def opPushdata4 : UInt8 := 0x4e
def opReserved : UInt8 := 0x50
def op1 : UInt8 := 0x51
def op16 : UInt8 := 0x60
def opReturn : UInt8 := 0x6a
def opDup : UInt8 := 0x76
def opEqual : UInt8 := 0x87
def opEqualverify : UInt8 := 0x88
def opHash160 : UInt8 := 0xa9
def opChecksig : UInt8 := 0xac
def opCheckmultisig : UInt8 := 0xae
def opHnbAsset : UInt8 := 0xc0

def hnbR : UInt8 := 114
def hnbV : UInt8 := 118
def hnbN : UInt8 := 110
def hnbQ : UInt8 := 113
def hnbT : UInt8 := 116
def hnbO : UInt8 := 111

def maxScriptSize : Nat := 10000

/-- The script kinds of `txnouttype`. -/
inductive TxnOutType
  | txNonstandard
  | txPubkey
  | txPubkeyhash
  | txScripthash
  | txMultisig
  | txNullData
  | txWitnessV0Scripthash
  | txWitnessV0Keyhash
  | txNewAsset
  | txReissueAsset
  | txTransferAsset
  | txRestrictedAssetData
  deriving DecidableEq, Repr

namespace CScript

variable (s : CScript)

def byteAt (i : Nat) : UInt8 := s.getD i 0

/-- `GetOp2`: the next operation, its data and the script after it. An asset marker takes the
rest of the script as its data. -/
def getOp : Option (UInt8 × Bytes × CScript) :=
  match s with
  | [] => none
  | opcode :: pc =>
      let push (width : Nat) : Option (UInt8 × Bytes × CScript) :=
        if pc.length < width then none
        else
          let nSize := leNat (pc.take width)
          let pc := pc.drop width
          if pc.length < nSize then none else some (opcode, pc.take nSize, pc.drop nSize)
      if opcode < opPushdata1 then
        if pc.length < opcode.toNat then none
        else some (opcode, pc.take opcode.toNat, pc.drop opcode.toNat)
      else if opcode = opPushdata1 then push 1
      else if opcode = opPushdata2 then push 2
      else if opcode = opPushdata4 then push 4
      else if opcode = opHnbAsset then some (opcode, pc, [])
      else some (opcode, [], pc)

/-- The operations read one after the other until the end or a failure, and whether the end was
reached. -/
def getOps : Nat → CScript → List (UInt8 × Bytes) × Bool
  | 0, s => ([], s.isEmpty)
  | fuel + 1, s =>
      if s.isEmpty then ([], true)
      else
        match getOp s with
        | none => ([], false)
        | some (opcode, data, pc) =>
            let (ops, done) := getOps fuel pc
            ((opcode, data) :: ops, done)

/-- Every operation takes at least one byte, so the script's length bounds their number. -/
def ops : List (UInt8 × Bytes) × Bool := getOps s.length s

def find (op : UInt8) : Nat := (ops s).1.countP (fun o => o.1 = op)

def isPushOnly : Bool := (ops s).2 && (ops s).1.all (fun o => o.1 ≤ op16)

def isPayToPublicKeyHash : Bool :=
  s.length = 25 && s.byteAt 0 = opDup && s.byteAt 1 = opHash160 && s.byteAt 2 = 0x14 &&
    s.byteAt 23 = opEqualverify && s.byteAt 24 = opChecksig

def isPayToScriptHash : Bool :=
  s.length = 23 && s.byteAt 0 = opHash160 && s.byteAt 1 = 0x14 && s.byteAt 22 = opEqual

/-- What the out-parameters of `IsAssetScript` carry. -/
structure AssetScript where
  nType : TxnOutType
  fIsOwner : Bool
  nStartingIndex : Nat
  deriving DecidableEq, Repr

/-- Where the byte after the marker "rvn" stands: one or two bytes of push size may come before. -/
def assetMarkerEnd : Option Nat :=
  if s.byteAt 27 = hnbR then
    if s.byteAt 28 = hnbV && s.byteAt 29 = hnbN then some 30 else none
  else if s.byteAt 28 = hnbR && s.byteAt 29 = hnbV && s.byteAt 30 = hnbN then some 31
  else none

/-- `IsAssetScript`: bytes 25 to 31 decide; nothing before byte 25 is read. -/
def isAssetScript : Option AssetScript :=
  if s.length > 31 && s.byteAt 25 = opHnbAsset then
    match assetMarkerEnd s with
    | none => none
    | some index =>
        if s.byteAt index = hnbT then some ⟨.txTransferAsset, false, index + 1⟩
        else if s.byteAt index = hnbQ && s.length > 39 then some ⟨.txNewAsset, false, index + 1⟩
        else if s.byteAt index = hnbO then some ⟨.txNewAsset, true, index + 1⟩
        else if s.byteAt index = hnbR then some ⟨.txReissueAsset, false, index + 1⟩
        else none
  else none

def isNewAsset : Bool :=
  match isAssetScript s with
  | some a => !a.fIsOwner && a.nType = .txNewAsset
  | none => false

def isOwnerAsset : Bool :=
  match isAssetScript s with
  | some a => a.fIsOwner && a.nType = .txNewAsset
  | none => false

def isReissueAsset : Bool :=
  match isAssetScript s with
  | some a => a.nType = .txReissueAsset
  | none => false

def isTransferAsset : Bool :=
  match isAssetScript s with
  | some a => a.nType = .txTransferAsset
  | none => false

def isNullAssetTxDataScript : Bool :=
  s.length > 23 && s.byteAt 0 = opHnbAsset && s.byteAt 1 = 0x14

def isNullGlobalRestrictionAssetTxDataScript : Bool :=
  s.length > 6 && s.byteAt 0 = opHnbAsset && s.byteAt 1 = opReserved && s.byteAt 2 = opReserved

def isNullAssetVerifierTxDataScript : Bool :=
  s.length > 3 && s.byteAt 0 = opHnbAsset && s.byteAt 1 = opReserved && s.byteAt 2 ≠ opReserved

def isNullAsset : Bool :=
  isNullAssetTxDataScript s || isNullGlobalRestrictionAssetTxDataScript s ||
    isNullAssetVerifierTxDataScript s

/-- The version and program of a witness script. -/
def isWitnessProgram : Option (Nat × Bytes) :=
  if s.length < 4 || s.length > 42 then none
  else if s.byteAt 0 ≠ op0 && (s.byteAt 0 < op1 || s.byteAt 0 > op16) then none
  else if (s.byteAt 1).toNat + 2 = s.length then
    some (if s.byteAt 0 = op0 then 0 else (s.byteAt 0).toNat - 0x50, s.drop 2)
  else none

end CScript

end HnbCore
