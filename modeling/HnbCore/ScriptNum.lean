import HnbCore.AssetTypes
import HnbCore.Destination
import HnbCore.Lib.Checks

/-!
# Script numbers and the encodings of signatures and keys

`CScriptNum`, the flags and errors of script verification, and the checks on the form of what a
signature operation is given.
-/

namespace HnbCore

open Checks

inductive ScriptError
  | unknownError
  | evalFalse
  | opReturn
  | scriptSize
  | pushSize
  | opCount
  | stackSize
  | sigCount
  | pubkeyCount
  | verify
  | equalverify
  | checkmultisigverify
  | checksigverify
  | numequalverify
  | badOpcode
  | disabledOpcode
  | invalidStackOperation
  | invalidAltstackOperation
  | unbalancedConditional
  | negativeLocktime
  | unsatisfiedLocktime
  | sigHashtype
  | sigDer
  | minimaldata
  | sigPushonly
  | sigHighS
  | sigNulldummy
  | pubkeytype
  | cleanstack
  | minimalif
  | sigNullfail
  | discourageUpgradableNops
  | discourageUpgradableWitnessProgram
  | witnessProgramWrongLength
  | witnessProgramWitnessEmpty
  | witnessProgramMismatch
  | witnessMalleated
  | witnessMalleatedP2sh
  | witnessUnexpected
  | witnessPubkeytype
  deriving DecidableEq, Repr

/-- The bits `SCRIPT_VERIFY_...`. -/
structure ScriptFlags where
  p2sh : Bool := false
  strictenc : Bool := false
  dersig : Bool := false
  lowS : Bool := false
  nulldummy : Bool := false
  sigpushonly : Bool := false
  minimaldata : Bool := false
  discourageUpgradableNops : Bool := false
  cleanstack : Bool := false
  checklocktimeverify : Bool := false
  checksequenceverify : Bool := false
  witness : Bool := false
  discourageUpgradableWitnessProgram : Bool := false
  minimalif : Bool := false
  nullfail : Bool := false
  witnessPubkeytype : Bool := false
  deriving DecidableEq, Repr

inductive SigVersion
  | base
  | witnessV0
  deriving DecidableEq, Repr

def castToBool : Bytes → Bool
  | [] => false
  | [b] => b ≠ 0 && b ≠ 0x80
  | b :: bs => b ≠ 0 || castToBool bs

/-- `CScriptNum::set_vch`. -/
def setVch (vch : Bytes) : Int :=
  if vch.getLastD 0 &&& 0x80 ≠ 0 then
    -((leNat vch : Int) - 0x80 * 256 ^ (vch.length - 1))
  else leNat vch

/-- `CScriptNum(vch, fRequireMinimal, nMaxNumSize)`; the exceptions end in the same error. -/
def scriptNum (vch : Bytes) (fRequireMinimal : Bool) (nMaxNumSize : Nat) :
    Except ScriptError Int := do
  ensure (vch.length ≤ nMaxNumSize) .unknownError
  ensure (!(fRequireMinimal && !vch.isEmpty && vch.getLastD 0 &&& 0x7f = 0 &&
    (vch.length ≤ 1 || vch.getD (vch.length - 2) 0 &&& 0x80 = 0))) .unknownError
  return setVch vch

def nDefaultMaxNumSize : Nat := 4

/-- `CScriptNum::serialize`. -/
def serializeNum (value : Int) : Bytes :=
  if value = 0 then []
  else
    let result := (digitsBE 256 8 value.natAbs []).reverse.map UInt8.ofNat
    if result.getLastD 0 &&& 0x80 ≠ 0 then result ++ [if value < 0 then 0x80 else 0]
    else if value < 0 then result.dropLast ++ [result.getLastD 0 ||| 0x80]
    else result

def vchFalse : Bytes := []
def vchTrue : Bytes := [1]

def vchBool (b : Bool) : Bytes := if b then vchTrue else vchFalse

/-- A `CScriptNum` assigned from a comparison. -/
def boolNum (b : Bool) : Int := if b then 1 else 0

def isCompressedOrUncompressedPubKey (vchPubKey : Bytes) : Bool :=
  if vchPubKey.length < 33 then false
  else if vchPubKey.getD 0 0 = 4 then vchPubKey.length = 65
  else if vchPubKey.getD 0 0 = 2 || vchPubKey.getD 0 0 = 3 then vchPubKey.length = 33
  else false

def isCompressedPubKey (vchPubKey : Bytes) : Bool :=
  vchPubKey.length = 33 && (vchPubKey.getD 0 0 = 2 || vchPubKey.getD 0 0 = 3)

def isValidSignatureEncoding (sig : Bytes) : Bool :=
  let lenR := (sig.getD 3 0).toNat
  let lenS := (sig.getD (5 + lenR) 0).toNat
  9 ≤ sig.length && sig.length ≤ 73 && sig.getD 0 0 = 0x30 &&
    (sig.getD 1 0).toNat = sig.length - 3 && 5 + lenR < sig.length &&
    lenR + lenS + 7 = sig.length && sig.getD 2 0 = 2 && lenR ≠ 0 && sig.getD 4 0 &&& 0x80 = 0 &&
    !(lenR > 1 && sig.getD 4 0 = 0 && sig.getD 5 0 &&& 0x80 = 0) && sig.getD (lenR + 4) 0 = 2 &&
    lenS ≠ 0 && sig.getD (lenR + 6) 0 &&& 0x80 = 0 &&
    !(lenS > 1 && sig.getD (lenR + 6) 0 = 0 && sig.getD (lenR + 7) 0 &&& 0x80 = 0)

def isDefinedHashtypeSignature (vchSig : Bytes) : Bool :=
  let nHashType := vchSig.getLastD 0 &&& 0x7f
  !vchSig.isEmpty && 1 ≤ nHashType && nHashType ≤ 3

/-- The functions of the cryptographic library that scripts reach. `checkLowS` is
`CPubKey::CheckLowS`. -/
structure ScriptCrypto extends Hashes where
  ripemd160 : Bytes → Bytes
  sha1 : Bytes → Bytes
  sha256 : Bytes → Bytes
  checkLowS : Bytes → Bool

/-- `BaseSignatureChecker`: what a script asks about the transaction that spends it. -/
structure SignatureChecker where
  checkSig : Bytes → Bytes → CScript → SigVersion → Bool
  checkLockTime : Int → Bool
  checkSequence : Int → Bool

/-- `IsLowDERSignature`; the last byte is the hash type. -/
def isLowDERSignature (crypto : ScriptCrypto) (vchSig : Bytes) : Except ScriptError Unit := do
  ensure (isValidSignatureEncoding vchSig) .sigDer
  ensure (crypto.checkLowS vchSig.dropLast) .sigHighS

def checkSignatureEncoding (crypto : ScriptCrypto) (flags : ScriptFlags) (vchSig : Bytes) :
    Except ScriptError Unit :=
  whenever (!vchSig.isEmpty) do
    whenever (flags.dersig || flags.lowS || flags.strictenc) do
      ensure (isValidSignatureEncoding vchSig) .sigDer
    whenever flags.lowS (isLowDERSignature crypto vchSig)
    whenever flags.strictenc (ensure (isDefinedHashtypeSignature vchSig) .sigHashtype)

def checkPubKeyEncoding (flags : ScriptFlags) (sigversion : SigVersion) (vchPubKey : Bytes) :
    Except ScriptError Unit := do
  whenever flags.strictenc (ensure (isCompressedOrUncompressedPubKey vchPubKey) .pubkeytype)
  whenever (flags.witnessPubkeytype && sigversion = .witnessV0)
    (ensure (isCompressedPubKey vchPubKey) .witnessPubkeytype)

def checkMinimalPush (data : Bytes) (opcode : UInt8) : Bool :=
  if data.isEmpty then opcode = op0
  else if data.length = 1 && 1 ≤ data.getD 0 0 && data.getD 0 0 ≤ 16 then
    opcode = op1 + (data.getD 0 0 - 1)
  else if data.length = 1 && data.getD 0 0 = 0x81 then opcode = 0x4f
  else if data.length ≤ 75 then opcode.toNat = data.length
  else if data.length ≤ 255 then opcode = opPushdata1
  else if data.length ≤ 65535 then opcode = opPushdata2
  else true

end HnbCore
