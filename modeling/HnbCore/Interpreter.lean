import HnbCore.ScriptNum

/-!
# The script interpreter

`EvalScript` and `VerifyScript`. Stacks are lists with the top first; a byte is decoded to an
instruction and the instruction is executed.
-/

namespace HnbCore

open Checks

def maxScriptElementSize : Nat := 520
def maxOpsPerScript : Nat := 201
def maxPubkeysPerMultisig : Int := 20
def maxStackSize : Nat := 1000

def opIf : UInt8 := 0x63
def opEndif : UInt8 := 0x68

inductive UnaryOp
  | add1
  | sub1
  | negate
  | abs
  | not
  | notEqual0
  deriving DecidableEq, Repr

inductive BinaryOp
  | add
  | sub
  | booland
  | boolor
  | numequal
  | numequalverify
  | numnotequal
  | lessthan
  | greaterthan
  | lessthanorequal
  | greaterthanorequal
  | min
  | max
  deriving DecidableEq, Repr

inductive HashOp
  | ripemd160
  | sha1
  | sha256
  | hash160
  | hash256
  deriving DecidableEq, Repr

/-- The cases of the switch over the opcode; those that only differ in a final check of their
result carry a flag for it. -/
inductive Instr
  | smallInt (n : Int)
  | nop
  | checklocktimeverify
  | checksequenceverify
  | upgradableNop
  | if (isNot : Bool)
  | else
  | endif
  | verify
  | return
  | toaltstack
  | fromaltstack
  | drop2
  | dup2
  | dup3
  | over2
  | rot2
  | swap2
  | ifdup
  | depth
  | drop
  | dup
  | nip
  | over
  | pick (roll : Bool)
  | rot
  | swap
  | tuck
  | size
  | equal (verify : Bool)
  | unary (op : UnaryOp)
  | binary (op : BinaryOp)
  | within
  | hash (op : HashOp)
  | codeseparator
  | checksig (verify : Bool)
  | checkmultisig (verify : Bool)
  | hnbAsset
  deriving DecidableEq, Repr

/-- The instruction of an opcode above the pushes; the others are bad opcodes. -/
def instrOf (opcode : UInt8) : Option Instr :=
  match opcode.toNat with
  | 0x4f => some (.smallInt (-1))
  | 0x61 => some .nop
  | 0x63 => some (.if false)
  | 0x64 => some (.if true)
  | 0x67 => some .else
  | 0x68 => some .endif
  | 0x69 => some .verify
  | 0x6a => some .return
  | 0x6b => some .toaltstack
  | 0x6c => some .fromaltstack
  | 0x6d => some .drop2
  | 0x6e => some .dup2
  | 0x6f => some .dup3
  | 0x70 => some .over2
  | 0x71 => some .rot2
  | 0x72 => some .swap2
  | 0x73 => some .ifdup
  | 0x74 => some .depth
  | 0x75 => some .drop
  | 0x76 => some .dup
  | 0x77 => some .nip
  | 0x78 => some .over
  | 0x79 => some (.pick false)
  | 0x7a => some (.pick true)
  | 0x7b => some .rot
  | 0x7c => some .swap
  | 0x7d => some .tuck
  | 0x82 => some .size
  | 0x87 => some (.equal false)
  | 0x88 => some (.equal true)
  | 0x8b => some (.unary .add1)
  | 0x8c => some (.unary .sub1)
  | 0x8f => some (.unary .negate)
  | 0x90 => some (.unary .abs)
  | 0x91 => some (.unary .not)
  | 0x92 => some (.unary .notEqual0)
  | 0x93 => some (.binary .add)
  | 0x94 => some (.binary .sub)
  | 0x9a => some (.binary .booland)
  | 0x9b => some (.binary .boolor)
  | 0x9c => some (.binary .numequal)
  | 0x9d => some (.binary .numequalverify)
  | 0x9e => some (.binary .numnotequal)
  | 0x9f => some (.binary .lessthan)
  | 0xa0 => some (.binary .greaterthan)
  | 0xa1 => some (.binary .lessthanorequal)
  | 0xa2 => some (.binary .greaterthanorequal)
  | 0xa3 => some (.binary .min)
  | 0xa4 => some (.binary .max)
  | 0xa5 => some .within
  | 0xa6 => some (.hash .ripemd160)
  | 0xa7 => some (.hash .sha1)
  | 0xa8 => some (.hash .sha256)
  | 0xa9 => some (.hash .hash160)
  | 0xaa => some (.hash .hash256)
  | 0xab => some .codeseparator
  | 0xac => some (.checksig false)
  | 0xad => some (.checksig true)
  | 0xae => some (.checkmultisig false)
  | 0xaf => some (.checkmultisig true)
  | 0xb1 => some .checklocktimeverify
  | 0xb2 => some .checksequenceverify
  | 0xc0 => some .hnbAsset
  | n =>
      if 0x51 ≤ n ∧ n ≤ 0x60 then some (.smallInt (n - 0x50))
      else if n = 0xb0 ∨ 0xb3 ≤ n ∧ n ≤ 0xb9 then some .upgradableNop
      else none

/-- The opcodes that fail even where they are not executed. -/
def isDisabledOpcode (opcode : UInt8) : Bool :=
  [0x7e, 0x7f, 0x80, 0x81, 0x83, 0x84, 0x85, 0x86, 0x8d, 0x8e, 0x95, 0x96, 0x97, 0x98,
    0x99].contains opcode.toNat

/-- What a script is run with. -/
structure ScriptContext where
  crypto : ScriptCrypto
  flags : ScriptFlags
  checker : SignatureChecker
  sigversion : SigVersion := .base

/-- The variables of `EvalScript`; `codehash` is the script from the last code separator on. -/
structure Machine where
  stack : List Bytes
  altstack : List Bytes := []
  vfExec : List Bool := []
  nOpCount : Nat := 0
  codehash : CScript
  deriving DecidableEq, Repr

abbrev ScriptM := Except ScriptError

namespace Machine

def push (m : Machine) (vch : Bytes) : Machine := { m with stack := vch :: m.stack }

def fExec (m : Machine) : Bool := m.vfExec.all id

/-- Pushes do not count towards the limit on operations. -/
def countOp (m : Machine) (opcode : UInt8) : Machine :=
  if opcode > op16 then { m with nOpCount := m.nOpCount + 1 } else m

end Machine

variable (ctx : ScriptContext)

def numOf (vch : Bytes) : ScriptM Int :=
  scriptNum vch ctx.flags.minimaldata nDefaultMaxNumSize

def UnaryOp.eval (op : UnaryOp) (bn : Int) : Int :=
  match op with
  | .add1 => bn + 1
  | .sub1 => bn - 1
  | .negate => -bn
  | .abs => if bn < 0 then -bn else bn
  | .not => boolNum (bn = 0)
  | .notEqual0 => boolNum (bn ≠ 0)

def BinaryOp.eval (op : BinaryOp) (bn1 bn2 : Int) : Int :=
  match op with
  | .add => bn1 + bn2
  | .sub => bn1 - bn2
  | .booland => boolNum (bn1 ≠ 0 && bn2 ≠ 0)
  | .boolor => boolNum (bn1 ≠ 0 || bn2 ≠ 0)
  | .numequal | .numequalverify => boolNum (bn1 = bn2)
  | .numnotequal => boolNum (bn1 ≠ bn2)
  | .lessthan => boolNum (bn1 < bn2)
  | .greaterthan => boolNum (bn1 > bn2)
  | .lessthanorequal => boolNum (bn1 ≤ bn2)
  | .greaterthanorequal => boolNum (bn1 ≥ bn2)
  | .min => if bn1 < bn2 then bn1 else bn2
  | .max => if bn1 > bn2 then bn1 else bn2

def HashOp.eval (op : HashOp) (crypto : ScriptCrypto) : Bytes → Bytes :=
  match op with
  | .ripemd160 => crypto.ripemd160
  | .sha1 => crypto.sha1
  | .sha256 => crypto.sha256
  | .hash160 => crypto.hash160
  | .hash256 => crypto.hash

/-- The loop of `FindAndDelete` from `pc` on. -/
def deleteFrom : Nat → CScript → CScript → CScript
  | 0, pc, _ => pc
  | fuel + 1, pc, b =>
      if pc.take b.length = b then deleteFrom fuel (pc.drop b.length) b
      else
        match CScript.getOp pc with
        | none => pc
        | some (_, _, pc') => pc.take (pc.length - pc'.length) ++ deleteFrom fuel pc' b

def findAndDelete (script b : CScript) : CScript :=
  if b.isEmpty then script else deleteFrom script.length script b

/-- The script a signature commits to. Outside of witness scripts it is without the pushes of
the signatures. -/
def scriptCodeFor (m : Machine) (sigs : List Bytes) : CScript :=
  match ctx.sigversion with
  | .base => sigs.foldl (fun script vchSig => findAndDelete script (pushData vchSig)) m.codehash
  | .witnessV0 => m.codehash

/-- The result of an operation, which its `VERIFY` form takes off again. -/
def pushResult (m : Machine) (result verify : Bool) (e : ScriptError) : ScriptM Machine :=
  if verify then
    if result then .ok m else .error e
  else .ok (m.push (vchBool result))

def execCheckSig (verify : Bool) (m : Machine) : ScriptM Machine :=
  match m.stack with
  | vchPubKey :: vchSig :: stack => do
      let scriptCode := scriptCodeFor ctx m [vchSig]
      checkSignatureEncoding ctx.crypto ctx.flags vchSig
      checkPubKeyEncoding ctx.flags ctx.sigversion vchPubKey
      let fSuccess := ctx.checker.checkSig vchSig vchPubKey scriptCode ctx.sigversion
      ensure (!(!fSuccess && ctx.flags.nullfail && !vchSig.isEmpty)) .sigNullfail
      pushResult { m with stack := stack } fSuccess verify .checksigverify
  | _ => .error .invalidStackOperation

/-- The loop that pairs signatures with keys, in their common order. -/
def matchSigs (ctx : ScriptContext) (scriptCode : CScript) :
    List Bytes → List Bytes → ScriptM Bool
  | [], _ => .ok true
  | _ :: _, [] => .ok false
  | vchSig :: sigs, vchPubKey :: keys => do
      checkSignatureEncoding ctx.crypto ctx.flags vchSig
      checkPubKeyEncoding ctx.flags ctx.sigversion vchPubKey
      let sigs := if ctx.checker.checkSig vchSig vchPubKey scriptCode ctx.sigversion then sigs
        else vchSig :: sigs
      if sigs.length > keys.length then .ok false else matchSigs ctx scriptCode sigs keys

def execCheckMultisig (verify : Bool) (m : Machine) : ScriptM Machine := do
  ensure (1 ≤ m.stack.length) .invalidStackOperation
  let nKeysCount ← numOf ctx (m.stack.getD 0 [])
  ensure (0 ≤ nKeysCount && nKeysCount ≤ maxPubkeysPerMultisig) .pubkeyCount
  let nKeys := nKeysCount.toNat
  let m := { m with nOpCount := m.nOpCount + nKeys }
  ensure (m.nOpCount ≤ maxOpsPerScript) .opCount
  ensure (nKeys + 2 ≤ m.stack.length) .invalidStackOperation
  let nSigsCount ← numOf ctx (m.stack.getD (nKeys + 1) [])
  ensure (0 ≤ nSigsCount && nSigsCount ≤ nKeysCount) .sigCount
  let nSigs := nSigsCount.toNat
  ensure (nKeys + nSigs + 3 ≤ m.stack.length) .invalidStackOperation
  let keys := (m.stack.drop 1).take nKeys
  let sigs := (m.stack.drop (nKeys + 2)).take nSigs
  let fSuccess ← matchSigs ctx (scriptCodeFor ctx m sigs) sigs keys
  ensure (!(!fSuccess && ctx.flags.nullfail && sigs.any fun vchSig => !vchSig.isEmpty)) .sigNullfail
  -- one argument more than the operation needs is taken off the stack
  let dummy := m.stack.getD (nKeys + nSigs + 2) []
  ensure (!(ctx.flags.nulldummy && !dummy.isEmpty)) .sigNulldummy
  pushResult { m with stack := m.stack.drop (nKeys + nSigs + 3) } fSuccess verify
    .checkmultisigverify

/-- A lock time operation: without its flag it is a reserved no-op. -/
def execLockTime (enabled : Bool) (check : Int → Bool) (m : Machine) : ScriptM Machine :=
  if !enabled then do
    ensure (!ctx.flags.discourageUpgradableNops) .discourageUpgradableNops
    return m
  else
    match m.stack with
    | [] => .error .invalidStackOperation
    | vch :: _ => do
        let n ← scriptNum vch ctx.flags.minimaldata 5
        ensure (0 ≤ n) .negativeLocktime
        ensure (check n) .unsatisfiedLocktime
        return m

/-- With the disable bit set `CHECKSEQUENCEVERIFY` asks nothing. -/
def sequenceSatisfied (nSequence : Int) : Bool :=
  nSequence / 2 ^ 31 % 2 ≠ 0 || ctx.checker.checkSequence nSequence

/-- The condition of `OP_IF` and `OP_NOTIF`; it is read only where the script is executed. -/
def execIf (isNot : Bool) (m : Machine) : ScriptM Machine :=
  if m.fExec then
    match m.stack with
    | [] => .error .unbalancedConditional
    | vch :: stack => do
        whenever (ctx.sigversion = .witnessV0 && ctx.flags.minimalif)
          (ensure (vch = [] || vch = [1]) .minimalif)
        return { m with stack := stack, vfExec := (castToBool vch != isNot) :: m.vfExec }
  else .ok { m with vfExec := false :: m.vfExec }

def execPick (roll : Bool) (m : Machine) : ScriptM Machine :=
  match m.stack with
  | top :: second :: rest => do
      let stack := second :: rest
      let n ← numOf ctx top
      ensure (0 ≤ n && n < stack.length) .invalidStackOperation
      let vch := stack.getD n.toNat []
      return { m with stack := vch :: if roll then stack.eraseIdx n.toNat else stack }
  | _ => .error .invalidStackOperation

def execBinary (op : BinaryOp) (m : Machine) : ScriptM Machine :=
  match m.stack with
  | x2 :: x1 :: stack => do
      let bn1 ← numOf ctx x1
      let bn2 ← numOf ctx x2
      let vch := serializeNum (op.eval bn1 bn2)
      if op = .numequalverify then do
        ensure (castToBool vch) .numequalverify
        return { m with stack := stack }
      else return { m with stack := vch :: stack }
  | _ => .error .invalidStackOperation

/-- An operation that only rearranges the stack. -/
def execStack (m : Machine) (f : List Bytes → Option (List Bytes)) : ScriptM Machine :=
  match f m.stack with
  | some stack => .ok { m with stack := stack }
  | none => .error .invalidStackOperation

/-- The switch of `EvalScript`; `pc` is the script behind the instruction. -/
def execInstr (pc : CScript) (m : Machine) : Instr → ScriptM Machine
  | .smallInt n => .ok (m.push (serializeNum n))
  | .nop | .hnbAsset => .ok m
  | .checklocktimeverify =>
      execLockTime ctx ctx.flags.checklocktimeverify ctx.checker.checkLockTime m
  | .checksequenceverify =>
      execLockTime ctx ctx.flags.checksequenceverify (sequenceSatisfied ctx) m
  | .upgradableNop =>
      if ctx.flags.discourageUpgradableNops then .error .discourageUpgradableNops else .ok m
  | .if isNot => execIf ctx isNot m
  | .else =>
      match m.vfExec with
      | [] => .error .unbalancedConditional
      | b :: vfExec => .ok { m with vfExec := (!b) :: vfExec }
  | .endif =>
      match m.vfExec with
      | [] => .error .unbalancedConditional
      | _ :: vfExec => .ok { m with vfExec := vfExec }
  | .verify =>
      match m.stack with
      | [] => .error .invalidStackOperation
      | vch :: stack => if castToBool vch then .ok { m with stack := stack } else .error .verify
  | .return => .error .opReturn
  | .toaltstack =>
      match m.stack with
      | [] => .error .invalidStackOperation
      | vch :: stack => .ok { m with stack := stack, altstack := vch :: m.altstack }
  | .fromaltstack =>
      match m.altstack with
      | [] => .error .invalidAltstackOperation
      | vch :: altstack => .ok { m with stack := vch :: m.stack, altstack := altstack }
  | .drop2 => execStack m fun | _ :: _ :: s => some s | _ => none
  | .dup2 => execStack m fun | x2 :: x1 :: s => some (x2 :: x1 :: x2 :: x1 :: s) | _ => none
  | .dup3 => execStack m fun
      | x3 :: x2 :: x1 :: s => some (x3 :: x2 :: x1 :: x3 :: x2 :: x1 :: s)
      | _ => none
  | .over2 => execStack m fun
      | x4 :: x3 :: x2 :: x1 :: s => some (x2 :: x1 :: x4 :: x3 :: x2 :: x1 :: s)
      | _ => none
  | .rot2 => execStack m fun
      | x6 :: x5 :: x4 :: x3 :: x2 :: x1 :: s => some (x2 :: x1 :: x6 :: x5 :: x4 :: x3 :: s)
      | _ => none
  | .swap2 => execStack m fun
      | x4 :: x3 :: x2 :: x1 :: s => some (x2 :: x1 :: x4 :: x3 :: s)
      | _ => none
  | .ifdup => execStack m fun
      | x :: s => some (if castToBool x then x :: x :: s else x :: s)
      | _ => none
  | .depth => .ok (m.push (serializeNum m.stack.length))
  | .drop => execStack m fun | _ :: s => some s | _ => none
  | .dup => execStack m fun | x :: s => some (x :: x :: s) | _ => none
  | .nip => execStack m fun | x2 :: _ :: s => some (x2 :: s) | _ => none
  | .over => execStack m fun | x2 :: x1 :: s => some (x1 :: x2 :: x1 :: s) | _ => none
  | .pick roll => execPick ctx roll m
  | .rot => execStack m fun | x3 :: x2 :: x1 :: s => some (x1 :: x3 :: x2 :: s) | _ => none
  | .swap => execStack m fun | x2 :: x1 :: s => some (x1 :: x2 :: s) | _ => none
  | .tuck => execStack m fun | x2 :: x1 :: s => some (x2 :: x1 :: x2 :: s) | _ => none
  | .size => execStack m fun | x :: s => some (serializeNum x.length :: x :: s) | _ => none
  | .equal verify =>
      match m.stack with
      | x2 :: x1 :: stack => pushResult { m with stack := stack } (x1 = x2) verify .equalverify
      | _ => .error .invalidStackOperation
  | .unary op =>
      match m.stack with
      | [] => .error .invalidStackOperation
      | x :: stack => do
          let bn ← numOf ctx x
          return { m with stack := serializeNum (op.eval bn) :: stack }
  | .binary op => execBinary ctx op m
  | .within =>
      match m.stack with
      | x3 :: x2 :: x1 :: stack => do
          let bn1 ← numOf ctx x1
          let bn2 ← numOf ctx x2
          let bn3 ← numOf ctx x3
          return { m with stack := vchBool (bn2 ≤ bn1 && bn1 < bn3) :: stack }
      | _ => .error .invalidStackOperation
  | .hash op =>
      match m.stack with
      | [] => .error .invalidStackOperation
      | x :: stack => .ok { m with stack := op.eval ctx.crypto x :: stack }
  | .codeseparator => .ok { m with codehash := pc }
  | .checksig verify => execCheckSig ctx verify m
  | .checkmultisig verify => execCheckMultisig ctx verify m

/-- What is done with one operation, before the limit on the stacks. -/
def execOp (opcode : UInt8) (vchPushValue : Bytes) (pc : CScript) (m : Machine) : ScriptM Machine :=
  if m.fExec && opcode ≤ opPushdata4 then do
    ensure (!(ctx.flags.minimaldata && !checkMinimalPush vchPushValue opcode)) .minimaldata
    return m.push vchPushValue
  else if m.fExec || opIf ≤ opcode && opcode ≤ opEndif then do
    let instr ← require (instrOf opcode) .badOpcode
    execInstr ctx pc m instr
  else .ok m

/-- One round of the loop. -/
def evalStep (opcode : UInt8) (vchPushValue : Bytes) (pc : CScript)
    (m : Machine) : ScriptM Machine := do
  ensure (vchPushValue.length ≤ maxScriptElementSize) .pushSize
  let m := m.countOp opcode
  ensure (opcode ≤ op16 || m.nOpCount ≤ maxOpsPerScript) .opCount
  ensure (!isDisabledOpcode opcode) .disabledOpcode
  let m ← execOp ctx opcode vchPushValue pc m
  ensure (m.stack.length + m.altstack.length ≤ maxStackSize) .stackSize
  return m

/-- The loop over the operations; every one takes a byte, so the fuel never runs out. -/
def evalFrom (ctx : ScriptContext) : Nat → CScript → Machine → ScriptM Machine
  | 0, _, m => .ok m
  | fuel + 1, pc, m =>
      if pc.isEmpty then .ok m
      else do
        let (opcode, vchPushValue, pc) ← require (CScript.getOp pc) .badOpcode
        let m ← evalStep ctx opcode vchPushValue pc m
        evalFrom ctx fuel pc m

/-- `EvalScript`; the result is the stack. -/
def evalScript (script : CScript) (stack : List Bytes) :
    ScriptM (List Bytes) := do
  ensure (script.length ≤ maxScriptSize) .scriptSize
  let m ← evalFrom ctx script.length script { stack := stack, codehash := script }
  ensure m.vfExec.isEmpty .unbalancedConditional
  return m.stack

def endsTrue (stack : List Bytes) : Bool :=
  match stack with
  | [] => false
  | top :: _ => castToBool top

/-- The script of a witness program must leave exactly one true value. -/
def runWitnessScript (scriptPubKey : CScript) (stack : List Bytes) :
    ScriptM Unit := do
  ensure (stack.all fun vch => vch.length ≤ maxScriptElementSize) .pushSize
  let stack ← evalScript { ctx with sigversion := .witnessV0 } scriptPubKey stack
  ensure (stack.length = 1) .evalFalse
  ensure (endsTrue stack) .evalFalse

/-- `VerifyWitnessProgram`; the witness has its top last. -/
def verifyWitnessProgram (witness : List Bytes) (witversion : Nat)
    (program : Bytes) : ScriptM Unit :=
  if witversion = 0 then
    if program.length = 32 then do
      ensure (!witness.isEmpty) .witnessProgramWitnessEmpty
      let scriptPubKey := witness.getLastD []
      ensure (ctx.crypto.sha256 scriptPubKey = program) .witnessProgramMismatch
      runWitnessScript ctx scriptPubKey witness.dropLast.reverse
    else if program.length = 20 then do
      ensure (witness.length = 2) .witnessProgramMismatch
      runWitnessScript ctx (scriptForKeyID program) witness.reverse
    else .error .witnessProgramWrongLength
  else if ctx.flags.discourageUpgradableWitnessProgram then
    .error .discourageUpgradableWitnessProgram
  else .ok ()

/-- The outcome of a possible witness program: the stack that is left to the clean-stack test, and
whether there was one. -/
def verifyWitness (witness : List Bytes) (script : CScript)
    (sigMatches : Bool) (e : ScriptError) (stack : List Bytes) : ScriptM (List Bytes × Bool) :=
  if ctx.flags.witness then
    match script.isWitnessProgram with
    | none => .ok (stack, false)
    | some (version, program) => do
        ensure sigMatches e
        verifyWitnessProgram ctx witness version program
        return (stack.drop (stack.length - 1), true)
  else .ok (stack, false)

/-- The script behind a script hash, run on the stack the signature script left. -/
def verifyScriptHash (scriptSig : CScript) (witness : List Bytes)
    (stack : List Bytes) : ScriptM (List Bytes × Bool) := do
  ensure (CScript.isPushOnly scriptSig) .sigPushonly
  match stack with
  | [] => .error .unknownError
  | pubKey2 :: stack =>
      let stack ← evalScript ctx pubKey2 stack
      ensure (endsTrue stack) .evalFalse
      verifyWitness ctx witness pubKey2 (scriptSig = pushData pubKey2) .witnessMalleatedP2sh stack

/-- `VerifyScript`, with the flags that its assertions ask for. -/
def verifyScript (scriptSig scriptPubKey : CScript) (witness : List Bytes) : ScriptM Unit := do
  whenever ctx.flags.sigpushonly (ensure (CScript.isPushOnly scriptSig) .sigPushonly)
  let stackCopy ← evalScript ctx scriptSig []
  let stack ← evalScript ctx scriptPubKey stackCopy
  ensure (endsTrue stack) .evalFalse
  let (stack, hadWitness) ←
    verifyWitness ctx witness scriptPubKey scriptSig.isEmpty .witnessMalleated stack
  let (stack, hadWitness) ←
    if ctx.flags.p2sh && scriptPubKey.isPayToScriptHash then
      verifyScriptHash ctx scriptSig witness stackCopy
    else pure (stack, hadWitness)
  whenever ctx.flags.cleanstack do
    ensure (ctx.flags.p2sh && ctx.flags.witness) .unknownError
    ensure (stack.length = 1) .cleanstack
  whenever ctx.flags.witness do
    ensure ctx.flags.p2sh .unknownError
    ensure (hadWitness || witness.isEmpty) .witnessUnexpected

end HnbCore
