import HnbCore.Script

/-!
# Destinations and addresses

`Solver` and `ExtractDestination` read a destination off a script; `EncodeDestination` and
`DecodeDestination` move between destinations and Base58Check strings. SHA-256 and RIPEMD-160
are parameters.
-/

namespace HnbCore

/-- The hash functions the code calls: `Hash` (double SHA-256) and `Hash160`. -/
structure Hashes where
  hash : Bytes → Bytes
  hash160 : Bytes → Bytes
  deriving Inhabited

inductive CTxDestination
  | noDestination
  | keyID (id : Bytes)
  | scriptID (id : Bytes)
  deriving DecidableEq, Repr

def isValidDestination (dest : CTxDestination) : Bool := dest ≠ .noDestination

def opSmallinteger : UInt8 := 0xfa
def opPubkeys : UInt8 := 0xfb
def opPubkeyhash : UInt8 := 0xfd
def opPubkey : UInt8 := 0xfe

/-- The templates of `Solver`, in the order their map is walked. -/
def mTemplates : List (TxnOutType × CScript) :=
  [(.txPubkey, [opPubkey, opChecksig]),
   (.txPubkeyhash, [opDup, opHash160, opPubkeyhash, opEqualverify, opChecksig]),
   (.txMultisig, [opSmallinteger, opPubkeys, opSmallinteger, opCheckmultisig])]

/-- The loop that collects public keys for `OP_PUBKEYS`: the solutions, and the operation that
ended it with the script after that. -/
def takePubkeys : Nat → UInt8 → Bytes → CScript → List Bytes →
    List Bytes × UInt8 × Bytes × CScript
  | 0, opcode1, vch1, pc1, solutions => (solutions, opcode1, vch1, pc1)
  | fuel + 1, opcode1, vch1, pc1, solutions =>
      if 33 ≤ vch1.length ∧ vch1.length ≤ 65 then
        match CScript.getOp pc1 with
        | none => (solutions ++ [vch1], 0xff, [], pc1)
        | some (opcode1, vch, pc1) => takePubkeys fuel opcode1 vch pc1 (solutions ++ [vch1])
      else (solutions, opcode1, vch1, pc1)

/-- One operation against one template operation. -/
def matchOp (opcode1 : UInt8) (vch1 : Bytes) (opcode2 : UInt8) (solutions : List Bytes) :
    Option (List Bytes) :=
  if opcode2 = opPubkey then
    if vch1.length < 33 ∨ vch1.length > 65 then none else some (solutions ++ [vch1])
  else if opcode2 = opPubkeyhash then
    if vch1.length ≠ 20 then none else some (solutions ++ [vch1])
  else if opcode2 = opSmallinteger then
    if opcode1 = op0 then some (solutions ++ [[0]])
    else if op1 ≤ opcode1 ∧ opcode1 ≤ op16 then some (solutions ++ [[opcode1 - 0x50]])
    else none
  else if opcode1 ≠ opcode2 ∨ vch1 ≠ [] then none
  else some solutions

/-- The template scan; template operations carry no data. -/
def matchTemplate : CScript → CScript → List Bytes → Option (List Bytes)
  | script1, [], solutions => if script1.isEmpty then some solutions else none
  | script1, opcode2 :: script2, solutions =>
      match CScript.getOp script1 with
      | none => none
      | some (opcode1, vch1, pc1) =>
          if opcode2 = opPubkeys then
            let (solutions, opcode1, vch1, pc1) :=
              takePubkeys script1.length opcode1 vch1 pc1 solutions
            match script2 with
            | [] => none
            | opcode2 :: script2 =>
                match matchOp opcode1 vch1 opcode2 solutions with
                | none => none
                | some solutions => matchTemplate pc1 script2 solutions
          else
            match matchOp opcode1 vch1 opcode2 solutions with
            | none => none
            | some solutions => matchTemplate pc1 script2 solutions

/-- The further test on a matched multisig template. -/
def multisigOk (solutions : List Bytes) : Bool :=
  let m := (solutions.headD []).headD 0
  let n := (solutions.getLastD []).headD 0
  !(m < 1 || n < 1 || m > n || solutions.length - 2 ≠ n.toNat)

def scanTemplates (script : CScript) : List (TxnOutType × CScript) →
    Option (TxnOutType × List Bytes)
  | [] => none
  | (type, tplate) :: rest =>
      match matchTemplate script tplate [] with
      | none => scanTemplates script rest
      | some solutions =>
          if type = .txMultisig && !multisigOk solutions then none else some (type, solutions)

def solver (scriptPubKey : CScript) : Option (TxnOutType × List Bytes) :=
  if scriptPubKey.isPayToScriptHash then
    some (.txScripthash, [(scriptPubKey.drop 2).take 20])
  else
    match scriptPubKey.isAssetScript with
    | some a => some (a.nType, [(scriptPubKey.drop 3).take 20])
    | none =>
        match scriptPubKey.isWitnessProgram with
        | some (version, program) =>
            if version = 0 ∧ program.length = 20 then some (.txWitnessV0Keyhash, [program])
            else if version = 0 ∧ program.length = 32 then
              some (.txWitnessV0Scripthash, [program])
            else none
        | none =>
            if scriptPubKey.length ≥ 1 && scriptPubKey.byteAt 0 = opReturn &&
                CScript.isPushOnly (scriptPubKey.drop 1) then
              some (.txNullData, [])
            else if scriptPubKey.length ≥ 1 && scriptPubKey.byteAt 0 = opHnbAsset &&
                CScript.isPushOnly (scriptPubKey.drop 1) then
              if scriptPubKey.length ≥ 23 && scriptPubKey.byteAt 1 ≠ opReserved then
                some (.txRestrictedAssetData, [(scriptPubKey.drop 2).take 20])
              else some (.txRestrictedAssetData, [])
            else scanTemplates scriptPubKey mTemplates

/-- `CPubKey::IsValid` of a key set from these bytes. -/
def pubKeyIsValid (vch : Bytes) : Bool :=
  match vch with
  | [] => false
  | header :: _ =>
      if header = 2 || header = 3 then vch.length = 33
      else if header = 4 || header = 6 || header = 7 then vch.length = 65
      else false

def extractDestination (hashes : Hashes) (scriptPubKey : CScript) : Option CTxDestination :=
  match solver scriptPubKey with
  | none => none
  | some (whichType, solutions) =>
      match whichType with
      | .txPubkey =>
          if pubKeyIsValid (solutions.headD []) then
            some (.keyID (hashes.hash160 (solutions.headD [])))
          else none
      | .txPubkeyhash | .txNewAsset | .txReissueAsset | .txTransferAsset =>
          some (.keyID (solutions.headD []))
      | .txScripthash => some (.scriptID (solutions.headD []))
      | .txRestrictedAssetData =>
          match solutions with
          | [] => none
          | hash :: _ => some (.keyID hash)
      | _ => none

/-- The two version bytes of an address; the rest of the chain's parameters follow later. -/
structure Base58Prefixes where
  pubkeyAddress : UInt8
  scriptAddress : UInt8

def pszBase58 : Bytes := str "123456789ABCDEFGHJKLMNPQRSTUVWXYZabcdefghijkmnopqrstuvwxyz"

def beNat (bs : Bytes) : Nat := bs.foldl (fun n b => 256 * n + b.toNat) 0

/-- The digits of `n`, most significant first and without leading zeros, in front of `acc`. -/
def digitsBE (base : Nat) : Nat → Nat → List Nat → List Nat
  | 0, _, acc => acc
  | size + 1, n, acc => if n = 0 then acc else digitsBE base size (n / base) (n % base :: acc)

def encodeBase58 (vch : Bytes) : Bytes :=
  let zeroes := vch.takeWhile (· = 0)
  let rest := vch.dropWhile (· = 0)
  let digits := digitsBE 58 (rest.length * 138 / 100 + 1) (beNat rest) []
  zeroes.map (fun _ => pszBase58.headD 0) ++ digits.map (fun d => pszBase58.getD d 0)

def isspace (c : UInt8) : Bool := (9 ≤ c && c ≤ 13) || c = 32

/-- `b256 = b256 * 58 + ch` over the characters; a character outside the alphabet fails. -/
def base58Value : Bytes → Option Nat
  | cs => cs.foldlM (fun n c =>
      let i := pszBase58.idxOf c
      if i < pszBase58.length then some (58 * n + i) else none) 0

def decodeBase58 (s : Bytes) : Option Bytes :=
  let psz := (s.takeWhile (· ≠ 0)).dropWhile isspace
  let ones := psz.takeWhile (· = pszBase58.headD 0)
  let psz := psz.dropWhile (· = pszBase58.headD 0)
  let body := psz.takeWhile (fun c => !isspace c)
  let tail := psz.dropWhile (fun c => !isspace c)
  match base58Value body with
  | none => none
  | some n =>
      if tail.all isspace then
        some (ones.map (fun _ => 0) ++
          (digitsBE 256 (psz.length * 733 / 1000 + 1) n []).map UInt8.ofNat)
      else none

def encodeBase58Check (hashes : Hashes) (vchIn : Bytes) : Bytes :=
  encodeBase58 (vchIn ++ (hashes.hash vchIn).take 4)

def decodeBase58Check (hashes : Hashes) (s : Bytes) : Option Bytes :=
  match decodeBase58 s with
  | none => none
  | some vch =>
      if vch.length < 4 then none
      else
        let data := vch.take (vch.length - 4)
        if (hashes.hash data).take 4 = vch.drop (vch.length - 4) then some data else none

def encodeDestination (hashes : Hashes) (p : Base58Prefixes) (dest : CTxDestination) : Bytes :=
  match dest with
  | .noDestination => []
  | .keyID id => encodeBase58Check hashes (p.pubkeyAddress :: id)
  | .scriptID id => encodeBase58Check hashes (p.scriptAddress :: id)

def decodeDestination (hashes : Hashes) (p : Base58Prefixes) (s : Bytes) : CTxDestination :=
  match decodeBase58Check hashes s with
  | some (version :: id) =>
      if id.length = 20 ∧ version = p.pubkeyAddress then .keyID id
      else if id.length = 20 ∧ version = p.scriptAddress then .scriptID id
      else .noDestination
  | _ => .noDestination

end HnbCore
