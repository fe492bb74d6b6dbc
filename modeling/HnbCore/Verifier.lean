import HnbCore.AssetNames
import HnbCore.Destination
import HnbCore.Lib.Checks

/-!
# Verifier strings

The boolean expression language of `LibBoolEE` over qualifier names, and the checks on a
restricted asset's verifier string that need no chain state.
-/

namespace HnbCore

open Checks

/-- An error text with bytes of the transaction in it. -/
def text (b : Bytes) : String := String.ofList (b.map fun c => Char.ofNat c.toNat)

namespace LibBoolEE

def isalnum (c : UInt8) : Bool := isUpper c || isLower c || isDigit c

def belongsToName (c : UInt8) : Bool := isalnum c || c = 0x5f || c = 0x23 || c = 0x2e

def removeWhitespaces (source : Bytes) : Bytes := source.filter fun c => !isspace c

def removeCharacter (source : Bytes) (ch : UInt8) : Bytes := source.filter fun c => c ≠ ch

structure ParseState where
  startPos : Option Nat
  parityCount : Int
  subexpressions : List Bytes

def substr (s : Bytes) (pos len : Nat) : Bytes := (s.drop pos).take len

/-- One round of the loop of `singleParse`. -/
def singleParseStep (formula : Bytes) (op : UInt8) (s : ParseState) (ci : UInt8 × Nat) :
    Except String ParseState :=
  let (c, i) := ci
  let inName := belongsToName c || c = 0x21
  if c = 0x29 then .ok { s with parityCount := s.parityCount - 1 }
  else if c = 0x28 then
    .ok { s with parityCount := s.parityCount + 1, startPos := s.startPos.or (some i) }
  else if s.parityCount = 0 then
    match s.startPos with
    | none => .ok (if inName then { s with startPos := some i } else s)
    | some startPos =>
        if inName then .ok s
        else if op = c then
          .ok { s with
            subexpressions := s.subexpressions ++ [substr formula startPos (i - startPos)]
            startPos := some (i + 1) }
        else if c ≠ 0x26 && c ≠ 0x7c then
          .error ("Unknown operator '" ++ text [c] ++ "' in the (sub)expression '" ++
            text formula ++ "'.")
        else .ok s
  else .ok s

/-- What is returned from the state the loop ends in. -/
def finish (formula : Bytes) (s : ParseState) : Except String (List Bytes) := do
  let subexpressions := match s.startPos with
    | none => s.subexpressions
    | some startPos =>
        s.subexpressions ++ [substr formula startPos (formula.length - startPos)]
  ensure (s.parityCount = 0)
    ("Wrong parenthesis parity in the (sub)expression '" ++ text formula ++ "'.")
  return subexpressions

def singleParse (formula : Bytes) (op : UInt8) : Except String (List Bytes) := do
  let s ← formula.zipIdx.foldlM (singleParseStep formula op) ⟨none, 0, []⟩
  finish formula s

/-- A string without an operator at its top level. -/
def operand (valuation : Bytes → Option Bool) (resolve : Bytes → Except String Bool)
    (source : Bytes) : Except String Bool :=
  if source.headD 0 = 0x21 then do return !(← resolve (source.drop 1))
  else if source.headD 0 = 0x28 then resolve (substr source 1 (source.length - 2))
  else if source = str "1" then return true
  else if source = str "0" then return false
  else
    require (valuation source)
      ("Variable '" ++ text source ++ "' not found in the interpretation.")

/-- `resolve` and `resolveRec`. Every call is on a shorter string, so the length bounds the
depth. -/
def resolve (valuation : Bytes → Option Bool) : Nat → Bytes → Except String Bool
  | 0, _ => .error "An empty subexpression was encountered"
  | fuel + 1, source => do
      let source := removeWhitespaces source
      ensure (!source.isEmpty) "An empty subexpression was encountered"
      let byOr ← singleParse source 0x7c
      let currentOp : UInt8 := if byOr.length = 1 then 0x26 else 0x7c
      let subexpressions ← if byOr.length = 1 then singleParse source 0x26 else pure byOr
      match subexpressions with
      | [] => .error ("The subexpression " ++ text source ++ " is not a valid formula.")
      | [_] => operand valuation (resolve valuation fuel) source
      | _ =>
          if currentOp = 0x7c then
            subexpressions.foldlM (fun r e => do return (← resolve valuation fuel e) || r) false
          else
            subexpressions.foldlM (fun r e => do return (← resolve valuation fuel e) && r) true

end LibBoolEE

variable (verifier : Bytes)

def resolveVerifier (vals : Bytes → Option Bool) : Except String Bool :=
  LibBoolEE.resolve vals (verifier.length + 1) verifier

/-- The maximal runs of name characters, each once. -/
def extractVerifierStringQualifiers : List Bytes :=
  ((verifier.splitOnP fun c => !isNameChar c).filter fun q => !q.isEmpty).dedup

def qualifierChar : UInt8 := 0x23
def restrictedChar : UInt8 := 0x24

def getStrippedVerifierString : Bytes :=
  LibBoolEE.removeCharacter (LibBoolEE.removeWhitespaces verifier) qualifierChar

/-- `CheckVerifierString`: the qualifiers found, or the error text. -/
def checkVerifierString : Except String (List Bytes) :=
  if verifier = str "true" then .ok []
  else do
    ensure (!verifier.isEmpty)
      "Verifier string can not be empty. To default to true, use \"true\""
    let strippedVerifier := getStrippedVerifierString verifier
    ensure (strippedVerifier.length ≤ 80)
      "Verifier string has length greater than 80 after whitespaces and '#' are removed"
    let setFoundQualifiers := extractVerifierStringQualifiers strippedVerifier
    forM setFoundQualifiers fun qualifier =>
      ensure (isQualifierNameValid (qualifierChar :: qualifier))
        ("bad-txns-null-verifier-invalid-asset-name-" ++ text qualifier)
    let vals (name : Bytes) : Option Bool :=
      if setFoundQualifiers.contains name then some true else none
    match resolveVerifier verifier vals with
    | .ok _ => .ok setFoundQualifiers
    | .error _ => .error "bad-txns-null-verifier-failed-syntax-check"

end HnbCore
