import HnbCore.Lib.KeyedSet
import Mathlib.Data.Nat.Digits.Defs

/-!
# Byte strings and streams

`std::string`, `CScript` and the contents of a `CDataStream` are lists of bytes. Reading from a
stream is a partial function on the bytes left: where the source throws `ios_base::failure` the
reader has no value.
-/

namespace HnbCore

abbrev Bytes := List UInt8

/-- The bytes of an ASCII literal. -/
def str (s : String) : Bytes := s.toList.map fun c => UInt8.ofNat c.toNat

/-- A 64-bit signed amount, kept as the integer it stands for. -/
abbrev CAmount := Int

/-- Two's complement wrap-around of a signed 64-bit addition. -/
def int64 (x : Int) : Int := x.bmod (2 ^ 64)

abbrev Reader := StateT Bytes Option

/-- `CDataStream::read`. -/
def readBytes (n : Nat) : Reader Bytes := fun s =>
  if n ≤ s.length then some (s.take n, s.drop n) else none

/-- The number of bytes not yet read. -/
def remaining : Reader Nat := fun s => some (s.length, s)

def leNat : Bytes → Nat
  | [] => 0
  | b :: bs => b.toNat + 256 * leNat bs

def leBytes : Nat → Nat → Bytes
  | 0, _ => []
  | width + 1, n => UInt8.ofNat n :: leBytes width (n / 256)

def readLE (width : Nat) : Reader Nat := do
  return leNat (← readBytes width)

def readInt8 : Reader Int := do
  return (Int.ofNat (← readLE 1)).bmod (2 ^ 8)

def readInt64 : Reader Int := do
  return int64 (Int.ofNat (← readLE 8))

/-- The longest object a stream may announce, `MAX_SIZE`. -/
def maxSize : Nat := 0x02000000

def readCompactSize : Reader Nat := do
  let chSize ← readLE 1
  let nSizeRet ←
    if chSize < 253 then pure chSize
    else if chSize = 253 then do
      let n ← readLE 2
      if n < 253 then failure else pure n
    else if chSize = 254 then do
      let n ← readLE 4
      if n < 0x10000 then failure else pure n
    else do
      let n ← readLE 8
      if n < 0x100000000 then failure else pure n
  if nSizeRet > maxSize then failure else pure nSizeRet

def readString : Reader Bytes := do
  readBytes (← readCompactSize)

def writeInt8 (n : Int) : Bytes := leBytes 1 (n % 2 ^ 8).toNat

def writeInt64 (n : Int) : Bytes := leBytes 8 (n % 2 ^ 64).toNat

def writeCompactSize (n : Nat) : Bytes :=
  if n < 253 then leBytes 1 n
  else if n ≤ 0xffff then 253 :: leBytes 2 n
  else if n ≤ 0xffffffff then 254 :: leBytes 4 n
  else 255 :: leBytes 8 n

def writeString (s : Bytes) : Bytes := writeCompactSize s.length ++ s

end HnbCore
