import HnbCore.Transaction
import HnbCore.VarInt

/-!
# Amounts in the coin database

`CTxOutCompressor` writes the value of an output without its trailing zeros, as a variable length
integer. The arithmetic is that of unsigned 64-bit words, and `MAX_MONEY` is large enough for the
largest amounts to leave it.
-/

namespace HnbCore

open List Nat VarInt

/-- The loop of `CompressAmount`: the amount without its trailing zeros and how many there were,
`left` at most. -/
def stripZeros : Nat → UInt64 → UInt64 × Nat
  | 0, n => (n, 0)
  | left + 1, n =>
      if n % 10 = 0 then
        let (m, e) := stripZeros left (n / 10)
        (m, e + 1)
      else (n, 0)

def compressAmount (n : UInt64) : UInt64 :=
  if n = 0 then 0
  else
    let (n, e) := stripZeros 9 n
    if e < 9 then
      let d := n % 10
      1 + (n / 10 * 9 + d - 1) * 10 + UInt64.ofNat e
    else 1 + (n - 1) * 10 + 9

/-- The loop of `DecompressAmount`. -/
def appendZeros : Nat → UInt64 → UInt64
  | 0, n => n
  | e + 1, n => appendZeros e (n * 10)

def decompressAmount (x : UInt64) : UInt64 :=
  if x = 0 then 0
  else
    let x := x - 1
    let e := (x % 10).toNat
    let x := x / 10
    let n :=
      if e < 9 then
        let d := x % 9 + 1
        x / 9 * 10 + d
      else x + 1
    appendZeros e n

/-- The loop of `WriteVarInt`, which fills its buffer from the end; `tmp` is what it has so far. -/
def varIntBytes : Nat → UInt64 → Bytes → Bytes
  | 0, _, tmp => tmp
  | left + 1, n, tmp =>
      let byte := (n &&& 0x7f).toUInt8 ||| (if tmp.isEmpty then 0 else 0x80)
      if n ≤ 0x7f then byte :: tmp else varIntBytes left ((n >>> 7) - 1) (byte :: tmp)

/-- `WriteVarInt` of 64 bits has room for ten bytes. -/
def writeVarInt (n : UInt64) : Bytes := varIntBytes 10 n []

/-- The loop of `ReadVarInt`; the end of the stream and a number of more than 64 bits fail. -/
def readVarIntFrom (n : UInt64) : Bytes → Option (UInt64 × Bytes)
  | [] => none
  | chData :: rest =>
      if n > (0xffffffffffffffff : UInt64) >>> 7 then none
      else
        let n := (n <<< 7) ||| (chData &&& 0x7f).toUInt64
        if chData &&& 0x80 ≠ 0 then
          if n = 0xffffffffffffffff then none else readVarIntFrom (n + 1) rest
        else some (n, rest)

def readVarInt : Reader UInt64 := readVarIntFrom 0

/-- The value of an output as `CTxOutCompressor` writes it. -/
def writeValue (nValue : CAmount) : Bytes := writeVarInt (compressAmount (UInt64.ofInt nValue))

/-- The value of an output as `CTxOutCompressor` reads it. -/
def readValue : Reader CAmount := do
  return int64 (Int.ofNat (decompressAmount (← readVarInt)).toNat)

theorem stripZeros_spec (left : Nat) (n : UInt64) :
    n.toNat = (stripZeros left n).1.toNat * 10 ^ (stripZeros left n).2 ∧
      (stripZeros left n).2 ≤ left ∧
      ((stripZeros left n).2 < left → (stripZeros left n).1.toNat % 10 ≠ 0) := by
  induction left generalizing n with
  | zero => simp [stripZeros]
  | succ left ih =>
    obtain ⟨hvalue, hle, hlast⟩ := ih (n / 10)
    by_cases hn : n % 10 = 0
    · have hzero : n.toNat % 10 = 0 := by simpa using congrArg UInt64.toNat hn
      have hdiv : (n / 10).toNat = n.toNat / 10 := by simp
      simp only [stripZeros, hn, if_true]
      refine ⟨?_, by omega, fun h => hlast (by omega)⟩
      rw [hdiv] at hvalue
      rw [pow_succ, ← mul_assoc, ← hvalue]
      omega
    · have hne : n.toNat % 10 ≠ 0 := fun h => hn (UInt64.toNat_inj.mp (by simpa using h))
      simp only [stripZeros, hn, if_false]
      exact ⟨by simp, by omega, fun _ => hne⟩

theorem appendZeros_toNat (e : Nat) (n : UInt64) :
    (appendZeros e n).toNat = n.toNat * 10 ^ e % 2 ^ 64 := by
  induction e generalizing n with
  | zero => simp [appendZeros, mod_eq_of_lt n.toNat_lt]
  | succ e ih =>
    rw [appendZeros, ih, UInt64.toNat_mul]
    simp only [UInt64.reduceToNat]
    rw [mod_mul_mod, mul_assoc, ← pow_succ']

/-- The number that stands for `m` followed by `e` zeros. -/
def compressed (m e : Nat) : Nat :=
  if e < 9 then 1 + (m / 10 * 9 + (m % 10 - 1)) * 10 + e else 1 + (m - 1) * 10 + 9

variable {n x : UInt64} {e m : Nat} {tmp : Bytes}

theorem compressAmount_toNat (hn : n ≠ 0) :
    (compressAmount n).toNat =
      compressed (stripZeros 9 n).1.toNat (stripZeros 9 n).2 % 2 ^ 64 := by
  obtain ⟨hvalue, hle, hlast⟩ := stripZeros_spec 9 n
  have hpos : n.toNat ≠ 0 := fun h => hn (UInt64.toNat_inj.mp (by simpa using h))
  generalize hstrip : stripZeros 9 n = stripped at *
  obtain ⟨m, e⟩ := stripped
  have hm : m.toNat ≠ 0 := fun h => hpos (by rw [hvalue, h, zero_mul])
  have hlt := m.toNat_lt
  have he : (UInt64.ofNat e).toNat = e := by
    rw [UInt64.toNat_ofNat']
    exact mod_eq_of_lt (by omega)
  simp only [compressAmount, hn, if_false, hstrip, compressed]
  by_cases hfew : e < 9
  · have hdigit : m.toNat % 10 ≠ 0 := hlast hfew
    have hbody : (m / 10 * 9 + m % 10 - 1).toNat = m.toNat / 10 * 9 + (m.toNat % 10 - 1) := by
      simp only [UInt64.toNat_add, UInt64.toNat_sub, UInt64.toNat_mul, UInt64.toNat_div,
        UInt64.toNat_mod, UInt64.reduceToNat]
      rw [mod_eq_of_lt (show m.toNat / 10 * 9 < 2 ^ 64 by omega)]
      omega
    simp only [hfew, if_true, UInt64.toNat_add, UInt64.toNat_mul, UInt64.reduceToNat, he, hbody]
    omega
  · simp only [hfew, if_false, UInt64.toNat_add, UInt64.toNat_sub, UInt64.toNat_mul,
      UInt64.reduceToNat]
    omega

/-- The digits of the amount before its zeros, from what is left of the number. -/
def expanded (x e : Nat) : Nat := if e < 9 then x / 9 * 10 + (x % 9 + 1) else x + 1

theorem decompressAmount_toNat (hx : x ≠ 0) :
    (decompressAmount x).toNat =
      expanded ((x.toNat - 1) / 10) ((x.toNat - 1) % 10) * 10 ^ ((x.toNat - 1) % 10) % 2 ^ 64 := by
  have hpos : x.toNat ≠ 0 := fun h => hx (UInt64.toNat_inj.mp (by simpa using h))
  have hlt := x.toNat_lt
  have hsub : (x - 1).toNat = x.toNat - 1 := by
    simp only [UInt64.toNat_sub, UInt64.reduceToNat]
    omega
  have he : ((x - 1) % 10).toNat = (x.toNat - 1) % 10 := by
    simp only [UInt64.toNat_mod, UInt64.reduceToNat, hsub]
  have hdiv : ((x - 1) / 10).toNat = (x.toNat - 1) / 10 := by
    simp only [UInt64.toNat_div, UInt64.reduceToNat, hsub]
  simp only [decompressAmount, hx, if_false, appendZeros_toNat, he, expanded]
  congr 2
  split_ifs with hfew
  · simp only [UInt64.toNat_add, UInt64.toNat_mul, UInt64.toNat_div, UInt64.toNat_mod,
      UInt64.reduceToNat, hdiv]
    omega
  · simp only [UInt64.toNat_add, UInt64.reduceToNat, hdiv]
    omega

theorem compressed_pos (m e : Nat) : 0 < compressed m e := by
  unfold compressed
  split_ifs
  · omega
  · omega

/-- Without a carry out of the word the parts are found again. -/
theorem expanded_compressed (hm : m ≠ 0) (he : e ≤ 9) (hlast : e < 9 → m % 10 ≠ 0) :
    (compressed m e - 1) % 10 = e ∧ expanded ((compressed m e - 1) / 10) e = m := by
  unfold compressed expanded
  split_ifs with hfew
  · have := hlast hfew
    constructor
    · omega
    · omega
  · constructor
    · omega
    · omega

theorem decompressAmount_of_fits (hn : n ≠ 0)
    (hfits : compressed (stripZeros 9 n).1.toNat (stripZeros 9 n).2 < 2 ^ 64) :
    decompressAmount (compressAmount n) = n := by
  obtain ⟨hvalue, hle, hlast⟩ := stripZeros_spec 9 n
  have hx := compressAmount_toNat hn
  rw [mod_eq_of_lt hfits] at hx
  have hpos := compressed_pos (stripZeros 9 n).1.toNat (stripZeros 9 n).2
  have hne : compressAmount n ≠ 0 := by
    intro h
    rw [h] at hx
    simp only [UInt64.reduceToNat] at hx
    omega
  have hm : (stripZeros 9 n).1.toNat ≠ 0 := by
    intro h
    rw [h, zero_mul] at hvalue
    exact hn (UInt64.toNat_inj.mp (by simpa using hvalue))
  obtain ⟨hexponent, hdigits⟩ := expanded_compressed hm hle hlast
  apply UInt64.toNat_inj.mp
  rw [decompressAmount_toNat hne, hx, hexponent, hdigits, ← hvalue]
  exact mod_eq_of_lt n.toNat_lt

/-- With a zero at the end there is room for every amount of money. -/
theorem compressed_lt (hmax : m * 10 ^ e ≤ 2100000000000000000) (he : 1 ≤ e) :
    compressed m e < 2 ^ 64 := by
  have hten : 10 ≤ 10 ^ e := by
    calc 10 = 10 ^ 1 := rfl
      _ ≤ 10 ^ e := Nat.pow_le_pow_right (by decide) he
  have hm : m * 10 ≤ 2100000000000000000 := le_trans (Nat.mul_le_mul_left m hten) hmax
  unfold compressed
  split_ifs with hfew
  · omega
  · omega

theorem compressed_of_digit (h : n.toNat % 10 ≠ 0) :
    compressed (stripZeros 9 n).1.toNat (stripZeros 9 n).2 = 9 * n.toNat + n.toNat % 10 - 9 := by
  have hn : n % 10 ≠ 0 := fun hzero => h (by simpa using congrArg UInt64.toNat hzero)
  rw [stripZeros, if_neg hn]
  simp only [compressed, reduceLT, if_true]
  omega

/-- Four zeros after what is left of an amount never give the amount back in the word. -/
theorem appended_ne {c n u : Nat} (hc : ∀ q < 28, (c + 2 ^ 64 * q) % 9999 ≠ 0)
    (hlarge : 2049638230412172402 ≤ c) (hmax : n ≤ 2100000000000000000) (hn : n = c + u) :
    u * 10 ^ 4 % 2 ^ 64 ≠ n := by
  have hrest : u ≤ 50361769587827598 := by omega
  intro h
  have hparts := div_add_mod (u * 10 ^ 4) (2 ^ 64)
  have hq : u * 10 ^ 4 / 2 ^ 64 < 28 := by
    rw [div_lt_iff_lt_mul (by decide)]
    omega
  have hmul : c + 2 ^ 64 * (u * 10 ^ 4 / 2 ^ 64) = 9999 * u := by
    rw [h, hn] at hparts
    generalize 2 ^ 64 * (u * 10 ^ 4 / 2 ^ 64) = t at *
    omega
  exact hc _ hq (by rw [hmul, mul_mod_right])

/-- What is read of a number whose carry was lost. The word ends in 6, so that the number of zeros
is always four. -/
theorem expanded_overflow {n x : Nat} (hdigit : n % 10 ≠ 0)
    (hx : x + 9 + 18446744073709551616 = 9 * n + n % 10) (hpos : x ≠ 0) :
    (x - 1) % 10 = 4 ∧ (n = 2049638230412172402 + expanded ((x - 1) / 10) 4 ∨
      n = 2049638230412172403 + expanded ((x - 1) / 10) 4) := by
  have hrest : x - 1 = 10 * (9 * (n / 10) + (n % 10 - 1) - 1844674407370955162) + 4 := by omega
  have hquotient : (x - 1) / 10 = 9 * (n / 10) + (n % 10 - 1) - 1844674407370955162 := by omega
  refine ⟨by omega, ?_⟩
  rw [expanded, if_pos (by decide), hquotient]
  -- `2 ^ 64 + 4` is ten times `9 * 204963823041217240 + 2`
  obtain ⟨j, hj⟩ : ∃ j, n / 10 = 204963823041217240 + j := ⟨n / 10 - 204963823041217240, by omega⟩
  by_cases hsmall : n % 10 < 3
  · right
    omega
  · left
    omega

/-- The carry that is lost makes the number that of another amount. -/
theorem decompressAmount_overflow (hmax : n.toNat ≤ 2100000000000000000)
    (hdigit : n.toNat % 10 ≠ 0) (hover : 2 ^ 64 + 9 ≤ 9 * n.toNat + n.toNat % 10) :
    decompressAmount (compressAmount n) ≠ n := by
  have hn : n ≠ 0 := by
    rintro rfl
    simp at hdigit
  have hx := compressAmount_toNat hn
  rw [compressed_of_digit hdigit] at hx
  have hnumber : (compressAmount n).toNat + 9 + 18446744073709551616 =
      9 * n.toNat + n.toNat % 10 := by omega
  intro heq
  by_cases hzero : compressAmount n = 0
  · rw [hzero] at heq
    exact hn heq.symm
  · have hpos : (compressAmount n).toNat ≠ 0 := fun h =>
      hzero (UInt64.toNat_inj.mp (by simpa using h))
    obtain ⟨hfour, hdigits⟩ := expanded_overflow hdigit hnumber hpos
    have hvalue := congrArg UInt64.toNat heq
    rw [decompressAmount_toNat hzero, hfour] at hvalue
    rcases hdigits with hdigits | hdigits
    · exact appended_ne (by decide) (by decide) hmax hdigits hvalue
    · exact appended_ne (by decide) (by decide) hmax hdigits hvalue

theorem decompressAmount_iff (hmax : n.toNat ≤ 2100000000000000000) :
    decompressAmount (compressAmount n) = n ↔
      n.toNat % 10 = 0 ∨ 9 * n.toNat + n.toNat % 10 < 2 ^ 64 + 9 := by
  by_cases hn : n = 0
  · subst hn
    simp [compressAmount, decompressAmount]
  · constructor
    · intro heq
      by_contra hno
      obtain ⟨hdigit, hover⟩ := not_or.mp hno
      exact decompressAmount_overflow hmax hdigit (by omega) heq
    · intro hcond
      apply decompressAmount_of_fits hn
      obtain ⟨hvalue, -, -⟩ := stripZeros_spec 9 n
      by_cases hdigit : n.toNat % 10 = 0
      · apply compressed_lt (hvalue ▸ hmax)
        by_contra hzero
        have he : (stripZeros 9 n).2 = 0 := by omega
        have hn10 : n % 10 = 0 := UInt64.toNat_inj.mp (by simpa using hdigit)
        rw [stripZeros, if_pos hn10] at he
        cases he
      · have hsmall := hcond.resolve_left hdigit
        rw [compressed_of_digit hdigit]
        omega

theorem varIntBytes_eq (left : Nat) (n : UInt64) (tmp : Bytes) :
    varIntBytes left n tmp = fill left n.toNat tmp := by
  induction left generalizing n tmp with
  | zero => rfl
  | succ left ih =>
    have hbyte : (n &&& 0x7f).toUInt8 ||| (if tmp.isEmpty then 0 else 0x80) =
        byteOf n.toNat (!tmp.isEmpty) := by
      apply UInt8.toNat_inj.mp
      rw [byteOf, UInt8.toNat_or, UInt64.toNat_toUInt8, UInt64.toNat_and, UInt8.toNat_ofNat',
        or_mod_two_pow]
      cases tmp.isEmpty <;> rfl
    simp only [varIntBytes, fill, hbyte]
    by_cases hlast : n ≤ 0x7f
    · have hsmall : n.toNat ≤ 0x7f := UInt64.le_iff_toNat_le.mp hlast
      rw [if_pos hlast, if_pos hsmall]
    · have hlarge : ¬n.toNat ≤ 0x7f := fun h => hlast (UInt64.le_iff_toNat_le.mpr h)
      have hnext : ((n >>> 7) - 1).toNat = (n.toNat >>> 7) - 1 := by
        have hn := n.toNat_lt
        rw [UInt64.toNat_sub, UInt64.toNat_shiftRight]
        simp only [UInt64.reduceToNat, reduceMod, shiftRight_eq_div_pow]
        omega
      rw [if_neg hlast, if_neg hlarge, ih, hnext]

theorem readVarIntFrom_eq (n : UInt64) (s : Bytes) :
    readVarIntFrom n s = (readFrom 64 n.toNat s).map fun r => (UInt64.ofNat r.1, r.2) := by
  induction s generalizing n with
  | nil => rfl
  | cons c s ih =>
    have hlimit : n > (0xffffffffffffffff : UInt64) >>> 7 ↔ n.toNat > (2 ^ 64 - 1) >>> 7 :=
      UInt64.lt_iff_toNat_lt
    have hjoin : ((n <<< 7) ||| (c &&& 0x7f).toUInt64).toNat =
        ((n.toNat <<< 7) ||| (c.toNat &&& 0x7f)) % 2 ^ 64 := by
      rw [UInt64.toNat_or, UInt64.toNat_shiftLeft, UInt8.toNat_toUInt64, UInt8.toNat_and,
        or_mod_two_pow]
      have hlow : c.toNat &&& 0x7f < 2 ^ 64 := and_lt_two_pow _ (by decide)
      rw [mod_eq_of_lt hlow]
      rfl
    have hmore : c &&& 0x80 ≠ 0 ↔ c.toNat &&& 0x80 ≠ 0 := by
      rw [ne_eq, ← UInt8.toNat_inj, UInt8.toNat_and]
      rfl
    simp only [readVarIntFrom, readFrom, hlimit, hmore, ← hjoin]
    generalize (n <<< 7) ||| (c &&& 0x7f).toUInt64 = m
    have hmax : m = 0xffffffffffffffff ↔ m.toNat = 2 ^ 64 - 1 := UInt64.toNat_inj.symm
    simp only [hmax]
    split
    · rfl
    · split
      · split
        · rfl
        · rw [ih, UInt64.toNat_add]
          rfl
      · simp

theorem readVarInt_writeVarInt (n : UInt64) (rest : Bytes) :
    readVarInt (writeVarInt n ++ rest) = some (n, rest) := by
  have hread : VarInt.readFrom 64 0 (VarInt.fill 10 n.toNat [] ++ rest) = some (n.toNat, rest) :=
    VarInt.readVarInt_writeVarInt (by decide) n.toNat_lt rest
  rw [readVarInt, readVarIntFrom_eq, writeVarInt, varIntBytes_eq, UInt64.toNat_zero, hread]
  simp

theorem readValue_of_readVarInt {s rest : Bytes} (h : readVarInt s = some (x, rest)) :
    readValue s = some (int64 (decompressAmount x).toNat, rest) := by
  simp only [readValue, bind, StateT.bind, h]
  rfl

/-- An amount of money survives the coin database unless its number is too large for the word,
which takes more than 2.04e18 base units and a last digit. -/
theorem amount_survives_iff (n : CAmount) (hn : moneyRange n = true) (rest : Bytes) :
    (decompressAmount (compressAmount (UInt64.ofInt n)) = UInt64.ofInt n ↔
        n % 10 = 0 ∨ 9 * n + n % 10 < 2 ^ 64 + 9) ∧
      (readValue (writeValue n ++ rest) = some (n, rest) ↔
        n % 10 = 0 ∨ 9 * n + n % 10 < 2 ^ 64 + 9) := by
  simp only [moneyRange, Bool.and_eq_true, decide_eq_true_eq] at hn
  obtain ⟨hzero, hmoney⟩ := hn
  have hlimit : maxMoney = 2100000000000000000 := by decide
  rw [hlimit] at hmoney
  lift n to Nat using hzero
  have hmax : n ≤ 2100000000000000000 := by exact_mod_cast hmoney
  have hword : (UInt64.ofInt n).toNat = n := by
    rw [UInt64.ofInt, UInt64.toNat_ofNat']
    omega
  have hiff := decompressAmount_iff (hword.symm ▸ hmax : (UInt64.ofInt n).toNat ≤ 2100000000000000000)
  rw [hword] at hiff
  have hcond : ((n : Int) % 10 = 0 ∨ 9 * (n : Int) + n % 10 < 2 ^ 64 + 9) ↔
      (n % 10 = 0 ∨ 9 * n + n % 10 < 2 ^ 64 + 9) := by omega
  rw [hcond]
  refine ⟨hiff, ?_⟩
  have hread : readValue (writeValue n ++ rest) =
      some (int64 (decompressAmount (compressAmount (UInt64.ofInt n))).toNat, rest) :=
    readValue_of_readVarInt (readVarInt_writeVarInt _ rest)
  rw [hread, ← hiff, ← UInt64.toNat_inj, hword]
  have hlt := (decompressAmount (compressAmount (UInt64.ofInt n))).toNat_lt
  generalize (decompressAmount (compressAmount (UInt64.ofInt n))).toNat = k at hlt
  constructor
  · intro h
    have hk : int64 k = n := (Prod.mk.inj (Option.some.inj h)).1
    rw [int64, Int.bmod_def] at hk
    omega
  · rintro rfl
    have hk : int64 k = k := by
      rw [int64, Int.bmod_def]
      omega
    rw [hk]

theorem one_coin_survives :
    moneyRange coin = true ∧ readValue (writeValue coin) = some (coin, []) := by
  have h := (amount_survives_iff coin (by decide) []).2.mpr (.inl (by decide))
  exact ⟨by decide, by simpa using h⟩

/-- Twenty-one billion coins less one base unit come back as another amount. -/
theorem largest_amount_lost :
    moneyRange (maxMoney - 1) = true ∧
      decompressAmount (compressAmount (UInt64.ofInt (maxMoney - 1))) ≠
        UInt64.ofInt (maxMoney - 1) ∧
      (readValue (writeValue (maxMoney - 1))).map Prod.fst = some 5555605888118076368 := by
  decide +kernel

end HnbCore
