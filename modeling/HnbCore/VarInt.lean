import HnbCore.Bytes

/-!
# Variable length integers

`WriteVarInt` and `ReadVarInt` for an unsigned type of `w` bits. Every byte but the last carries one
more than its seven bits say, which leaves each number a single encoding.
-/

namespace HnbCore

open Nat

namespace VarInt

/-- The byte for the low bits of a number; more bytes follow all but the last. -/
def byteOf (n : Nat) (more : Bool) : UInt8 := UInt8.ofNat ((n &&& 0x7f) ||| if more then 0x80 else 0)

/-- The loop of `WriteVarInt`, which fills its buffer from the end; `tmp` is what it has so far. -/
def fill : Nat → Nat → Bytes → Bytes
  | 0, _, tmp => tmp
  | left + 1, n, tmp =>
      let tmp' := byteOf n (!tmp.isEmpty) :: tmp
      if n ≤ 0x7f then tmp' else fill left ((n >>> 7) - 1) tmp'

/-- The buffer of `WriteVarInt` has room for seven bits a byte. -/
def writeVarInt (w n : Nat) : Bytes := fill ((w + 6) / 7) n []

/-- The loop of `ReadVarInt`; the end of the stream and a number of more than `w` bits fail. -/
def readFrom (w n : Nat) : Bytes → Option (Nat × Bytes)
  | [] => none
  | chData :: rest =>
      if n > (2 ^ w - 1) >>> 7 then none
      else
        let n := ((n <<< 7) ||| (chData.toNat &&& 0x7f)) % 2 ^ w
        if chData.toNat &&& 0x80 ≠ 0 then
          if n = 2 ^ w - 1 then none else readFrom w ((n + 1) % 2 ^ w) rest
        else some (n, rest)

def readVarInt (w : Nat) : Reader Nat := readFrom w 0

variable {w n m left v : Nat} {c : UInt8} {s tmp bs rest : Bytes}

theorem toNat_byteOf (n : Nat) (more : Bool) :
    (byteOf n more).toNat = n % 128 + if more then 128 else 0 := by
  have hlow : n &&& 0x7f = n % 128 := and_two_pow_sub_one_eq_mod n 7
  have hall : ∀ (i : Fin 128) (more : Bool), (UInt8.ofNat (i ||| if more then 0x80 else 0)).toNat =
      i + if more then 128 else 0 := by decide +kernel
  rw [byteOf, hlow]
  exact hall ⟨n % 128, by omega⟩ more

theorem and_high (c : UInt8) : c.toNat &&& 0x80 ≠ 0 ↔ 128 ≤ c.toNat := by
  have hall : ∀ i : Fin 256, (i : Nat) &&& 0x80 ≠ 0 ↔ 128 ≤ (i : Nat) := by decide +kernel
  exact hall c.toFin

/-- The reader without a limit. -/
def value (n : Nat) : Bytes → Option (Nat × Bytes)
  | [] => none
  | chData :: rest =>
      let n := n * 128 + chData.toNat % 128
      if 128 ≤ chData.toNat then value (n + 1) rest else some (n, rest)

theorem le_value (h : value n s = some (v, rest)) : n * 128 ≤ v := by
  induction s generalizing n with
  | nil => cases h
  | cons c s ih =>
    rw [value] at h
    split at h
    · have hle := ih h
      omega
    · obtain ⟨rfl, -⟩ := Prod.mk.inj (Option.some.inj h)
      omega

theorem value_too_large (h : 2 ^ w ≤ n * 128) (s : Bytes) :
    ((value n s).filter fun found => found.1 < 2 ^ w) = none := by
  cases hvalue : value n s with
  | none => rfl
  | some found =>
    have hle := le_value hvalue
    simp only [Option.filter_some, decide_eq_true_eq]
    rw [if_neg (by omega)]

/-- The limits of the reader refuse exactly the numbers that do not fit. -/
theorem readFrom_eq (hw : 8 ≤ w) (s : Bytes) (hn : n < 2 ^ w) :
    readFrom w n s = (value n s).filter fun found => found.1 < 2 ^ w := by
  obtain ⟨k, hpow⟩ : ∃ k, 2 ^ w = 128 * k := pow_dvd_pow 2 (by omega : 7 ≤ w)
  induction s generalizing n with
  | nil => rfl
  | cons c s ih =>
    have hlow : c.toNat &&& 0x7f = c.toNat % 128 := and_two_pow_sub_one_eq_mod _ 7
    have hjoin : n <<< 7 ||| c.toNat % 128 = n * 128 + c.toNat % 128 := by
      rw [← shiftLeft_add_eq_or_of_lt (mod_lt _ (by decide)), shiftLeft_eq]
    rw [readFrom, shiftRight_eq_div_pow]
    split
    · exact (value_too_large (by omega) _).symm
    · simp only [hlow, hjoin, and_high, value]
      rw [mod_eq_of_lt (by omega)]
      split
      · split
        · -- the number would go on from one past the largest
          exact (value_too_large (by omega) _).symm
        · rw [mod_eq_of_lt (by omega)]
          exact ih (by omega)
      · simp only [Option.filter_some, decide_eq_true_eq]
        rw [if_pos (by omega)]

/-- The byte for a number, read when the bits above it are there. -/
theorem value_byteOf (n : Nat) (more : Bool) (s : Bytes) :
    value (n / 128) (byteOf n more :: s) = if more then value (n + 1) s else some (n, s) := by
  have hn : n / 128 * 128 + (byteOf n more).toNat % 128 = n := by
    rw [toNat_byteOf]
    split <;> omega
  rw [value, hn, toNat_byteOf]
  cases more with
  | false => rw [if_neg (by simp; omega), if_neg (by simp)]
  | true => rw [if_pos (by simp), if_pos rfl]

/-- What is written in front of `tmp` is read before `tmp`, and leaves the number one higher where
more bytes follow. -/
theorem value_fill (hroom : n < 128 ^ (left + 1)) (rest : Bytes) :
    value 0 (fill (left + 1) n tmp ++ rest) =
      if !tmp.isEmpty then value (n + 1) (tmp ++ rest) else some (n, tmp ++ rest) := by
  have hlast : ∀ {n tmp}, n ≤ 127 → value 0 (byteOf n (!tmp.isEmpty) :: (tmp ++ rest)) =
      if !tmp.isEmpty then value (n + 1) (tmp ++ rest) else some (n, tmp ++ rest) := by
    intro n tmp hle
    rw [← value_byteOf, div_eq_of_lt (by omega)]
  induction left generalizing n tmp with
  | zero =>
    rw [fill, if_pos (by omega)]
    exact hlast (by omega)
  | succ left ih =>
    rw [fill]
    split
    · exact hlast ‹_›
    · have hshift : n >>> 7 = n / 128 := shiftRight_eq_div_pow n 7
      rw [pow_succ] at hroom
      rw [hshift, ih (by omega), if_pos (by simp), Nat.sub_add_cancel (by omega)]
      exact value_byteOf n _ _

/-- The writer goes back over the bytes that were read. -/
theorem fill_of_value (h : value m s = some (v, rest)) :
    ∃ bs, bs ≠ [] ∧ s = bs ++ rest ∧ ∀ left,
      fill (left + bs.length) v [] = if m = 0 then bs else fill left (m - 1) bs := by
  induction s generalizing m with
  | nil => cases h
  | cons c s ih =>
    have hstep : ∀ left tmp, (128 ≤ c.toNat ↔ tmp ≠ []) →
        fill (left + 1) (m * 128 + c.toNat % 128) tmp =
          if m = 0 then c :: tmp else fill left (m - 1) (c :: tmp) := by
      intro left tmp hmore
      have hbyte : byteOf (m * 128 + c.toNat % 128) (!tmp.isEmpty) = c := by
        have hc := c.toNat_lt
        apply UInt8.toNat_inj.mp
        rw [toNat_byteOf]
        cases tmp with
        | nil => simp_all
        | cons b tmp => simp_all; omega
      have hshift : (m * 128 + c.toNat % 128) >>> 7 = m := by
        rw [shiftRight_eq_div_pow]
        omega
      simp only [fill, hbyte, hshift]
      by_cases hm : m = 0
      · rw [if_pos (by omega), if_pos hm]
      · rw [if_neg (by omega), if_neg hm]
    rw [value] at h
    split at h
    case isTrue hmore =>
      obtain ⟨bs, hne, rfl, hfill⟩ := ih h
      refine ⟨c :: bs, by simp, rfl, fun left => ?_⟩
      have hrest := hfill (left + 1)
      rw [if_neg (by omega), Nat.add_sub_cancel, hstep left bs (iff_of_true hmore hne)] at hrest
      rw [← hrest, List.length_cons, Nat.add_right_comm]
      rfl
    case isFalse hmore =>
      obtain ⟨rfl, rfl⟩ := Prod.mk.inj (Option.some.inj h)
      refine ⟨[c], by simp, rfl, fun left => ?_⟩
      exact hstep left [] (iff_of_false hmore (by simp))

theorem value_writeVarInt (hw : 0 < w) (hn : n < 2 ^ w) (rest : Bytes) :
    value 0 (writeVarInt w n ++ rest) = some (n, rest) := by
  obtain ⟨k, hk⟩ : ∃ k, (w + 6) / 7 = k + 1 := ⟨(w + 6) / 7 - 1, by omega⟩
  have hroom : n < 128 ^ (k + 1) := by
    refine hn.trans_le ?_
    rw [← Nat.pow_mul 2 7 (k + 1)]
    exact Nat.pow_le_pow_right (by omega) (by omega)
  have hread := @value_fill n k [] hroom rest
  rw [writeVarInt, hk]
  simpa using hread

/-- Two readings of a number took the same bytes. -/
theorem value_unique {s' rest' : Bytes} (h : value 0 s = some (v, rest))
    (h' : value 0 s' = some (v, rest')) : ∃ bs, s = bs ++ rest ∧ s' = bs ++ rest' := by
  obtain ⟨bs, -, rfl, hfill⟩ := fill_of_value h
  obtain ⟨bs', -, rfl, hfill'⟩ := fill_of_value h'
  have hbs := hfill bs'.length
  rw [if_pos rfl] at hbs
  have hbs' := hfill' bs.length
  rw [if_pos rfl, add_comm, hbs] at hbs'
  exact ⟨bs, rfl, by rw [hbs']⟩

theorem readVarInt_eq (hw : 8 ≤ w) (s : Bytes) :
    readVarInt w s = (value 0 s).filter fun found => found.1 < 2 ^ w :=
  readFrom_eq hw s (Nat.two_pow_pos w)

theorem readVarInt_writeVarInt (hw : 8 ≤ w) (hn : n < 2 ^ w) (rest : Bytes) :
    readVarInt w (writeVarInt w n ++ rest) = some (n, rest) := by
  rw [readVarInt_eq hw, value_writeVarInt (by omega) hn]
  simp [hn]

/-- `ReadVarInt` inverts `WriteVarInt` and is inverted by it, for every unsigned type: what is
read is what the number read is written as, and the encoding of a number that is too large for the
type, as a wider type writes it, is refused. -/
theorem varInt_round_trip (w : Nat) (hw : 8 ≤ w) :
    (∀ n < 2 ^ w, ∀ rest, readVarInt w (writeVarInt w n ++ rest) = some (n, rest)) ∧
    (∀ s n rest, readVarInt w s = some (n, rest) → n < 2 ^ w ∧ s = writeVarInt w n ++ rest) ∧
    ∀ wide n, n < 2 ^ wide → 2 ^ w ≤ n → ∀ rest,
      readVarInt w (writeVarInt wide n ++ rest) = none := by
  refine ⟨fun n hn => readVarInt_writeVarInt hw hn, fun s n rest h => ?_,
    fun wide n hn hle rest => ?_⟩
  · rw [readVarInt_eq hw, Option.filter_eq_some_iff] at h
    obtain ⟨hvalue, hfits⟩ := h
    have hn : n < 2 ^ w := of_decide_eq_true hfits
    obtain ⟨bs, hs, hbs⟩ := value_unique hvalue (value_writeVarInt (by omega) hn [])
    rw [List.append_nil, List.append_nil] at hbs
    exact ⟨hn, by rw [hs, hbs]⟩
  · have hwide : 0 < wide := (Nat.pow_lt_pow_iff_right (by omega)).mp (hle.trans_lt hn) |>.pos
    rw [readVarInt_eq hw, value_writeVarInt hwide hn]
    simp [hle]

/-- 2^32, which a 64-bit type writes, is refused by a 32-bit type. -/
theorem too_large_refused : 8 ≤ 32 ∧ writeVarInt 64 (2 ^ 32) = [0x8e, 0xfe, 0xfe, 0xff, 0x00] ∧
    readVarInt 32 (writeVarInt 64 (2 ^ 32) ++ []) = none :=
  ⟨by decide, by decide +kernel,
    (varInt_round_trip 32 (by decide)).2.2 64 (2 ^ 32) (by decide) le_rfl []⟩

end VarInt

end HnbCore
