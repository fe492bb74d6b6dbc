import HnbCore.ScriptNum

/-!
# The encoding of script numbers

A number is written as the bytes of its absolute value, lowest first, with the sign in the high bit
of the last byte, or in a byte of its own where that bit is taken. Under the test for minimality
every number has one encoding, which is the one `serialize` writes.
-/

namespace HnbCore

open Checks List UInt8

variable {n size nMaxNumSize : Nat} {init vch : Bytes} {b c : UInt8} {neg : Bool} {value : Int}

theorem leNat_append (bs bs' : Bytes) :
    leNat (bs ++ bs') = leNat bs + 256 ^ bs.length * leNat bs' := by
  induction bs with
  | nil => simp [leNat]
  | cons b bs ih =>
    rw [cons_append, leNat, ih, leNat, length_cons, pow_succ]
    ring

theorem leNat_lt (bs : Bytes) : leNat bs < 256 ^ bs.length := by
  induction bs with
  | nil => simp [leNat]
  | cons b bs ih =>
    have hb := b.toNat_lt
    rw [leNat, length_cons, pow_succ]
    omega

theorem leNat_snoc (init : Bytes) (c : UInt8) :
    leNat (init ++ [c]) = leNat init + 256 ^ init.length * c.toNat := by
  simp [leNat_append, leNat]

theorem toNat_pos (hc : c ≠ 0) : 0 < c.toNat :=
  Nat.pos_of_ne_zero fun h => hc (UInt8.toNat_inj.mp h)

theorem leNat_snoc_pos (init : Bytes) (hc : c ≠ 0) : 0 < leNat (init ++ [c]) := by
  have := Nat.mul_pos (Nat.pow_pos (n := init.length) (show 0 < 256 by decide)) (toNat_pos hc)
  rw [leNat_snoc]
  omega

/-- The digits of a number are its bytes, where there is no zero at the high end. -/
theorem digitsBE_leNat (hc : c ≠ 0) (hsize : init.length < size) (acc : List Nat) :
    digitsBE 256 size (leNat (init ++ [c])) acc = (init ++ [c]).reverse.map (·.toNat) ++ acc := by
  induction init generalizing size acc with
  | nil =>
    obtain ⟨size, rfl⟩ := Nat.exists_eq_add_of_lt hsize
    have hpos := toNat_pos hc
    have hlt := c.toNat_lt
    have hdiv : (c.toNat + 256 * 0) / 256 = 0 := by omega
    rw [nil_append, leNat, leNat, digitsBE, if_neg (by omega), hdiv]
    cases size <;> simp [digitsBE]
  | cons b init ih =>
    rw [length_cons] at hsize
    obtain ⟨size, rfl⟩ := Nat.exists_eq_add_of_lt hsize
    have hb := b.toNat_lt
    have hpos := leNat_snoc_pos init hc
    rw [cons_append, leNat, digitsBE, if_neg (by omega), Nat.add_mul_div_left _ _ (by decide),
      Nat.div_eq_of_lt hb, Nat.zero_add, Nat.add_mul_mod_self_left, Nat.mod_eq_of_lt hb,
      ih (by omega)]
    simp

theorem exists_bytes (hn : n ≠ 0) (h : n < 256 ^ size) :
    ∃ init c, c ≠ 0 ∧ init.length < size ∧ leNat (init ++ [c]) = n := by
  induction size generalizing n with
  | zero => omega
  | succ size ih =>
    by_cases hdiv : n / 256 = 0
    · have hbyte : (ofNat n).toNat = n := by simp; omega
      refine ⟨[], ofNat n, ?_, by simp, by simp [leNat, hbyte]⟩
      rintro heq
      rw [heq] at hbyte
      exact hn hbyte.symm
    · obtain ⟨init, c, hc, hlen, hvalue⟩ := ih hdiv (by rw [pow_succ] at h; omega)
      refine ⟨ofNat (n % 256) :: init, c, hc, by simpa using hlen, ?_⟩
      rw [cons_append, leNat, hvalue]
      simp
      omega

def signBit (neg : Bool) : UInt8 := if neg then 0x80 else 0

def signed (neg : Bool) (n : Nat) : Int := if neg then -n else n

theorem forall_byte {p : UInt8 → Prop} (h : ∀ i : Fin 256, p (ofFin i)) (b : UInt8) : p b :=
  h b.toFin

/-- A byte is its low seven bits and its high bit. -/
theorem byte_parts : ∀ b : UInt8,
    b.toNat = (b &&& 0x7f).toNat + (if b &&& 0x80 ≠ 0 then 128 else 0) ∧
      (b &&& 0x7f) ||| signBit (b &&& 0x80 ≠ 0) = b ∧ b &&& 0x7f &&& 0x80 = 0 :=
  forall_byte (by decide +kernel)

theorem or_signBit : ∀ c : UInt8, c &&& 0x80 = 0 → ∀ neg,
    (c ||| signBit neg) &&& 0x7f = c ∧ ((c ||| signBit neg) &&& 0x80 ≠ 0 ↔ neg = true) :=
  forall_byte (by decide +kernel)

theorem setVch_snoc (init : Bytes) (b : UInt8) :
    setVch (init ++ [b]) =
      signed (b &&& 0x80 ≠ 0) (leNat init + 256 ^ init.length * (b &&& 0x7f).toNat) := by
  rw [setVch, leNat_snoc, (byte_parts b).1, getLastD_concat]
  by_cases hhigh : b &&& 0x80 ≠ 0
  · rw [if_pos hhigh, if_pos hhigh, signed, if_pos (decide_eq_true hhigh), length_append,
      length_singleton, Nat.add_sub_cancel]
    push_cast
    ring
  · rw [if_neg hhigh, if_neg hhigh, signed, if_neg (by simpa using hhigh), Nat.add_zero]

/-- What the test for minimality asks of the last two bytes. -/
theorem scriptNum_snoc :
    scriptNum (init ++ [b]) true nMaxNumSize = .ok value ↔
      (init ++ [b]).length ≤ nMaxNumSize ∧
        (b &&& 0x7f ≠ 0 ∨ ∃ init' c, init = init' ++ [c] ∧ c &&& 0x80 ≠ 0) ∧
        setVch (init ++ [b]) = value := by
  have hlast : (b &&& 0x7f ≠ 0 ∨ ∃ init' c, init = init' ++ [c] ∧ c &&& 0x80 ≠ 0) ↔
      ¬(b &&& 0x7f = 0 ∧ (init = [] ∨ (init ++ [b]).getD (init.length - 1) 0 &&& 0x80 = 0)) := by
    rcases eq_nil_or_concat' init with rfl | ⟨init, c, rfl⟩
    · simp
    · simp [or_iff_not_imp_left]
  simp only [hlast, scriptNum, bind_eq_ok, ensure_eq_ok, pure_eq_ok]
  simp [imp_iff_not_or]

/-- The encoding of the bytes `init ++ [c]` with a sign. -/
def encodeSigned (init : Bytes) (c : UInt8) (neg : Bool) : Bytes :=
  if c &&& 0x80 ≠ 0 then init ++ [c] ++ [signBit neg] else init ++ [c ||| signBit neg]

/-- The strings that pass are the encodings of bytes without a zero at the high end. -/
theorem scriptNum_iff (hvch : vch ≠ []) :
    scriptNum vch true nMaxNumSize = .ok value ↔ vch.length ≤ nMaxNumSize ∧
      ∃ init c neg, c ≠ 0 ∧ vch = encodeSigned init c neg ∧
        value = signed neg (leNat (init ++ [c])) := by
  constructor
  · intro h
    obtain ⟨init, b, rfl⟩ := (eq_nil_or_concat' vch).resolve_left hvch
    obtain ⟨hlen, hmin, rfl⟩ := scriptNum_snoc.mp h
    obtain ⟨-, hparts, hlow⟩ := byte_parts b
    refine ⟨hlen, ?_⟩
    rw [setVch_snoc]
    by_cases hb : b &&& 0x7f = 0
    · obtain ⟨init, c, rfl, hc⟩ := hmin.resolve_left (by simpa using hb)
      refine ⟨init, c, b &&& 0x80 ≠ 0, ?_, ?_, by simp [hb]⟩
      · rintro rfl
        simp at hc
      · rw [hb, UInt8.zero_or] at hparts
        rw [encodeSigned, if_pos hc, hparts]
    · refine ⟨init, b &&& 0x7f, b &&& 0x80 ≠ 0, hb, ?_, by rw [leNat_snoc]⟩
      rw [encodeSigned, if_neg (by simpa using hlow), hparts]
  · rintro ⟨hlen, init, c, neg, hc, rfl, rfl⟩
    unfold encodeSigned at hlen ⊢
    split at hlen
    · rename_i hhigh
      rw [if_pos hhigh, scriptNum_snoc, setVch_snoc]
      refine ⟨hlen, .inr ⟨init, c, rfl, hhigh⟩, ?_⟩
      cases neg <;> simp [signBit]
    · rename_i hhigh
      obtain ⟨hor, hneg⟩ := or_signBit c (by simpa using hhigh) neg
      rw [if_neg hhigh, scriptNum_snoc, setVch_snoc, hor, leNat_snoc]
      exact ⟨hlen, .inl hc, by simp only [hneg, Bool.decide_eq_true]⟩

theorem serializeNum_signed (neg : Bool) (hc : c ≠ 0) (hlen : init.length < 8) :
    serializeNum (signed neg (leNat (init ++ [c]))) = encodeSigned init c neg := by
  have hpos := leNat_snoc_pos init hc
  have hbytes : (digitsBE 256 8 (leNat (init ++ [c])) []).reverse.map ofNat = init ++ [c] := by
    rw [digitsBE_leNat hc hlen]
    simp [Function.comp_def]
  unfold serializeNum encodeSigned
  cases neg with
  | false =>
    have hvalue : signed false (leNat (init ++ [c])) = leNat (init ++ [c]) := rfl
    have hneg : ¬(leNat (init ++ [c]) : Int) < 0 := by omega
    rw [hvalue, if_neg (by omega), Int.natAbs_natCast, hbytes]
    simp [signBit, hneg]
  | true =>
    have hvalue : signed true (leNat (init ++ [c])) = -leNat (init ++ [c]) := rfl
    rw [hvalue, if_neg (by omega), Int.natAbs_neg, Int.natAbs_natCast, hbytes]
    simp [signBit, hpos]

/-- Eight bytes hold the numbers of 63 bits and a sign. -/
theorem length_encodeSigned (neg : Bool) (hc : c ≠ 0) :
    (encodeSigned init c neg).length ≤ 8 ↔ leNat (init ++ [c]) < 2 ^ 63 := by
  have hlow := leNat_lt init
  have hvalue := leNat_lt (init ++ [c])
  have hhigh : ∀ c : UInt8, c &&& 0x80 ≠ 0 ↔ 128 ≤ c.toNat := forall_byte (by decide +kernel)
  have hlength : (encodeSigned init c neg).length =
      init.length + if 128 ≤ c.toNat then 2 else 1 := by
    rw [encodeSigned]
    split <;> simp_all
  rw [leNat_snoc] at hvalue ⊢
  rw [length_append, length_singleton] at hvalue
  rw [hlength]
  rcases Nat.lt_trichotomy init.length 7 with hlen | hlen | hlen
  · have := Nat.pow_le_pow_right (n := 256) (by decide) (show init.length + 1 ≤ 7 by omega)
    split <;> omega
  · rw [hlen] at hlow ⊢
    split <;> omega
  · have := Nat.pow_le_pow_right (n := 256) (by decide) (show 8 ≤ init.length by omega)
    have := Nat.le_mul_of_pos_right (256 ^ init.length) (toNat_pos hc)
    split <;> omega

/-- The limit and the test only refuse. -/
theorem scriptNum_weaken {size' : Nat} (h : scriptNum vch true size = .ok value)
    (hsize : vch.length ≤ size → vch.length ≤ size') (fRequireMinimal : Bool) :
    scriptNum vch fRequireMinimal size' = .ok value := by
  simp only [scriptNum, bind_eq_ok, ensure_eq_ok, pure_eq_ok] at h ⊢
  obtain ⟨_, hlen, _, hmin, hvalue⟩ := h
  refine ⟨(), decide_eq_true (hsize (of_decide_eq_true hlen)), (), ?_, hvalue⟩
  cases fRequireMinimal with
  | true => exact hmin
  | false => rfl

theorem scriptNum_serializeNum (h : value.natAbs < 2 ^ 63) :
    scriptNum (serializeNum value) true 8 = .ok value := by
  by_cases hn : value = 0
  · rw [hn]
    rfl
  · obtain ⟨init, c, hc, hlen, hvalue⟩ := exists_bytes (Int.natAbs_ne_zero.mpr hn)
      (show value.natAbs < 256 ^ 8 by omega)
    obtain ⟨neg, rfl⟩ : ∃ neg, value = signed neg (leNat (init ++ [c])) := by
      rcases Int.natAbs_eq value with heq | heq
      · exact ⟨false, by rw [hvalue]; exact heq⟩
      · exact ⟨true, by rw [hvalue]; exact heq⟩
    rw [← hvalue, ← length_encodeSigned neg hc] at h
    rw [serializeNum_signed neg hc hlen, scriptNum_iff]
    · exact ⟨h, init, c, neg, hc, rfl, rfl⟩
    · unfold encodeSigned
      split <;> simp

theorem serializeNum_of_scriptNum (hsize : nMaxNumSize ≤ 8)
    (h : scriptNum vch true nMaxNumSize = .ok value) :
    value.natAbs < 2 ^ 63 ∧ serializeNum value = vch := by
  by_cases hvch : vch = []
  · subst hvch
    cases h
    exact ⟨by decide, rfl⟩
  · obtain ⟨hlen, init, c, neg, hc, rfl, rfl⟩ := (scriptNum_iff hvch).mp h
    have hvalue := (length_encodeSigned neg hc).mp (hlen.trans hsize)
    refine ⟨?_, serializeNum_signed neg hc ?_⟩
    · cases neg <;> simpa [signed] using hvalue
    · unfold encodeSigned at hlen
      split at hlen <;> simp at hlen <;> omega

/-- Every number below 2^63 has one minimal encoding, the one `serialize` writes, and every minimal
encoding of at most eight bytes is one of these. -/
theorem script_number_encoding :
    (∀ (n : Int) (fRequireMinimal : Bool), n.natAbs < 2 ^ 63 →
      scriptNum (serializeNum n) fRequireMinimal 8 = .ok n) ∧
    ∀ nMaxNumSize ≤ 8, ∀ vch,
      (∀ n, scriptNum vch true nMaxNumSize = .ok n → serializeNum n = vch ∧
        ∀ vch', scriptNum vch' true nMaxNumSize = .ok n → vch' = vch) ∧
      (vch.length ≤ nMaxNumSize → ((∃ n, scriptNum vch true nMaxNumSize = .ok n) ↔
        ∃ n : Int, n.natAbs < 2 ^ 63 ∧ serializeNum n = vch)) := by
  refine ⟨?_, fun nMaxNumSize hsize vch => ⟨?_, ?_⟩⟩
  · intro n fRequireMinimal hn
    exact scriptNum_weaken (scriptNum_serializeNum hn) id fRequireMinimal
  · intro n h
    have hvch := (serializeNum_of_scriptNum hsize h).2
    refine ⟨hvch, fun vch' h' => ?_⟩
    rw [← hvch, (serializeNum_of_scriptNum hsize h').2]
  · intro hlen
    constructor
    · rintro ⟨n, h⟩
      exact ⟨n, serializeNum_of_scriptNum hsize h⟩
    · rintro ⟨n, hn, rfl⟩
      exact ⟨n, scriptNum_weaken (scriptNum_serializeNum hn) (fun _ => hlen) true⟩

/-- The sign of -255 has a byte of its own. -/
theorem minus_255_encoded :
    scriptNum [0xff, 0x80] true 2 = .ok (-255) ∧ serializeNum (-255) = [0xff, 0x80] := by
  have h : scriptNum [0xff, 0x80] true 2 = .ok (-255) := by decide +kernel
  exact ⟨h, ((script_number_encoding.2 2 (by decide) [0xff, 0x80]).1 (-255) h).1⟩

end HnbCore
