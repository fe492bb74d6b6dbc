import HnbCore.Transaction

/-!
# Fee rates

`CFeeRate` keeps a fee per thousand bytes. The product of the fee and one thousand is formed in 64
bits, which the largest fees leave: `MAX_MONEY` is more than two hundred times too large for it.
-/

namespace HnbCore

open Int

/-- Blocks are no larger than `MAX_BLOCK_SERIALIZED_SIZE_RIP2`. -/
def maxBlockSerializedSize : Nat := 8000000

structure CFeeRate where
  nSatoshisPerK : CAmount
  deriving DecidableEq, Repr

open CFeeRate

namespace CFeeRate

def ofPaid (nFeePaid : CAmount) (nBytes : Nat) : CFeeRate :=
  ⟨if 0 < nBytes then (int64 (nFeePaid * 1000)).tdiv nBytes else 0⟩

def getFee (rate : CFeeRate) (nBytes : Nat) : CAmount :=
  let nFee := (int64 (rate.nSatoshisPerK * nBytes)).tdiv 1000
  if nFee = 0 ∧ nBytes ≠ 0 then
    if rate.nSatoshisPerK > 0 then 1 else if rate.nSatoshisPerK < 0 then -1 else nFee
  else nFee

variable {f f' : Int} {s s' : Nat}

theorem int64_of_lt {x : Int} (h0 : 0 ≤ x) (h : x < 2 ^ 63) : int64 x = x := by
  rw [int64, bmod_def]
  omega

theorem ofPaid_exact (h0 : 0 ≤ f) (hfits : f * 1000 < 2 ^ 63) (hs : 0 < s) :
    (ofPaid f s).nSatoshisPerK = f * 1000 / s := by
  have hword : int64 (f * 1000) = f * 1000 := int64_of_lt (by omega) hfits
  simp only [ofPaid, if_pos hs, hword]
  exact tdiv_eq_ediv_of_nonneg (by omega)

/-- A product that leaves 64 bits falls short by more than any size. -/
theorem ofPaid_wrapped (hlarge : 2 ^ 63 ≤ f * 1000) (hs : 0 < s)
    (hmax : s ≤ maxBlockSerializedSize) : (ofPaid f s).nSatoshisPerK < f * 1000 / s := by
  have hsize : (s : Int) ≤ 8000000 := Int.ofNat_le.mpr hmax
  have hpos : (0 : Int) < s := Int.ofNat_lt.mpr hs
  have hword : int64 (f * 1000) ≤ f * 1000 - s := by
    rw [int64, bmod_def]
    omega
  have hstep := add_mul_ediv_right (f * 1000 - s) 1 hpos.ne'
  rw [one_mul, Int.sub_add_cancel] at hstep
  have hle := Int.tdiv_le_tdiv hpos hword
  rw [@Int.tdiv_eq_ediv_of_nonneg (f * 1000 - s) s (by omega)] at hle
  simp only [ofPaid, if_pos hs]
  exact Int.lt_of_le_of_lt hle (by omega)

theorem getFee_le (h0 : 0 ≤ f) (hfits : f * 1000 < 2 ^ 63) (hs : 0 < s) :
    getFee (ofPaid f s) s ≤ f := by
  have hpos : (0 : Int) < s := Int.ofNat_lt.mpr hs
  have hrate := ofPaid_exact h0 hfits hs
  have hle := Int.ediv_mul_le (f * 1000) hpos.ne'
  have hnonneg : 0 ≤ f * 1000 / (s : Int) := Int.ediv_nonneg (by omega) hpos.le
  have hword : int64 (f * 1000 / s * s) = f * 1000 / s * s :=
    int64_of_lt (mul_nonneg hnonneg hpos.le) (by omega)
  have hfee : f * 1000 / s * s / 1000 ≤ f := by omega
  simp only [getFee, hrate, hword, tdiv_eq_ediv_of_nonneg (mul_nonneg hnonneg hpos.le)]
  split_ifs with hzero hup hdown
  · -- a positive rate comes from a positive fee
    have hone : 1 * (s : Int) ≤ f * 1000 := (Int.le_ediv_iff_mul_le hpos).mp hup
    have hfpos : 1 ≤ f := by omega
    exact hfpos
  · exact absurd hnonneg (not_le.mpr hdown)
  · exact hfee
  · exact hfee

theorem lt_of_ofPaid_lt (h0 : 0 ≤ f) (hfits : f * 1000 < 2 ^ 63) (hs : 0 < s) (h0' : 0 ≤ f')
    (hfits' : f' * 1000 < 2 ^ 63) (hs' : 0 < s')
    (hlt : (ofPaid f s).nSatoshisPerK < (ofPaid f' s').nSatoshisPerK) : f * s' < f' * s := by
  have hpos : (0 : Int) < s := Int.ofNat_lt.mpr hs
  have hpos' : (0 : Int) < s' := Int.ofNat_lt.mpr hs'
  rw [ofPaid_exact h0 hfits hs, ofPaid_exact h0' hfits' hs'] at hlt
  have hbelow : f * 1000 < f' * 1000 / s' * s := (Int.ediv_lt_iff_lt_mul hpos).mp hlt
  have habove := Int.ediv_mul_le (f' * 1000) hpos'.ne'
  have hmul : f * 1000 * s' < f' * 1000 * s := by
    calc f * 1000 * s' < f' * 1000 / s' * s * s' := Int.mul_lt_mul_of_pos_right hbelow hpos'
      _ = f' * 1000 / s' * s' * s := by ring
      _ ≤ f' * 1000 * s := mul_le_mul_of_nonneg_right habove hpos.le
  linarith

end CFeeRate

/-- A fee rate is exact as long as a thousand times the fee fits 64 bits, and only then. It then
asks for no more than was paid, and of two such rates the smaller one is of the smaller quotient. -/
theorem feeRate_exact_iff (f : CAmount) (s : Nat) (hf : moneyRange f = true) (hs : 0 < s)
    (hmax : s ≤ maxBlockSerializedSize) :
    ((ofPaid f s).nSatoshisPerK = f * 1000 / s ↔ f * 1000 < 2 ^ 63) ∧
    (f * 1000 < 2 ^ 63 → (ofPaid f s).getFee s ≤ f ∧
      ∀ f' s', moneyRange f' = true → f' * 1000 < 2 ^ 63 → 0 < s' →
        ((ofPaid f s).nSatoshisPerK < (ofPaid f' s').nSatoshisPerK →
          f * s' < f' * s) ∧
        ((ofPaid f' s').nSatoshisPerK < (ofPaid f s).nSatoshisPerK →
          f' * s < f * s')) := by
  have hnonneg : ∀ {f}, moneyRange f = true → 0 ≤ f := fun h => by
    simp only [moneyRange, Bool.and_eq_true, decide_eq_true_eq] at h
    exact h.1
  have h0 := hnonneg hf
  refine ⟨⟨fun hexact => ?_, fun hfits => ofPaid_exact h0 hfits hs⟩, fun hfits =>
    ⟨getFee_le h0 hfits hs, fun f' s' hf' hfits' hs' => ⟨?_, ?_⟩⟩⟩
  · by_contra hlarge
    exact (ofPaid_wrapped (not_lt.mp hlarge) hs hmax).ne hexact
  · exact lt_of_ofPaid_lt h0 hfits hs (hnonneg hf') hfits' hs'
  · exact lt_of_ofPaid_lt (hnonneg hf') hfits' hs' h0 hfits hs

theorem one_coin_rate : moneyRange coin = true ∧
    (ofPaid coin 250).nSatoshisPerK = coin * 1000 / 250 :=
  ⟨by decide, (feeRate_exact_iff coin 250 (by decide) (by decide) (by decide)).1.mpr (by decide)⟩

/-- A fee of a hundred million coins gives a negative rate. -/
theorem large_fee_wraps : moneyRange (100000000 * coin) = true ∧
    (ofPaid (100000000 * coin) 1000).nSatoshisPerK = -8446744073709551 ∧
    (ofPaid (100000000 * coin) 1000).nSatoshisPerK ≠ 100000000 * coin * 1000 / 1000 := by
  decide

end HnbCore
