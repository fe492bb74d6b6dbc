import HnbCore.Headers
import HnbCore.Lib.Words

/-!
# DarkGravityWave

The difficulty of the next block from the targets and times of the last 180: the arithmetic on eight
words of 32 bits, the compact encoding, the averaging loop and the retarget step, for the
parameters of the three networks.
-/

namespace HnbCore

open List Words

variable {n : Nat} {params : PowParams} {past : List PowBlock}

/-- `base_uint<256>::operator*=(uint32_t)`. -/
def mul256 (a b : Nat) : Nat := value (mulWord b 0 (ofNat 8 a))

/-- `base_uint<256>::operator+=`. -/
def add256 (a b : Nat) : Nat := value (add 0 (ofNat 8 a) (ofNat 8 b))

/-- `base_uint<256>::operator/=`. -/
def div256 (a b : Nat) : Nat := divide a b

theorem base_pow_eight : base ^ 8 = 2 ^ 256 := by
  rw [base, ← pow_mul]

variable {a b c size x y : Nat}

theorem mul256_eq (h : a * b < 2 ^ 256) (ha : a < 2 ^ 256) : mul256 a b = a * b := by
  rw [mul256, value_mulWord, length_ofNat, base_pow_eight,
    value_ofNat_of_lt (by rwa [base_pow_eight]), Nat.zero_add, Nat.mul_comm,
    Nat.mod_eq_of_lt h]

theorem add256_eq (h : a + b < 2 ^ 256) : add256 a b = a + b := by
  rw [add256, value_add 0 (by simp), length_ofNat, base_pow_eight,
    value_ofNat_of_lt (by rw [base_pow_eight]; omega),
    value_ofNat_of_lt (by rw [base_pow_eight]; omega), Nat.zero_add, Nat.mod_eq_of_lt h]

/-- `arith_uint256::GetCompact`. -/
def getCompact (n : Nat) : UInt32 :=
  let nSize := (n.size + 7) / 8
  let nCompact :=
    if nSize ≤ 3 then n % 2 ^ 64 * 2 ^ (8 * (3 - nSize)) % 2 ^ 32
    else n / 2 ^ (8 * (nSize - 3)) % 2 ^ 32
  -- the sign bit must not be set
  if nCompact / 2 ^ 23 % 2 = 1 then UInt32.ofNat (nCompact / 2 ^ 8 + (nSize + 1) * 2 ^ 24)
  else UInt32.ofNat (nCompact + nSize * 2 ^ 24)

/-- A number as the mantissa of an encoding of `size` bytes: its first three of that many. -/
def scaled (n size : Nat) : Nat := n * 2 ^ (8 * (3 - size)) / 2 ^ (8 * (size - 3))

/-- The bytes a number takes with room for a sign bit. -/
def signedBytes (n : Nat) : Nat := if n = 0 then 0 else n.size / 8 + 1

theorem scaled_lt (h : n < 2 ^ b) (hb : b + 24 ≤ 8 * size + c) :
    scaled n size < 2 ^ c := by
  rw [scaled, Nat.div_lt_iff_lt_mul (by positivity), ← pow_add]
  calc n * 2 ^ (8 * (3 - size)) < 2 ^ b * 2 ^ (8 * (3 - size)) :=
        Nat.mul_lt_mul_of_pos_right h (by positivity)
    _ = 2 ^ (b + 8 * (3 - size)) := (pow_add ..).symm
    _ ≤ 2 ^ (c + 8 * (size - 3)) := Nat.pow_le_pow_right (by omega) (by omega)

theorem le_scaled (h : 2 ^ b ≤ n) (hb : 8 * size + c ≤ b + 24) :
    2 ^ c ≤ scaled n size := by
  rw [scaled, Nat.le_div_iff_mul_le (by positivity), ← pow_add]
  calc 2 ^ (c + 8 * (size - 3)) ≤ 2 ^ (b + 8 * (3 - size)) :=
        Nat.pow_le_pow_right (by omega) (by omega)
    _ = 2 ^ b * 2 ^ (8 * (3 - size)) := pow_add ..
    _ ≤ n * 2 ^ (8 * (3 - size)) := Nat.mul_le_mul_right _ h

theorem scaled_small (h : size ≤ 3) : scaled n size = n * 2 ^ (8 * (3 - size)) := by
  rw [scaled, Nat.sub_eq_zero_of_le h, Nat.mul_zero, pow_zero, Nat.div_one]

theorem scaled_large (h : 3 ≤ size) : scaled n size = n / 2 ^ (8 * (size - 3)) := by
  rw [scaled, Nat.sub_eq_zero_of_le h, Nat.mul_zero, pow_zero, Nat.mul_one]

/-- One byte more in the encoding, one byte less in the mantissa. -/
theorem scaled_succ (n size : Nat) : scaled n size / 2 ^ 8 = scaled n (size + 1) := by
  by_cases h : size < 3
  · have hexp : 8 * (3 - size) = 8 * (3 - (size + 1)) + 8 := by omega
    rw [scaled_small (by omega), scaled_small (by omega), hexp, pow_add, ← Nat.mul_assoc,
      Nat.mul_div_cancel _ (by positivity)]
  · have hexp : 8 * (size + 1 - 3) = 8 * (size - 3) + 8 := by omega
    rw [scaled_large (by omega), scaled_large (by omega), Nat.div_div_eq_div_mul, ← pow_add, hexp]

theorem pow_size_le (h : 0 < n) : 2 ^ (n.size - 1) ≤ n :=
  Nat.lt_size.mp (by have := Nat.size_pos.mpr h; omega)

theorem scaled_signedBytes_lt (n : Nat) : scaled n (signedBytes n) < 2 ^ 23 := by
  unfold signedBytes
  split
  · next h => simp [h, scaled]
  · exact scaled_lt (Nat.lt_size_self n) (by omega)

theorem signedBytes_le (hn : n < 2 ^ 256) : signedBytes n ≤ 33 := by
  have hsize : n.size ≤ 256 := Nat.size_le.mpr hn
  unfold signedBytes
  split <;> omega

/-- The code of a number is its size and its mantissa without a sign. -/
theorem getCompact_eq (n : Nat) :
    getCompact n = UInt32.ofNat (scaled n (signedBytes n) + signedBytes n * 2 ^ 24) := by
  have hlead : scaled n ((n.size + 7) / 8) < 2 ^ 24 := scaled_lt (Nat.lt_size_self n) (by omega)
  have hcompact : (if (n.size + 7) / 8 ≤ 3 then
      n % 2 ^ 64 * 2 ^ (8 * (3 - (n.size + 7) / 8)) % 2 ^ 32
    else n / 2 ^ (8 * ((n.size + 7) / 8 - 3)) % 2 ^ 32) = scaled n ((n.size + 7) / 8) := by
    split
    · next hsmall =>
        have hn : n < 2 ^ 64 := Nat.size_le.mp (by omega)
        rw [scaled_small hsmall] at hlead ⊢
        rw [Nat.mod_eq_of_lt hn, Nat.mod_eq_of_lt (by omega)]
    · next hlarge =>
        rw [scaled_large (by omega)] at hlead ⊢
        rw [Nat.mod_eq_of_lt (by omega)]
  simp only [getCompact, hcompact]
  rcases Nat.eq_zero_or_pos n with rfl | hpos
  · simp [scaled, signedBytes]
  have hsigned : signedBytes n = n.size / 8 + 1 := if_neg (by omega)
  by_cases hfull : n.size % 8 = 0
  · -- the mantissa would have its sign bit set, so it loses a byte
    have hset : 2 ^ 23 ≤ scaled n ((n.size + 7) / 8) := le_scaled (pow_size_le hpos) (by omega)
    have hbytes : (n.size + 7) / 8 + 1 = signedBytes n := by omega
    rw [if_pos (by omega), scaled_succ, hbytes]
  · have hbytes : (n.size + 7) / 8 = signedBytes n := by omega
    have hclear := scaled_signedBytes_lt n
    rw [hbytes, if_neg (by omega)]

/-- Reading what was put together from a mantissa without a sign and a size. -/
theorem setCompact_ofNat {m : Nat} (hm : m < 2 ^ 23) (hsize : size < 2 ^ 8) :
    setCompact (UInt32.ofNat (m + size * 2 ^ 24)) =
      { bnTarget := if size ≤ 3 then m / 2 ^ (8 * (3 - size)) else m * 2 ^ (8 * (size - 3)) % 2 ^ 256
        fNegative := false
        fOverflow := (if size ≤ 3 then m / 2 ^ (8 * (3 - size)) else m) ≠ 0 &&
          (size > 34 || ((if size ≤ 3 then m / 2 ^ (8 * (3 - size)) else m) > 0xff && size > 33) ||
            ((if size ≤ 3 then m / 2 ^ (8 * (3 - size)) else m) > 0xffff && size > 32)) } := by
  have hnat : (UInt32.ofNat (m + size * 2 ^ 24)).toNat = m + size * 2 ^ 24 := by
    rw [UInt32.toNat_ofNat', Nat.mod_eq_of_lt (by omega)]
  have hdiv : (m + size * 2 ^ 24) / 2 ^ 24 = size := by omega
  have hmod : (m + size * 2 ^ 24) % 2 ^ 23 = m := by omega
  have hsign : (m + size * 2 ^ 24) / 2 ^ 23 % 2 = 0 := by omega
  simp only [setCompact, hnat, hdiv, hmod, hsign, ne_eq, not_true_eq_false, decide_false,
    Bool.and_false]
  split <;> rfl

/-- What the compact encoding of a number stands for: the number rounded down, without a sign and
without overflow. -/
structure RoundsDown (t : CompactTarget) (n : Nat) : Prop where
  positive : t.fNegative = false
  fits : t.fOverflow = false
  le : t.bnTarget ≤ n
  pos : 0 < n → 0 < t.bnTarget

/-- What is read back is the number with all but the three bytes of its mantissa cleared. -/
theorem setCompact_getCompact (hn : n < 2 ^ 256) : setCompact (getCompact n) =
    { bnTarget := n / 2 ^ (8 * (signedBytes n - 3)) * 2 ^ (8 * (signedBytes n - 3))
      fNegative := false
      fOverflow := false } := by
  have hbytes := signedBytes_le hn
  have h34 : ¬signedBytes n > 34 := by omega
  have h33 : ¬signedBytes n > 33 := by omega
  rw [getCompact_eq, setCompact_ofNat (scaled_signedBytes_lt n) (by omega)]
  by_cases hsmall : signedBytes n ≤ 3
  · have h32 : ¬signedBytes n > 32 := by omega
    simp [hsmall, scaled_small hsmall, Nat.sub_eq_zero_of_le hsmall, h34, h33, h32]
  · have hword : ¬(scaled n (signedBytes n) > 0xffff ∧ signedBytes n > 32) := by
      rintro ⟨hword, h32⟩
      have : scaled n (signedBytes n) < 2 ^ 16 := scaled_lt hn (by omega)
      omega
    have hle := Nat.div_mul_le_self n (2 ^ (8 * (signedBytes n - 3)))
    rw [if_neg hsmall, if_neg hsmall, scaled_large (by omega),
      Nat.mod_eq_of_lt (lt_of_le_of_lt hle hn), ← scaled_large (by omega)]
    simp only [h34, h33, decide_false, Bool.and_false, Bool.false_or, ← Bool.decide_and, hword]

theorem pow_le_of_signedBytes (h : 0 < n) : 2 ^ (8 * (signedBytes n - 3)) ≤ n := by
  have hsigned : signedBytes n = n.size / 8 + 1 := if_neg (by omega)
  exact le_trans (Nat.pow_le_pow_right (by omega) (by omega)) (pow_size_le h)

theorem getCompact_roundsDown (hn : n < 2 ^ 256) : RoundsDown (setCompact (getCompact n)) n := by
  rw [setCompact_getCompact hn]
  refine ⟨rfl, rfl, Nat.div_mul_le_self .., fun h => ?_⟩
  exact Nat.mul_pos (Nat.div_pos (pow_le_of_signedBytes h) (by positivity)) (by positivity)

theorem toNat_getCompact (hn : n < 2 ^ 256) :
    (getCompact n).toNat = scaled n (signedBytes n) + signedBytes n * 2 ^ 24 := by
  have hmant := scaled_signedBytes_lt n
  have hbytes := signedBytes_le hn
  rw [getCompact_eq, UInt32.toNat_ofNat', Nat.mod_eq_of_lt (by omega)]

theorem signedBytes_mono (h : x ≤ y) : signedBytes x ≤ signedBytes y := by
  have hsize := Nat.size_le_size h
  unfold signedBytes
  split <;> split <;> omega

theorem getCompact_mono (h : x ≤ y) (hy : y < 2 ^ 256) :
    getCompact x ≤ getCompact y := by
  rw [UInt32.le_iff_toNat_le, toNat_getCompact (lt_of_le_of_lt h hy), toNat_getCompact hy]
  have hbytes := signedBytes_mono h
  have hmant := scaled_signedBytes_lt x
  by_cases heq : signedBytes x = signedBytes y
  · have hle : scaled x (signedBytes y) ≤ scaled y (signedBytes y) :=
      Nat.div_le_div_right (Nat.mul_le_mul_right _ h)
    rw [heq]
    omega
  · -- a longer encoding weighs more than any mantissa
    omega

/-- Clearing bytes that the mantissa does not hold changes neither the size nor the mantissa. -/
theorem getCompact_cleared (n : Nat) :
    getCompact (n / 2 ^ (8 * (signedBytes n - 3)) * 2 ^ (8 * (signedBytes n - 3))) =
      getCompact n := by
  by_cases hsmall : signedBytes n ≤ 3
  · simp [Nat.sub_eq_zero_of_le hsmall]
  have hpos : 0 < n := by
    by_contra h
    exact hsmall (by simp [signedBytes, show n = 0 by omega])
  have hsigned : signedBytes n = n.size / 8 + 1 := if_neg (by omega)
  generalize hk : 8 * (signedBytes n - 3) = k
  have hle := Nat.div_mul_le_self n (2 ^ k)
  have hfirst : 2 ^ (n.size - 1) ≤ n / 2 ^ k * 2 ^ k := by
    have hexp : n.size - 1 = n.size - 1 - k + k := by omega
    rw [hexp, pow_add]
    apply Nat.mul_le_mul_right
    rw [Nat.le_div_iff_mul_le (by positivity), ← pow_add, ← hexp]
    exact pow_size_le hpos
  have hsize : (n / 2 ^ k * 2 ^ k).size = n.size := by
    apply Nat.le_antisymm (Nat.size_le_size hle)
    have := Nat.lt_size.mpr hfirst
    omega
  have hbytes : signedBytes (n / 2 ^ k * 2 ^ k) = signedBytes n := by
    have : 0 < 2 ^ (n.size - 1) := by positivity
    rw [hsigned, signedBytes, if_neg (by omega), hsize]
  rw [getCompact_eq, getCompact_eq n, hbytes, scaled_large (by omega), scaled_large (by omega), hk,
    Nat.mul_div_cancel _ (by positivity)]

/-- The compact encoding. It has no sign and no overflow, it keeps the three bytes of the
mantissa and clears those below them, it is monotone, and what it can return survives. -/
theorem getCompact_faithful :
    (∀ x : UInt256, (setCompact (getCompact x.toNat)).fNegative = false ∧
      (setCompact (getCompact x.toNat)).fOverflow = false ∧
      (setCompact (getCompact x.toNat)).bnTarget ≤ x.toNat ∧
      (setCompact (getCompact x.toNat)).bnTarget =
        x.toNat / 2 ^ (8 * (signedBytes x.toNat - 3)) * 2 ^ (8 * (signedBytes x.toNat - 3))) ∧
    (∀ x y : UInt256, x ≤ y → getCompact x.toNat ≤ getCompact y.toNat) ∧
    ∀ x : UInt256,
      getCompact (setCompact (getCompact x.toNat)).bnTarget = getCompact x.toNat := by
  refine ⟨fun x => ?_, fun x y h => getCompact_mono h y.isLt, fun x => ?_⟩
  · rw [setCompact_getCompact x.isLt]
    exact ⟨rfl, rfl, Nat.div_mul_le_self .., rfl⟩
  · rw [setCompact_getCompact x.isLt]
    exact getCompact_cleared x.toNat

theorem getCompact_faithful_at_sign_bit :
    getCompact (0x7fffff#256).toNat ≤ getCompact (0x800001#256).toNat ∧
      (setCompact (getCompact (0x800001#256).toNat)).bnTarget ≤ (0x800001#256).toNat :=
  ⟨getCompact_faithful.2.1 _ _ (by decide), (getCompact_faithful.1 _).2.2.1⟩

structure PowParams where
  powLimit : Nat
  kawpowLimit : Nat
  nPowTargetTimespan : Int
  nPowTargetSpacing : Int
  fPowAllowMinDifficultyBlocks : Bool
  fPowNoRetargeting : Bool
  nKAWPOWActivationTime : UInt32

def PowParams.difficultyAdjustmentInterval (params : PowParams) : Int :=
  params.nPowTargetTimespan / params.nPowTargetSpacing

def mainPow : PowParams where
  powLimit := 0x00000fffffffffffffffffffffffffffffffffffffffffffffffffffffffffff
  kawpowLimit := 0x0000000000ffffffffffffffffffffffffffffffffffffffffffffffffffffff
  nPowTargetTimespan := 2016 * 60
  nPowTargetSpacing := 1 * 60
  fPowAllowMinDifficultyBlocks := false
  fPowNoRetargeting := false
  nKAWPOWActivationTime := 1758027600

def testNetPow : PowParams where
  powLimit := 0x00000fffffffffffffffffffffffffffffffffffffffffffffffffffffffffff
  kawpowLimit := 0x000000ffffffffffffffffffffffffffffffffffffffffffffffffffffffffff
  nPowTargetTimespan := 2016 * 60
  nPowTargetSpacing := 1 * 60
  fPowAllowMinDifficultyBlocks := true
  fPowNoRetargeting := false
  nKAWPOWActivationTime := 1752847200

def regTestPow : PowParams where
  powLimit := 0x7fffffffffffffffffffffffffffffffffffffffffffffffffffffffffffffff
  kawpowLimit := 0x7fffffffffffffffffffffffffffffffffffffffffffffffffffffffffffffff
  nPowTargetTimespan := 2016 * 60
  nPowTargetSpacing := 1 * 60
  fPowAllowMinDifficultyBlocks := true
  fPowNoRetargeting := true
  nKAWPOWActivationTime := 3582830167

def networkPow : List PowParams := [mainPow, testNetPow, regTestPow]

/-- What the rule reads of a block. A block and those before it are a block and a list, the most
recent first, so that the height of the block is the length of the list. -/
structure PowBlock where
  nBits : UInt32
  nTime : UInt32

def PowBlock.bnTarget (block : PowBlock) : Nat := (setCompact block.nBits).bnTarget

def PowBlock.getBlockTime (block : PowBlock) : Int := block.nTime.toNat

def nPastBlocks : Nat := 180

/-- One round of the averaging loop after the first. -/
def averageStep (bnPastTargetAvg nCountBlocks bnTarget : Nat) : Nat :=
  div256 (add256 (mul256 bnPastTargetAvg nCountBlocks) bnTarget) (nCountBlocks + 1)

/-- The rounds of the averaging loop from `nCountBlocks` on. -/
def averageFrom (nCountBlocks bnPastTargetAvg : Nat) : List PowBlock → Nat
  | [] => bnPastTargetAvg
  | block :: rest =>
      averageFrom (nCountBlocks + 1) (averageStep bnPastTargetAvg nCountBlocks block.bnTarget) rest

/-- The average over a block and some before it. -/
def pastTargetAvg (last : PowBlock) (past : List PowBlock) : Nat :=
  averageFrom 2 last.bnTarget past

def nTargetTimespan (params : PowParams) : Int := nPastBlocks * params.nPowTargetSpacing

/-- The time the past blocks took, within a third and three times what they should have taken. -/
def actualTimespan (params : PowParams) (last first : PowBlock) : Int :=
  let nActualTimespan := last.getBlockTime - first.getBlockTime
  let nActualTimespan :=
    if nActualTimespan < nTargetTimespan params / 3 then nTargetTimespan params / 3
    else nActualTimespan
  if nActualTimespan > nTargetTimespan params * 3 then nTargetTimespan params * 3
  else nActualTimespan

/-- The new target before it is compared with the limit. The timespan is passed as `uint32_t`. -/
def bnNew (params : PowParams) (last first : PowBlock) (bnPastTargetAvg : Nat) : Nat :=
  div256 (mul256 bnPastTargetAvg ((actualTimespan params last first).toNat % 2 ^ 32))
    (nTargetTimespan params).toNat

/-- The last block that was not mined at the minimum difficulty. -/
def lastNonSpecial (params : PowParams) : PowBlock → List PowBlock → PowBlock
  | block, [] => block
  | block, prev :: rest =>
      if ((prev :: rest).length : Int) % params.difficultyAdjustmentInterval ≠ 0 ∧
          block.nBits = getCompact params.powLimit then lastNonSpecial params prev rest
      else block

/-- Networks that never retarget take the bits of an earlier block. -/
def PowParams.special (params : PowParams) : Bool :=
  params.fPowAllowMinDifficultyBlocks && params.fPowNoRetargeting

def darkGravityWave (params : PowParams) (last : PowBlock) (prev : List PowBlock)
    (nTime : UInt32) : UInt32 :=
  let nProofOfWorkLimit := getCompact params.powLimit
  if prev.length < nPastBlocks then nProofOfWorkLimit
  else if params.special then
    if (nTime.toNat : Int) > last.getBlockTime + params.nPowTargetSpacing * 2 then nProofOfWorkLimit
    else (lastNonSpecial params last prev).nBits
  else
    let past := prev.take (nPastBlocks - 1)
    let bnPastTargetAvg := pastTargetAvg last past
    let nKAWPOWBlocksFound :=
      (last :: past).countP fun block => block.nTime ≥ params.nKAWPOWActivationTime
    if nTime ≥ params.nKAWPOWActivationTime ∧ nKAWPOWBlocksFound ≠ nPastBlocks then
      getCompact params.kawpowLimit
    else
      let bnNew := bnNew params last (past.getLastD last) bnPastTargetAvg
      getCompact (if bnNew > params.powLimit then params.powLimit else bnNew)

/-- The range test of `CheckProofOfWork`. -/
def inRange (params : PowParams) (nBits : UInt32) : Bool :=
  let target := setCompact nBits
  !(target.fNegative || target.bnTarget = 0 || target.fOverflow ||
    target.bnTarget > params.powLimit)

/-- The test is what `CheckProofOfWork` asks of the bits, whatever the hash. -/
theorem inRange_eq_checkProofOfWork (params : PowParams) (rules : HeaderRules)
    (h : rules.powLimit = params.powLimit) (nBits : UInt32) :
    inRange params nBits = checkProofOfWork rules 0 nBits := by
  simp [inRange, checkProofOfWork, h]

section
variable {low limit avg n t : Nat}

/-- A round does not overflow below a limit that leaves room for 181 of it. -/
theorem averageStep_eq (hlimit : limit * (nPastBlocks + 1) < 2 ^ 256) (havg : avg ≤ limit)
    (ht : t ≤ limit) (hn : n ≤ nPastBlocks) :
    avg * n < 2 ^ 256 ∧ averageStep avg n t = (avg * n + t) / (n + 1) := by
  have hmul : avg * n ≤ limit * nPastBlocks := Nat.mul_le_mul havg hn
  have hroom : limit * (nPastBlocks + 1) = limit * nPastBlocks + limit := Nat.mul_succ _ _
  have hlt : avg * n < 2 ^ 256 := by omega
  have hself : avg < 2 ^ 256 := by
    have hle : limit ≤ limit * (nPastBlocks + 1) := Nat.le_mul_of_pos_right _ (by decide)
    omega
  refine ⟨hlt, ?_⟩
  rw [averageStep, mul256_eq hlt hself, add256_eq (by omega), div256,
    divide_eq (Nat.succ_pos n)]

theorem average_between (hlow : low ≤ avg) (hlow' : low ≤ t) (havg : avg ≤ limit)
    (ht : t ≤ limit) : low ≤ (avg * n + t) / (n + 1) ∧ (avg * n + t) / (n + 1) ≤ limit := by
  have hmulLow : low * n ≤ avg * n := Nat.mul_le_mul_right n hlow
  have hmulHigh : avg * n ≤ limit * n := Nat.mul_le_mul_right n havg
  constructor
  · rw [Nat.le_div_iff_mul_le (Nat.succ_pos n), Nat.mul_succ]
    omega
  · have hle : avg * n + t ≤ (n + 1) * limit := by
      rw [Nat.succ_mul, Nat.mul_comm n limit]
      omega
    exact Nat.div_le_of_le_mul hle

theorem averageFrom_between (hlimit : limit * (nPastBlocks + 1) < 2 ^ 256)
    (hn : n + past.length ≤ nPastBlocks + 1) (hlow : low ≤ avg) (havg : avg ≤ limit)
    (hpast : ∀ b ∈ past, low ≤ b.bnTarget ∧ b.bnTarget ≤ limit) :
    low ≤ averageFrom n avg past ∧ averageFrom n avg past ≤ limit := by
  induction past generalizing n avg with
  | nil => exact ⟨hlow, havg⟩
  | cons b past ih =>
    obtain ⟨hbLow, hbHigh⟩ := hpast b (by simp)
    rw [length_cons] at hn
    obtain ⟨hstepLow, hstepHigh⟩ := average_between (n := n) hlow hbLow havg hbHigh
    rw [averageFrom, (averageStep_eq hlimit havg hbHigh (by omega)).2]
    exact ih (by omega) hstepLow hstepHigh fun c hc => hpast c (mem_cons_of_mem _ hc)

/-- The most that rounds down in the rounds from `n` on. -/
def slack (n : Nat) : Nat → Nat
  | 0 => 0
  | k + 1 => n + slack (n + 1) k

/-- The loop keeps the weighted sum of the targets up to what it rounds down. -/
theorem averageFrom_sum (hlimit : limit * (nPastBlocks + 1) < 2 ^ 256)
    (hn : n + past.length ≤ nPastBlocks + 1) (havg : avg ≤ limit)
    (hpast : ∀ b ∈ past, b.bnTarget ≤ limit) :
    averageFrom n avg past * (n + past.length) ≤ avg * n + (past.map PowBlock.bnTarget).sum ∧
      avg * n + (past.map PowBlock.bnTarget).sum ≤
        averageFrom n avg past * (n + past.length) + slack n past.length := by
  induction past generalizing n avg with
  | nil => simp [averageFrom, slack]
  | cons b past ih =>
    have hb := hpast b (by simp)
    rw [length_cons] at hn
    have hstep := (averageStep_eq hlimit havg hb (n := n) (by omega)).2
    have hnext : averageStep avg n b.bnTarget ≤ limit := by
      rw [hstep]
      exact (average_between (Nat.zero_le _) (Nat.zero_le _) havg hb).2
    obtain ⟨hle, hge⟩ := ih (by omega : n + 1 + past.length ≤ nPastBlocks + 1) hnext
      fun c hc => hpast c (mem_cons_of_mem _ hc)
    have hdiv : averageStep avg n b.bnTarget * (n + 1) + (avg * n + b.bnTarget) % (n + 1) =
        avg * n + b.bnTarget := by
      rw [hstep]
      exact Nat.div_add_mod' _ _
    have hmod : (avg * n + b.bnTarget) % (n + 1) < n + 1 := Nat.mod_lt _ (Nat.succ_pos n)
    have hcount : n + (past.length + 1) = n + 1 + past.length := by omega
    rw [averageFrom, map_cons, sum_cons, length_cons, hcount, slack]
    constructor
    · omega
    · omega

end

section
variable {params : PowParams} {last first : PowBlock}

/-- The clamped timespan lies between a third and three times the intended one. -/
theorem actualTimespan_between (h : nTargetTimespan params = 10800) :
    3600 ≤ actualTimespan params last first ∧ actualTimespan params last first ≤ 32400 := by
  unfold actualTimespan
  simp only [h]
  split <;> split <;> omega

theorem bnNew_between {limit avg : Nat} (h : nTargetTimespan params = 10800)
    (hlimit : limit * 32400 < 2 ^ 256) (havg : avg ≤ limit) :
    avg * (actualTimespan params last first).toNat < 2 ^ 256 ∧
      avg / 3 ≤ bnNew params last first avg ∧ bnNew params last first avg ≤ 3 * avg := by
  obtain ⟨hlow, hhigh⟩ := @actualTimespan_between params last first h
  have hspan : 3600 ≤ (actualTimespan params last first).toNat ∧
      (actualTimespan params last first).toNat ≤ 32400 := by omega
  generalize hts : (actualTimespan params last first).toNat = ts at hspan
  have hmul : avg * ts ≤ limit * 32400 := Nat.mul_le_mul havg hspan.2
  have hself : avg < 2 ^ 256 := by
    have hle : limit ≤ limit * 32400 := Nat.le_mul_of_pos_right _ (by decide)
    omega
  have hnew : bnNew params last first avg = avg * ts / 10800 := by
    rw [bnNew, hts, Nat.mod_eq_of_lt (by omega), mul256_eq (by omega) hself, h, div256,
      divide_eq (by decide)]
    rfl
  have hless : avg * 3600 ≤ avg * ts := Nat.mul_le_mul_left avg hspan.1
  have hmore : avg * ts ≤ avg * 32400 := Nat.mul_le_mul_left avg hspan.2
  rw [hnew]
  refine ⟨by omega, ?_, ?_⟩
  · omega
  · omega

end

theorem inRange_of_roundsDown (hpos : 0 < n) (hlimit : n ≤ params.powLimit) (hn : n < 2 ^ 256) :
    inRange params (getCompact n) = true := by
  obtain ⟨hneg, hover, hle, hpos'⟩ := getCompact_roundsDown hn
  have hne := hpos' hpos
  have hle' : ¬(setCompact (getCompact n)).bnTarget > params.powLimit := by omega
  have hzero : ¬(setCompact (getCompact n)).bnTarget = 0 := by omega
  simp [inRange, hneg, hover, hle', hzero]

theorem le_limit_of_inRange {nBits : UInt32} (h : inRange params nBits = true) :
    (setCompact nBits).bnTarget ≤ params.powLimit := by
  simp only [inRange, Bool.not_eq_true', Bool.or_eq_false_iff, decide_eq_false_iff_not] at h
  omega

theorem lastNonSpecial_mem (params : PowParams) (block : PowBlock) (prev : List PowBlock) :
    lastNonSpecial params block prev ∈ block :: prev := by
  induction prev generalizing block with
  | nil => simp [lastNonSpecial]
  | cons next rest ih =>
    rw [lastNonSpecial]
    split
    · exact mem_cons_of_mem _ (ih next)
    · simp

/-- What the parameters of every network have in common. -/
structure PowParams.Sane (params : PowParams) : Prop where
  limit : params.powLimit < 2 ^ 256
  pos : 0 < params.powLimit
  kawpow : 0 < params.kawpowLimit ∧ params.kawpowLimit ≤ params.powLimit
  timespan : nTargetTimespan params = 10800
  room : params.special = false → params.powLimit < 2 ^ 236

theorem networkPow_sane (h : params ∈ networkPow) : params.Sane := by
  simp only [networkPow, mem_cons, not_mem_nil, or_false] at h
  rcases h with rfl | rfl | rfl <;> constructor <;> decide

/-- Two times the last target and the sum of the others, of the weight 181 in all. -/
def weightedSum (last : PowBlock) (past : List PowBlock) : Nat :=
  2 * last.bnTarget + (past.map PowBlock.bnTarget).sum

/-- The averaging over past blocks on a network that retargets. -/
theorem pastTargetAvg_bounds (hroom : params.powLimit < 2 ^ 236) {last : PowBlock}
    (hlen : past.length < nPastBlocks)
    (htargets : ∀ b ∈ last :: past, 3 ≤ b.bnTarget ∧ b.bnTarget ≤ params.powLimit) :
    3 ≤ pastTargetAvg last past ∧ pastTargetAvg last past ≤ params.powLimit := by
  have hlimit : params.powLimit * (nPastBlocks + 1) < 2 ^ 256 := by
    simp only [nPastBlocks]
    omega
  obtain ⟨hlow, hhigh⟩ := htargets last (by simp)
  exact averageFrom_between hlimit (by omega) hlow hhigh fun b hb =>
    htargets b (mem_cons_of_mem _ hb)

/-- The target of a network that retargets, at a height of at least 180. -/
theorem darkGravityWave_retargets {last : PowBlock} {prev : List PowBlock}
    (hretargets : params.special = false) (hlen : nPastBlocks ≤ prev.length) (nTime : UInt32) :
    let past := prev.take (nPastBlocks - 1)
    darkGravityWave params last prev nTime = getCompact
      (if nTime ≥ params.nKAWPOWActivationTime ∧
          (last :: past).countP (·.nTime ≥ params.nKAWPOWActivationTime) ≠ nPastBlocks then
        params.kawpowLimit
      else min (bnNew params last (past.getLastD last) (pastTargetAvg last past))
        params.powLimit) := by
  simp only [darkGravityWave, if_neg (Nat.not_lt.mpr hlen), hretargets, Bool.false_eq_true, if_false]
  split
  · rfl
  · split
    · next hmore => rw [Nat.min_eq_right (Nat.le_of_lt hmore)]
    · next hless => rw [Nat.min_eq_left (Nat.not_lt.mp hless)]

section Targets

variable {last : PowBlock} {prev : List PowBlock}
  (htargets : ∀ b ∈ last :: prev, 3 ≤ b.bnTarget ∧ inRange params b.nBits = true)

include htargets

theorem bounds_take (k : Nat) :
    ∀ b ∈ last :: prev.take k, 3 ≤ b.bnTarget ∧ b.bnTarget ≤ params.powLimit := by
  intro b hb
  have hin := ((take_sublist k prev).cons_cons last).subset hb
  exact ⟨(htargets b hin).1, le_limit_of_inRange (htargets b hin).2⟩

theorem inRange_darkGravityWave (hsane : params.Sane) (nTime : UInt32) :
    inRange params (darkGravityWave params last prev nTime) = true := by
  have hlimit := inRange_of_roundsDown hsane.pos (le_refl _) hsane.limit
  by_cases hheight : nPastBlocks ≤ prev.length
  · cases hspecial : params.special with
    | true =>
      -- a network that does not retarget returns the limit or the bits of a past block
      simp only [darkGravityWave, if_neg (Nat.not_lt.mpr hheight), hspecial, if_true]
      split
      · exact hlimit
      · exact (htargets _ (lastNonSpecial_mem params last prev)).2
    | false =>
      rw [darkGravityWave_retargets hspecial hheight]
      split
      · exact inRange_of_roundsDown hsane.kawpow.1 hsane.kawpow.2
          (lt_of_le_of_lt hsane.kawpow.2 hsane.limit)
      · have hroom := hsane.room hspecial
        have hshort : (prev.take (nPastBlocks - 1)).length < nPastBlocks := by
          rw [length_take]
          exact Nat.lt_of_le_of_lt (Nat.min_le_left _ _) (by decide)
        obtain ⟨hlow, havg⟩ := pastTargetAvg_bounds hroom hshort (bounds_take htargets _)
        have hthird := (@bnNew_between params last
          ((prev.take (nPastBlocks - 1)).getLastD last) _ _ hsane.timespan
          (by omega : params.powLimit * 32400 < 2 ^ 256) havg).2.1
        have hpos := hsane.pos
        have hmax := hsane.limit
        exact inRange_of_roundsDown (by omega) (Nat.min_le_right _ _) (by omega)
  · rw [darkGravityWave, if_pos (Nat.not_le.mp hheight)]
    exact hlimit

end Targets

/-- The retargeting is safe on every network. Over at least 180 blocks with targets between 3
and the limit no product overflows; the average is the weighted average rounded down by less than
90; the new target lies between a third and three times it; at a height of at least 180 it is
what is encoded, unless it is above the limit or too few blocks are of KAWPOW; and the bits pass the
range test. -/
theorem darkGravityWave_safe {params : PowParams} (hparams : params ∈ networkPow)
    {last : PowBlock} {prev : List PowBlock} (hlen : nPastBlocks ≤ (last :: prev).length)
    (htargets : ∀ b ∈ last :: prev, 3 ≤ b.bnTarget ∧ inRange params b.nBits = true)
    (nTime : UInt32) :
    (params.special = false →
      (∀ k < nPastBlocks - 1, pastTargetAvg last (prev.take k) * (k + 2) < 2 ^ 256) ∧
      (let past := prev.take (nPastBlocks - 1)
       let avg := pastTargetAvg last past
       let first := past.getLastD last
       (181 * avg ≤ weightedSum last past ∧ weightedSum last past < 181 * (avg + 90)) ∧
       avg * (actualTimespan params last first).toNat < 2 ^ 256 ∧
       avg / 3 ≤ bnNew params last first avg ∧ bnNew params last first avg ≤ 3 * avg ∧
       (nPastBlocks ≤ prev.length → darkGravityWave params last prev nTime = getCompact
         (if nTime ≥ params.nKAWPOWActivationTime ∧
             (last :: past).countP (·.nTime ≥ params.nKAWPOWActivationTime) ≠ nPastBlocks then
           params.kawpowLimit
         else min (bnNew params last first avg) params.powLimit)))) ∧
    ∀ rules : HeaderRules, rules.powLimit = params.powLimit →
      checkProofOfWork rules 0 (darkGravityWave params last prev nTime) = true := by
  have hsane := networkPow_sane hparams
  have h180 : nPastBlocks = 180 := rfl
  have htake := bounds_take htargets
  have hall : (prev.take (nPastBlocks - 1)).length = nPastBlocks - 1 := by
    rw [length_cons] at hlen
    rw [length_take]
    omega
  refine ⟨fun hretargets => ?_, ?_⟩
  · have hroom := hsane.room hretargets
    have hlimit : params.powLimit * (nPastBlocks + 1) < 2 ^ 256 := by
      simp only [nPastBlocks]
      omega
    refine ⟨fun k hk => ?_, ?_, ?_⟩
    · have hshort : (prev.take k).length < nPastBlocks := by
        rw [length_take]
        omega
      have havg := (pastTargetAvg_bounds hroom hshort (htake k)).2
      exact (averageStep_eq hlimit havg (Nat.zero_le _) (by omega)).1
    · have hpast : ∀ b ∈ prev.take (nPastBlocks - 1), b.bnTarget ≤ params.powLimit := fun b hb =>
        (htake _ b (mem_cons_of_mem _ hb)).2
      have hsum := averageFrom_sum (n := 2) hlimit (by omega) (htake 0 last (by simp)).2 hpast
      rw [hall] at hsum
      have hslack : slack 2 (nPastBlocks - 1) = 16289 := by decide +kernel
      have hcount : 2 + (nPastBlocks - 1) = 181 := rfl
      rw [hslack, hcount] at hsum
      simp only [weightedSum, pastTargetAvg]
      omega
    · have havg := (pastTargetAvg_bounds hroom (by omega) (htake (nPastBlocks - 1))).2
      obtain ⟨hproduct, hthird, hthrice⟩ := bnNew_between hsane.timespan (by omega) havg
      exact ⟨hproduct, hthird, hthrice, fun hheight =>
        darkGravityWave_retargets hretargets hheight nTime⟩
  · intro rules hrules
    rw [← inRange_eq_checkProofOfWork params rules hrules]
    exact inRange_darkGravityWave htargets hsane nTime

/-- A chain on which every block was mined at the same target and time. -/
def steadyBlock : PowBlock := ⟨0x1d00ffff, 1700000000⟩

def steadyPrev : List PowBlock := List.replicate 200 steadyBlock

theorem steady_chain_safe :
    (∀ k < nPastBlocks - 1, pastTargetAvg steadyBlock (steadyPrev.take k) * (k + 2) < 2 ^ 256) ∧
    darkGravityWave mainPow steadyBlock steadyPrev 1700000060 = getCompact (min
      (bnNew mainPow steadyBlock ((steadyPrev.take 179).getLastD steadyBlock)
        (pastTargetAvg steadyBlock (steadyPrev.take 179))) mainPow.powLimit) ∧
    ∀ rules : HeaderRules, rules.powLimit = mainPow.powLimit →
      checkProofOfWork rules 0 (darkGravityWave mainPow steadyBlock steadyPrev 1700000060) =
        true := by
  have hall : ∀ b ∈ steadyBlock :: steadyPrev, 3 ≤ b.bnTarget ∧ inRange mainPow b.nBits = true := by
    intro b hb
    obtain rfl : b = steadyBlock := by
      rcases mem_cons.mp hb with rfl | hb
      · rfl
      · exact eq_of_mem_replicate hb
    decide
  have hlen : nPastBlocks ≤ steadyPrev.length := by
    rw [steadyPrev, length_replicate]
    decide
  have hcount : nPastBlocks ≤ (steadyBlock :: steadyPrev).length := by
    rw [length_cons]
    omega
  obtain ⟨hretargets, hrange⟩ := darkGravityWave_safe (mem_cons_self : mainPow ∈ networkPow)
    hcount hall 1700000060
  obtain ⟨hproducts, -, -, -, -, hbits⟩ := hretargets rfl
  refine ⟨hproducts, (hbits hlen).trans (congrArg getCompact (if_neg ?_)), hrange⟩
  exact fun hkawpow => absurd hkawpow.1 (by decide)

end HnbCore
