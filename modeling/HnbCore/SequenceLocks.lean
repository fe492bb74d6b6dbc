import HnbCore.VersionBits

/-!
# Sequence locks

`CalculateSequenceLocks` folds the relative lock times of all inputs into the last height and the
last time at which the transaction is not valid yet, and `EvaluateSequenceLocks` compares that pair
with a block. Together they are the rule of each input for itself.
-/

namespace HnbCore

open List PIndex

/-- What the locks read of a transaction: its version, and `nSequence` of each input. -/
structure SequencedTx where
  nVersion : BitVec 32
  vin : List (BitVec 32)

def sequenceLocktimeDisableFlag : BitVec 32 := 1#32 <<< 31

def sequenceLocktimeTypeFlag : BitVec 32 := 1#32 <<< 22

def sequenceLocktimeMask : BitVec 32 := 0xffff

def locktimeVerifySequence : BitVec 32 := 1#32 <<< 0

/-- The loop body, on `nMinHeight` and `nMinTime`. -/
def lockInput (block : PIndex) (locks : Int × Int) (input : BitVec 32 × Int) : Int × Int :=
  if input.1 &&& sequenceLocktimeDisableFlag ≠ 0 then locks
  else if input.1 &&& sequenceLocktimeTypeFlag ≠ 0 then
    let nCoinTime := medianTimePast (block.getAncestor (max (input.2 - 1) 0))
    (locks.1, max locks.2 (nCoinTime + ((input.1 &&& sequenceLocktimeMask) <<< 9).toNat - 1))
  else (max locks.1 (input.2 + (input.1 &&& sequenceLocktimeMask).toNat - 1), locks.2)

/-- The second result is what is left in `prevHeights`. -/
def calculateSequenceLocks (tx : SequencedTx) (flags : BitVec 32) (prevHeights : List Int)
    (block : PIndex) : Option ((Int × Int) × List Int) :=
  if prevHeights.length ≠ tx.vin.length then none
  else if 2 ≤ tx.nVersion.toNat ∧ flags &&& locktimeVerifySequence ≠ 0 then
    some ((tx.vin.zip prevHeights).foldl (lockInput block) (-1, -1),
      tx.vin.zipWith (fun n h => if n &&& sequenceLocktimeDisableFlag ≠ 0 then 0 else h) prevHeights)
  else some ((-1, -1), prevHeights)

def evaluateSequenceLocks (block : PIndex) (lockPair : Int × Int) : Option Bool :=
  match block.tail with
  | [] => none
  | pprev => some (lockPair.1 < block.nHeight && lockPair.2 < medianTimePast pprev)

def sequenceLocks (tx : SequencedTx) (flags : BitVec 32) (prevHeights : List Int)
    (block : PIndex) : Option Bool :=
  (calculateSequenceLocks tx flags prevHeights block).bind (evaluateSequenceLocks block ·.1)

/-- BIP68 for one input: the lock counts blocks from the block of its coin, or 512 seconds from the
block before that one. -/
def Unlocked (block : PIndex) (height time : Int) (input : BitVec 32 × Int) : Prop :=
  input.1.getLsbD 31 = false →
    if input.1.getLsbD 22 then ∀ before, before <:+ block → nHeight before = max (input.2 - 1) 0 →
      medianTimePast before + 512 * (input.1.toNat % 2 ^ 16 : Nat) ≤ time
    else input.2 + (input.1.toNat % 2 ^ 16 : Nat) ≤ height

variable {block : PIndex} {n : BitVec 32} {height time : Int}

theorem flag_ne_zero {i : Nat} (hi : i < 32) : n &&& 1#32 <<< i ≠ 0 ↔ n.getLsbD i = true := by
  rw [← BitVec.twoPow_eq, BitVec.and_twoPow]
  cases n.getLsbD i with
  | false => simp
  | true =>
    have hpow : 2 ^ i < 2 ^ 32 := Nat.pow_lt_pow_right (by omega) hi
    rw [if_pos rfl, Ne, ← BitVec.toNat_inj, BitVec.toNat_twoPow, Nat.mod_eq_of_lt hpow]
    simp

/-- There is one ancestor of each height. -/
theorem ancestor_spec (h0 : 0 ≤ height) (hle : height ≤ block.nHeight) {P : PIndex → Prop} :
    (∀ before, before <:+ block → nHeight before = height → P before) ↔
      P (block.getAncestor height) := by
  have hdrop : block.getAncestor height = block.drop (block.nHeight - height).toNat :=
    if_neg (by omega)
  rw [hdrop]
  constructor
  · intro h
    apply h _ (drop_suffix _ _)
    simp only [nHeight, length_drop] at hle ⊢
    omega
  · intro hP before hbefore hheight
    rw [suffix_iff_eq_drop.mp hbefore]
    simp only [nHeight] at hheight hP
    convert hP using 2
    omega

theorem lockInput_iff {input : BitVec 32 × Int} (hblock : 0 ≤ block.nHeight)
    (hheight : input.2 ≤ block.nHeight) (locks : Int × Int) :
    (lockInput block locks input).1 < height ∧ (lockInput block locks input).2 < time ↔
      (locks.1 < height ∧ locks.2 < time) ∧ Unlocked block height time input := by
  have hmask : (input.1 &&& sequenceLocktimeMask).toNat = input.1.toNat % 2 ^ 16 :=
    (BitVec.toNat_and ..).trans (Nat.and_two_pow_sub_one_eq_mod _ 16)
  have hshift : ((input.1 &&& sequenceLocktimeMask) <<< 9).toNat = 512 * (input.1.toNat % 2 ^ 16) := by
    rw [BitVec.toNat_shiftLeft, hmask, Nat.shiftLeft_eq]
    omega
  simp only [lockInput, Unlocked, sequenceLocktimeDisableFlag, sequenceLocktimeTypeFlag,
    flag_ne_zero (show 31 < 32 by decide), flag_ne_zero (show 22 < 32 by decide), hmask, hshift,
    ancestor_spec (le_max_right (input.2 - 1) 0) (by omega : max (input.2 - 1) 0 ≤ block.nHeight)]
  cases input.1.getLsbD 31
  case true => simp
  cases input.1.getLsbD 22 <;> simp <;> omega

/-- The pair is below a height and a time exactly when every input is unlocked there. -/
theorem foldl_lockInput_iff (inputs : List (BitVec 32 × Int)) (hblock : 0 ≤ block.nHeight)
    (hheights : ∀ input ∈ inputs, input.2 ≤ block.nHeight) (locks : Int × Int) :
    (inputs.foldl (lockInput block) locks).1 < height ∧
        (inputs.foldl (lockInput block) locks).2 < time ↔
      (locks.1 < height ∧ locks.2 < time) ∧
        ∀ input ∈ inputs, Unlocked block height time input := by
  induction inputs generalizing locks with
  | nil => simp
  | cons input inputs ih =>
    obtain ⟨hfirst, hrest⟩ := forall_mem_cons.mp hheights
    rw [foldl_cons, ih hrest, lockInput_iff hblock hfirst, forall_mem_cons, and_assoc]

theorem medianTimePast_nonneg (pindex : PIndex) : 0 ≤ pindex.medianTimePast := by
  rw [medianTimePast, getD_eq_getElem?_getD]
  generalize hget : (_ : List Int)[(_ : Nat)]? = found
  cases found with
  | none => exact le_rfl
  | some time =>
    obtain ⟨block, -, rfl⟩ := mem_map.mp ((mem_insertionSort _).mp (mem_of_getElem? hget))
    exact Int.natCast_nonneg _

/-- Sequence locks are BIP68: a transaction is unlocked in a block exactly when each of its
inputs is, at the height of the block and the median time past of its parent. -/
theorem sequenceLocks_iff (tx : SequencedTx) (flags : BitVec 32) (prevHeights : List Int)
    (block : PIndex) (hversion : 2 ≤ tx.nVersion.toNat) (hflags : flags.getLsbD 0 = true)
    (hlength : prevHeights.length = tx.vin.length) (hparent : block.tail ≠ [])
    (hheights : ∀ height ∈ prevHeights, height ≤ block.nHeight) :
    ∃ unlocked, sequenceLocks tx flags prevHeights block = some unlocked ∧
      (unlocked = true ↔ ∀ input ∈ tx.vin.zip prevHeights,
        Unlocked block block.nHeight (medianTimePast block.tail) input) := by
  obtain ⟨tip, parent, rest, rfl⟩ : ∃ tip parent rest, block = tip :: parent :: rest := by
    match block, hparent with
    | tip :: parent :: rest, _ => exact ⟨tip, parent, rest, rfl⟩
  have hblock : 0 < nHeight (tip :: parent :: rest) := by
    simp only [nHeight, length_cons]
    omega
  rw [sequenceLocks, calculateSequenceLocks, if_neg (not_not.mpr hlength),
    if_pos ⟨hversion, (flag_ne_zero (by decide)).mpr hflags⟩]
  refine ⟨_, rfl, ?_⟩
  have htime : 0 ≤ medianTimePast (tip :: parent :: rest).tail := medianTimePast_nonneg _
  rw [Bool.and_eq_true, decide_eq_true_eq, decide_eq_true_eq,
    foldl_lockInput_iff _ hblock.le fun _ hin => hheights _ (of_mem_zip hin).2]
  exact and_iff_right ⟨by omega, by omega⟩

/-- Two inputs that wait for three blocks, one of them too long. -/
theorem three_blocks_wait :
    let block : PIndex := replicate 9 ⟨0, 0, 0⟩
    ∃ unlocked, sequenceLocks ⟨2, [3, 3]⟩ 1 [5, 6] block = some unlocked ∧
      (unlocked = true ↔ ∀ input ∈ [(3, 5), (3, 6)],
        Unlocked block block.nHeight (medianTimePast block.tail) input) :=
  sequenceLocks_iff _ _ _ _ (by decide) (by decide) rfl (by decide) (by decide)

end HnbCore
