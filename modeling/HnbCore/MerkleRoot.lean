import HnbCore.Lib.PaddedTree
import Mathlib.Data.Nat.Pairing

/-!
# The merkle root of a block

`MerkleComputation` reads the leaves one by one and keeps one subtree hash per bit of their count.
Only its first loop looks for equal siblings; the theorem at the end says that this is enough to
tell any two lists of one height apart.
-/

namespace HnbCore

open List Nat

variable {mutated : Bool} {count : Nat}

section

variable {α : Type} [DecidableEq α] (null : α) (pair : α → α → α)

/-- The loop over the levels below the lowest bit of `count`: the level it ends at, the hash for it
and whether equal siblings were met. -/
def combineBelow (inner : Nat → α) (count : Nat) : Nat → Nat → α → Bool → Nat × α × Bool
  | 0, level, h, mutated => (level, h, mutated)
  | fuel + 1, level, h, mutated =>
      if count.testBit level then (level, h, mutated)
      else
        combineBelow inner count fuel (level + 1) (pair (inner level) h)
          (mutated || inner level = h)

structure MerkleState (α : Type) where
  count : Nat
  inner : Nat → α
  mutated : Bool

/-- One round of the first loop. -/
def addLeaf (s : MerkleState α) (leaf : α) : MerkleState α :=
  let count := (s.count + 1) % 2 ^ 32
  let (level, h, mutated) := combineBelow pair s.inner count 32 0 leaf s.mutated
  ⟨count, Function.update s.inner level h, mutated⟩

/-- The levels below the lowest bit of `count`. -/
def skipLevels (count : Nat) : Nat → Nat → Nat
  | 0, level => level
  | fuel + 1, level => if count.testBit level then level else skipLevels count fuel (level + 1)

/-- The inner loop of the final sweep. -/
def propagate (inner : Nat → α) (count : Nat) : Nat → Nat → α → Nat × α
  | 0, level, h => (level, h)
  | fuel + 1, level, h =>
      if count.testBit level then (level, h)
      else propagate inner count fuel (level + 1) (pair (inner level) h)

/-- The final sweep over the rightmost branch. -/
def sweep (inner : Nat → α) : Nat → Nat → Nat → α → α
  | 0, _, _, h => h
  | fuel + 1, count, level, h =>
      if count = 2 ^ level then h
      else
        let count := (count + 2 ^ level) % 2 ^ 32
        let (level, h) := propagate pair inner count 32 (level + 1) (pair h h)
        sweep inner fuel count level h

/-- `MerkleComputation` without a branch: the root and whether the list is mutated. With more than
`2 ^ 31` leaves the 32-bit counter wraps around and the shifts are undefined, so that there is no
answer. -/
def merkleComputation (leaves : List α) : Option (α × Bool) :=
  if leaves.isEmpty then some (null, false)
  else if leaves.length > 2 ^ 31 then none
  else
    let s := leaves.foldl (addLeaf pair) ⟨0, fun _ => null, false⟩
    let level := skipLevels s.count 32 0
    some (sweep pair s.inner 32 s.count level (s.inner level), s.mutated)

def computeMerkleRoot (leaves : List α) : Option (α × Bool) := merkleComputation null pair leaves

def blockMerkleRoot {τ : Type} (getHash : τ → α) (vtx : List τ) : Option (α × Bool) :=
  computeMerkleRoot null pair (vtx.map getHash)

end

/-- The height of the tree over a number of leaves; there is none over no leaf. -/
def treeHeight (n : Nat) : Option Nat := if n = 0 then none else some (clog 2 n)

open PaddedTree

variable {α : Type} {null : α} {pair : α → α → α}

theorem testBit_pow_mul (level c : Nat) : (2 ^ level * c).testBit level = decide (c % 2 = 1) := by
  rw [Nat.testBit_eq_decide_div_mod_eq, Nat.mul_div_cancel_left c (by positivity)]

theorem pow_le_pow_mul (level c : Nat) : 2 ^ level ≤ 2 ^ level * (c + 1) :=
  Nat.le_mul_of_pos_right _ (Nat.succ_pos c)

section

variable [DecidableEq α] {xs : List α} {s : MerkleState α}

/-- The carry joins the new leaf with the subtrees below the lowest bit of the new count. -/
theorem combineBelow_spec {inner : Nat → α} (fuel level : Nat) {c : Nat} {h : α} {zs : List α}
    (hfuel : count < 2 ^ (level + fuel)) (hcount : count = 2 ^ level * (c + 1))
    (hstack : Stacked null pair inner mutated level c xs)
    (hnode : Node null pair level zs h mutated) (hsize : zs.length = 2 ^ level) :
    Stacked null pair
      (Function.update inner (combineBelow pair inner count fuel level h mutated).1
        (combineBelow pair inner count fuel level h mutated).2.1)
      (combineBelow pair inner count fuel level h mutated).2.2 0 count (xs ++ zs) := by
  induction fuel generalizing level c h mutated xs zs with
  | zero => exact absurd (hcount ▸ pow_le_pow_mul level c) (not_le.mpr hfuel)
  | succ fuel ih =>
    rw [combineBelow, hcount, testBit_pow_mul]
    obtain ⟨d, rfl | rfl⟩ := even_or_odd' c
    · -- the level was free: the subtree is put there
      rw [if_pos (by simp)]
      refine Stacked.down (.put ((hstack.of_even).congr fun i hi => ?_) hsize ?_)
      · exact Function.update_of_ne (by omega) _ _
      · rwa [Function.update_self]
    · rw [if_neg (by simp; omega)]
      obtain ⟨ys, ws, rfl, hws, hleft, hrest⟩ := hstack.of_odd
      have hjoin := (hleft.or (inner level = h)).join (hnode.or (inner level = h)) hws
        (by rw [hsize]; positivity) (by
          intro hno _
          simpa using (Bool.or_eq_false_iff.mp hno).2)
      rw [append_assoc, ← hcount]
      refine ih (level + 1) (by rw [add_right_comm]; exact hfuel) ?_ (hrest.or _) hjoin ?_
      · rw [hcount, pow_succ]
        ring
      · rw [length_append, hws, hsize, pow_succ]
        ring

theorem addLeaf_spec (x : α) (hroom : s.count < 2 ^ 31)
    (hstack : Stacked null pair s.inner s.mutated 0 s.count xs) :
    (addLeaf pair s x).count = s.count + 1 ∧
      Stacked null pair (addLeaf pair s x).inner (addLeaf pair s x).mutated 0
        (addLeaf pair s x).count (xs ++ [x]) := by
  have hcount : (s.count + 1) % 2 ^ 32 = s.count + 1 := mod_eq_of_lt (by omega)
  simp only [addLeaf, hcount, true_and]
  exact combineBelow_spec 32 0 (by omega) (by omega) hstack (Node.leaf x _) rfl

theorem foldl_addLeaf_spec (leaves : List α) (hroom : s.count + leaves.length ≤ 2 ^ 31)
    (hstack : Stacked null pair s.inner s.mutated 0 s.count xs) :
    (leaves.foldl (addLeaf pair) s).count = s.count + leaves.length ∧
      Stacked null pair (leaves.foldl (addLeaf pair) s).inner
        (leaves.foldl (addLeaf pair) s).mutated 0 (leaves.foldl (addLeaf pair) s).count
        (xs ++ leaves) := by
  induction leaves generalizing s xs with
  | nil => simpa using hstack
  | cons x rest ih =>
    rw [length_cons] at hroom
    obtain ⟨hcount, hnext⟩ := addLeaf_spec x (by omega) hstack
    obtain ⟨hcount', hrest⟩ := ih (by omega) hnext
    rw [foldl_cons]
    refine ⟨by rw [hcount', hcount, length_cons]; omega, ?_⟩
    simpa using hrest

end

/-- What the sweep has: the node over the last leaves `zs`, and before them `d` pairs of complete
subtrees of its size. -/
structure Swept (null : α) (pair : α → α → α) (inner : Nat → α) (mutated : Bool) (level d : Nat)
    (h : α) (ys zs : List α) : Prop where
  stacked : Stacked null pair inner mutated (level + 1) d ys
  node : Node null pair level zs h mutated
  pos : 0 < zs.length
  size : zs.length ≤ 2 ^ level
  tall : d = 0 → 2 ^ level < 2 * zs.length

variable {h : α} {inner : Nat → α} {ys zs : List α}

/-- The way up from a node that is not complete. -/
theorem propagate_spec (fuel level : Nat) {e : Nat}
    (hfuel : count < 2 ^ (level + fuel)) (hcount : count = 2 ^ level * (e + 1))
    (hstack : Stacked null pair inner mutated level e ys)
    (hnode : Node null pair level zs h mutated) (hpos : 0 < zs.length)
    (hsize : zs.length < 2 ^ level) (htall : e = 0 → 2 ^ level < 2 * zs.length) :
    ∃ level' d h' ys' zs', propagate pair inner count fuel level h = (level', h') ∧
      count = 2 ^ level' * (2 * d + 1) ∧ 2 * d ≤ e ∧ ys ++ zs = ys' ++ zs' ∧
      Swept null pair inner mutated level' d h' ys' zs' := by
  induction fuel generalizing level e h ys zs with
  | zero => exact absurd (hcount ▸ pow_le_pow_mul level e) (not_le.mpr hfuel)
  | succ fuel ih =>
    rw [propagate]
    obtain ⟨d, rfl | rfl⟩ := even_or_odd' e
    · refine ⟨level, d, h, ys, zs, ?_, hcount, le_rfl, rfl, hstack.of_even, hnode, hpos,
        hsize.le, fun hd => htall (by omega)⟩
      rw [if_pos (by rw [hcount, testBit_pow_mul]; simp)]
    · obtain ⟨ys', ws, rfl, hws, hleft, hrest⟩ := hstack.of_odd
      have hjoin := hleft.join hnode hws hpos fun _ hfull => absurd hfull hsize.ne
      have hlen : (ws ++ zs).length = 2 ^ level + zs.length := by rw [length_append, hws]
      obtain ⟨level', d', h', ys'', zs'', heq, hcount', hd, hparts, hswept⟩ :=
        ih (level + 1) (by rw [add_right_comm]; exact hfuel)
          (by rw [hcount, pow_succ]; ring) hrest hjoin (by omega)
          (by rw [hlen, pow_succ]; omega) (fun _ => by rw [hlen, pow_succ]; omega)
      refine ⟨level', d', h', ys'', zs'', ?_, hcount', by omega, ?_, hswept⟩
      · rw [if_neg (by rw [hcount, testBit_pow_mul]; simp; omega), heq]
      · rw [← hparts, append_assoc]

/-- The sweep ends with the root over all leaves, in a tree of least height. -/
theorem sweep_spec (fuel level d : Nat) (hfuel : d < 2 ^ fuel) (hroom : (ys ++ zs).length ≤ 2 ^ 31)
    (hswept : Swept null pair inner mutated level d h ys zs) :
    ∃ k, Node null pair k (ys ++ zs)
        (sweep pair inner (fuel + 1) (2 ^ level * (2 * d + 1)) level h) mutated ∧
      (ys ++ zs).length ≤ 2 ^ k ∧ 2 ^ k < 2 * (ys ++ zs).length := by
  induction fuel generalizing level d h ys zs with
  | zero =>
    obtain rfl : d = 0 := by omega
    obtain rfl := hswept.stacked.of_zero
    refine ⟨level, ?_, hswept.size, hswept.tall rfl⟩
    rw [sweep, if_pos (by simp)]
    exact hswept.node
  | succ fuel ih =>
    rw [sweep]
    by_cases hd : d = 0
    · subst hd
      obtain rfl := hswept.stacked.of_zero
      refine ⟨level, ?_, hswept.size, hswept.tall rfl⟩
      rw [if_pos (by simp)]
      exact hswept.node
    · have hpow : 0 < 2 ^ level := by positivity
      have hne : 2 ^ level * (2 * d + 1) ≠ 2 ^ level := by
        intro heq
        have := Nat.eq_of_mul_eq_mul_left hpow (heq.trans (Nat.mul_one _).symm)
        omega
      have hlen := hswept.stacked.length
      have hcount : 2 ^ level * (2 * d + 1) + 2 ^ level = 2 ^ (level + 1) * (d + 1) := by
        rw [pow_succ]
        ring
      have hsmall : 2 ^ (level + 1) * (d + 1) < 2 ^ 32 := by
        have hone : 2 ^ (level + 1) * 1 ≤ 2 ^ (level + 1) * d := mul_le_mul_left _ (by omega)
        have hpos := hswept.pos
        rw [length_append] at hroom
        rw [mul_add]
        omega
      rw [if_neg hne, hcount, mod_eq_of_lt hsmall]
      have hnode := hswept.node.double hswept.size
      have hpartial : zs.length < 2 ^ (level + 1) := by
        have := hswept.size
        rw [pow_succ]
        omega
      have hfuel32 : 2 ^ (level + 1) * (d + 1) < 2 ^ (level + 1 + 32) :=
        lt_of_lt_of_le hsmall (Nat.pow_le_pow_right (by decide) (by omega))
      obtain ⟨level', d', h', ys', zs', heq, hcount', hd', hparts, hnext⟩ :=
        propagate_spec 32 (level + 1) hfuel32 rfl hswept.stacked hnode hswept.pos hpartial
          (fun h => absurd h hd)
      dsimp only
      rw [heq, hparts, hcount']
      rw [hparts] at hroom
      exact ih level' d' (by rw [pow_succ] at hfuel; omega) hroom hnext

theorem skipLevels_spec (fuel level : Nat) {c : Nat} {xs : List α}
    (hfuel : count < 2 ^ (level + fuel)) (hpos : 0 < count) (hcount : count = 2 ^ level * c)
    (hstack : Stacked null pair inner mutated level c xs) :
    ∃ d ys zs, count = 2 ^ skipLevels count fuel level * (2 * d + 1) ∧ xs = ys ++ zs ∧
      Swept null pair inner mutated (skipLevels count fuel level) d
        (inner (skipLevels count fuel level)) ys zs := by
  induction fuel generalizing level c with
  | zero =>
    obtain ⟨e, rfl⟩ := exists_eq_succ_of_ne_zero (show c ≠ 0 by rintro rfl; omega)
    exact absurd (hcount ▸ pow_le_pow_mul level e) (not_le.mpr hfuel)
  | succ fuel ih =>
    rw [skipLevels]
    obtain ⟨d, rfl | rfl⟩ := even_or_odd' c
    · rw [if_neg (by rw [hcount, testBit_pow_mul]; simp)]
      exact ih (level + 1) (by rw [add_right_comm]; exact hfuel)
        (by rw [hcount, pow_succ]; ring) hstack.of_even
    · rw [if_pos (by rw [hcount, testBit_pow_mul]; simp)]
      obtain ⟨ys, zs, hparts, hsize, hnode, hrest⟩ := hstack.of_odd
      have hpow : 0 < 2 ^ level := by positivity
      exact ⟨d, ys, zs, hcount, hparts, hrest, hnode, by omega, hsize.le, fun _ => by omega⟩

/-- The streaming computation gives the root of the tree of least height over the leaves, and
reports every tree that is not clean. -/
theorem merkleComputation_node [DecidableEq α] {leaves : List α} (hne : leaves ≠ [])
    (hroot : merkleComputation null pair leaves = some (h, mutated)) :
    Node null pair (clog 2 leaves.length) leaves h mutated := by
  have hempty : leaves.isEmpty = false := by simpa using hne
  have hpos := length_pos_of_ne_nil hne
  by_cases hlong : leaves.length > 2 ^ 31
  · rw [merkleComputation, hempty, if_neg Bool.false_ne_true, if_pos hlong] at hroot
    cases hroot
  · simp only [merkleComputation, hempty, Bool.false_eq_true, if_false, if_neg hlong,
      Option.some.injEq, Prod.mk.injEq] at hroot
    obtain ⟨hvalue, hmutated⟩ := hroot
    have hstart : Stacked null pair (fun _ => null) false 0 0 [] := .empty 0
    obtain ⟨hcount, hstack⟩ := foldl_addLeaf_spec (s := ⟨0, fun _ => null, false⟩) leaves
      (by simpa using hlong) hstart
    generalize leaves.foldl (addLeaf pair) ⟨0, fun _ => null, false⟩ = s at *
    rw [zero_add] at hcount
    rw [nil_append, hmutated] at hstack
    have hfuel : s.count < 2 ^ (0 + 32) := by omega
    obtain ⟨d, ys, zs, hbits, hparts, hswept⟩ :=
      skipLevels_spec 32 0 hfuel (by omega) (by rw [pow_zero, one_mul]) hstack
    have hd : d < 2 ^ 31 := by
      have := pow_le_pow_mul (skipLevels s.count 32 0) (2 * d)
      have : 2 * d + 1 ≤ s.count := by
        conv_rhs => rw [hbits]
        exact Nat.le_mul_of_pos_left _ (by positivity)
      omega
    obtain ⟨k, hnode, hfits, htall⟩ := sweep_spec 31 _ d hd (by rw [← hparts]; omega) hswept
    rw [← hbits, hvalue, ← hparts] at hnode
    rw [← hparts] at hfits htall
    have hk : clog 2 leaves.length = k := by
      apply le_antisymm
      · exact clog_le_of_le_pow hfits
      · by_contra hlt
        have hle : leaves.length ≤ 2 ^ (k - 1) := by
          calc leaves.length ≤ 2 ^ Nat.clog 2 leaves.length := Nat.le_pow_clog (by decide) _
            _ ≤ 2 ^ (k - 1) := Nat.pow_le_pow_right (by decide) (by omega)
        have hsucc : 2 ^ k = 2 ^ (k - 1) * 2 := by
          rw [← pow_succ]
          congr 1
          omega
        omega
    rw [hk]
    exact hnode

/-- Two lists that need trees of one height and are not reported as mutated have different roots
unless they are the same list. -/
theorem merkleRoot_injective [DecidableEq α]
    (hpair : ∀ a b c d, pair a b = pair c d → a = c ∧ b = d) (xs ys : List α)
    (hheight : treeHeight xs.length = treeHeight ys.length) (h : α)
    (hxs : computeMerkleRoot null pair xs = some (h, false))
    (hys : computeMerkleRoot null pair ys = some (h, false)) : xs = ys := by
  by_cases hx : xs = []
  · by_cases hy : ys = []
    · rw [hx, hy]
    · have := length_pos_of_ne_nil hy
      simp [treeHeight, hx, hy] at hheight
  · by_cases hy : ys = []
    · simp [treeHeight, hx, hy] at hheight
    · have hclog : clog 2 xs.length = clog 2 ys.length := by
        simpa [treeHeight, hx, hy] using hheight
      have hnx := merkleComputation_node hx hxs
      have hny := merkleComputation_node hy hys
      rw [← hclog] at hny
      exact root_injective hpair _
        ⟨length_pos_of_ne_nil hx, le_pow_clog (by decide) _⟩
        ⟨length_pos_of_ne_nil hy, hclog ▸ le_pow_clog (by decide) _⟩
        (hnx.clean rfl) (hny.clean rfl) (hnx.value.symm.trans hny.value)

/-- Three leaves and the same three leaves, with numbers for hashes and a pairing for the hash. -/
theorem three_leaves_injective :
    (∀ a b c d, Nat.pair a b = Nat.pair c d → a = c ∧ b = d) ∧
      computeMerkleRoot 0 Nat.pair [1, 2, 3] = some (Nat.pair (Nat.pair 1 2) (Nat.pair 3 3), false) ∧
      [1, 2, 3] = [1, 2, 3] := by
  have hpair : ∀ a b c d, Nat.pair a b = Nat.pair c d → a = c ∧ b = d :=
    fun _ _ _ _ => Nat.pair_eq_pair.mp
  have hroot : computeMerkleRoot 0 Nat.pair [1, 2, 3] =
      some (Nat.pair (Nat.pair 1 2) (Nat.pair 3 3), false) := by decide +kernel
  exact ⟨hpair, hroot, merkleRoot_injective hpair _ _ rfl _ hroot hroot⟩

/-- The repeated leaf of a list one longer is reported. -/
example : computeMerkleRoot 0 Nat.pair [1, 2, 3, 3] =
    some (Nat.pair (Nat.pair 1 2) (Nat.pair 3 3), true) := by decide +kernel

end HnbCore
