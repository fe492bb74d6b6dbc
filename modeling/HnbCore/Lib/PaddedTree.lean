import Mathlib.Data.Nat.Log
import Mathlib.Tactic.Ring
import Mathlib.Tactic.Positivity

/-!
# Hash trees that repeat their last node

The root of a tree of a given height over a list of leaves, where a subtree without a right half
is hashed with itself. A list is told from every other list by its root as long as no two complete
siblings in either tree are equal.
-/

namespace PaddedTree

open List

variable {α : Type} (null : α) (pair : α → α → α)

def root : Nat → List α → α
  | 0, xs => xs.headD null
  | k + 1, xs =>
      if xs.length ≤ 2 ^ k then pair (root k xs) (root k xs)
      else pair (root k (xs.take (2 ^ k))) (root k (xs.drop (2 ^ k)))

/-- No node of the tree has two complete halves that are equal. -/
def Clean : Nat → List α → Prop
  | 0, _ => True
  | k + 1, xs =>
      if xs.length ≤ 2 ^ k then Clean k xs
      else Clean k (xs.take (2 ^ k)) ∧ Clean k (xs.drop (2 ^ k)) ∧
        (xs.length = 2 ^ (k + 1) →
          root null pair k (xs.take (2 ^ k)) ≠ root null pair k (xs.drop (2 ^ k)))

variable {null pair} {k : Nat} {xs ys : List α} {h : α} {mutated : Bool}

theorem length_halves (hsize : xs.length ≤ 2 ^ (k + 1)) (hlong : ¬xs.length ≤ 2 ^ k) :
    (xs.take (2 ^ k)).length = 2 ^ k ∧ 0 < (xs.drop (2 ^ k)).length ∧
      (xs.drop (2 ^ k)).length ≤ 2 ^ k := by
  rw [pow_succ] at hsize
  rw [length_take, length_drop]
  omega

/-- A tree over at most half the leaves is never that of a clean list with more of them: the
halves of the longer list would be equal, and complete. -/
theorem root_injective (hpair : ∀ a b c d, pair a b = pair c d → a = c ∧ b = d) (k : Nat)
    (hxs : 0 < xs.length ∧ xs.length ≤ 2 ^ k)
    (hys : 0 < ys.length ∧ ys.length ≤ 2 ^ k) (hcx : Clean null pair k xs)
    (hcy : Clean null pair k ys) (hroot : root null pair k xs = root null pair k ys) :
    xs = ys := by
  induction k generalizing xs ys with
  | zero =>
    obtain ⟨x, rfl⟩ := length_eq_one_iff.mp (show xs.length = 1 by omega)
    obtain ⟨y, rfl⟩ := length_eq_one_iff.mp (show ys.length = 1 by omega)
    simpa [root] using hroot
  | succ k ih =>
    -- a clean list that does not fit the left half has a root unlike any node hashed with itself
    have hdouble : ∀ {zs : List α} {r : α}, 0 < zs.length → zs.length ≤ 2 ^ (k + 1) →
        ¬zs.length ≤ 2 ^ k → Clean null pair (k + 1) zs →
        root null pair (k + 1) zs ≠ pair r r := by
      intro zs r _ hsize hlong hclean heq
      obtain ⟨htake, hpos, hdrop⟩ := length_halves hsize hlong
      rw [Clean, if_neg hlong] at hclean
      rw [root, if_neg hlong] at heq
      obtain ⟨hleft, hright⟩ := hpair _ _ _ _ heq
      have hhalves : zs.take (2 ^ k) = zs.drop (2 ^ k) :=
        ih ⟨by rw [htake]; positivity, htake.le⟩ ⟨hpos, hdrop⟩ hclean.1 hclean.2.1
          (hleft.trans hright.symm)
      have hfull : zs.length = 2 ^ (k + 1) := by
        have hlen := congrArg length hhalves
        rw [htake, length_drop] at hlen
        rw [pow_succ]
        omega
      exact hclean.2.2 hfull (hleft.trans hright.symm)
    by_cases hx : xs.length ≤ 2 ^ k
    · by_cases hy : ys.length ≤ 2 ^ k
      · rw [Clean, if_pos hx] at hcx
        rw [Clean, if_pos hy] at hcy
        rw [root, root, if_pos hx, if_pos hy] at hroot
        exact ih ⟨hxs.1, hx⟩ ⟨hys.1, hy⟩ hcx hcy (hpair _ _ _ _ hroot).1
      · rw [root, if_pos hx] at hroot
        exact absurd hroot.symm (hdouble hys.1 hys.2 hy hcy)
    · by_cases hy : ys.length ≤ 2 ^ k
      · have hself : root null pair (k + 1) ys = pair (root null pair k ys) (root null pair k ys) := by
          rw [root, if_pos hy]
        exact absurd (hroot.trans hself) (hdouble hxs.1 hxs.2 hx hcx)
      · obtain ⟨hxtake, hxpos, hxdrop⟩ := length_halves hxs.2 hx
        obtain ⟨hytake, hypos, hydrop⟩ := length_halves hys.2 hy
        rw [Clean, if_neg hx] at hcx
        rw [Clean, if_neg hy] at hcy
        rw [root, root, if_neg hx, if_neg hy] at hroot
        obtain ⟨hleft, hright⟩ := hpair _ _ _ _ hroot
        have htake := ih ⟨by rw [hxtake]; positivity, hxtake.le⟩
          ⟨by rw [hytake]; positivity, hytake.le⟩ hcx.1 hcy.1 hleft
        have hdrop := ih ⟨hxpos, hxdrop⟩ ⟨hypos, hydrop⟩ hcx.2.1 hcy.2.1 hright
        rw [← take_append_drop (2 ^ k) xs, htake, hdrop, take_append_drop]

/-- The value `h` is the root over `xs`, and unless `mutated` the tree is clean. -/
structure Node (null : α) (pair : α → α → α) (k : Nat) (xs : List α) (h : α) (mutated : Bool) :
    Prop where
  value : h = root null pair k xs
  clean : mutated = false → Clean null pair k xs

theorem Node.leaf (x : α) (mutated : Bool) : Node null pair 0 [x] x mutated :=
  ⟨rfl, fun _ => trivial⟩

theorem Node.or (hnode : Node null pair k xs h mutated) (more : Bool) :
    Node null pair k xs h (mutated || more) :=
  ⟨hnode.value, fun hno => hnode.clean (Bool.or_eq_false_iff.mp hno).1⟩

theorem Node.double (hnode : Node null pair k xs h mutated) (hsize : xs.length ≤ 2 ^ k) :
    Node null pair (k + 1) xs (pair h h) mutated := by
  refine ⟨?_, fun hno => ?_⟩
  · rw [root, if_pos hsize, hnode.value]
  · rw [Clean, if_pos hsize]
    exact hnode.clean hno

/-- Two nodes are joined; where both are complete they have to differ. -/
theorem Node.join {a b : α}
    (hx : Node null pair k xs a mutated) (hy : Node null pair k ys b mutated)
    (hxs : xs.length = 2 ^ k) (hys : 0 < ys.length)
    (hne : mutated = false → ys.length = 2 ^ k → a ≠ b) :
    Node null pair (k + 1) (xs ++ ys) (pair a b) mutated := by
  have hlong : ¬(xs ++ ys).length ≤ 2 ^ k := by
    rw [length_append]
    omega
  have htake : (xs ++ ys).take (2 ^ k) = xs := by rw [← hxs, take_left]
  have hdrop : (xs ++ ys).drop (2 ^ k) = ys := by rw [← hxs, drop_left]
  refine ⟨?_, fun hno => ?_⟩
  · rw [root, if_neg hlong, htake, hdrop, hx.value, hy.value]
  · rw [Clean, if_neg hlong, htake, hdrop, ← hx.value, ← hy.value]
    refine ⟨hx.clean hno, hy.clean hno, fun hfull => hne hno ?_⟩
    rw [length_append, pow_succ] at hfull
    omega

/-- The leaves so far as complete subtrees, one for each bit of `count`: level `l` upwards, each
with its root in `inner`. -/
inductive Stacked (null : α) (pair : α → α → α) (inner : Nat → α) (mutated : Bool) :
    Nat → Nat → List α → Prop
  | empty (l : Nat) : Stacked null pair inner mutated l 0 []
  | skip {l count : Nat} {xs : List α} (h : Stacked null pair inner mutated (l + 1) count xs) :
      Stacked null pair inner mutated l (2 * count) xs
  | put {l count : Nat} {xs ys : List α} (h : Stacked null pair inner mutated (l + 1) count xs)
      (size : ys.length = 2 ^ l) (node : Node null pair l ys (inner l) mutated) :
      Stacked null pair inner mutated l (2 * count + 1) (xs ++ ys)

namespace Stacked

variable {inner : Nat → α} {mutated : Bool} {l count : Nat} {xs : List α}

theorem length (h : Stacked null pair inner mutated l count xs) : xs.length = 2 ^ l * count := by
  induction h with
  | empty l => simp
  | skip _ ih =>
    rw [ih, pow_succ]
    ring
  | put _ size _ ih =>
    rw [length_append, ih, size, pow_succ]
    ring

theorem of_even (h : Stacked null pair inner mutated l (2 * count) xs) :
    Stacked null pair inner mutated (l + 1) count xs := by
  generalize hc : 2 * count = c at h
  cases h with
  | empty =>
    obtain rfl : count = 0 := by omega
    exact .empty _
  | @skip _ c _ h =>
    obtain rfl : count = c := by omega
    exact h
  | put => omega

theorem of_odd (h : Stacked null pair inner mutated l (2 * count + 1) xs) :
    ∃ ys zs, xs = ys ++ zs ∧ zs.length = 2 ^ l ∧ Node null pair l zs (inner l) mutated ∧
      Stacked null pair inner mutated (l + 1) count ys := by
  generalize hc : 2 * count + 1 = c at h
  cases h with
  | empty => omega
  | skip => omega
  | @put _ c _ _ h size node =>
    obtain rfl : count = c := by omega
    exact ⟨_, _, rfl, size, node, h⟩

theorem of_zero (h : Stacked null pair inner mutated l 0 xs) : xs = [] := by
  have := h.length
  rwa [mul_zero, length_eq_zero_iff] at this

/-- Only the entries from level `l` on are read. -/
theorem congr {inner' : Nat → α} (h : Stacked null pair inner mutated l count xs)
    (hinner : ∀ i, l ≤ i → inner' i = inner i) : Stacked null pair inner' mutated l count xs := by
  induction h with
  | empty l => exact .empty l
  | skip _ ih => exact .skip (ih fun i hi => hinner i (by omega))
  | put _ size node ih =>
    exact .put (ih fun i hi => hinner i (by omega)) size (hinner _ le_rfl ▸ node)

theorem or (h : Stacked null pair inner mutated l count xs) (more : Bool) :
    Stacked null pair inner (mutated || more) l count xs := by
  induction h with
  | empty l => exact .empty l
  | skip _ ih => exact .skip ih
  | put _ size node ih => exact .put ih size (node.or more)

theorem down (h : Stacked null pair inner mutated l count xs) :
    Stacked null pair inner mutated 0 (2 ^ l * count) xs := by
  induction l generalizing count with
  | zero => simpa using h
  | succ l ih =>
    have := ih h.skip
    rwa [← mul_assoc, ← pow_succ] at this

end Stacked

end PaddedTree
