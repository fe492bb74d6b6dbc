import HnbCore.AssetDirectories

/-!
# Snapshot requests and ownership snapshots

Both databases key their entries by the decimal height followed by the asset name. A name may start
with a digit, so the key does not tell where the height ends.
-/

namespace HnbCore

open List KeyedSet

/-- `std::to_string` of a number that is not negative. -/
def decimal (n : Nat) : Bytes :=
  if n = 0 then [0x30] else (Nat.digits 10 n).reverse.map fun d => UInt8.ofNat (0x30 + d)

def heightAndName (name : Bytes) (height : Int) : Bytes :=
  (if height < 0 then 0x2d :: decimal height.natAbs else decimal height.natAbs) ++ name

structure CSnapshotRequestDBEntry where
  assetName : Bytes
  heightForSnapshot : Int
  deriving DecidableEq

structure CAssetSnapshotDBEntry where
  assetName : Bytes
  height : Int
  ownersAndAmounts : Finset (Bytes × CAmount)
  deriving DecidableEq

structure SnapshotDBs where
  requests : KeyedMap Bytes CSnapshotRequestDBEntry := .empty
  snapshots : KeyedMap Bytes CAssetSnapshotDBEntry := .empty

open SnapshotDBs

inductive SnapshotCall
  | scheduleSnapshot (assetName : Bytes) (height : Int)
  | removeSnapshotRequest (assetName : Bytes) (height : Int)
  | addAssetOwnershipSnapshot (assetName : Bytes) (height : Int) (assetsdb : AssetRecords)
  | removeOwnershipSnapshot (assetName : Bytes) (height : Int)

open SnapshotCall

def SnapshotCall.pair : SnapshotCall → Bytes × Int
  | .scheduleSnapshot name height | .removeSnapshotRequest name height
  | .addAssetOwnershipSnapshot name height _ | .removeOwnershipSnapshot name height => (name, height)

/-- The owners as they are retrieved, 100 at a time; an address that does not decode is left out. -/
def retrieveOwners (valid : Bytes → Bool) (assetsdb : AssetRecords) (assetName : Bytes) :
    Finset (Bytes × CAmount) :=
  (((List.range ((assetsdb.assetAddressTotal assetName + 99) / 100)).flatMap fun i =>
    assetsdb.assetAddressDir assetName 100 (i * 100 : Nat)).filter fun e => valid e.1).toFinset

namespace SnapshotDBs

variable (valid : Bytes → Bool) (s : SnapshotDBs) (name : Bytes)

def scheduleSnapshot (height : Int) : SnapshotDBs :=
  { s with requests := s.requests.assign (heightAndName name height, ⟨name, height⟩) }

def retrieveSnapshotRequest (height : Int) : Option CSnapshotRequestDBEntry :=
  (s.requests.find? (heightAndName name height)).map Prod.snd

def removeSnapshotRequest (height : Int) : SnapshotDBs :=
  { s with requests := s.requests.erase (heightAndName name height) }

/-- Nothing is written for an asset without owners. -/
def addAssetOwnershipSnapshot (assetsdb : AssetRecords) (name : Bytes) (height : Int) :
    SnapshotDBs :=
  let ownersAndAmounts := retrieveOwners valid assetsdb name
  if ownersAndAmounts = ∅ then s
  else { s with
    snapshots := s.snapshots.assign (heightAndName name height, ⟨name, height, ownersAndAmounts⟩) }

def retrieveOwnershipSnapshot (height : Int) : Option CAssetSnapshotDBEntry :=
  (s.snapshots.find? (heightAndName name height)).map Prod.snd

def removeOwnershipSnapshot (height : Int) : SnapshotDBs :=
  { s with snapshots := s.snapshots.erase (heightAndName name height) }

def step : SnapshotCall → SnapshotDBs
  | .scheduleSnapshot name height => s.scheduleSnapshot name height
  | .removeSnapshotRequest name height => s.removeSnapshotRequest name height
  | .addAssetOwnershipSnapshot name height db => s.addAssetOwnershipSnapshot valid db name height
  | .removeOwnershipSnapshot name height => s.removeOwnershipSnapshot name height

def lookups (p : Bytes × Int) : Option CSnapshotRequestDBEntry × Option CAssetSnapshotDBEntry :=
  (s.retrieveSnapshotRequest p.1 p.2, s.retrieveOwnershipSnapshot p.1 p.2)

end SnapshotDBs

/-- What a call leaves of the entries of one pair, if only calls for that pair change them. -/
def SnapshotCall.leaves (valid : Bytes → Bool) (p : Bytes × Int)
    (e : Option CSnapshotRequestDBEntry × Option CAssetSnapshotDBEntry) (call : SnapshotCall) :
    Option CSnapshotRequestDBEntry × Option CAssetSnapshotDBEntry :=
  if call.pair = p then
    match call with
    | .scheduleSnapshot name height => (some ⟨name, height⟩, e.2)
    | .removeSnapshotRequest _ _ => (none, e.2)
    | .addAssetOwnershipSnapshot name height db =>
        let owners := retrieveOwners valid db name
        (e.1, if owners = ∅ then e.2 else some ⟨name, height, owners⟩)
    | .removeOwnershipSnapshot _ _ => (e.1, none)
  else e

theorem isDigit_of_mem_decimal {n : Nat} {c : UInt8} (h : c ∈ decimal n) : isDigit c = true := by
  unfold decimal at h
  split at h
  · rw [mem_singleton.mp h]
    decide
  · obtain ⟨d, hd, rfl⟩ := mem_map.mp h
    have hlt : d < 10 := Nat.digits_lt_base (by decide) (mem_reverse.mp hd)
    interval_cases d <;> decide

theorem decimal_injective : Function.Injective decimal := by
  have hread (n : Nat) : Nat.ofDigits 10 ((decimal n).reverse.map fun c => c.toNat - 0x30) = n := by
    unfold decimal
    split
    · next hn => rw [hn]; rfl
    · have hdigit : ∀ d ∈ Nat.digits 10 n, (UInt8.ofNat (0x30 + d)).toNat - 0x30 = d := by
        intro d hd
        have hlt : d < 10 := Nat.digits_lt_base (by decide) hd
        interval_cases d <;> rfl
      simp only [map_reverse, reverse_reverse, map_map]
      exact (congrArg _ ((map_congr_left hdigit).trans (map_id' _))).trans
        (Nat.ofDigits_digits 10 n)
  intro m n h
  rw [← hread m, h, hread n]

/-- A name that starts with a digit may continue the height. -/
def startsWithDigit (name : Bytes) : Bool := name.head?.any isDigit

theorem decimal_append {m : Nat} {x : Bytes} (h : startsWithDigit x = false) :
    (decimal m ++ x).takeWhile isDigit = decimal m := by
  rw [takeWhile_append_of_pos fun c hc => isDigit_of_mem_decimal hc]
  cases x with
  | nil => simp
  | cons c x => simp_all [startsWithDigit]

theorem decimal_append_inj {m n : Nat} {x y : Bytes} (hx : startsWithDigit x = false)
    (hy : startsWithDigit y = false) (h : decimal m ++ x = decimal n ++ y) : m = n ∧ x = y := by
  have hdecimal : decimal m = decimal n := by
    rw [← decimal_append hx, h, decimal_append hy]
  rw [hdecimal] at h
  exact ⟨decimal_injective hdecimal, append_cancel_left h⟩

theorem minus_ne_decimal {n : Nat} {x y : Bytes} : 0x2d :: x ≠ decimal n ++ y := by
  intro h
  cases hd : decimal n with
  | nil =>
    unfold decimal at hd
    split at hd
    · cases hd
    · next hn => simp [Nat.digits_eq_nil_iff_eq_zero, hn] at hd
  | cons c rest =>
    have hc := isDigit_of_mem_decimal (n := n) (c := c) (by simp [hd])
    rw [hd] at h
    cases (List.cons.inj h).1
    exact absurd hc (by decide)

/-- Without leading digits in the names the keys differ. -/
theorem heightAndName_injOn :
    Set.InjOn (fun p : Bytes × Int => heightAndName p.1 p.2) {p | startsWithDigit p.1 = false} := by
  rintro ⟨x, a⟩ hx ⟨y, b⟩ hy h
  simp only [heightAndName] at h
  split_ifs at h with ha hb hb
  · obtain ⟨habs, rfl⟩ := decimal_append_inj hx hy (List.cons.inj h).2
    exact Prod.ext rfl (by omega)
  · exact absurd h minus_ne_decimal
  · exact absurd h.symm minus_ne_decimal
  · obtain ⟨habs, rfl⟩ := decimal_append_inj hx hy h
    exact Prod.ext rfl (by omega)

namespace SnapshotDBs

variable {valid : Bytes → Bool} {s : SnapshotDBs} {p : Bytes × Int}

/-- A call leaves the entries of a pair alone unless it is for the pair or for one with its key. -/
theorem lookups_step {call : SnapshotCall}
    (hkey : heightAndName call.pair.1 call.pair.2 = heightAndName p.1 p.2 → call.pair = p) :
    (s.step valid call).lookups p = call.leaves valid p (s.lookups p) := by
  by_cases hp : call.pair = p
  · subst hp
    cases call with
    | addAssetOwnershipSnapshot name height db =>
      by_cases hnone : retrieveOwners valid db name = ∅ <;>
        simp [step, lookups, leaves, pair, addAssetOwnershipSnapshot,
          retrieveOwnershipSnapshot, retrieveSnapshotRequest, hnone, find?_assign]
    | _ => simp [step, lookups, leaves, pair, scheduleSnapshot,
        removeSnapshotRequest, removeOwnershipSnapshot, retrieveOwnershipSnapshot,
        retrieveSnapshotRequest, find?_assign, find?_erase]
  · have hne := mt hkey hp
    cases call with
    | addAssetOwnershipSnapshot name height db =>
      by_cases hnone : retrieveOwners valid db name = ∅ <;>
        simp_all [step, lookups, leaves, pair, addAssetOwnershipSnapshot,
          retrieveOwnershipSnapshot, retrieveSnapshotRequest, find?_assign]
    | _ => simp_all [step, lookups, leaves, pair, scheduleSnapshot,
        removeSnapshotRequest, removeOwnershipSnapshot, retrieveOwnershipSnapshot,
        retrieveSnapshotRequest, find?_assign, find?_erase]

theorem lookups_run {S : Set (Bytes × Int)}
    (hS : S.InjOn fun p => heightAndName p.1 p.2) (hp : p ∈ S) {calls : List SnapshotCall}
    (hcalls : ∀ call ∈ calls, call.pair ∈ S) :
    (calls.foldl (step valid) s).lookups p =
      calls.foldl (leaves valid p) (s.lookups p) := by
  induction calls generalizing s with
  | nil => rfl
  | cons call calls ih =>
    rw [foldl_cons, foldl_cons, ih fun c hc => hcalls c (mem_cons_of_mem _ hc),
      lookups_step fun hkey => hS (hcalls call (by simp)) hp hkey]

end SnapshotDBs

/-- Lookups find what was stored for their own pair, for exactly those sets of pairs that have
different keys; names that do not start with a digit are such a set. -/
theorem lookups_own_iff (valid : Bytes → Bool) :
    (∀ S : Set (Bytes × Int),
      (∀ calls : List SnapshotCall, (∀ call ∈ calls, call.pair ∈ S) → ∀ p ∈ S,
        (calls.foldl (step valid) {}).lookups p =
          calls.foldl (leaves valid p) (none, none)) ↔
      S.InjOn fun p => heightAndName p.1 p.2) ∧
    Set.InjOn (fun p : Bytes × Int => heightAndName p.1 p.2) {p | startsWithDigit p.1 = false} := by
  refine ⟨fun S => ⟨fun h p hp q hq hkey => ?_, fun hS calls hcalls p hp => ?_⟩, heightAndName_injOn⟩
  · by_contra hne
    have hfound := congrArg Prod.fst (h [.scheduleSnapshot q.1 q.2]
      (forall_mem_singleton.mpr hq) p hp)
    have hkey' : heightAndName q.1 q.2 = heightAndName p.1 p.2 := hkey.symm
    simp [SnapshotDBs.step, SnapshotDBs.lookups, SnapshotDBs.scheduleSnapshot,
      SnapshotDBs.retrieveSnapshotRequest, leaves, pair,
      find?_assign, hkey', Ne.symm hne] at hfound
  · exact lookups_run hS hp hcalls

/-- The request for 1GOLD at height 1 is found as a request for GOLD at height 11. -/
theorem request_found_for_other_asset :
    isRootNameValid (str "1GOLD") = true ∧ isRootNameValid (str "GOLD") = true ∧
      (({} : SnapshotDBs).scheduleSnapshot (str "1GOLD") 1).retrieveSnapshotRequest (str "GOLD") 11 =
        some ⟨str "1GOLD", 1⟩ := by
  decide +kernel

end HnbCore
