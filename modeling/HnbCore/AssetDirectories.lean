import HnbCore.AssetCache
import Mathlib.Data.Prod.Lex
import Mathlib.Data.List.Lex

/-!
# Directories of the assets database

`AssetDir`, `AddressDir` and `AssetAddressDir` move a cursor over the database in key order. A
negative start is turned into an offset by counting the matches first; the cursor then starts again
at the first record of the database, which is an asset whenever there is one.
-/

namespace HnbCore

open List

/-- The records of the assets database. A quantity is kept under the asset and the address and under
the address and the asset. What is not read by a directory has a later flag. -/
inductive DirRecord
  | asset (name : Bytes) (data : CDatabasedAssetData)
  | quantity (byAddress : Bool) (first second : Bytes) (amount : CAmount)
  | other (flag : Nat) (later : 0x43 < flag) (key : Bytes)

/-- In a key every string stands behind its length. -/
def stringKey (s : Bytes) : ℕ ×ₗ List ℕ := toLex (s.length, s.map UInt8.toNat)

/-- The flag and the first string of a key. -/
def dirKey (flag : Nat) (first : Bytes) : ℕ ×ₗ ℕ ×ₗ List ℕ := toLex (flag, stringKey first)

def quantityFlag (byAddress : Bool) : Nat := if byAddress then 0x43 else 0x42

def DirRecord.flag : DirRecord → Nat
  | .asset _ _ => 0x41
  | .quantity byAddress _ _ _ => quantityFlag byAddress
  | .other flag _ _ => flag

def DirRecord.first : DirRecord → Bytes
  | .asset first _ | .quantity _ first _ _ | .other _ _ first => first

def DirRecord.key (r : DirRecord) : ℕ ×ₗ ℕ ×ₗ List ℕ := dirKey r.flag r.first

/-- The database in key order, with no more records than a `long` counts. -/
structure AssetRecords where
  records : List DirRecord
  sorted : records.Pairwise fun a b => a.key ≤ b.key
  counted : records.length < 2 ^ 63

variable {α : Type} {read : DirRecord → Option (Option α)}

/-- The loading loop. `read` has no value where the loop breaks off, and `some none` where a record
does not match. -/
def load (read : DirRecord → Option (Option α)) (count skip : Nat) :
    Nat → Nat → List DirRecord → List α
  | _, _, [] => []
  | loaded, offset, r :: rest =>
      if loaded < count then
        match read r with
        | none => []
        | some none => load read count skip loaded offset rest
        | some (some a) =>
            if offset < skip then load read count skip loaded (offset + 1) rest
            else a :: load read count skip (loaded + 1) offset rest
      else []

/-- What matches, in key order. -/
def matchesOf (read : DirRecord → Option (Option α)) (l : List DirRecord) : List α :=
  l.filterMap fun r => (read r).join

namespace AssetRecords

variable (db : AssetRecords)

/-- `Seek`: the records from the first key that is not smaller on. -/
def seek (flag : Nat) (first : Bytes) : List DirRecord :=
  db.records.dropWhile fun r => decide (r.key < dirKey flag first)

/-- The two loops that the directories share; the offset is a `size_t`. -/
def dir (cursor : List DirRecord) (read : DirRecord → Option (Option α))
    (count : Nat) (start : Int) : List α :=
  if 0 ≤ start then load read count start.toNat 0 0 cursor
  else
    let table_size : Int := (matchesOf read cursor).length
    load read count ((table_size + start) % 2 ^ 64).toNat 0 0 db.records

def readAsset (filter : Bytes) : DirRecord → Option (Option CDatabasedAssetData)
  | .asset name data =>
      let wildcard := filter.getLast? = some 0x2a
      let pre := if wildcard then filter.dropLast else filter
      some (if pre = [] ∨ (wildcard ∧ pre <+: name) ∨ (¬wildcard ∧ name = pre) then some data
        else none)
  | _ => none

def assetDir (filter : Bytes) (count : Nat) (start : Int) : List CDatabasedAssetData :=
  db.dir (db.seek 0x41 []) (readAsset filter) count start

def readQuantity (byAddress : Bool) (first : Bytes) : DirRecord → Option (Option (Bytes × CAmount))
  | .quantity b f second amount =>
      if b = byAddress ∧ f = first then some (some (second, amount)) else none
  | _ => none

def maxDatabaseResults : Nat := 50000

def quantityDir (byAddress : Bool) (first : Bytes) (count : Nat) (start : Int) :
    List (Bytes × CAmount) :=
  db.dir (db.seek (quantityFlag byAddress) first) (readQuantity byAddress first)
    (min count maxDatabaseResults) start

def addressDir (address : Bytes) := db.quantityDir true address

def assetAddressDir (assetName : Bytes) := db.quantityDir false assetName

/-- `AssetAddressDir` when only the total is asked for. -/
def assetAddressTotal (assetName : Bytes) : Nat :=
  (matchesOf (readQuantity false assetName) (db.seek 0x42 assetName)).length

end AssetRecords

theorem load_eq (count skip loaded offset : Nat) (l : List DirRecord) :
    load read count skip loaded offset l =
      ((matchesOf read (l.takeWhile fun r => (read r).isSome)).drop (skip - offset)).take
        (count - loaded) := by
  induction l generalizing loaded offset with
  | nil => simp [load, matchesOf]
  | cons r rest ih =>
    unfold load
    by_cases hcount : loaded < count
    · rw [if_pos hcount]
      match hread : read r with
      | none => simp [hread, matchesOf]
      | some none => simp [hread, matchesOf, ih]
      | some (some a) =>
        have hmatches : matchesOf read ((r :: rest).takeWhile fun r => (read r).isSome) =
            a :: matchesOf read (rest.takeWhile fun r => (read r).isSome) := by
          simp [hread, matchesOf]
        rw [hmatches]
        by_cases hskip : offset < skip
        · obtain ⟨n, hn⟩ : ∃ n, skip - offset = n + 1 := ⟨skip - offset - 1, by omega⟩
          simp only [if_pos hskip]
          rw [ih, hn, drop_succ_cons, show skip - (offset + 1) = n by omega]
        · obtain ⟨n, hn⟩ : ∃ n, count - loaded = n + 1 := ⟨count - loaded - 1, by omega⟩
          simp only [if_neg hskip]
          rw [ih, hn, show skip - offset = 0 by omega, drop_zero, drop_zero,
            take_succ_cons, show count - (loaded + 1) = n by omega]
    · rw [if_neg hcount, show count - loaded = 0 by omega, take_zero]

/-- Pages of one size follow each other without gap or repetition. -/
theorem pages_eq_take (l : List α) (count pages : Nat) :
    (List.range pages).flatMap (fun i => (l.drop (i * count)).take count) =
      l.take (pages * count) := by
  induction pages with
  | zero => simp
  | succ n ih => simp [range_succ, flatMap_append, ih, Nat.succ_mul, take_add]

/-- A stretch of keys that starts at the one sought is passed as a whole. -/
theorem takeWhile_dropWhile {κ : Type} [LinearOrder κ] {key : α → κ} {t : κ} {p : α → Bool}
    {l : List α} (hl : l.Pairwise fun a b => key a ≤ key b) (hfrom : ∀ a, p a = true → t ≤ key a)
    (hconvex : ∀ a b, t ≤ key a → key a ≤ key b → p b = true → p a = true) :
    (l.dropWhile fun a => decide (key a < t)).takeWhile p = l.filter p := by
  induction l with
  | nil => rfl
  | cons a l ih =>
    obtain ⟨ha, hl⟩ := pairwise_cons.mp hl
    by_cases hlt : key a < t
    · have hp : p a = false := Bool.eq_false_iff.mpr fun h => absurd (hfrom a h) (not_le.mpr hlt)
      simp [hlt, hp, ih hl]
    · rw [dropWhile_cons_of_neg (by simpa using hlt)]
      cases hp : p a with
      | true =>
        have hnext : l.dropWhile (fun b => decide (key b < t)) = l := by
          cases l with
          | nil => rfl
          | cons b l => simp [not_lt.mpr ((not_lt.mp hlt).trans (ha b (by simp)))]
        have htail := ih hl
        rw [hnext] at htail
        simp [hp, htail]
      | false =>
        have hnone : l.filter p = [] := by
          rw [filter_eq_nil_iff]
          intro b hb hpb
          rw [hconvex a b (not_lt.mp hlt) (ha b hb) hpb] at hp
          cases hp
        simp [hp, hnone]

theorem stringKey_injective : Function.Injective stringKey := by
  intro s t h
  exact map_injective_iff.mpr (fun _ _ => UInt8.toNat_inj.mp) (Prod.ext_iff.mp h).2

namespace AssetRecords

variable (db : AssetRecords)

/-- The last `k` entries, cut to `count`. -/
def lastEntries (entries : List α) (k count : Nat) : List α :=
  (entries.drop (entries.length - k)).take count

/-- The first record of the database belongs to the directory. -/
def leads (db : AssetRecords) (read : DirRecord → Option (Option α)) : Bool :=
  db.records.head?.any fun r => (read r).isSome

theorem seek_takeWhile {flag : Nat} {first : Bytes} {p : DirRecord → Bool}
    (hp : ∀ r, p r = true ↔ r.flag = flag ∧ r.first = first) :
    (db.seek flag first).takeWhile p = db.records.filter p := by
  refine takeWhile_dropWhile db.sorted (fun r hr => ?_) fun r s hfrom hle hs => ?_
  · obtain ⟨rfl, rfl⟩ := (hp r).mp hr
    exact le_refl _
  · obtain ⟨rfl, rfl⟩ := (hp s).mp hs
    obtain ⟨hflag, hfirst⟩ := Prod.ext_iff.mp (toLex.injective (le_antisymm hle hfrom))
    exact (hp r).mpr ⟨hflag, stringKey_injective hfirst⟩

theorem asset_le_flag (r : DirRecord) : 0x41 ≤ r.flag := by
  rcases r with _ | ⟨_ | _, _⟩ | ⟨flag, later, _⟩
  all_goals simp only [DirRecord.flag, quantityFlag]; grind

/-- Assets come first, so the cursor is at the first record. -/
theorem asset_le_key (r : DirRecord) : dirKey 0x41 [] ≤ r.key := by
  refine Prod.Lex.toLex_mono ⟨asset_le_flag r, ?_⟩
  refine Prod.Lex.toLex_mono ⟨Nat.zero_le _, ?_⟩
  cases r.first with
  | nil => exact le_refl _
  | cons c rest => exact (nil_lt_cons _ _).le

theorem seek_assets : db.seek 0x41 [] = db.records := by
  cases h : db.records with
  | nil => simp [seek, h]
  | cons r rest => simp [seek, h, asset_le_key r]

theorem takeWhile_assets {p : DirRecord → Bool} (hp : ∀ r, p r = true ↔ r.flag = 0x41) :
    (db.seek 0x41 []).takeWhile p = db.records.filter p := by
  refine takeWhile_dropWhile db.sorted (fun r _ => asset_le_key r) fun r s _ hle hs => ?_
  have hflag : r.flag ≤ s.flag := Prod.Lex.monotone_fst _ _ hle
  exact (hp r).mpr (le_antisymm (hflag.trans_eq ((hp s).mp hs)) (asset_le_flag r))

theorem matchesOf_filter (l : List DirRecord) :
    matchesOf read (l.filter fun r => (read r).isSome) = matchesOf read l := by
  rw [matchesOf, filterMap_filter]
  refine filterMap_congr fun r _ => ?_
  cases read r <;> rfl

theorem assetDir_eq (filter : Bytes) (count skip : Nat) :
    load (readAsset filter) count skip 0 0 db.records =
      ((matchesOf (readAsset filter) db.records).drop skip).take count := by
  rw [← seek_assets, load_eq, db.takeWhile_assets, matchesOf_filter, seek_assets]
  · rfl
  · rintro (_ | ⟨_ | _, _⟩ | ⟨flag, later, _⟩) <;> simp [readAsset, DirRecord.flag, quantityFlag]
    grind

theorem isSome_readQuantity (byAddress : Bool) (first : Bytes) (r : DirRecord) :
    (readQuantity byAddress first r).isSome = true ↔
      r.flag = quantityFlag byAddress ∧ r.first = first := by
  rcases r with _ | ⟨_ | _, _⟩ | ⟨flag, later, _⟩ <;> cases byAddress <;>
    simp [readQuantity, DirRecord.flag, DirRecord.first, quantityFlag] <;> grind

theorem quantityDir_eq (byAddress : Bool) (first : Bytes) (count s : Nat) :
    db.quantityDir byAddress first count s =
      ((matchesOf (readQuantity byAddress first) db.records).drop s).take
        (min count maxDatabaseResults) := by
  rw [quantityDir, dir, if_pos (Int.natCast_nonneg s), load_eq,
    db.seek_takeWhile (isSome_readQuantity byAddress first), matchesOf_filter]
  rfl

/-- What is in front of the cursor does not match. -/
theorem matchesOf_seek {flag : Nat} {first : Bytes}
    (hread : ∀ r, (read r).isSome = true ↔ r.flag = flag ∧ r.first = first) :
    matchesOf read (db.seek flag first) = matchesOf read db.records := by
  rw [seek, matchesOf, matchesOf]
  generalize db.records = l
  induction l with
  | nil => rfl
  | cons r rest ih =>
    by_cases hlt : r.key < dirKey flag first
    · have hnone : read r = none := by
        by_contra hsome
        obtain ⟨rfl, rfl⟩ := (hread r).mp (Option.isSome_iff_ne_none.mpr hsome)
        exact lt_irrefl _ hlt
      rw [dropWhile_cons_of_pos (by simpa using hlt), ih, filterMap_cons, hnone]
      rfl
    · rw [dropWhile_cons_of_neg (by simpa using hlt)]

/-- The offset of a negative start is right up to the number of entries, and behind that it wraps
to one that skips all of them. -/
theorem drop_wrapped (entries : List α) {k count : Nat} (hentries : entries.length < 2 ^ 63)
    (hpos : 0 < k) (hk : k ≤ 2 ^ 63) :
    (entries.drop (((entries.length : Int) + -k) % 2 ^ 64).toNat).take count =
        lastEntries entries k count ↔
      k ≤ entries.length ∨ lastEntries entries k count = [] := by
  by_cases hle : k ≤ entries.length
  · have hskip : (((entries.length : Int) + -k) % 2 ^ 64).toNat = entries.length - k := by omega
    rw [hskip]
    exact iff_of_true rfl (.inl hle)
  · have hskip : entries.length ≤ (((entries.length : Int) + -k) % 2 ^ 64).toNat := by omega
    rw [drop_eq_nil_of_le hskip, take_nil, or_iff_right hle]
    exact eq_comm

theorem assetDir_last_iff (filter : Bytes) (count : Nat) {k : Nat} (hpos : 0 < k)
    (hk : k ≤ 2 ^ 63) :
    let assets := matchesOf (readAsset filter) db.records
    db.assetDir filter count (-k) = lastEntries assets k count ↔
      k ≤ assets.length ∨ lastEntries assets k count = [] := by
  intro assets
  rw [assetDir, dir, if_neg (by omega), seek_assets, db.assetDir_eq]
  exact drop_wrapped _ ((length_filterMap_le _ _).trans_lt db.counted) hpos hk

theorem quantityDir_last_iff (byAddress : Bool) (first : Bytes) (count : Nat) {k : Nat}
    (hpos : 0 < k) (hk : k ≤ 2 ^ 63) :
    let entries := matchesOf (readQuantity byAddress first) db.records
    let last := lastEntries entries k (min count maxDatabaseResults)
    db.quantityDir byAddress first count (-k) = last ↔
      k ≤ entries.length ∧ db.leads (readQuantity byAddress first) = true ∨ last = [] := by
  intro entries last
  have hread := isSome_readQuantity byAddress first
  rw [quantityDir, dir, if_neg (by omega), db.matchesOf_seek hread, load_eq]
  by_cases hlead : db.leads (readQuantity byAddress first) = true
  · have hseek : db.seek (quantityFlag byAddress) first = db.records := by
      cases hrecords : db.records with
      | nil => simp [seek, hrecords]
      | cons r rest =>
        obtain ⟨hflag, hfirst⟩ := (hread r).mp (by simpa [leads, hrecords] using hlead)
        rw [seek, hrecords, dropWhile_cons_of_neg]
        simp [DirRecord.key, hflag, hfirst]
    rw [← hseek, db.seek_takeWhile hread, matchesOf_filter, hseek, and_iff_left hlead]
    exact drop_wrapped _ ((length_filterMap_le _ _).trans_lt db.counted) hpos hk
  · -- the loading loop breaks off at the first record
    have hbreak : db.records.takeWhile (fun r => (readQuantity byAddress first r).isSome) = [] := by
      cases hrecords : db.records with
      | nil => rfl
      | cons r rest =>
        exact takeWhile_cons_of_neg (by simpa [leads, hrecords] using hlead)
    rw [hbreak, or_iff_right fun h => hlead h.2]
    change take _ (drop _ []) = _ ↔ _
    rw [drop_nil, take_nil]
    exact eq_comm

/-- With a start that is not negative every call returns a window of the matches, and pages of one
size cover them. With a negative start the last matches are found by `AssetDir` when there are so
many, and by the other two when moreover the database starts with them. -/
theorem directories_page (db : AssetRecords) (filter address assetName : Bytes) (count : Nat) :
    let assets := matchesOf (readAsset filter) db.records
    let held := matchesOf (readQuantity true address) db.records
    let owners := matchesOf (readQuantity false assetName) db.records
    let cut := min count maxDatabaseResults
    (∀ s : Nat, db.assetDir filter count s = (assets.drop s).take count ∧
      db.addressDir address count s = (held.drop s).take cut ∧
      db.assetAddressDir assetName count s = (owners.drop s).take cut) ∧
    (∀ k : Nat, 0 < k → k ≤ 2 ^ 63 →
      (db.assetDir filter count (-k) = lastEntries assets k count ↔
        k ≤ assets.length ∨ lastEntries assets k count = []) ∧
      (db.addressDir address count (-k) = lastEntries held k cut ↔
        k ≤ held.length ∧ db.leads (readQuantity true address) = true ∨
          lastEntries held k cut = []) ∧
      (db.assetAddressDir assetName count (-k) = lastEntries owners k cut ↔
        k ≤ owners.length ∧ db.leads (readQuantity false assetName) = true ∨
          lastEntries owners k cut = [])) ∧
    ∀ pages : Nat,
      (List.range pages).flatMap (fun i => db.assetDir filter count (i * count : Nat)) =
        assets.take (pages * count) ∧
      (count ≤ maxDatabaseResults →
        (List.range pages).flatMap (fun i => db.addressDir address count (i * count : Nat)) =
          held.take (pages * count) ∧
        (List.range pages).flatMap (fun i => db.assetAddressDir assetName count (i * count : Nat)) =
          owners.take (pages * count)) := by
  have hassets (s : Nat) : db.assetDir filter count s =
      ((matchesOf (readAsset filter) db.records).drop s).take count := by
    rw [assetDir, dir, if_pos (Int.natCast_nonneg s), seek_assets]
    exact db.assetDir_eq filter count s
  refine ⟨fun s => ⟨hassets s, db.quantityDir_eq _ _ _ s, db.quantityDir_eq _ _ _ s⟩, ?_, ?_⟩
  · intro k hpos hk
    exact ⟨db.assetDir_last_iff filter count hpos hk, db.quantityDir_last_iff _ _ _ hpos hk,
      db.quantityDir_last_iff _ _ _ hpos hk⟩
  · intro pages
    refine ⟨?_, fun hcount => ⟨?_, ?_⟩⟩
    · simp only [hassets, pages_eq_take]
    · simp only [addressDir, quantityDir_eq, min_eq_left hcount, pages_eq_take]
    · simp only [assetAddressDir, quantityDir_eq, min_eq_left hcount, pages_eq_take]

/-- An asset and its owner token, a sub asset and another asset, and two owners of gold. -/
def goldRecords : AssetRecords where
  records := [.asset (str "GOLD") ⟨⟨str "GOLD", 5, 0, 0, 0, []⟩, none, 0⟩,
    .asset (str "GOLD!") ⟨⟨str "GOLD!", 1, 0, 0, 0, []⟩, none, 0⟩,
    .asset (str "SILVER") ⟨⟨str "SILVER", 7, 0, 0, 0, []⟩, none, 0⟩,
    .asset (str "GOLD/BAR") ⟨⟨str "GOLD/BAR", 3, 0, 0, 0, []⟩, none, 0⟩,
    .quantity false (str "GOLD") (str "a") 2, .quantity false (str "GOLD") (str "b") 3,
    .quantity true (str "a") (str "GOLD") 2, .quantity true (str "b") (str "GOLD") 3]
  sorted := by decide +kernel
  counted := by decide

/-- The last two of the three assets that start with gold, and the owners page by page. -/
theorem gold_last_assets :
    (goldRecords.assetDir (str "GOLD*") 10 (-2)).map (·.asset.strName) =
        [str "GOLD!", str "GOLD/BAR"] ∧
      (List.range 2).flatMap (fun i => goldRecords.assetAddressDir (str "GOLD") 1 (i * 1 : Nat)) =
        [(str "a", 2), (str "b", 3)] := by
  obtain ⟨-, hlast, -⟩ := directories_page goldRecords (str "GOLD*") [] (str "GOLD") 10
  obtain ⟨-, -, hpages⟩ := directories_page goldRecords (str "GOLD*") [] (str "GOLD") 1
  have htwo := (hlast 2 (by decide) (by decide)).1.mpr (.inl (by decide +kernel))
  exact ⟨htwo ▸ by decide +kernel, ((hpages 2).2 (by decide)).2.trans (by decide +kernel)⟩

/-- The last five of four assets are asked for, and the last owner of gold: nothing is found. -/
theorem last_entries_missing :
    (goldRecords.assetDir (str "*") 10 0).length = 4 ∧
      goldRecords.assetDir (str "*") 10 (-5) = [] ∧
      goldRecords.assetAddressDir (str "GOLD") 10 0 = [(str "a", 2), (str "b", 3)] ∧
      goldRecords.assetAddressDir (str "GOLD") 10 (-1) = [] := by
  decide +kernel

end AssetRecords

end HnbCore
