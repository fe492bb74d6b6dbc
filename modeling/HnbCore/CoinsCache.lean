import HnbCore.Coins
import HnbCore.Lib.WriteBack

/-!
# The layers of coin views

`CCoinsViewCache` keeps coins over a base view, which may itself be a cache. An entry it has changed
is DIRTY; it is FRESH when the base view has no unspent coin there, so that a coin added and spent
again never reaches the base. `Flush` writes the entries of a cache into the view below.

The coin views of a node form a stack. The view on top is the one that is changed; those below it
are read through it, flushed and trimmed.
-/

namespace HnbCore

open List Option KeyedSet Coin WriteBack

def CTxOut.isNull (out : CTxOut) : Bool := out.nValue = -1

namespace Coin

/-- A coin that `Clear` has emptied. -/
def null : Coin := ⟨⟨-1, []⟩, false, 0⟩

def isSpent (coin : Coin) : Bool := coin.out.isNull

/-- The coin as `GetCoin` reports it. -/
def unspent? (coin : Coin) : Option Coin := if coin.isSpent then none else some coin

end Coin

structure CCoinsCacheEntry where
  coin : Coin
  dirty : Bool
  fresh : Bool
  deriving DecidableEq, Repr

abbrev CCoinsMap := KeyedMap COutPoint CCoinsCacheEntry

/-- A view that is no cache: a database, say. It has only unspent coins, and what is written to it
are the changed entries of a cache. -/
structure CCoinsView (σ : Type) where
  getCoin : σ → COutPoint → Option Coin
  batchWrite : σ → CCoinsMap → σ
  unspent : ∀ s out coin, getCoin s out = some coin → coin.isSpent = false
  getCoin_batchWrite : ∀ s mapCoins out, getCoin (batchWrite s mapCoins) out =
    match mapCoins.find? out with
    | some (_, entry) => if entry.dirty then entry.coin.unspent? else getCoin s out
    | none => getCoin s out

/-- The coin database, which holds unspent coins. -/
structure CCoinsViewDB where
  coins : Coins
  unspent : ∀ item ∈ coins.items, item.2.isSpent = false

namespace CCoinsViewDB

variable (db : CCoinsViewDB)

def getCoin (out : COutPoint) : Option Coin := db.coins.accessCoin out

/-- A changed entry is written, or erased when its coin is spent. -/
def writeEntry (item : COutPoint × CCoinsCacheEntry) : CCoinsViewDB :=
  if item.2.dirty then
    if hspent : item.2.coin.isSpent then
      ⟨db.coins.erase item.1, by
        intro found hfound
        have hfind := find?_of_mem hfound
        rw [find?_erase] at hfind
        split at hfind
        · cases hfind
        · exact db.unspent found (mem_of_find? hfind)⟩
    else
      ⟨db.coins.assign (item.1, item.2.coin), by
        intro found hfound
        rcases mem_assign hfound with rfl | hfound
        · exact Bool.eq_false_iff.mpr hspent
        · exact db.unspent found hfound⟩
  else db

def batchWrite (mapCoins : CCoinsMap) : CCoinsViewDB :=
  mapCoins.items.foldl writeEntry db

theorem getCoin_writeEntry (item : COutPoint × CCoinsCacheEntry) (out : COutPoint) :
    (db.writeEntry item).getCoin out =
      if item.1 = out ∧ item.2.dirty = true then item.2.coin.unspent? else db.getCoin out := by
  unfold writeEntry
  by_cases hdirty : item.2.dirty = true
  · rw [if_pos hdirty]
    simp only [hdirty, and_true, getCoin, Coins.accessCoin, unspent?]
    by_cases hspent : item.2.coin.isSpent = true
    · rw [dif_pos hspent, if_pos hspent, find?_erase]
      split <;> rfl
    · rw [dif_neg hspent, if_neg hspent, find?_assign]
      split <;> rfl
  · rw [if_neg hdirty, if_neg fun h => hdirty h.2]

/-- The coin database is a view. -/
def view : CCoinsView CCoinsViewDB where
  getCoin := getCoin
  batchWrite := batchWrite
  unspent := by
    intro db out coin h
    obtain ⟨item, hfind, rfl⟩ := map_eq_some_iff.mp h
    exact db.unspent item (mem_of_find? hfind)
  getCoin_batchWrite := by
    intro db mapCoins out
    unfold batchWrite
    rw [foldl_items_at mapCoins db (fun db => db.getCoin out) out
      (fun item coin => if item.2.dirty = true then item.2.coin.unspent? else coin)]
    · cases mapCoins.find? out <;> rfl
    · intro db item hkey
      simp only [getCoin_writeEntry, hkey, true_and]
    · intro db item hkey
      simp only [getCoin_writeEntry, hkey, false_and, if_false]

end CCoinsViewDB

namespace CCoinsMap

variable (cache : CCoinsMap) (out : COutPoint)

/-- `FetchCoin`, given what `GetCoin` of the base view returns. -/
def fetchCoin (base : Option Coin × List CCoinsMap)
    (below : List CCoinsMap) : Option CCoinsCacheEntry × List CCoinsMap :=
  match cache.find? out with
  | some (_, entry) => (some entry, cache :: below)
  | none =>
      match base with
      | (none, below) => (none, cache :: below)
      | (some coin, below) =>
          let entry := ⟨coin, false, coin.isSpent⟩
          (some entry, cache.assign (out, entry) :: below)

/-- `AddCoin`. -/
def addCoin (coin : Coin) (possible_overwrite : Bool) : Except String CCoinsMap :=
  if coin.isSpent then .error "assert"
  else if isUnspendable coin.out.scriptPubKey then .ok cache
  else
    let entry := match cache.find? out with
      | some (_, entry) => entry
      | none => ⟨.null, false, false⟩
    if possible_overwrite then .ok (cache.assign (out, ⟨coin, true, entry.fresh⟩))
    else if !entry.coin.isSpent then
      .error "Adding new coin that replaces non-pruned entry"
    else .ok (cache.assign (out, ⟨coin, true, entry.fresh || !entry.dirty⟩))

/-- What `SpendCoin` does to the entry it has fetched. -/
def spendEntry (entry : CCoinsCacheEntry) : CCoinsMap :=
  if entry.fresh then cache.erase out else cache.assign (out, ⟨.null, true, entry.fresh⟩)

/-- `Uncache`: an entry without flags is dropped. -/
def uncache : CCoinsMap :=
  match cache.find? out with
  | some (_, entry) => if !entry.dirty && !entry.fresh then cache.erase out else cache
  | none => cache

/-- One round of the loop of `BatchWrite`. -/
def batchWriteEntry (item : COutPoint × CCoinsCacheEntry) : Except String CCoinsMap :=
  let (out, child) := item
  if child.dirty then
    match cache.find? out with
    | none =>
        if child.fresh && child.coin.isSpent then .ok cache
        else .ok (cache.assign (out, ⟨child.coin, true, child.fresh⟩))
    | some (_, ours) =>
        if child.fresh && !ours.coin.isSpent then
          .error "FRESH flag misapplied to cache entry for base transaction with spendable outputs"
        else if ours.fresh && child.coin.isSpent then .ok (cache.erase out)
        else .ok (cache.assign (out, ⟨child.coin, true, ours.fresh⟩))
  else .ok cache

def batchWrite (cache mapCoins : CCoinsMap) : Except String CCoinsMap :=
  mapCoins.items.foldlM batchWriteEntry cache

end CCoinsMap

/-- The caches of a stack, the one on top first, over a base view. -/
structure CoinsStack (σ : Type) where
  layers : List CCoinsMap
  base : σ

open CoinsStack

namespace CCoinsViewCache

variable {σ : Type} (view : CCoinsView σ) (base : σ)

/-- `GetCoin` of the top of the stack, and the caches it has filled on the way. -/
def getCoin : List CCoinsMap → COutPoint → Option Coin × List CCoinsMap
  | [], out => (view.getCoin base out, [])
  | cache :: below, out =>
      let (entry, layers) := cache.fetchCoin out (getCoin below out) below
      (entry.bind fun entry => entry.coin.unspent?, layers)

/-- `HaveCoin`; a view that is no cache has a coin when it returns one. -/
def haveCoin : List CCoinsMap → COutPoint → Bool
  | [], out => (view.getCoin base out).isSome
  | cache :: below, out =>
      match (cache.fetchCoin out (getCoin view base below out) below).1 with
      | some entry => !entry.coin.isSpent
      | none => false

/-- `SpendCoin`: whether there was an entry, the coin moved out of it, and the caches. -/
def spendCoin (cache : CCoinsMap) (below : List CCoinsMap) (out : COutPoint) :
    Option Coin × List CCoinsMap :=
  match cache.fetchCoin out (getCoin view base below out) below with
  | (some entry, cache :: below) => (some entry.coin, cache.spendEntry out entry :: below)
  | (_, layers) => (none, layers)

end CCoinsViewCache

namespace CoinsStack

variable {σ : Type} (view : CCoinsView σ)

/-- `Flush` of the cache at a depth. -/
def flush : Nat → List CCoinsMap → σ → Except String (CoinsStack σ)
  | _, [], base => .ok ⟨[], base⟩
  | 0, [cache], base => .ok ⟨[.empty], view.batchWrite base cache⟩
  | 0, cache :: parent :: below, base => do
      let parent ← parent.batchWrite cache
      return ⟨.empty :: parent :: below, base⟩
  | depth + 1, cache :: below, base => do
      let stack ← flush depth below base
      return ⟨cache :: stack.layers, stack.base⟩

end CoinsStack

/-- The calls on a stack of views: a cache is put on top or discarded, a coin is looked up through
the view at a depth, coins of the view on top are changed, and the cache at a depth is trimmed or
flushed. -/
inductive CoinsCall
  | newCache
  | dropCache
  | getCoin (depth : Nat) (out : COutPoint)
  | addCoin (out : COutPoint) (coin : Coin) (possible_overwrite : Bool)
  | spendCoin (out : COutPoint)
  | uncache (depth : Nat) (out : COutPoint)
  | batchWrite (mapCoins : CCoinsMap)
  | flush (depth : Nat)

namespace CoinsStack

variable {σ : Type} (view : CCoinsView σ)

/-- One call. Without a cache on top there is nothing to call. -/
def call (stack : CoinsStack σ) : CoinsCall → Except String (CoinsStack σ)
  | .newCache => .ok ⟨.empty :: stack.layers, stack.base⟩
  | .dropCache => .ok ⟨stack.layers.tail, stack.base⟩
  | .getCoin depth out =>
      let above := stack.layers.take depth
      .ok ⟨above ++ (CCoinsViewCache.getCoin view stack.base (stack.layers.drop depth) out).2, stack.base⟩
  | .addCoin out coin possible_overwrite =>
      match stack.layers with
      | [] => .ok stack
      | cache :: below => do
          let cache ← cache.addCoin out coin possible_overwrite
          return ⟨cache :: below, stack.base⟩
  | .spendCoin out =>
      match stack.layers with
      | [] => .ok stack
      | cache :: below => .ok ⟨(CCoinsViewCache.spendCoin view stack.base cache below out).2, stack.base⟩
  | .uncache depth out => .ok ⟨stack.layers.modify depth (·.uncache out), stack.base⟩
  | .batchWrite mapCoins =>
      match stack.layers with
      | [] => .ok stack
      | cache :: below => do
          let cache ← cache.batchWrite mapCoins
          return ⟨cache :: below, stack.base⟩
  | .flush depth => flush view depth stack.layers stack.base

def run (stack : CoinsStack σ) (calls : List CoinsCall) : Except String (CoinsStack σ) :=
  calls.foldlM (call view) stack

end CoinsStack

/-! ## The plain maps -/

/-- A plain map from outpoints to unspent coins. -/
abbrev PlainCoins := COutPoint → Option Coin

namespace PlainCoins

/-- The changed entries of a cache are written over the map. -/
def write (coins : PlainCoins) (mapCoins : CCoinsMap) : PlainCoins := fun out =>
  match mapCoins.find? out with
  | some (_, entry) => if entry.dirty then entry.coin.unspent? else coins out
  | none => coins out

/-- The map at a depth replaces the one below it. -/
def flush : Nat → List PlainCoins → List PlainCoins
  | 0, coins :: _ :: below => coins :: coins :: below
  | depth + 1, coins :: below => coins :: flush depth below
  | _, maps => maps

/-- A change of the map on top, unless it is the base view's. -/
def change (f : PlainCoins → PlainCoins) : List PlainCoins → List PlainCoins
  | coins :: below :: rest => f coins :: below :: rest
  | maps => maps

/-- What a call means for the maps of the views, the one on top first and the base view's last.
An output nobody can spend is not added. -/
def call (maps : List PlainCoins) : CoinsCall → List PlainCoins
  | .newCache => maps.head?.toList ++ maps
  | .dropCache => if maps.length ≤ 1 then maps else maps.tail
  | .getCoin _ _ => maps
  | .addCoin out coin _ =>
      if isUnspendable coin.out.scriptPubKey then maps
      else change (fun coins => Function.update coins out (some coin)) maps
  | .spendCoin out => change (fun coins => Function.update coins out none) maps
  | .uncache _ _ => maps
  | .batchWrite mapCoins => change (fun coins => coins.write mapCoins) maps
  | .flush depth => flush depth maps

def run (maps : List PlainCoins) (calls : List CoinsCall) : List PlainCoins := calls.foldl call maps

/-- The callers' contract: an unspent coin is added, over nothing unless the caller says that it
may overwrite; an entry written as FRESH is over nothing. -/
def Respects (maps : List PlainCoins) : CoinsCall → Prop
  | .addCoin out coin possible_overwrite =>
      coin.isSpent = false ∧
        (possible_overwrite = false → ∀ coins ∈ maps.head?, coins out = none)
  | .batchWrite mapCoins =>
      ∀ item ∈ mapCoins.items, item.2.dirty = true → item.2.fresh = true →
        ∀ coins ∈ maps.head?, coins item.1 = none
  | _ => True

def RespectsAll (maps : List PlainCoins) : List CoinsCall → Prop
  | [] => True
  | c :: calls => Respects maps c ∧ RespectsAll (call maps c) calls

end PlainCoins

/-! ## The stack refines the plain maps -/

def CCoinsCacheEntry.toEntry (entry : CCoinsCacheEntry) : WriteBack.Entry Coin :=
  ⟨entry.coin.unspent?, entry.dirty, entry.fresh⟩

variable {coin : Coin}

theorem Coin.unspent?_of_unspent (h : coin.isSpent = false) :
    coin.unspent? = some coin := by
  simp [unspent?, h]

theorem Coin.isSome_unspent? (coin : Coin) : coin.unspent?.isSome = !coin.isSpent := by
  unfold unspent?
  cases coin.isSpent <;> rfl

theorem Coin.isNone_unspent? (coin : Coin) : coin.unspent?.isNone = coin.isSpent := by
  unfold unspent?
  cases coin.isSpent <;> rfl

theorem Coin.isSpent_of_unspent? {coin' : Coin} (h : coin.unspent? = some coin') :
    coin'.isSpent = false := by
  unfold unspent? at h
  split at h
  · cases h
  · cases h
    simpa using ‹¬coin.isSpent = true›

namespace CCoinsMap

def slot (cache : CCoinsMap) (out : COutPoint) : WriteBack.Slot Coin :=
  (cache.find? out).map fun item => item.2.toEntry

@[simp] theorem slot_empty (out : COutPoint) : slot .empty out = none := rfl

theorem slot_of_find? {cache : CCoinsMap} {out : COutPoint} {item : COutPoint × CCoinsCacheEntry}
    (h : cache.find? out = some item) : cache.slot out = some item.2.toEntry := by
  rw [slot, h]
  rfl

variable (cache : CCoinsMap)

theorem slot_same (out out' : COutPoint) :
    cache.slot out' = if out = out' then cache.slot out else cache.slot out' := by
  split
  · rename_i heq
    rw [heq]
  · rfl

theorem slot_assign (out : COutPoint) (entry : CCoinsCacheEntry) (out' : COutPoint) :
    slot (cache.assign (out, entry)) out' =
      if out = out' then some entry.toEntry else cache.slot out' := by
  unfold slot
  rw [find?_assign]
  split <;> rfl

theorem slot_erase (out out' : COutPoint) :
    slot (cache.erase out) out' = if out = out' then none else cache.slot out' := by
  unfold slot
  rw [find?_erase]
  split <;> rfl

theorem slot_spendEntry (out : COutPoint) (entry : CCoinsCacheEntry) (out' : COutPoint) :
    slot (cache.spendEntry out entry) out' =
      if out = out' then remove entry.toEntry else cache.slot out' := by
  have hflag : entry.toEntry.fresh = entry.fresh := rfl
  unfold spendEntry remove
  cases hfresh : entry.fresh with
  | true =>
    rw [if_pos rfl, slot_erase]
    simp only [hflag, hfresh, if_true]
  | false =>
    rw [if_neg Bool.false_ne_true, slot_assign]
    simp only [hflag, hfresh, Bool.false_eq_true, if_false]
    rfl

end CCoinsMap

namespace CCoinsViewCache

variable {σ : Type} (view : CCoinsView σ)

/-- The map the top of a stack stands for. -/
def viewed (base : σ) : List CCoinsMap → PlainCoins
  | [] => view.getCoin base
  | cache :: below => fun out => shows (cache.slot out) (viewed base below out)

/-- The flags of every layer tell the truth about the layers below it. -/
def Sound (base : σ) : List CCoinsMap → Prop
  | [] => True
  | cache :: below =>
      (∀ out, WriteBack.Sound (cache.slot out) (viewed view base below out)) ∧ Sound base below

/-- The maps of all views of a stack. -/
def maps (base : σ) (layers : List CCoinsMap) : List PlainCoins :=
  layers.tails.map (viewed view base)

variable {view}
variable {base base' : σ} {cache : CCoinsMap} {below below' layers layers' : List CCoinsMap}
  {out : COutPoint}

@[simp] theorem maps_nil : maps view base [] = [view.getCoin base] := rfl

@[simp] theorem maps_cons :
    maps view base (cache :: below) =
      viewed view base (cache :: below) :: maps view base below := by
  simp [maps]

theorem maps_eq_cons (view : CCoinsView σ) (base : σ) (layers : List CCoinsMap) :
    ∃ rest, maps view base layers = viewed view base layers :: rest := by
  cases layers with
  | nil => exact ⟨[], rfl⟩
  | cons cache below => exact ⟨_, maps_cons⟩

theorem viewed_eq_of_maps (h : maps view base' layers' = maps view base layers) :
    viewed view base' layers' = viewed view base layers := by
  obtain ⟨rest, hmaps⟩ := maps_eq_cons view base layers
  obtain ⟨rest', hmaps'⟩ := maps_eq_cons view base' layers'
  rw [hmaps, hmaps'] at h
  exact (List.cons.inj h).1

variable {coin : Coin} {cache' : CCoinsMap}

theorem isSpent_of_viewed (h : viewed view base layers out = some coin) :
    coin.isSpent = false := by
  induction layers with
  | nil => exact view.unspent base out coin h
  | cons cache below ih =>
    simp only [viewed, CCoinsMap.slot] at h
    cases hfind : cache.find? out with
    | none =>
      rw [hfind] at h
      exact ih h
    | some item =>
      rw [hfind] at h
      exact isSpent_of_unspent? h

theorem Sound.drop (h : Sound view base layers) (depth : Nat) :
    Sound view base (layers.drop depth) := by
  induction depth generalizing layers with
  | zero => exact h
  | succ depth ih =>
    cases layers with
    | nil => exact h
    | cons cache below => exact ih h.2

theorem maps_getElem? {depth : Nat} (h : depth ≤ layers.length) :
    (maps view base layers)[depth]? = some (viewed view base (layers.drop depth)) := by
  induction depth generalizing layers with
  | zero =>
    obtain ⟨rest, hrest⟩ := maps_eq_cons view base layers
    rw [hrest]
    rfl
  | succ depth ih =>
    cases layers with
    | nil => simp at h
    | cons cache below =>
      rw [maps_cons]
      exact ih (by simpa using h)

/-- The stack has changed and its views have not. -/
structure Kept (view : CCoinsView σ) (base base' : σ) (layers layers' : List CCoinsMap) : Prop where
  sound : Sound view base' layers'
  maps_eq : maps view base' layers' = maps view base layers

theorem Kept.refl (h : Sound view base layers) : Kept view base base layers layers := ⟨h, rfl⟩

/-- A change below a cache that keeps the views keeps those of the whole stack. -/
theorem Kept.cons (h : Kept view base base' below below') (hs : Sound view base (cache :: below)) :
    Kept view base base' (cache :: below) (cache :: below') := by
  have hv := viewed_eq_of_maps h.maps_eq
  constructor
  · refine ⟨?_, h.sound⟩
    rw [hv]
    exact hs.1
  · rw [maps_cons, maps_cons, h.maps_eq]
    simp only [viewed, hv]

theorem Kept.append (above : List CCoinsMap) (h : Kept view base base' below below')
    (hs : Sound view base (above ++ below)) :
    Kept view base base' (above ++ below) (above ++ below') := by
  induction above with
  | nil => exact h
  | cons cache above ih => exact (ih hs.2).cons hs

/-- A new entry of the cache on top that shows what the view showed. -/
theorem Kept.replace {entry : WriteBack.Slot Coin}
    (h : Kept view base base below below') (hs : Sound view base (cache :: below))
    (hslot : ∀ out', cache'.slot out' = if out = out' then entry else cache.slot out')
    (hentry : WriteBack.Sound entry (viewed view base below out))
    (hshows : shows entry (viewed view base below out) =
      viewed view base (cache :: below) out) :
    Kept view base base (cache :: below) (cache' :: below') := by
  have hv := viewed_eq_of_maps h.maps_eq
  constructor
  · refine ⟨?_, h.sound⟩
    intro out'
    rw [hslot, hv]
    split
    · rename_i heq
      subst heq
      exact hentry
    · exact hs.1 out'
  · rw [maps_cons, maps_cons, h.maps_eq]
    congr 1
    funext out'
    simp only [viewed, hslot, hv]
    split
    · rename_i heq
      subst heq
      exact hshows
    · rfl

/-- `FetchCoin` finds an entry when the view has a coin, and fills caches only. -/
theorem fetchCoin_spec (out : COutPoint) (hs : Sound view base (cache :: below))
    (hbelow : Kept view base base below below') :
    ∃ cache' below'',
      cache.fetchCoin out (viewed view base below out, below') below =
        ((cache'.find? out).map Prod.snd, cache' :: below'') ∧
      Kept view base base (cache :: below) (cache' :: below'') ∧
      (cache'.find? out = none → viewed view base (cache :: below) out = none) := by
  unfold CCoinsMap.fetchCoin
  cases hfind : cache.find? out with
  | some item =>
    refine ⟨cache, below, by simp only [hfind]; rfl, Kept.refl hs, ?_⟩
    intro hnone
    rw [hfind] at hnone
    cases hnone
  | none =>
    have hview : viewed view base (cache :: below) out = viewed view base below out := by
      simp only [viewed, CCoinsMap.slot, hfind]
      rfl
    cases hcoin : viewed view base below out with
    | none =>
      refine ⟨cache, below', by simp only [hfind]; rfl, hbelow.cons hs, ?_⟩
      intro _
      rw [hview, hcoin]
    | some coin =>
      have hunspent := isSpent_of_viewed hcoin
      refine ⟨cache.assign (out, ⟨coin, false, coin.isSpent⟩), below', ?_, ?_, ?_⟩
      · rw [find?_assign, if_pos rfl]
        rfl
      · apply hbelow.replace hs (CCoinsMap.slot_assign cache out _)
        · rw [hcoin]
          apply sound_copy (unspent?_of_unspent hunspent)
          intro hspent
          rw [hunspent] at hspent
          cases hspent
        · rw [hview, hcoin]
          exact unspent?_of_unspent hunspent
      · intro hnone
        rw [find?_assign, if_pos rfl] at hnone
        cases hnone

/-- `GetCoin` returns the coin of the map, and the caches it fills show the same maps. -/
theorem getCoin_spec (out : COutPoint) (hs : Sound view base layers) :
    (getCoin view base layers out).1 = viewed view base layers out ∧
      Kept view base base layers (getCoin view base layers out).2 := by
  induction layers with
  | nil => exact ⟨rfl, Kept.refl hs⟩
  | cons cache below ih =>
    obtain ⟨hcoin, hbelow⟩ := ih hs.2
    obtain ⟨cache', below'', hfetch, hkept, hnone⟩ := fetchCoin_spec out hs hbelow
    rw [← hcoin] at hfetch
    simp only [getCoin, hfetch]
    refine ⟨?_, hkept⟩
    rw [← viewed_eq_of_maps hkept.maps_eq] at hnone ⊢
    cases hfind : cache'.find? out with
    | none => exact (hnone hfind).symm
    | some item =>
      simp only [viewed, CCoinsMap.slot, hfind]
      rfl

theorem haveCoin_spec (hs : Sound view base layers) :
    haveCoin view base layers out = (viewed view base layers out).isSome := by
  have hget := (getCoin_spec out hs).1
  cases layers with
  | nil => rfl
  | cons cache below =>
    rw [← hget]
    simp only [haveCoin, getCoin]
    cases (cache.fetchCoin out (getCoin view base below out) below).1 with
    | none => rfl
    | some entry => exact (isSome_unspent? entry.coin).symm

/-! ### Calls that change the view on top -/

/-- The flags of the stack are true and its maps are as the caller of a change expects. -/
structure Changed (view : CCoinsView σ) (base : σ) (layers : List CCoinsMap)
    (maps' : List PlainCoins) : Prop where
  sound : Sound view base layers
  maps_eq : maps view base layers = maps'

/-- A change of the entries of the cache on top changes the map on top. -/
theorem changed_of_slots {f : PlainCoins → PlainCoins} (hs : Sound view base (cache :: below))
    (hslot : ∀ out, WriteBack.Sound (cache'.slot out) (viewed view base below out))
    (hshows : ∀ out, shows (cache'.slot out) (viewed view base below out) =
      f (viewed view base (cache :: below)) out) :
    Changed view base (cache' :: below) (PlainCoins.change f (maps view base (cache :: below))) := by
  refine ⟨⟨hslot, hs.2⟩, ?_⟩
  obtain ⟨rest, hrest⟩ := maps_eq_cons view base below
  rw [maps_cons, maps_cons, hrest]
  show _ = f _ :: _
  congr 1
  funext out
  exact hshows out

theorem changed_of_slot (slot : WriteBack.Slot Coin) {coin : Option Coin}
    (hs : Sound view base (cache :: below))
    (hslot : ∀ out', cache'.slot out' = if out = out' then slot else cache.slot out')
    (hsound : WriteBack.Sound slot (viewed view base below out))
    (hshows : shows slot (viewed view base below out) = coin) :
    Changed view base (cache' :: below)
      (PlainCoins.change (fun coins => Function.update coins out coin)
        (maps view base (cache :: below))) := by
  apply changed_of_slots hs
  · intro out'
    rw [hslot]
    split
    · rename_i heq
      subst heq
      exact hsound
    · exact hs.1 out'
  · intro out'
    rw [hslot]
    by_cases heq : out = out'
    · subst heq
      rw [if_pos rfl, Function.update_self, hshows]
    · rw [if_neg heq, Function.update_of_ne (Ne.symm heq)]
      rfl

theorem addCoin_spec (out : COutPoint) {possible_overwrite : Bool}
    (hs : Sound view base (cache :: below)) (hcoin : coin.isSpent = false)
    (hfree : possible_overwrite = false → viewed view base (cache :: below) out = none) :
    ∃ cache', cache.addCoin out coin possible_overwrite = .ok cache' ∧
      Changed view base (cache' :: below)
        (PlainCoins.call (maps view base (cache :: below))
          (.addCoin out coin possible_overwrite)) := by
  simp only [CCoinsMap.addCoin, PlainCoins.call, hcoin, Bool.false_eq_true, if_false]
  by_cases hscript : isUnspendable coin.out.scriptPubKey = true
  · rw [if_pos hscript, if_pos hscript]
    exact ⟨cache, rfl, hs, rfl⟩
  · rw [if_neg hscript, if_neg hscript]
    obtain ⟨entry, hput, hvalue, hsound⟩ := put_sound (hs.1 out) coin hfree
    have hchanged : ∀ fresh, ⟨some coin, true, fresh⟩ = entry →
        ∃ cache', Except.ok (cache.assign (out, ⟨coin, true, fresh⟩)) =
            (.ok cache' : Except String CCoinsMap) ∧
          Changed view base (cache' :: below)
            (PlainCoins.change (fun coins => Function.update coins out (some coin))
              (maps view base (cache :: below))) := by
      intro fresh hentry
      have he : (CCoinsCacheEntry.mk coin true fresh).toEntry = entry := by
        rw [CCoinsCacheEntry.toEntry, unspent?_of_unspent hcoin, hentry]
      subst he
      exact ⟨_, rfl, changed_of_slot _ hs (CCoinsMap.slot_assign cache out _) hsound hvalue⟩
    -- the entry the source builds is the one of the write-back cache
    cases hfind : cache.find? out with
    | none =>
      simp only [CCoinsMap.slot, hfind] at hput
      cases possible_overwrite <;> exact hchanged _ (some.inj hput)
    | some item =>
      simp only [CCoinsMap.slot, hfind, map_some] at hput
      cases possible_overwrite with
      | true => exact hchanged _ (some.inj hput)
      | false =>
        have hnone : item.2.coin.unspent? = none := by
          have hshown := hfree rfl
          simp only [viewed, CCoinsMap.slot_of_find? hfind] at hshown
          exact hshown
        have hspent : item.2.coin.isSpent = true := by
          rw [← isNone_unspent?, hnone]
          rfl
        simp only [hspent, Bool.not_true, Bool.false_eq_true, if_false]
        have hisSome : item.2.toEntry.value.isSome = false := by
          rw [CCoinsCacheEntry.toEntry, hnone]
          rfl
        simp only [put, getD_some, hisSome, Bool.false_eq_true,
          if_false] at hput
        exact hchanged _ (some.inj hput)

theorem spendCoin_spec (out : COutPoint) (hs : Sound view base (cache :: below)) :
    Changed view base (spendCoin view base cache below out).2
        (PlainCoins.call (maps view base (cache :: below)) (.spendCoin out)) ∧
      ∀ coin, viewed view base (cache :: below) out = some coin →
        (spendCoin view base cache below out).1 = some coin := by
  obtain ⟨hcoin, hbelow⟩ := getCoin_spec out hs.2
  obtain ⟨cache', below'', hfetch, hkept, hnone⟩ := fetchCoin_spec out hs hbelow
  rw [← hcoin] at hfetch
  simp only [spendCoin, hfetch]
  rw [← hkept.maps_eq]
  rw [← viewed_eq_of_maps hkept.maps_eq] at hnone ⊢
  cases hfind : cache'.find? out with
  | none =>
    have hview := hnone hfind
    simp only [map_none]
    constructor
    · apply changed_of_slot (cache'.slot out) hkept.sound
      · exact cache'.slot_same out
      · exact hkept.sound.1 out
      · exact hview
    · intro coin hsome
      rw [hview] at hsome
      cases hsome
  | some item =>
    have hslot := CCoinsMap.slot_of_find? hfind
    have hentry := hkept.sound.1 out
    rw [hslot] at hentry
    obtain ⟨hshows, hsound⟩ := remove_sound hentry
    simp only [map_some]
    constructor
    · apply changed_of_slot (remove item.2.toEntry) hkept.sound
      · exact CCoinsMap.slot_spendEntry cache' out item.2
      · exact hsound
      · exact hshows
    · intro coin hsome
      have hcoin' : item.2.coin.unspent? = some coin := by
        simp only [viewed, hslot, shows_some] at hsome
        exact hsome
      have hspent : ¬item.2.coin.isSpent = true := by
        intro hspent
        simp [unspent?, hspent] at hcoin'
      rw [unspent?_of_unspent (by simpa using hspent)] at hcoin'
      exact hcoin'

theorem batchWriteEntry_merge {item : COutPoint × CCoinsCacheEntry} {merged : WriteBack.Slot Coin}
    (h : merge item.2.toEntry (cache.slot item.1) = some merged) :
    ∃ cache', cache.batchWriteEntry item = .ok cache' ∧
      ∀ out, cache'.slot out = if item.1 = out then merged else cache.slot out := by
  obtain ⟨out, child⟩ := item
  have hdirty : child.toEntry.dirty = child.dirty := rfl
  have hfresh : child.toEntry.fresh = child.fresh := rfl
  have hspent : child.toEntry.value.isNone = child.coin.isSpent := isNone_unspent? _
  simp only [WriteBack.merge, hdirty, hfresh, hspent] at h
  unfold CCoinsMap.batchWriteEntry
  by_cases hd : child.dirty = true
  · simp only [hd, if_true] at h ⊢
    cases hfind : cache.find? out with
    | none =>
      have hslot : cache.slot out = none := by rw [CCoinsMap.slot, hfind]; rfl
      simp only [hslot] at h
      split at h
      · rename_i hskip
        cases h
        exact ⟨cache, by simp only [if_pos hskip], hslot ▸ cache.slot_same out⟩
      · rename_i hskip
        cases h
        exact ⟨_, by simp only [if_neg hskip]; rfl, CCoinsMap.slot_assign cache out _⟩
    | some found =>
      have hslot := CCoinsMap.slot_of_find? hfind
      have hours : found.2.toEntry.fresh = found.2.fresh := rfl
      have hvalue : found.2.toEntry.value.isSome = !found.2.coin.isSpent :=
        isSome_unspent? _
      simp only [hslot, hours, hvalue] at h
      split at h
      · cases h
      · rename_i hkept
        split at h
        · rename_i hskip
          cases h
          exact ⟨_, by simp only [if_neg hkept, if_pos hskip],
            CCoinsMap.slot_erase cache out⟩
        · rename_i hskip
          cases h
          exact ⟨_, by simp only [if_neg hkept, if_neg hskip]; rfl,
            CCoinsMap.slot_assign cache out _⟩
  · simp only [hd] at h ⊢
    cases h
    exact ⟨cache, rfl, cache.slot_same out⟩

/-- `BatchWrite` is never refused when no FRESH entry is over a coin of the view, and writes the
changed entries over the map. -/
theorem batchWrite_spec (mapCoins : CCoinsMap) (hs : Sound view base (cache :: below))
    (hfree : ∀ item ∈ mapCoins.items, item.2.dirty = true → item.2.fresh = true →
      viewed view base (cache :: below) item.1 = none) :
    ∃ cache', cache.batchWrite mapCoins = .ok cache' ∧
      Sound view base (cache' :: below) ∧
      viewed view base (cache' :: below) = (viewed view base (cache :: below)).write mapCoins := by
  have hmerge : ∀ item ∈ mapCoins.items, ∃ merged,
      merge item.2.toEntry (cache.slot item.1) = some merged ∧
      WriteBack.Sound merged (viewed view base below item.1) ∧
      shows merged (viewed view base below item.1) =
        if item.2.dirty then item.2.coin.unspent? else viewed view base (cache :: below) item.1 :=
    fun item hitem => merge_sound (hs.1 item.1) (hfree item hitem)
  have hround : ∀ (cache : CCoinsMap) (item : COutPoint × CCoinsCacheEntry)
      (merged : WriteBack.Slot Coin),
      merge item.2.toEntry (cache.slot item.1) = some merged →
        ∃ cache', cache.batchWriteEntry item = .ok cache' ∧
          ∀ out, cache'.slot out = if item.1 = out then merged else cache.slot out :=
    fun cache item merged => batchWriteEntry_merge
  obtain ⟨cache', hrun, hobs⟩ := foldlM_at hround mapCoins.items mapCoins.nodup cache (by
      intro item hitem
      obtain ⟨merged, hmerged, -, -⟩ := hmerge item hitem
      rw [hmerged]
      rfl)
  have hboth : ∀ out, WriteBack.Sound (cache'.slot out) (viewed view base below out) ∧
      shows (cache'.slot out) (viewed view base below out) =
        (viewed view base (cache :: below)).write mapCoins out := by
    intro out
    have hout := hobs out
    rw [items_find?] at hout
    unfold PlainCoins.write
    cases hfind : mapCoins.find? out with
    | none =>
      simp only [hfind, some.injEq] at hout
      rw [hout]
      exact ⟨hs.1 out, rfl⟩
    | some item =>
      obtain ⟨merged, hmerged, hsound, hshows⟩ := hmerge item (mem_of_find? hfind)
      have hkey : item.1 = out := key_of_find? hfind
      subst hkey
      simp only [hfind, hmerged, some.injEq] at hout
      rw [hout]
      exact ⟨hsound, hshows⟩
  refine ⟨cache', hrun, ⟨fun out => (hboth out).1, hs.2⟩, ?_⟩
  funext out
  exact (hboth out).2

/-! ### Trimming and flushing -/

/-- An entry without flags is a copy of what lies below. -/
theorem uncache_spec (hs : Sound view base (cache :: below)) :
    Kept view base base (cache :: below) (cache.uncache out :: below) := by
  unfold CCoinsMap.uncache
  cases hfind : cache.find? out with
  | none => exact Kept.refl hs
  | some item =>
    by_cases hflags : (!item.2.dirty && !item.2.fresh) = true
    · simp only [if_pos hflags]
      have hclean : item.2.dirty = false := by
        simpa using (Bool.and_eq_true_iff.mp hflags).1
      have hslot := CCoinsMap.slot_of_find? hfind
      apply (Kept.refl hs.2).replace hs (CCoinsMap.slot_erase cache out)
      · exact sound_none _
      · simp only [viewed, hslot]
        exact ((hs.1 out).clean _ hslot hclean).symm
    · simp only [if_neg hflags]
      exact Kept.refl hs

theorem modify_uncache_spec (out : COutPoint) (depth : Nat) (hs : Sound view base layers) :
    Kept view base base layers (layers.modify depth (·.uncache out)) := by
  induction depth generalizing layers with
  | zero =>
    cases layers with
    | nil => exact Kept.refl hs
    | cons cache below => exact uncache_spec hs
  | succ depth ih =>
    cases layers with
    | nil => exact Kept.refl hs
    | cons cache below => exact (ih hs.2).cons hs

theorem viewed_empty : viewed view base (.empty :: below) = viewed view base below := by
  funext out
  simp [viewed]

/-- The entries of a cache, written over the map below, give the map of the cache. -/
theorem viewed_write (hs : Sound view base (cache :: below)) :
    (viewed view base below).write cache = viewed view base (cache :: below) := by
  funext out
  unfold PlainCoins.write
  have hsound := hs.1 out
  cases hfind : cache.find? out with
  | none => simp only [viewed, CCoinsMap.slot, hfind, map_none, shows_none]
  | some item =>
    have hslot := CCoinsMap.slot_of_find? hfind
    simp only [viewed, hslot, shows_some]
    by_cases hd : item.2.dirty = true
    · rw [if_pos hd]
      rfl
    · rw [if_neg hd]
      exact (hsound.clean _ hslot (Bool.eq_false_iff.mpr hd)).symm

theorem fresh_over_nothing (hs : Sound view base (cache :: below)) :
    ∀ item ∈ cache.items, item.2.dirty = true → item.2.fresh = true →
      viewed view base below item.1 = none := by
  intro item hitem _ hfresh
  exact (hs.1 item.1).fresh _ (CCoinsMap.slot_of_find? (find?_of_mem hitem)) hfresh

/-- `Flush` of any layer succeeds; its map becomes the map of the layer below. -/
theorem flush_spec (depth : Nat) (hs : Sound view base layers) :
    ∃ stack, flush view depth layers base = .ok stack ∧
      Sound view stack.base stack.layers ∧
      viewed view stack.base stack.layers = viewed view base layers ∧
      maps view stack.base stack.layers = PlainCoins.flush depth (maps view base layers) := by
  induction depth generalizing layers with
  | zero =>
    match layers with
    | [] => exact ⟨_, rfl, hs, rfl, rfl⟩
    | [cache] =>
      have hbase : view.getCoin (view.batchWrite base cache) = viewed view base [cache] := by
        rw [← viewed_write hs]
        funext out
        exact view.getCoin_batchWrite base cache out
      refine ⟨_, rfl, ⟨fun out => sound_none _, trivial⟩, ?_, ?_⟩
      · rw [viewed_empty]
        exact hbase
      · rw [maps_cons, maps_cons, viewed_empty, maps_nil, maps_nil, hbase]
        simp only [viewed, hbase, PlainCoins.flush]
    | cache :: parent :: below =>
      obtain ⟨parent', hwrite, hsound, hview⟩ :=
        batchWrite_spec _ hs.2 (fresh_over_nothing hs)
      rw [viewed_write hs] at hview
      refine ⟨⟨.empty :: parent' :: below, base⟩, ?_, ?_, ?_, ?_⟩
      · simp only [flush, hwrite]
        rfl
      · exact ⟨fun out => sound_none _, hsound⟩
      · rw [viewed_empty]
        exact hview
      · rw [maps_cons, maps_cons, maps_cons, maps_cons, viewed_empty, hview]
        rfl
  | succ depth ih =>
    cases layers with
    | nil =>
      refine ⟨_, rfl, hs, rfl, ?_⟩
      cases depth <;> rfl
    | cons cache below =>
      obtain ⟨stack, hflush, hsound, hview, hmaps⟩ := ih hs.2
      have hview' : viewed view stack.base (cache :: stack.layers) =
          viewed view base (cache :: below) := by
        simp only [viewed, hview]
      refine ⟨⟨cache :: stack.layers, stack.base⟩, ?_, ?_, hview', ?_⟩
      · simp only [flush, hflush]
        rfl
      · refine ⟨?_, hsound⟩
        rw [hview]
        exact hs.1
      · rw [maps_cons, maps_cons, hview', hmaps]
        rfl

end CCoinsViewCache

/-! ## Runs -/

namespace CoinsStack

open CCoinsViewCache

variable {σ : Type} (view : CCoinsView σ)

/-- The stack stands for these maps. -/
structure Refines (stack : CoinsStack σ) (maps : List PlainCoins) : Prop where
  sound : Sound view stack.base stack.layers
  maps_eq : CCoinsViewCache.maps view stack.base stack.layers = maps

variable {view} {maps : List PlainCoins} {stack : CoinsStack σ}

/-- A call that keeps the contract succeeds and does to the maps what it means. -/
theorem Refines.call (h : Refines view stack maps)
    {c : CoinsCall} (hc : PlainCoins.Respects maps c) :
    ∃ stack', stack.call view c = .ok stack' ∧ Refines view stack' (PlainCoins.call maps c) := by
  obtain ⟨layers, base⟩ := stack
  obtain ⟨hs, rfl⟩ := h
  obtain ⟨rest, hrest⟩ := maps_eq_cons view base layers
  cases c with
  | newCache =>
    refine ⟨_, rfl, ⟨fun out => sound_none _, hs⟩, ?_⟩
    rw [maps_cons, viewed_empty, PlainCoins.call, hrest]
    rfl
  | dropCache =>
    refine ⟨_, rfl, ?_⟩
    cases layers with
    | nil => exact ⟨hs, rfl⟩
    | cons cache below =>
      obtain ⟨rest', hrest'⟩ := maps_eq_cons view base below
      refine ⟨hs.2, ?_⟩
      simp [PlainCoins.call, hrest']
  | getCoin depth out =>
    refine ⟨_, rfl, ?_⟩
    have hdrop : Sound view base (layers.take depth ++ layers.drop depth) := by
      rw [take_append_drop]
      exact hs
    have hkept := (getCoin_spec out (hs.drop depth)).2.append (layers.take depth) hdrop
    rw [take_append_drop] at hkept
    exact ⟨hkept.sound, hkept.maps_eq⟩
  | addCoin out coin possible_overwrite =>
    cases layers with
    | nil =>
      refine ⟨_, rfl, hs, ?_⟩
      simp only [PlainCoins.call]
      split <;> rfl
    | cons cache below =>
      obtain ⟨hcoin, hfree⟩ := hc
      obtain ⟨cache', hadd, hchanged⟩ := addCoin_spec out hs hcoin (by
        intro hnot
        exact hfree hnot _ (by rw [hrest]; rfl))
      refine ⟨⟨cache' :: below, base⟩, ?_, hchanged.sound, hchanged.maps_eq⟩
      simp only [call, hadd]
      rfl
  | spendCoin out =>
    cases layers with
    | nil => exact ⟨_, rfl, hs, rfl⟩
    | cons cache below =>
      have hchanged := (spendCoin_spec out hs).1
      exact ⟨_, rfl, hchanged.sound, hchanged.maps_eq⟩
  | uncache depth out =>
    have hkept := modify_uncache_spec out depth hs
    exact ⟨_, rfl, hkept.sound, hkept.maps_eq⟩
  | batchWrite mapCoins =>
    cases layers with
    | nil => exact ⟨_, rfl, hs, rfl⟩
    | cons cache below =>
      obtain ⟨cache', hwrite, hsound, hview⟩ := batchWrite_spec mapCoins hs (by
        intro item hitem hdirty hfresh
        exact hc item hitem hdirty hfresh _ (by rw [hrest]; rfl))
      refine ⟨⟨cache' :: below, base⟩, ?_, hsound, ?_⟩
      · simp only [call, hwrite]
        rfl
      · obtain ⟨rest', hrest'⟩ := maps_eq_cons view base below
        rw [maps_cons, maps_cons, hview, hrest']
        rfl
  | flush depth =>
    obtain ⟨stack, hflush, hsound, -, hmaps⟩ := flush_spec depth hs
    exact ⟨stack, hflush, hsound, hmaps⟩

theorem Refines.run (h : Refines view stack maps)
    {calls : List CoinsCall} (hcalls : PlainCoins.RespectsAll maps calls) :
    ∃ stack', stack.run view calls = .ok stack' ∧
      Refines view stack' (PlainCoins.run maps calls) := by
  induction calls generalizing stack maps with
  | nil => exact ⟨stack, rfl, h⟩
  | cons c calls ih =>
    obtain ⟨stack', hcall, h'⟩ := h.call hcalls.1
    obtain ⟨stack'', hrun, h''⟩ := ih h' hcalls.2
    refine ⟨stack'', ?_, h''⟩
    simp only [run, foldlM_cons, hcall]
    exact hrun

end CoinsStack

/-- Over any base view, a run of calls that keeps the contract throws nothing and leaves a stack
that stands for the maps the same calls make of the base view's coins: at every depth `GetCoin` and
`HaveCoin` give that map's answers, and `SpendCoin` gives the coin of the map on top. -/
theorem coins_stack_refines_maps {σ : Type} (view : CCoinsView σ) (base : σ)
    (calls : List CoinsCall) (hcalls : PlainCoins.RespectsAll [view.getCoin base] calls) :
    ∃ stack : CoinsStack σ, run view ⟨[], base⟩ calls = .ok stack ∧
      (PlainCoins.run [view.getCoin base] calls).length = stack.layers.length + 1 ∧
      (∀ depth coins, (PlainCoins.run [view.getCoin base] calls)[depth]? = some coins →
        ∀ out, let layers := stack.layers.drop depth
          (CCoinsViewCache.getCoin view stack.base layers out).1 = coins out ∧
          CCoinsViewCache.haveCoin view stack.base layers out = (coins out).isSome) ∧
      (∀ cache below, stack.layers = cache :: below →
        ∀ coins ∈ (PlainCoins.run [view.getCoin base] calls).head?, ∀ out coin,
          coins out = some coin →
          (CCoinsViewCache.spendCoin view stack.base cache below out).1 = some coin) := by
  have hstart : CoinsStack.Refines view ⟨[], base⟩ [view.getCoin base] := ⟨trivial, rfl⟩
  obtain ⟨stack, hrun, hsound, hmaps⟩ := hstart.run hcalls
  refine ⟨stack, hrun, ?_, ?_, ?_⟩
  · rw [← hmaps]
    simp [CCoinsViewCache.maps]
  · intro depth coins hcoins out
    have hdepth : depth ≤ stack.layers.length := by
      have hlt := (List.getElem?_eq_some_iff.mp hcoins).1
      rw [← hmaps, CCoinsViewCache.maps, length_map, length_tails] at hlt
      omega
    rw [← hmaps, CCoinsViewCache.maps_getElem? hdepth] at hcoins
    cases hcoins
    have hsuffix := hsound.drop depth
    exact ⟨(CCoinsViewCache.getCoin_spec out hsuffix).1, CCoinsViewCache.haveCoin_spec hsuffix⟩
  · intro cache below hlayers coins hcoins out coin hcoin
    rw [← hmaps, hlayers, CCoinsViewCache.maps_cons] at hcoins
    cases hcoins
    rw [hlayers] at hsound
    exact (CCoinsViewCache.spendCoin_spec out hsound).2 coin hcoin

/-- Two caches over an empty database: a coin is added in the lower one, spent and added again in
the one on top, and comes to the database. -/
def paidTwiceCalls : List CoinsCall :=
  let coin : Coin := ⟨⟨5, []⟩, false, 1⟩
  [.newCache, .addCoin ⟨1, 0⟩ coin false, .newCache, .spendCoin ⟨1, 0⟩,
    .addCoin ⟨1, 0⟩ ⟨⟨7, []⟩, false, 2⟩ false, .flush 0, .uncache 1 ⟨1, 0⟩, .flush 1]

theorem paidTwiceCalls_refine_maps :
    ∃ stack : CoinsStack CCoinsViewDB,
      run CCoinsViewDB.view ⟨[], ⟨.empty, by simp [empty]⟩⟩ paidTwiceCalls =
        .ok stack ∧
      (CCoinsViewCache.getCoin CCoinsViewDB.view stack.base (stack.layers.drop 2) ⟨1, 0⟩).1 =
        some ⟨⟨7, []⟩, false, 2⟩ := by
  obtain ⟨stack, hrun, -, hreads, -⟩ := coins_stack_refines_maps CCoinsViewDB.view
    ⟨.empty, by simp [empty]⟩ paidTwiceCalls (by
      refine ⟨trivial, ⟨by decide, ?_⟩, trivial, trivial, ⟨by decide, ?_⟩, trivial, trivial,
        trivial, trivial⟩
      · intro _ coins hcoins
        cases hcoins
        rfl
      · intro _ coins hcoins
        cases hcoins
        rfl)
  exact ⟨stack, hrun, (hreads 2 _ rfl ⟨1, 0⟩).1⟩

end HnbCore
