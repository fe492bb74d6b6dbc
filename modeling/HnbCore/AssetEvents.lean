import HnbCore.Quiet

/-!
# What happens to one name

An abstract machine for a single asset name. Its state is what the view, `passets` and the database
have on the name; its events are an issue, a reissue and their undoing. The operations on the asset
state are shown to do to each name what the machine does.
-/

namespace HnbCore

open Overlay AssetState Option

/-- All that is known of one name. -/
structure NameState where
  viewAdd : Option CAssetCacheNewAsset
  viewRem : Option CAssetCacheNewAsset
  viewData : Option CNewAsset
  passetsAdd : Option CAssetCacheNewAsset
  passetsRem : Option CAssetCacheNewAsset
  passetsData : Option CNewAsset
  stored : Option CDatabasedAssetData

/-- The undoing of a reissue comes with the undo entry that is found for it. -/
inductive AssetEvent
  | issue (e : CAssetCacheNewAsset)
  | reissue (r : CReissueAsset)
  | unissue (e : CAssetCacheNewAsset)
  | unreissue (r : CReissueAsset) (undo : Option CBlockAssetUndo)

def AssetEvent.name : AssetEvent → Bytes
  | .issue e => e.asset.strName
  | .reissue r => r.strName
  | .unissue e => e.asset.strName
  | .unreissue r _ => r.strName

namespace NameState

variable (x : NameState)

def pending {β : Type} (onRem onAdd : CAssetCacheNewAsset → β) : Option β :=
  Overlay.pending x.viewRem x.passetsRem x.viewAdd x.passetsAdd onRem onAdd

def known : Bool := (x.pending (fun _ => false) (fun _ => true)).getD x.stored.isSome

/-- Data of a reissue, which is asked before anything else. -/
def data : Option CNewAsset := x.viewData.or x.passetsData

def metadata : Option AssetMetaData :=
  (x.data.map fun asset => ⟨asset, none, 0⟩).or
    ((x.pending (fun _ => none) (fun e => some e.data)).getD x.stored)

def step : AssetEvent → NameState
  | .issue e =>
      if x.known then x else { x with viewRem := none, viewAdd := some (x.viewAdd.getD e) }
  | .reissue r =>
      match x.metadata with
      | some m => { x with viewData := some (reissued m.asset r) }
      | none => x
  | .unissue e =>
      if x.known then { x with viewAdd := none, viewRem := some (x.viewRem.getD e) } else x
  | .unreissue r undo =>
      if x.known then
        match x.metadata with
        | some m => { x with viewData := some (unreissued m.asset r undo) }
        | none => x
      else x

variable (name : Bytes)

/-- An event of another name changes nothing. -/
def on (event : AssetEvent) : NameState :=
  if event.name = name then x.step event else x

def run (events : List AssetEvent) : NameState :=
  events.foldl (fun x event => x.on name event) x

/-- The view goes into `passets`. -/
def flush : NameState where
  viewAdd := none
  viewRem := none
  viewData := none
  passetsAdd := if x.viewRem.isSome then none else x.passetsAdd.or x.viewAdd
  passetsRem := (if x.viewAdd.isSome then none else x.passetsRem).or x.viewRem
  passetsData := x.viewData.or x.passetsData
  stored := x.stored

@[simp] theorem run_nil : x.run name [] = x := rfl

theorem run_append (events later : List AssetEvent) :
    x.run name (events ++ later) = (x.run name events).run name later :=
  List.foldl_append

@[simp] theorem run_cons (event : AssetEvent) (later : List AssetEvent) :
    x.run name (event :: later) = (x.on name event).run name later := rfl

/-- Only the events of the name count. -/
theorem run_filter (events : List AssetEvent) :
    x.run name events = (events.filter fun event => event.name = name).foldl step x := by
  induction events generalizing x with
  | nil => rfl
  | cons event later ih =>
    rw [run_cons, ih, on]
    by_cases hname : event.name = name <;> simp [hname]

/-- Metadata is reissued data, data of an asset that is to be added, or stored. -/
theorem metadata_cases {x : NameState} {m : AssetMetaData} (h : x.metadata = some m) :
    (∃ asset, x.data = some asset ∧ m = ⟨asset, none, 0⟩) ∨
      (∃ e, (x.viewAdd = some e ∨ x.passetsAdd = some e) ∧ m = e.data) ∨ x.stored = some m := by
  obtain ⟨viewAdd, viewRem, viewData, passetsAdd, passetsRem, passetsData, stored⟩ := x
  simp only [metadata, pending, Overlay.pending] at h
  cases hdata : data ⟨viewAdd, viewRem, viewData, passetsAdd, passetsRem, passetsData, stored⟩ with
  | some asset => exact .inl ⟨asset, rfl, by simpa [hdata, eq_comm] using h⟩
  | none =>
    simp only [hdata, map_none, none_or] at h
    cases viewRem
    case some => simp at h
    cases passetsRem
    case some => simp at h
    cases viewAdd
    case some e => exact .inr (.inl ⟨e, .inl rfl, by simpa [eq_comm] using h⟩)
    cases passetsAdd
    case some e => exact .inr (.inl ⟨e, .inr rfl, by simpa [eq_comm] using h⟩)
    exact .inr (.inr h)

/-- There is metadata where there is reissued data or an asset. -/
theorem isSome_metadata (x : NameState) : x.metadata.isSome = (x.data.isSome || x.known) := by
  obtain ⟨viewAdd, viewRem, viewData, passetsAdd, passetsRem, passetsData, stored⟩ := x
  simp only [known, metadata, pending, Overlay.pending, isSome_or, isSome_map]
  congr 1
  cases viewRem <;> cases passetsRem <;> cases viewAdd <;> cases passetsAdd <;> simp

/-- What exists has metadata. -/
theorem metadata_of_known {x : NameState} (h : x.known = true) : x.metadata.isSome = true := by
  rw [isSome_metadata, h, Bool.or_true]

end NameState

namespace AssetState

variable {s t u : AssetState} {events : List AssetEvent}

def nameState (s : AssetState) (name : Bytes) : NameState where
  viewAdd := s.view.setNewAssetsToAdd.find? name
  viewRem := s.view.setNewAssetsToRemove.find? name
  viewData := (s.view.mapReissuedAssetData.find? name).map Prod.snd
  passetsAdd := s.passets.setNewAssetsToAdd.find? name
  passetsRem := s.passets.setNewAssetsToRemove.find? name
  passetsData := (s.passets.mapReissuedAssetData.find? name).map Prod.snd
  stored := s.assetsdb.assetData.find? name

/-- Reissued data stands under the name in it. -/
def Named (m : KeyedMap Bytes CNewAsset) : Prop := ∀ item ∈ m.items, item.2.strName = item.1

/-- The node is not reindexing, the asset cache has nothing that is not in the database, a view
does not add what it removes, and reissued data stands under its own name. -/
structure WellFormed (s : AssetState) : Prop where
  running : s.fReindex = false
  sound : s.assetsCache.Sound s.assetsdb.assetData.find?
  apart : ∀ name, s.view.setNewAssetsToRemove.contains name = true →
    s.view.setNewAssetsToAdd.find? name = none
  viewNamed : Named s.view.mapReissuedAssetData
  passetsNamed : Named s.passets.mapReissuedAssetData

section Answers

variable {s : AssetState} (h : s.WellFormed) (name : Bytes)

include h

theorem WellFormed.storedData_eq : s.storedData name = s.assetsdb.assetData.find? name :=
  h.sound.find?_or name

/-- The lookups answer what the machine says of the name. -/
theorem WellFormed.exists_eq :
    (checkIfAssetExists name true s).1 = (s.nameState name).known := by
  rw [checkIfAssetExists_fst, h.running, h.storedData_eq]
  rfl

theorem WellFormed.metadata_eq :
    (getAssetMetaDataIfExists name s).1 = (s.nameState name).metadata := by
  rw [getAssetMetaDataIfExists_fst, h.storedData_eq, reissuedData, NameState.metadata,
    NameState.data, nameState, ← map_or]
  rfl

end Answers

/-- Nothing that the machine sees has changed, and a sound asset cache is still sound. -/
structure Untouched (s t : AssetState) : Prop where
  toAdd : t.view.setNewAssetsToAdd = s.view.setNewAssetsToAdd
  toRemove : t.view.setNewAssetsToRemove = s.view.setNewAssetsToRemove
  reissuedData : t.view.mapReissuedAssetData = s.view.mapReissuedAssetData
  passets : t.passets = s.passets
  assetData : t.assetsdb.assetData = s.assetsdb.assetData
  reindex : t.fReindex = s.fReindex
  sound : s.assetsCache.Sound s.assetsdb.assetData.find? →
    t.assetsCache.Sound t.assetsdb.assetData.find?

theorem Untouched.refl (s : AssetState) : Untouched s s :=
  ⟨rfl, rfl, rfl, rfl, rfl, rfl, id⟩

theorem Untouched.trans (hst : Untouched s t) (htu : Untouched t u) :
    Untouched s u where
  toAdd := htu.toAdd.trans hst.toAdd
  toRemove := htu.toRemove.trans hst.toRemove
  reissuedData := htu.reissuedData.trans hst.reissuedData
  passets := htu.passets.trans hst.passets
  assetData := htu.assetData.trans hst.assetData
  reindex := htu.reindex.trans hst.reindex
  sound h := htu.sound (hst.sound h)

theorem Quiet.untouched {hashes : Hashes} (h : Quiet hashes s t) :
    Untouched s t where
  toAdd := (congrArg CAssetsCache.setNewAssetsToAdd h.view :)
  toRemove := (congrArg CAssetsCache.setNewAssetsToRemove h.view :)
  reissuedData := (congrArg CAssetsCache.mapReissuedAssetData h.view :)
  passets := h.passets
  assetData := congrArg CAssetsDB.assetData h.assetsdb
  reindex := h.reindex
  sound := h.assets

/-- The events are what has happened to every name. -/
structure Does (events : List AssetEvent) (s t : AssetState) : Prop where
  wellFormed : s.WellFormed → t.WellFormed
  nameState : s.WellFormed → ∀ name, t.nameState name = (s.nameState name).run name events

theorem Untouched.nameState (h : Untouched s t) (name : Bytes) :
    t.nameState name = s.nameState name := by
  simp only [AssetState.nameState, h.toAdd, h.toRemove, h.reissuedData, h.passets, h.assetData]

theorem Untouched.does (h : Untouched s t) : Does [] s t where
  wellFormed hs := {
    running := h.reindex.trans hs.running
    sound := h.sound hs.sound
    apart := by rw [h.toAdd, h.toRemove]; exact hs.apart
    viewNamed := by rw [h.reissuedData]; exact hs.viewNamed
    passetsNamed := by rw [h.passets]; exact hs.passetsNamed }
  nameState _ name := h.nameState name

theorem Does.trans {later : List AssetEvent} (hst : Does events s t) (htu : Does later t u) :
    Does (events ++ later) s u where
  wellFormed hs := htu.wellFormed (hst.wellFormed hs)
  nameState hs name := by
    rw [htu.nameState (hst.wellFormed hs), hst.nameState hs, NameState.run_append]

theorem Does.then (hst : Does events s t) (htu : Untouched t u) : Does events s u := by
  simpa using hst.trans htu.does

theorem Untouched.andThen (hst : Untouched s t) (htu : Does events t u) : Does events s u := by
  simpa using hst.does.trans htu

end AssetState

end HnbCore
