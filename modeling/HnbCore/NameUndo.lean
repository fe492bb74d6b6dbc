import HnbCore.MetadataAgree

/-!
# Doing and undoing the events of a name

What is left of a name when the issues and reissues of a block are done, flushed, undone from the
last to the first, and flushed again.
-/

namespace HnbCore

open AssetState List Option AssetEvent

namespace AssetEvent

def isIssue : AssetEvent → Bool
  | .issue _ => true
  | _ => false

def reissue? : AssetEvent → Option CReissueAsset
  | .reissue r => some r
  | _ => none

/-- What disconnecting does for an issue or a reissue. -/
def undone (undo : Option CBlockAssetUndo) : AssetEvent → AssetEvent
  | .issue e => .unissue ⟨e.asset, e.address, 0, 0⟩
  | .reissue r => .unreissue r undo
  | event => event

end AssetEvent

/-- The reissues after the last issue, from the last to the first: those that are taken back before
the asset is gone. -/
def takenBack (events : List AssetEvent) : List CReissueAsset :=
  (events.reverse.takeWhile fun event => !event.isIssue).filterMap reissue?

def AllConnect (events : List AssetEvent) : Prop := ∀ event ∈ events, event.connects = true

/-- What a user sees of an asset's metadata. -/
def CNewAsset.terms (asset : CNewAsset) : CAmount × Int × Int × Bytes :=
  (asset.nAmount, asset.units, asset.nReissuable, asset.strIPFSHash)

theorem reissued_foldl_nAmount (asset : CNewAsset) (reissues : List CReissueAsset) :
    (reissues.foldl reissued asset).nAmount =
      asset.nAmount + (reissues.map (·.nAmount)).sum := by
  induction reissues generalizing asset with
  | nil => simp
  | cons r reissues ih =>
    rw [foldl_cons, ih, map_cons, sum_cons]
    simp only [reissued]
    ring

/-- Taking reissues back with one undo entry: all amounts go, and the entry is all that is known of
the other terms. -/
theorem unreissued_foldl_terms (asset : CNewAsset) (reissues : List CReissueAsset)
    (undo : Option CBlockAssetUndo) (h : reissues ≠ []) :
    (reissues.foldl (fun asset r => unreissued asset r undo) asset).terms =
      (asset.nAmount - (reissues.map (·.nAmount)).sum,
       (undo.bind fun u => if u.fChangedUnits then some u.nUnits else none).getD asset.units, 1,
       (undo.bind fun u => if u.fChangedIPFS then some u.strIPFS else none).getD
        asset.strIPFSHash) := by
  induction reissues generalizing asset with
  | nil => exact absurd rfl h
  | cons r reissues ih =>
    cases reissues with
    | nil =>
      cases undo with
      | none => simp [unreissued, CNewAsset.terms]
      | some u => cases hu : u.fChangedUnits <;> cases hi : u.fChangedIPFS <;>
          simp [unreissued, CNewAsset.terms, hu, hi]
    | cons r' reissues =>
      rw [foldl_cons, ih (unreissued asset r undo) (by simp)]
      simp only [map_cons, sum_cons]
      cases undo with
      | none => simp [unreissued, sub_sub]
      | some u => cases hu : u.fChangedUnits <;> cases hi : u.fChangedIPFS <;>
          simp [unreissued, sub_sub, hu, hi]

/-- Taking some reissues of an asset back, with the undo entry of one that changes its terms,
restores the terms it had before all of them. -/
structure Undoable (asset : CNewAsset) (all back : List CReissueAsset)
    (recorded : Option CReissueAsset) : Prop where
  amount : (back.map (·.nAmount)).sum = (all.map (·.nAmount)).sum
  units : (all.foldl reissued asset).units = asset.units ∨
    back ≠ [] ∧ recorded.any (·.nUnits ≠ -1) = true
  reissuable : if back = [] then (all.foldl reissued asset).nReissuable = asset.nReissuable
    else asset.nReissuable = 1
  ipfs : (all.foldl reissued asset).strIPFSHash = asset.strIPFSHash ∨
    back ≠ [] ∧ recorded.any (·.strIPFSHash ≠ []) = true

/-- The entry has the terms of the asset, and says which of them the recorded reissue changes. -/
structure Records (undo : Option CBlockAssetUndo) (asset : CNewAsset)
    (recorded : Option CReissueAsset) : Prop where
  terms : ∀ u ∈ undo, u.nUnits = asset.units ∧ u.strIPFS = asset.strIPFSHash
  units : undo.any (·.fChangedUnits) = recorded.any (·.nUnits ≠ -1)
  ipfs : undo.any (·.fChangedIPFS) = recorded.any (·.strIPFSHash ≠ [])

/-- A recorded value restores what it records; without one the value must not have changed. -/
theorem recorded_eq_iff {α : Type} {undo : Option CBlockAssetUndo} {changed : CBlockAssetUndo → Bool}
    {old : CBlockAssetUndo → α} {now before : α} (hold : ∀ u ∈ undo, old u = before) :
    (undo.bind fun u => if changed u then some (old u) else none).getD now = before ↔
      now = before ∨ undo.any changed = true := by
  cases undo with
  | none => simp
  | some u =>
    have := hold u rfl
    cases hchanged : changed u <;> simp [hchanged, this]

theorem undoable_iff {asset : CNewAsset} {all back : List CReissueAsset}
    {undo : Option CBlockAssetUndo} {recorded : Option CReissueAsset}
    (hundo : Records undo asset recorded) :
    (back.foldl (fun asset r => unreissued asset r undo) (all.foldl reissued asset)).terms =
        asset.terms ↔ Undoable asset all back recorded := by
  have hsum := reissued_foldl_nAmount asset all
  by_cases hback : back = []
  · subst hback
    constructor
    · intro h
      simp only [foldl_nil, CNewAsset.terms, Prod.mk.injEq, hsum] at h
      exact ⟨by simp; linarith [h.1], .inl h.2.1, by simpa using h.2.2.1, .inl h.2.2.2⟩
    · intro h
      have hunits := h.units.resolve_right fun h => h.1 rfl
      have hipfs := h.ipfs.resolve_right fun h => h.1 rfl
      have hreissuable := h.reissuable
      rw [if_pos rfl] at hreissuable
      have hamount := h.amount
      simp only [map_nil, sum_nil] at hamount
      simp only [foldl_nil, CNewAsset.terms, hsum, hunits, hipfs, hreissuable, ← hamount,
        add_zero]
  · rw [unreissued_foldl_terms _ _ _ hback, CNewAsset.terms, hsum]
    simp only [Prod.mk.injEq, recorded_eq_iff fun u hu => (hundo.terms u hu).1,
      recorded_eq_iff fun u hu => (hundo.terms u hu).2, hundo.units, hundo.ipfs]
    constructor
    · rintro ⟨hamount, hunits, hreissuable, hipfs⟩
      exact ⟨by linarith, hunits.imp_right fun h => ⟨hback, h⟩, by simp [hback, ← hreissuable],
        hipfs.imp_right fun h => ⟨hback, h⟩⟩
    · intro h
      have hreissuable := h.reissuable
      rw [if_neg hback] at hreissuable
      exact ⟨by linarith [h.amount], h.units.imp_right (·.2), hreissuable.symm,
        h.ipfs.imp_right (·.2)⟩

namespace NameState

variable {x : NameState} {events : List AssetEvent} {m : AssetMetaData}

/-- The view has nothing on the name. -/
structure Fresh (x : NameState) : Prop where
  viewAdd : x.viewAdd = none
  viewRem : x.viewRem = none
  viewData : x.viewData = none

@[simp] theorem flush_data (x : NameState) : x.flush.data = x.data := rfl

/-- Where the view adds nothing, a flush changes no answer. -/
theorem flush_pending (h : x.viewAdd = none) {β : Type} (gone : β)
    (onAdd : CAssetCacheNewAsset → β) :
    x.flush.pending (fun _ => gone) onAdd = x.pending (fun _ => gone) onAdd := by
  obtain ⟨viewAdd, viewRem, viewData, passetsAdd, passetsRem, passetsData, stored⟩ := x
  obtain rfl : viewAdd = none := h
  simp only [pending, Overlay.pending, flush]
  cases viewRem <;> cases passetsRem <;> cases passetsAdd <;> simp

theorem flush_known (h : x.viewAdd = none) : x.flush.known = x.known := by
  rw [known, flush_pending h]
  rfl

theorem flush_metadata (h : x.viewAdd = none) : x.flush.metadata = x.metadata := by
  rw [metadata, flush_pending h, flush_data]
  rfl

/-- The metadata is data of a reissue, or the asset exists. -/
theorem metadata_of_data {asset : CNewAsset} (h : x.data = some asset) :
    x.metadata = some ⟨asset, none, 0⟩ := by simp [metadata, h]

theorem data_of_metadata (h : x.metadata = some m) (hfree : x.known = false) :
    x.data = some m.asset := by
  have hdata : x.data.isSome = true := by
    have hsome := isSome_metadata x
    rw [h, hfree, Bool.or_false] at hsome
    exact hsome.symm
  obtain ⟨asset, hasset⟩ := isSome_iff_exists.mp hdata
  rw [hasset, ← some.inj ((metadata_of_data hasset).symm.trans h)]

theorem step_issue_metadata (h : x.metadata = some m) (e : CAssetCacheNewAsset) :
    (x.step (.issue e)).metadata = some m ∧ (x.step (.issue e)).data = x.data := by
  cases hknown : x.known with
  | true => simp [step, hknown, h]
  | false =>
    have hdata := data_of_metadata h hknown
    have hstep : (x.step (.issue e)).data = x.data := by simp [step, hknown, data]
    refine ⟨?_, hstep⟩
    rw [metadata_of_data (hstep.trans hdata), ← metadata_of_data hdata, h]

theorem step_reissue (h : x.metadata = some m) (r : CReissueAsset) :
    x.step (.reissue r) = { x with viewData := some (reissued m.asset r) } := by
  simp [step, h]

/-- Reissues change the metadata one after the other; issues leave it alone. -/
theorem connect_metadata (h : x.metadata = some m) (hconnects : AllConnect events) :
    ((events.foldl step x).metadata).map (·.asset) =
        some ((events.filterMap reissue?).foldl reissued m.asset) ∧
      (events.foldl step x).data = if (events.filterMap reissue?) = [] then x.data
        else some ((events.filterMap reissue?).foldl reissued m.asset) := by
  induction events generalizing x m with
  | nil => simp [h]
  | cons event events ih =>
    have hlater := fun event' hmem => hconnects event' (mem_cons_of_mem _ hmem)
    cases event with
    | issue e =>
      obtain ⟨hmeta, hdata⟩ := step_issue_metadata h e
      have hrest := ih hmeta hlater
      rw [hdata] at hrest
      exact hrest
    | reissue r =>
      have hdata : (x.step (.reissue r)).data = some (reissued m.asset r) := by
        rw [step_reissue h]
        rfl
      have hrest := ih (metadata_of_data hdata) hlater
      have hcons : (reissue r :: events).filterMap reissue? =
          r :: events.filterMap reissue? := rfl
      rw [foldl_cons, hcons]
      refine ⟨hrest.1, hrest.2.trans ?_⟩
      rw [hdata]
      cases hlast : events.filterMap reissue? <;> simp
    | unissue | unreissue => cases hconnects _ mem_cons_self

theorem connect_view (hconnects : AllConnect events) (hrem : x.viewRem = none) :
    (events.foldl step x).viewRem = none ∧ (events.foldl step x).viewAdd.isSome =
      (x.viewAdd.isSome || !x.known && events.any isIssue) := by
  induction events generalizing x with
  | nil => simp [hrem]
  | cons event events ih =>
    have hlater := fun event' hmem => hconnects event' (mem_cons_of_mem _ hmem)
    rw [foldl_cons]
    cases event with
    | issue e =>
      cases hknown : x.known with
      | true => simpa [step, hknown, isIssue] using ih hlater hrem
      | false =>
        have hissued := issued_step hknown e
        obtain ⟨hrem', hadd'⟩ := ih hlater hissued.kept
        exact ⟨hrem', by simpa [hissued.added, isIssue] using hadd'⟩
    | reissue r =>
      cases hmeta : x.metadata with
      | none => simpa [step, hmeta, isIssue] using ih hlater hrem
      | some m =>
        rw [step_reissue hmeta]
        exact ih (x := { x with viewData := some (reissued m.asset r) }) hlater hrem
    | unissue | unreissue => cases hconnects _ mem_cons_self

theorem foldl_below (x : NameState) (events : List AssetEvent) :
    (events.foldl step x).passetsRem = x.passetsRem ∧
      (events.foldl step x).passetsAdd = x.passetsAdd ∧ (events.foldl step x).stored = x.stored := by
  induction events generalizing x with
  | nil => exact ⟨rfl, rfl, rfl⟩
  | cons event events ih =>
    obtain ⟨hrem, hadd, -, hstored⟩ := step_below x event
    rw [foldl_cons, ← hrem, ← hadd, ← hstored]
    exact ih _

/-- A connected block has added the name once it is flushed, whatever was pending. -/
theorem connect_known (hx : x.Fresh) (hconnects : AllConnect events) :
    (events.foldl step x).flush.known = (x.known || events.any isIssue) := by
  obtain ⟨hrem, hadd⟩ := connect_view hconnects hx.viewRem
  obtain ⟨hprem, hpadd, hstored⟩ := foldl_below x events
  rw [hx.viewAdd, isSome_none, Bool.false_or] at hadd
  cases hview : (events.foldl step x).viewAdd with
  | none =>
    have hsame : (events.foldl step x).known = x.known := by
      simp only [known, pending, hview, hrem, hprem, hpadd, hstored, hx.viewAdd, hx.viewRem]
    rw [hview, isSome_none] at hadd
    rw [flush_known hview, hsame]
    cases hknown : x.known with
    | true => rfl
    | false => simpa [hknown] using hadd
  | some e =>
    rw [hview, isSome_some, eq_comm, Bool.and_eq_true] at hadd
    rw [hadd.2, Bool.or_true]
    simp only [known, pending, Overlay.pending, flush, hview, hrem]
    cases (events.foldl step x).passetsAdd <;> simp

theorem undo_unknown (undo : Option CBlockAssetUndo)
    (hconnects : AllConnect events) (h : x.known = false) :
    (events.map (undone undo)).foldl step x = x := by
  induction events with
  | nil => rfl
  | cons event events ih =>
    have hstep : x.step (event.undone undo) = x := by
      cases event with
      | issue | reissue => simp [step, undone, h]
      | unissue | unreissue => cases hconnects _ mem_cons_self
    rw [map_cons, foldl_cons, hstep]
    exact ih fun event' hmem => hconnects event' (mem_cons_of_mem _ hmem)

/-- Undoing takes reissues back until it comes to an issue; from there on the name is gone. -/
theorem undo_known (undo : Option CBlockAssetUndo)
    (hconnects : AllConnect events) (hview : x.viewAdd = none)
    (hknown : x.known = true) (hmeta : x.metadata = some m) :
    let back := (events.takeWhile fun event => !event.isIssue).filterMap reissue?
    let y := (events.map (undone undo)).foldl step x
    y.viewAdd = none ∧ y.known = !events.any isIssue ∧
      y.data = (if back = [] then x.data
        else some (back.foldl (fun asset r => unreissued asset r undo) m.asset)) ∧
      (events.any isIssue = false → y.metadata.map (·.asset) =
        some (back.foldl (fun asset r => unreissued asset r undo) m.asset)) := by
  induction events generalizing x m with
  | nil => simp [hview, hknown, hmeta]
  | cons event events ih =>
    have hlater := fun event' hmem => hconnects event' (mem_cons_of_mem _ hmem)
    rw [map_cons, foldl_cons]
    cases event with
    | issue e =>
      have hgone : (x.step (.unissue ⟨e.asset, e.address, 0, 0⟩)).known = false := by
        rw [step, if_pos hknown]
        simp [known, pending, Overlay.pending]
      dsimp only [undone]
      rw [undo_unknown undo hlater hgone, hgone, step, if_pos hknown]
      simp [isIssue, data]
    | reissue r =>
      have hstep : x.step (.unreissue r undo) =
          { x with viewData := some (unreissued m.asset r undo) } := by
        simp [step, hknown, hmeta]
      have hdata : (x.step (.unreissue r undo)).data = some (unreissued m.asset r undo) := by
        rw [hstep]
        rfl
      have hrest := ih (x := x.step (.unreissue r undo)) hlater (by rw [hstep]; exact hview)
        (by rw [hstep]; exact hknown) (metadata_of_data hdata)
      dsimp only at hrest ⊢
      have hcons : ((reissue r :: events).takeWhile fun event =>
          !event.isIssue).filterMap reissue? =
          r :: (events.takeWhile fun event => !event.isIssue).filterMap reissue? := rfl
      rw [hcons]
      obtain ⟨hadd, hk, hd, hm⟩ := hrest
      refine ⟨hadd, hk, hd.trans ?_, hm⟩
      rw [hdata]
      cases (events.takeWhile fun event => !event.isIssue).filterMap reissue? <;> simp
    | unissue | unreissue => cases hconnects _ mem_cons_self

/-- The events are done, flushed, undone from the last to the first, and flushed. -/
def roundTrip (x : NameState) (events : List AssetEvent) (undo : Option CBlockAssetUndo) :
    NameState :=
  ((events.reverse.map (undone undo)).foldl step (events.foldl step x).flush).flush

theorem step_data_isSome (event : AssetEvent) (h : x.data.isSome = true) :
    (x.step event).data.isSome = true := by
  cases event <;> simp only [step] <;> repeat' split
  all_goals first | exact h | simp [data]

theorem foldl_data_isSome (events : List AssetEvent) (h : x.data.isSome = true) :
    (events.foldl step x).data.isSome = true := by
  induction events generalizing x with
  | nil => exact h
  | cons event events ih => exact ih (step_data_isSome event h)

/-- After connecting and flushing, the metadata has gone through the reissues of the block. -/
theorem connect_flush_metadata (hx : x.Fresh) (hmeta : x.metadata = some m)
    (hconnects : AllConnect events) :
    (events.foldl step x).flush.metadata.map (·.asset) =
      some ((events.filterMap reissue?).foldl reissued m.asset) := by
  obtain ⟨hconnected, hdata⟩ := connect_metadata hmeta hconnects
  cases hy : (events.foldl step x).data with
  | some asset =>
    rw [metadata_of_data hy] at hconnected
    rw [metadata_of_data (x := (events.foldl step x).flush) hy]
    exact hconnected
  | none =>
    -- no reissued data: the asset exists, and its issue did nothing
    have hxdata : x.data = none := by
      rw [hy] at hdata
      split at hdata
      · exact hdata.symm
      · cases hdata
    have hknown : x.known = true := by
      have := isSome_metadata x
      simpa [hmeta, hxdata] using this
    have hadd := (connect_view hconnects hx.viewRem).2
    rw [hx.viewAdd, hknown] at hadd
    rw [flush_metadata (by simpa using hadd)]
    exact hconnected

/-- A name that has metadata gets it back exactly when it was not both there and issued, and taking
back the reissues after the last issue undoes all reissues. -/
theorem roundTrip_of_metadata (hx : x.Fresh) (hmeta : x.metadata = some m)
    (hconnects : AllConnect events) (undo : Option CBlockAssetUndo) :
    ((x.roundTrip events undo).known = x.known ∧
        (x.roundTrip events undo).metadata.map (·.asset.terms) = some m.asset.terms) ↔
      (x.known = true → events.any isIssue = false) ∧
        ((if x.known || events.any isIssue then takenBack events else []).foldl
          (fun asset r => unreissued asset r undo)
          ((events.filterMap reissue?).foldl reissued m.asset)).terms =
            m.asset.terms := by
  have hwmeta := connect_flush_metadata hx hmeta hconnects
  have hwknown := connect_known hx hconnects
  have hwdata : (events.foldl step x).flush.data = _ := (connect_metadata hmeta hconnects).2
  have hback := fun event h => hconnects event (mem_reverse.mp h)
  obtain ⟨m₁, hm₁, hasset⟩ := map_eq_some_iff.mp hwmeta
  unfold roundTrip
  rw [← hwknown]
  cases hw : (events.foldl step x).flush.known with
  | false =>
    -- the name is not there, before as after
    rw [hw, eq_comm, Bool.or_eq_false_iff] at hwknown
    rw [undo_unknown undo hback hw, flush_known rfl, flush_metadata rfl, hw, hwknown.1, hm₁]
    simp [hwknown.2, hasset]
  | true =>
    obtain ⟨hadd, hknown, hdata, hkept⟩ := undo_known undo hback rfl hw hm₁
    rw [any_reverse] at hknown hkept
    change _ = (if takenBack events = [] then _ else _) at hdata
    change _ → _ = some ((takenBack events).foldl _ _) at hkept
    rw [hasset] at hdata hkept
    rw [flush_known hadd, flush_metadata hadd, hknown]
    cases hissue : events.any isIssue with
    | false =>
      obtain ⟨m₂, hm₂, hasset₂⟩ := map_eq_some_iff.mp (hkept hissue)
      rw [hissue, Bool.or_false, hw] at hwknown
      simp only [hm₂, map_some, hasset₂, ← hwknown, if_true]
      simp
    | true =>
      cases hxknown : x.known with
      | true => simp
      | false =>
        have hxdata := data_of_metadata hmeta hxknown
        have hlast : ((events.reverse.map (undone undo)).foldl step
            (events.foldl step x).flush).data =
            some ((takenBack events).foldl (fun asset r => unreissued asset r undo)
              ((events.filterMap reissue?).foldl reissued m.asset)) := by
          rw [hdata]
          split
          case isFalse => rfl
          case isTrue hnone =>
            rw [hwdata, hnone, foldl_nil]
            split
            case isTrue hnone' => rw [hxdata, hnone', foldl_nil]
            case isFalse => rfl
        rw [metadata_of_data hlast]
        simp

theorem not_known_of_metadata (h : x.metadata = none) : x.known = false ∧ x.data = none := by
  have hsome := isSome_metadata x
  rw [h, isSome_none, eq_comm, Bool.or_eq_false_iff] at hsome
  exact ⟨hsome.2, by simpa using hsome.1⟩

theorem metadata_eq_none_iff : x.metadata = none ↔ x.known = false ∧ x.data = none := by
  refine ⟨not_known_of_metadata, fun h => ?_⟩
  have hsome := isSome_metadata x
  simpa [h.1, h.2] using hsome

theorem issues_data (hconnects : AllConnect events) (hissues : events.filterMap reissue? = []) :
    (events.foldl step x).data = x.data := by
  induction events generalizing x with
  | nil => rfl
  | cons event events ih =>
    cases event with
    | issue e =>
      rw [foldl_cons, ih (fun event' h => hconnects event' (mem_cons_of_mem _ h))
        (by simpa [reissue?] using hissues)]
      simp only [step]
      split <;> rfl
    | reissue r => simp [reissue?] at hissues
    | unissue | unreissue => cases hconnects _ mem_cons_self

theorem takenBack_eq_nil {first later : List AssetEvent} (hfirst : first.length ≤ 1)
    (hconnects : AllConnect (first ++ later))
    (hissues : later.filterMap reissue? = [])
    (hissue : (first ++ later).any isIssue = true) : takenBack (first ++ later) = [] := by
  rcases later.eq_nil_or_concat with rfl | ⟨before, last, rfl⟩
  · cases first with
    | nil => cases hissue
    | cons event rest =>
      obtain rfl : rest = [] := length_eq_zero_iff.mp (by simpa using hfirst)
      have hevent : event.isIssue = true := by simpa using hissue
      simp [takenBack, hevent]
  · have hlast : last.isIssue = true := by
      have hconnect := hconnects last (by simp)
      have hno : last.reissue? = none := filterMap_eq_nil_iff.mp hissues last (by simp)
      cases last with
      | issue => rfl
      | reissue => cases hno
      | unissue | unreissue => cases hconnect
    simp [takenBack, hlast]

/-- A name without metadata is again without it exactly when no reissue after the first transaction
concerns it, given that such a reissue is one of an asset that has metadata. -/
theorem roundTrip_of_no_metadata (hx : x.Fresh) (hmeta : x.metadata = none)
    {first later : List AssetEvent} (hfirst : first.length ≤ 1)
    (hconnects : AllConnect (first ++ later))
    (hfound : later.filterMap reissue? ≠ [] →
      ((first ++ later).foldl step x).data.isSome = true) (undo : Option CBlockAssetUndo) :
    ((x.roundTrip (first ++ later) undo).known = x.known ∧
        (x.roundTrip (first ++ later) undo).metadata = none) ↔
      later.filterMap reissue? = [] := by
  constructor
  · rintro ⟨-, hnone⟩
    by_contra hsome
    have hleft : (x.roundTrip (first ++ later) undo).data.isSome = true :=
      foldl_data_isSome _ (hfound hsome)
    rw [(not_known_of_metadata hnone).2] at hleft
    cases hleft
  · intro hissues
    obtain ⟨hfree, hdata⟩ := not_known_of_metadata hmeta
    have hlater := fun event h => hconnects event (mem_append_right _ h)
    -- the first transaction may only have tried to reissue
    have hydata : ((first ++ later).foldl step x).data = none := by
      rw [foldl_append, issues_data hlater hissues]
      cases first with
      | nil => exact hdata
      | cons event rest =>
        obtain rfl : rest = [] := length_eq_zero_iff.mp (by simpa using hfirst)
        cases event with
        | issue e => simpa [step, hfree, data] using hdata
        | reissue r => simpa [step, hmeta] using hdata
        | unissue | unreissue => cases hconnects _ (mem_append_left _ mem_cons_self)
    have hwknown := connect_known hx hconnects
    have hback := fun event h => hconnects event (mem_reverse.mp h)
    rw [hfree, Bool.false_or] at hwknown
    unfold roundTrip
    rw [metadata_eq_none_iff]
    cases hw : ((first ++ later).foldl step x).flush.known with
    | false =>
      rw [undo_unknown undo hback hw, flush_known rfl, hw]
      exact ⟨hfree.symm, rfl, hydata⟩
    | true =>
      rw [hw] at hwknown
      obtain ⟨m, hm⟩ := isSome_iff_exists.mp (metadata_of_known hw)
      obtain ⟨hadd, hknown, hundone, -⟩ := undo_known undo hback rfl hw hm
      rw [any_reverse, ← hwknown] at hknown
      rw [flush_known hadd, hknown, flush_data, hundone]
      exact ⟨hfree.symm, rfl,
        (if_pos (takenBack_eq_nil hfirst hconnects hissues hwknown.symm)).trans hydata⟩

end NameState

end HnbCore
