import HnbCore.AssetEvents
import HnbCore.Marks

/-!
# What the operations do

Adding and removing an asset or a reissue is an event of its name. The other operations on the
view, and the lookups, concern no name. Of the marks in the view all these operations change none.
-/

namespace HnbCore

open Overlay Checks List Option NameState CAssetsCache KeyedSet AssetEvent AssetState

namespace AssetState

variable {s t u : AssetState} {hashes : Hashes} {events : List AssetEvent} {marks : List Mark}
  {op : CAssetsCache → Mark → CAssetsCache}

/-- What lies below the view stays, and the view's marking changes by a function. -/
structure Marked (hashes : Hashes) (f : CAssetsCache → CAssetsCache) (s t : AssetState) : Prop
    extends SameGround hashes s t where
  marking : t.view.marking = f s.view.marking

/-- The events are what has happened to the names, and the marks are made, or taken back. -/
structure Effect (hashes : Hashes) (op : CAssetsCache → Mark → CAssetsCache)
    (events : List AssetEvent) (marks : List Mark) (s t : AssetState) : Prop
    extends Does events s t, Marked hashes (marks.foldl op ·) s t

theorem marked_view {v : CAssetsCache} (h : v.marking = s.view.marking) :
    Marked hashes id s { s with view := v } := ⟨sameGround_view s v, h⟩

theorem Quiet.effect (h : Quiet hashes s t) : Effect hashes op [] [] s t :=
  ⟨h.untouched.does, h.toSameGround, (congrArg CAssetsCache.marking h.view :)⟩

/-- After a lookup, which tells something about the state it is made in. -/
theorem Quiet.andThen (h : Quiet hashes s t) (hdoes : s.WellFormed → Does events t u)
    (hmarked : Marked hashes id t u) : Effect hashes op events [] s u where
  wellFormed hs := (h.untouched.andThen (hdoes hs)).wellFormed hs
  nameState hs := (h.untouched.andThen (hdoes hs)).nameState hs
  toSameGround := h.toSameGround.trans hmarked.toSameGround
  marking := hmarked.marking.trans (congrArg CAssetsCache.marking h.view :)

theorem Effect.refl (s : AssetState) : Effect hashes op [] [] s s := (Quiet.refl s).effect

theorem Effect.trans {later : List AssetEvent} {more : List Mark}
    (hst : Effect hashes op events marks s t) (htu : Effect hashes op later more t u) :
    Effect hashes op (events ++ later) (marks ++ more) s u :=
  ⟨hst.toDoes.trans htu.toDoes, hst.toSameGround.trans htu.toSameGround, by
    rw [htu.marking, hst.marking, foldl_append]⟩

theorem Effect.then (hst : Effect hashes op events marks s t) (htu : Effect hashes op [] [] t u) :
    Effect hashes op events marks s u := by
  simpa using hst.trans htu

theorem Effect.after (htu : Effect hashes op events marks t u) (hst : Effect hashes op [] [] s t) :
    Effect hashes op events marks s u := hst.trans htu

theorem flatMap_none {α β : Type} (l : List α) : (l.flatMap fun _ => ([] : List β)) = [] := by
  simp [flatMap_eq_nil_iff]

/-! A loop has the effects of its rounds. -/

section Loops

variable {ε α τ : Type} {events : α → List AssetEvent} {marks : α → List Mark} {l : List α}

theorem Effect.foldl {f : AssetState → α → AssetState}
    (hf : ∀ s a, Effect hashes op (events a) (marks a) s (f s a)) (l : List α) (s : AssetState) :
    Effect hashes op (l.flatMap events) (l.flatMap marks) s (l.foldl f s) := by
  induction l generalizing s with
  | nil => exact .refl s
  | cons a l ih => exact (hf s a).trans (ih _)

theorem Effect.foldlM {f : τ → α → EStateM ε AssetState τ} {b c : τ}
    (hf : ∀ b a s c t, f b a s = .ok c t → Effect hashes op (events a) (marks a) s t)
    (h : l.foldlM f b s = .ok c t) :
    Effect hashes op (l.flatMap events) (l.flatMap marks) s t := by
  induction l generalizing b s with
  | nil =>
    obtain ⟨-, rfl⟩ := run_pure_eq_ok.mp h
    exact .refl s
  | cons a l ih =>
    obtain ⟨next, v, ha, hrest⟩ := run_bind_eq_ok.mp h
    exact (hf b a s next v ha).trans (ih hrest)

theorem Effect.forM {f : α → EStateM ε AssetState Unit} {x : Unit}
    (hf : ∀ a s x t, f a s = .ok x t → Effect hashes op (events a) (marks a) s t)
    (h : (forM l f : EStateM ε AssetState Unit) s = .ok x t) :
    Effect hashes op (l.flatMap events) (l.flatMap marks) s t := by
  rw [forM_eq_foldlM] at h
  exact .foldlM (fun _ => hf) h

end Loops

/-- An event that the machine does not act on. -/
theorem does_nothing {event : AssetEvent}
    (h : (s.nameState event.name).step event = s.nameState event.name) : Does [event] s s where
  wellFormed := id
  nameState _ name := by
    simp only [run_cons, run_nil, on]
    split
    case isTrue hname => rw [← hname, h]
    case isFalse => rfl

theorem pushNewAsset_does (e : CAssetCacheNewAsset)
    (hnew : (s.nameState e.asset.strName).known = false) :
    Does [.issue e] s { s with view := s.view.pushNewAsset e } where
  wellFormed hs := { hs with
    apart := by
      intro name hrem
      simp only [pushNewAsset, contains_erase, find?_insert,
        Bool.and_eq_true, decide_eq_true_eq] at hrem ⊢
      rw [if_neg hrem.1]
      exact hs.apart name hrem.2 }
  nameState _ name := by
    simp only [run_cons, run_nil, on, AssetEvent.name, step,
      nameState, pushNewAsset, find?_insert, find?_erase]
    split
    case isTrue hname =>
      subst hname
      exact (if_neg (Bool.eq_false_iff.mp hnew)).symm
    case isFalse => rfl

theorem popNewAsset_does (e : CAssetCacheNewAsset)
    (hknown : (s.nameState e.asset.strName).known = true) :
    Does [.unissue e] s { s with view := s.view.popNewAsset e } where
  wellFormed hs := { hs with
    apart := by
      intro name hrem
      simp only [popNewAsset, KeyedSet.contains_insert, KeyedSet.find?_erase] at hrem ⊢
      split
      · rfl
      · exact hs.apart name (by simpa [*] using hrem) }
  nameState _ name := by
    simp only [run_cons, run_nil, on, AssetEvent.name, step,
      nameState, popNewAsset, find?_insert, find?_erase]
    split
    case isTrue hname =>
      subst hname
      exact (if_pos hknown).symm
    case isFalse => rfl

theorem assignData_does (event : AssetEvent) (asset : CNewAsset)
    (hname : asset.strName = event.name) (hstep : (s.nameState event.name).step event =
      { s.nameState event.name with viewData := some asset }) :
    Does [event] s { s with view.mapReissuedAssetData :=
      s.view.mapReissuedAssetData.assign (event.name, asset) } where
  wellFormed hs := { hs with
    viewNamed := by
      intro item hitem
      rcases mem_assign hitem with rfl | hold
      · exact hname
      · exact hs.viewNamed item hold }
  nameState _ name := by
    simp only [run_cons, run_nil, on]
    split
    case isTrue heq =>
      subst heq
      rw [hstep]
      simp [nameState, find?_assign]
    case isFalse hne => simp [nameState, find?_assign, hne]

theorem addNewAsset_fst (hs : s.WellFormed) (asset : CNewAsset) (address : Bytes) (nHeight : Int)
    (blockHash : UInt256) :
    (addNewAsset asset address nHeight blockHash s).1 = !(s.nameState asset.strName).known := by
  rw [← hs.exists_eq]
  unfold addNewAsset
  cases hfound : checkIfAssetExists asset.strName true s with | mk found t =>
  cases found <;> rfl

variable (asset : CNewAsset) (address : Bytes)

theorem addNewAsset_effect (nHeight : Int) (blockHash : UInt256) (s : AssetState) :
    Effect hashes op [.issue ⟨asset, address, nHeight, blockHash⟩] [] s
      (addNewAsset asset address nHeight blockHash s).2 := by
  have hlookup : Quiet hashes s _ := checkIfAssetExists_quiet asset.strName true s
  have hanswer := fun hs : s.WellFormed => hs.exists_eq asset.strName
  unfold addNewAsset
  cases hfound : checkIfAssetExists asset.strName true s with | mk found t =>
  rw [hfound] at hlookup
  simp only [hfound, ← hlookup.untouched.nameState] at hanswer
  cases found with
  | true =>
    refine hlookup.andThen (fun hs => does_nothing ?_) (marked_view rfl)
    simp [step, name, ← hanswer hs]
  | false =>
    refine (hlookup.andThen (fun hs => pushNewAsset_does ⟨asset, address, nHeight, blockHash⟩
      (hanswer hs).symm) (marked_view rfl)).then ?_
    show Effect _ _ _ _ _ (if _ then _ else _)
    split
    · exact (setAmount_quiet _).effect
    · exact .refl _

theorem removeNewAsset_effect (s : AssetState) :
    Effect hashes op [.unissue ⟨asset, address, 0, 0⟩] [] s (removeNewAsset asset address s).2 := by
  have hlookup : Quiet hashes s _ := checkIfAssetExists_quiet asset.strName true s
  have hanswer := fun hs : s.WellFormed => hs.exists_eq asset.strName
  unfold removeNewAsset
  cases hfound : checkIfAssetExists asset.strName true s with | mk found t =>
  rw [hfound] at hlookup
  simp only [hfound, ← hlookup.untouched.nameState] at hanswer
  cases found with
  | false =>
    refine hlookup.andThen (fun hs => does_nothing ?_) (marked_view rfl)
    simp [step, name, ← hanswer hs]
  | true =>
    refine (hlookup.andThen (fun hs => popNewAsset_does ⟨asset, address, 0, 0⟩ (hanswer hs).symm)
      (marked_view rfl)).then ?_
    show Effect _ _ _ _ _ (if _ then _ else _)
    split
    · exact (setAmount_quiet _).effect
    · exact .refl _

/-- The metadata of a name is that of an asset of this name. -/
theorem WellFormed.metadata_name (hs : s.WellFormed) {name : Bytes} {m : AssetMetaData}
    (h : (s.nameState name).metadata = some m) : m.asset.strName = name := by
  have hnamed : ∀ {map : KeyedMap Bytes CNewAsset} {asset}, Named map →
      (map.find? name).map Prod.snd = some asset → asset.strName = name := by
    intro map asset hmap hasset
    obtain ⟨item, hfind, rfl⟩ := map_eq_some_iff.mp hasset
    exact (hmap item (mem_of_find? hfind)).trans (key_of_find? hfind)
  rcases metadata_cases h with ⟨asset, hdata, rfl⟩ | ⟨e, hadd, rfl⟩ | hstored
  · rcases or_eq_some_iff.mp hdata with hview | ⟨_, hpassets⟩
    · exact hnamed hs.viewNamed hview
    · exact hnamed hs.passetsNamed hpassets
  · rcases hadd with hview | hpassets
    · have hkey := key_of_find? hview
      exact hkey
    · have hkey := key_of_find? hpassets
      exact hkey
  · have hkey := key_of_find? hstored
    exact hkey

variable (reissue : CReissueAsset)

theorem addReissueAsset_effect (out : COutPoint) (s : AssetState) :
    Effect hashes op [.reissue reissue] [] s (addReissueAsset reissue address out s).2 := by
  have hlookup : Quiet hashes s _ := getAssetMetaDataIfExists_quiet reissue.strName s
  have hanswer := fun hs : s.WellFormed => hs.metadata_eq reissue.strName
  unfold addReissueAsset
  cases hfound : getAssetMetaDataIfExists reissue.strName s with | mk found t =>
  rw [hfound] at hlookup
  simp only [hfound, ← hlookup.untouched.nameState] at hanswer
  cases found with
  | none =>
    refine hlookup.andThen (fun hs => does_nothing ?_) (marked_view rfl)
    simp [step, name, ← hanswer hs]
  | some data =>
    dsimp only
    refine Effect.then ?_ (updateBalance_quiet _).effect
    refine hlookup.andThen (fun hs => ?_) (marked_view rfl)
    have hname := (hlookup.untouched.does.wellFormed hs).metadata_name (hanswer hs).symm
    have hdata : Does [.reissue reissue] t _ :=
      assignData_does (.reissue reissue) (reissued data.asset reissue) hname
        (by simp [step, name, ← hanswer hs])
    exact hdata.then { Untouched.refl _ with }

theorem unreissued_strName
    (undo : Option CBlockAssetUndo) : (unreissued asset reissue undo).strName = asset.strName := by
  cases undo <;> rfl

/-- Apart from the reissued data, taking a reissue back concerns no name. -/
theorem unreissueView_untouched {v : CAssetsCache} {e : CAssetCacheReissueAsset}
    {assetData : CNewAsset} {undo : Option CBlockAssetUndo}
    (hv : v = { t.view with mapReissuedAssetData :=
      t.view.mapReissuedAssetData.assign (assetData.strName, assetData) }) :
    Untouched { t with view := v } { t with view := unreissueView t.view e assetData undo } := by
  subst hv
  unfold unreissueView
  cases undo with
  | none => exact { Untouched.refl _ with }
  | some item =>
    dsimp only
    split <;> exact { Untouched.refl _ with }

theorem unreissueView_marking (view : CAssetsCache) (e : CAssetCacheReissueAsset)
    (assetData : CNewAsset) (undo : Option CBlockAssetUndo) :
    (unreissueView view e assetData undo).marking = view.marking := by
  unfold unreissueView
  cases undo with
  | none => rfl
  | some item =>
    dsimp only
    split <;> rfl

/-- The asset was found before. -/
theorem removeReissueAsset_effect (out : COutPoint)
    (vUndo : List (Bytes × CBlockAssetUndo)) (hsame : Quiet hashes u s)
    (hknown : u.WellFormed → (s.nameState reissue.strName).known = true) :
    Effect hashes op [.unreissue reissue (undoEntry vUndo reissue.strName)] [] u
      (removeReissueAsset reissue address out vUndo s).2 := by
  have hlookup : Quiet hashes s _ := getAssetMetaDataIfExists_quiet reissue.strName s
  have hanswer := fun hs : s.WellFormed => hs.metadata_eq reissue.strName
  have hs := hsame.untouched.does.wellFormed
  unfold removeReissueAsset
  cases hfound : getAssetMetaDataIfExists reissue.strName s with | mk found t =>
  rw [hfound] at hlookup
  simp only [hfound, ← hlookup.untouched.nameState] at hanswer hknown
  cases found with
  | none =>
    refine (hsame.trans hlookup).andThen (fun hu => does_nothing ?_) (marked_view rfl)
    simp [step, name, ← hanswer (hs hu)]
  | some data =>
    refine Effect.then ((hsame.trans hlookup).andThen (fun hu => ?_)
      (marked_view (unreissueView_marking _ _ _ _)))
      (takeReissuedAmount_quiet _).effect
    have hname := (hlookup.untouched.does.wellFormed (hs hu)).metadata_name (hanswer (hs hu)).symm
    have hdata : Does [.unreissue reissue (undoEntry vUndo reissue.strName)] t _ :=
      assignData_does (.unreissue reissue (undoEntry vUndo reissue.strName))
        (unreissued data.asset reissue (undoEntry vUndo reissue.strName))
        ((unreissued_strName _ _ _).trans hname)
        (by simp [step, name, ← hanswer (hs hu), hknown hu])
    refine hdata.then (unreissueView_untouched ?_)
    rw [unreissued_strName, hname]
    rfl

theorem flush_nameState (s : AssetState) (name : Bytes) :
    s.flush.nameState name = (s.nameState name).flush := by
  simp only [nameState, flush, flush, find?_flush_toAdd,
    find?_flush_toRemove, find?_flush_reissued, map_or]
  rfl

theorem WellFormed.flush (hs : s.WellFormed) : s.flush.WellFormed where
  running := hs.running
  sound := hs.sound
  apart := by intro name h; simp [AssetState.flush, fresh] at h
  viewNamed := by intro item h; simp [AssetState.flush, fresh, empty] at h
  passetsNamed := by
    intro item hitem
    rcases mem_foldl_assign hitem with hview | hpassets
    · exact hs.viewNamed item hview
    · exact hs.passetsNamed item hpassets

theorem untouched_view {v : CAssetsCache} (hadd : v.setNewAssetsToAdd = s.view.setNewAssetsToAdd)
    (hrem : v.setNewAssetsToRemove = s.view.setNewAssetsToRemove)
    (hdata : v.mapReissuedAssetData = s.view.mapReissuedAssetData) :
    Untouched s { s with view := v } :=
  { Untouched.refl s with toAdd := hadd, toRemove := hrem, reissuedData := hdata }

variable {name address : Bytes} {type : QualifierType}

theorem changeRoots_untouched {given : Bool} :
    Untouched s { s with view := s.view.changeRoots given name address } := by
  unfold changeRoots
  split_ifs <;> exact untouched_view rfl rfl rfl

theorem addQualifierAddress_untouched :
    Untouched s { s with view := s.view.addQualifierAddress name address type } :=
  changeRoots_untouched.trans (untouched_view rfl rfl rfl)

theorem removeQualifierAddress_untouched :
    Untouched s { s with view := s.view.removeQualifierAddress name address type } :=
  changeRoots_untouched.trans (untouched_view rfl rfl rfl)

end AssetState

end HnbCore
