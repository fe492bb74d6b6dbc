import HnbCore.IssueOnce

/-!
# Metadata and existence

Whether an asset exists is read off the additions, the removals and the database; its metadata is
read off the reissued data first. The two agree as long as the issue of an asset is undone only
where no reissued data of the asset is left in memory.
-/

namespace HnbCore

open Checks AssetState List NameState

variable {events : List AssetEvent}

/-- What changes reissued data. -/
def AssetEvent.reissues : AssetEvent → Bool
  | .reissue _ | .unreissue _ _ => true
  | .issue _ | .unissue _ => false

namespace NameState

/-- Reissued data is that of an asset that exists. -/
def Agrees (x : NameState) : Prop := x.data.isSome = true → x.known = true

variable {x : NameState}

theorem agrees_iff : x.Agrees ↔ x.metadata.isSome = x.known := by
  rw [Agrees, isSome_metadata]
  cases x.data.isSome <;> cases x.known <;> simp

theorem agrees_of_data (h : x.data = none) : x.Agrees := by simp [Agrees, h]

/-- Only the undoing of an issue can leave data of an asset that is gone. -/
theorem Agrees.step (h : x.Agrees) {event : AssetEvent} (hkept : ∀ e, event ≠ .unissue e) :
    (x.step event).Agrees := by
  cases event with
  | issue e =>
    cases hknown : x.known with
    | true => simpa [NameState.step, hknown] using h
    | false =>
      have hdata : x.data = none := by simpa [Agrees, hknown] using h
      exact agrees_of_data (by simpa [NameState.step, hknown, data] using hdata)
  | reissue r =>
    cases hmeta : x.metadata with
    | none => simpa [NameState.step, hmeta] using h
    | some m =>
      have hknown : x.known = true := by rw [← agrees_iff.mp h, hmeta]; rfl
      simp only [NameState.step, hmeta]
      exact fun _ => hknown
  | unissue e => exact absurd rfl (hkept e)
  | unreissue r undo =>
    cases hknown : x.known with
    | false => simpa [NameState.step, hknown] using h
    | true =>
      simp only [NameState.step, hknown, if_true]
      split
      · exact fun _ => hknown
      · exact h

theorem Agrees.run (h : x.Agrees) {name : Bytes}
    (hkept : ∀ e, .unissue e ∈ events → (AssetEvent.unissue e).name ≠ name) :
    (x.run name events).Agrees := by
  induction events generalizing x with
  | nil => exact h
  | cons event later ih =>
    rw [run_cons, on]
    refine ih ?_ fun e hmem => hkept e (mem_cons_of_mem _ hmem)
    split
    case isTrue hname =>
      refine h.step fun e he => ?_
      subst he
      exact hkept e mem_cons_self hname
    case isFalse => exact h

theorem run_data {name : Bytes}
    (hissues : ∀ event ∈ events, event.name = name → event.reissues = false) :
    (x.run name events).data = x.data := by
  induction events generalizing x with
  | nil => rfl
  | cons event later ih =>
    rw [run_cons, ih fun event' hmem => hissues event' (mem_cons_of_mem _ hmem), on]
    split
    case isTrue hname =>
      have hissue := hissues event mem_cons_self hname
      cases event with
      | issue e => simp only [step]; split <;> rfl
      | unissue e => simp only [step]; split <;> rfl
      | reissue | unreissue => cases hissue
    case isFalse => rfl

theorem agrees_unissue (hknown : x.known = true) {e : CAssetCacheNewAsset} :
    (x.step (.unissue e)).Agrees ↔ x.data = none := by
  have hgone : (x.step (.unissue e)).known = false := by
    rw [step, if_pos hknown]
    simp [known, pending, Overlay.pending]
  have hdata : (x.step (.unissue e)).data = x.data := by simp [step, hknown, data]
  simp [Agrees, hgone, hdata]

theorem known_flush (h : x.known = true) : x.flush.known = true := by
  obtain ⟨viewAdd, viewRem, viewData, passetsAdd, passetsRem, passetsData, stored⟩ := x
  simp only [known, pending, Overlay.pending, flush] at h ⊢
  cases viewRem
  case some => simp at h
  cases passetsRem
  case some => simp at h
  cases viewAdd <;> cases passetsAdd <;> simp_all

theorem Agrees.flush (h : x.Agrees) : x.flush.Agrees :=
  fun hdata => known_flush (h (by simpa [data, NameState.flush] using hdata))

end NameState

/-- No issue is undone of which reissued data is left, or is made on the way. -/
def SafeEvents (s : AssetState) (events : List AssetEvent) : Prop :=
  ∀ e, .unissue e ∈ events → s.reissuedData e.asset.strName = none ∧
    ∀ event ∈ events, event.name = e.asset.strName → event.reissues = false

def CBlock.reissuedNames (block : CBlock) (env : Env) : List Bytes :=
  if env.deployments.areAssetsDeployed then
    block.vtx.filterMap fun tx => (tx.reissue env).map (·.strName)
  else []

/-- A block is disconnected only if `passets` has no reissued data of the assets that the block
issues, and the block does not reissue them itself. -/
def Node.SafeUndo (n : Node) : Node.Act → Prop
  | .disconnectTip env => ∀ block ∈ n.chain.head?, ∀ name ∈ block.issuedNames env,
      n.assets.passets.mapReissuedAssetData.contains name = false ∧
        name ∉ block.reissuedNames env
  | .connectTip _ _ | .flushStateToDisk _ => True

instance Node.decidableSafeUndo (n : Node) (env : Env) :
    Decidable (n.SafeUndo (.disconnectTip env)) :=
  inferInstanceAs (Decidable (∀ block ∈ n.chain.head?, ∀ name ∈ block.issuedNames env,
    n.assets.passets.mapReissuedAssetData.contains name = false ∧
      name ∉ block.reissuedNames env))

theorem agrees_of_does {s t : AssetState} (hs : s.WellFormed) (hdoes : Does events s t)
    (hsafe : SafeEvents s events) (hagrees : ∀ name, (s.nameState name).Agrees) (name : Bytes) :
    (t.nameState name).Agrees := by
  rw [hdoes.nameState hs]
  by_cases hundone : ∃ e, .unissue e ∈ events ∧ e.asset.strName = name
  · obtain ⟨e, hmem, rfl⟩ := hundone
    obtain ⟨hnone, hissues⟩ := hsafe e hmem
    refine agrees_of_data ((run_data hissues).trans ?_)
    simpa [data, reissuedData, nameState] using hnone
  · refine (hagrees name).run fun e hmem hname => hundone ⟨e, hmem, hname⟩

theorem safeEvents_of_connects {s : AssetState} (h : ∀ event ∈ events, event.connects = true) :
    SafeEvents s events :=
  fun _ hmem => by cases h _ hmem

theorem CBlock.connectEvents_connects (block : CBlock) (env : Env) (nHeight : Int) :
    ∀ event ∈ block.connectEvents env nHeight, event.connects = true := by
  intro event hmem
  obtain ⟨tx, -, htx⟩ := mem_flatMap.mp hmem
  exact tx.connectEvents_connects env nHeight block.hash event htx

/-- What disconnecting a block undoes, it had issued or reissued. -/
theorem CBlock.mem_disconnectEvents {block : CBlock} {env : Env}
    {vUndo : List (Bytes × CBlockAssetUndo)} {event : AssetEvent}
    (h : event ∈ block.disconnectEvents env vUndo) :
    (∃ e, event = .unissue e ∧ e.asset.strName ∈ block.issuedNames env) ∨
      (∃ r undo, event = .unreissue r undo ∧ r.strName ∈ block.reissuedNames env) := by
  obtain ⟨tx, htx, hevent⟩ := mem_flatMap.mp h
  rw [mem_reverse] at htx
  unfold CTransaction.disconnectEvents at hevent
  split at hevent
  case isFalse => cases hevent
  case isTrue hactive =>
    rcases mem_append.mp hevent with hissue | hreissue
    · obtain ⟨issued, hissued, rfl⟩ := mem_map.mp hissue
      refine .inl ⟨_, rfl, mem_flatMap.mpr ⟨tx, htx, ?_⟩⟩
      rw [CTransaction.issuedNames, if_pos hactive]
      exact mem_map.mpr ⟨issued, hissued, rfl⟩
    · obtain ⟨r, hr, rfl⟩ := mem_map.mp hreissue
      refine .inr ⟨r, _, rfl, ?_⟩
      rw [CBlock.reissuedNames, if_pos hactive]
      refine mem_filterMap.mpr ⟨tx, htx, ?_⟩
      rw [Option.mem_toList.mp hr]
      rfl

theorem safeEvents_of_safeUndo {n : Node} (hn : n.AtRest) {env : Env} {block : CBlock}
    (hblock : block ∈ n.chain.head?) (hsafe : n.SafeUndo (.disconnectTip env))
    (vUndo : List (Bytes × CBlockAssetUndo)) :
    SafeEvents n.assets (block.disconnectEvents env vUndo) := by
  intro e hmem
  rcases CBlock.mem_disconnectEvents hmem with ⟨_, he, hissued⟩ | ⟨_, _, he, -⟩
  case inr => cases he
  cases he
  obtain ⟨hpassets, hother⟩ := hsafe block hblock _ hissued
  refine ⟨?_, fun event hevent hname => ?_⟩
  · have hview : n.assets.view.mapReissuedAssetData.find? e.asset.strName = none := by
      rw [hn.fresh]
      rfl
    simpa [reissuedData, hview, KeyedSet.contains] using hpassets
  · rcases CBlock.mem_disconnectEvents hevent with ⟨_, rfl, -⟩ | ⟨r, _, rfl, hr⟩
    · rfl
    · exact absurd (hname ▸ hr) hother

/-- In every run in which blocks are disconnected safely, reissued data is that of assets that
exist. -/
theorem Node.Reachable.agrees {n : Node} (h : n.Reachable Node.SafeUndo) (name : Bytes) :
    (n.assets.nameState name).Agrees := by
  induction h generalizing name with
  | start => exact agrees_of_data rfl
  | @step n n' a hreach hsafe hact ih =>
    have hrest := hreach.atRest
    cases a with
    | connectTip env block =>
      obtain ⟨undo, coins, assets, hconnect, rfl⟩ := connectTip_some hact
      have hdoes := (connectBlock_effect hconnect).toDoes.then (writeUndo_untouched n block undo assets)
      rw [flush_nameState]
      exact (agrees_of_does hrest.wellFormed hdoes (safeEvents_of_connects
        (block.connectEvents_connects env.toEnv _)) ih name).flush
    | disconnectTip env =>
      obtain ⟨block, chain, _, _, assets, hchain, -, hdisconnect, rfl⟩ := disconnectTip_some hact
      rw [flush_nameState]
      exact (agrees_of_does hrest.wellFormed (disconnectBlock_effect hdisconnect).toDoes
        (safeEvents_of_safeUndo hrest (by simp [hchain]) hsafe _) ih name).flush
    | flushStateToDisk hashes =>
      obtain ⟨-, hview, hpassets⟩ := hrest.wellFormed.dumpCacheToDatabase hashes
      obtain rfl := Option.some.inj hact
      refine agrees_of_data ?_
      simp only [Node.flushStateToDisk, data, nameState, hview, hpassets, hrest.fresh]
      rfl

/-- In every run in which blocks are disconnected safely, and on every view on the way, an asset
has metadata exactly when it exists. Undoing the issue of an asset keeps this up exactly when no
reissued data of it is left. -/
theorem metadata_agrees {n : Node} (hn : n.Reachable Node.SafeUndo) {events : List AssetEvent}
    {t : AssetState} (ht : Does events n.assets t) (hsafe : SafeEvents n.assets events) :
    (∀ name, (getAssetMetaDataIfExists name t).1.isSome = (checkIfAssetExists name true t).1) ∧
    ∀ (asset : CNewAsset) (address : Bytes), (checkIfAssetExists asset.strName true t).1 = true →
      let u := (removeNewAsset asset address t).2
      ((getAssetMetaDataIfExists asset.strName u).1.isSome =
          (checkIfAssetExists asset.strName true u).1 ↔ t.reissuedData asset.strName = none) := by
  have hrest := hn.atRest.wellFormed
  have htWell := ht.wellFormed hrest
  refine ⟨fun name => ?_, fun asset address hknown => ?_⟩
  · rw [htWell.metadata_eq, htWell.exists_eq]
    exact agrees_iff.mp (agrees_of_does hrest ht hsafe hn.agrees name)
  · have heffect : Effect default .mark _ _ t _ := removeNewAsset_effect asset address t
    have hdoes := heffect.toDoes
    have huWell := hdoes.wellFormed htWell
    rw [htWell.exists_eq] at hknown
    have hstep : (removeNewAsset asset address t).2.nameState asset.strName =
        (t.nameState asset.strName).step (.unissue ⟨asset, address, 0, 0⟩) := by
      rw [hdoes.nameState htWell]
      simp [on, AssetEvent.name]
    dsimp only
    rw [huWell.metadata_eq, huWell.exists_eq, hstep, ← agrees_iff,
      agrees_unissue hknown]
    simp [data, reissuedData, nameState]

/-- A reissue of five more units, paid for by an output of block 7. -/
def goldReissueTx : CTransaction :=
  ⟨[⟨⟨7, 1⟩, []⟩, ⟨⟨21, 1⟩, []⟩],
   [⟨100 * coin, scriptForKeyID reissueBurnKey⟩, goldOwnerTransfer,
    ⟨0, CReissueAsset.constructTransaction ⟨str "GOLD", 5, -1, 1, []⟩ (scriptForKeyID issuerKey)⟩], 41⟩

/-- Gold is issued in one block and reissued in the next, and both are disconnected. -/
def goldReissueUndoneActs : List Node.Act :=
  maturedActs [500 * coin, 100 * coin] ++
    [.connectTip regTestChain goldIssueBlock,
     .connectTip regTestChain (minedBlock 40 [0] [goldReissueTx]),
     .disconnectTip regTestChain.toEnv, .disconnectTip regTestChain.toEnv]

/-- Gold is issued, reissued and dumped. -/
def goldReissuedActs : List Node.Act :=
  maturedActs [500 * coin, 100 * coin] ++
    [.connectTip regTestChain goldIssueBlock,
     .connectTip regTestChain (minedBlock 40 [0] [goldReissueTx]),
     .flushStateToDisk regTestChain.hashes]

theorem goldReissuedActs_safe : ∀ a ∈ goldReissuedActs, ∀ m : Node, m.SafeUndo a := by
  intro a ha m
  simp only [goldReissuedActs, maturedActs, List.mem_append, List.mem_cons, List.mem_map,
    List.not_mem_nil, or_false] at ha
  rcases ha with (rfl | ⟨i, -, rfl⟩) | rfl | rfl | rfl <;> trivial

/-- The reissue is disconnected, and after another dump the issue. Gold has metadata before, and
none after. -/
theorem gold_agrees :
    ∃ n n₁ n₂ : Node, ({} : Node).acts goldReissuedActs = some n ∧
      n.disconnectTip regTestChain.toEnv = some n₁ ∧
      (n₁.flushStateToDisk regTestChain.hashes).disconnectTip regTestChain.toEnv = some n₂ ∧
      (getAssetMetaDataIfExists goldAsset.strName n₁.assets).1.isSome = true ∧
      (getAssetMetaDataIfExists goldAsset.strName n₂.assets).1.isSome = false := by
  obtain ⟨n, hn, hsafe, n₁, hn₁, hsafe₁, hthere, n₂, hn₂, hgone⟩ :
      ∃ n, ({} : Node).acts goldReissuedActs = some n ∧
        n.SafeUndo (.disconnectTip regTestChain.toEnv) ∧
      ∃ n₁, n.disconnectTip regTestChain.toEnv = some n₁ ∧
        (n₁.flushStateToDisk regTestChain.hashes).SafeUndo (.disconnectTip regTestChain.toEnv) ∧
        (checkIfAssetExists goldAsset.strName true n₁.assets).1 = true ∧
      ∃ n₂, (n₁.flushStateToDisk regTestChain.hashes).disconnectTip regTestChain.toEnv = some n₂ ∧
        (checkIfAssetExists goldAsset.strName true n₂.assets).1 = false := by decide +kernel
  have hreach : n.Reachable Node.SafeUndo :=
    (Node.Reachable.start false).acts_of_forall goldReissuedActs_safe hn
  have hreach₁ := hreach.step (.disconnectTip regTestChain.toEnv) hsafe hn₁
  have hreach₂ := (hreach₁.step (.flushStateToDisk regTestChain.hashes) trivial rfl).step
    (.disconnectTip regTestChain.toEnv) hsafe₁ hn₂
  have hagrees : ∀ m : Node, m.Reachable Node.SafeUndo →
      (getAssetMetaDataIfExists goldAsset.strName m.assets).1.isSome =
        (checkIfAssetExists goldAsset.strName true m.assets).1 := fun m hm =>
    (metadata_agrees hm (Untouched.refl _).does (safeEvents_of_connects (by simp))).1 _
  exact ⟨n, n₁, n₂, hn, hn₁, hn₂, (hagrees n₁ hreach₁).trans hthere, (hagrees n₂ hreach₂).trans hgone⟩

theorem gold_metadata_left :
    ∃ n : Node, n.Reachable Node.Anything ∧
      (checkIfAssetExists goldAsset.strName true n.assets).1 = false ∧
      (getAssetMetaDataIfExists goldAsset.strName n.assets).1 = some ⟨goldAsset, none, 0⟩ := by
  obtain ⟨n, hn, hanswers⟩ : ∃ n, ({} : Node).acts goldReissueUndoneActs = some n ∧
      (checkIfAssetExists goldAsset.strName true n.assets).1 = false ∧
      (getAssetMetaDataIfExists goldAsset.strName n.assets).1 = some ⟨goldAsset, none, 0⟩ := by
    decide +kernel
  exact ⟨n, (Node.Reachable.start false).acts hn, hanswers⟩

end HnbCore
