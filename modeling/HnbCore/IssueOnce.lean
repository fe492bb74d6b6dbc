import HnbCore.Node
import HnbCore.AssetSupply

/-!
# An asset in the block that issues it

Whether the view that a block is connected on finds an asset the block has issued. A removal that a
disconnected block has left in `passets` is asked before the additions of the view and hides them.
-/

namespace HnbCore

open Checks AssetState List CTransaction NameState

variable {s t : AssetState} {env : Env} {tx : CTransaction} {mempool : MempoolAssets}
  {fCheckMempool : Bool} {e : String} {u : Unit} {scan : ConnectScan}

/-- What connecting a block does, as opposed to disconnecting one. -/
def AssetEvent.connects : AssetEvent → Bool
  | .issue _ | .reissue _ => true
  | .unissue _ | .unreissue _ _ => false

namespace NameState

variable {events : List AssetEvent}

/-- The view adds the name. -/
structure Issued (x : NameState) (e : CAssetCacheNewAsset) : Prop where
  added : x.viewAdd = some e
  kept : x.viewRem = none

variable {x : NameState} {e : CAssetCacheNewAsset}

theorem step_below (x : NameState) (event : AssetEvent) :
    (x.step event).passetsRem = x.passetsRem ∧ (x.step event).passetsAdd = x.passetsAdd ∧
      (x.step event).passetsData = x.passetsData ∧ (x.step event).stored = x.stored := by
  cases event <;> simp only [step] <;> repeat' split
  all_goals exact ⟨rfl, rfl, rfl, rfl⟩

theorem step_passetsRem (x : NameState) (event : AssetEvent) :
    (x.step event).passetsRem = x.passetsRem := (step_below x event).1

theorem run_passetsRem (x : NameState) (name : Bytes) (events : List AssetEvent) :
    (x.run name events).passetsRem = x.passetsRem := by
  induction events generalizing x with
  | nil => rfl
  | cons event later ih =>
    rw [run_cons, ih, on]
    split
    · exact step_passetsRem x event
    · rfl

theorem Issued.known_eq (h : x.Issued e) : x.known = x.passetsRem.isNone := by
  simp only [known, pending, Overlay.pending, h.added, h.kept]
  cases x.passetsRem <;> simp

/-- The name is taken, or it stands in the view already: issuing it again does nothing. -/
theorem Issued.step_issue (h : x.Issued e) (e' : CAssetCacheNewAsset) :
    x.step (.issue e') = x := by
  obtain ⟨viewAdd, viewRem, viewData, passetsAdd, passetsRem, passetsData, stored⟩ := x
  obtain ⟨rfl, rfl⟩ := h
  simp [step]

variable {name : Bytes}

theorem Issued.run_issues (h : x.Issued e)
    (hissues : ∀ event ∈ events, event.name = name → ∃ e', event = .issue e') :
    x.run name events = x := by
  induction events with
  | nil => rfl
  | cons event later ih =>
    have hon : x.on name event = x := by
      rw [on]
      split
      case isTrue hname =>
        obtain ⟨e', rfl⟩ := hissues event mem_cons_self hname
        exact h.step_issue e'
      case isFalse => rfl
    rw [run_cons, hon]
    exact ih fun event' hmem => hissues event' (mem_cons_of_mem _ hmem)

/-- The view that issues a name finds it exactly when no removal of it is pending in `passets`, and
then it finds the issue's own data exactly when there is no reissued data of an earlier asset. -/
theorem Issued.found_iff (h : x.Issued e) :
    (x.known = true ∧ x.metadata = some e.data) ↔ (x.passetsRem = none ∧ x.data = none) := by
  rw [h.known_eq, Option.isNone_iff_eq_none]
  refine and_congr_right fun hrem => ?_
  simp only [metadata, pending, Overlay.pending, h.added, h.kept, hrem]
  cases hdata : x.data with
  | none => simp
  | some asset => simp [CAssetCacheNewAsset.data]

/-- A view does not add what it removes. -/
def Apart (x : NameState) : Prop := x.viewRem.isSome = true → x.viewAdd = none

theorem issued_step (hfree : x.known = false) (e : CAssetCacheNewAsset) :
    (x.step (.issue e)).Issued (x.viewAdd.getD e) := by
  simp only [step, hfree, Bool.false_eq_true, if_false]
  exact ⟨rfl, rfl⟩

/-- A free name that no removal hides is not added yet. -/
theorem viewAdd_of_free (hfree : x.known = false) (hapart : x.Apart) (hrem : x.passetsRem = none) :
    x.viewAdd = none := by
  cases hview : x.viewRem with
  | some => exact hapart (by simp [hview])
  | none =>
    cases hadd : x.viewAdd with
    | none => rfl
    | some e => simp [known, pending, Overlay.pending, hview, hrem, hadd] at hfree

theorem found_after_issue_iff (hfree : x.known = false) (hapart : x.Apart)
    (e : CAssetCacheNewAsset) {later : List AssetEvent}
    (hissues : ∀ event ∈ later, event.name = name → ∃ e', event = .issue e') :
    (((x.step (.issue e)).run name later).known = true ∧
        ((x.step (.issue e)).run name later).metadata = some e.data) ↔
      (x.passetsRem = none ∧ x.data = none) := by
  have hissued := issued_step hfree e
  have hdata : (x.step (.issue e)).data = x.data := by simp [step, hfree, data]
  rw [hissued.run_issues hissues]
  cases hrem : x.passetsRem with
  | some => simp [hissued.known_eq, step_passetsRem, hrem]
  | none =>
    rw [viewAdd_of_free hfree hapart hrem, Option.getD_none] at hissued
    rw [hissued.found_iff, step_passetsRem, hrem, hdata]

/-- Where no removal is pending in `passets`, a name is taken once it is issued. -/
theorem known_step_issue (hrem : x.passetsRem = none) (e : CAssetCacheNewAsset) :
    (x.step (.issue e)).known = true := by
  cases hfree : x.known with
  | true => simp [step, hfree]
  | false => simp [(issued_step hfree e).known_eq, step_passetsRem, hrem]

theorem known_step (hknown : x.known = true) {event : AssetEvent}
    (hconnects : event.connects = true) : (x.step event).known = true := by
  cases event with
  | issue e => simp [step, hknown]
  | reissue r =>
    simp only [step]
    split <;> exact hknown
  | unissue | unreissue => cases hconnects

theorem known_run (hknown : x.known = true)
    (hconnects : ∀ event ∈ events, event.name = name → event.connects = true) :
    (x.run name events).known = true := by
  induction events generalizing x with
  | nil => exact hknown
  | cons event later ih =>
    rw [run_cons, on]
    refine ih ?_ fun event' hmem => hconnects event' (mem_cons_of_mem _ hmem)
    split
    case isTrue hname => exact known_step hknown (hconnects event mem_cons_self hname)
    case isFalse => exact hknown

theorem known_run_of_issue (hrem : x.passetsRem = none)
    (hconnects : ∀ event ∈ events, event.name = name → event.connects = true)
    {e : CAssetCacheNewAsset} (hmem : .issue e ∈ events)
    (hname : (AssetEvent.issue e).name = name) : (x.run name events).known = true := by
  obtain ⟨before, later, rfl⟩ := append_of_mem hmem
  rw [run_append, run_cons, on, if_pos hname]
  refine known_run (known_step_issue ((run_passetsRem x name before).trans hrem) e) ?_
  exact fun event hlater => hconnects event (by simp [hlater])

end NameState

theorem AssetState.WellFormed.apart_nameState (hs : s.WellFormed) (name : Bytes) :
    (s.nameState name).Apart :=
  fun hrem => hs.apart name hrem

theorem contextualCheckNewAsset_free {asset : CNewAsset} (hs : s.WellFormed)
    (h : contextualCheckNewAsset env mempool asset fCheckMempool s = .ok u t) :
    (s.nameState asset.strName).known = false := by
  simp only [contextualCheckNewAsset, run_bind_eq_ok, run_lift_eq_ok, run_ask_eq_ok,
    ensure_eq_ok] at h
  obtain ⟨_, _, ⟨-, rfl⟩, _, _, ⟨-, rfl⟩, used, _, hused, _, _, ⟨hfree, rfl⟩, -⟩ := h
  rw [← hs.exists_eq, hused]
  simpa using hfree

theorem checkIssue_free {deployed : Bool} {beforeActive badSerialization : String}
    {asset : Option (CNewAsset × Bytes)} {message : String → String} {found : CNewAsset × Bytes}
    (hs : s.WellFormed)
    (h : checkIssue env mempool fCheckMempool deployed beforeActive asset badSerialization message
      s = .ok found t) : (s.nameState (asset.getD (nullAsset, [])).1.strName).known = false := by
  simp only [checkIssue, rejectWith, run_bind_eq_ok, run_lift_eq_ok, run_orElseFail_eq_ok,
    demand_eq_ok] at h
  obtain ⟨_, _, ⟨-, rfl⟩, _, _, ⟨rfl, rfl⟩, _, _, hnew, -⟩ := h
  exact contextualCheckNewAsset_free hs hnew

theorem contextualCheckUniqueAssetTx_free (hs : s.WellFormed)
    (h : contextualCheckUniqueAssetTx env mempool tx s = .ok u t) {out : CTxOut}
    (hout : out ∈ tx.vout) (hunique : isScriptNewUniqueAsset env out.scriptPubKey = true) :
    (s.nameState ((assetFromScript env out.scriptPubKey).getD (nullAsset, [])).1.strName).known =
      false := by
  obtain ⟨s₁, s₂, hquiet, hround⟩ := run_forM_mem_keeps Quiet.refl (fun _ _ _ h h' => h.trans h')
    (fun _ _ => onlyIf_quiet (lift_bind_quiet fun _ => contextualCheckNewAsset_quiet)) h hout
  have hsame := hquiet.untouched
  simp only [run_onlyIf_eq_ok, hunique, if_true, run_bind_eq_ok, run_lift_eq_ok,
    require_eq_ok] at hround
  obtain ⟨⟨asset, address⟩, _, ⟨hfrom, rfl⟩, hnew⟩ := hround
  rw [hfrom, ← hsame.nameState]
  exact contextualCheckNewAsset_free (hsame.does.wellFormed hs) hnew

theorem checkCreated_free (hs : s.WellFormed)
    (h : checkCreated env mempool tx fCheckMempool s = .ok u t) :
    ∀ issued ∈ tx.issued env, (s.nameState issued.1.strName).known = false := by
  unfold checkCreated at h
  unfold CTransaction.issued
  split_ifs at h ⊢ with hnew hreissue hunique hchannel hqualifier hrestricted
  · simp only [run_bind_eq_ok] at h
    obtain ⟨_, _, hissue, -⟩ := h
    simpa [assetFromTransaction, hnew] using checkIssue_free hs hissue
  · simp
  · intro issued hissued
    obtain ⟨out, hout, rfl⟩ := mem_map.mp hissued
    obtain ⟨hmem, hscript⟩ := mem_filter.mp hout
    exact contextualCheckUniqueAssetTx_free hs (run_orElseFail_eq_ok.mp h) hmem hscript
  iterate 3
    · simp only [run_bind_eq_ok] at h
      obtain ⟨_, _, hissue, -⟩ := h
      simpa using checkIssue_free hs hissue
  · simp

variable {nHeight : Int} {coins : Coins} {blockHash : UInt256} {scan' : ConnectScan} {name : Bytes}
  {reissue : CReissueAsset}

/-- What a transaction creates is checked on a state in which every name is as it was before. -/
theorem checkCreated_of_checkTxAssets {pairs : List (Bytes × UInt256)}
    (h : checkTxAssets env mempool coins tx fCheckMempool s = .ok pairs t) :
    ∃ u v, Untouched s u ∧ checkCreated env mempool tx fCheckMempool u = .ok () v := by
  simp only [checkTxAssets, run_bind_eq_ok, run_lift_eq_ok] at h
  obtain ⟨_, _, ⟨-, rfl⟩, _, s₁, hin, _, s₂, hout, _, s₃, hcreated, -⟩ := h
  have hquiet₁ := foldlM_quiet _ checkAssetInput_quiet _ _ _ hin
  have hquiet₂ := foldlM_quiet _ checkAssetOutput_quiet _ _ _ hout
  exact ⟨s₂, s₃, (hquiet₁.trans hquiet₂).untouched, hcreated⟩

/-- The names that the transaction issues where assets are deployed. -/
def CTransaction.issuedNames (tx : CTransaction) (env : Env) : List Bytes :=
  if env.deployments.areAssetsDeployed then (tx.issued env).map (·.1.strName) else []

def CBlock.issuedNames (block : CBlock) (env : Env) : List Bytes :=
  block.vtx.flatMap fun tx => tx.issuedNames env

theorem connectTx_free {env : ChainEnv} (hs : s.WellFormed) (hcb : tx.isCoinBase = false)
    (h : connectTx env blockHash nHeight scan tx s = .ok scan' t) :
    ∀ name ∈ tx.issuedNames env.toEnv, (s.nameState name).known = false := by
  intro name hname
  unfold issuedNames at hname
  split at hname
  case isFalse => cases hname
  case isTrue hactive =>
    obtain ⟨issued, hissued, rfl⟩ := mem_map.mp hname
    obtain ⟨_, _, _, _, hcheck, -⟩ := connectTx_ok h
    obtain ⟨_, hassets⟩ := checkTxAssets_of_checkBlockTx hcb hcheck hactive
    obtain ⟨u, v, hsame, hcreated⟩ := checkCreated_of_checkTxAssets hassets
    rw [← hsame.nameState]
    exact checkCreated_free (hsame.does.wellFormed hs) hcreated issued hissued

theorem CTransaction.connectEvents_connects (tx : CTransaction) (env : Env) (nHeight : Int)
    (blockHash : UInt256) :
    ∀ event ∈ tx.connectEvents env nHeight blockHash, event.connects = true := by
  intro event hmem
  unfold connectEvents at hmem
  split at hmem
  case isFalse => cases hmem
  case isTrue =>
    rcases mem_append.mp hmem with hissue | hreissue
    · obtain ⟨issued, -, rfl⟩ := mem_map.mp hissue
      rfl
    · obtain ⟨r, -, rfl⟩ := mem_map.mp hreissue
      rfl

theorem CTransaction.issue_of_issuedNames (h : name ∈ tx.issuedNames env)
    (nHeight : Int) (blockHash : UInt256) :
    ∃ e, .issue e ∈ tx.connectEvents env nHeight blockHash ∧
      (AssetEvent.issue e).name = name := by
  unfold issuedNames at h
  unfold connectEvents
  split at h
  case isFalse => cases h
  case isTrue hactive =>
    obtain ⟨issued, hissued, rfl⟩ := mem_map.mp h
    refine ⟨⟨issued.1, issued.2, nHeight, blockHash⟩, ?_, rfl⟩
    rw [if_pos hactive]
    exact mem_append_left _ (mem_map.mpr ⟨issued, hissued, rfl⟩)

theorem uniqueScan_nodup {l : List CTxOut} {s t : CTransaction.UniqueScan}
    (h : l.foldlM (uniqueScanStep env) s = .ok t) :
    ((l.filter fun out => isScriptNewUniqueAsset env out.scriptPubKey).map fun out =>
        ((assetFromScript env out.scriptPubKey).getD (nullAsset, [])).1.strName).Nodup ∧
      ∀ out ∈ l, isScriptNewUniqueAsset env out.scriptPubKey = true →
        ((assetFromScript env out.scriptPubKey).getD (nullAsset, [])).1.strName ∉
          s.setUniqueAssets := by
  induction l generalizing s with
  | nil => simp
  | cons out l ih =>
    rw [foldlM_cons, bind_eq_ok] at h
    obtain ⟨s', hstep, hrest⟩ := h
    obtain ⟨hnodup, hnew⟩ := ih hrest
    rcases uniqueScanStep_cases hstep with ⟨hno, rfl⟩ | ⟨hyes, asset, address, hfrom, -, hout, rfl⟩
    · refine ⟨by simpa [hno] using hnodup, ?_⟩
      rintro out' (_ | ⟨_, hmem⟩) hunique
      · simp [hno] at hunique
      · exact hnew out' hmem hunique
    · refine ⟨?_, ?_⟩
      · rw [filter_cons, if_pos hyes, map_cons, nodup_cons]
        refine ⟨?_, hnodup⟩
        intro hmem
        obtain ⟨out', hout', hname⟩ := mem_map.mp hmem
        obtain ⟨hl, hunique⟩ := mem_filter.mp hout'
        refine hnew out' hl hunique ?_
        rw [hname, hfrom]
        exact mem_cons_self
      · rintro out' (_ | ⟨_, hmem⟩) hunique
        · rwa [hfrom]
        · exact fun hin => hnew out' hmem hunique (mem_cons_of_mem _ hin)

theorem issuedNames_nodup {d m b : Bool} (h : checkTransaction env tx d m b = .ok ()) :
    (tx.issuedNames env).Nodup := by
  obtain ⟨flags, hkind⟩ := (checkTransaction_accepted h).kind
  unfold issuedNames
  split
  case isFalse => exact nodup_nil
  unfold CTransaction.issued
  -- every kind but the third issues one asset at most
  split_ifs with hnew hreissue hunique
  · simp
  · simp
  · simp only [checkAssetTx, if_neg hnew, if_neg hreissue, if_pos hunique, checkNewUniqueAssetTx,
      verifyNewUniqueAsset, bind_eq_ok, reject_eq_ok] at hkind
    obtain ⟨_, ⟨_, ⟨_, _, scan, hscan, -⟩, -⟩, -⟩ := hkind
    simpa [Function.comp_def] using (uniqueScan_nodup hscan).1
  all_goals simp

/-- The transactions after the coinbase issue a name once, or not at all if it is taken. -/
theorem connectTxs_count {env : ChainEnv} {txs : List CTransaction} (hs : s.WellFormed)
    (hrem : (s.nameState name).passetsRem = none) (hcb : ∀ tx ∈ txs, tx.isCoinBase = false)
    (htxs : ∀ tx ∈ txs, checkTransaction env.toEnv tx true false true = .ok ())
    (h : txs.foldlM (connectTx env blockHash nHeight) scan s = .ok scan' t) :
    (txs.flatMap fun tx => tx.issuedNames env.toEnv).count name ≤
      if (s.nameState name).known then 0 else 1 := by
  induction txs generalizing scan s with
  | nil => simp
  | cons tx txs ih =>
    obtain ⟨next, u, htx, hrest⟩ := run_bind_eq_ok.mp h
    have hdoes := (connectTx_effect htx).toDoes
    have hafter := hdoes.nameState hs name
    have hih := ih (hdoes.wellFormed hs) (by rw [hafter, run_passetsRem, hrem])
      (fun tx' h' => hcb tx' (mem_cons_of_mem _ h'))
      (fun tx' h' => htxs tx' (mem_cons_of_mem _ h')) hrest
    have hconnects := tx.connectEvents_connects env.toEnv nHeight blockHash
    rw [flatMap_cons, count_append]
    by_cases hmem : name ∈ tx.issuedNames env.toEnv
    · -- the name was free, and is taken from here on
      have hfree := connectTx_free hs (hcb tx mem_cons_self) htx name hmem
      obtain ⟨e, he, hname⟩ := issue_of_issuedNames hmem nHeight blockHash
      have hknown : (u.nameState name).known = true := hafter ▸
        known_run_of_issue hrem (fun event h _ => hconnects event h) he hname
      have hone := nodup_iff_count_le_one.mp
        (issuedNames_nodup (htxs tx mem_cons_self)) name
      rw [hknown, if_pos rfl] at hih
      rw [hfree, if_neg Bool.false_ne_true]
      omega
    · rw [count_eq_zero.mpr hmem, Nat.zero_add]
      refine hih.trans ?_
      by_cases hknown : (s.nameState name).known = true
      · have hstill : (u.nameState name).known = true := hafter ▸
          known_run hknown fun event h _ => hconnects event h
        rw [hknown, hstill]
      · rw [if_neg hknown]
        split <;> omega

/-- No accepted block issues a name twice, unless a removal of the name is pending. -/
theorem connectBlock_count {env : ChainEnv} {block : CBlock} {coins' : Coins}
    {undo : CBlockUndo} (hs : s.WellFormed)
    (hrem : (s.nameState name).passetsRem = none) (hmark : block.HonestlyMarked env)
    (h : connectBlock env block nHeight coins s = .ok (undo, coins') t) :
    (block.issuedNames env.toEnv).count name ≤ 1 := by
  obtain ⟨scan, _, _, hcheck, hscan, _⟩ := connectBlock_ok h
  obtain ⟨first, rest, hvtx, -, hrest, htxs⟩ := (checked_of_checkBlock hcheck hmark).shape
  rw [hvtx, foldlM_cons, run_bind_eq_ok] at hscan
  obtain ⟨next, u, hfirst, hlater⟩ := hscan
  have hdoes := (connectTx_effect hfirst).toDoes
  have hafter := hdoes.nameState hs name
  have hcount := connectTxs_count (hdoes.wellFormed hs)
    (by rw [hafter, run_passetsRem, hrem]) hrest
    (fun tx htx => htxs tx (hvtx ▸ mem_cons_of_mem _ htx)) hlater
  have hone := nodup_iff_count_le_one.mp
    (issuedNames_nodup (htxs first (hvtx ▸ mem_cons_self))) name
  rw [CBlock.issuedNames, hvtx, flatMap_cons, count_append]
  by_cases hmem : name ∈ first.issuedNames env.toEnv
  · obtain ⟨e, he, hname⟩ := issue_of_issuedNames hmem nHeight block.hash
    have hknown : (u.nameState name).known = true := hafter ▸
      known_run_of_issue hrem
        (fun event h _ => first.connectEvents_connects env.toEnv nHeight block.hash event h) he hname
    rw [hknown, if_pos rfl] at hcount
    omega
  · rw [count_eq_zero.mpr hmem, Nat.zero_add]
    refine hcount.trans ?_
    split <;> omega

/-- The text for a reissue of an asset that is not there. -/
def missingText (name : Bytes) : String :=
  "Unable to reissue asset: asset_name '" ++ text name ++ "' doesn't exist in the database"

/-- A text that begins or ends in another way. -/
def OtherText (e : String) : Prop :=
  e.toList.head? ≠ some 'U' ∨ e.toList.reverse.take 4 ≠ ['e', 's', 'a', 'b']

instance (e : String) : Decidable (OtherText e) := inferInstanceAs (Decidable (_ ∨ _))

theorem OtherText.ne_missing (h : OtherText e) (name : Bytes) : e ≠ missingText name := by
  intro heq
  have hhead : (missingText name).toList.head? = some 'U' := by
    unfold missingText
    simp [String.toList_append]
  have hlast : (missingText name).toList.reverse.take 4 = ['e', 's', 'a', 'b'] := by
    unfold missingText
    simp [String.toList_append]
  rw [heq] at h
  exact h.elim (fun h => h hhead) fun h => h hlast

theorem checkReissueAsset_otherText
    (h : checkReissueAsset env reissue = .error e) : OtherText e := by
  simp only [checkReissueAsset, bind_eq_error, ensure_eq_error] at h
  obtain ⟨-, rfl⟩ | ⟨_, -, ⟨-, rfl⟩ | ⟨_, -, -, rfl⟩⟩ := h <;> decide

theorem checkReissueAgainst_otherText {prev : CNewAsset}
    (h : checkReissueAgainst reissue prev = .error e) : OtherText e := by
  simp only [checkReissueAgainst, bind_eq_error, ensure_eq_error] at h
  obtain ⟨-, rfl⟩ | ⟨_, -, ⟨-, rfl⟩ | ⟨_, -, ⟨-, rfl⟩ | ⟨_, -, -, rfl⟩⟩⟩ := h
  · decide
  · exact .inr (by simp [String.toList_append])
  · decide
  · decide

theorem checkVerifierString_otherText {verifier : Bytes}
    (h : checkVerifierString verifier = .error e) : OtherText e := by
  unfold checkVerifierString at h
  split at h
  · cases h
  simp only [bind_eq_error, ensure_eq_error] at h
  rcases h with ⟨-, rfl⟩ | ⟨_, -, ⟨-, rfl⟩ | ⟨_, -, hnames | ⟨_, -, hsyntax⟩⟩⟩
  · decide
  · decide
  · obtain ⟨qualifier, -, hname⟩ := forM_eq_error hnames
    obtain ⟨-, rfl⟩ := ensure_eq_error.mp hname
    exact .inl (by simp [String.toList_append])
  · split at hsyntax
    · cases hsyntax
    · obtain rfl := Except.error.inj hsyntax
      decide

theorem contextualCheckVerifierString_otherText (env : Env) (verifier checkAddress : Bytes) :
    FailsWith OtherText (contextualCheckVerifierString env verifier checkAddress) := by
  unfold contextualCheckVerifierString
  refine failsWith_onlyIf (failsWith_bind
    (failsWith_lift fun e h => checkVerifierString_otherText h) fun qualifiers =>
    failsWith_bind ?_ fun _ => failsWith_onlyIf (failsWith_bind ?_ fun vals => ?_))
  · exact failsWith_forM fun _ =>
      failsWith_bind (failsWith_ask _) fun _ => failsWith_ensure (by decide)
  · exact failsWith_mapM fun _ => failsWith_bind (failsWith_ask _) fun _ => failsWith_pure _
  · split
    · exact failsWith_ensure (by decide)
    · exact failsWith_throw (by decide)

theorem contextualCheckReissueVerifier_otherText (env : Env) (reissue : CReissueAsset)
    (strAddress : Bytes) (tx : CTransaction) :
    FailsWith OtherText (contextualCheckReissueVerifier env reissue strAddress tx) := by
  unfold contextualCheckReissueVerifier
  split
  case h_1 strError hsearch =>
    refine failsWith_throw ?_
    unfold getVerifierStringFromTx at hsearch
    repeat' split at hsearch
    all_goals cases hsearch
    all_goals decide
  case h_2 => exact failsWith_onlyIf (contextualCheckVerifierString_otherText _ _ _)
  case h_3 =>
    refine failsWith_onlyIf (failsWith_bind (failsWith_ask _) fun found => ?_)
    cases found with
    | none => exact failsWith_throw (.inl (by simp))
    | some current => exact contextualCheckVerifierString_otherText _ _ _

/-- A reissue is turned down as one of a missing asset only if there is no metadata. -/
theorem contextualCheckReissueAsset_ne_missing {u : AssetState}
    (name : Bytes) (hfound : (getAssetMetaDataIfExists reissue.strName s).1.isSome = true) :
    contextualCheckReissueAsset env reissue tx s ≠ .error (missingText name) u := by
  intro h
  suffices hother : OtherText (missingText name) from hother.ne_missing name rfl
  rcases run_bind_eq_error.mp h with hread | ⟨⟨_, strAddress⟩, _, hread, h⟩
  · obtain ⟨-, he⟩ := require_eq_error.mp (run_lift_eq_error.mp hread).1
    exact he ▸ by decide
  obtain ⟨-, rfl⟩ := run_lift_eq_ok.mp hread
  rcases run_bind_eq_error.mp h with hsyntax | ⟨_, _, hsyntax, h⟩
  · exact checkReissueAsset_otherText (run_lift_eq_error.mp hsyntax).1
  obtain ⟨-, rfl⟩ := run_lift_eq_ok.mp hsyntax
  rcases run_bind_eq_error.mp h with hask | ⟨found, v, hask, h⟩
  · cases hask
  rcases run_bind_eq_error.mp h with hmissing | ⟨prev, _, -, h⟩
  · obtain ⟨hnone, -⟩ := require_eq_error.mp (run_lift_eq_error.mp hmissing).1
    rw [run_ask_eq_ok] at hask
    rw [hask, hnone] at hfound
    cases hfound
  refine failsWith_bind (failsWith_lift fun e he => checkReissueAgainst_otherText he)
    (fun _ => failsWith_bind (failsWith_ensure (by decide)) fun _ =>
      failsWith_bind (failsWith_lift fun e he => ?_) fun _ =>
      failsWith_onlyIf (contextualCheckReissueVerifier_otherText env reissue strAddress tx)) _ _ _ h
  obtain ⟨-, he⟩ := whenever_eq_error.mp he
  obtain ⟨-, rfl⟩ := ensure_eq_error.mp he
  decide

/-- A transfer is turned down as one of a missing asset only if there is no metadata. -/
theorem checkTransferAmount_ne_missing {transfer : CAssetTransfer} {u : AssetState}
    (hfound : (getAssetMetaDataIfExists transfer.strName s).1.isSome = true) :
    checkTransferAmount transfer s ≠ .error ⟨100, "bad-txns-transfer-asset-not-exist"⟩ u := by
  intro h
  unfold checkTransferAmount at h
  split at h
  · obtain ⟨-, he⟩ := ensure_eq_error.mp (run_lift_eq_error.mp h).1
    exact absurd he (by decide)
  rcases run_bind_eq_error.mp h with hask | ⟨found, v, hask, h⟩
  · cases hask
  rcases run_bind_eq_error.mp h with hmissing | ⟨data, _, -, h⟩
  · obtain ⟨hnone, -⟩ := require_eq_error.mp (run_lift_eq_error.mp hmissing).1
    rw [run_ask_eq_ok] at hask
    rw [hask, hnone] at hfound
    cases hfound
  rcases run_bind_eq_error.mp h with hname | ⟨_, _, -, hunits⟩
  · obtain ⟨-, he⟩ := ensure_eq_error.mp (run_lift_eq_error.mp hname).1
    exact absurd he (by decide)
  · obtain ⟨-, he⟩ := ensure_eq_error.mp (run_lift_eq_error.mp hunits).1
    exact absurd he (by decide)

/-- No lookup and no check of a transfer or a reissue takes the asset for missing. -/
structure Exists (name : Bytes) (t : AssetState) : Prop where
  found : (checkIfAssetExists name true t).1 = true
  metadata : (getAssetMetaDataIfExists name t).1.isSome = true
  transfer : ∀ (transfer : CAssetTransfer) (u : AssetState), transfer.strName = name →
    checkTransferAmount transfer t ≠ .error ⟨100, "bad-txns-transfer-asset-not-exist"⟩ u
  reissue : ∀ (env : Env) (reissue : CReissueAsset) (tx : CTransaction) (u : AssetState),
    reissue.strName = name →
      contextualCheckReissueAsset env reissue tx t ≠ .error (missingText name) u

theorem exists_of_known (ht : t.WellFormed)
    (hknown : (t.nameState name).known = true) : Exists name t := by
  have hmeta : (getAssetMetaDataIfExists name t).1.isSome = true := by
    rw [ht.metadata_eq]
    exact metadata_of_known hknown
  refine ⟨(ht.exists_eq name).trans hknown, hmeta, ?_, ?_⟩
  · rintro transfer u rfl
    exact checkTransferAmount_ne_missing hmeta
  · rintro env reissue tx u rfl
    exact contextualCheckReissueAsset_ne_missing _ hmeta

/-- On any view above a node, an asset that was added is found with its own data exactly when no
removal of its name is pending in `passets` and no reissued data of an earlier asset of the name is
left. Without such a removal the rest of the block finds it, and no block issues it twice. -/
theorem issued_found_iff {n : Node} (hn : n.Reachable Node.Anything)
    {earlier later : List AssetEvent} {s t : AssetState} (hs : Does earlier n.assets s)
    (asset : CNewAsset) (address : Bytes) (nHeight : Int) (blockHash : UInt256)
    (hadd : (addNewAsset asset address nHeight blockHash s).1 = true)
    (ht : Does later (addNewAsset asset address nHeight blockHash s).2 t) :
    ((∀ event ∈ later, event.name = asset.strName → ∃ e, event = .issue e) →
      (((checkIfAssetExists asset.strName true t).1 = true ∧
          (getAssetMetaDataIfExists asset.strName t).1 = some ⟨asset, some nHeight, blockHash⟩) ↔
        (n.assets.passets.setNewAssetsToRemove.contains asset.strName = false ∧
          s.reissuedData asset.strName = none))) ∧
    (n.assets.passets.setNewAssetsToRemove.contains asset.strName = false →
      ((∀ event ∈ later, event.name = asset.strName → event.connects = true) →
        Exists asset.strName t) ∧
      ∀ (env : ChainEnv) (block : CBlock) (undo : CBlockUndo) (coins : Coins) (u : AssetState),
        block.HonestlyMarked env →
        connectBlock env block (n.chain.length + 1) n.coins n.assets = .ok (undo, coins) u →
        (block.issuedNames env.toEnv).count asset.strName ≤ 1) := by
  have hrest := hn.atRest.wellFormed
  have hsWell := hs.wellFormed hrest
  have hfree : (s.nameState asset.strName).known = false := by
    simpa [addNewAsset_fst hsWell] using hadd
  have heffect : Effect default .mark _ _ s _ :=
    addNewAsset_effect asset address nHeight blockHash s
  have hdoes := heffect.toDoes
  have htWell := ht.wellFormed (hdoes.wellFormed hsWell)
  have hname : t.nameState asset.strName = ((s.nameState asset.strName).step
      (.issue ⟨asset, address, nHeight, blockHash⟩)).run asset.strName later := by
    rw [ht.nameState (hdoes.wellFormed hsWell), hdoes.nameState hsWell]
    simp [on, AssetEvent.name]
  have hpassets : (s.nameState asset.strName).passetsRem =
      n.assets.passets.setNewAssetsToRemove.find? asset.strName := by
    rw [hs.nameState hrest, run_passetsRem]
    rfl
  refine ⟨fun hissues => ?_, fun hpending => ⟨fun hconnects => ?_, ?_⟩⟩
  · rw [htWell.exists_eq, htWell.metadata_eq, hname]
    have hiff := found_after_issue_iff hfree (hsWell.apart_nameState _)
      ⟨asset, address, nHeight, blockHash⟩ hissues
    rw [hpassets] at hiff
    simpa [KeyedSet.contains, data, AssetState.reissuedData, AssetState.nameState,
      CAssetCacheNewAsset.data] using hiff
  · refine exists_of_known htWell (hname ▸ known_run ?_ hconnects)
    exact known_step_issue (by simpa [hpassets, KeyedSet.contains] using hpending) _
  · intro env block undo coins u hmark hconnect
    exact connectBlock_count hrest (by simpa [KeyedSet.contains, nameState] using hpending) hmark
      hconnect

def regTestChain : ChainEnv := ⟨regTestWith .all, .lax, {}⟩

/-- A block with the given transactions; its coinbase, which has the hash of the block, pays the
given values. -/
def minedBlock (hash : UInt256) (values : List CAmount) (txs : List CTransaction) : CBlock :=
  ⟨hash, ⟨[⟨⟨0, 2 ^ 32 - 1⟩, [1, 1]⟩],
    values.map fun nValue => ⟨nValue, scriptForKeyID issuerKey⟩, hash⟩ :: txs, false⟩

/-- A chain on which the coinbase of the first block, block 7, may be spent. -/
def maturedActs (values : List CAmount) : List Node.Act :=
  .connectTip regTestChain (minedBlock 7 values []) ::
    (List.range 100).map fun i => .connectTip regTestChain (minedBlock (1000 + i) [0] [])

/-- An issue of gold that is paid for by an output of block 7. -/
def goldIssueTx (hash : UInt256) (paidBy : Nat) : CTransaction :=
  ⟨[⟨⟨7, paidBy⟩, []⟩],
   [⟨500 * coin, scriptForKeyID issueBurnKey⟩,
    ⟨0, goldAsset.constructOwnerTransaction (scriptForKeyID issuerKey)⟩,
    ⟨0, goldAsset.constructTransaction (scriptForKeyID issuerKey)⟩], hash⟩

def goldIssueBlock : CBlock := minedBlock 20 [0] [goldIssueTx 21 0]

def goldTwiceBlock : CBlock := minedBlock 30 [0] [goldIssueTx 31 0, goldIssueTx 32 1]

/-- Gold is issued and the block disconnected. -/
def goldUndoneActs : List Node.Act :=
  maturedActs [500 * coin, 500 * coin] ++
    [.connectTip regTestChain goldIssueBlock, .disconnectTip regTestChain.toEnv]

/-- The block that issues gold was disconnected and its removal dumped: gold is found when it is
added again, and the block that issues it, which is connected again, issues it once. -/
theorem gold_found :
    ∃ n, ({} : Node).acts (goldUndoneActs ++ [.flushStateToDisk regTestChain.hashes]) = some n ∧
      (let t := (addNewAsset goldAsset [] 102 20 n.assets).2
       (checkIfAssetExists goldAsset.strName true t).1 = true ∧
        (getAssetMetaDataIfExists goldAsset.strName t).1 = some ⟨goldAsset, some 102, 20⟩ ∧
        Exists goldAsset.strName t) ∧
      (∃ undo coins u, connectBlock regTestChain goldIssueBlock (n.chain.length + 1) n.coins
        n.assets = .ok (undo, coins) u) ∧
      (goldIssueBlock.issuedNames regTestChain.toEnv).count goldAsset.strName ≤ 1 := by
  obtain ⟨n, hn, hadd, hpending, hdata, hok⟩ :
      ∃ n, ({} : Node).acts (goldUndoneActs ++ [.flushStateToDisk regTestChain.hashes]) = some n ∧
        (addNewAsset goldAsset [] 102 20 n.assets).1 = true ∧
        n.assets.passets.setNewAssetsToRemove.contains goldAsset.strName = false ∧
        n.assets.reissuedData goldAsset.strName = none ∧
        succeeded (connectBlock regTestChain goldIssueBlock (n.chain.length + 1) n.coins
          n.assets) = true := by decide +kernel
  obtain ⟨⟨undo, coins⟩, u, hconnect⟩ := succeeded_iff.mp hok
  obtain ⟨hfound, hlater⟩ := issued_found_iff ((Node.Reachable.start false).acts hn)
    (Untouched.refl _).does goldAsset [] 102 20 hadd (Untouched.refl _).does
  obtain ⟨hexists, hmeta⟩ := (hfound (by simp)).mpr ⟨hpending, hdata⟩
  obtain ⟨hrest, honce⟩ := hlater hpending
  exact ⟨n, hn, ⟨hexists, hmeta, hrest (by simp)⟩, ⟨undo, coins, u, hconnect⟩,
    honce _ _ _ _ _ (by simp [CBlock.HonestlyMarked, goldIssueBlock, minedBlock]) hconnect⟩

theorem gold_issued_twice :
    ∃ n : Node, n.Reachable Node.Anything ∧ goldTwiceBlock.fChecked = false ∧
      (∃ undo coins t, connectBlock regTestChain goldTwiceBlock (n.chain.length + 1) n.coins
        n.assets = .ok (undo, coins) t ∧
        (checkIfAssetExists goldAsset.strName true t).1 = false ∧
        (getAssetMetaDataIfExists goldAsset.strName t).1 = none) ∧
      (goldTwiceBlock.issuedNames regTestChain.toEnv).count goldAsset.strName = 2 := by
  obtain ⟨n, hn, hblock⟩ : ∃ n, ({} : Node).acts goldUndoneActs = some n ∧
      ∃ undo coins t, connectBlock regTestChain goldTwiceBlock (n.chain.length + 1) n.coins
        n.assets = .ok (undo, coins) t ∧
        (checkIfAssetExists goldAsset.strName true t).1 = false ∧
        (getAssetMetaDataIfExists goldAsset.strName t).1 = none := by decide +kernel
  exact ⟨n, (Node.Reachable.start false).acts hn, rfl, hblock, by decide +kernel⟩

end HnbCore
