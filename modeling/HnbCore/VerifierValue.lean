import HnbCore.FlushAgree
import HnbCore.MarkState
import HnbCore.ParentTransfer
import HnbCore.VerifierGrammar

/-!
# The value of a verifier string

`ContextualCheckVerifierString` looks up the tags an address has and evaluates the verifier string
over them. For a formula over issued qualifiers the outcome is its value under the usual
precedence, and whatever the tags are, an accepted string is evaluated without a syntax failure.
-/

namespace HnbCore

open Checks LibBoolEE AssetState List Option

variable {t s : AssetState} {hashes : Hashes} {vals : List (Bytes × Bool)}

/-- Issued, by the pending changes and the database. -/
def AssetState.isIssued (s : AssetState) (name : Bytes) : Bool :=
  s.fReindex || (s.pendingAsset name (fun _ => false) (fun _ => true)).getD
    (s.assetsdb.assetData.find? name).isSome

theorem pendingAsset_quiet (h : Quiet hashes s t) {β : Type} (name : Bytes)
    (onRem onAdd : CAssetCacheNewAsset → β) :
    t.pendingAsset name onRem onAdd = s.pendingAsset name onRem onAdd := by
  have hcore := h.view
  have hrem : t.view.core.setNewAssetsToRemove = s.view.core.setNewAssetsToRemove := by rw [hcore]
  have hadd : t.view.core.setNewAssetsToAdd = s.view.core.setNewAssetsToAdd := by rw [hcore]
  simp only [CAssetsCache.core] at hrem hadd
  rw [pendingAsset, pendingAsset, hrem, hadd, h.passets]

theorem checkIfAssetExists_of_isIssued (h : Quiet hashes s t) {name : Bytes}
    (hissued : s.isIssued name = true) : (checkIfAssetExists name true t).1 = true := by
  rw [checkIfAssetExists_fst, h.reindex, pendingAsset_quiet h]
  rw [isIssued] at hissued
  cases hreindex : s.fReindex with
  | true => rfl
  | false =>
    rw [hreindex, Bool.false_or] at hissued
    rw [Bool.false_or]
    cases hpending : s.pendingAsset name (fun _ => false) (fun _ => true) with
    | some answer =>
      rw [hpending] at hissued
      exact hissued
    | none =>
      rw [hpending] at hissued
      rw [getD_none] at hissued ⊢
      rw [storedData, h.assetsdb]
      obtain ⟨data, hdata⟩ := isSome_iff_exists.mp hissued
      rw [hdata]
      cases t.assetsCache.find? name <;> rfl

section
variable {env : Env} {s : AssetState}

theorem forM_issued {names : List Bytes} (hst : Quiet env.hashes s t)
    (hissued : ∀ n ∈ names, s.isIssued (qualifierChar :: n) = true) :
    ∃ u, Quiet env.hashes s u ∧
      (forM names fun qualifier => do
        let issued ← ask (checkIfAssetExists (qualifierChar :: qualifier) true)
        ensure issued "bad-txns-null-verifier-contains-non-issued-qualifier" :
          Contextual Unit) t = .ok () u := by
  induction names generalizing t with
  | nil => exact ⟨t, hst, rfl⟩
  | cons n names ih =>
    have hquiet : Quiet env.hashes t (checkIfAssetExists (qualifierChar :: n) true t).2 :=
      checkIfAssetExists_quiet _ _ t
    obtain ⟨u, hu, hrun⟩ := ih (hst.trans hquiet) fun m hm => hissued m (mem_cons_of_mem _ hm)
    refine ⟨u, hu, ?_⟩
    rw [forM_cons, run_bind_eq_ok]
    refine ⟨(), _, ?_, hrun⟩
    rw [run_bind_eq_ok]
    refine ⟨true, (checkIfAssetExists (qualifierChar :: n) true t).2, ?_, rfl⟩
    rw [run_ask_eq_ok]
    exact Prod.ext (checkIfAssetExists_of_isIssued hst (hissued n (by simp))) rfl

/-- The tags are asked for one after the other, each in a state that differs from the first in its
caches only. -/
theorem addressTags_run (env : Env) (address : Bytes) (names : List Bytes)
    (hst : Quiet env.hashes s t) :
    ∃ vals u, addressTags env address names t = .ok vals u ∧ vals.map Prod.fst = names ∧
      ∀ p ∈ vals, ∃ w, Quiet env.hashes s w ∧
        p.2 = (checkForAddressQualifier env.hashes (qualifierChar :: p.1) address true w).1 := by
  induction names generalizing t with
  | nil => exact ⟨[], t, rfl, rfl, fun p hp => nomatch hp⟩
  | cons n names ih =>
    have hquiet : Quiet env.hashes t
        (checkForAddressQualifier env.hashes (qualifierChar :: n) address true t).2 :=
      checkForAddressQualifier_quiet t
    obtain ⟨vals, u, hrun, hmap, hall⟩ := ih (hst.trans hquiet)
    refine ⟨(n, (checkForAddressQualifier env.hashes (qualifierChar :: n) address true t).1) ::
      vals, u, ?_, by rw [map_cons, hmap], fun p hp => ?_⟩
    · unfold addressTags at hrun ⊢
      rw [mapM_cons, run_bind_eq_ok]
      refine ⟨_, _, rfl, ?_⟩
      rw [run_bind_eq_ok]
      exact ⟨vals, u, hrun, rfl⟩
    · rcases mem_cons.mp hp with rfl | hp
      · exact ⟨t, hst, rfl⟩
      · exact hall p hp

end

/-- Whether an address has a tag by the pending changes and the database. -/
def AssetState.hasTag (s : AssetState) (name address : Bytes) : Bool :=
  match s.passets.setNewQualifierAddressToRemove.find? (name, address) with
  | some e => e.type = .removeQualifier
  | none =>
      match s.passets.setNewQualifierAddressToAdd.find? (name, address) with
      | some e => e.type = .addQualifier || s.passetsRoot name address
      | none => s.passetsRoot name address ||
          (s.restricteddb.addressQualifiers.contains (address, name) ||
            s.restricteddb.checkForAddressRootQualifier address name)

theorem hasTag_quiet (h : Quiet hashes s t) (name address : Bytes) :
    t.hasTag name address = s.hasTag name address := by
  simp only [hasTag, passetsRoot, h.passets, h.restricteddb]

/-- A cache that is backed by the database does not change the answer. -/
theorem checkForAddressQualifier_backed (hback : s.TagsBacked hashes) {name address : Bytes}
    (hkey : KeyApart hashes s.restricteddb.addressQualifiers name address) :
    (checkForAddressQualifier hashes name address true s).1 = s.hasTag name address := by
  have hstored := backed_or_contains hback hkey
  simp only [checkForAddressQualifier, unlessSkipped, hasTag, if_true]
  cases s.passets.setNewQualifierAddressToRemove.find? (name, address)
  case some => rfl
  cases s.passets.setNewQualifierAddressToAdd.find? (name, address)
  case some => rfl
  rw [← hstored]
  cases hroot : hasRootQualifier s.passets.mapRootQualifierAddressesAdd name address <;>
    cases hcache : s.assetsQualifierCache.exists? (addressKey hashes name address) <;>
    cases hdb : s.restricteddb.addressQualifiers.contains (address, name) <;>
    simp [passetsRoot, hroot]

theorem run_bind_of_ok {ε σ α β : Type} {x : EStateM ε σ α} {f : α → EStateM ε σ β} {s t : σ}
    {a : α} (h : x s = .ok a t) : (x >>= f) s = f a t := by
  simp [bind, EStateM.bind, h]

/-- A valuation of names, with no name for false ones. -/
def tagOf (vals : List (Bytes × Bool)) (n : Bytes) : Bool := (vals.lookup n).getD false

theorem lookup_of_mem {n : Bytes} (h : n ∈ vals.map Prod.fst) :
    vals.lookup n = some (tagOf vals n) ∧ (n, tagOf vals n) ∈ vals := by
  induction vals with
  | nil => cases h
  | cons p vals ih =>
    obtain ⟨m, tag⟩ := p
    by_cases hp : n = m
    · subst hp
      simp [tagOf]
    · have hmem : n ∈ vals.map Prod.fst := by
        rcases mem_cons.mp h with heq | hmem
        · exact absurd heq hp
        · exact hmem
      have hskip : ((m, tag) :: vals).lookup n = vals.lookup n := by
        rw [lookup_cons, beq_eq_false_iff_ne.mpr hp]
      obtain ⟨hlookup, hin⟩ := ih hmem
      unfold tagOf at hlookup hin ⊢
      rw [hskip]
      exact ⟨hlookup, mem_cons_of_mem _ hin⟩

theorem mem_of_lookup_isSome {n : Bytes} (h : (vals.lookup n).isSome = true) :
    n ∈ vals.map Prod.fst := by
  induction vals with
  | nil => cases h
  | cons p vals ih =>
    by_cases hp : n = p.1
    · simp [hp]
    · rw [lookup_cons, beq_eq_false_iff_ne.mpr hp] at h
      exact mem_cons_of_mem _ (ih h)

/-- The evaluator over tags that were asked for gives the value of the string. -/
theorem resolveVerifier_tags {v : Bytes} {b : Bool}
    (hmap : vals.map Prod.fst = extractVerifierStringQualifiers (removeWhitespaces v))
    (hread : Parsed validQualifier (tagOf vals) .expr (removeWhitespaces v) b) :
    resolveVerifier v (fun n => vals.lookup n) = .ok b := by
  have hnames := isName_of_mem_extract properNames_valid hread
  refine resolveVerifier_of_parsed (fun n hn => hnames n ?_) hread fun n hmem => ?_
  · rw [← hmap]
    exact mem_of_lookup_isSome hn
  · exact (lookup_of_mem (by rw [hmap]; exact hmem)).1

section
variable {env : Env} {s : AssetState} {v address : Bytes}

/-- A formula over issued qualifiers is checked by its value. -/
theorem contextualCheckVerifierString_formula (env : Env) (hlen : (removeWhitespaces v).length ≤ 80)
    (hform : BoolGrammar.Formula signs validQualifier (removeWhitespaces v))
    (hissued : ∀ n ∈ extractVerifierStringQualifiers (removeWhitespaces v),
      s.isIssued (qualifierChar :: n) = true) (haddress : address ≠ []) :
    ∃ tag b t, (∀ n ∈ extractVerifierStringQualifiers (removeWhitespaces v), ∃ w,
        Quiet env.hashes s w ∧
        tag n = (checkForAddressQualifier env.hashes (qualifierChar :: n) address true w).1) ∧
      BoolGrammar.Reads signs validQualifier tag .disj (removeWhitespaces v) b ∧
      contextualCheckVerifierString env v address s =
        if b then .ok () t else .error "bad-txns-null-verifier-address-failed-verification" t := by
  have hread := (formula_iff_parsed.mp hform).1
  have hhash : qualifierChar ∉ v := by
    obtain ⟨b, hb⟩ := hread
    intro hmem
    exact not_mem_hash_of_parsed properNames_valid hb (mem_removeWhitespaces_hash.mpr hmem)
  have hstrip := stripped_of_not_mem hhash
  have hv : v ≠ str "true" := by
    rintro rfl
    obtain ⟨b, hb⟩ := hread
    have hchar := isNameChar_of_word properNames_valid hb 0x74 (by decide) (by decide)
    exact absurd hchar (by decide)
  have haccept : ∃ q, checkVerifierString v = .ok q := by
    rw [accepted_iff_parsed hv, hstrip]
    exact ⟨hhash, hlen, hread⟩
  obtain ⟨q, hq⟩ := haccept
  obtain ⟨-, -, -, -, rfl⟩ := (checkVerifierString_eq_ok_iff hv).mp hq
  rw [hstrip] at hq
  obtain ⟨t, ht, hloop⟩ := forM_issued (Quiet.refl s) hissued
  obtain ⟨vals, u, htags, hmap, hall⟩ := addressTags_run env address
    (extractVerifierStringQualifiers (removeWhitespaces v)) ht
  obtain ⟨b, hb⟩ := hform.reads (tagOf vals)
  have hvalue := resolveVerifier_tags hmap (layered_of_reads properNames_valid hb).expr
  refine ⟨tagOf vals, b, u, fun n hn => ?_, hb, ?_⟩
  · obtain ⟨w, hw, hans⟩ := hall _ (lookup_of_mem (by rw [hmap]; exact hn)).2
    exact ⟨w, hw, hans⟩
  · have hcheck : contextualCheckVerifierString env v address s =
        ((ensure b "bad-txns-null-verifier-address-failed-verification" : Except String Unit) :
          Contextual Unit) u := by
      unfold contextualCheckVerifierString onlyIf
      rw [if_pos (by simpa using hv), run_bind_of_ok (run_lift_eq_ok.mpr ⟨hq, rfl⟩),
        run_bind_of_ok hloop, if_pos (by simpa using haddress), run_bind_of_ok htags, hvalue]
    rw [hcheck]
    cases b <;> rfl

/-- Whatever the tags are, an accepted string is evaluated. -/
theorem contextualCheckVerifierString_syntax (haccept : ∃ q, checkVerifierString v = .ok q)
    (t : AssetState) : contextualCheckVerifierString env v address s ≠
      .error "bad-txns-null-verifier-failed-contexual-syntax-check" t := by
  intro herror
  unfold contextualCheckVerifierString onlyIf at herror
  split at herror
  · next hv =>
      have hv : v ≠ str "true" := by simpa using hv
      obtain ⟨hhash, -, b, hread⟩ := (accepted_iff_parsed hv).mp haccept
      obtain ⟨q, hq⟩ := haccept
      obtain ⟨-, -, -, -, rfl⟩ := (checkVerifierString_eq_ok_iff hv).mp hq
      rw [stripped_of_not_mem hhash] at hread hq
      rw [run_bind_of_ok (run_lift_eq_ok.mpr ⟨hq, rfl⟩)] at herror
      rcases run_bind_eq_error.mp herror with hloop | ⟨-, u, -, herror⟩
      · -- the loop over the qualifiers has its own text
        have hfails : FailsWith (· ≠ "bad-txns-null-verifier-failed-contexual-syntax-check")
            (forM (extractVerifierStringQualifiers (removeWhitespaces v)) fun qualifier => do
              let issued ← ask (checkIfAssetExists (qualifierChar :: qualifier) true)
              ensure issued "bad-txns-null-verifier-contains-non-issued-qualifier" :
                Contextual Unit) :=
          failsWith_forM fun _ => failsWith_bind (failsWith_ask _)
            fun _ => failsWith_ensure (by decide)
        exact hfails _ _ _ hloop rfl
      · split at herror
        · obtain ⟨vals, w, htags, hmap, -⟩ := addressTags_run env address
            (extractVerifierStringQualifiers (removeWhitespaces v)) (Quiet.refl u)
          obtain ⟨b', hb'⟩ := hread.revalue (tagOf vals) properNames_valid
          rw [run_bind_of_ok htags, resolveVerifier_tags hmap hb'] at herror
          obtain ⟨herror, -⟩ := run_lift_eq_error.mp herror
          exact absurd (ensure_eq_error.mp herror).2 (by decide)
        · cases herror
  · cases herror

end

/-- The outcome of the contextual check. A formula of at most 80 characters over issued
qualifiers is checked by its value, with each name standing for the tag that is found when it is
asked for; with a sound tag cache that is the tag of the state before. A string that was accepted
is never refused for its syntax. -/
theorem verifier_value (env : Env) (address : Bytes) :
    (∀ (s : AssetState) (v : Bytes), address ≠ [] → (removeWhitespaces v).length ≤ 80 →
      BoolGrammar.Formula signs validQualifier (removeWhitespaces v) →
      (∀ n ∈ extractVerifierStringQualifiers (removeWhitespaces v),
        s.isIssued (qualifierChar :: n) = true) →
      ∃ tag b t,
        (∀ n ∈ extractVerifierStringQualifiers (removeWhitespaces v),
          (∃ w, Quiet env.hashes s w ∧ tag n =
            (checkForAddressQualifier env.hashes (qualifierChar :: n) address true w).1) ∧
          (s.TagsBacked env.hashes →
            KeyApart env.hashes s.restricteddb.addressQualifiers (qualifierChar :: n) address →
            tag n = s.hasTag (qualifierChar :: n) address)) ∧
        BoolGrammar.Reads signs validQualifier tag .disj (removeWhitespaces v) b ∧
        contextualCheckVerifierString env v address s =
          if b then .ok () t
          else .error "bad-txns-null-verifier-address-failed-verification" t) ∧
    (∀ (s : AssetState) (v : Bytes) (t : AssetState), (∃ q, checkVerifierString v = .ok q) →
      contextualCheckVerifierString env v address s ≠
        .error "bad-txns-null-verifier-failed-contexual-syntax-check" t) := by
  refine ⟨fun s v haddress hlen hform hissued => ?_, fun s v t haccept =>
    contextualCheckVerifierString_syntax haccept t⟩
  obtain ⟨tag, b, t, htag, hread, hrun⟩ := contextualCheckVerifierString_formula env
    hlen hform hissued haddress
  refine ⟨tag, b, t, fun n hn => ⟨htag n hn, fun hback hkey => ?_⟩, hread, hrun⟩
  obtain ⟨w, hw, hans⟩ := htag n hn
  have hkey' : KeyApart env.hashes w.restricteddb.addressQualifiers (qualifierChar :: n)
      address := by
    rw [hw.restricteddb]
    exact hkey
  rw [hans, checkForAddressQualifier_backed (hw.tags hback) hkey', hasTag_quiet hw]

/-- Two qualifiers are issued, and one address is tagged with the first. -/
def taggedState : AssetState :=
  { assetsdb :=
      { assetData := (KeyedSet.empty.insert ⟨⟨str "#GOLD", 1 * coin, 0, 0, 0, []⟩, some 1, 1⟩).insert
          ⟨⟨str "#KYC", 1 * coin, 0, 0, 0, []⟩, some 1, 1⟩ }
    restricteddb := { addressQualifiers := KeyedSet.empty.insert (str "holder", str "#GOLD") } }

/-- The two pairs of a qualifier and the address have hashes of their own. -/
def taggedEnv : Env :=
  { regTestEnv with hashes := tableHashes [(str "#GOLDholder", [1]), (str "#KYCholder", [2])] [] }

theorem taggedState_keyApart {name : Bytes}
    (h : addressKey taggedEnv.hashes (str "#GOLD") (str "holder") =
      addressKey taggedEnv.hashes name (str "holder") → str "#GOLD" = name) :
    KeyApart taggedEnv.hashes taggedState.restricteddb.addressQualifiers name (str "holder") := by
  intro name' address' hin heq
  rw [taggedState, KeyedSet.contains_insert, KeyedSet.contains_empty, Bool.or_false,
    decide_eq_true_eq] at hin
  cases hin
  exact ⟨h heq, rfl⟩

/-- The holder has the first tag and not the second, and is checked by these tags. -/
theorem gold_without_kyc_value : ∃ tag b t, tag (str "GOLD") = true ∧ tag (str "KYC") = false ∧
    BoolGrammar.Reads signs validQualifier tag .disj (str "GOLD&!KYC") b ∧
      contextualCheckVerifierString taggedEnv (str "GOLD & !KYC") (str "holder") taggedState =
        if b then .ok () t
        else .error "bad-txns-null-verifier-address-failed-verification" t := by
  have hgold : validQualifier (str "GOLD") := by
    show isQualifierNameValid _ = true
    decide
  have hkyc : validQualifier (str "KYC") := by
    show isQualifierNameValid _ = true
    decide
  have hform : BoolGrammar.Formula signs validQualifier (removeWhitespaces (str "GOLD & !KYC")) :=
    .and (.name hgold) (.not (.name hkyc))
  obtain ⟨tag, b, t, htag, hread, hrun⟩ := (verifier_value taggedEnv (str "holder")).1 taggedState
    (str "GOLD & !KYC") (by decide) (by decide) hform (by decide)
  have hbacked : taggedState.TagsBacked taggedEnv.hashes := Lru.backed_empty _ _
  exact ⟨tag, b, t,
    (htag (str "GOLD") (by decide)).2 hbacked (taggedState_keyApart fun _ => rfl),
    (htag (str "KYC") (by decide)).2 hbacked (taggedState_keyApart (by decide)), hread, hrun⟩

/-- A name repeated as its own alternative. -/
def repeated (k : Nat) : Bytes :=
  [0x7c].intercalate (str "GOLD" :: List.replicate k (str "GOLD"))

theorem repeated_reads (k : Nat) :
    BoolGrammar.Reads signs validQualifier (fun _ => true) .disj (repeated k) true := by
  have hname : validQualifier (str "GOLD") := by
    show isQualifierNameValid _ = true
    decide
  have hconj : BoolGrammar.Reads signs validQualifier (fun _ => true) .conj (str "GOLD") true :=
    .single (.name hname)
  induction k with
  | zero => exact .lone hconj
  | succ k ih =>
    rw [repeated, replicate_succ', intercalate_snoc]
    exact .or ih hconj

/-- Seventeen alternatives have 84 characters: a formula that is true for everyone with the tag is
refused for its length. -/
theorem long_verifier_refused :
    BoolGrammar.Reads signs validQualifier (fun _ => true) .disj
      (removeWhitespaces (repeated 16)) true ∧
    ∀ (env : Env) (address : Bytes) (s : AssetState),
      contextualCheckVerifierString env (repeated 16) address s =
        .error "Verifier string has length greater than 80 after whitespaces and '#' are removed"
          s := by
  have hplain : removeWhitespaces (repeated 16) = repeated 16 := by decide +kernel
  have hcheck : checkVerifierString (repeated 16) = .error
      "Verifier string has length greater than 80 after whitespaces and '#' are removed" := by
    decide +kernel
  have hne : repeated 16 ≠ str "true" := by decide +kernel
  refine ⟨hplain.symm ▸ repeated_reads 16, fun env address s => ?_⟩
  unfold contextualCheckVerifierString onlyIf
  rw [if_pos (by simpa using hne), hcheck]
  rfl

end HnbCore
