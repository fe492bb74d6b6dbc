import HnbCore.VerifierSyntax

/-!
# Verifier strings against their grammar

`CheckVerifierString` accepts a string by extracting its names and evaluating it with every name
true. What it accepts is compared with the grammar of formulas over valid qualifier names.
-/

namespace HnbCore

open Checks LibBoolEE List

variable {v n : Bytes} {op : UInt8}

section
variable {n s t : Bytes} {c : UInt8}

theorem mem_extract_iff : n ∈ extractVerifierStringQualifiers s ↔
    n ∈ s.splitOnP (fun c => !isNameChar c) ∧ n ≠ [] := by
  simp [extractVerifierStringQualifiers]

theorem not_mem_extract_nil : n ∉ extractVerifierStringQualifiers [] := by
  simp [mem_extract_iff]

/-- A character outside names separates the names on its two sides. -/
theorem mem_extract_append (hc : isNameChar c = false) :
    n ∈ extractVerifierStringQualifiers (s ++ c :: t) ↔
      n ∈ extractVerifierStringQualifiers s ∨ n ∈ extractVerifierStringQualifiers t := by
  rw [mem_extract_iff, mem_extract_iff, mem_extract_iff,
    splitOnP_append_cons s t (by simp [hc]), mem_append]
  tauto

theorem mem_extract_cons (hc : isNameChar c = false) :
    n ∈ extractVerifierStringQualifiers (c :: s) ↔ n ∈ extractVerifierStringQualifiers s := by
  have happ := mem_extract_append (n := n) (s := []) (t := s) hc
  rw [nil_append] at happ
  simp [happ, not_mem_extract_nil]

theorem mem_extract_snoc (hc : isNameChar c = false) :
    n ∈ extractVerifierStringQualifiers (s ++ [c]) ↔ n ∈ extractVerifierStringQualifiers s := by
  rw [mem_extract_append hc]
  simp [not_mem_extract_nil]

theorem mem_extract_skipped {pre : Bytes} (hpre : ∀ c ∈ pre, isNameChar c = false) :
    n ∈ extractVerifierStringQualifiers (pre ++ s) ↔ n ∈ extractVerifierStringQualifiers s := by
  induction pre with
  | nil => rfl
  | cons c pre ih =>
    rw [cons_append, mem_extract_cons (hpre c (by simp)),
      ih fun x hx => hpre x (mem_cons_of_mem _ hx)]

theorem mem_extract_name (hne : s ≠ []) (hall : ∀ c ∈ s, isNameChar c = true) :
    n ∈ extractVerifierStringQualifiers s ↔ n = s := by
  rw [mem_extract_iff, splitOnP_eq_singleton fun c hc => by simp [hall c hc],
    mem_singleton]
  constructor
  · exact fun h => h.1
  · rintro rfl
    exact ⟨rfl, hne⟩

theorem mem_extract_intercalate (hop : isNameChar op = false) {l : List Bytes} :
    n ∈ extractVerifierStringQualifiers ([op].intercalate l) ↔
      ∃ p ∈ l, n ∈ extractVerifierStringQualifiers p := by
  induction l with
  | nil => simp [not_mem_extract_nil]
  | cons first rest ih =>
    cases rest with
    | nil => simp
    | cons next others =>
      rw [intercalate_cons_cons, append_assoc, singleton_append,
        mem_extract_append hop, ih]
      simp only [mem_cons, exists_eq_or_imp]

end

theorem isNameChar_of_junk {c : UInt8} (h : isJunk c = true) : isNameChar c = false := by
  apply isNameChar_of_kind_ne
  intro hk
  simp [isJunk, hk, Kind.skipped] at h

section
variable {isName isName' : Bytes → Prop} {val val' : Bytes → Bool} {form : Form} {s : Bytes}
  {b : Bool} {t first : Bytes} {rest : List Bytes}

/-- The names of a string of the grammar are those of its derivation. -/
theorem isName_of_mem_extract (hname : ProperNames isName) (h : Parsed isName val form s b) :
    ∀ n ∈ extractVerifierStringQualifiers s, isName n := by
  refine h.shape (P := fun s => ∀ n ∈ extractVerifierStringQualifiers s, isName n) ?_ ?_ ?_ ?_ ?_
  · intro m hm n hmem
    rw [mem_extract_name (hname m hm).1 (hname m hm).2] at hmem
    rwa [hmem]
  · intro s hs n hmem
    exact hs n ((mem_extract_cons (by decide)).mp hmem)
  · intro s hs n hmem
    rw [mem_extract_cons (by decide), mem_extract_snoc (by decide)] at hmem
    exact hs n hmem
  · intro op hop s t hs ht n hmem
    have hc : isNameChar op = false := by rcases hop with rfl | rfl <;> decide
    exact ((mem_extract_append hc).mp hmem).elim (hs n) (ht n)
  · intro pre s hpre hs n hmem
    exact hs n ((mem_extract_skipped fun c hc => isNameChar_of_junk (hpre c hc)).mp hmem)

section
variable {w : Bytes × Bool → Bool} {first : Bytes × Bool} {rest : List (Bytes × Bool)}

theorem forall_values {R : Bytes → Bool → Prop} (h : ∀ p ∈ first :: rest, R p.1 (w p)) :
    ∀ p ∈ (first.1, w first) :: rest.map (fun p => (p.1, w p)), R p.1 p.2 := by
  rw [← map_cons (f := fun p : Bytes × Bool => (p.1, w p))]
  exact forall_mem_map.mpr h

theorem map_values_eq (h : ∀ p ∈ first :: rest, w p = p.2) :
    (first.1, w first) :: rest.map (fun p => (p.1, w p)) = first :: rest := by
  have hsame : ∀ p ∈ first :: rest, (p.1, w p) = p := fun p hp => Prod.ext rfl (h p hp)
  exact (map_congr_left hsame).trans (map_id' (first :: rest))

end

/-- With other names and values a string is still of the grammar if its names are, and it keeps its
value if its names keep theirs. -/
theorem LibBoolEE.Parsed.change {N : Bytes → Prop} (val' : Bytes → Bool)
    (hname : ProperNames isName) (hN : ∀ n, N n → isName n → isName' n)
    (h : Parsed isName val form s b) :
    (∀ n ∈ extractVerifierStringQualifiers s, N n) →
      ∃ v, Parsed isName' val' form s v ∧ ((∀ n, N n → isName n → val' n = val n) → v = b) := by
  induction h with
  | @name m hn =>
    intro hs
    have hm := hs m ((mem_extract_name (hname m hn).1 (hname m hn).2).mpr rfl)
    exact ⟨_, .name (hN m hm hn), fun hsame => hsame m hm hn⟩
  | not _ ih =>
    intro hs
    obtain ⟨v, hv, hsame⟩ := ih fun n hmem => hs n ((mem_extract_cons (by decide)).mpr hmem)
    exact ⟨_, .not hv, fun hval => congrArg Bool.not (hsame hval)⟩
  | paren _ ih =>
    intro hs
    obtain ⟨v, hv, hsame⟩ := ih fun n hmem => hs n (by
      rwa [mem_extract_cons (by decide), mem_extract_snoc (by decide)])
    exact ⟨v, .paren hv, hsame⟩
  | @chain first rest hmore _ ih =>
    intro hs
    choose! w hw hsame using fun p hp => ih p hp fun n hmem =>
      hs n ((mem_extract_intercalate (by decide)).mpr ⟨p.1, mem_map_of_mem hp, hmem⟩)
    have hchain := Parsed.chain (f := (first.1, w first)) (r := rest.map fun p => (p.1, w p))
      (by simpa using hmore) (forall_values hw)
    rw [map_cons, map_map] at hchain
    exact ⟨_, hchain, fun hval =>
      congrArg (List.all · Prod.snd) (map_values_eq fun p hp => hsame p hp hval)⟩
  | laterAtom _ ih =>
    intro hs
    obtain ⟨v, hv, hsame⟩ := ih hs
    exact ⟨v, .laterAtom hv, hsame⟩
  | laterChain hamps _ ih =>
    intro hs
    obtain ⟨v, hv, hsame⟩ := ih fun n hmem =>
      hs n ((mem_extract_skipped fun c hc => by rw [hamps c hc]; decide).mpr hmem)
    exact ⟨v, .laterChain hamps hv, hsame⟩
  | @alt first rest hmore hstart _ ih =>
    intro hs
    choose! w hw hsame using fun p hp => ih p hp fun n hmem =>
      hs n ((mem_extract_intercalate (by decide)).mpr ⟨p.1, mem_map_of_mem hp, hmem⟩)
    have halt := Parsed.alt (f := (first.1, w first)) (r := rest.map fun p => (p.1, w p))
      (by simpa using hmore) hstart (forall_values hw)
    rw [map_cons, map_map] at halt
    exact ⟨_, halt, fun hval =>
      congrArg (List.any · Prod.snd) (map_values_eq fun p hp => hsame p hp hval)⟩
  | exprAtom _ ih =>
    intro hs
    obtain ⟨v, hv, hsame⟩ := ih hs
    exact ⟨v, .exprAtom hv, hsame⟩
  | exprChain hjunk _ ih =>
    intro hs
    obtain ⟨v, hv, hsame⟩ := ih fun n hmem =>
      hs n ((mem_extract_skipped fun c hc => isNameChar_of_junk (hjunk c hc)).mpr hmem)
    exact ⟨v, .exprChain hjunk hv, hsame⟩
  | exprAlt hjunk _ ih =>
    intro hs
    obtain ⟨v, hv, hsame⟩ := ih fun n hmem =>
      hs n ((mem_extract_skipped fun c hc => isNameChar_of_junk (hjunk c hc)).mpr hmem)
    exact ⟨v, .exprAlt hjunk hv, hsame⟩

/-- Only what is said of the names in the string matters to its derivation. -/
theorem LibBoolEE.Parsed.rename (hname : ProperNames isName) (h : Parsed isName val form s b)
    (hagree : ∀ n ∈ extractVerifierStringQualifiers s, isName n → isName' n ∧ val' n = val n) :
    Parsed isName' val' form s b := by
  obtain ⟨v, hv, hsame⟩ := h.change val' hname (fun n hmem hn => (hagree n hmem hn).1)
    fun _ hmem => hmem
  exact hsame (fun n hmem hn => (hagree n hmem hn).2) ▸ hv

/-- Whether a string is of the grammar does not depend on the values of its names. -/
theorem LibBoolEE.Parsed.revalue (val' : Bytes → Bool) (hname : ProperNames isName)
    (h : Parsed isName val form s b) : ∃ v, Parsed isName val' form s v := by
  obtain ⟨v, hv, -⟩ := h.change (N := fun _ => True) val' hname (fun _ _ hn => hn)
    fun _ _ => trivial
  exact ⟨v, hv⟩

/-- No name of the grammar has a `#`, and none is passed over. -/
theorem isNameChar_of_word (hname : ProperNames isName) (h : Parsed isName val form s b) :
    ∀ c ∈ s, kind c = .word → isNameChar c = true := by
  have hjoin {o : UInt8} (hop : kind o ≠ .word) (s t : Bytes)
      (hs : ∀ c ∈ s, kind c = .word → isNameChar c = true)
      (ht : ∀ c ∈ t, kind c = .word → isNameChar c = true) :
      ∀ c ∈ s ++ o :: t, kind c = .word → isNameChar c = true :=
    forall_mem_append.mpr
      ⟨hs, forall_mem_cons.mpr ⟨fun hk => absurd hk hop, ht⟩⟩
  refine h.shape (P := fun s => ∀ c ∈ s, kind c = .word → isNameChar c = true) ?_ ?_ ?_ ?_ ?_
  · exact fun n hn c hc _ => (hname n hn).2 c hc
  · exact fun s hs => hjoin (o := 0x21) (by decide) [] s nofun hs
  · intro s hs
    exact hjoin (o := 0x28) (by decide) [] _ nofun (hjoin (o := 0x29) (by decide) s [] hs nofun)
  · rintro op (rfl | rfl) <;> exact hjoin (by decide)
  · intro pre s hpre hs
    refine forall_mem_append.mpr ⟨fun c hc hk => ?_, hs⟩
    have hno := skipped_of_isJunk hpre c hc
    rw [hk] at hno
    cases hno

/-- Every operator and every sign outside the language follows an operand. -/
def attached : Bool → Bytes → Bool
  | _, [] => true
  | prev, c :: cs =>
      (!(kind c).skipped || prev) && attached (kind c = .word || kind c = .closing) cs

def endsOperand : Bytes → Bool
  | [] => false
  | [c] => kind c = .word || kind c = .closing
  | _ :: c :: cs => endsOperand (c :: cs)

theorem endsOperand_append (h : endsOperand t = true) : endsOperand (s ++ t) = true := by
  induction s with
  | nil => exact h
  | cons c s ih =>
    cases hst : s ++ t with
    | nil =>
      rw [hst] at ih
      cases ih
    | cons d rest =>
      rw [cons_append, hst]
      rw [hst] at ih
      exact ih

theorem attached_append {prev : Bool} (h : endsOperand s = true) :
    attached prev (s ++ t) = (attached prev s && attached true t) := by
  induction s generalizing prev with
  | nil => cases h
  | cons c s ih =>
    cases s with
    | nil =>
      simp only [endsOperand] at h
      simp only [cons_append, nil_append, attached, h, Bool.and_true]
    | cons d s =>
      have hstep (u : Bytes) : attached prev (c :: u) =
          ((!(kind c).skipped || prev) &&
            attached (kind c = .word || kind c = .closing) u) := rfl
      rw [cons_append, hstep, hstep, ih h, Bool.and_assoc]

/-- An operator between two strings is attached to the first. -/
theorem attached_join (hop : kind op = .conj ∨ kind op = .disj) (h : endsOperand s = true) :
    attached false (s ++ op :: t) = (attached false s && attached false t) := by
  rw [attached_append h]
  rcases hop with hop | hop <;> simp [attached, hop]

theorem endsOperand_name (hne : n ≠ []) (hall : ∀ c ∈ n, isNameChar c = true) :
    endsOperand n = true := by
  obtain ⟨init, last, rfl⟩ : ∃ init last, n = init ++ [last] := by
    rcases eq_nil_or_concat n with rfl | ⟨init, last, hn⟩
    · exact absurd rfl hne
    · exact ⟨init, last, by rw [hn, concat_eq_append]⟩
  apply endsOperand_append
  simp [endsOperand, kind_of_isNameChar (hall last (by simp))]

theorem endsOperand_cons {c : UInt8} (h : endsOperand s = true) : endsOperand (c :: s) = true :=
  endsOperand_append (s := [c]) h

theorem endsOperand_join (s : Bytes) (h : endsOperand t = true) :
    endsOperand (s ++ op :: t) = true :=
  endsOperand_append (endsOperand_cons h)

theorem LibBoolEE.Parsed.ends (hname : ProperNames isName) (h : Parsed isName val form s b) :
    endsOperand s = true := by
  refine h.shape (P := fun s => endsOperand s = true) ?_ ?_ ?_ ?_ ?_
  · exact fun n hn => endsOperand_name (hname n hn).1 (hname n hn).2
  · exact fun s hs => endsOperand_cons hs
  · exact fun s _ => endsOperand_append (s := 0x28 :: s) rfl
  · exact fun op _ s t _ ht => endsOperand_join s ht
  · exact fun pre s _ hs => endsOperand_append hs

/-- Nothing is passed over in front of an attached string. -/
theorem eq_nil_of_attached {pre : Bytes} (hpre : ∀ c ∈ pre, (kind c).skipped = true)
    (h : attached false (pre ++ t) = true) : pre = [] := by
  cases pre with
  | nil => rfl
  | cons c pre =>
    rw [cons_append, attached, hpre c (by simp)] at h
    cases h

theorem attached_paren (h : endsOperand t = true) :
    attached false (0x28 :: (t ++ [0x29])) = attached false t := by
  have hopen : attached false (0x28 :: (t ++ [0x29])) = attached false (t ++ [0x29]) := by
    simp [attached, Kind.skipped]
  rw [hopen, attached_append h]
  exact Bool.and_true _

theorem formula_of_attached (hname : ProperNames isName) (h : Parsed isName val form s b) :
    attached false s = true → BoolGrammar.Formula signs isName s := by
  -- where a piece ends is needed to see that the next one is attached
  suffices hboth : endsOperand s = true ∧
      (attached false s = true → BoolGrammar.Formula signs isName s) from hboth.2
  refine h.shape (P := fun s => endsOperand s = true ∧
    (attached false s = true → BoolGrammar.Formula signs isName s)) ?_ ?_ ?_ ?_ ?_
  · exact fun n hn => ⟨endsOperand_name (hname n hn).1 (hname n hn).2, fun _ => .name hn⟩
  · exact fun s hs => ⟨endsOperand_cons hs.1, fun ha => .not (hs.2 ha)⟩
  · intro s hs
    refine ⟨endsOperand_append (s := 0x28 :: s) rfl, fun ha => .paren (hs.2 ?_)⟩
    rwa [attached_paren hs.1] at ha
  · intro op hop s t hs ht
    refine ⟨endsOperand_join s ht.1, fun ha => ?_⟩
    rw [attached_join (hop.imp (by rintro rfl; rfl) (by rintro rfl; rfl)) hs.1,
      Bool.and_eq_true] at ha
    rcases hop with rfl | rfl
    · exact .and (hs.2 ha.1) (ht.2 ha.2)
    · exact .or (hs.2 ha.1) (ht.2 ha.2)
  · intro pre s hpre hs
    refine ⟨endsOperand_append hs.1, fun ha => ?_⟩
    obtain rfl := eq_nil_of_attached (skipped_of_isJunk hpre) ha
    exact hs.2 ha

theorem attached_name (hall : ∀ c ∈ n, isNameChar c = true) (prev : Bool) :
    attached prev n = true := by
  induction n generalizing prev with
  | nil => rfl
  | cons c n ih =>
    have hc := kind_of_isNameChar (hall c (by simp))
    rw [attached, ih fun x hx => hall x (mem_cons_of_mem _ hx), hc]
    rfl

theorem attached_of_formula (hname : ProperNames isName) (h : BoolGrammar.Formula signs isName s) :
    attached false s = true ∧ endsOperand s = true := by
  induction h with
  | name hn =>
    exact ⟨attached_name (hname _ hn).2 false, endsOperand_name (hname _ hn).1 (hname _ hn).2⟩
  | not _ ih => exact ⟨ih.1, endsOperand_cons ih.2⟩
  | @paren t _ ih =>
    exact ⟨(attached_paren ih.2).trans ih.1, endsOperand_append (s := 0x28 :: t) rfl⟩
  | @and s t _ _ ihs iht =>
    refine ⟨(attached_join (.inl rfl) ihs.2).trans ?_, endsOperand_join s iht.2⟩
    rw [ihs.1, iht.1]
    rfl
  | @or s t _ _ ihs iht =>
    refine ⟨(attached_join (.inr rfl) ihs.2).trans ?_, endsOperand_join s iht.2⟩
    rw [ihs.1, iht.1]
    rfl

theorem intercalate_snoc {last : Bytes} :
    [op].intercalate (first :: (rest ++ [last])) =
      [op].intercalate (first :: rest) ++ op :: last := by
  induction rest generalizing first with
  | nil => simp
  | cons next others ih =>
    rw [cons_append, intercalate_cons_cons, ih, intercalate_cons_cons]
    simp

/-- What the evaluator calls the strings of each layer. -/
def Layered (isName : Bytes → Prop) (val : Bytes → Bool) :
    BoolGrammar.Layer → Bytes → Bool → Prop
  | .atom, s, b => Parsed isName val .atom s b
  | .conj, s, b => Parsed isName val .atom s b ∨ Parsed isName val .chain s b
  | .disj, s, b =>
      (Parsed isName val .atom s b ∨ Parsed isName val .chain s b) ∨ Parsed isName val .alt s b

theorem Layered.expr (h : Layered isName val .disj s b) : Parsed isName val .expr s b := by
  rcases h with (h | h) | h
  · exact .exprAtom h
  · exact .exprChain (j := []) (fun _ hc => nomatch hc) h
  · exact .exprAlt (j := []) (fun _ hc => nomatch hc) h

theorem Layered.later (h : Layered isName val .conj s b) : Parsed isName val .later s b := by
  rcases h with h | h
  · exact .laterAtom h
  · exact .laterChain (j := []) (fun _ hc => nomatch hc) h

theorem Layered.starts (hname : ProperNames isName) (h : Layered isName val .conj s b) :
    startsOperand s = true := by
  rcases h with h | h
  · exact h.starts hname (.inl rfl)
  · exact h.starts hname (.inr rfl)

/-- The evaluator gives a formula its value under the usual precedence. -/
theorem layered_of_reads (hname : ProperNames isName) {layer : BoolGrammar.Layer}
    (h : BoolGrammar.Reads signs isName val layer s b) : Layered isName val layer s b := by
  induction h with
  | name hn => exact .name hn
  | not _ ih => exact .not ih
  | paren _ ih => exact .paren (Layered.expr ih)
  | single _ ih => exact .inl ih
  | @and s t x y _ _ ihs iht =>
    right
    rcases ihs with hs | hs
    · have hchain := Parsed.chain (f := (s, x)) (r := [(t, y)]) (by simp) fun p hp => by
        rcases mem_cons.mp hp with rfl | hp
        · exact hs
        · obtain rfl := mem_singleton.mp hp
          exact iht
      simpa [signs] using hchain
    · cases hs with
      | @chain first rest hmore hall =>
        have hchain := Parsed.chain (f := first) (r := rest ++ [(t, y)]) (by simp)
          fun p hp => by
            rw [← cons_append] at hp
            rcases mem_append.mp hp with hp | hp
            · exact hall p hp
            · obtain rfl := mem_singleton.mp hp
              exact iht
        rw [map_cons, map_append, map_singleton, intercalate_snoc] at hchain
        simpa [signs, Bool.and_assoc] using hchain
  | lone _ ih => exact .inl ih
  | @or s t x y _ _ ihs iht =>
    right
    have ht := Layered.later iht
    rcases ihs with hs | hs
    · have hlater := Layered.later hs
      have halt := Parsed.alt (f := (s, x)) (r := [(t, y)]) (by simp)
        (Layered.starts hname hs) fun p hp => by
          rcases mem_cons.mp hp with rfl | hp
          · exact hlater
          · obtain rfl := mem_singleton.mp hp
            exact ht
      simpa [signs] using halt
    · cases hs with
      | @alt first rest hmore hstart hall =>
        have halt := Parsed.alt (f := first) (r := rest ++ [(t, y)]) (by simp) hstart
          fun p hp => by
            rw [← cons_append] at hp
            rcases mem_append.mp hp with hp | hp
            · exact hall p hp
            · obtain rfl := mem_singleton.mp hp
              exact ht
        rw [map_cons, map_append, map_singleton, intercalate_snoc] at halt
        simpa [signs, Bool.or_assoc] using halt

end

/-- A qualifier name without its `#`. -/
def validQualifier (n : Bytes) : Prop := isQualifierNameValid (qualifierChar :: n) = true

theorem rootNameCharacters_of_valid (h : validQualifier n) : rootNameCharacters n = true := by
  simp only [validQualifier, isQualifierNameValid, qualifierNameCharacters, tagged,
    Bool.and_eq_true] at h
  exact h.1.1.1.1.2

theorem properNames_valid : ProperNames validQualifier := by
  intro n hn
  have hroot := rootNameCharacters_of_valid hn
  simp only [rootNameCharacters, Bool.and_eq_true, all_eq_true, decide_eq_true_eq] at hroot
  refine ⟨?_, hroot.2⟩
  rintro rfl
  exact absurd hroot.1 (by decide)

theorem ne_constant_of_valid (h : validQualifier n) : n ≠ str "1" ∧ n ≠ str "0" := by
  have hroot := rootNameCharacters_of_valid h
  constructor
  · rintro rfl
    exact absurd hroot (by decide)
  · rintro rfl
    exact absurd hroot (by decide)

variable {vals : Bytes → Option Bool} {b : Bool} {val : Bytes → Bool} {s : Bytes}

theorem properNames_known
    (h : ∀ n, (vals n).isSome = true → validQualifier n) : ProperNames (Known vals) := by
  rintro n (rfl | rfl | hn)
  · exact ⟨by decide, all_eq_true.mp (by decide)⟩
  · exact ⟨by decide, all_eq_true.mp (by decide)⟩
  · exact properNames_valid n (h n hn)

theorem resolve_removeWhitespaces (vals : Bytes → Option Bool) (fuel : Nat) (source : Bytes) :
    resolve vals fuel source = resolve vals fuel (removeWhitespaces source) := by
  cases fuel with
  | zero => rfl
  | succ fuel =>
    have hidem := removeWhitespaces_of_noSpace (noSpace_removeWhitespaces source)
    simp only [resolve, hidem]

theorem length_removeWhitespaces_le (source : Bytes) :
    (removeWhitespaces source).length ≤ source.length :=
  length_filter_le _ _

/-- Over a valuation of the names of a string the evaluator returns its value. -/
theorem resolveVerifier_of_parsed (hvals : ∀ n, (vals n).isSome = true → validQualifier n)
    (hread : Parsed validQualifier val .expr (removeWhitespaces v) b)
    (hnames : ∀ n ∈ extractVerifierStringQualifiers (removeWhitespaces v),
      vals n = some (val n)) : resolveVerifier v vals = .ok b := by
  have hknown : Parsed (Known vals) (LibBoolEE.valueOf vals) .expr (removeWhitespaces v) b := by
    refine hread.rename properNames_valid fun n hmem hn => ?_
    have hval := hnames n hmem
    obtain ⟨hone, hzero⟩ := ne_constant_of_valid hn
    refine ⟨.inr (.inr (by rw [hval]; rfl)), ?_⟩
    rw [LibBoolEE.valueOf, if_neg hone, if_neg hzero, hval]
    rfl
  have hlen := length_removeWhitespaces_le v
  rw [resolveVerifier, resolve_removeWhitespaces]
  exact resolve_of_parsed (properNames_known hvals) hknown (j := [])
    nofun (fun _ => rfl) (by rw [nil_append]; omega)

/-- A string has a value exactly when the grammar derives it with that value, over the known names
and without its white space. -/
theorem evaluator_language (hvals : ∀ n, (vals n).isSome = true → validQualifier n) (v : Bytes)
    (b : Bool) : resolveVerifier v vals = .ok b ↔
      Parsed (Known vals) (LibBoolEE.valueOf vals) .expr (removeWhitespaces v) b := by
  have hproper := properNames_known hvals
  have hlen := length_removeWhitespaces_le v
  rw [resolveVerifier, resolve_removeWhitespaces]
  constructor
  · exact parsed_of_resolve hproper (noSpace_removeWhitespaces v)
  · exact fun h => resolve_of_parsed hproper h (j := []) nofun (fun _ => rfl)
      (by rw [nil_append]; omega)

/-- One name is true and one is false. -/
def goldNotKyc (n : Bytes) : Option Bool :=
  if n = str "GOLD" then some true else if n = str "KYC" then some false else none

theorem gold_and_not_kyc_derived :
    Parsed (Known goldNotKyc) (LibBoolEE.valueOf goldNotKyc) .expr (str "&GOLD&!KYC") true := by
  refine (evaluator_language (fun n hn => ?_) (str "& GOLD & !KYC") true).mp (by decide +kernel)
  change isQualifierNameValid (qualifierChar :: n) = true
  unfold goldNotKyc at hn
  split at hn
  · subst n
    decide
  · split at hn
    · subst n
      decide
    · cases hn

theorem not_mem_hash_of_parsed {isName : Bytes → Prop} {form : Form}
    (hname : ProperNames isName) (h : Parsed isName val form s b) :
    qualifierChar ∉ s := by
  intro hmem
  have hchar := isNameChar_of_word hname h qualifierChar hmem (by decide)
  exact absurd hchar (by decide)

theorem mem_removeWhitespaces_hash : qualifierChar ∈ removeWhitespaces v ↔ qualifierChar ∈ v := by
  rw [removeWhitespaces, mem_filter]
  exact and_iff_left (by decide)

/-- Without a `#` only white space is stripped. -/
theorem stripped_of_not_mem (h : qualifierChar ∉ v) :
    getStrippedVerifierString v = removeWhitespaces v := by
  rw [getStrippedVerifierString, removeCharacter, filter_eq_self]
  intro c hc
  rw [decide_eq_true_eq]
  rintro rfl
  exact h (mem_removeWhitespaces_hash.mp hc)

/-- The names of a stripped string, all true. -/
def allTrue (v n : Bytes) : Option Bool :=
  if (extractVerifierStringQualifiers (getStrippedVerifierString v)).contains n then some true
  else none

theorem allTrue_isSome : (allTrue v n).isSome = true ↔
    n ∈ extractVerifierStringQualifiers (getStrippedVerifierString v) := by
  unfold allTrue
  split
  · next h => simpa using h
  · next h => simpa using h

theorem checkVerifierString_eq_ok_iff (hv : v ≠ str "true") {q : List Bytes} :
    checkVerifierString v = .ok q ↔
      v ≠ [] ∧ (getStrippedVerifierString v).length ≤ 80 ∧
        (∀ n ∈ extractVerifierStringQualifiers (getStrippedVerifierString v), validQualifier n) ∧
        (∃ b, resolveVerifier v (allTrue v) = .ok b) ∧
        extractVerifierStringQualifiers (getStrippedVerifierString v) = q := by
  have hempty : (!v.isEmpty) = true ↔ v ≠ [] := by simp
  rw [checkVerifierString, if_neg hv]
  simp only [bind_eq_ok, ensure_eq_ok, forM_eq_ok, exists_const, decide_eq_true_eq, hempty]
  refine and_congr_right fun _ => and_congr_right fun _ => and_congr_right fun _ => ?_
  split
  · next b h =>
    change resolveVerifier v (allTrue v) = .ok b at h
    simp [h]
  · next e h =>
    change resolveVerifier v (allTrue v) = .error e at h
    simp [h]

/-- Every other accepted string is of the evaluator's grammar, has at most 80 characters and no
`#`. -/
theorem accepted_iff_parsed (hv : v ≠ str "true") :
    (∃ q, checkVerifierString v = .ok q) ↔
      qualifierChar ∉ v ∧ (getStrippedVerifierString v).length ≤ 80 ∧
        ∃ b, Parsed validQualifier (fun _ => true) .expr (getStrippedVerifierString v) b := by
  constructor
  · rintro ⟨q, h⟩
    obtain ⟨-, hlen, hnames, ⟨b, hb⟩, -⟩ := (checkVerifierString_eq_ok_iff hv).mp h
    have hvals : ∀ n, (allTrue v n).isSome = true → validQualifier n := fun n hn =>
      hnames n (allTrue_isSome.mp hn)
    have hproper := properNames_known hvals
    rw [resolveVerifier, resolve_removeWhitespaces] at hb
    have hread := parsed_of_resolve hproper (noSpace_removeWhitespaces v) hb
    have hhash : qualifierChar ∉ v := fun hmem =>
      not_mem_hash_of_parsed hproper hread (mem_removeWhitespaces_hash.mpr hmem)
    rw [stripped_of_not_mem hhash] at hnames hlen ⊢
    refine ⟨hhash, hlen, ?_⟩
    have hvalid : Parsed validQualifier (LibBoolEE.valueOf (allTrue v)) .expr (removeWhitespaces v) b :=
      hread.rename hproper fun n hmem _ => ⟨hnames n hmem, rfl⟩
    exact hvalid.revalue _ properNames_valid
  · rintro ⟨hhash, hlen, b, hread⟩
    have hnames := isName_of_mem_extract properNames_valid hread
    refine ⟨_, (checkVerifierString_eq_ok_iff hv).mpr ⟨?_, hlen, hnames, ⟨b, ?_⟩, rfl⟩⟩
    · rintro rfl
      have hends := hread.ends properNames_valid
      cases hends
    · have hplain := hread
      rw [stripped_of_not_mem hhash] at hplain
      refine resolveVerifier_of_parsed (fun n hn => hnames n (allTrue_isSome.mp hn)) hplain
        fun n hmem => ?_
      rw [← stripped_of_not_mem hhash] at hmem
      simp only [allTrue, List.contains_iff_mem, hmem, if_true]

theorem formula_iff_parsed :
    BoolGrammar.Formula signs validQualifier s ↔
      (∃ b, Parsed validQualifier (fun _ => true) .expr s b) ∧ attached false s = true := by
  constructor
  · intro h
    obtain ⟨b, hb⟩ := h.reads fun _ => true
    exact ⟨⟨b, (layered_of_reads properNames_valid hb).expr⟩,
      (attached_of_formula properNames_valid h).1⟩
  · rintro ⟨⟨b, hb⟩, ha⟩
    exact formula_of_attached properNames_valid hb ha

/-- The evaluator reads the string, but a sign in it follows no operand: operators or unknown signs
stand in front of a conjunction or a disjunction. -/
def SignsInFront (s : Bytes) : Prop :=
  (∃ b, Parsed validQualifier (fun _ => true) .expr s b) ∧ attached false s = false

/-- A verifier string is accepted exactly when it is `true` or a formula of at most 80
characters, unless it has a `#` or signs in front of an operand. -/
theorem verifier_accepted_iff (v : Bytes) :
    ((∃ q, checkVerifierString v = .ok q) ↔
      v = str "true" ∨ ((getStrippedVerifierString v).length ≤ 80 ∧
        BoolGrammar.Formula signs validQualifier (getStrippedVerifierString v))) ↔
    (v = str "true" ∨ 80 < (getStrippedVerifierString v).length ∨
      if qualifierChar ∈ v then
        ¬BoolGrammar.Formula signs validQualifier (getStrippedVerifierString v)
      else ¬SignsInFront (getStrippedVerifierString v)) := by
  by_cases hv : v = str "true"
  · have hok : ∃ q, checkVerifierString v = .ok q := ⟨[], by rw [checkVerifierString, if_pos hv]⟩
    exact iff_of_true (iff_of_true hok (.inl hv)) (.inl hv)
  · rw [accepted_iff_parsed hv]
    by_cases hlen : (getStrippedVerifierString v).length ≤ 80
    · have hshort : ¬80 < (getStrippedVerifierString v).length := by omega
      by_cases hhash : qualifierChar ∈ v
      · simp [hv, hlen, hshort, hhash]
      · rw [formula_iff_parsed, SignsInFront]
        generalize (∃ b, Parsed validQualifier (fun _ => true) .expr
          (getStrippedVerifierString v) b) = read
        cases attached false (getStrippedVerifierString v) <;> simp [hv, hlen, hshort, hhash]
    · have hlong : 80 < (getStrippedVerifierString v).length := by omega
      simp [hv, hlen, hlong]

/-- Operators in front of an expression are accepted, and a `#` in front of a name is not. -/
theorem leading_operator_accepted :
    ((∃ q, checkVerifierString (str "&GOLD&SILVER") = .ok q) ∧
      ¬BoolGrammar.Formula signs validQualifier
        (getStrippedVerifierString (str "&GOLD&SILVER"))) ∧
    ((¬∃ q, checkVerifierString (str "#GOLD") = .ok q) ∧
      (getStrippedVerifierString (str "#GOLD")).length ≤ 80 ∧
      BoolGrammar.Formula signs validQualifier (getStrippedVerifierString (str "#GOLD"))) := by
  refine ⟨⟨⟨[str "GOLD", str "SILVER"], by decide +kernel⟩, ?_⟩, ?_, by decide, .name ?_⟩
  · intro h
    have ha := (attached_of_formula properNames_valid h).1
    exact absurd ha (by decide)
  · rintro ⟨q, h⟩
    have hbad : checkVerifierString (str "#GOLD") =
        .error "bad-txns-null-verifier-failed-syntax-check" := by decide +kernel
    rw [hbad] at h
    cases h
  · show isQualifierNameValid _ = true
    decide

end HnbCore
