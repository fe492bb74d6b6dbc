import HnbCore.Lib.BoolGrammar
import HnbCore.VerifierScan

/-!
# The strings the boolean evaluator accepts

The evaluator passes over operators and unknown signs in front of a conjunction or a disjunction, so
it accepts more than the formulas. `Parsed` is the grammar of what it does accept, with the value it
gives; a formula is such a string whose operators all follow an operand.
-/

namespace HnbCore

open List Prod

namespace LibBoolEE

open Checks

variable {op c : UInt8} {first x pre s : Bytes} {rest l : List Bytes} {ok : Kind → Bool}

def signs : BoolGrammar.Signs UInt8 := ⟨0x21, 0x28, 0x29, 0x26, 0x7c⟩

/-- A character that is passed over in front of an expression. -/
def isJunk (c : UInt8) : Bool := (kind c).skipped && !isspace c

theorem skipped_of_isJunk {j : Bytes} (h : ∀ c ∈ j, isJunk c = true) :
    ∀ c ∈ j, (kind c).skipped = true :=
  fun c hc => ((Bool.and_eq_true _ _).mp (h c hc)).1

inductive Form
  | atom
  | chain
  | later
  | alt
  | expr
  deriving DecidableEq

open Form

/-- The strings the evaluator accepts and the value it gives them: an atom, or at least two atoms
with `&` between them, or at least two alternatives with `|` between them. Signs are passed over in
front of a whole chain or disjunction, and `&` in front of a chain that is a later alternative. -/
inductive Parsed (isName : Bytes → Prop) (val : Bytes → Bool) : Form → Bytes → Bool → Prop
  | name {n : Bytes} (hn : isName n) : Parsed isName val .atom n (val n)
  | not {s : Bytes} {b : Bool} (hs : Parsed isName val .atom s b) :
      Parsed isName val .atom (0x21 :: s) (!b)
  | paren {s : Bytes} {b : Bool} (hs : Parsed isName val .expr s b) :
      Parsed isName val .atom (0x28 :: (s ++ [0x29])) b
  | chain {f : Bytes × Bool} {r : List (Bytes × Bool)} (hmore : r ≠ [])
      (hall : ∀ p ∈ f :: r, Parsed isName val .atom p.1 p.2) :
      Parsed isName val .chain ([0x26].intercalate ((f :: r).map fst))
        ((f :: r).all snd)
  | laterAtom {s : Bytes} {b : Bool} (hs : Parsed isName val .atom s b) :
      Parsed isName val .later s b
  | laterChain {j s : Bytes} {b : Bool} (hamps : ∀ c ∈ j, c = 0x26)
      (hs : Parsed isName val .chain s b) : Parsed isName val .later (j ++ s) b
  | alt {f : Bytes × Bool} {r : List (Bytes × Bool)} (hmore : r ≠ [])
      (hstart : startsOperand f.1 = true)
      (hall : ∀ p ∈ f :: r, Parsed isName val .later p.1 p.2) :
      Parsed isName val .alt ([0x7c].intercalate ((f :: r).map fst))
        ((f :: r).any snd)
  | exprAtom {s : Bytes} {b : Bool} (hs : Parsed isName val .atom s b) : Parsed isName val .expr s b
  | exprChain {j s : Bytes} {b : Bool} (hjunk : ∀ c ∈ j, isJunk c = true)
      (hs : Parsed isName val .chain s b) : Parsed isName val .expr (j ++ s) b
  | exprAlt {j s : Bytes} {b : Bool} (hjunk : ∀ c ∈ j, isJunk c = true)
      (hs : Parsed isName val .alt s b) : Parsed isName val .expr (j ++ s) b

/-- What may stand outside parentheses in a string of the form. -/
def Form.allows : Form → Kind → Bool
  | .atom, k => k = .word || k = .bang
  | .chain, k | .later, k => k = .word || k = .bang || k = .conj
  | .alt, k => k ≠ .stray
  | .expr, _ => true

/-- Names are runs of name characters. -/
def ProperNames (isName : Bytes → Prop) : Prop :=
  ∀ n, isName n → n ≠ [] ∧ ∀ c ∈ n, isNameChar c = true

theorem kind_of_isNameChar (h : isNameChar c = true) : kind c = .word := by
  apply kind_of_belongsToName
  simp only [isNameChar, isPunctuation, belongsToName, isalnum, Bool.or_eq_true,
    decide_eq_true_eq] at h ⊢
  grind

theorem isNameChar_of_kind_ne (h : kind c ≠ .word) : isNameChar c = false := by
  cases hc : isNameChar c with
  | false => rfl
  | true => exact absurd (kind_of_isNameChar hc) h

theorem isspace_of_word (h : kind c = .word) : isspace c = false := by
  have hb : belongsToName c = true := by
    have hspec := kind_spec c
    rw [h] at hspec
    exact hspec.1
  simp only [belongsToName, isalnum, isUpper, isLower, isDigit, isspace, Bool.or_eq_true,
    Bool.and_eq_true, decide_eq_true_eq, Bool.or_eq_false_iff, Bool.and_eq_false_iff,
    decide_eq_false_iff_not, UInt8.le_iff_toNat_le] at hb ⊢
  simp only [← UInt8.toNat_inj] at hb ⊢
  simp at hb ⊢
  omega

/-- What holds of the pieces and of two strings joined at the operator holds of the whole. -/
theorem intercalate_rec {P : Bytes → Prop} (hcat : ∀ s t, P s → P t → P (s ++ op :: t))
    (hall : ∀ p ∈ first :: rest, P p) : P ([op].intercalate (first :: rest)) := by
  induction rest generalizing first with
  | nil =>
    have hfirst := hall first (by simp)
    simpa using hfirst
  | cons next others ih =>
    rw [intercalate_cons_cons, append_assoc, singleton_append]
    exact hcat _ _ (hall first (by simp)) (ih fun p hp => hall p (mem_cons_of_mem _ hp))

theorem flat_junk (hpre : ∀ c ∈ pre, (kind c).skipped = true) :
    Flat ok 0 (pre ++ s) ↔ (∀ c ∈ pre, ok (kind c) = true) ∧ Flat ok 0 s := by
  induction pre with
  | nil => simp
  | cons c pre ih =>
    have hc := hpre c (by simp)
    have h1 : kind c ≠ .closing := fun hk => by simp [hk, Kind.skipped] at hc
    have h2 : kind c ≠ .opening := fun hk => by simp [hk, Kind.skipped] at hc
    rw [cons_append, flat_other h1 h2, ih fun x hx => hpre x (mem_cons_of_mem _ hx)]
    simp [and_assoc]

theorem flat_word {n : Bytes} (hn : ∀ c ∈ n, kind c = .word) (hok : ok .word = true) :
    Flat ok 0 n := by
  induction n with
  | nil => rfl
  | cons c n ih =>
    have hc := hn c (by simp)
    rw [flat_other (by simp [hc]) (by simp [hc]), hc]
    exact ⟨fun _ => hok, ih fun x hx => hn x (mem_cons_of_mem _ hx)⟩

theorem flat_join (hop : kind op = .conj ∨ kind op = .disj) (hok : ok (kind op) = true)
    (s t : Bytes) (hs : Flat ok 0 s) (ht : Flat ok 0 t) : Flat ok 0 (s ++ op :: t) := by
  apply hs.append
  rw [flat_other (by rcases hop with h | h <;> simp [h]) (by rcases hop with h | h <;> simp [h])]
  exact ⟨fun _ => hok, ht⟩

/-- The pieces of an allowed string are allowed, and the operator between them is. -/
theorem flat_pieces {ok' : Kind → Bool} (hop : kind op = .conj ∨ kind op = .disj)
    (hall : ∀ p ∈ first :: rest, Flat ok' 0 p) (h : Flat ok 0 ([op].intercalate (first :: rest))) :
    (∀ p ∈ first :: rest, Flat ok 0 p) ∧ (rest ≠ [] → ok (kind op) = true) := by
  induction rest generalizing first with
  | nil =>
    refine ⟨fun p hp => ?_, fun hne => absurd rfl hne⟩
    obtain rfl : p = first := by simpa using hp
    simpa using h
  | cons next others ih =>
    rw [intercalate_cons_cons, append_assoc, singleton_append] at h
    obtain ⟨hfirst, hrest⟩ := (hall first (by simp)).split h
    rw [flat_other (by rcases hop with h | h <;> simp [h])
      (by rcases hop with h | h <;> simp [h])] at hrest
    obtain ⟨hothers, -⟩ := ih (fun p hp => hall p (mem_cons_of_mem _ hp)) hrest.2
    refine ⟨fun p hp => ?_, fun _ => hrest.1 rfl⟩
    rcases mem_cons.mp hp with rfl | hp
    · exact hfirst
    · exact hothers p hp

section
variable {isName : Bytes → Prop} {val : Bytes → Bool} {form : Form} {s : Bytes} {b : Bool}

theorem forall_map_fst {P : Bytes → Prop} {l : List (Bytes × Bool)} (h : ∀ p ∈ l, P p.1) :
    ∀ s ∈ l.map fst, P s := by
  intro s hs
  obtain ⟨p, hp, rfl⟩ := mem_map.mp hs
  exact h p hp

theorem Parsed.flat (hname : ProperNames isName) (h : Parsed isName val form s b) :
    Flat form.allows 0 s := by
  induction h with
  | name hn => exact flat_word (fun c hc => kind_of_isNameChar ((hname _ hn).2 c hc)) rfl
  | not _ ih =>
    rw [flat_other (by simp) (by simp)]
    exact ⟨fun _ => rfl, ih⟩
  | paren _ ih =>
    have hclose : Flat atom.allows 1 [0x29] := (flat_cons ..).mpr ⟨nofun, by decide, rfl⟩
    exact (flat_cons ..).mpr ⟨nofun, by decide, ih.inside hclose⟩
  | chain _ _ ih =>
    rw [map_cons]
    refine intercalate_rec (flat_join (.inl rfl) rfl) ?_
    rw [← map_cons]
    refine forall_map_fst fun p hp => (ih p hp).mono fun k hk => ?_
    simp only [allows, Bool.or_eq_true] at hk ⊢
    exact .inl hk
  | laterAtom _ ih =>
    refine ih.mono fun k hk => ?_
    simp only [allows, Bool.or_eq_true] at hk ⊢
    exact .inl hk
  | laterChain hamps _ ih =>
    rw [flat_junk fun c hc => by rw [hamps c hc]; rfl]
    exact ⟨fun c hc => by rw [hamps c hc]; rfl, ih⟩
  | alt _ _ _ ih =>
    rw [map_cons]
    refine intercalate_rec (flat_join (.inr rfl) rfl) ?_
    rw [← map_cons]
    refine forall_map_fst fun p hp => (ih p hp).mono fun k hk => ?_
    cases k <;> simp [allows] at hk ⊢
  | exprAtom _ ih => exact ih.mono fun _ _ => rfl
  | exprChain hjunk _ ih | exprAlt hjunk _ ih =>
    rw [flat_junk (skipped_of_isJunk hjunk)]
    exact ⟨fun _ _ => rfl, ih.mono fun _ _ => rfl⟩

/-- Nothing is passed over inside an atom, a chain or a disjunction. -/
def Form.noisy : Form → Bool
  | .chain | .alt => true
  | _ => false

theorem startsOperand_append {t : Bytes} (h : startsOperand s = true) :
    startsOperand (s ++ t) = true := by
  cases s with
  | nil => cases h
  | cons c s => exact h

theorem startsOperand_intercalate (h : startsOperand first = true) :
    startsOperand ([op].intercalate (first :: rest)) = true := by
  cases rest with
  | nil => simpa using h
  | cons next others =>
    rw [intercalate_cons_cons, append_assoc]
    exact startsOperand_append h

theorem Parsed.starts (hname : ProperNames isName) (h : Parsed isName val form s b) :
    form = .atom ∨ form.noisy = true → startsOperand s = true := by
  induction h with
  | @name n hn =>
    intro _
    obtain ⟨hne, hall⟩ := hname _ hn
    cases n with
    | nil => exact absurd rfl hne
    | cons c n =>
      have hc := kind_of_isNameChar (hall c (by simp))
      simp [startsOperand, hc, Kind.starts]
  | not _ _ => exact fun _ => rfl
  | paren _ _ => exact fun _ => rfl
  | chain _ _ ih =>
    intro _
    exact startsOperand_intercalate (ih _ (by simp) (.inl rfl))
  | alt _ hstart _ _ => exact fun _ => startsOperand_intercalate hstart
  | laterAtom _ _ | exprAtom _ _ => simp [noisy]
  | laterChain _ _ _ | exprChain _ _ _ | exprAlt _ _ _ => simp [noisy]

def NoSpace (s : Bytes) : Prop := ∀ c ∈ s, isspace c = false

theorem noSpace_append {t : Bytes} : NoSpace (s ++ t) ↔ NoSpace s ∧ NoSpace t :=
  forall_mem_append

theorem noSpace_cons : NoSpace (c :: s) ↔ isspace c = false ∧ NoSpace s := forall_mem_cons

theorem removeWhitespaces_of_noSpace (h : NoSpace s) : removeWhitespaces s = s := by
  rw [removeWhitespaces, filter_eq_self]
  intro c hc
  rw [h c hc]
  rfl

theorem noSpace_removeWhitespaces (s : Bytes) : NoSpace (removeWhitespaces s) := by
  intro c hc
  have hkeep := (mem_filter.mp hc).2
  simpa using hkeep

/-- What the names have and every sign keeps all strings of the grammar have, whatever the form. -/
theorem Parsed.shape {P : Bytes → Prop} (hname : ∀ n, isName n → P n)
    (hnot : ∀ s, P s → P (0x21 :: s)) (hparen : ∀ s, P s → P (0x28 :: (s ++ [0x29])))
    (hjoin : ∀ op, op = 0x26 ∨ op = 0x7c → ∀ s t, P s → P t → P (s ++ op :: t))
    (hskip : ∀ pre s, (∀ c ∈ pre, isJunk c = true) → P s → P (pre ++ s))
    (h : Parsed isName val form s b) : P s := by
  induction h with
  | name hn => exact hname _ hn
  | not _ ih => exact hnot _ ih
  | paren _ ih => exact hparen _ ih
  | chain _ _ ih =>
    exact intercalate_rec (hjoin _ (.inl rfl)) (forall_map_fst (l := _ :: _) ih)
  | alt _ _ _ ih =>
    exact intercalate_rec (hjoin _ (.inr rfl)) (forall_map_fst (l := _ :: _) ih)
  | laterChain hamps _ ih =>
    refine hskip _ _ (fun c hc => ?_) ih
    rw [hamps c hc]
    decide
  | exprChain hjunk _ ih | exprAlt hjunk _ ih => exact hskip _ _ hjunk ih
  | laterAtom _ ih | exprAtom _ ih => exact ih

theorem Parsed.noSpace (hname : ProperNames isName) (h : Parsed isName val form s b) :
    NoSpace s := by
  have hjoin {op : UInt8} (hop : isspace op = false) (s t : Bytes) (hs : NoSpace s)
      (ht : NoSpace t) : NoSpace (s ++ op :: t) :=
    noSpace_append.mpr ⟨hs, noSpace_cons.mpr ⟨hop, ht⟩⟩
  refine h.shape ?_ ?_ ?_ ?_ ?_
  · intro n hn c hc
    exact isspace_of_word (kind_of_isNameChar ((hname n hn).2 c hc))
  · exact fun s hs => noSpace_cons.mpr ⟨by decide, hs⟩
  · exact fun s hs => noSpace_cons.mpr ⟨by decide, hjoin (by decide) _ _ hs nofun⟩
  · rintro op (rfl | rfl) <;> exact hjoin (by decide)
  · intro pre s hpre hs
    refine noSpace_append.mpr ⟨fun c hc => ?_, hs⟩
    simpa using ((Bool.and_eq_true _ _).mp (hpre c hc)).2

/-! ## What a form with few signs is -/

/-- An expression without a disjunction outside parentheses is an alternative. -/
theorem Parsed.later_of_flat (hname : ProperNames isName) (h : Parsed isName val .expr s b)
    (hflat : Flat (inPiece 0x7c) 0 s) : Parsed isName val .later s b := by
  cases h with
  | exprAtom hs => exact .laterAtom hs
  | @exprChain junk t _ hjunk hs =>
    obtain ⟨hall, -⟩ := (flat_junk (skipped_of_isJunk hjunk)).mp hflat
    refine .laterChain (fun c hc => ?_) hs
    have hin := hall c hc
    have hk := skipped_of_isJunk hjunk c hc
    cases hkind : kind c <;> simp_all [inPiece, Kind.skipped]
    exact eq_of_kind_eq (.inl rfl) hkind
  | @exprAlt junk t _ hjunk hs =>
    obtain ⟨-, hflat⟩ := (flat_junk (skipped_of_isJunk hjunk)).mp hflat
    cases hs with
    | @alt first rest hmore _ hall =>
      have hpieces : ∀ p ∈ (first :: rest).map fst, Flat later.allows 0 p :=
        forall_map_fst fun p hp => (hall p hp).flat hname
      have hop := (flat_pieces (.inr rfl) hpieces hflat).2 (by simpa using hmore)
      simp [inPiece] at hop

/-- Without any operator outside parentheses it is an atom. -/
theorem Parsed.atom_of_flat (hname : ProperNames isName) (h : Parsed isName val .expr s b)
    (hflat : Flat (fun k => inPiece 0x26 k && inPiece 0x7c k) 0 s) :
    Parsed isName val .atom s b := by
  have hlater := h.later_of_flat hname
    (hflat.mono fun k hk => ((Bool.and_eq_true _ _).mp hk).2)
  cases hlater with
  | laterAtom hs => exact hs
  | @laterChain amps t _ hamps hs =>
    have hskip : ∀ c ∈ amps, (kind c).skipped = true := fun c hc => by rw [hamps c hc]; rfl
    obtain ⟨-, hflat⟩ := (flat_junk hskip).mp hflat
    cases hs with
    | @chain first rest hmore hall =>
      have hpieces : ∀ p ∈ (first :: rest).map fst, Flat atom.allows 0 p :=
        forall_map_fst fun p hp => (hall p hp).flat hname
      have hop := (flat_pieces (.inl rfl) hpieces hflat).2 (by simpa using hmore)
      simp [inPiece] at hop

end

/-! ## One call of the evaluator -/

/-- The values of the pieces, in order. -/
def Values (valuation : Bytes → Option Bool) (fuel : Nat) (pieces : List Bytes)
    (values : List (Bytes × Bool)) : Prop :=
  values.map fst = pieces ∧ ∀ p ∈ values, resolve valuation fuel p.1 = .ok p.2

section
variable {valuation : Bytes → Option Bool} {fuel : Nat} {source : Bytes} {b : Bool}

theorem foldlM_eq_ok_iff (op : Bool → Bool → Bool) (pieces : List Bytes) (start : Bool) :
    pieces.foldlM (fun r e => do return op (← resolve valuation fuel e) r) start = .ok b ↔
      ∃ values, Values valuation fuel pieces values ∧
        b = values.foldl (fun r p => op p.2 r) start := by
  induction pieces generalizing start with
  | nil =>
    constructor
    · intro h
      refine ⟨[], ⟨rfl, fun p hp => nomatch hp⟩, ?_⟩
      cases h
      rfl
    · rintro ⟨values, ⟨hmap, -⟩, rfl⟩
      obtain rfl : values = [] := by simpa using hmap
      rfl
  | cons e pieces ih =>
    rw [foldlM_cons, bind_eq_ok]
    constructor
    · rintro ⟨r, hr, h⟩
      obtain ⟨v, he, hr⟩ := bind_eq_ok.mp hr
      obtain rfl := Except.ok.inj hr
      obtain ⟨values, ⟨hmap, hall⟩, rfl⟩ := (ih _).mp h
      exact ⟨(e, v) :: values, ⟨by rw [map_cons, hmap], forall_mem_cons.mpr ⟨he, hall⟩⟩, rfl⟩
    · rintro ⟨values, ⟨hmap, hall⟩, rfl⟩
      cases values with
      | nil => cases hmap
      | cons p values =>
        obtain ⟨rfl, htail⟩ := List.cons.inj hmap
        obtain ⟨hp, hall⟩ := forall_mem_cons.mp hall
        exact ⟨op p.2 start, by rw [hp]; rfl, (ih _).mpr ⟨values, ⟨htail, hall⟩, rfl⟩⟩

theorem foldl_or (values : List (Bytes × Bool)) (start : Bool) :
    values.foldl (fun r p => p.2 || r) start = (start || values.any snd) := by
  induction values generalizing start with
  | nil => simp
  | cons p values ih =>
    rw [foldl_cons, ih, any_cons]
    cases p.2 <;> cases start <;> rfl

theorem foldl_and (values : List (Bytes × Bool)) (start : Bool) :
    values.foldl (fun r p => p.2 && r) start = (start && values.all snd) := by
  induction values generalizing start with
  | nil => simp
  | cons p values ih =>
    rw [foldl_cons, ih, all_cons]
    cases p.2 <;> cases start <;> rfl

theorem singleParse_eq_ok_iff (hop : kind op = .conj ∨ kind op = .disj) {formula : Bytes} :
    singleParse formula op = .ok l ↔ cut op formula = some l := by
  rw [← singleParse_toOption hop]
  cases singleParse formula op <;> simp [Except.toOption]

section

variable (hspace : NoSpace source)
include hspace

theorem resolve_of_cut (hne : source ≠ []) (hor : cut 0x7c source = some (first :: rest)) :
    resolve valuation (fuel + 1) source =
      if rest ≠ [] then
        (first :: rest).foldlM (fun r e => do return (← resolve valuation fuel e) || r) false
      else
        singleParse source 0x26 >>= fun pieces =>
          match pieces with
          | [] => .error ("The subexpression " ++ text source ++ " is not a valid formula.")
          | [_] => operand valuation (resolve valuation fuel) source
          | _ => pieces.foldlM (fun r e => do return (← resolve valuation fuel e) && r) true := by
  rw [← singleParse_eq_ok_iff (.inr rfl)] at hor
  have hnot : source.isEmpty = false := isEmpty_eq_false_iff.mpr hne
  cases rest with
  | nil =>
    simp only [resolve, removeWhitespaces_of_noSpace hspace, hor, hnot]
    rfl
  | cons next others =>
    simp only [resolve, removeWhitespaces_of_noSpace hspace, hor, hnot]
    rfl

theorem resolve_alt_iff (hne : source ≠ [])
    (hor : cut 0x7c source = some (first :: rest)) (hmore : rest ≠ []) :
    resolve valuation (fuel + 1) source = .ok b ↔
      ∃ values, Values valuation fuel (first :: rest) values ∧ b = values.any snd := by
  rw [resolve_of_cut hspace hne hor, if_pos hmore, foldlM_eq_ok_iff (· || ·)]
  simp only [foldl_or, Bool.false_or]

theorem resolve_chain_iff (hne : source ≠ [])
    (hor : cut 0x7c source = some [x]) (hand : cut 0x26 source = some (first :: rest))
    (hmore : rest ≠ []) :
    resolve valuation (fuel + 1) source = .ok b ↔
      ∃ values, Values valuation fuel (first :: rest) values ∧ b = values.all snd := by
  rw [← singleParse_eq_ok_iff (.inl rfl)] at hand
  rw [resolve_of_cut hspace hne hor, if_neg (by simp), hand]
  cases rest with
  | nil => exact absurd rfl hmore
  | cons next others =>
    refine (foldlM_eq_ok_iff (· && ·) _ _).trans ?_
    simp only [foldl_and, Bool.true_and]

theorem resolve_operand {y : Bytes} (hne : source ≠ [])
    (hor : cut 0x7c source = some [x]) (hand : cut 0x26 source = some [y]) :
    resolve valuation (fuel + 1) source = operand valuation (resolve valuation fuel) source := by
  rw [← singleParse_eq_ok_iff (.inl rfl)] at hand
  rw [resolve_of_cut hspace hne hor, if_neg (by simp), hand]
  rfl

/-- A call that returns found an operand, for both operators if it found no `|`. -/
theorem cut_of_resolve (h : resolve valuation (fuel + 1) source = .ok b) :
    source ≠ [] ∧ ∃ first rest, cut 0x7c source = some (first :: rest) ∧
      (rest = [] → ∃ first rest, cut 0x26 source = some (first :: rest)) := by
  have hne : source ≠ [] := by
    rintro rfl
    cases h
  refine ⟨hne, ?_⟩
  have hnot : source.isEmpty = false := isEmpty_eq_false_iff.mpr hne
  cases hor : singleParse source 0x7c with
  | error e =>
    simp only [resolve, removeWhitespaces_of_noSpace hspace, hor, hnot] at h
    cases h
  | ok pieces =>
    cases pieces with
    | nil =>
      simp only [resolve, removeWhitespaces_of_noSpace hspace, hor, hnot] at h
      cases h
    | cons first rest =>
      rw [singleParse_eq_ok_iff (.inr rfl)] at hor
      refine ⟨first, rest, hor, fun hrest => ?_⟩
      rw [resolve_of_cut hspace hne hor, if_neg (by simpa using hrest)] at h
      obtain ⟨pieces, hand, h⟩ := bind_eq_ok.mp h
      rw [singleParse_eq_ok_iff (.inl rfl)] at hand
      cases pieces with
      | nil => cases h
      | cons first rest => exact ⟨first, rest, hand⟩

end

end

/-! ## What the evaluator accepts is of the grammar -/

/-- What a valuation knows: the constants and its own names. -/
def Known (valuation : Bytes → Option Bool) (n : Bytes) : Prop :=
  n = str "1" ∨ n = str "0" ∨ (valuation n).isSome = true

def valueOf (valuation : Bytes → Option Bool) (n : Bytes) : Bool :=
  if n = str "1" then true else if n = str "0" then false else (valuation n).getD false

section
variable {valuation : Bytes → Option Bool} {fuel : Nat} {source : Bytes} {b : Bool} {d : Int}
  {body p : Bytes}

theorem cut_split (h : cut op source = some (first :: rest)) :
    ∃ d body, skip 0 source = (d, body) ∧ body ≠ [] ∧
      pieces op d body = some (first, rest) := by
  unfold cut at h
  split at h
  · split at h
    · cases h
    · cases h
  · next d c cs hskip =>
      rw [Option.map_eq_some_iff] at h
      obtain ⟨⟨f, r⟩, hp, heq⟩ := h
      obtain ⟨rfl, rfl⟩ := List.cons.inj heq
      exact ⟨d, c :: cs, hskip, cons_ne_nil _ _, hp⟩

theorem cut_of_skip (hskip : skip 0 source = (d, body)) (hne : body ≠ [])
    (hp : pieces op d body = some (first, rest)) : cut op source = some (first :: rest) := by
  cases body with
  | nil => exact absurd rfl hne
  | cons c cs =>
    unfold cut
    rw [hskip]
    simp only [hp, Option.map_some]

/-- A piece with what stands around it, which is something if there are two pieces. -/
theorem exists_around (op : UInt8) (hp : p ∈ l) :
    ∃ u v, [op].intercalate l = u ++ (p ++ v) ∧ (1 < l.length → 0 < u.length + v.length) := by
  induction l with
  | nil => cases hp
  | cons first rest ih =>
    cases rest with
    | nil =>
      obtain rfl : p = first := by simpa using hp
      exact ⟨[], [], by simp, fun h => absurd h (by simp)⟩
    | cons next others =>
      rw [intercalate_cons_cons, append_assoc]
      rcases mem_cons.mp hp with rfl | hp
      · exact ⟨[], _, rfl, fun _ => by simp⟩
      · obtain ⟨u, v, heq, -⟩ := ih hp
        exact ⟨first ++ ([op] ++ u), v, by simp [heq], fun _ => by simp⟩

theorem mem_intercalate (hp : p ∈ l) (hc : c ∈ p) : c ∈ [op].intercalate l := by
  obtain ⟨u, v, heq, -⟩ := exists_around op hp
  simp [heq, hc]

/-- When the pieces are balanced, the cut started outside parentheses. -/
theorem pieces_balanced (hop : kind op = .conj ∨ kind op = .disj)
    (hp : pieces op d body = some (first, rest)) (hflat : ∀ p ∈ first :: rest, Flat ok 0 p) :
    d = 0 ∧ ∀ p ∈ first :: rest, Flat (inPiece op) 0 p := by
  obtain ⟨hfirst, hrest⟩ := pieces_runs hop hp
  have hd : d = 0 := by
    have hend := (hflat first (by simp)).runs_end hfirst
    omega
  subst hd
  refine ⟨rfl, fun p hmem => ?_⟩
  rcases mem_cons.mp hmem with rfl | hmem
  · exact (hflat p (by simp)).of_runs hfirst
  · exact (hflat p (mem_cons_of_mem _ hmem)).of_runs (hrest p hmem)

theorem isJunk_of_skipped (hspace : NoSpace (pre ++ source))
    (hpre : ∀ c ∈ pre, (kind c).skipped = true) : ∀ c ∈ pre, isJunk c = true := by
  intro c hc
  rw [isJunk, Bool.and_eq_true, hpre c hc, hspace c (mem_append_left _ hc)]
  exact ⟨rfl, rfl⟩

theorem operand_paren (inner : Bytes) (last : UInt8) :
    operand valuation (resolve valuation fuel) (0x28 :: (inner ++ [last])) =
      resolve valuation fuel inner := by
  have hsub : substr (0x28 :: (inner ++ [last])) 1
      ((0x28 :: (inner ++ [last])).length - 2) = inner := by
    simp [substr]
  rw [operand, if_neg (by simp), if_pos (by simp), hsub]

theorem operand_eq_ok_iff (source : Bytes) (hbang : source.headD 0 ≠ 0x21)
    (hopen : source.headD 0 ≠ 0x28) :
    operand valuation (resolve valuation fuel) source = .ok b ↔
      Known valuation source ∧ valueOf valuation source = b := by
  rw [operand, if_neg hbang, if_neg hopen]
  unfold Known valueOf
  by_cases hone : source = str "1"
  · simp [hone, pure_eq_ok]
  · by_cases hzero : source = str "0"
    · have hne : str "0" ≠ str "1" := by decide
      simp [hzero, hne, pure_eq_ok]
    · rw [if_neg hone, if_neg hzero, require_eq_ok]
      cases valuation source <;> simp [hone, hzero]

theorem pieces_starts (hop : kind op = .conj ∨ kind op = .disj)
    (hp : pieces op d body = some (first, rest)) (hstart : startsOperand body = true) :
    startsOperand first = true := by
  cases body with
  | nil => cases hstart
  | cons c cs =>
    rcases pieces_cons hop hp with ⟨e, tail, -, rfl, -⟩ | ⟨-, rfl, -⟩
    · exact hstart
    · rcases hop with hop | hop <;> simp [startsOperand, hop, Kind.starts] at hstart

theorem skip_of_starts (h : startsOperand source = true) : skip 0 source = (0, source) :=
  skip_append (j := []) (fun _ hc => nomatch hc) h

/-- The count over a string that is one piece from its first character on. -/
theorem runs_of_cut_single (hop : kind op = .conj ∨ kind op = .disj)
    (hstart : startsOperand source = true) (h : cut op source = some [x]) :
    Runs (inPiece op) 0 source 0 := by
  obtain ⟨d, body, hskip, -, hp⟩ := cut_split h
  rw [skip_of_starts hstart] at hskip
  obtain ⟨rfl, rfl⟩ := mk.inj hskip
  have hjoin := pieces_join hop hp
  rw [intercalate_singleton] at hjoin
  rw [← hjoin]
  exact (pieces_runs hop hp).1

theorem closing_of_runs (hd : d = 1) (h : Runs ok d [c] 0) : c = 0x29 := by
  have hend : d + (kind c).move = 0 := ((runs_cons ..).mp h).2
  have hspec := kind_spec c
  cases hk : kind c <;> simp_all [Kind.move]

/-- Derived from the names that have a value, with the value they give. -/
abbrev ParsedIn (valuation : Bytes → Option Bool) : Form → Bytes → Bool → Prop :=
  Parsed (Known valuation) (valueOf valuation)

section Sound

variable (hname : ProperNames (Known valuation))
  (ih : ∀ {t : Bytes} {v : Bool}, NoSpace t → resolve valuation fuel t = .ok v →
    ParsedIn valuation .expr t v)

include ih

section Pieces

variable {values : List (Bytes × Bool)} (hvalues : Values valuation fuel (first :: rest) values)

include hvalues

theorem parsed_pieces (hspace : NoSpace body) (hop : kind op = .conj ∨ kind op = .disj)
    (hp : pieces op d body = some (first, rest)) :
    ∀ p ∈ values, ParsedIn valuation .expr p.1 p.2 := by
  intro p hmem
  refine ih (fun c hc => hspace c ?_) (hvalues.2 p hmem)
  rw [← pieces_join hop hp, ← hvalues.1]
  exact mem_intercalate (mem_map_of_mem hmem) hc

include hname

/-- What a call with several pieces has read: signs that it passed over, then the pieces. -/
theorem parsed_split (hspace : NoSpace source) (hskip : skip 0 source = (d, body))
    (hop : kind op = .conj ∨ kind op = .disj) (hp : pieces op d body = some (first, rest)) :
    d = 0 ∧ ∃ pre, source = pre ++ [op].intercalate (values.map fst) ∧ (∀ c ∈ pre, isJunk c = true) ∧
      ∀ p ∈ values, ParsedIn valuation .expr p.1 p.2 ∧
        Flat expr.allows 0 p.1 ∧ Flat (inPiece op) 0 p.1 := by
  obtain ⟨pre, rfl, -, hjunk, -⟩ := skip_split hskip
  have hexpr := parsed_pieces ih hvalues (fun c hc => hspace c (mem_append_right _ hc)) hop hp
  have hflat : ∀ p ∈ values.map fst, Flat expr.allows 0 p :=
    forall_map_fst fun p hmem => (hexpr p hmem).flat hname
  rw [hvalues.1] at hflat
  obtain ⟨rfl, hpiece⟩ := pieces_balanced hop hp hflat
  rw [← hvalues.1] at hflat hpiece
  refine ⟨rfl, pre, by rw [hvalues.1, pieces_join hop hp],
    isJunk_of_skipped hspace (hjunk rfl rfl), fun p hmem => ?_⟩
  have hin := mem_map_of_mem (f := fst) hmem
  exact ⟨hexpr p hmem, hflat _ hin, hpiece _ hin⟩

theorem parsed_alt (hspace : NoSpace source) (hskip : skip 0 source = (d, body)) (hne : body ≠ [])
    (hp : pieces 0x7c d body = some (first, rest)) (hmore : rest ≠ []) :
    ParsedIn valuation .expr source (values.any snd) := by
  obtain ⟨-, pre, rfl, hjunk, hparts⟩ :=
    parsed_split hname ih hvalues hspace hskip (.inr rfl) hp
  have hlater : ∀ p ∈ values, ParsedIn valuation .later p.1 p.2 :=
    fun p hmem => (hparts p hmem).1.later_of_flat hname (hparts p hmem).2.2
  obtain ⟨-, -, -, -, hstart⟩ := skip_split hskip
  obtain ⟨hmap, -⟩ := hvalues
  cases values with
  | nil => cases hmap
  | cons v values =>
    obtain ⟨hfirst, hrest⟩ := List.cons.inj hmap
    refine .exprAlt hjunk (.alt ?_ ?_ hlater)
    · rintro rfl
      exact hmore hrest.symm
    · rw [hfirst]
      exact pieces_starts (.inr rfl) hp (hstart hne)

theorem parsed_chain (hspace : NoSpace source) (hskip : skip 0 source = (d, body))
    (hor : pieces 0x7c d body = some (x, [])) (hp : pieces 0x26 d body = some (first, rest))
    (hmore : rest ≠ []) : ParsedIn valuation .expr source (values.all snd) := by
  have hjoin := pieces_join (.inl rfl) hp
  obtain ⟨rfl, pre, rfl, hjunk, hparts⟩ :=
    parsed_split hname ih hvalues hspace hskip (.inl rfl) hp
  obtain ⟨hmap, -⟩ := hvalues
  cases values with
  | nil => cases hmap
  | cons v values =>
    -- no `|` stands outside parentheses either, so the pieces are atoms
    have hflat : ∀ p ∈ (v :: values).map fst, Flat expr.allows 0 p :=
      forall_map_fst fun p hmem => (hparts p hmem).2.1
    have hnoOr : Flat (inPiece 0x7c) 0 ([0x26].intercalate ((v :: values).map fst)) := by
      obtain rfl : x = body := by simpa using pieces_join (.inr rfl) hor
      have hwhole : Flat expr.allows 0 ([0x26].intercalate ((v :: values).map fst)) :=
        intercalate_rec (flat_join (.inl rfl) rfl) hflat
      rw [hmap, hjoin] at hwhole ⊢
      exact hwhole.of_runs (pieces_runs (.inr rfl) hor).1
    have hwithout := (flat_pieces (.inl rfl) hflat hnoOr).1
    refine .exprChain hjunk (.chain ?_ fun p hmem => ?_)
    · rintro rfl
      exact hmore (List.cons.inj hmap).2.symm
    · obtain ⟨hexpr, -, hpiece⟩ := hparts p hmem
      exact hexpr.atom_of_flat hname (hpiece.both (hwithout _ (mem_map_of_mem hmem)))

end Pieces

include hname in
/-- A string without operators starts its first operand at its first character when that is a
negation or a parenthesis. -/
theorem parsed_operand {y : Bytes} (hspace : NoSpace source) (hor : cut 0x7c source = some [x])
    (hand : cut 0x26 source = some [y])
    (h : operand valuation (resolve valuation fuel) source = .ok b) :
    ParsedIn valuation .atom source b := by
  cases source with
  | nil =>
    simp [cut, skip] at hor
  | cons c rest =>
    by_cases hbang : c = 0x21
    · subst hbang
      have hdrop : operand valuation (resolve valuation fuel) (0x21 :: rest) =
          resolve valuation fuel rest >>= fun v => pure !v := rfl
      rw [hdrop] at h
      obtain ⟨v, hv, hb⟩ := bind_eq_ok.mp h
      obtain rfl : (!v) = b := Except.ok.inj hb
      have hexpr := ih (fun c hc => hspace c (mem_cons_of_mem _ hc)) hv
      have hrunOr := (runs_cons ..).mp (runs_of_cut_single (.inr rfl) rfl hor)
      have hrunAnd := (runs_cons ..).mp (runs_of_cut_single (.inl rfl) rfl hand)
      have hflat := hexpr.flat hname
      exact .not (hexpr.atom_of_flat hname
        ((hflat.of_runs hrunAnd.2).both (hflat.of_runs hrunOr.2)))
    · by_cases hopen : c = 0x28
      · subst hopen
        have hrun : Runs (inPiece 0x7c) 1 rest 0 :=
          ((runs_cons ..).mp (runs_of_cut_single (.inr rfl) rfl hor)).2
        obtain ⟨inner, last, rfl⟩ : ∃ inner last, rest = inner ++ [last] := by
          rcases eq_nil_or_concat rest with rfl | ⟨inner, last, hrest⟩
          · cases hrun
          · exact ⟨inner, last, by rw [hrest, concat_eq_append]⟩
        rw [operand_paren] at h
        have hexpr := ih (fun c hc => hspace c (mem_cons_of_mem _
          (mem_append_left _ hc))) h
        -- the count is 1 behind the inner string, so the last character closes
        obtain ⟨m, hleft, hright⟩ := hrun.split
        have hm := (hexpr.flat hname).runs_end hleft
        obtain rfl := closing_of_runs (by omega) hright
        exact .paren hexpr
      · obtain ⟨hknown, rfl⟩ := (operand_eq_ok_iff (c :: rest) hbang hopen).mp h
        exact .name hknown

end Sound

/-- What the evaluator returns a value for is of the grammar, with that value. -/
theorem parsed_of_resolve (hname : ProperNames (Known valuation)) (hspace : NoSpace source)
    (h : resolve valuation fuel source = .ok b) :
    ParsedIn valuation .expr source b := by
  induction fuel generalizing source b with
  | zero => cases h
  | succ fuel ih =>
    obtain ⟨hne, first, rest, hor, hand⟩ := cut_of_resolve hspace h
    obtain ⟨d, body, hskip, hbody, hp⟩ := cut_split hor
    by_cases hrest : rest = []
    · subst hrest
      obtain ⟨y, others, hand⟩ := hand rfl
      obtain ⟨d', body', hskip', -, hpAnd⟩ := cut_split hand
      rw [hskip] at hskip'
      obtain ⟨rfl, rfl⟩ := mk.inj hskip'
      by_cases hothers : others = []
      · subst hothers
        rw [resolve_operand hspace hne hor hand] at h
        exact .exprAtom (parsed_operand hname ih hspace hor hand h)
      · obtain ⟨values, hvalues, rfl⟩ := (resolve_chain_iff hspace hne hor hand hothers).mp h
        exact parsed_chain hname ih hvalues hspace hskip hp hpAnd hothers
    · obtain ⟨values, hvalues, rfl⟩ := (resolve_alt_iff hspace hne hor hrest).mp h
      exact parsed_alt hname ih hvalues hspace hskip hbody hp hrest

/-! ## The evaluator accepts the grammar -/

section

variable (hop : kind op = .conj ∨ kind op = .disj)
include hop

theorem cut_junk {j f : Bytes} {r : List Bytes}
    (hjunk : ∀ c ∈ j, isJunk c = true) (hstart : startsOperand ([op].intercalate (f :: r)) = true)
    (hall : ∀ p ∈ f :: r, Flat (inPiece op) 0 p) :
    cut op (j ++ [op].intercalate (f :: r)) = some (f :: r) := by
  have hskip := skip_append (skipped_of_isJunk hjunk) hstart
  refine cut_of_skip hskip ?_ (pieces_intercalate hop hall)
  intro hnil
  rw [hnil] at hstart
  cases hstart

theorem cut_single {j : Bytes} (hjunk : ∀ c ∈ j, isJunk c = true) (hstart : startsOperand s = true)
    (hflat : Flat (inPiece op) 0 s) : cut op (j ++ s) = some [s] := by
  have hone : [op].intercalate [s] = s := intercalate_singleton
  have hcut := cut_junk (f := s) (r := []) hop hjunk (by rw [hone]; exact hstart)
    (fun p hp => by obtain rfl := mem_singleton.mp hp; exact hflat)
  rwa [hone] at hcut

theorem inPiece_of_atom (k : Kind) (h : atom.allows k = true) : inPiece op k = true := by
  rcases hop with hop | hop <;> cases k <;> simp_all [allows, inPiece]

end

theorem inPiece_of_later (k : Kind) (h : later.allows k = true) : inPiece 0x7c k = true := by
  cases k <;> simp_all [allows, inPiece]

theorem append_ne_nil_of_starts (h : startsOperand s = true) : pre ++ s ≠ [] := by
  cases s with
  | nil => cases h
  | cons c s => simp

theorem resolve_atom (hname : ProperNames (Known valuation))
    (h : ParsedIn valuation .atom source b) :
    resolve valuation (fuel + 1) source = operand valuation (resolve valuation fuel) source := by
  have hstart := h.starts hname (.inl rfl)
  have hne : source ≠ [] := by
    rintro rfl
    cases hstart
  have hflat := h.flat hname
  have hcut {op : UInt8} (hop : kind op = .conj ∨ kind op = .disj) :
      cut op source = some [source] :=
    cut_single (j := []) hop (fun _ hc => nomatch hc) hstart (hflat.mono (inPiece_of_atom hop))
  exact resolve_operand (h.noSpace hname) hne (hcut (.inr rfl)) (hcut (.inl rfl))

theorem length_lt_intercalate {o : UInt8} (hmore : rest ≠ []) (hp : p ∈ first :: rest) :
    p.length < ([o].intercalate (first :: rest)).length := by
  obtain ⟨u, v, heq, hpos⟩ := exists_around o hp
  have hrest := length_pos_of_ne_nil hmore
  have haround := hpos (by rw [length_cons]; omega)
  simp only [heq, length_append]
  omega

theorem values_of_shorter {o : UInt8} {first : Bytes × Bool} {rest : List (Bytes × Bool)}
    {noisy : Bool} (hmore : rest.map fst ≠ [])
    (ih : ∀ p ∈ first :: rest, ∀ {j : Bytes} {fuel : Nat}, (∀ c ∈ j, isJunk c = true) →
      (noisy = false → j = []) → (j ++ p.1).length < fuel →
      resolve valuation fuel (j ++ p.1) = .ok p.2)
    (hlen : ([o].intercalate ((first :: rest).map fst)).length ≤ fuel) :
    Values valuation fuel ((first :: rest).map fst) (first :: rest) := by
  refine ⟨rfl, fun p hp => ih p hp (j := []) nofun (fun _ => rfl) ?_⟩
  exact (length_lt_intercalate hmore (mem_map_of_mem (f := fst) hp)).trans_le hlen

/-- The evaluator returns the value of every string of the grammar. -/
theorem resolve_of_parsed (hname : ProperNames (Known valuation)) {form : Form}
    (h : ParsedIn valuation form source b) :
    ∀ {j : Bytes} {fuel : Nat}, (∀ c ∈ j, isJunk c = true) →
      (form.noisy = false → j = []) → (j ++ source).length < fuel →
      resolve valuation fuel (j ++ source) = .ok b := by
  induction h with
  | @name n hn =>
    intro junk fuel _ hquiet hlen
    obtain rfl := hquiet rfl
    obtain ⟨hne, hall⟩ := hname n hn
    cases n with
    | nil => exact absurd rfl hne
    | cons c n =>
      have hc := kind_of_isNameChar (hall c (by simp))
      have hbang : c ≠ 0x21 := by
        rintro rfl
        cases hc
      have hopen : c ≠ 0x28 := by
        rintro rfl
        cases hc
      obtain ⟨fuel, rfl⟩ := Nat.exists_eq_add_one_of_ne_zero (Nat.ne_zero_of_lt hlen)
      rw [nil_append, resolve_atom hname (.name hn)]
      exact (operand_eq_ok_iff (c :: n) hbang hopen).mpr ⟨hn, rfl⟩
  | @not s v hs ih =>
    intro junk fuel _ hquiet hlen
    obtain rfl := hquiet rfl
    obtain ⟨fuel, rfl⟩ := Nat.exists_eq_add_one_of_ne_zero (Nat.ne_zero_of_lt hlen)
    rw [nil_append] at hlen ⊢
    rw [length_cons] at hlen
    have hinner : resolve valuation fuel s = .ok v :=
      ih (j := []) nofun (fun _ => rfl) (by simpa using hlen)
    have hdrop : operand valuation (resolve valuation fuel) (0x21 :: s) =
        resolve valuation fuel s >>= fun v => pure !v := rfl
    rw [resolve_atom hname (.not hs), hdrop, hinner]
    rfl
  | @paren s v hs ih =>
    intro junk fuel _ hquiet hlen
    obtain rfl := hquiet rfl
    obtain ⟨fuel, rfl⟩ := Nat.exists_eq_add_one_of_ne_zero (Nat.ne_zero_of_lt hlen)
    rw [nil_append] at hlen ⊢
    rw [length_cons, length_append, length_singleton] at hlen
    have hinner : resolve valuation fuel s = .ok v :=
      ih (j := []) nofun (fun _ => rfl) (by rw [nil_append]; omega)
    rw [resolve_atom hname (.paren hs), operand_paren, hinner]
  | @chain first rest hmore hall ih =>
    intro junk fuel hjunk _ hlen
    have hwhole := Parsed.chain hmore hall
    have hstart := hwhole.starts hname (.inr rfl)
    have hspace := (Parsed.exprChain hjunk hwhole).noSpace hname
    have hor := cut_single (.inr rfl) hjunk hstart ((hwhole.flat hname).mono inPiece_of_later)
    have hand := cut_junk (.inl rfl) hjunk hstart (forall_map_fst (l := first :: rest)
      fun p hp => ((hall p hp).flat hname).mono (inPiece_of_atom (.inl rfl)))
    have hrest : rest.map fst ≠ [] := by simpa using hmore
    obtain ⟨fuel, rfl⟩ := Nat.exists_eq_add_one_of_ne_zero (Nat.ne_zero_of_lt hlen)
    exact (resolve_chain_iff hspace (append_ne_nil_of_starts hstart) hor hand hrest).mpr
      ⟨first :: rest, values_of_shorter (o := 0x26) hrest ih
        (by rw [length_append] at hlen; omega), rfl⟩
  | laterAtom hs ih | exprAtom hs ih =>
    intro junk fuel hjunk hquiet hlen
    exact ih hjunk (fun _ => hquiet rfl) hlen
  | laterChain hamps hs ih =>
    intro junk fuel _ hquiet hlen
    obtain rfl := hquiet rfl
    refine ih (fun c hc => ?_) nofun hlen
    rw [hamps c hc]
    decide
  | @alt first rest hmore hstart hall ih =>
    intro junk fuel hjunk _ hlen
    have hwhole := Parsed.alt hmore hstart hall
    have hwholeStart := hwhole.starts hname (.inr rfl)
    have hspace := (Parsed.exprAlt hjunk hwhole).noSpace hname
    have hor := cut_junk (.inr rfl) hjunk hwholeStart (forall_map_fst (l := first :: rest)
      fun p hp => ((hall p hp).flat hname).mono inPiece_of_later)
    have hrest : rest.map fst ≠ [] := by simpa using hmore
    obtain ⟨fuel, rfl⟩ := Nat.exists_eq_add_one_of_ne_zero (Nat.ne_zero_of_lt hlen)
    exact (resolve_alt_iff hspace (append_ne_nil_of_starts hwholeStart) hor hrest).mpr
      ⟨first :: rest, values_of_shorter (o := 0x7c) hrest ih
        (by rw [length_append] at hlen; omega), rfl⟩
  | exprChain hall hs ih | exprAlt hall hs ih =>
    intro junk fuel _ hquiet hlen
    obtain rfl := hquiet rfl
    exact ih hall nofun hlen

end

end LibBoolEE

end HnbCore
