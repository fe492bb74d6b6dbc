import HnbCore.Verifier

/-!
# How the boolean evaluator cuts a string

`singleParse` walks a string with a parenthesis count, looks for the first character an operand can
start with and cuts what follows at the operator given. Here the loop is restated as a recursion
over the string, and what a cut says about the pieces is derived from that.
-/

namespace HnbCore

open List Option

namespace LibBoolEE

open Checks

variable {c : UInt8} {e : Int} {n : Nat}

/-- What a character is to the evaluator. -/
inductive Kind
  | word
  | bang
  | opening
  | closing
  | conj
  | disj
  | stray
  deriving DecidableEq

open Kind

def kind (c : UInt8) : Kind :=
  if c = 0x29 then .closing
  else if c = 0x28 then .opening
  else if c = 0x21 then .bang
  else if c = 0x26 then .conj
  else if c = 0x7c then .disj
  else if belongsToName c then .word
  else .stray

/-- An operand starts with a name, a negation or a parenthesis. -/
def Kind.starts : Kind → Bool
  | .word | .bang | .opening => true
  | _ => false

/-- The characters passed over in front of the first operand. -/
def Kind.skipped : Kind → Bool
  | .conj | .disj | .stray => true
  | _ => false

/-- How a character moves the parenthesis count. -/
def Kind.move : Kind → Int
  | .closing => -1
  | .opening => 1
  | _ => 0

/-- A parenthesis starts an operand everywhere, a name or a negation outside parentheses. -/
def Kind.startsAt (d : Int) (k : Kind) : Bool := k.starts && (k = .opening || d = 0)

@[simp] theorem kind_closing : kind 0x29 = .closing := rfl
@[simp] theorem kind_opening : kind 0x28 = .opening := rfl
@[simp] theorem kind_bang : kind 0x21 = .bang := rfl
@[simp] theorem kind_conj : kind 0x26 = .conj := rfl
@[simp] theorem kind_disj : kind 0x7c = .disj := rfl

theorem kind_spec (c : UInt8) :
    match kind c with
    | .closing => c = 0x29
    | .opening => c = 0x28
    | .bang => c = 0x21
    | .conj => c = 0x26
    | .disj => c = 0x7c
    | .word => belongsToName c = true ∧ c ≠ 0x29 ∧ c ≠ 0x28
    | .stray => belongsToName c = false ∧ ∀ x ∈ [0x29, 0x28, 0x21, 0x26, 0x7c], c ≠ x := by
  unfold kind
  grind

theorem eq_of_kind_eq {op : UInt8} (hop : kind op = .conj ∨ kind op = .disj)
    (h : kind c = kind op) : c = op := by
  have hc := kind_spec c
  have ho := kind_spec op
  rcases hop with hk | hk <;> rw [hk] at ho h <;> rw [h] at hc <;> exact hc.trans ho.symm

theorem kind_of_belongsToName (h : belongsToName c = true) : kind c = .word := by
  have hnot : c ≠ 0x29 ∧ c ≠ 0x28 ∧ c ≠ 0x21 ∧ c ≠ 0x26 ∧ c ≠ 0x7c := by
    refine ⟨?_, ?_, ?_, ?_, ?_⟩ <;> (rintro rfl; exact absurd h (by decide))
  obtain ⟨h1, h2, h3, h4, h5⟩ := hnot
  simp [kind, h1, h2, h3, h4, h5, h]

/-- The pieces of a string cut at the operator wherever no parenthesis is open; a sign that is no
operator is refused there, and so is an unbalanced end. -/
def pieces (op : UInt8) : Int → Bytes → Option (Bytes × List Bytes)
  | d, [] => if d = 0 then some ([], []) else none
  | d, c :: cs =>
      let keep (p : Bytes × List Bytes) : Bytes × List Bytes := (c :: p.1, p.2)
      match kind c with
      | .closing => (pieces op (d - 1) cs).map keep
      | .opening => (pieces op (d + 1) cs).map keep
      | .word | .bang => (pieces op d cs).map keep
      | .conj | .disj =>
          if d = 0 ∧ c = op then (pieces op d cs).map fun p => ([], p.1 :: p.2)
          else (pieces op d cs).map keep
      | .stray => if d = 0 then none else (pieces op d cs).map keep

/-- Where the first operand starts: the parenthesis count there, and the string from there on. -/
def skip : Int → Bytes → Int × Bytes
  | d, [] => (d, [])
  | d, c :: cs =>
      match kind c with
      | .closing => skip (d - 1) cs
      | .opening => (d, c :: cs)
      | .word | .bang => if d = 0 then (d, c :: cs) else skip d cs
      | _ => skip d cs

/-- The pieces found from the first operand on. -/
def cut (op : UInt8) (formula : Bytes) : Option (List Bytes) :=
  match skip 0 formula with
  | (d, []) => if d = 0 then some [] else none
  | (d, c :: cs) => (pieces op d (c :: cs)).map fun p => p.1 :: p.2

theorem singleParse_eq (formula : Bytes) (op : UInt8) :
    singleParse formula op =
      (formula.zipIdx.foldlM (singleParseStep formula op) ⟨none, 0, []⟩) >>= finish formula :=
  rfl

section
variable {formula cs : Bytes} {op : UInt8} {d : Int} {subs : List Bytes} {i : Nat} {c : UInt8}

theorem skip_nil : skip d [] = (d, []) := rfl

theorem skip_cons :
    skip d (c :: cs) =
      if (kind c).startsAt d then (d, c :: cs) else skip (d + (kind c).move) cs := by
  cases hk : kind c <;> simp [skip, hk, startsAt, starts, move, sub_eq_add_neg]

theorem step_unstarted :
    singleParseStep formula op ⟨none, d, subs⟩ (c, i) =
      .ok ⟨if (kind c).startsAt d then some i else none, d + (kind c).move, subs⟩ := by
  have hspec := kind_spec c
  have hand : belongsToName 0x26 = false := by decide
  have hor : belongsToName 0x7c = false := by decide
  by_cases hd : d = 0 <;> cases hk : kind c <;> rw [hk] at hspec <;>
    simp_all [singleParseStep, move, startsAt, starts, sub_eq_add_neg]

theorem pieces_nil : pieces op d [] = if d = 0 then some ([], []) else none := rfl

variable (hop : kind op = .conj ∨ kind op = .disj)

include hop

/-- Outside parentheses the operator cuts and an unknown sign is refused. -/
theorem pieces_cons_eq :
    pieces op d (c :: cs) =
      if d = 0 ∧ c = op then (pieces op 0 cs).map fun p => ([], p.1 :: p.2)
      else if d = 0 ∧ kind c = .stray then none
      else (pieces op (d + (kind c).move) cs).map fun p => (c :: p.1, p.2) := by
  by_cases hc : c = op
  · subst hc
    rcases hop with hk | hk <;> by_cases hd : d = 0 <;> simp [pieces, hk, hd, move]
  · cases hk : kind c <;> simp [pieces, hk, hc, move, sub_eq_add_neg]

theorem step_started (k : Nat) :
    singleParseStep formula op ⟨some k, d, subs⟩ (c, i) =
      if d = 0 ∧ c = op then .ok ⟨some (i + 1), 0, subs ++ [substr formula k (i - k)]⟩
      else if d = 0 ∧ kind c = .stray then
        .error ("Unknown operator '" ++ text [c] ++ "' in the (sub)expression '" ++
          text formula ++ "'.")
      else .ok ⟨some k, d + (kind c).move, subs⟩ := by
  have hspec := kind_spec c
  have hand : belongsToName 0x26 = false := by decide
  have hor : belongsToName 0x7c = false := by decide
  by_cases hc : op = c
  · subst hc
    rcases hop with hk | hk <;> rw [hk] at hspec <;> by_cases hd : d = 0 <;>
      simp_all [singleParseStep, move]
  · have hc' := Ne.symm hc
    by_cases hd : d = 0 <;> cases hk : kind c <;> rw [hk] at hspec <;>
      simp_all [singleParseStep, move, sub_eq_add_neg]

omit hop in
theorem finish_started {k : Nat} {cur : Bytes} (hcur : formula.drop k = cur) :
    (finish formula ⟨some k, d, subs⟩).toOption =
      if d = 0 then some (subs ++ [cur]) else none := by
  have hall : substr formula k (formula.length - k) = cur := by
    rw [substr, hcur, take_of_length_le]
    rw [← hcur, length_drop]
  by_cases hd : d = 0
  · subst hd
    simp only [finish, hall]
    rfl
  · simp only [finish, hd, hall]
    rfl

/-- From the first operand on the loop cuts as `pieces` does. -/
theorem foldlM_started (rest : Bytes) :
    ∀ {done cur : Bytes} {k : Nat} {d : Int} {subs : List Bytes}, formula = done ++ rest →
      done.drop k = cur → k + cur.length = done.length →
      ((rest.zipIdx done.length).foldlM (singleParseStep formula op) ⟨some k, d, subs⟩ >>=
          finish formula).toOption =
        (pieces op d rest).map fun p => subs ++ (cur ++ p.1) :: p.2 := by
  induction rest with
  | nil =>
    intro done cur k d subs hsplit hcur hlen
    rw [append_nil] at hsplit
    have hend : (finish formula ⟨some k, d, subs⟩).toOption =
        if d = 0 then some (subs ++ [cur]) else none := finish_started (hsplit ▸ hcur)
    by_cases hd : d = 0
    · simpa [pieces_nil, hd] using hend
    · simpa [pieces_nil, hd] using hend
  | cons c rest ih =>
    intro done cur k d subs hsplit hcur hlen
    have hsplit' : formula = (done ++ [c]) ++ rest := by rw [hsplit]; simp
    have hlast : (done ++ [c]).length = done.length + 1 := by simp
    rw [zipIdx_cons, foldlM_cons, step_started hop, pieces_cons_eq hop]
    split_ifs with hcut hstray
    · have hpiece : substr formula k (done.length - k) = cur := by
        rw [substr, hsplit, drop_append_of_le_length (by omega), hcur,
          take_append_of_le_length (by omega), take_of_length_le (by omega)]
      have hrest := @ih (done ++ [c]) [] (done.length + 1) 0 (subs ++ [cur]) hsplit'
        (by rw [← hlast, drop_length]) (by rw [hlast]; rfl)
      rw [hlast] at hrest
      rw [hpiece, Option.map_map]
      refine hrest.trans (congrArg (Option.map · _) (funext fun p => ?_))
      simp
    · rfl
    · -- the character stays in the piece that is open
      have hkeep : (done ++ [c]).drop k = cur ++ [c] := by
        rw [drop_append_of_le_length (by omega), hcur]
      have hkept : k + (cur ++ [c]).length = (done ++ [c]).length := by
        rw [length_append, hlast, length_singleton]
        omega
      have hrest := @ih (done ++ [c]) (cur ++ [c]) k (d + (kind c).move) subs hsplit' hkeep hkept
      rw [hlast] at hrest
      rw [Option.map_map]
      refine hrest.trans (congrArg (Option.map · _) (funext fun p => ?_))
      simp

theorem foldlM_unstarted (rest : Bytes) :
    ∀ {done : Bytes} {d : Int}, formula = done ++ rest →
      ((rest.zipIdx done.length).foldlM (singleParseStep formula op) ⟨none, d, []⟩ >>=
          finish formula).toOption =
        match skip d rest with
        | (d, []) => if d = 0 then some [] else none
        | (d, c :: cs) => (pieces op d (c :: cs)).map fun p => p.1 :: p.2 := by
  induction rest with
  | nil =>
    intro done d hsplit
    by_cases hd : d = 0
    · subst hd
      rfl
    · simp only [zipIdx_nil, foldlM_nil, skip_nil, hd, if_false]
      simp only [pure_bind, finish, hd]
      rfl
  | cons c rest ih =>
    intro done d hsplit
    have hsplit' : formula = (done ++ [c]) ++ rest := by rw [hsplit]; simp
    rw [skip_cons]
    by_cases hstart : (kind c).startsAt d = true
    · -- the step that finds the start leaves the state a started loop would have
      have hcut : ¬(d = 0 ∧ c = op) := by
        rintro ⟨-, rfl⟩
        rcases hop with hk | hk <;> simp [startsAt, starts, hk] at hstart
      have hstray : ¬(d = 0 ∧ kind c = .stray) := by
        rintro ⟨-, hk⟩
        simp [startsAt, starts, hk] at hstart
      have hall := @foldlM_started formula op hop (c :: rest) done [] done.length d [] hsplit
        drop_length (by simp)
      rw [zipIdx_cons, foldlM_cons] at hall ⊢
      rw [step_started hop, if_neg hcut, if_neg hstray] at hall
      rw [step_unstarted, if_pos hstart, if_pos hstart]
      simpa using hall
    · have hrest := ih (d := d + (kind c).move) hsplit'
      rw [length_append, length_singleton] at hrest
      rw [zipIdx_cons, foldlM_cons, step_unstarted, if_neg hstart, if_neg hstart]
      exact hrest

/-- The loop of `singleParse` cuts its string as `cut` does. -/
theorem singleParse_toOption (formula : Bytes) : (singleParse formula op).toOption = cut op formula := by
  rw [singleParse_eq]
  exact @foldlM_unstarted formula op hop formula [] 0 rfl

end

/-- The parenthesis count goes from `d` to `e`, and the other characters at count 0 are allowed. -/
def Runs (ok : Kind → Bool) : Int → Bytes → Int → Prop
  | d, [], e => d = e
  | d, c :: cs, e =>
      if kind c = .closing then Runs ok (d - 1) cs e
      else if kind c = .opening then Runs ok (d + 1) cs e
      else (d = 0 → ok (kind c) = true) ∧ Runs ok d cs e

/-- From depth `d` every parenthesis is closed and none too many, and the characters outside
parentheses are allowed. -/
def Flat (ok : Kind → Bool) : Nat → Bytes → Prop
  | d, [] => d = 0
  | d, c :: cs =>
      if kind c = .closing then 0 < d ∧ Flat ok (d - 1) cs
      else if kind c = .opening then Flat ok (d + 1) cs
      else (d = 0 → ok (kind c) = true) ∧ Flat ok d cs

section
variable {ok ok' : Kind → Bool} {c : UInt8} {s t : Bytes} {d : Nat}

theorem runs_cons (c : UInt8) (s : Bytes) {d : Int} :
    Runs ok d (c :: s) e ↔
      ((kind c).move = 0 → d = 0 → ok (kind c) = true) ∧ Runs ok (d + (kind c).move) s e := by
  cases hk : kind c <;> simp [Runs, hk, move, sub_eq_add_neg]

theorem flat_cons (c : UInt8) (s : Bytes) :
    Flat ok d (c :: s) ↔
      ((kind c).move = 0 → d = 0 → ok (kind c) = true) ∧ 0 ≤ d + (kind c).move ∧
        Flat ok (d + (kind c).move).toNat s := by
  have hclosed : ((d : Int) + -1).toNat = d - 1 := by omega
  have hopened : 0 ≤ (d : Int) + 1 := by omega
  cases hk : kind c <;> simp [Flat, hk, move, hclosed, hopened, Order.one_le_iff_pos]

theorem flat_other (h1 : kind c ≠ .closing) (h2 : kind c ≠ .opening) :
    Flat ok d (c :: s) ↔ (d = 0 → ok (kind c) = true) ∧ Flat ok d s := by
  simp [Flat, h1, h2]

theorem Flat.append (hs : Flat ok d s) (ht : Flat ok 0 t) : Flat ok d (s ++ t) := by
  induction s generalizing d with
  | nil =>
    obtain rfl : d = 0 := hs
    exact ht
  | cons c s ih =>
    obtain ⟨hok, hpos, hs⟩ := (flat_cons c s).mp hs
    exact (flat_cons ..).mpr ⟨hok, hpos, ih hs⟩

theorem Flat.inside {e : Nat} (hs : Flat ok' d s) (ht : Flat ok (e + 1) t) :
    Flat ok (d + e + 1) (s ++ t) := by
  induction s generalizing d with
  | nil =>
    obtain rfl : d = 0 := hs
    rwa [nil_append, Nat.zero_add]
  | cons c s ih =>
    obtain ⟨-, hpos, hs⟩ := (flat_cons c s).mp hs
    have hd : (((d + e + 1 : Nat) : Int) + (kind c).move).toNat =
        (d + (kind c).move).toNat + e + 1 := by omega
    refine (flat_cons ..).mpr ⟨fun _ hzero => (by omega), by omega, ?_⟩
    rw [hd]
    exact ih hs

theorem Flat.split (hs : Flat ok' d s) (h : Flat ok d (s ++ t)) : Flat ok d s ∧ Flat ok 0 t := by
  induction s generalizing d with
  | nil =>
    obtain rfl : d = 0 := hs
    exact ⟨rfl, h⟩
  | cons c s ih =>
    obtain ⟨hok, hpos, h⟩ := (flat_cons ..).mp h
    obtain ⟨hleft, hright⟩ := ih ((flat_cons c s).mp hs).2.2 h
    exact ⟨(flat_cons ..).mpr ⟨hok, hpos, hleft⟩, hright⟩

theorem Flat.mono (hs : Flat ok d s) (hok : ∀ k, ok k = true → ok' k = true) : Flat ok' d s := by
  induction s generalizing d with
  | nil => exact hs
  | cons c s ih =>
    obtain ⟨hc, hpos, hs⟩ := (flat_cons c s).mp hs
    exact (flat_cons ..).mpr ⟨fun hm hd => hok _ (hc hm hd), hpos, ih hs⟩

theorem Flat.both (hs : Flat ok d s) (hs' : Flat ok' d s) : Flat (fun k => ok k && ok' k) d s := by
  induction s generalizing d with
  | nil => exact hs
  | cons c s ih =>
    obtain ⟨hc, hpos, hs⟩ := (flat_cons c s).mp hs
    obtain ⟨hc', -, hs'⟩ := (flat_cons c s).mp hs'
    refine (flat_cons ..).mpr ⟨fun hm hd => ?_, hpos, ih hs hs'⟩
    rw [Bool.and_eq_true]
    exact ⟨hc hm hd, hc' hm hd⟩

/-- A balanced string moves the count by the parentheses it closes. -/
theorem Flat.runs_end {d : Int} (hs : Flat ok' n s) (h : Runs ok d s e) : e = d - n := by
  induction s generalizing n d with
  | nil =>
    obtain rfl : n = 0 := hs
    obtain rfl : d = e := h
    omega
  | cons c s ih =>
    obtain ⟨-, hpos, hs⟩ := (flat_cons c s).mp hs
    have hend := ih hs ((runs_cons c s).mp h).2
    omega

/-- In a balanced string the depth is the count. -/
theorem Flat.of_runs (hs : Flat ok' n s) (h : Runs ok n s e) : Flat ok n s := by
  induction s generalizing n with
  | nil => exact hs
  | cons c s ih =>
    obtain ⟨-, hpos, hs⟩ := (flat_cons c s).mp hs
    obtain ⟨hok, h⟩ := (runs_cons c s).mp h
    rw [← Int.toNat_of_nonneg hpos] at h
    exact (flat_cons ..).mpr ⟨fun hm hn => hok hm (by omega), hpos, ih hs h⟩

theorem Runs.split {d : Int} (h : Runs ok d (s ++ t) e) : ∃ m, Runs ok d s m ∧ Runs ok m t e := by
  induction s generalizing d with
  | nil => exact ⟨d, rfl, h⟩
  | cons c s ih =>
    obtain ⟨hok, h⟩ := (runs_cons ..).mp h
    obtain ⟨m, hs, ht⟩ := ih h
    exact ⟨m, (runs_cons ..).mpr ⟨hok, hs⟩, ht⟩

end

/-- What may stand outside parentheses in a piece. -/
def inPiece (op : UInt8) (k : Kind) : Bool := k ≠ .stray && k ≠ kind op

section
variable {op c : UInt8} {d : Int} {s : Bytes} {first : Bytes} {rest : List Bytes}

section
variable (hop : kind op = .conj ∨ kind op = .disj)

include hop

/-- One character goes to the open piece, or it is the operator and closes it. -/
theorem pieces_cons (h : pieces op d (c :: s) = some (first, rest)) :
    (∃ e tail, pieces op e s = some (tail, rest) ∧ first = c :: tail ∧
      ∀ e', Runs (inPiece op) e tail e' → Runs (inPiece op) d (c :: tail) e') ∨
    (d = 0 ∧ c = op ∧ first = [] ∧ ∃ next others, pieces op 0 s = some (next, others) ∧
      rest = next :: others) := by
  rw [pieces_cons_eq hop] at h
  split_ifs at h with hcut hstray
  · obtain ⟨⟨next, others⟩, hp, heq⟩ := map_eq_some_iff.mp h
    obtain ⟨rfl, rfl⟩ := Prod.mk.inj heq
    exact .inr ⟨hcut.1, hcut.2, rfl, next, others, hp, rfl⟩
  · obtain ⟨⟨tail, others⟩, hp, heq⟩ := map_eq_some_iff.mp h
    obtain ⟨rfl, rfl⟩ := Prod.mk.inj heq
    refine .inl ⟨_, tail, hp, rfl, fun e' hr => (runs_cons ..).mpr ⟨fun _ hd => ?_, hr⟩⟩
    have hsign : kind c ≠ kind op := fun heq => hcut ⟨hd, eq_of_kind_eq hop heq⟩
    have hknown : kind c ≠ .stray := fun hk => hstray ⟨hd, hk⟩
    simp [inPiece, hsign, hknown]

theorem pieces_runs (h : pieces op d s = some (first, rest)) :
    Runs (inPiece op) d first 0 ∧ ∀ p ∈ rest, Runs (inPiece op) 0 p 0 := by
  induction s generalizing d first rest with
  | nil =>
    rw [pieces_nil] at h
    split at h
    · next hd =>
        obtain ⟨rfl, rfl⟩ := Prod.mk.inj (some.inj h)
        exact ⟨hd, fun p hp => nomatch hp⟩
    · cases h
  | cons c s ih =>
    rcases pieces_cons hop h with ⟨e, tail, hp, rfl, hrun⟩ | ⟨rfl, rfl, rfl, next, others, hp, rfl⟩
    · obtain ⟨hfirst, hrest⟩ := ih hp
      exact ⟨hrun 0 hfirst, hrest⟩
    · obtain ⟨hfirst, hrest⟩ := ih hp
      refine ⟨rfl, fun p hmem => ?_⟩
      rcases mem_cons.mp hmem with rfl | hmem
      · exact hfirst
      · exact hrest p hmem

theorem pieces_join (h : pieces op d s = some (first, rest)) : [op].intercalate (first :: rest) = s := by
  induction s generalizing d first rest with
  | nil =>
    rw [pieces_nil] at h
    split at h
    · obtain ⟨rfl, rfl⟩ := Prod.mk.inj (some.inj h)
      rfl
    · cases h
  | cons c s ih =>
    rcases pieces_cons hop h with ⟨e, tail, hp, rfl, -⟩ | ⟨rfl, rfl, rfl, next, others, hp, rfl⟩
    · rw [← ih hp]
      cases rest <;> simp [intercalate_cons_cons]
    · rw [← ih hp]
      simp [intercalate_cons_cons]

/-- A balanced stretch without the operator goes to the open piece. -/
theorem pieces_flat {t : Bytes} (hs : Flat (inPiece op) n s) :
    pieces op n (s ++ t) = (pieces op 0 t).map fun p => (s ++ p.1, p.2) := by
  induction s generalizing n with
  | nil =>
    obtain rfl : n = 0 := hs
    simp
  | cons c s ih =>
    obtain ⟨hin, hpos, hs⟩ := (flat_cons c s).mp hs
    have hcut : ¬((n : Int) = 0 ∧ c = op) := by
      rintro ⟨hn, rfl⟩
      have hc := hin (by rcases hop with hk | hk <;> rw [hk] <;> rfl) (by omega)
      simp [inPiece] at hc
    have hstray : ¬((n : Int) = 0 ∧ kind c = .stray) := by
      rintro ⟨hn, hk⟩
      have hc := hin (by rw [hk]; rfl) (by omega)
      simp [inPiece, hk] at hc
    have hnext := ih hs
    rw [Int.toNat_of_nonneg hpos] at hnext
    rw [cons_append, pieces_cons_eq hop, if_neg hcut, if_neg hstray, hnext, Option.map_map]
    rfl

theorem pieces_intercalate (hall : ∀ p ∈ first :: rest, Flat (inPiece op) 0 p) :
    pieces op 0 ([op].intercalate (first :: rest)) = some (first, rest) := by
  induction rest generalizing first with
  | nil =>
    have hone := pieces_flat hop (t := []) (hall first (by simp))
    simpa [pieces_nil] using hone
  | cons next others ih =>
    have hnext := ih fun p hp => hall p (mem_cons_of_mem _ hp)
    have hfirst := pieces_flat hop (t := op :: [op].intercalate (next :: others))
      (hall first (by simp))
    rw [intercalate_cons_cons, append_assoc, singleton_append]
    rw [pieces_cons_eq hop, if_pos ⟨rfl, rfl⟩, hnext] at hfirst
    simpa using hfirst

end

def startsOperand : Bytes → Bool
  | [] => false
  | c :: _ => (kind c).starts

theorem skip_split {body : Bytes} (h : skip d s = (e, body)) :
    ∃ pre, s = pre ++ body ∧ e ≤ d ∧ (d = 0 → e = 0 → ∀ c ∈ pre, (kind c).skipped = true) ∧
      (body ≠ [] → startsOperand body = true) := by
  induction s generalizing d with
  | nil =>
    obtain ⟨rfl, rfl⟩ := Prod.mk.inj h
    exact ⟨[], rfl, le_refl _, fun _ _ c hc => (nomatch hc), fun hne => absurd rfl hne⟩
  | cons c s ih =>
    rw [skip_cons] at h
    split_ifs at h with hstart
    · obtain ⟨rfl, rfl⟩ := Prod.mk.inj h
      refine ⟨[], rfl, le_refl _, fun _ _ c hc => (nomatch hc), fun _ => ?_⟩
      exact ((Bool.and_eq_true _ _).mp hstart).1
    · obtain ⟨pre, hsplit, hle, hskip, hbody⟩ := ih h
      have hmove : (kind c).move ≤ 0 := by
        cases hk : kind c <;> simp_all [startsAt, starts, move]
      refine ⟨c :: pre, by rw [hsplit, cons_append], by omega, fun hd0 he0 x hx => ?_, hbody⟩
      have hzero : (kind c).move = 0 := by omega
      rcases mem_cons.mp hx with rfl | hx
      · cases hk : kind x <;> simp_all [startsAt, starts, move, skipped]
      · exact hskip (by omega) he0 x hx

theorem skip_append {j body : Bytes} (hjunk : ∀ c ∈ j, (kind c).skipped = true)
    (hbody : startsOperand body = true) : skip 0 (j ++ body) = (0, body) := by
  induction j with
  | nil =>
    cases body with
    | nil => cases hbody
    | cons c body =>
      simp only [startsOperand] at hbody
      rw [nil_append, skip_cons, if_pos (by simp [startsAt, hbody])]
  | cons c junk ih =>
    have hc := hjunk c (by simp)
    have hrest := ih fun x hx => hjunk x (mem_cons_of_mem _ hx)
    rw [cons_append, skip_cons]
    cases hk : kind c <;> simp_all [skipped, startsAt, starts, move]

end

end LibBoolEE

end HnbCore
