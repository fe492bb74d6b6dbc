import Mathlib.Data.List.Basic

/-!
# Boolean expressions as strings

The strings derivable from `E := name | !E | (E) | E&E | E|E`, and the value of such a string when
negation binds tighter than conjunction and conjunction tighter than disjunction. The first grammar
is ambiguous and the second is layered; they have the same strings.
-/

namespace BoolGrammar

/-- The five signs of the language. -/
structure Signs (α : Type) where
  bang : α
  opening : α
  closing : α
  conj : α
  disj : α

variable {α : Type} (S : Signs α) (isName : List α → Prop) (val : List α → Bool)

inductive Formula : List α → Prop
  | name {n : List α} : isName n → Formula n
  | not {s : List α} : Formula s → Formula (S.bang :: s)
  | paren {s : List α} : Formula s → Formula (S.opening :: (s ++ [S.closing]))
  | and {s t : List α} : Formula s → Formula t → Formula (s ++ S.conj :: t)
  | or {s t : List α} : Formula s → Formula t → Formula (s ++ S.disj :: t)

inductive Layer
  | atom
  | conj
  | disj
  deriving DecidableEq

/-- `Reads layer s b`: the string `s` of that layer has the value `b`. -/
inductive Reads : Layer → List α → Bool → Prop
  | name {n : List α} : isName n → Reads .atom n (val n)
  | not {s : List α} {b : Bool} : Reads .atom s b → Reads .atom (S.bang :: s) (!b)
  | paren {s : List α} {b : Bool} : Reads .disj s b →
      Reads .atom (S.opening :: (s ++ [S.closing])) b
  | single {s : List α} {b : Bool} : Reads .atom s b → Reads .conj s b
  | and {s t : List α} {a b : Bool} : Reads .conj s a → Reads .atom t b →
      Reads .conj (s ++ S.conj :: t) (a && b)
  | lone {s : List α} {b : Bool} : Reads .conj s b → Reads .disj s b
  | or {s t : List α} {a b : Bool} : Reads .disj s a → Reads .conj t b →
      Reads .disj (s ++ S.disj :: t) (a || b)

variable {S isName val}

namespace Reads

variable {b a : Bool} {s t : List α}

/-- A negation in front goes to the first operand. -/
theorem negated {layer : Layer} (h : Reads S isName val layer s b) :
    ∃ c, Reads S isName val layer (S.bang :: s) c := by
  induction h with
  | name hn => exact ⟨_, .not (.name hn)⟩
  | not hs _ => exact ⟨_, .not (.not hs)⟩
  | paren hs _ => exact ⟨_, .not (.paren hs)⟩
  | single _ ih =>
    obtain ⟨c, hc⟩ := ih
    exact ⟨c, .single hc⟩
  | and _ ht ih _ =>
    obtain ⟨c, hc⟩ := ih
    exact ⟨_, .and hc ht⟩
  | lone _ ih =>
    obtain ⟨c, hc⟩ := ih
    exact ⟨c, .lone hc⟩
  | or _ ht ih _ =>
    obtain ⟨c, hc⟩ := ih
    exact ⟨_, .or hc ht⟩

theorem conj_and (hs : Reads S isName val .conj s a) (ht : Reads S isName val .conj t b) :
    ∃ c, Reads S isName val .conj (s ++ S.conj :: t) c := by
  generalize hlayer : Layer.conj = layer at ht
  induction ht with
  | name _ => cases hlayer
  | not _ _ => cases hlayer
  | paren _ _ => cases hlayer
  | single hatom _ => exact ⟨_, .and hs hatom⟩
  | @and t u x y _ hu ih _ =>
    obtain ⟨c, hc⟩ := ih rfl
    have hgoal : s ++ S.conj :: (t ++ S.conj :: u) = (s ++ S.conj :: t) ++ S.conj :: u := by simp
    rw [hgoal]
    exact ⟨_, .and hc hu⟩
  | lone _ _ => cases hlayer
  | or _ _ _ _ => cases hlayer

theorem disj_and_conj (hs : Reads S isName val .disj s a) (ht : Reads S isName val .conj t b) :
    ∃ c, Reads S isName val .disj (s ++ S.conj :: t) c := by
  cases hs with
  | lone hs =>
    obtain ⟨c, hc⟩ := conj_and hs ht
    exact ⟨c, .lone hc⟩
  | @or r u x y hr hu =>
    obtain ⟨c, hc⟩ := conj_and hu ht
    have hgoal : (r ++ S.disj :: u) ++ S.conj :: t = r ++ S.disj :: (u ++ S.conj :: t) := by simp
    rw [hgoal]
    exact ⟨_, .or hr hc⟩

/-- What a sign makes of the first alternative on its right, it makes of all of them. -/
theorem disj_of_conj {o : α}
    (h : ∀ {t b}, Reads S isName val .conj t b → ∃ c, Reads S isName val .disj (s ++ o :: t) c)
    (ht : Reads S isName val .disj t b) : ∃ c, Reads S isName val .disj (s ++ o :: t) c := by
  generalize hlayer : Layer.disj = layer at ht
  induction ht with
  | name _ => cases hlayer
  | not _ _ => cases hlayer
  | paren _ _ => cases hlayer
  | single _ _ => cases hlayer
  | and _ _ _ _ => cases hlayer
  | lone hconj _ => exact h hconj
  | @or t u x y _ hu ih _ =>
    obtain ⟨c, hc⟩ := ih rfl
    have hgoal : s ++ o :: (t ++ S.disj :: u) = (s ++ o :: t) ++ S.disj :: u := by simp
    rw [hgoal]
    exact ⟨_, .or hc hu⟩

end Reads

/-- Every derivable string has a value under the usual precedence. -/
theorem Formula.reads (val : List α → Bool) {s : List α} (h : Formula S isName s) :
    ∃ b, Reads S isName val .disj s b := by
  induction h with
  | name hn => exact ⟨_, .lone (.single (.name hn))⟩
  | not _ ih =>
    obtain ⟨b, hb⟩ := ih
    exact hb.negated
  | paren _ ih =>
    obtain ⟨b, hb⟩ := ih
    exact ⟨b, .lone (.single (.paren hb))⟩
  | and _ _ ihs iht =>
    obtain ⟨a, ha⟩ := ihs
    obtain ⟨b, hb⟩ := iht
    exact hb.disj_of_conj ha.disj_and_conj
  | or _ _ ihs iht =>
    obtain ⟨a, ha⟩ := ihs
    obtain ⟨b, hb⟩ := iht
    exact hb.disj_of_conj fun hconj => ⟨_, .or ha hconj⟩

end BoolGrammar
