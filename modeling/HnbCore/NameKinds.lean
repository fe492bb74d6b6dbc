import HnbCore.Verifier
import Mathlib.Data.List.TakeWhile

/-!
# Kinds of names

Which characters tell the names of qualifiers, of their sub qualifiers and of restricted assets
from the others.
-/

namespace HnbCore

open List

variable {name : Bytes}

theorem not_restrictedChar_of_qualifier
    (h : isAssetNameAQualifier name false = true) : name.headD 0 ≠ restrictedChar := by
  have htagged : ∀ {body : Bytes → Bool} {l : Bytes}, tagged uniqueTagDelimiter body l = true →
      l.headD 0 = uniqueTagDelimiter := by
    intro body l hl
    cases l with
    | nil => cases hl
    | cons c rest =>
      simp only [tagged, Bool.and_eq_true, decide_eq_true_eq] at hl
      exact hl.1
  simp only [isAssetNameAQualifier, Bool.false_eq_true, if_false, Bool.and_eq_true,
    Bool.or_eq_true] at h
  have hhead : name.headD 0 = uniqueTagDelimiter := by
    rcases h.2 with hqualifier | hsub
    · exact htagged hqualifier
    · -- the part before the delimiter starts with the tag, and so does the whole name
      unfold subQualifierIndicator at hsub
      split at hsub
      · cases hsub
      · have hfirst := htagged (Bool.and_eq_true_iff.mp hsub).1
        cases name with
        | nil => simpa using hfirst
        | cons c rest =>
          rw [takeWhile_cons] at hfirst
          split at hfirst
          · exact hfirst
          · cases hfirst
  rw [hhead]
  decide

/-- No character of a restricted name but the first is a tag of another type. -/
theorem char_of_restrictedIndicator (h : restrictedIndicator name = true) {c : UInt8}
    (hc : c ∈ name) : c = restrictedChar ∨ isNameChar c = true := by
  cases name with
  | nil => cases hc
  | cons first rest =>
    simp only [restrictedIndicator, restrictedNameCharacters, tagged, rootNameCharacters,
      Bool.and_eq_true, decide_eq_true_eq, all_eq_true] at h
    rcases mem_cons.mp hc with rfl | hrest
    · exact .inl h.1
    · exact .inr (h.2.2 c hrest)

theorem dropWhile_eq_nil_of_not_mem {d : UInt8} (h : d ∉ name) :
    name.dropWhile (· ≠ d) = [] := by
  rw [dropWhile_eq_nil_iff]
  intro c hc
  have hne : c ≠ d := fun heq => h (heq ▸ hc)
  simpa using hne

theorem assetTypeOf_eq_restricted_iff :
    assetTypeOf name = .restricted ↔ isAssetNameAnRestricted name = true := by
  constructor
  · intro htype
    unfold assetTypeOf at htype
    split at htype
    · rename_i type hvalid
      subst htype
      have hind : restrictedIndicator name = true := by
        unfold isAssetNameValid at hvalid
        by_contra hno
        simp only [hno, if_false] at hvalid
        repeat' split at hvalid
        all_goals simp_all
      simp [isAssetNameAnRestricted, nameValid, hvalid, hind, Except.isOk, Except.toBool]
    · cases htype
  · intro hname
    simp only [isAssetNameAnRestricted, Bool.and_eq_true] at hname
    obtain ⟨hvalid, hind⟩ := hname
    have hnot : ∀ d : UInt8, d ≠ restrictedChar → isNameChar d = false → d ∉ name := by
      intro d hd hchar hmem
      rcases char_of_restrictedIndicator hind hmem with heq | hyes
      · exact hd heq
      · rw [hchar] at hyes
        cases hyes
    have hunique : uniqueIndicator name = false := by
      simp only [uniqueIndicator, tagIndicator,
        dropWhile_eq_nil_of_not_mem (hnot uniqueTagDelimiter (by decide) (by decide))]
    have hmsg : msgChannelIndicator name = false := by
      simp only [msgChannelIndicator, tagIndicator,
        dropWhile_eq_nil_of_not_mem (hnot msgChannelTagDelimiter (by decide) (by decide))]
    have hvote : voteIndicator name = false := by
      simp only [voteIndicator, tagIndicator,
        dropWhile_eq_nil_of_not_mem (hnot voteTagDelimiter (by decide) (by decide))]
    have howner : ownerIndicator name = false := by
      have hlast : name.getLast? ≠ some ownerTagChar := fun hlast =>
        hnot ownerTagChar (by decide) (by decide) (mem_of_getLast? hlast)
      simp [ownerIndicator, hlast]
    have hsub : subQualifierIndicator name = false := by
      simp only [subQualifierIndicator,
        dropWhile_eq_nil_of_not_mem (hnot subNameDelimiter (by decide) (by decide))]
    have hqualifier : qualifierIndicator name = false := by
      cases name with
      | nil => rfl
      | cons c rest =>
        have hne : c ≠ uniqueTagDelimiter := fun heq =>
          hnot uniqueTagDelimiter (by decide) (by decide) (heq ▸ mem_cons_self)
        simp [qualifierIndicator, qualifierNameCharacters, tagged, hne]
    unfold assetTypeOf
    unfold nameValid at hvalid
    cases hresult : isAssetNameValid name with
    | error e =>
      rw [hresult] at hvalid
      cases hvalid
    | ok type =>
      simp only [isAssetNameValid, hunique, hmsg, howner, hvote, hqualifier, hsub, hind,
        Bool.false_eq_true, if_false, if_true] at hresult
      split at hresult
      · cases hresult
      · split at hresult
        · cases hresult
          rfl
        · cases hresult

theorem headD_of_restricted (h : isAssetNameAnRestricted name = true) :
    name.headD 0 = restrictedChar := by
  cases name with
  | nil => simp [isAssetNameAnRestricted, restrictedIndicator, restrictedNameCharacters, tagged] at h
  | cons c rest =>
    simp only [isAssetNameAnRestricted, restrictedIndicator, restrictedNameCharacters, tagged,
      Bool.and_eq_true, decide_eq_true_eq] at h
    exact h.2.1

theorem isAssetNameAQualifier_of_type
    (h : assetTypeOf name = .qualifier ∨ assetTypeOf name = .subQualifier) :
    isAssetNameAQualifier name false = true := by
  cases hname : isAssetNameValid name with
  | error e => simp [assetTypeOf, hname] at h
  | ok type =>
    have htype : type = .qualifier ∨ type = .subQualifier := by simpa [assetTypeOf, hname] using h
    have hindicator : (qualifierIndicator name || subQualifierIndicator name) = true := by
      by_contra hno
      simp only [Bool.or_eq_true, not_or, Bool.not_eq_true] at hno
      simp only [isAssetNameValid, hno.1, hno.2, Bool.false_eq_true, if_false] at hname
      -- every other branch gives another type
      repeat' split at hname
      all_goals cases hname
      all_goals simp at htype
    simp [isAssetNameAQualifier, nameValid, hname, hindicator, Except.isOk, Except.toBool]

end HnbCore
