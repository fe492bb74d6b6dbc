import HnbCore.NameKinds

/-!
# Parents and owners of names

The parent of a valid name is cut off at the last delimiter of its type. The theorems say for which
names the parent, the owner token of the parent and the root of a restricted name are valid names
themselves, so that the token an issue asks for can exist.
-/

namespace HnbCore

open List

variable {d c : UInt8} {rest front part name : Bytes}

/-! ## Cutting a name -/

variable {tag l : Bytes}

theorem upToLast_append (h : d ∉ tag) : upToLast d (front ++ d :: tag) = front := by
  have hrev : (front ++ d :: tag).reverse.dropWhile (· ≠ d) = d :: front.reverse := by
    rw [reverse_append, reverse_cons, append_assoc, dropWhile_append_of_pos]
    · simp
    · intro c hc
      have hne : c ≠ d := fun heq => h (heq ▸ mem_reverse.mp hc)
      simpa using hne
  rw [upToLast, hrev]
  exact reverse_reverse _

theorem exists_last_delimiter (h : d ∈ name) :
    ∃ front tag, name = front ++ d :: tag ∧ d ∉ tag := by
  induction name with
  | nil => cases h
  | cons c rest ih =>
    by_cases hrest : d ∈ rest
    · obtain ⟨front, tag, rfl, htag⟩ := ih hrest
      exact ⟨c :: front, tag, rfl, htag⟩
    · have hc : d = c := (mem_cons.mp h).resolve_right hrest
      exact ⟨[], rest, by rw [hc, nil_append], hrest⟩

theorem tagIndicator_split (h : tagIndicator d name = true) :
    ∃ front tag, name = front ++ d :: tag ∧ d ∉ front ∧ beforeTag front = true ∧
      afterTag tag = true := by
  unfold tagIndicator at h
  split at h
  · cases h
  · rename_i c tag hdrop
    obtain ⟨hbefore, hafter⟩ := Bool.and_eq_true_iff.mp h
    have hc : c = d := by
      have hhead := head?_dropWhile_not (fun x => decide (x ≠ d)) name
      simp only [hdrop, head?_cons] at hhead
      simpa using hhead
    refine ⟨name.takeWhile (· ≠ d), tag, ?_, fun hmem => ?_, hbefore, hafter⟩
    · conv_lhs => rw [← takeWhile_append_dropWhile (p := fun x => decide (x ≠ d)) (l := name)]
      rw [hdrop, hc]
    · simpa using mem_takeWhile_imp hmem

theorem eq_or_mem_part (h : c ∈ name) :
    c = d ∨ ∃ part ∈ name.splitOn d, c ∈ part := by
  induction hlen : name.length using Nat.strong_induction_on generalizing name with
  | _ n ih =>
    by_cases hd : d ∈ name
    · obtain ⟨front, tag, rfl, htag⟩ := exists_last_delimiter hd
      rw [splitOn_append_cons_self, splitOn_eq_singleton htag]
      rcases mem_append.mp h with hfront | hback
      · have hshort : front.length < n := by
          rw [← hlen, length_append, length_cons]
          omega
        rcases ih _ hshort hfront rfl with heq | ⟨part, hpart, hc⟩
        · exact .inl heq
        · exact .inr ⟨part, mem_append_left _ hpart, hc⟩
      · rcases mem_cons.mp hback with heq | hc
        · exact .inl heq
        · exact .inr ⟨tag, mem_append_right _ (mem_singleton_self tag), hc⟩
    · rw [splitOn_eq_singleton hd]
      exact .inr ⟨name, mem_singleton_self name, h⟩

theorem tagIndicator_of_not_mem (h : d ∉ name) : tagIndicator d name = false := by
  rw [tagIndicator, dropWhile_eq_nil_of_not_mem h]

section
variable {tag : UInt8} {body : Bytes → Bool}

theorem tagged_shape (h : tagged tag body name = true) :
    ∃ rest, name = tag :: rest ∧ body rest = true := by
  cases name with
  | nil => cases h
  | cons c rest =>
    simp only [tagged, Bool.and_eq_true, decide_eq_true_eq] at h
    exact ⟨rest, by rw [h.1], h.2⟩

theorem tagged_of_not_mem (h : tag ∉ name) : tagged tag body name = false := by
  rw [Bool.eq_false_iff]
  intro htagged
  obtain ⟨rest, rfl, -⟩ := tagged_shape htagged
  exact h mem_cons_self

end

theorem subQualifierIndicator_of_not_mem (h : uniqueTagDelimiter ∉ name) :
    subQualifierIndicator name = false := by
  have hfirst : subQualifierNameCharacters (name.takeWhile (· ≠ subNameDelimiter)) = false :=
    tagged_of_not_mem fun hmem => h ((takeWhile_sublist _).subset hmem)
  unfold subQualifierIndicator
  split
  · rfl
  · rw [hfirst, Bool.false_and]

/-- The indicators that look for a tag within the name. -/
theorem indicators_of_not_mem (hmsg : msgChannelTagDelimiter ∉ name)
    (hvote : voteTagDelimiter ∉ name) (howner : ownerTagChar ∉ name) :
    msgChannelIndicator name = false ∧ voteIndicator name = false ∧ ownerIndicator name = false := by
  have hlast : name.getLast? ≠ some ownerTagChar := fun hlast => howner (mem_of_getLast? hlast)
  exact ⟨tagIndicator_of_not_mem hmsg, tagIndicator_of_not_mem hvote, by simp [ownerIndicator, hlast]⟩

/-! ## Roots, sub-assets and their owners -/

theorem isNameChar_of_root (h : isRootNameValid part = true) (hc : c ∈ part) :
    isNameChar c = true := by
  simp only [isRootNameValid, rootNameCharacters, Bool.and_eq_true, all_eq_true] at h
  exact h.1.1.1.1.2 c hc

theorem isNameChar_of_sub (h : isSubNameValid part = true) (hc : c ∈ part) :
    isNameChar c = true := by
  simp only [isSubNameValid, subNameCharacters, Bool.and_eq_true, all_eq_true] at h
  exact h.1.1.1.2 c hc

section

variable (h : isNameValidBeforeTag name = true)
include h

theorem nameValidBeforeTag_parts :
    ∃ root subs, name.splitOn subNameDelimiter = root :: subs ∧ isRootNameValid root = true ∧
      ∀ sub ∈ subs, isSubNameValid sub = true := by
  obtain ⟨root, subs, hsplit⟩ := exists_cons_of_ne_nil (splitOn_ne_nil subNameDelimiter name)
  simp only [isNameValidBeforeTag, hsplit, headD_cons, drop_succ_cons, drop_zero,
    Bool.and_eq_true, all_eq_true] at h
  exact ⟨root, subs, hsplit, h⟩

theorem char_of_nameValidBeforeTag (hc : c ∈ name) :
    c = subNameDelimiter ∨ isNameChar c = true := by
  obtain ⟨root, subs, hsplit, hroot, hsubs⟩ := nameValidBeforeTag_parts h
  rcases eq_or_mem_part (d := subNameDelimiter) hc with heq | ⟨part, hpart, hmem⟩
  · exact .inl heq
  · rw [hsplit] at hpart
    rcases mem_cons.mp hpart with rfl | hsub
    · exact .inr (isNameChar_of_root hroot hmem)
    · exact .inr (isNameChar_of_sub (hsubs part hsub) hmem)

/-- A tag of another type does not occur. -/
theorem not_mem_of_nameValidBeforeTag (hd : d ≠ subNameDelimiter ∧ isNameChar d = false) :
    d ∉ name := by
  intro hmem
  rcases char_of_nameValidBeforeTag h hmem with heq | hyes
  · exact hd.1 heq
  · rw [hd.2] at hyes
    cases hyes

theorem length_of_nameValidBeforeTag : 3 ≤ name.length := by
  obtain ⟨root, subs, hsplit, hroot, -⟩ := nameValidBeforeTag_parts h
  have hthree : 3 ≤ root.length := by
    simp only [isRootNameValid, rootNameCharacters, Bool.and_eq_true, decide_eq_true_eq] at hroot
    exact hroot.1.1.1.1.1
  have hle : root.length ≤ name.length := by
    have hjoin : [subNameDelimiter].intercalate (name.splitOn subNameDelimiter) = name :=
      intercalate_splitOn subNameDelimiter
    rw [← hjoin, hsplit]
    cases subs with
    | nil => simp
    | cons sub rest => simp [intercalate_cons_cons]
  omega

/-- A name of plain parts is a root or a sub-asset. -/
theorem isAssetNameValid_of_parts (hlength : name.length ≤ 30) :
    isAssetNameValid name = .ok (if isAssetNameASubasset name then .sub else .root) := by
  have hno : ∀ d : UInt8, d ≠ subNameDelimiter ∧ isNameChar d = false → d ∉ name :=
    fun d => not_mem_of_nameValidBeforeTag h
  have hhash := hno uniqueTagDelimiter (by decide)
  have hunique : uniqueIndicator name = false := tagIndicator_of_not_mem hhash
  obtain ⟨hmsg, hvote, howner⟩ := indicators_of_not_mem (hno _ (by decide)) (hno _ (by decide))
    (hno _ (by decide))
  have hqualifier : qualifierIndicator name = false := tagged_of_not_mem hhash
  have hsub : subQualifierIndicator name = false := subQualifierIndicator_of_not_mem hhash
  have hrestricted : restrictedIndicator name = false := tagged_of_not_mem (hno _ (by decide))
  have hthree := length_of_nameValidBeforeTag h
  have hcheck : ∀ type, type = .sub ∨ type = .root → isTypeCheckNameValid type name = .ok () := by
    have hmax : ¬name.length > maxNameLength - 1 := by
      rw [maxNameLength]
      omega
    have hmin : (!isAssetNameASubasset name && decide (name.length < minAssetLength)) = false := by
      have hlong : ¬name.length < minAssetLength := by
        rw [minAssetLength]
        omega
      rw [decide_eq_false hlong, Bool.and_false]
    rintro type (rfl | rfl)
    · simp only [isTypeCheckNameValid, if_neg hmax, hmin, Bool.false_eq_true, if_false, h, if_true]
    · simp only [isTypeCheckNameValid, if_neg hmax, hmin, Bool.false_eq_true, if_false, h, if_true]
  have hforty : ¬name.length > 40 := by omega
  simp only [isAssetNameValid, hforty, hunique, hmsg, howner, hvote, hqualifier, hsub, hrestricted,
    Bool.false_eq_true, if_false]
  rw [hcheck _ (by split_ifs; exacts [.inl rfl, .inr rfl])]

theorem isAssetNameValid_owner_of_parts
    (hlength : name.length ≤ 30) : isAssetNameValid (name ++ ownerTag) = .ok .owner := by
  have hno : ∀ d : UInt8, d ≠ ownerTagChar → d ≠ subNameDelimiter ∧ isNameChar d = false →
      d ∉ name ++ ownerTag := by
    intro d hd hchar hmem
    rcases mem_append.mp hmem with hname | htag
    · exact not_mem_of_nameValidBeforeTag h hchar hname
    · exact hd (mem_singleton.mp htag)
  have hunique : uniqueIndicator (name ++ ownerTag) = false :=
    tagIndicator_of_not_mem (hno _ (by decide) (by decide))
  have hmsg : msgChannelIndicator (name ++ ownerTag) = false :=
    tagIndicator_of_not_mem (hno _ (by decide) (by decide))
  have hthree := length_of_nameValidBeforeTag h
  have hbefore : beforeTag name = true := by
    simp only [beforeTag, Bool.and_eq_true, decide_eq_true_eq, all_eq_true]
    refine ⟨by omega, fun c hc => ?_⟩
    have hne : ∀ d : UInt8, d ≠ subNameDelimiter ∧ isNameChar d = false → c ≠ d :=
      fun d hd heq => not_mem_of_nameValidBeforeTag h hd (heq ▸ hc)
    exact ⟨⟨⟨hne _ (by decide), hne _ (by decide)⟩, hne _ (by decide)⟩, hne _ (by decide)⟩
  have howner : ownerIndicator (name ++ ownerTag) = true := by
    have htag : ownerTag = [ownerTagChar] := by decide
    rw [ownerIndicator, htag, getLast?_concat, dropLast_concat, hbefore]
    rfl
  have hlen : (name ++ ownerTag).length = name.length + 1 := by rw [length_append]; rfl
  have hforty : ¬(name ++ ownerTag).length > 40 := by omega
  have hmax : ¬(name ++ ownerTag).length > maxNameLength := by
    rw [maxNameLength]
    omega
  have hdrop : (name ++ ownerTag).dropLast = name := dropLast_concat
  simp only [isAssetNameValid, hforty, hunique, hmsg, howner, Bool.false_eq_true, if_false, if_true,
    isTypeCheckNameValid, hmax, hdrop, h]

end

/-! ## What each type is accepted for -/

/-- The branches of `IsAssetNameValid` that accept a name. -/
inductive NameForm (name : Bytes) : AssetType → Prop
  | unique (indicator : uniqueIndicator name = true)
      (check : isTypeCheckNameValid .unique name = .ok ()) : NameForm name .unique
  | msgchannel (indicator : msgChannelIndicator name = true)
      (check : isTypeCheckNameValid .msgchannel name = .ok ()) : NameForm name .msgchannel
  | owner (check : isTypeCheckNameValid .owner name = .ok ()) : NameForm name .owner
  | vote (indicator : voteIndicator name = true)
      (check : isTypeCheckNameValid .vote name = .ok ()) : NameForm name .vote
  | qualifier (indicator : qualifierIndicator name = true ∨ subQualifierIndicator name = true)
      (check : isTypeCheckNameValid .qualifier name = .ok ())
      (one : isAssetNameASubQualifier name = false) : NameForm name .qualifier
  | subQualifier (indicator : qualifierIndicator name = true ∨ subQualifierIndicator name = true)
      (check : isTypeCheckNameValid .qualifier name = .ok ())
      (two : isAssetNameASubQualifier name = true) : NameForm name .subQualifier
  | invalid (one : isAssetNameASubQualifier name = false) : NameForm name .invalid
  | restricted (indicator : restrictedIndicator name = true)
      (check : isTypeCheckNameValid .restricted name = .ok ()) : NameForm name .restricted
  | sub (check : isTypeCheckNameValid .sub name = .ok ())
      (more : isAssetNameASubasset name = true) : NameForm name .sub
  | root (check : isTypeCheckNameValid .root name = .ok ())
      (one : isAssetNameASubasset name = false) : NameForm name .root

variable {type : AssetType}

theorem ok_of_typeCheck {result : Except String Unit} {given : AssetType} (h : (match result with
      | .ok () => Except.ok given
      | .error e => Except.error e) = Except.ok type) : result = .ok () ∧ given = type := by
  cases result with
  | error e => cases h
  | ok u => exact ⟨rfl, Except.ok.inj h⟩

theorem nameForm_of_isAssetNameValid
    (h : isAssetNameValid name = .ok type) : NameForm name type := by
  simp only [isAssetNameValid] at h
  split at h
  · cases h
  split at h
  · obtain ⟨hc, rfl⟩ := ok_of_typeCheck h
    exact .unique ‹_› hc
  split at h
  · obtain ⟨hc, rfl⟩ := ok_of_typeCheck h
    exact .msgchannel ‹_› hc
  split at h
  · obtain ⟨hc, rfl⟩ := ok_of_typeCheck h
    exact .owner hc
  split at h
  · obtain ⟨hc, rfl⟩ := ok_of_typeCheck h
    exact .vote ‹_› hc
  split at h
  · obtain ⟨hc, rfl⟩ := ok_of_typeCheck h
    split
    · exact .subQualifier (.inl ‹_›) hc ‹_›
    · exact .qualifier (.inl ‹_›) hc (Bool.eq_false_iff.mpr ‹_›)
  split at h
  · obtain ⟨hc, rfl⟩ := ok_of_typeCheck h
    split
    · exact .subQualifier (.inr ‹_›) hc ‹_›
    · exact .invalid (Bool.eq_false_iff.mpr ‹_›)
  split at h
  · obtain ⟨hc, rfl⟩ := ok_of_typeCheck h
    exact .restricted ‹_› hc
  · obtain ⟨hc, rfl⟩ := ok_of_typeCheck h
    split
    · rename_i hsub
      rw [if_pos hsub] at hc
      exact .sub hc hsub
    · rename_i hone
      rw [if_neg hone] at hc
      exact .root hc (Bool.eq_false_iff.mpr hone)

/-! ## Parents -/

/-- The parent is a root or a sub-asset, and its owner token has a valid name. -/
structure ParentValid (name : Bytes) : Prop where
  shorter : (getParentName name).length < name.length
  valid : isAssetNameValid (getParentName name) = .ok .root ∨
    isAssetNameValid (getParentName name) = .ok .sub
  owner : isAssetNameValid (getParentName name ++ ownerTag) = .ok .owner

theorem parentValid_of_parts (hparent : getParentName (front ++ d :: tag) = front)
    (hfront : isNameValidBeforeTag front = true) (hlength : front.length ≤ 30) :
    ParentValid (front ++ d :: tag) := by
  refine ⟨?_, ?_, ?_⟩
  · rw [hparent, length_append, length_cons]
    omega
  · rw [hparent, isAssetNameValid_of_parts hfront hlength]
    split_ifs
    · exact .inr rfl
    · exact .inl rfl
  · rw [hparent]
    exact isAssetNameValid_owner_of_parts hfront hlength

theorem splitOn_front (h : d ∉ front) :
    (front ++ d :: tag).splitOn d = front :: tag.splitOn d := by
  rw [splitOn_append_cons_self, splitOn_eq_singleton h, singleton_append]

section
variable {ε α : Type} {p : Prop} [Decidable p] {e : ε} {x : Except ε α} {a : α}

theorem error_or_eq_ok : (if p then .error e else x) = .ok a ↔ ¬p ∧ x = .ok a := by
  by_cases h : p <;> simp [h]

theorem or_error_eq_ok : (if p then x else .error e) = .ok a ↔ p ∧ x = .ok a := by
  by_cases h : p <;> simp [h]

end

/-- What each type is checked for: the length, and the parts before and after the tag. -/
theorem check_ok (h : isTypeCheckNameValid type name = .ok ()) :
    match type with
    | .unique => name.length ≤ maxNameLength ∧
        isNameValidBeforeTag ((name.splitOn uniqueTagDelimiter).headD []) = true ∧
        isUniqueTagValid ((name.splitOn uniqueTagDelimiter).getLastD []) = true
    | .msgchannel => name.length ≤ maxNameLength ∧
        isNameValidBeforeTag ((name.splitOn msgChannelTagDelimiter).headD []) = true ∧
        isMsgChannelTagValid ((name.splitOn msgChannelTagDelimiter).getLastD []) = true
    | .vote => name.length ≤ maxNameLength ∧
        isNameValidBeforeTag ((name.splitOn voteTagDelimiter).headD []) = true
    | .qualifier => name.length ≤ maxNameLength ∧ isQualifierNameValidBeforeTag name = true
    | .restricted => name.length ≤ maxNameLength ∧ isRestrictedNameValid name = true
    | .sub | .root => name.length ≤ 30 ∧ isNameValidBeforeTag name = true
    | _ => True := by
  by_cases hplain : isNameValidBeforeTag name = true <;> cases type <;>
    simp [isTypeCheckNameValid, error_or_eq_ok, or_error_eq_ok, hplain, maxNameLength] at h ⊢ <;>
    tauto

theorem not_mem_of_beforeTag (h : beforeTag front = true) : voteTagDelimiter ∉ front := by
  intro hmem
  simp only [beforeTag, Bool.and_eq_true, all_eq_true] at h
  simpa using h.2 _ hmem

theorem not_mem_of_afterTag (h : afterTag tag = true)
    (hd : d = uniqueTagDelimiter ∨ d = msgChannelTagDelimiter) : d ∉ tag := by
  intro hmem
  simp only [afterTag, Bool.and_eq_true, all_eq_true] at h
  have hc := h.2 _ hmem
  rcases hd with rfl | rfl
  · simp at hc
  · simp at hc

/-- A name with a tag whose delimiter does not come again in the tag. -/
theorem parent_of_tag (hindicator : tagIndicator d name = true)
    (hlast : ∀ front tag, name = front ++ d :: tag → afterTag tag = true → d ∉ tag)
    (hparent : getParentName name = upToLast d name) (hlength : name.length ≤ maxNameLength)
    (hfront : isNameValidBeforeTag ((name.splitOn d).headD []) = true) :
    ParentValid name ∧ (voteTagDelimiter ∈ name → d = voteTagDelimiter ∨
      voteTagDelimiter ∈ (name.splitOn d).getLastD []) := by
  obtain ⟨front, tag, rfl, hd, hbefore, hafter⟩ := tagIndicator_split hindicator
  have htag : d ∉ tag := hlast front tag rfl hafter
  rw [splitOn_front hd] at hfront ⊢
  rw [upToLast_append htag] at hparent
  rw [length_append, length_cons, maxNameLength] at hlength
  refine ⟨parentValid_of_parts hparent hfront (by omega), fun hmem => ?_⟩
  rw [splitOn_eq_singleton htag]
  rcases mem_append.mp hmem with hin | hin
  · exact absurd hin (not_mem_of_beforeTag hbefore)
  · rcases mem_cons.mp hin with heq | hin
    · exact .inl heq.symm
    · exact .inr hin

theorem parent_of_unique (h : isAssetNameValid name = .ok .unique) :
    ParentValid name ∧ voteTagDelimiter ∉ name := by
  cases nameForm_of_isAssetNameValid h with
  | unique indicator check =>
    obtain ⟨hlength, hfront, htag⟩ := check_ok check
    obtain ⟨hvalid, hvote⟩ := parent_of_tag indicator
      (fun _ _ _ hafter => not_mem_of_afterTag hafter (.inl rfl)) (by rw [getParentName, h])
      hlength hfront
    refine ⟨hvalid, fun hmem => ?_⟩
    have hin := (hvote hmem).resolve_left (by decide)
    simp only [isUniqueTagValid, uniqueTagCharacters, Bool.and_eq_true, all_eq_true] at htag
    exact absurd (htag.2 _ hin) (by decide)

theorem parent_of_msgchannel (h : isAssetNameValid name = .ok .msgchannel) :
    ParentValid name ∧ voteTagDelimiter ∉ name := by
  cases nameForm_of_isAssetNameValid h with
  | msgchannel indicator check =>
    obtain ⟨hlength, hfront, htag⟩ := check_ok check
    obtain ⟨hvalid, hvote⟩ := parent_of_tag indicator
      (fun _ _ _ hafter => not_mem_of_afterTag hafter (.inr rfl)) (by rw [getParentName, h])
      hlength hfront
    refine ⟨hvalid, fun hmem => ?_⟩
    have hin := (hvote hmem).resolve_left (by decide)
    simp only [isMsgChannelTagValid, msgChannelTagCharacters, Bool.and_eq_true, all_eq_true] at htag
    exact absurd (htag.1.1.1.2 _ hin) (by decide)

theorem parent_of_sub (h : isAssetNameValid name = .ok .sub) :
    ParentValid name ∧ voteTagDelimiter ∉ name := by
  cases nameForm_of_isAssetNameValid h with
  | sub check more =>
    obtain ⟨hlength, hparts⟩ := check_ok check
    refine ⟨?_, not_mem_of_nameValidBeforeTag hparts (by decide)⟩
    have hdelimiter : subNameDelimiter ∈ name := by
      by_contra hno
      simp [isAssetNameASubasset, splitOn_eq_singleton hno] at more
    obtain ⟨front, tag, rfl, htag⟩ := exists_last_delimiter hdelimiter
    have hparent : getParentName (front ++ subNameDelimiter :: tag) = front := by
      simp only [getParentName, h]
      exact upToLast_append htag
    have hfront : isNameValidBeforeTag front = true := by
      obtain ⟨root, subs, hsplit⟩ :=
        exists_cons_of_ne_nil (splitOn_ne_nil subNameDelimiter front)
      simp only [isNameValidBeforeTag, splitOn_append_cons_self, hsplit, cons_append,
        headD_cons, drop_succ_cons, drop_zero, all_append,
        Bool.and_eq_true] at hparts ⊢
      exact ⟨hparts.1, hparts.2.1⟩
    rw [length_append] at hlength
    exact parentValid_of_parts hparent hfront (by omega)

/-- A vote's own tag may have the delimiter again, and the parent is then cut off there. -/
theorem parent_of_vote_iff (h : isAssetNameValid name = .ok .vote) :
    ParentValid name ↔ name.count voteTagDelimiter ≤ 1 := by
  cases nameForm_of_isAssetNameValid h with
  | vote indicator check =>
    obtain ⟨hlength, hfront⟩ := check_ok check
    have hparent : getParentName name = upToLast voteTagDelimiter name := by
      rw [getParentName, h]
    constructor
    · intro hvalid
      have hmem : voteTagDelimiter ∈ name := by
        obtain ⟨front, tag, rfl, -⟩ := tagIndicator_split indicator
        simp
      obtain ⟨front, tag, rfl, htag⟩ := exists_last_delimiter hmem
      rw [upToLast_append htag] at hparent
      have hplain : isNameValidBeforeTag front = true := by
        rcases hvalid.valid with hroot | hsub
        · rw [hparent] at hroot
          cases nameForm_of_isAssetNameValid hroot with
          | root check _ => exact (check_ok check).2
        · rw [hparent] at hsub
          cases nameForm_of_isAssetNameValid hsub with
          | sub check _ => exact (check_ok check).2
      have hnone : voteTagDelimiter ∉ front := not_mem_of_nameValidBeforeTag hplain (by decide)
      rw [count_append, count_cons_self, count_eq_zero.mpr hnone,
        count_eq_zero.mpr htag]
    · intro hone
      refine (parent_of_tag indicator ?_ hparent hlength hfront).1
      intro front tag hname _
      rw [hname, count_append, count_cons_self] at hone
      exact count_eq_zero.mp (by omega)

theorem qualifier_parts (h : isQualifierNameValidBeforeTag name = true) :
    (isQualifierNameValid name = true ∧ subNameDelimiter ∉ name) ∨
      ∃ front tag, name = front ++ subNameDelimiter :: tag ∧ subNameDelimiter ∉ front ∧
        subNameDelimiter ∉ tag ∧ isQualifierNameValid front = true ∧
        isSubQualifierNameValid tag = true := by
  by_cases hdelimiter : subNameDelimiter ∈ name
  · obtain ⟨front, tag, rfl, htag⟩ := exists_last_delimiter hdelimiter
    right
    simp only [isQualifierNameValidBeforeTag, splitOn_append_cons_self,
      splitOn_eq_singleton htag, Bool.and_eq_true, decide_eq_true_eq, length_append,
      length_singleton] at h
    obtain ⟨⟨hfirst, hcount⟩, hrest⟩ := h
    have hfront : subNameDelimiter ∉ front := by
      intro hmem
      obtain ⟨a, b, rfl, -⟩ := exists_last_delimiter hmem
      have ha := length_pos_of_ne_nil (splitOn_ne_nil subNameDelimiter a)
      have hb := length_pos_of_ne_nil (splitOn_ne_nil subNameDelimiter b)
      rw [splitOn_append_cons_self, length_append] at hcount
      omega
    rw [splitOn_eq_singleton hfront] at hfirst hrest
    refine ⟨front, tag, rfl, hfront, htag, by simpa using hfirst, by simpa using hrest⟩
  · left
    simp only [isQualifierNameValidBeforeTag, splitOn_eq_singleton hdelimiter,
      Bool.and_eq_true] at h
    exact ⟨by simpa using h.1.1, hdelimiter⟩

theorem all_of_root (h : rootNameCharacters rest = true) : rest.all isNameChar = true :=
  ((Bool.and_eq_true _ _).mp h).2

theorem qualifier_shape (h : isQualifierNameValid name = true) :
    ∃ rest, name = uniqueTagDelimiter :: rest ∧ rootNameCharacters rest = true := by
  simp only [isQualifierNameValid, Bool.and_eq_true] at h
  exact tagged_shape h.1.1.1.1

theorem subQualifier_shape (h : isSubQualifierNameValid part = true) :
    ∃ rest, part = uniqueTagDelimiter :: rest ∧ rest.all isNameChar = true := by
  simp only [isSubQualifierNameValid, Bool.and_eq_true] at h
  obtain ⟨rest, rfl, hsub⟩ := tagged_shape h.1.1.1
  exact ⟨rest, rfl, ((Bool.and_eq_true _ _).mp hsub).2⟩

/-- A tag of another type does not occur in a part that starts with its own. -/
theorem not_mem_of_tagged {tag : UInt8} (h : rest.all isNameChar = true)
    (hd : d ≠ tag ∧ isNameChar d = false) : d ∉ tag :: rest := by
  intro hmem
  rcases mem_cons.mp hmem with heq | hrest
  · exact hd.1 heq
  · have hchar := all_eq_true.mp h d hrest
    rw [hd.2] at hchar
    cases hchar

theorem isAssetNameValid_qualifier (h : isQualifierNameValid name = true)
    (hlength : name.length ≤ maxNameLength) : isAssetNameValid name = .ok .qualifier := by
  obtain ⟨rest, rfl, hrest⟩ := qualifier_shape h
  have hall := all_of_root hrest
  have hno : ∀ d : UInt8, d ≠ uniqueTagDelimiter ∧ isNameChar d = false →
      d ∉ uniqueTagDelimiter :: rest := fun d => not_mem_of_tagged hall
  have hunique : uniqueIndicator (uniqueTagDelimiter :: rest) = false := by
    simp [uniqueIndicator, tagIndicator, beforeTag]
  obtain ⟨hmsg, hvote, howner⟩ := indicators_of_not_mem (hno _ (by decide)) (hno _ (by decide))
    (hno _ (by decide))
  have hindicator : qualifierIndicator (uniqueTagDelimiter :: rest) = true := by
    simp [qualifierIndicator, qualifierNameCharacters, tagged, hrest]
  have hsplit : (uniqueTagDelimiter :: rest).splitOn subNameDelimiter =
      [uniqueTagDelimiter :: rest] :=
    splitOn_eq_singleton (hno subNameDelimiter (by decide))
  have hparts : isQualifierNameValidBeforeTag (uniqueTagDelimiter :: rest) = true := by
    simp [isQualifierNameValidBeforeTag, hsplit, h]
  have hone : isAssetNameASubQualifier (uniqueTagDelimiter :: rest) = false := by
    simp [isAssetNameASubQualifier, hsplit]
  have hmax : ¬(uniqueTagDelimiter :: rest).length > maxNameLength := Nat.not_lt.mpr hlength
  have hforty : ¬(uniqueTagDelimiter :: rest).length > 40 := by
    rw [maxNameLength] at hlength
    omega
  simp only [isAssetNameValid, hforty, hunique, hmsg, howner, hvote, hindicator, hone,
    Bool.false_eq_true, if_false, if_true, isTypeCheckNameValid, hmax, hparts]

theorem parent_of_subQualifier (h : isAssetNameValid name = .ok .subQualifier) :
    (getParentName name).length < name.length ∧
      isAssetNameValid (getParentName name) = .ok .qualifier ∧ voteTagDelimiter ∉ name := by
  cases nameForm_of_isAssetNameValid h with
  | subQualifier indicator check two =>
    obtain ⟨hlength, hparts⟩ := check_ok check
    rcases qualifier_parts hparts with ⟨-, hno⟩ | ⟨front, tag, rfl, -, htag, hfront, hsub⟩
    · simp [isAssetNameASubQualifier, splitOn_eq_singleton hno] at two
    · have hparent : getParentName (front ++ subNameDelimiter :: tag) = front := by
        simp only [getParentName, h]
        exact upToLast_append htag
      rw [length_append, length_cons] at hlength
      refine ⟨?_, ?_, fun hmem => ?_⟩
      · rw [hparent, length_append, length_cons]
        omega
      · rw [hparent]
        exact isAssetNameValid_qualifier hfront (by omega)
      · obtain ⟨first, rfl, hfirst⟩ := qualifier_shape hfront
        obtain ⟨second, rfl, hsecond⟩ := subQualifier_shape hsub
        rcases mem_append.mp hmem with hin | hin
        · exact not_mem_of_tagged (all_of_root hfirst) (by decide) hin
        · rcases mem_cons.mp hin with heq | hin
          · exact absurd heq (by decide)
          · exact not_mem_of_tagged hsecond (by decide) hin

/-- The types of names that have a parent. -/
def AssetType.hasParent (type : AssetType) : Bool :=
  type = .sub || type = .unique || type = .msgchannel || type = .vote || type = .subQualifier

/-- The parent of a name is a valid name of a type that can be its parent, and one whose owner
token can exist, unless a vote repeats its delimiter. -/
theorem parent_valid_iff (name : Bytes) (type : AssetType) (htype : type.hasParent = true)
    (h : isAssetNameValid name = .ok type) :
    ((getParentName name).length < name.length ∧
      (type = .subQualifier → isAssetNameValid (getParentName name) = .ok .qualifier) ∧
      (type ≠ .subQualifier →
        (isAssetNameValid (getParentName name) = .ok .root ∨
          isAssetNameValid (getParentName name) = .ok .sub) ∧
        isAssetNameValid (getParentName name ++ ownerTag) = .ok .owner)) ↔
      name.count voteTagDelimiter ≤ 1 := by
  have hnone : voteTagDelimiter ∉ name → name.count voteTagDelimiter ≤ 1 := fun hno =>
    (count_eq_zero.mpr hno).trans_le (Nat.zero_le 1)
  have hplain : type ≠ .subQualifier → (ParentValid name ↔ name.count voteTagDelimiter ≤ 1) := by
    intro hne
    have hfour : type = .sub ∨ type = .unique ∨ type = .msgchannel ∨ type = .vote := by
      simpa [AssetType.hasParent, hne, or_assoc] using htype
    rcases hfour with rfl | rfl | rfl | rfl
    · obtain ⟨hvalid, hno⟩ := parent_of_sub h
      exact iff_of_true hvalid (hnone hno)
    · obtain ⟨hvalid, hno⟩ := parent_of_unique h
      exact iff_of_true hvalid (hnone hno)
    · obtain ⟨hvalid, hno⟩ := parent_of_msgchannel h
      exact iff_of_true hvalid (hnone hno)
    · exact parent_of_vote_iff h
  by_cases hsub : type = .subQualifier
  · subst hsub
    obtain ⟨hshorter, hvalid, hno⟩ := parent_of_subQualifier h
    exact iff_of_true ⟨hshorter, fun _ => hvalid, fun hne => absurd rfl hne⟩ (hnone hno)
  · rw [← hplain hsub]
    constructor
    · rintro ⟨hshorter, -, hrest⟩
      exact ⟨hshorter, (hrest hsub).1, (hrest hsub).2⟩
    · rintro ⟨hshorter, hvalid, howner⟩
      exact ⟨hshorter, fun heq => absurd heq hsub, fun _ => ⟨hvalid, howner⟩⟩

theorem gold_bar_parent :
    isAssetNameValid (str "GOLD/BAR") = .ok .sub ∧
      isAssetNameValid (getParentName (str "GOLD/BAR")) = .ok .root ∧
      isAssetNameValid (getParentName (str "GOLD/BAR") ++ ownerTag) = .ok .owner := by
  have hvalid : isAssetNameValid (str "GOLD/BAR") = .ok .sub := by decide +kernel
  have h := (parent_valid_iff (str "GOLD/BAR") .sub (by decide) hvalid).mpr (by decide +kernel)
  exact ⟨hvalid, by decide +kernel, (h.2.2 (by decide)).2⟩

/-- The parent of this vote is another vote. -/
theorem repeated_vote_parent :
    isAssetNameValid (str "GOLD^X^YES") = .ok .vote ∧ getParentName (str "GOLD^X^YES") = str "GOLD^X" ∧
      isAssetNameValid (str "GOLD^X") = .ok .vote ∧
      isAssetNameValid (str "GOLD^X!") = .error (
        "Name contains invalid characters (Valid characters are: A-Z 0-9 _ .) (special characters " ++
        "can't be the first or last characters)") := by
  decide +kernel

/-! ## Tags and reserved names -/

def coinNames : List Bytes := [str "HNB", str "RAVEN", str "HOOKERSANDBLOWCOIN"]

/-- Somewhere a qualifier or restricted tag is followed by punctuation. -/
def punctuationAfterTag : Bytes → Bool
  | a :: b :: rest =>
      ((a = uniqueTagDelimiter || a = restrictedTagDelimiter) && isPunctuation b) ||
        punctuationAfterTag (b :: rest)
  | _ => false

theorem punctuationAfterTag_plain (h : l.all isNameChar = true) :
    punctuationAfterTag l = false := by
  induction l with
  | nil => rfl
  | cons a rest ih =>
    rw [all_cons, Bool.and_eq_true] at h
    cases rest with
    | nil => rfl
    | cons b rest =>
      have hunique : a ≠ uniqueTagDelimiter := by
        rintro rfl
        exact absurd h.1 (by decide)
      have hrestricted : a ≠ restrictedTagDelimiter := by
        rintro rfl
        exact absurd h.1 (by decide)
      rw [punctuationAfterTag, ih h.2]
      simp [hunique, hrestricted]

theorem punctuationAfterTag_tagged {tag : UInt8} (h : rest.all isNameChar = true) :
    punctuationAfterTag (tag :: rest) = qualifierLeadingPunctuation (tag :: rest) := by
  cases rest with
  | nil => rfl
  | cons b rest =>
    rw [punctuationAfterTag, punctuationAfterTag_plain h, Bool.or_false]
    rfl

theorem punctuationAfterTag_append (front tag : Bytes) :
    punctuationAfterTag (front ++ subNameDelimiter :: tag) =
      (punctuationAfterTag front || punctuationAfterTag tag) := by
  have hnone : punctuationAfterTag (subNameDelimiter :: tag) = punctuationAfterTag tag := by
    cases tag with
    | nil => rfl
    | cons c rest => simp [punctuationAfterTag, subNameDelimiter, uniqueTagDelimiter,
        restrictedTagDelimiter]
  induction front with
  | nil => rw [nil_append, hnone]; rfl
  | cons a rest ih =>
    cases rest with
    | nil =>
      have hslash : isPunctuation subNameDelimiter = false := by decide
      rw [singleton_append, punctuationAfterTag, hslash, Bool.and_false, Bool.false_or,
        hnone]
      rfl
    | cons b rest =>
      rw [cons_append, cons_append, punctuationAfterTag, punctuationAfterTag,
        ← cons_append, ih, Bool.or_assoc]

theorem doublePunctuation_tail (h : doublePunctuation (c :: rest) = false) :
    doublePunctuation rest = false := by
  cases rest with
  | nil => rfl
  | cons b rest =>
    rw [doublePunctuation, Bool.or_eq_false_iff] at h
    exact h.2

theorem trailingPunctuation_tail (hne : rest ≠ []) (h : trailingPunctuation (c :: rest) = false) :
    trailingPunctuation rest = false := by
  rwa [trailingPunctuation, getLast?_cons_of_ne_nil hne] at h

theorem restricted_shape (h : isRestrictedNameValid name = true) :
    ∃ rest, name = restrictedTagDelimiter :: rest ∧ rootNameCharacters rest = true ∧
      doublePunctuation rest = false ∧ trailingPunctuation rest = false := by
  simp only [isRestrictedNameValid, Bool.and_eq_true, Bool.not_eq_true'] at h
  obtain ⟨⟨⟨⟨hchars, hdouble⟩, -⟩, htrailing⟩, -⟩ := h
  obtain ⟨rest, rfl, hroot⟩ := tagged_shape hchars
  have hne : rest ≠ [] := by
    rintro rfl
    simp [rootNameCharacters] at hroot
  exact ⟨rest, rfl, hroot, doublePunctuation_tail hdouble, trailingPunctuation_tail hne htrailing⟩

theorem ravenNames_contains (h : l.all isNameChar = true) :
    ravenNames.contains l = coinNames.contains l := by
  have htagged : ∀ {coin : Bytes}, l ≠ uniqueTagDelimiter :: coin := by
    rintro coin rfl
    rw [all_cons, Bool.and_eq_true] at h
    exact absurd h.1 (by decide)
  have hsplit : ravenNames = coinNames ++ coinNames.map (uniqueTagDelimiter :: ·) := by decide
  rw [Bool.eq_iff_iff, List.contains_iff_mem, List.contains_iff_mem, hsplit, mem_append,
    mem_map]
  constructor
  · rintro (hcoin | ⟨coin, -, heq⟩)
    · exact hcoin
    · exact absurd heq.symm htagged
  · exact .inl

theorem coinNames_of_qualifier (h : isQualifierNameValid (uniqueTagDelimiter :: rest) = true) :
    coinNames.contains rest = false := by
  simp only [isQualifierNameValid, Bool.and_eq_true, Bool.not_eq_true'] at h
  have hsplit : ravenNames = coinNames ++ coinNames.map (uniqueTagDelimiter :: ·) := by decide
  rw [Bool.eq_false_iff, ne_eq, List.contains_iff_mem]
  intro hcoin
  have hmem : uniqueTagDelimiter :: rest ∈ ravenNames := by
    rw [hsplit]
    exact mem_append_right _ (mem_map_of_mem hcoin)
  rw [← List.contains_iff_mem, h.2] at hmem
  cases hmem

/-- What `IsQualifierNameValid` asks of a part beyond its characters, and what the checks of
restricted names and of sub qualifiers leave out. -/
def tagWellUsed (part : Bytes) : Bool :=
  !qualifierLeadingPunctuation part && !coinNames.contains (part.drop 1)

theorem root_of_restricted (h : isRestrictedNameValid (restrictedTagDelimiter :: rest) = true)
    (hused : tagWellUsed (restrictedTagDelimiter :: rest) = true) :
    isRootNameValid rest = true := by
  obtain ⟨rest', heq, hroot, hdouble, htrailing⟩ := restricted_shape h
  obtain rfl := (List.cons.inj heq).2
  have hall := all_of_root hroot
  simp only [tagWellUsed, Bool.and_eq_true, Bool.not_eq_true', drop_succ_cons,
    drop_zero] at hused
  have hleading : leadingPunctuation rest = false := by
    cases rest with
    | nil => rfl
    | cons b rest => simpa [qualifierLeadingPunctuation, leadingPunctuation] using hused.1
  rw [isRootNameValid, hroot, hdouble, hleading, htrailing, ravenNames_contains hall, hused.2]
  rfl

theorem tagWellUsed_of_tag {tag : UInt8} (h : rest.all isNameChar = true) :
    tagWellUsed (tag :: rest) = true ↔
      punctuationAfterTag (tag :: rest) = false ∧ rest ∉ coinNames := by
  rw [tagWellUsed, punctuationAfterTag_tagged h, Bool.and_eq_true, Bool.not_eq_true',
    Bool.not_eq_true', drop_succ_cons, drop_zero, ← List.contains_iff_mem,
    Bool.not_eq_true]

theorem qualifier_tags (h : isQualifierNameValid front = true) :
    punctuationAfterTag front = false ∧ front.drop 1 ∉ coinNames := by
  obtain ⟨rest, rfl, hroot⟩ := qualifier_shape h
  apply (tagWellUsed_of_tag (all_of_root hroot)).mp
  have hcoin := coinNames_of_qualifier h
  simp only [isQualifierNameValid, Bool.and_eq_true] at h
  rw [tagWellUsed, h.1.1.2, drop_succ_cons, drop_zero, hcoin]
  rfl

theorem restricted_tags_iff (h : isAssetNameValid name = .ok .restricted) :
    (isAssetNameValid (name.drop 1) = .ok .root ∧
        isAssetNameValid (restrictedNameToOwnerName name) = .ok .owner) ∧
      punctuationAfterTag name = false ∧ name.drop 1 ∉ coinNames ↔ tagWellUsed name = true := by
  cases nameForm_of_isAssetNameValid h with
  | restricted indicator check =>
    obtain ⟨hlength, hvalid⟩ := check_ok check
    have howner : restrictedNameToOwnerName name = name.drop 1 ++ ownerTag := by
      rw [restrictedNameToOwnerName, if_pos]
      simp [isAssetNameAnRestricted, nameValid, h, indicator, Except.isOk, Except.toBool]
    obtain ⟨rest, rfl, hroot, -⟩ := restricted_shape hvalid
    rw [howner, drop_succ_cons, drop_zero]
    rw [← tagWellUsed_of_tag (all_of_root hroot)]
    refine ⟨And.right, fun hused => ⟨?_, hused⟩⟩
    have hplain : isRootNameValid rest = true := root_of_restricted hvalid hused
    have hno : subNameDelimiter ∉ rest := by
      intro hmem
      exact absurd (isNameChar_of_root hplain hmem) (by decide)
    have hparts : isNameValidBeforeTag rest = true := by
      simp [isNameValidBeforeTag, splitOn_eq_singleton hno, hplain]
    have hone : isAssetNameASubasset rest = false := by
      simp [isAssetNameASubasset, splitOn_eq_singleton hno]
    have hthirty : rest.length ≤ 30 := by
      rw [length_cons, maxNameLength] at hlength
      omega
    have hname := isAssetNameValid_of_parts hparts hthirty
    rw [hone] at hname
    exact ⟨hname, isAssetNameValid_owner_of_parts hparts hthirty⟩

/-- Qualifiers never misuse their tag. A restricted name and the second part of a sub qualifier may
do it, and the root of such a restricted name is then no valid name. -/
theorem tags_valid_iff (name : Bytes) (type : AssetType)
    (htype : type = .qualifier ∨ type = .subQualifier ∨ type = .restricted)
    (h : isAssetNameValid name = .ok type) :
    ((type = .restricted → isAssetNameValid (name.drop 1) = .ok .root ∧
          isAssetNameValid (restrictedNameToOwnerName name) = .ok .owner) ∧
        punctuationAfterTag name = false ∧
        ∀ part ∈ name.splitOn subNameDelimiter, part.drop 1 ∉ coinNames) ↔
      tagWellUsed ((name.splitOn subNameDelimiter).getLastD []) = true := by
  rcases htype with rfl | rfl | rfl
  · cases nameForm_of_isAssetNameValid h with
    | qualifier indicator check one =>
      rcases qualifier_parts (check_ok check).2 with ⟨hvalid, hno⟩ | ⟨front, tag, rfl, hrest⟩
      · obtain ⟨hpunct, hcoin⟩ := qualifier_tags hvalid
        obtain ⟨rest, rfl, hroot⟩ := qualifier_shape hvalid
        rw [splitOn_eq_singleton hno]
        refine iff_of_true ⟨fun heq => (by cases heq), hpunct, ?_⟩
          ((tagWellUsed_of_tag (all_of_root hroot)).mpr ⟨hpunct, hcoin⟩)
        simpa using hcoin
      · simp [isAssetNameASubQualifier, splitOn_front hrest.1,
          splitOn_eq_singleton hrest.2.1, hrest.2.2.1] at one
  · cases nameForm_of_isAssetNameValid h with
    | subQualifier indicator check two =>
      rcases qualifier_parts (check_ok check).2 with ⟨-, hno⟩ |
        ⟨front, tag, rfl, hfront, htag, hvalid, hsub⟩
      · simp [isAssetNameASubQualifier, splitOn_eq_singleton hno] at two
      · obtain ⟨hpunct, hcoin⟩ := qualifier_tags hvalid
        obtain ⟨second, rfl, hsecond⟩ := subQualifier_shape hsub
        rw [splitOn_front hfront, splitOn_eq_singleton htag, punctuationAfterTag_append, hpunct,
          Bool.false_or]
        have hlast : [front, uniqueTagDelimiter :: second].getLastD [] =
          uniqueTagDelimiter :: second := rfl
        rw [hlast, tagWellUsed_of_tag hsecond]
        constructor
        · rintro ⟨-, hown, hparts⟩
          exact ⟨hown, hparts (uniqueTagDelimiter :: second) (by simp)⟩
        · rintro ⟨hown, hcoin'⟩
          refine ⟨fun heq => (by cases heq), hown, fun part hpart => ?_⟩
          rcases mem_pair.mp hpart with rfl | rfl
          · exact hcoin
          · exact hcoin'
  · have hno : subNameDelimiter ∉ name := by
      cases nameForm_of_isAssetNameValid h with
      | restricted indicator check =>
        obtain ⟨rest, rfl, hroot, -⟩ := restricted_shape (check_ok check).2
        exact not_mem_of_tagged (all_of_root hroot) (by decide)
    have hlast : [name].getLastD [] = name := rfl
    rw [splitOn_eq_singleton hno, hlast, ← restricted_tags_iff h]
    simp

theorem gold_restricted_root :
    isAssetNameValid (str "$GOLD") = .ok .restricted ∧
      isAssetNameValid (str "GOLD") = .ok .root ∧
      isAssetNameValid (restrictedNameToOwnerName (str "$GOLD")) = .ok .owner := by
  have hvalid : isAssetNameValid (str "$GOLD") = .ok .restricted := by decide +kernel
  have h := (tags_valid_iff (str "$GOLD") .restricted (.inr (.inr rfl)) hvalid).mpr (by decide +kernel)
  exact ⟨hvalid, h.1 rfl⟩

/-- Accepted names whose root is refused, for the punctuation and for the reserved name. -/
theorem punctuated_restricted_accepted :
    isAssetNameValid (str "$_GOLD") = .ok .restricted ∧ nameValid (str "_GOLD") = false ∧
      nameValid (restrictedNameToOwnerName (str "$_GOLD")) = false ∧
      isAssetNameValid (str "$HNB") = .ok .restricted ∧ nameValid (str "HNB") = false ∧
      isAssetNameValid (str "#GOLD/#_BAR") = .ok .subQualifier ∧
      isAssetNameValid (str "#GOLD/#HNB") = .ok .subQualifier := by
  decide +kernel

end HnbCore
