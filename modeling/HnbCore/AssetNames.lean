import HnbCore.Bytes

/-!
# Asset names

The regular expressions of the name grammar, as the predicates they accept, and the functions
that give a name its type.
-/

namespace HnbCore

inductive AssetType
  | root
  | sub
  | unique
  | msgchannel
  | qualifier
  | subQualifier
  | restricted
  | vote
  | reissue
  | owner
  | nullAddQualifier
  | invalid
  deriving DecidableEq, Repr

def maxNameLength : Nat := 31
def maxChannelNameLength : Nat := 12
def minAssetLength : Nat := 3

def ownerTag : Bytes := str "!"

def subNameDelimiter : UInt8 := 0x2f
def uniqueTagDelimiter : UInt8 := 0x23
def msgChannelTagDelimiter : UInt8 := 0x7e
def voteTagDelimiter : UInt8 := 0x5e
def restrictedTagDelimiter : UInt8 := 0x24
def ownerTagChar : UInt8 := 0x21

def isUpper (c : UInt8) : Bool := 0x41 ≤ c && c ≤ 0x5a

def isLower (c : UInt8) : Bool := 0x61 ≤ c && c ≤ 0x7a

def isDigit (c : UInt8) : Bool := 0x30 ≤ c && c ≤ 0x39

/-- `[._]` -/
def isPunctuation (c : UInt8) : Bool := c = 0x2e || c = 0x5f

/-- `[A-Z0-9._]` -/
def isNameChar (c : UInt8) : Bool := isUpper c || isDigit c || isPunctuation c

variable (name : Bytes)

def rootNameCharacters : Bool := name.length ≥ 3 && name.all isNameChar

def subNameCharacters : Bool := name.length ≥ 1 && name.all isNameChar

variable (tag : Bytes)

def uniqueTagCharacters : Bool :=
  tag.length ≥ 1 && tag.all fun c =>
    isUpper c || isLower c || isDigit c || (str "-@$%&*()[]\x7b\x7d_.?:").contains c

def msgChannelTagCharacters : Bool :=
  tag.length ≥ 1 && tag.all fun c => isUpper c || isLower c || isDigit c || c = 0x5f

def voteTagCharacters : Bool := subNameCharacters tag

/-- A leading tag character and then a name of the given characters. -/
def tagged (tag : UInt8) (body : Bytes → Bool) (name : Bytes) : Bool :=
  match name with
  | [] => false
  | c :: rest => c = tag && body rest

def qualifierNameCharacters : Bool :=
  tagged uniqueTagDelimiter rootNameCharacters name

def subQualifierNameCharacters : Bool :=
  tagged uniqueTagDelimiter subNameCharacters name

def restrictedNameCharacters : Bool :=
  tagged restrictedTagDelimiter rootNameCharacters name

/-- Two punctuation characters in a row; asked only of names without line breaks. -/
def doublePunctuation : Bytes → Bool
  | a :: b :: rest => (isPunctuation a && isPunctuation b) || doublePunctuation (b :: rest)
  | _ => false

def leadingPunctuation : Bool := name.head?.any isPunctuation

def trailingPunctuation : Bool := name.getLast?.any isPunctuation

def qualifierLeadingPunctuation : Bytes → Bool
  | a :: b :: _ => (a = uniqueTagDelimiter || a = restrictedTagDelimiter) && isPunctuation b
  | _ => false

def ravenNames : List Bytes :=
  [str "HNB", str "RAVEN", str "HOOKERSANDBLOWCOIN",
   str "#HNB", str "#RAVEN", str "#HOOKERSANDBLOWCOIN"]

/-- `[^^~#!]+` -/
def beforeTag : Bool :=
  name.length ≥ 1 && name.all fun c =>
    c ≠ voteTagDelimiter && c ≠ msgChannelTagDelimiter && c ≠ uniqueTagDelimiter && c ≠ ownerTagChar

/-- `[^~#!\/]+` -/
def afterTag : Bool :=
  tag.length ≥ 1 && tag.all fun c =>
    c ≠ msgChannelTagDelimiter && c ≠ uniqueTagDelimiter && c ≠ ownerTagChar && c ≠ subNameDelimiter

/-- `^[^^~#!]+<delimiter>[^~#!\/]+$`: the first delimiter is the one that separates. -/
def tagIndicator (delimiter : UInt8) (name : Bytes) : Bool :=
  match name.dropWhile (· ≠ delimiter) with
  | [] => false
  | _ :: tag => beforeTag (name.takeWhile (· ≠ delimiter)) && afterTag tag

def uniqueIndicator : Bool := tagIndicator uniqueTagDelimiter name

def msgChannelIndicator : Bool := tagIndicator msgChannelTagDelimiter name

def voteIndicator : Bool := tagIndicator voteTagDelimiter name

def ownerIndicator : Bool :=
  name.getLast? = some ownerTagChar && beforeTag name.dropLast

def qualifierIndicator : Bool := qualifierNameCharacters name

def subQualifierIndicator : Bool :=
  match name.dropWhile (· ≠ subNameDelimiter) with
  | [] => false
  | _ :: sub =>
      subQualifierNameCharacters (name.takeWhile (· ≠ subNameDelimiter)) &&
        subQualifierNameCharacters sub

def restrictedIndicator : Bool := restrictedNameCharacters name

def isRootNameValid : Bool :=
  rootNameCharacters name && !doublePunctuation name && !leadingPunctuation name &&
    !trailingPunctuation name && !ravenNames.contains name

def isQualifierNameValid : Bool :=
  qualifierNameCharacters name && !doublePunctuation name && !qualifierLeadingPunctuation name &&
    !trailingPunctuation name && !ravenNames.contains name

def isRestrictedNameValid : Bool :=
  restrictedNameCharacters name && !doublePunctuation name && !leadingPunctuation name &&
    !trailingPunctuation name && !ravenNames.contains name

def isSubQualifierNameValid : Bool :=
  subQualifierNameCharacters name && !doublePunctuation name && !leadingPunctuation name &&
    !trailingPunctuation name

def isSubNameValid : Bool :=
  subNameCharacters name && !doublePunctuation name && !leadingPunctuation name &&
    !trailingPunctuation name

def isUniqueTagValid : Bool := uniqueTagCharacters tag

def isVoteTagValid : Bool := voteTagCharacters tag

def isMsgChannelTagValid : Bool :=
  msgChannelTagCharacters tag && !doublePunctuation tag && !leadingPunctuation tag &&
    !trailingPunctuation tag

def isNameValidBeforeTag : Bool :=
  let parts := name.splitOn subNameDelimiter
  isRootNameValid (parts.headD []) && (parts.drop 1).all isSubNameValid

def isQualifierNameValidBeforeTag : Bool :=
  let parts := name.splitOn subNameDelimiter
  isQualifierNameValid (parts.headD []) && parts.length ≤ 2 &&
    (parts.drop 1).all isSubQualifierNameValid

def isAssetNameASubasset : Bool :=
  let parts := name.splitOn subNameDelimiter
  isRootNameValid (parts.headD []) && parts.length > 1

def isAssetNameASubQualifier : Bool :=
  let parts := name.splitOn subNameDelimiter
  isQualifierNameValid (parts.headD []) && parts.length > 1

/-- `IsTypeCheckNameValid`, with the text it leaves in `error`. -/
def isTypeCheckNameValid (type : AssetType) (name : Bytes) : Except String Unit :=
  let tooLong : Except String Unit := .error "Name is greater than max length of 31"
  match type with
  | .unique =>
      if name.length > maxNameLength then tooLong
      else
        let parts := name.splitOn uniqueTagDelimiter
        if isNameValidBeforeTag (parts.headD []) && isUniqueTagValid (parts.getLastD []) then .ok ()
        else .error "Unique name contains invalid characters (Valid characters are: A-Z a-z 0-9 @ $ % & * ( ) [ ] \x7b \x7d _ . ? : -)"
  | .msgchannel =>
      if name.length > maxNameLength then tooLong
      else
        let parts := name.splitOn msgChannelTagDelimiter
        let valid :=
          isNameValidBeforeTag (parts.headD []) && isMsgChannelTagValid (parts.getLastD [])
        if (parts.getLastD []).length > maxChannelNameLength then
          .error "Channel name is greater than max length of 12"
        else if valid then .ok ()
        else .error "Message Channel name contains invalid characters (Valid characters are: A-Z 0-9 _ .) (special characters can't be the first or last characters)"
  | .owner =>
      if name.length > maxNameLength then tooLong
      else if isNameValidBeforeTag name.dropLast then .ok ()
      else .error "Owner name contains invalid characters (Valid characters are: A-Z 0-9 _ .) (special characters can't be the first or last characters)"
  | .vote =>
      if name.length > maxNameLength then tooLong
      else
        let parts := name.splitOn voteTagDelimiter
        if isNameValidBeforeTag (parts.headD []) && isVoteTagValid (parts.getLastD []) then .ok ()
        else .error "Vote name contains invalid characters (Valid characters are: A-Z 0-9 _ .) (special characters can't be the first or last characters)"
  | .qualifier | .subQualifier =>
      if name.length > maxNameLength then tooLong
      else if isQualifierNameValidBeforeTag name then .ok ()
      else .error "Qualifier name contains invalid characters (Valid characters are: A-Z 0-9 _ .) (# must be the first character, _ . special characters can't be the first or last characters)"
  | .restricted =>
      if name.length > maxNameLength then tooLong
      else if isRestrictedNameValid name then .ok ()
      else .error "Restricted name contains invalid characters (Valid characters are: A-Z 0-9 _ .) ($ must be the first character, _ . special characters can't be the first or last characters)"
  | _ =>
      -- assets and sub-assets leave one character for the owner tag
      if name.length > maxNameLength - 1 then .error "Name is greater than max length of 30"
      else if !isAssetNameASubasset name && name.length < minAssetLength then
        .error "Name must be contain 3 characters"
      else if isNameValidBeforeTag name then .ok ()
      else if isAssetNameASubasset name && name.length < 3 then
        .error "Name must have at least 3 characters (Valid characters are: A-Z 0-9 _ .)"
      else .error "Name contains invalid characters (Valid characters are: A-Z 0-9 _ .) (special characters can't be the first or last characters)"

/-- `IsAssetNameValid`: the type of a valid name, or the error text. A name of more than 40
characters is refused before anything is written to the out-parameters. -/
def isAssetNameValid : Except String AssetType :=
  let check (tested given : AssetType) : Except String AssetType :=
    match isTypeCheckNameValid tested name with
    | .ok () => .ok given
    | .error e => .error e
  if name.length > 40 then .error ""
  else if uniqueIndicator name then check .unique .unique
  else if msgChannelIndicator name then check .msgchannel .msgchannel
  else if ownerIndicator name then check .owner .owner
  else if voteIndicator name then check .vote .vote
  else if qualifierIndicator name then
    check .qualifier (if isAssetNameASubQualifier name then .subQualifier else .qualifier)
  else if subQualifierIndicator name then
    check .subQualifier (if isAssetNameASubQualifier name then .subQualifier else .invalid)
  else if restrictedIndicator name then check .restricted .restricted
  else
    let type : AssetType := if isAssetNameASubasset name then .sub else .root
    check type type

/-- The returned boolean alone. -/
def nameValid : Bool := (isAssetNameValid name).isOk

/-- The type a caller finds in the out-parameter, valid or not. -/
def assetTypeOf : AssetType :=
  match isAssetNameValid name with
  | .ok type => type
  | .error _ => .invalid

def isAssetNameARoot : Bool := nameValid name && assetTypeOf name = .root

def isAssetNameAnOwner : Bool := nameValid name && ownerIndicator name

def isAssetNameAnRestricted : Bool := nameValid name && restrictedIndicator name

def isAssetNameAQualifier (fOnlyQualifiers : Bool) : Bool :=
  if fOnlyQualifiers then nameValid name && qualifierIndicator name
  else nameValid name && (qualifierIndicator name || subQualifierIndicator name)

def isAssetNameAnMsgChannel : Bool := nameValid name && msgChannelIndicator name

def restrictedNameToOwnerName : Bytes :=
  if isAssetNameAnRestricted name then name.drop 1 ++ ownerTag else []

/-- `name.substr(0, name.find_last_of(delimiter))`, the whole name where there is none. -/
def upToLast (delimiter : UInt8) (name : Bytes) : Bytes :=
  match name.reverse.dropWhile (· ≠ delimiter) with
  | [] => name
  | _ :: rest => rest.reverse

def getParentName : Bytes :=
  match isAssetNameValid name with
  | .error _ => []
  | .ok .sub | .ok .subQualifier => upToLast subNameDelimiter name
  | .ok .unique => upToLast uniqueTagDelimiter name
  | .ok .msgchannel => upToLast msgChannelTagDelimiter name
  | .ok .vote => upToLast voteTagDelimiter name
  | .ok _ => name

end HnbCore
