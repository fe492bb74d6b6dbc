import HnbCore.DisconnectBlock
import HnbCore.Quiet

/-!
# Tags and freezes as marks

An output can mark an address with a qualifier, freeze an address, or freeze an asset altogether.
Connecting writes the marks of the outputs into the view, disconnecting takes them back.
-/

namespace HnbCore

open Checks AssetState Option CScript CAssetsCache

/-- What can be marked. -/
inductive MarkTarget
  | tag (name address : Bytes)
  | freeze (name address : Bytes)
  | freezeAll (name : Bytes)
  deriving DecidableEq, Repr

/-- A mark sets something or clears it. -/
structure Mark where
  target : MarkTarget
  sets : Bool
  deriving DecidableEq, Repr

def tagType (sets : Bool) : QualifierType := if sets then .addQualifier else .removeQualifier

def freezeType (sets : Bool) : RestrictedType := if sets then .freezeAddress else .unfreezeAddress

def globalType (sets : Bool) : RestrictedType := if sets then .globalFreeze else .globalUnfreeze

namespace CAssetsCache

def mark (v : CAssetsCache) (m : Mark) : CAssetsCache :=
  match m.target with
  | .tag name address => v.addQualifierAddress name address (tagType m.sets)
  | .freeze name address => v.addRestrictedAddress name address (freezeType m.sets)
  | .freezeAll name => v.addGlobalRestricted name (globalType m.sets)

def unmark (v : CAssetsCache) (m : Mark) : CAssetsCache :=
  match m.target with
  | .tag name address => v.removeQualifierAddress name address (tagType m.sets)
  | .freeze name address => v.removeRestrictedAddress name address (freezeType m.sets)
  | .freezeAll name => v.removeGlobalRestricted name (globalType m.sets)

end CAssetsCache

/-- The mark of a tag or a freeze of an address. -/
def CNullAssetTxData.mark? (data : CNullAssetTxData) (address : Bytes) : Option Mark :=
  match assetTypeOf data.assetName with
  | .restricted => some ⟨.freeze data.assetName address, data.flag ≠ 0⟩
  | .qualifier | .subQualifier => some ⟨.tag data.assetName address, data.flag ≠ 0⟩
  | _ => none

/-- The mark that a script makes when it is connected. -/
def CScript.mark? (script : CScript) (env : Env) : Option Mark :=
  if script.isNullAssetTxDataScript then
    let (data, address) := (assetNullDataFromScript env script).getD (nullTxData, [])
    data.mark? address
  else if script.isNullGlobalRestrictionAssetTxDataScript then
    let data := (globalAssetNullDataFromScript script).getD nullTxData
    some ⟨.freezeAll data.assetName, data.flag ≠ 0⟩
  else none

/-- The view with the mark of an output, if it makes one. -/
def CAssetsCache.markOf (v : CAssetsCache) (mark : Option Mark) : CAssetsCache := mark.elim v v.mark

def CAssetsCache.unmarkOf (v : CAssetsCache) (mark : Option Mark) : CAssetsCache :=
  mark.elim v v.unmark

theorem addNullAssetData_eq (env : Env) (script : CScript) (s : AssetState) :
    addNullAssetData env script s = { s with view := s.view.markOf (script.mark? env) } := by
  unfold addNullAssetData mark?
  split
  · generalize (assetNullDataFromScript env script).getD (nullTxData, []) = found
    dsimp only [CNullAssetTxData.mark?]
    cases assetTypeOf found.1.assetName <;> by_cases hflag : found.1.flag = 0 <;>
      simp [markOf, mark, tagType, freezeType, hflag]
  · generalize (globalAssetNullDataFromScript script).getD nullTxData = data
    by_cases hflag : data.flag = 0 <;> split <;>
      simp [markOf, mark, globalType, hflag]

/-- Only null asset scripts make marks, and those with a verifier string do not. -/
theorem CScript.mark?_eq_none {script : CScript} {env : Env}
    (h : script.isNullAsset = false ∨ script.isNullAssetVerifierTxDataScript = true) :
    script.mark? env = none := by
  have hneither : script.isNullAssetTxDataScript = false ∧
      script.isNullGlobalRestrictionAssetTxDataScript = false := by
    rcases h with hnull | hverifier
    · simp only [isNullAsset, Bool.or_eq_false_iff] at hnull
      exact ⟨hnull.1.1, hnull.1.2⟩
    · unfold isNullAssetVerifierTxDataScript at hverifier
      unfold isNullAssetTxDataScript isNullGlobalRestrictionAssetTxDataScript
      simp only [Bool.and_eq_true, decide_eq_true_eq] at hverifier
      constructor
      · simp [hverifier, opReserved]
      · simp [hverifier]
  simp [mark?, hneither]

/-- An output books its transfer, if it has one, and makes its mark. -/
theorem addAssetOutput_eq (env : Env) (out : COutPoint) (script : CScript) (s : AssetState) :
    ∃ t, Quiet env.hashes s t ∧
      addAssetOutput env out script s = { t with view := t.view.markOf (script.mark? env) } := by
  have hnull : ∀ t : AssetState, (if script.isNullAsset then addNullAssetData env script t else t) =
      { t with view := t.view.markOf (script.mark? env) } := by
    intro t
    cases hscript : script.isNullAsset with
    | true => exact addNullAssetData_eq env script t
    | false =>
      rw [mark?_eq_none (.inl hscript)]
      rfl
  unfold addAssetOutput
  rw [hnull]
  refine ⟨_, ?_, rfl⟩
  split
  · split
    · exact addTransferAsset_quiet s
    · exact .refl s
  · exact .refl s

/-- A null asset script begins with the asset opcode. -/
theorem isUnspendable_of_isNullAsset {script : CScript} (h : script.isNullAsset = true) :
    isUnspendable script = true := by
  simp only [isNullAsset, isNullAssetTxDataScript,
    isNullGlobalRestrictionAssetTxDataScript, isNullAssetVerifierTxDataScript,
    Bool.or_eq_true, Bool.and_eq_true, decide_eq_true_eq] at h
  have hbyte : 0 < script.length ∧ script.byteAt 0 = opHnbAsset := by
    rcases h with (⟨⟨hlength, hbyte⟩, -⟩ | ⟨⟨⟨hlength, hbyte⟩, -⟩, -⟩) | ⟨⟨⟨hlength, hbyte⟩, -⟩, -⟩ <;>
      exact ⟨by omega, hbyte⟩
  simp [isUnspendable, hbyte]

/-- Disconnecting an output takes its mark back. -/
theorem removeNullAssetOutput_ok {env : Env} {output : COutPoint × CTxOut} {s t : AssetState}
    {u : Unit} (h : removeNullAssetOutput env output s = .ok u t) :
    t = { s with view := s.view.unmarkOf (output.2.scriptPubKey.mark? env) } := by
  rw [removeNullAssetOutput, run_onlyIf_eq_ok] at h
  split at h
  case isFalse hskipped =>
    have hnone : output.2.scriptPubKey.mark? env = none := by
      refine mark?_eq_none ?_
      cases hnull : output.2.scriptPubKey.isNullAsset with
      | false => exact .inl rfl
      | true => simpa [isUnspendable_of_isNullAsset hnull, hnull] using hskipped
    rw [hnone]
    exact h.symm
  case isTrue =>
    split at h
    case isTrue hdata =>
      simp only [run_bind_eq_ok, run_lift_eq_ok, require_eq_ok, run_modify_eq_ok] at h
      obtain ⟨⟨data, address⟩, _, ⟨hread, rfl⟩, rfl⟩ := h
      simp only [mark?, hdata, if_true, hread, getD_some, removeNullAssetTxData,
        CNullAssetTxData.mark?]
      cases assetTypeOf data.assetName <;> by_cases hflag : data.flag = 0 <;>
        simp [unmarkOf, unmark, tagType, freezeType, hflag]
    case isFalse hdata =>
      split at h
      case isTrue hglobal =>
        simp only [run_bind_eq_ok, run_lift_eq_ok, require_eq_ok, run_modify_eq_ok] at h
        obtain ⟨data, _, ⟨hread, rfl⟩, rfl⟩ := h
        simp only [mark?, hdata, hglobal, if_true, hread, getD_some]
        by_cases hflag : data.flag = 0 <;>
          simp [unmarkOf, unmark, globalType, hflag]
      case isFalse hglobal =>
        rw [run_pure_eq_ok] at h
        simp [mark?, hdata, hglobal, unmarkOf, h.2]

/-- A cache with nothing but its tags and freezes. -/
def CAssetsCache.marking (v : CAssetsCache) : CAssetsCache :=
  { fresh with
    setNewQualifierAddressToAdd := v.setNewQualifierAddressToAdd
    setNewQualifierAddressToRemove := v.setNewQualifierAddressToRemove
    setNewRestrictedAddressToAdd := v.setNewRestrictedAddressToAdd
    setNewRestrictedAddressToRemove := v.setNewRestrictedAddressToRemove
    setNewRestrictedGlobalToAdd := v.setNewRestrictedGlobalToAdd
    setNewRestrictedGlobalToRemove := v.setNewRestrictedGlobalToRemove
    mapRootQualifierAddressesAdd := v.mapRootQualifierAddressesAdd
    mapRootQualifierAddressesRemove := v.mapRootQualifierAddressesRemove }

end HnbCore
