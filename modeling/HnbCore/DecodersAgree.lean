import HnbCore.AddressIndex
import HnbCore.IssueShape
import HnbCore.ScriptRoundTrip

/-!
# The decoders of asset scripts

An asset script is read in four places: for the amount that makes an output unspendable, for the
coins an input spends, for the address index, and for transfers. They differ in where they start
and in how much they read. On the scripts of accepted transactions they agree.
-/

namespace HnbCore

open Checks List Option

section Scripts

variable {env : Env} {script : CScript}

def nameAndAmount (env : Env) (script : CScript) : Option (Bytes × CAmount) :=
  (getAssetData env script).map fun data => (data.assetName, data.nAmount)

def parsedAsset (env : Env) (script : CScript) : Option (Bytes × CAmount) :=
  (parseAssetScript env script).map Prod.snd

def transferredAsset (env : Env) (script : CScript) : Option (Bytes × CAmount) :=
  (transferAssetFromScript env script).map fun found => (found.1.strName, found.1.nAmount)

/-- All decoders fail, or all give the same name and amount; the one for transfers reads transfers
only. -/
structure DecodersAgree (env : Env) (script : CScript) : Prop where
  parsed : parsedAsset env script = nameAndAmount env script
  amount : getAssetAmountFromScript script = (nameAndAmount env script).map Prod.snd
  transfer : transferredAsset env script =
    if script.isTransferAsset then nameAndAmount env script else none

/-- The kinds of asset script, and where their data starts. -/
theorem isAssetScript_kinds {a : CScript.AssetScript} (h : script.isAssetScript = some a) :
    31 < script.length ∧ (a.nStartingIndex = 31 ∨ a.nStartingIndex = 32) ∧
      (a = ⟨.txTransferAsset, false, a.nStartingIndex⟩ ∧
          script.byteAt (a.nStartingIndex - 1) = hnbT ∨
        a = ⟨.txNewAsset, false, a.nStartingIndex⟩ ∨ a = ⟨.txNewAsset, true, a.nStartingIndex⟩ ∨
        a = ⟨.txReissueAsset, false, a.nStartingIndex⟩) := by
  unfold CScript.isAssetScript at h
  split at h
  case isFalse => cases h
  case isTrue hmark =>
    simp only [Bool.and_eq_true, decide_eq_true_eq] at hmark
    refine ⟨hmark.1, ?_⟩
    cases hend : script.assetMarkerEnd with
    | none => simp [hend] at h
    | some index =>
      have hindex : index = 30 ∨ index = 31 := by
        unfold CScript.assetMarkerEnd at hend
        split_ifs at hend <;> simp_all
      simp only [hend] at h
      split_ifs at h with ht hq ho hr <;> cases h <;> simp_all

/-- The two readers of coins and of the address index go to the same functions. -/
theorem parsedAsset_eq (env : Env) (script : CScript) :
    parsedAsset env script = nameAndAmount env script := by
  unfold parsedAsset nameAndAmount parseAssetScript getAssetData
  cases hasset : script.isAssetScript with
  | none => rfl
  | some a =>
    obtain ⟨-, -, ⟨ha, -⟩ | ha | ha | ha⟩ := isAssetScript_kinds hasset <;> rw [ha]
    case inl => cases transferAssetFromScript env script <;> rfl
    case inr.inl => cases assetFromScript env script <;> rfl
    case inr.inr.inl => cases ownerAssetFromScript env script <;> rfl
    case inr.inr.inr => cases reissueAssetFromScript env script <;> rfl

theorem reader_bind_eq_some {α β : Type} {r : Reader α} {f : α → Reader β} {s : Bytes}
    {out : β × Bytes} :
    (r >>= f) s = some out ↔ ∃ a rest, r s = some (a, rest) ∧ f a rest = some out := by
  simp [bind, StateT.bind, bind_eq_some_iff]

/-- Read from the letter in front of its data, a transfer has a name of as many bytes as the letter
stands for. -/
theorem transfer_from_letter {rest : Bytes} {transfer : CAssetTransfer}
    (h : fromStream CAssetTransfer.unserialize (hnbT :: rest) = some transfer) :
    transfer.strName.length = 116 := by
  have hsize : readCompactSize (hnbT :: rest) = some (116, rest) := rfl
  obtain ⟨out, hread, rfl⟩ := map_eq_some_iff.mp h
  rw [CAssetTransfer.unserialize, readString, reader_bind_eq_some] at hread
  obtain ⟨name, more, hname, hread⟩ := hread
  rw [reader_bind hsize, readBytes] at hname
  split at hname
  case isFalse => cases hname
  case isTrue hlen =>
    simp only [some.injEq, Prod.mk.injEq] at hname
    have hlength : name.length = 116 := by
      rw [← hname.1, length_take]
      omega
    obtain ⟨amount, rest₁, -, hread⟩ := reader_bind_eq_some.mp hread
    obtain ⟨⟨message, found⟩, rest₂, -, hread⟩ := reader_bind_eq_some.mp hread
    obtain ⟨left, rest₃, -, hread⟩ := reader_bind_eq_some.mp hread
    split at hread
    all_goals
      obtain ⟨time, rest₄, -, hread⟩ := reader_bind_eq_some.mp hread
      obtain rfl := some.inj hread
      exact hlength

/-- A transfer with a valid name was read from behind the marker, wherever the deployment has the
reader start. -/
theorem transfer_from_start {a : CScript.AssetScript} (hasset : script.isAssetScript = some a)
    {transfer : CAssetTransfer} {address : Bytes}
    (h : transferAssetFromScript env script = some (transfer, address))
    (hvalid : nameValid transfer.strName = true) :
    fromStream CAssetTransfer.unserialize (script.drop a.nStartingIndex) = some transfer := by
  have hshort := length_of_valid hvalid
  obtain ⟨hlen, hstart, hkind⟩ := isAssetScript_kinds hasset
  rw [transferAssetFromScript, isScriptTransferAsset, assetDataStart, hasset] at h
  rcases hkind with ⟨ha, hletter⟩ | ha | ha | ha
  case inl =>
    have htype : (a.nType = .txTransferAsset && a.fIsOwner = false) = true := by
      rw [ha]
      rfl
    simp only [htype, if_true, map_some, fromScript, map_eq_some_iff,
      Prod.mk.injEq] at h
    obtain ⟨found, hread, rfl, -⟩ := h
    split at hread
    case isTrue => exact hread
    case isFalse =>
      rcases hstart with hstart | hstart
      · rw [hstart]
        exact hread
      · -- the reader began at the letter, so the name it found is too long
        rw [hstart] at hletter
        have hcons : script.drop 31 = hnbT :: script.drop 32 := by
          have hget : script[31]? = some hnbT := byteAt_eq hletter (by decide)
          rw [getElem?_eq_getElem hlen, some.injEq] at hget
          rw [drop_eq_getElem_cons hlen, hget]
        rw [hcons] at hread
        have hlong := transfer_from_letter hread
        omega
  all_goals
    rw [ha] at h
    cases h

/-- What an accepted transaction guarantees of a script: an owner token can be read, and a transfer
can be read under a valid name. -/
structure Legible (env : Env) (script : CScript) : Prop where
  owner : script.isOwnerAsset = true → (ownerAssetFromScript env script).isSome = true
  transfer : script.isTransferAsset = true → ∃ transfer address,
    transferAssetFromScript env script = some (transfer, address) ∧
      nameValid transfer.strName = true

theorem getAssetAmount_eq (h : Legible env script) :
    getAssetAmountFromScript script = (nameAndAmount env script).map Prod.snd := by
  unfold getAssetAmountFromScript nameAndAmount getAssetData
  cases hasset : script.isAssetScript with
  | none => rfl
  | some a =>
    obtain ⟨-, -, ⟨ha, -⟩ | ha | ha | ha⟩ := isAssetScript_kinds hasset
    case inl =>
      have htransfer : script.isTransferAsset = true := by
        rw [CScript.isTransferAsset, hasset, ha]
        rfl
      obtain ⟨transfer, address, hread, hvalid⟩ := h.transfer htransfer
      have hstart := transfer_from_start hasset hread hvalid
      rw [ha] at hstart ⊢
      simp [hread, hstart]
    case inr.inl =>
      rw [assetFromScript, isScriptNewAsset, assetDataStart, hasset, ha]
      cases hread : fromStream CNewAsset.unserialize (script.drop a.nStartingIndex) <;>
        simp [fromScript, hread]
    case inr.inr.inl =>
      have howner : script.isOwnerAsset = true := by
        rw [CScript.isOwnerAsset, hasset, ha]
        rfl
      obtain ⟨found, hread⟩ := isSome_iff_exists.mp (h.owner howner)
      rw [ha]
      simp [hread]
    case inr.inr.inr =>
      rw [reissueAssetFromScript, isScriptReissueAsset, assetDataStart, hasset, ha]
      cases hread : fromStream CReissueAsset.unserialize (script.drop a.nStartingIndex) <;>
        simp [fromScript, hread]

theorem transferredAsset_eq (env : Env) (script : CScript) :
    transferredAsset env script =
      if script.isTransferAsset then nameAndAmount env script else none := by
  unfold transferredAsset nameAndAmount getAssetData CScript.isTransferAsset
  cases hasset : script.isAssetScript with
  | none => simp [transferAssetFromScript, isScriptTransferAsset, assetDataStart, hasset, fromScript]
  | some a =>
    obtain ⟨-, -, ⟨ha, -⟩ | ha | ha | ha⟩ := isAssetScript_kinds hasset
    case inl =>
      rw [ha]
      cases transferAssetFromScript env script <;> rfl
    all_goals
      rw [transferAssetFromScript, isScriptTransferAsset, assetDataStart, hasset, ha]
      rfl

theorem decodersAgree_of_legible (h : Legible env script) : DecodersAgree env script :=
  ⟨parsedAsset_eq env script, getAssetAmount_eq h, transferredAsset_eq env script⟩

end Scripts

theorem legible_of_accepted {env : Env} {tx : CTransaction} {d m b : Bool}
    (h : Accepted env tx d m b) {out : CTxOut} (hout : out ∈ tx.vout) :
    Legible env out.scriptPubKey := by
  constructor
  case owner =>
    intro howner
    have hmem : out ∈ tx.owners := mem_filter.mpr ⟨hout, howner⟩
    obtain ⟨shape, hshape⟩ := exists_hasShape h
    cases shape with
    | issueWithOwner =>
      obtain ⟨issue, owner, asset, address, -, howners, -, -, hread, -⟩ := hshape
      rw [howners, mem_singleton] at hmem
      rw [hmem, hread]
      rfl
    | nothing => simp [hshape.2.1] at hmem
    | issueAlone =>
      obtain ⟨issue, asset, address, -, hnone, -⟩ := hshape
      simp [hnone] at hmem
    | uniques => simp [hshape.2.1] at hmem
    | reissue =>
      obtain ⟨reissued, reissue, address, -, hnone, -⟩ := hshape
      simp [hnone] at hmem
  case transfer =>
    intro htransfer
    obtain ⟨scan, hscan⟩ := h.outputs
    obtain ⟨s₁, s₂, hround⟩ := foldlM_mem hscan hout
    simp only [checkOut, bind_eq_ok] at hround
    obtain ⟨_, -, _, -, _, -, s₃, -, hasset⟩ := hround
    unfold CScript.isTransferAsset at htransfer
    cases ha : out.scriptPubKey.isAssetScript with
    | none => simp [ha] at htransfer
    | some a =>
      have htype : a.nType = .txTransferAsset := by simpa [ha] using htransfer
      simp only [checkAssetOut, ha, htype, checkTransferOut, bind_eq_ok, require_eq_ok] at hasset
      obtain ⟨⟨transfer, address⟩, hread, type, hname, -⟩ := hasset
      exact ⟨transfer, address, hread, nameValid_of_toOption hname⟩

/-- The decoders agree. On every script of an accepted transaction all decoders fail or give the
same name and amount, and an output that is dropped for its amount has amount zero for each. -/
theorem decoders_agree (env : Env) (tx : CTransaction)
    (fCheckDuplicateInputs fMempoolCheck fBlockCheck : Bool)
    (h : checkTransaction env tx fCheckDuplicateInputs fMempoolCheck fBlockCheck = .ok ()) :
    ∀ out ∈ tx.vout, DecodersAgree env out.scriptPubKey ∧
      (isUnspendable out.scriptPubKey = true → out.scriptPubKey.byteAt 0 ≠ opReturn →
        out.scriptPubKey.byteAt 0 ≠ opHnbAsset → out.scriptPubKey.length ≤ maxScriptSize →
        ∃ name, nameAndAmount env out.scriptPubKey = some (name, 0)) := by
  intro out hout
  have hagree := decodersAgree_of_legible (legible_of_accepted (checkTransaction_accepted h) hout)
  refine ⟨hagree, fun hdropped hreturn hmarker hsize => ?_⟩
  have hlarge : ¬out.scriptPubKey.length > maxScriptSize := by omega
  have hzero : getAssetAmountFromScript out.scriptPubKey = some 0 := by
    simpa [isUnspendable, hreturn, hmarker, hlarge] using hdropped
  rw [hagree.amount, map_eq_some_iff] at hzero
  obtain ⟨⟨name, amount⟩, hfound, rfl⟩ := hzero
  exact ⟨name, hfound⟩

theorem goldTx_decoders_agree :
    checkTransaction regTestEnv (goldTx [10, 0]) true false true = .ok () ∧
      (∀ out ∈ (goldTx [10, 0]).vout, DecodersAgree regTestEnv out.scriptPubKey) ∧
      isUnspendable (goldTransfer 0).scriptPubKey = true ∧
      ∃ name, nameAndAmount regTestEnv (goldTransfer 0).scriptPubKey = some (name, 0) := by
  have hok : checkTransaction regTestEnv (goldTx [10, 0]) true false true = .ok () := by
    decide +kernel
  have hdropped : isUnspendable (goldTransfer 0).scriptPubKey = true := by decide +kernel
  have hall := decoders_agree regTestEnv (goldTx [10, 0]) true false true hok
  exact ⟨hok, fun out hout => (hall out hout).1, hdropped,
    (hall (goldTransfer 0) (by simp [goldTx])).2 hdropped (by decide) (by decide) (by decide +kernel)⟩

/-- The script of a transfer whose first byte is `OP_RETURN`. -/
def returnedGold (nAmount : CAmount) : CTxOut :=
  ⟨0, CAssetTransfer.constructTransaction ⟨str "GOLD", nAmount, [], 0⟩
    (opReturn :: (scriptForKeyID issuerKey).drop 1)⟩

def returnedGoldTx : CTransaction := ⟨[⟨⟨1, 0⟩, []⟩], [returnedGold 10], 2⟩

/-- The output is dropped although it moves ten units, in a transaction that all checks accept; and
an issue is no transfer. -/
theorem returned_gold_dropped :
    checkTransaction regTestEnv returnedGoldTx true false true = .ok () ∧
      (∃ pairs t, checkTxAssets regTestEnv {} goldCoins returnedGoldTx false goldState =
        .ok pairs t) ∧
      isUnspendable (returnedGold 10).scriptPubKey = true ∧
      nameAndAmount regTestEnv (returnedGold 10).scriptPubKey = some (str "GOLD", 10) ∧
      checkTransaction regTestEnv channelTx true false true = .ok () ∧ channelIssue ∈ channelTx.vout ∧
      nameAndAmount regTestEnv channelIssue.scriptPubKey = some (str "TEST~CHAN", coin) ∧
      transferredAsset regTestEnv channelIssue.scriptPubKey = none := by
  exact ⟨by decide +kernel, succeeded_iff.mp (by decide +kernel), by decide +kernel⟩

end HnbCore
