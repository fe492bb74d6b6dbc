import HnbCore.AssetTx

/-!
# `CheckTransaction`

The checks on a transaction that need no chain state.
-/

namespace HnbCore

open Checks

def hexDigit (n : Nat) : UInt8 := UInt8.ofNat (if n < 10 then 0x30 + n else 0x57 + n)

def hexStr (b : Bytes) : Bytes :=
  b.flatMap fun c => [hexDigit (c.toNat / 16), hexDigit (c.toNat % 16)]

def isHex (s : Bytes) : Bool :=
  s.all (fun c => isDigit c || (0x61 ≤ c && c ≤ 0x66) || (0x41 ≤ c && c ≤ 0x46)) &&
    s.length > 0 && s.length % 2 = 0

def encodeAssetData (decoded : Bytes) : Bytes :=
  if decoded.length = 34 then encodeBase58 decoded
  else if decoded.length = 32 then hexStr decoded
  else []

variable (env : Env)

def checkEncoded (hash : Bytes) : Except String Unit :=
  let encodedStr := encodeAssetData hash
  ensure ((encodedStr.take 2 = str "Qm" && encodedStr.length = 46) ||
      (env.deployments.areMessagesDeployed && isHex encodedStr && encodedStr.length = 64))
    "Invalid parameter: ipfs_hash is not valid, or txid hash is not the right length"

/-- `nAmount % 10^(MAX_UNIT - nUnits) == 0`; units are at most `MAX_UNIT` wherever it is asked. -/
def checkAmountWithUnits (nAmount : CAmount) (nUnits : Int) : Bool :=
  nAmount % (10 ^ (maxUnit - nUnits).toNat) = 0

def invalidNameText : String :=
  "Invalid parameter: asset_name must only consist of valid characters and have a size between 3 and 30 characters. See help for more details."

def checkNewAsset (asset : CNewAsset) : Except String Unit := do
  let assetType ← require (isAssetNameValid asset.strName).toOption invalidNameText
  whenever (assetType = .unique || assetType = .msgchannel) do
    ensure (asset.units = 0) "Invalid parameter: units must be 0"
    ensure (asset.nAmount = uniqueAssetAmount) "Invalid parameter: amount must be 100000000"
    ensure (asset.nReissuable = 0) "Invalid parameter: reissuable must be 0"
  whenever (assetType = .qualifier || assetType = .subQualifier) do
    ensure (asset.units = 0) "Invalid parameter: units must be 0"
    ensure (qualifierAssetMinAmount ≤ asset.nAmount && asset.nAmount ≤ qualifierAssetMaxAmount)
      "Invalid parameter: amount must be between 100000000 - 1000000000"
    ensure (asset.nReissuable = 0) "Invalid parameter: reissuable must be 0"
  ensure (!isAssetNameAnOwner asset.strName)
    "Invalid parameters: asset_name can't have a '!' at the end of it. See help for more details."
  ensure (asset.nAmount > 0)
    "Invalid parameter: asset amount can't be equal to or less than zero."
  ensure (asset.nAmount ≤ maxMoney)
    "Invalid parameter: asset amount greater than max money: 21000000000"
  ensure (0 ≤ asset.units && asset.units ≤ 8) "Invalid parameter: units must be between 0-8."
  ensure (checkAmountWithUnits asset.nAmount asset.units)
    "Invalid parameter: amount must be divisible by the smaller unit assigned to the asset"
  ensure (asset.nReissuable = 0 || asset.nReissuable = 1)
    "Invalid parameter: reissuable must be 0 or 1"
  ensure (asset.nHasIPFS = 0 || asset.nHasIPFS = 1) "Invalid parameter: has_ipfs must be 0 or 1."

def checkReissueAsset (asset : CReissueAsset) : Except String Unit := do
  ensure (0 ≤ asset.nAmount && asset.nAmount < maxMoney)
    "Unable to reissue asset: amount must be 0 or larger"
  ensure (-1 ≤ asset.nUnits && asset.nUnits ≤ maxUnit)
    "Unable to reissue asset: unit must be between 8 and -1"
  -- testnet has two reissues from before the flag was constrained
  let fSkip := env.params.network = .testnet &&
    ((asset.strName = str "GAMINGWEB" && asset.nReissuable = 109) ||
      (asset.strName = str "UINT8" && asset.nReissuable = -47))
  ensure (fSkip || asset.nReissuable = 0 || asset.nReissuable = 1)
    "Unable to reissue asset: reissuable must be 0 or 1"

def verifyNullAssetDataFlag (flag : Int) : Except String Unit :=
  ensure (flag = 0 || flag = 1) "bad-txns-null-data-flag-must-be-0-or-1"

def checkVerifierAssetTxOut (txout : CTxOut) : Except String Unit := do
  let verifier ← require (assetNullVerifierDataFromScript txout.scriptPubKey)
    "bad-txns-null-verifier-data-serialization"
  ensure (!verifier.verifierString.contains 0x20)
    "bad-txns-null-verifier-data-contained-whitespaces"
  ensure (!verifier.verifierString.contains qualifierChar)
    "bad-txns-null-verifier-data-contained-qualifier-character-#"
  let _ ← checkVerifierString verifier.verifierString

/-- What a failed check leaves in the `CValidationState`. -/
structure Reject where
  nDoS : Nat
  strRejectReason : String
  deriving DecidableEq, Repr

abbrev Check := Except Reject

/-- `state.DoS(level, false, REJECT_INVALID, reason)` unless the condition holds. -/
def dos (level : Nat) (c : Bool) (reason : String) : Check Unit := ensure c ⟨level, reason⟩

/-- A helper's own error text, passed on as the reject reason. -/
def reject {α : Type} (level : Nat) (x : Except String α) : Check α := x.mapError (Reject.mk level)

@[simp] theorem dos_eq_ok {level : Nat} {c : Bool} {reason : String} {u : Unit} :
    dos level c reason = .ok u ↔ c = true := ensure_eq_ok

@[simp] theorem reject_eq_ok {α : Type} {level : Nat} {x : Except String α} {a : α} :
    reject level x = .ok a ↔ x = .ok a := mapError_eq_ok

def maxBlockWeight : Nat := 8000000
def witnessScaleFactor : Nat := 4

/-- The variables the output loop of `CheckTransaction` fills. -/
structure OutputScan where
  nValueOut : CAmount
  setAssetTransferNames : List Bytes
  mapNullDataTxCount : List (Bytes × Bytes)
  setNullGlobalAssetChanges : List Bytes
  fContainsNullAssetVerifierTx : Bool
  nCountAddTagOuts : Nat
  deriving DecidableEq, Repr

def OutputScan.start : OutputScan := ⟨0, [], [], [], false, 0⟩

/-- The null-asset part of the loop body: tags and freezes, global freezes, verifier strings. -/
def checkNullAssetOut (s : OutputScan) (txout : CTxOut) : Check OutputScan :=
  if txout.scriptPubKey.isNullAssetTxDataScript then do
    let (data, address) ← require (assetNullDataFromScript env txout.scriptPubKey)
      ⟨100, "bad-txns-null-asset-data-serialization"⟩
    reject 100 (verifyNullAssetDataFlag data.flag)
    dos 100 (!s.mapNullDataTxCount.contains (data.assetName, address))
      "bad-txns-null-data-only-one-change-per-asset-address"
    return { s with
      mapNullDataTxCount := (data.assetName, address) :: s.mapNullDataTxCount
      nCountAddTagOuts :=
        if isAssetNameAQualifier data.assetName false && data.flag = 1 then s.nCountAddTagOuts + 1
        else s.nCountAddTagOuts }
  else if txout.scriptPubKey.isNullGlobalRestrictionAssetTxDataScript then do
    let data ← require (globalAssetNullDataFromScript txout.scriptPubKey)
      ⟨100, "bad-txns-null-global-asset-data-serialization"⟩
    reject 100 (verifyNullAssetDataFlag data.flag)
    dos 100 (!s.setNullGlobalAssetChanges.contains data.assetName)
      "bad-txns-null-data-only-one-global-change-per-asset-name"
    return { s with setNullGlobalAssetChanges := data.assetName :: s.setNullGlobalAssetChanges }
  else if txout.scriptPubKey.isNullAssetVerifierTxDataScript then do
    reject 100 (checkVerifierAssetTxOut txout)
    dos 100 (!s.fContainsNullAssetVerifierTx) "bad-txns-null-data-only-one-verifier-per-tx"
    return { s with fContainsNullAssetVerifierTx := true }
  else return s

def checkTransferOut (s : OutputScan) (txout : CTxOut) : Check OutputScan := do
  let (transfer, _) ← require (transferAssetFromScript env txout.scriptPubKey)
    ⟨100, "bad-txns-transfer-asset-bad-deserialize"⟩
  let assetType ← require (isAssetNameValid transfer.strName).toOption
    ⟨100, "bad-txns-transfer-asset-name-invalid"⟩
  dos 100 (!isAssetNameAnOwner transfer.strName || transfer.nAmount = ownerAssetAmount)
    "bad-txns-transfer-owner-amount-was-not-1"
  dos 100 (!(assetType = .unique) || transfer.nAmount = uniqueAssetAmount)
    "bad-txns-transfer-unique-amount-was-not-1"
  dos 100 (!(assetType = .qualifier || assetType = .subQualifier) ||
      (qualifierAssetMinAmount ≤ transfer.nAmount && transfer.nAmount ≤ qualifierAssetMaxAmount))
    "bad-txns-transfer-qualifier-amount-must be between 1 - 100"
  dos 100 (txout.nValue = 0) "bad-txns-asset-transfer-amount-isn't-zero"
  return { s with setAssetTransferNames := transfer.strName :: s.setAssetTransferNames }

/-- The asset part of the loop body. -/
def checkAssetOut (fMempoolCheck fBlockCheck : Bool) (s : OutputScan) (txout : CTxOut) :
    Check OutputScan :=
  match txout.scriptPubKey.isAssetScript with
  | none => return s
  | some a =>
      match a.nType with
      | .txTransferAsset => checkTransferOut env s txout
      | .txNewAsset => do
          dos 100 (txout.nValue = 0) "bad-txns-asset-issued-amount-isn't-zero"
          return s
      | .txReissueAsset => do
          dos 0 (!(env.deployments.areEnforcedValuesDeployed && fBlockCheck) || txout.nValue = 0)
            "bad-txns-asset-reissued-amount-isn't-zero"
          dos 0 (!fMempoolCheck || txout.nValue = 0)
            "bad-mempool-txns-asset-reissued-amount-isn't-zero"
          return s
      | _ => .error ⟨0, "bad-asset-type-not-any-of-the-main-three"⟩

def checkOut (fMempoolCheck fBlockCheck : Bool) (s : OutputScan) (txout : CTxOut) :
    Check OutputScan := do
  dos 100 (0 ≤ txout.nValue) "bad-txns-vout-negative"
  dos 100 (txout.nValue ≤ maxMoney) "bad-txns-vout-toolarge"
  let nValueOut := s.nValueOut + txout.nValue
  dos 100 (moneyRange nValueOut) "bad-txns-txouttotal-toolarge"
  let s ← checkNullAssetOut env { s with nValueOut := nValueOut } txout
  checkAssetOut env fMempoolCheck fBlockCheck s txout

/-- The two loops after the output loop: a tag, freeze or global freeze needs the transfer of
the token that controls it. -/
def checkNullNames (s : OutputScan) : Check Unit := do
  forM s.mapNullDataTxCount fun (name, _) =>
    if name.headD 0 = restrictedChar then
      dos 100 (s.setAssetTransferNames.contains (name.drop 1 ++ ownerTag))
        "bad-txns-tx-contains-restricted-asset-null-tx-without-asset-transfer"
    else
      dos 100 (s.setAssetTransferNames.contains name)
        "bad-txns-tx-contains-qualifier-asset-null-tx-without-asset-transfer"
  forM s.setNullGlobalAssetChanges fun name => do
    dos 100 (!name.isEmpty) "bad-txns-tx-contains-global-asset-null-tx-with-null-asset-name"
    dos 100 (s.setAssetTransferNames.contains (name.drop 1 ++ ownerTag))
      "bad-txns-tx-contains-global-asset-null-tx-without-asset-transfer"

variable (tx : CTransaction)

def checkCoinBase : Check Unit := do
  let size := (tx.vin.headD ⟨⟨0, 0⟩, []⟩).scriptSig.length
  dos 100 (2 ≤ size && size ≤ 100) "bad-cb-length"
  whenever env.deployments.areCoinbaseCheckAssetsDeployed do
    forM tx.vout fun out =>
      dos 0 (!(out.scriptPubKey.isAssetScript.isSome || out.scriptPubKey.isNullAsset))
        "bad-txns-coinbase-contains-asset-txes"

def checkVin (fCheckDuplicateInputs : Bool) : Check Unit := do
  whenever fCheckDuplicateInputs do
    dos 100 (tx.vin.map (·.prevout)).Nodup "bad-txns-inputs-duplicate"
  if tx.isCoinBase then checkCoinBase env tx
  else
    forM tx.vin fun txin => dos 10 (!txin.prevout.isNull) "bad-txns-prevout-null"

/-- What the chosen branch says about restricted assets. -/
structure RestrictedFlags where
  fContainsNewRestrictedAsset : Bool
  fContainsRestrictedAssetReissue : Bool
  deriving DecidableEq, Repr

def checkNewAssetTx : Check Unit := do
  reject 100 (tx.verifyNewAsset env)
  let (asset, strAddress) ← require (tx.assetFromTransaction env)
    ⟨100, "bad-txns-issue-asset-from-transaction"⟩
  reject 100 (tx.isNewOwnerTxValid env asset.strName strAddress)
  reject 100 (checkNewAsset asset)

def checkReissueTx : Check RestrictedFlags := do
  reject 100 (tx.verifyReissueAsset env)
  let (reissue, _) ← require (tx.reissueAssetFromTransaction env) ⟨100, "bad-txns-reissue-asset"⟩
  reject 100 (checkReissueAsset env reissue)
  if assetTypeOf reissue.strName = .restricted then
    match tx.getVerifierStringFromTx with
    | .failed e => .error ⟨100, "bad-txns-reissue-restricted-verifier-" ++ e⟩
    | .found _ | .notFound _ => return ⟨false, true⟩
  else return ⟨false, false⟩

def checkNewUniqueAssetTx : Check Unit := do
  reject 100 (tx.verifyNewUniqueAsset env)
  forM tx.vout fun out =>
    whenever (isScriptNewUniqueAsset env out.scriptPubKey) do
      let (asset, _) ← require (assetFromScript env out.scriptPubKey)
        ⟨100, "bad-txns-check-transaction-issue-unique-asset-serialization"⟩
      (checkNewAsset asset).mapError fun e => ⟨100, "bad-txns-issue-unique" ++ e⟩

def checkNewMsgChannelAssetTx : Check Unit := do
  reject 100 (tx.verifyNewMsgChannelAsset env)
  let (asset, _) ← require (tx.msgChannelAssetFromTransaction env)
    ⟨100, "bad-txns-issue-msgchannel-from-transaction"⟩
  (checkNewAsset asset).mapError fun e => ⟨100, "bad-txns-issue-msgchannel" ++ e⟩

def checkNewQualifierAssetTx : Check Unit := do
  reject 100 (tx.verifyNewQualfierAsset env)
  let (asset, _) ← require (tx.qualifierAssetFromTransaction env)
    ⟨100, "bad-txns-issue-qualifier-from-transaction"⟩
  (checkNewAsset asset).mapError fun e => ⟨100, "bad-txns-issue-qualfier" ++ e⟩

def checkNewRestrictedAssetTx : Check Unit := do
  reject 100 (tx.verifyNewRestrictedAsset env)
  let (asset, _) ← require (tx.restrictedAssetFromTransaction env)
    ⟨100, "bad-txns-issue-restricted-from-transaction"⟩
  (checkNewAsset asset).mapError fun e => ⟨100, "bad-txns-issue-restricted" ++ e⟩
  match tx.getVerifierStringFromTx with
  | .found _ => .ok ()
  | .notFound e | .failed e => .error ⟨100, "bad-txns-issue-restricted-verifier-search-" ++ e⟩

/-- A transaction of no issuing kind may carry transfers only, and the asset marker nowhere else
than first in a script. -/
def checkOnlyTransfers : Check Unit :=
  forM tx.vout fun out =>
    match out.scriptPubKey.isAssetScript with
    | some a => dos 100 (a.nType = .txTransferAsset) "bad-txns-bad-asset-transaction"
    | none =>
        dos 100 (out.scriptPubKey.find opHnbAsset = 0 || out.scriptPubKey.byteAt 0 = opHnbAsset)
          "bad-txns-op-rvn-asset-not-in-right-script-location"

def checkAssetTx : Check RestrictedFlags :=
  if tx.isNewAsset env then do
    checkNewAssetTx env tx
    return ⟨false, false⟩
  else if tx.isReissueAsset then checkReissueTx env tx
  else if tx.isNewUniqueAsset env then do
    checkNewUniqueAssetTx env tx
    return ⟨false, false⟩
  else if tx.isNewMsgChannelAsset env then do
    checkNewMsgChannelAssetTx env tx
    return ⟨false, false⟩
  else if tx.isNewQualifierAsset env then do
    checkNewQualifierAssetTx env tx
    return ⟨false, false⟩
  else if tx.isNewRestrictedAsset env then do
    checkNewRestrictedAssetTx env tx
    return ⟨true, false⟩
  else do
    checkOnlyTransfers tx
    return ⟨false, false⟩

def checkTransaction (fCheckDuplicateInputs fMempoolCheck fBlockCheck : Bool) : Check Unit := do
  dos 10 (!tx.vin.isEmpty) "bad-txns-vin-empty"
  dos 10 (!tx.vout.isEmpty) "bad-txns-vout-empty"
  dos 100 (tx.getSerializeSize * witnessScaleFactor ≤ maxBlockWeight) "bad-txns-oversize"
  let scan ← tx.vout.foldlM (checkOut env fMempoolCheck fBlockCheck) OutputScan.start
  dos 100 (scan.nCountAddTagOuts = 0 || tx.checkAddingTagBurnFee env scan.nCountAddTagOuts)
    "bad-txns-tx-doesn't-contain-required-burn-fee-for-adding-tags"
  checkNullNames scan
  checkVin env tx fCheckDuplicateInputs
  let flags ← checkAssetTx env tx
  dos 100 (!scan.fContainsNullAssetVerifierTx || flags.fContainsRestrictedAssetReissue ||
      flags.fContainsNewRestrictedAsset)
    "bad-txns-tx-cointains-verifier-string-without-restricted-asset-issuance-or-reissuance"
  dos 100 (!flags.fContainsNewRestrictedAsset || scan.fContainsNullAssetVerifierTx)
    "bad-txns-tx-cointains-restricted-asset-issuance-without-verifier"

/-- What the rest of the development uses of an accepted transaction. -/
structure Accepted (env : Env) (tx : CTransaction)
    (fCheckDuplicateInputs fMempoolCheck fBlockCheck : Bool) : Prop where
  vin_ne_nil : tx.vin ≠ []
  vout_ne_nil : tx.vout ≠ []
  outputs : ∃ scan, tx.vout.foldlM (checkOut env fMempoolCheck fBlockCheck) OutputScan.start = .ok scan
  inputs : checkVin env tx fCheckDuplicateInputs = .ok ()
  kind : ∃ flags, checkAssetTx env tx = .ok flags

theorem checkTransaction_accepted {env : Env} {tx : CTransaction}
    {fCheckDuplicateInputs fMempoolCheck fBlockCheck : Bool}
    (h : checkTransaction env tx fCheckDuplicateInputs fMempoolCheck fBlockCheck = .ok ()) :
    Accepted env tx fCheckDuplicateInputs fMempoolCheck fBlockCheck := by
  simp only [checkTransaction, bind_eq_ok, dos_eq_ok] at h
  obtain ⟨_, hvin, _, hvout, _, _, scan, hscan, _, _, _, _, _, hinputs, flags, hflags, _⟩ := h
  exact ⟨by simpa using hvin, by simpa using hvout, ⟨scan, hscan⟩, hinputs, ⟨flags, hflags⟩⟩

theorem Accepted.coinbase_noAssets {env : Env} {tx : CTransaction} {m b : Bool}
    (h : Accepted env tx true m b) (hcb : tx.isCoinBase = true)
    (hactive : env.deployments.areCoinbaseCheckAssetsDeployed = true) :
    ∀ out ∈ tx.vout,
      out.scriptPubKey.isAssetScript = none ∧ out.scriptPubKey.isNullAsset = false := by
  have hvin := h.inputs
  simp only [checkVin, hcb, if_true, bind_eq_ok, checkCoinBase, whenever_eq_ok, hactive,
    forall_const, forM_eq_ok, dos_eq_ok, Bool.not_eq_true', Bool.or_eq_false_iff] at hvin
  obtain ⟨_, _, _, _, hall⟩ := hvin
  intro out hout
  simpa using hall out hout

end HnbCore
