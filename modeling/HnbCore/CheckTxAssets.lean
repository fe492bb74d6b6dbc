import HnbCore.Coins
import HnbCore.ContextualChecks

/-!
# `CheckTxAssets`

The assets a transaction spends against the assets it pays out, and the contextual checks of every
output and of the asset the transaction issues or reissues.
-/

namespace HnbCore

open Checks AssetState

/-- A check of the validation code that may look things up. -/
abbrev StateCheck := EStateM Reject AssetState

/-- A contextual check whose error text is passed on as the reject reason. -/
def rejectWith {α : Type} (level : Nat) (message : String → String) (x : Contextual α) :
    StateCheck α :=
  orElseFail (fun strError => ⟨level, message strError⟩) x

/-- `state.DoS(level, false, REJECT_INVALID, reason)` unless there is a value. -/
def demand {α : Type} (level : Nat) (o : Option α) (reason : String) : Check α :=
  require o ⟨level, reason⟩

@[simp] theorem demand_eq_ok {α : Type} {level : Nat} {o : Option α} {reason : String} {a : α} :
    demand level o reason = .ok a ↔ o = some a := require_eq_ok

/-- `std::map<std::string, CAmount>`, a running total for every asset. -/
abbrev AssetTotals := KeyedMap Bytes CAmount

/-- `total += nAmount` on a 64-bit signed integer, or the first entry of the asset. -/
def AssetTotals.add (totals : AssetTotals) (name : Bytes) (nAmount : CAmount) : AssetTotals :=
  match totals.find? name with
  | some (_, total) => totals.assign (name, int64 (total + nAmount))
  | none => totals.insert (name, nAmount)

variable (env : Env)

/-- The loop body over the inputs. A spent coin fails an assertion in the source. -/
def checkAssetInput (coins : Coins) (totalInputs : AssetTotals) (txin : CTxIn) :
    StateCheck AssetTotals := do
  let coin ← demand 100 (coins.accessCoin txin.prevout) "assertion failed: !coin.IsSpent()"
  if coin.isAsset then do
    let data ← demand 100 (getAssetData env coin.out.scriptPubKey)
      "bad-txns-failed-to-get-asset-from-script"
    onlyIf (isAssetNameAnRestricted data.assetName) do
      let frozen ← ask (checkForAddressRestriction env.hashes data.assetName
        (env.encodeDestination data.destination) true)
      dos 100 (!frozen) "bad-txns-restricted-asset-transfer-from-frozen-address"
    return totalInputs.add data.assetName data.nAmount
  else return totalInputs

/-- The variables the output loop fills. -/
structure AssetOutputScan where
  totalOutputs : AssetTotals := .empty
  vPairReissueAssets : List (Bytes × UInt256) := []

def contextualCheckNullAssetOut (txout : CTxOut) : StateCheck Unit := do
  dos 100 env.deployments.areRestrictedAssetsDeployed
    "bad-tx-null-asset-data-before-restricted-assets-activated"
  if txout.scriptPubKey.isNullAssetTxDataScript then
    rejectWith 100 id (contextualCheckNullAssetTxOut env txout)
  else if txout.scriptPubKey.isNullGlobalRestrictionAssetTxDataScript then
    rejectWith 100 id (contextualCheckGlobalAssetTxOut txout)
  else if txout.scriptPubKey.isNullAssetVerifierTxDataScript then
    rejectWith 100 id (contextualCheckVerifierAssetTxOut env txout)
  else throw ⟨100, "bad-tx-null-asset-data-unknown-type"⟩

/-- The amount of a transfer against what it transfers: one owner token, or whole units. -/
def checkTransferAmount (transfer : CAssetTransfer) : StateCheck Unit := do
  if isAssetNameAnOwner transfer.strName then
    dos 100 (transfer.nAmount = ownerAssetAmount) "bad-txns-transfer-owner-amount-was-not-1"
  else do
    let found ← ask (getAssetMetaDataIfExists transfer.strName)
    let data ← demand 100 found "bad-txns-transfer-asset-not-exist"
    dos 100 (data.asset.strName = transfer.strName) "bad-txns-asset-database-corrupted"
    dos 100 (checkAmountWithUnits transfer.nAmount data.asset.units)
      "bad-txns-transfer-asset-amount-not-match-units"

variable (mempool : MempoolAssets)

/-- The loop body over the outputs. -/
def checkAssetOutput (tx : CTransaction)
    (scan : AssetOutputScan) (txout : CTxOut) : StateCheck AssetOutputScan := do
  let nType := txout.scriptPubKey.isAssetScript.map (·.nType)
  dos 100 (!(nType.isSome && !env.deployments.areAssetsDeployed))
    "bad-txns-is-asset-and-asset-not-active"
  onlyIf txout.scriptPubKey.isNullAsset (contextualCheckNullAssetOut env txout)
  if nType = some .txTransferAsset then do
    let (transfer, address) ← demand 100 (transferAssetFromScript env txout.scriptPubKey)
      "bad-tx-asset-transfer-bad-deserialize"
    rejectWith 100 id (contextualCheckTransferAsset env transfer address)
    checkTransferAmount transfer
    return { scan with
      totalOutputs := scan.totalOutputs.add transfer.strName transfer.nAmount }
  else if nType = some .txReissueAsset then do
    let (reissue, _) ← demand 100 (reissueAssetFromScript env txout.scriptPubKey)
      "bad-tx-asset-reissue-bad-deserialize"
    match mempool.mapReissuedAssets.find? reissue.strName with
    | some (_, hash) => do
        dos 100 (hash = tx.hash) "bad-tx-reissue-chaining-not-allowed"
        return scan
    | none =>
        return { scan with
          vPairReissueAssets := scan.vPairReissueAssets ++ [(reissue.strName, tx.hash)] }
  else return scan

/-- The scripts of a transaction that neither issues nor reissues. -/
def checkTransferOnly (tx : CTransaction) : Check Unit :=
  forM tx.vout fun out =>
    match out.scriptPubKey.isAssetScript with
    | some a => dos 100 (a.nType = .txTransferAsset) "bad-txns-bad-asset-transaction"
    | none =>
        whenever (out.scriptPubKey.find opHnbAsset > 0) do
          dos 100 env.deployments.areRestrictedAssetsDeployed "bad-txns-bad-asset-script"
          dos 100 (out.scriptPubKey.byteAt 0 = opHnbAsset)
            "bad-txns-op-rvn-asset-not-in-right-script-location"

/-- The contextual checks of an issue of the given kind. -/
def checkIssue (fCheckMempool deployed : Bool)
    (beforeActive : String) (asset : Option (CNewAsset × Bytes)) (badSerialization : String)
    (message : String → String) : StateCheck (CNewAsset × Bytes) := do
  dos 100 deployed beforeActive
  let found ← demand 100 asset badSerialization
  rejectWith 100 message (contextualCheckNewAsset env mempool found.1 fCheckMempool)
  return found

/-- The verifier string an issue of a restricted asset brings, against the issuer's address. -/
def checkIssueVerifier (tx : CTransaction) (strAddress : Bytes) : StateCheck Unit :=
  match tx.getVerifierStringFromTx with
  | .found verifier =>
      rejectWith 100 id (contextualCheckVerifierString env verifier.verifierString strAddress)
  | .notFound strError | .failed strError =>
      throw ⟨100, "bad-txns-issue-restricted-verifier-search-" ++ strError⟩

def checkCreated (tx : CTransaction) (fCheckMempool : Bool) :
    StateCheck Unit := do
  if tx.isNewAsset env then
    let _ ← checkIssue env mempool fCheckMempool true "" (assetFromScript env tx.lastScript)
      "bad-txns-issue-serialzation-failed" id
  else if tx.isReissueAsset then do
    let (reissue, _) ← demand 100 (reissueAssetFromScript env tx.lastScript)
      "bad-txns-reissue-serialzation-failed"
    rejectWith 100 ("bad-txns-reissue-contextual-" ++ ·)
      (contextualCheckReissueAsset env reissue tx)
  else if tx.isNewUniqueAsset env then
    rejectWith 100 ("bad-txns-issue-unique-contextual-" ++ ·)
      (contextualCheckUniqueAssetTx env mempool tx)
  else if tx.isNewMsgChannelAsset env then
    let _ ← checkIssue env mempool fCheckMempool env.deployments.areMessagesDeployed
      "bad-txns-issue-msgchannel-before-messaging-is-active"
      (tx.msgChannelAssetFromTransaction env) "bad-txns-issue-msgchannel-serialzation-failed"
      ("bad-txns-issue-msgchannel-contextual-" ++ ·)
  else if tx.isNewQualifierAsset env then
    let _ ← checkIssue env mempool fCheckMempool env.deployments.areRestrictedAssetsDeployed
      "bad-txns-issue-qualifier-before-it-is-active"
      (tx.qualifierAssetFromTransaction env) "bad-txns-issue-qualifier-serialzation-failed"
      ("bad-txns-issue-qualfier-contextual" ++ ·)
  else if tx.isNewRestrictedAsset env then do
    let (_, strAddress) ← checkIssue env mempool fCheckMempool
      env.deployments.areRestrictedAssetsDeployed "bad-txns-issue-restricted-before-it-is-active"
      (tx.restrictedAssetFromTransaction env) "bad-txns-issue-restricted-serialzation-failed"
      ("bad-txns-issue-restricted-contextual" ++ ·)
    checkIssueVerifier env tx strAddress
  else checkTransferOnly env tx

/-- The totals of the outputs against the totals of the inputs. -/
def compareTotals (totalInputs totalOutputs : AssetTotals) : Check Unit := do
  forM totalOutputs.items fun (name, total) => do
    let (_, input) ← demand 100 (totalInputs.find? name)
      ("bad-tx-inputs-outputs-mismatch Bad Transaction - Trying to create outpoint for asset that you don't have: " ++ text name)
    dos 100 (input = total)
      ("bad-tx-inputs-outputs-mismatch Bad Transaction - Assets would be burnt " ++ text name)
  dos 100 (totalOutputs.size = totalInputs.size)
    "bad-tx-asset-inputs-size-does-not-match-outputs-size"

/-- `Consensus::CheckTxAssets`; the result is what it appends to `vPairReissueAssets`. -/
def checkTxAssets (coins : Coins) (tx : CTransaction)
    (fCheckMempool : Bool) : StateCheck (List (Bytes × UInt256)) := do
  dos 100 (coins.haveInputs tx) "bad-txns-inputs-missing-or-spent"
  let totalInputs ← tx.vin.foldlM (checkAssetInput env coins) .empty
  let scan ← tx.vout.foldlM (checkAssetOutput env mempool tx) {}
  checkCreated env mempool tx fCheckMempool
  compareTotals totalInputs scan.totalOutputs
  return scan.vPairReissueAssets

end HnbCore
