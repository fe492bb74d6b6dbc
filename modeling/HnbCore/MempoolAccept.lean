import HnbCore.ConnectBlock
import HnbCore.Mempool

/-!
# Admission to the memory pool

`AcceptToMemoryPoolWorker`: the checks, then the pool takes the transaction in, is trimmed, and the
maps of asset transactions are filled from the outputs and inputs.
-/

namespace HnbCore

open Checks

variable {rules : AcceptRules} {pool : CTxMemPool}

/-- The policy of the node and the checks of scripts, sizes, fees and lock times. -/
structure AcceptRules where
  nAcceptTime : Int
  bypassLimits : Bool
  testAccept : Bool
  sizeAndSigOps : CTransaction → Int × Int
  /-- Witness rules, `IsStandardTx` and `CheckFinalTx`. -/
  standard : CTransaction → Check Unit
  /-- No input signals that the transaction may be replaced. -/
  replacementOptOut : CTransaction → Bool
  haveCoinInCache : COutPoint → Bool
  sequenceLocks : CTransaction → Bool
  /-- `AreInputsStandard`, `IsWitnessStandard` and the number of signature operations. -/
  inputsStandard : CTransaction → Coins → Check Unit
  /-- The fee, with the delta of the pool, against the minimum and the absurd fee. -/
  fees : CTxMemPool → CTxMemPoolEntry → Check Unit
  /-- The limits of `CalculateMemPoolAncestors`. -/
  chainLimits : CTxMemPool → CTxMemPoolEntry → Check Unit
  /-- The rules for replacing the conflicting entries. -/
  replacement : CTxMemPool → CTxMemPoolEntry → List UInt256 → Check Unit
  scripts : CTransaction → Coins → Check Unit
  limits : CTxMemPool.Limits

/-- The height of a coin that is only in the pool. -/
def mempoolHeight : Int := 0x7FFFFFFF

namespace CTxMemPool

/-- `CCoinsViewMemPool::GetCoin`: an entry's output, or a coin of the chain. -/
def getCoin (pool : CTxMemPool) (coins : Coins) (out : COutPoint) : Option Coin :=
  match pool.mapTx.find? out.hash with
  | some entry => entry.tx.vout[out.n]?.map fun txout => ⟨txout, false, mempoolHeight⟩
  | none => coins.accessCoin out

/-- The view with the coins a transaction spends. A missing input makes the worker return false
without a reason, unless the outputs of the transaction are known. -/
def inputsView (pool : CTxMemPool) (rules : AcceptRules) (coins : Coins) (tx : CTransaction) :
    Check Coins :=
  tx.vin.foldlM (fun view txin =>
    match pool.getCoin coins txin.prevout with
    | some coin => .ok (view.assign (txin.prevout, coin))
    | none =>
        if (List.range tx.vout.length).any fun i => rules.haveCoinInCache ⟨tx.hash, i⟩ then
          .error ⟨0, "txn-already-known"⟩
        else .error ⟨0, ""⟩) .empty

/-- The entries that spend an input of the transaction. -/
def findConflicts (pool : CTxMemPool) (rules : AcceptRules) (tx : CTransaction) :
    Check (List UInt256) :=
  tx.vin.foldlM (fun setConflicts txin =>
    match pool.mapNextTx.find? txin.prevout with
    | some (_, txConflicting) =>
        if setConflicts.contains txConflicting.hash then .ok setConflicts
        else if rules.replacementOptOut txConflicting then .error ⟨0, "txn-mempool-conflict"⟩
        else .ok (setConflicts ++ [txConflicting.hash])
    | none => .ok setConflicts) []

end CTxMemPool

/-- What the checks find out. -/
structure AcceptedTx where
  entry : CTxMemPoolEntry
  setConflicts : List UInt256
  vReissueAssets : List (Bytes × UInt256)

/-- The asset checks of the worker. -/
def checkPoolTxAssets (env : Env) (maps : MempoolAssets) (view : Coins) (tx : CTransaction) :
    StateCheck (List (Bytes × UInt256)) :=
  if env.deployments.areAssetsDeployed then checkTxAssets env maps view tx true
  else do
    forM tx.vout fun out => (dos 100 (!out.scriptPubKey.isAssetScript.isSome)
      "bad-txns-contained-asset-when-not-active" : Check Unit)
    return []

/-- Everything the worker does before it changes the pool. -/
def acceptChecks (env : Env) (rules : AcceptRules) (nSpendHeight : Int) (coins : Coins)
    (pool : CTxMemPool) (tx : CTransaction) : StateCheck AcceptedTx := do
  checkTransaction env tx true true false
  dos 100 (!tx.isCoinBase) "coinbase"
  rules.standard tx
  dos 0 (!pool.exists? tx.hash) "txn-already-in-mempool"
  let setConflicts ← pool.findConflicts rules tx
  let view ← pool.inputsView rules coins tx
  dos 0 (rules.sequenceLocks tx) "non-BIP68-final"
  let nFees ← checkTxInputs env view nSpendHeight tx
  let vReissueAssets ← checkPoolTxAssets env pool.assets view tx
  rules.inputsStandard tx view
  let (nSize, nSigOpsCost) := rules.sizeAndSigOps tx
  let entry := CTxMemPoolEntry.make tx nFees rules.nAcceptTime nSize nSigOpsCost
  rules.fees pool entry
  rules.chainLimits pool entry
  rules.replacement pool entry setConflicts
  rules.scripts tx view
  return ⟨entry, setConflicts, vReissueAssets⟩

namespace CTxMemPool

/-- The replaced entries leave, the new one enters, and the pool is trimmed. -/
def store (pool : CTxMemPool) (rules : AcceptRules) (accepted : AcceptedTx) : CTxMemPool :=
  let setAncestors := pool.ancestorsFrom (pool.searchForParents accepted.entry.tx)
  let pool := pool.removeStaged (pool.calculateAllDescendants accepted.setConflicts) false
  let pool := pool.addUnchecked accepted.entry setAncestors
  if rules.bypassLimits then pool else pool.limitMempoolSize rules.limits

end CTxMemPool

namespace AssetMaps

variable (maps : AssetMaps)

/-- The pending reissues; what is there already stays. -/
def trackReissues (vReissueAssets : List (Bytes × UInt256)) : AssetMaps :=
  vReissueAssets.foldl (fun maps (name, hash) =>
    { maps with
      mapReissuedAssets := maps.mapReissuedAssets.insert (name, hash)
      mapReissuedTx := maps.mapReissuedTx.insert (hash, name) }) maps

def trackIssue (name : Bytes) (hash : UInt256) : AssetMaps :=
  { maps with
    mapAssetToHash := maps.mapAssetToHash.assign (name, hash)
    mapHashToAsset := maps.mapHashToAsset.assign (hash, name) }

variable (env : Env)

/-- An asset output: a new asset, and an amount of a restricted asset that a change of tags or of
the verifier can make invalid. -/
def trackAsset (hash : UInt256) (data : CAssetOutputEntry) : AssetMaps :=
  let maps :=
    if data.type = .txNewAsset ∧ isAssetNameAnOwner data.assetName = false then
      maps.trackIssue data.assetName hash
    else maps
  if env.deployments.areRestrictedAssetsDeployed ∧ isAssetNameAnRestricted data.assetName then
    { maps with
      mapAddressesQualifiersChanged :=
        maps.mapAddressesQualifiersChanged.link (env.encodeDestination data.destination) hash
      mapAssetVerifierChanged := maps.mapAssetVerifierChanged.link data.assetName hash }
  else maps

/-- A change that may be pending once only. -/
def trackOnce {κ : Type} [DecidableEq κ] (m : TwoWay κ UInt256) (k : κ) (hash : UInt256)
    (reason : String) : Check (TwoWay κ UInt256) :=
  if m.forward.contains k then .error ⟨0, reason⟩ else .ok (m.link k hash)

def trackGlobal (hash : UInt256) (data : CNullAssetTxData) : Check AssetMaps :=
  if data.flag = 1 then do
    let m ← trackOnce maps.mapGlobalFreezingAssetTransactions data.assetName hash
      "bad-txns-global-freeze-already-in-mempool"
    return { maps with mapGlobalFreezingAssetTransactions := m }
  else if data.flag = 0 then do
    let m ← trackOnce maps.mapGlobalUnFreezingAssetTransactions data.assetName hash
      "bad-txns-global-unfreeze-already-in-mempool"
    return { maps with mapGlobalUnFreezingAssetTransactions := m }
  else .ok maps

def trackTag (hash : UInt256) (data : CNullAssetTxData) (address : Bytes) : Check AssetMaps :=
  if isAssetNameAQualifier data.assetName false then
    if data.flag = 1 then do
      let m ← trackOnce maps.mapAddressAddedTag (address, data.assetName) hash
        "bad-txns-adding-tag-already-in-mempool"
      return { maps with mapAddressAddedTag := m }
    else do
      let m ← trackOnce maps.mapAddressRemoveTag (address, data.assetName) hash
        "bad-txns-remove-tag-already-in-mempool"
      return { maps with mapAddressRemoveTag := m }
  else .ok maps

/-- One round of the loop over the outputs. -/
def trackOutput (hash : UInt256) (maps : AssetMaps) (out : CTxOut) : Check AssetMaps :=
  if out.scriptPubKey.isAssetScript.isSome then
    match getAssetData env out.scriptPubKey with
    | some data => .ok (maps.trackAsset env hash data)
    | none => .ok maps
  else if out.scriptPubKey.isNullGlobalRestrictionAssetTxDataScript then
    match globalAssetNullDataFromScript out.scriptPubKey with
    | some data => maps.trackGlobal hash data
    | none => .ok maps
  else if out.scriptPubKey.isNullAssetTxDataScript then
    match assetNullDataFromScript env out.scriptPubKey with
    | some (data, address) => maps.trackTag hash data address
    | none => .ok maps
  else .ok maps

/-- One round of the loop over the inputs: a restricted asset that is spent from the chain. -/
def trackInput (coins : Coins) (hash : UInt256) (maps : AssetMaps) (txin : CTxIn) : AssetMaps :=
  match coins.accessCoin txin.prevout with
  | some coin =>
      if coin.isAsset then
        match getAssetData env coin.out.scriptPubKey with
        | some data =>
            if isAssetNameAnRestricted data.assetName then
              { maps with
                mapAssetMarkedGlobalFrozen :=
                  maps.mapAssetMarkedGlobalFrozen.link data.assetName hash
                mapAddressesMarkedFrozen := maps.mapAddressesMarkedFrozen.link
                  (env.encodeDestination data.destination, data.assetName) hash }
            else maps
        | none => maps
      else maps
  | none => maps

def trackInputs (coins : Coins) (maps : AssetMaps) (tx : CTransaction) : AssetMaps :=
  if env.deployments.areRestrictedAssetsDeployed then
    tx.vin.foldl (trackInput env coins tx.hash) maps
  else maps

/-- The loop over the outputs, up to the output that is refused, and the reason. What the rounds
before it have written stays. -/
def trackOutputs (env : Env) (hash : UInt256) : AssetMaps → List CTxOut → AssetMaps × Option Reject
  | maps, [] => (maps, none)
  | maps, out :: vout =>
      match maps.trackOutput env hash out with
      | .ok maps => trackOutputs env hash maps vout
      | .error reason => (maps, some reason)

/-- The inputs are looked at when no output was refused. -/
def thenInputs (coins : Coins) (tx : CTransaction) :
    AssetMaps × Option Reject → AssetMaps × Option Reject
  | (maps, none) => (trackInputs env coins maps tx, none)
  | (maps, some reason) => (maps, some reason)

/-- The maps after the pool has taken the transaction in. -/
def track (coins : Coins) (maps : AssetMaps) (tx : CTransaction)
    (vReissueAssets : List (Bytes × UInt256)) : AssetMaps × Option Reject :=
  let maps := maps.trackReissues vReissueAssets
  thenInputs env coins tx
    (if env.deployments.areAssetsDeployed then trackOutputs env tx.hash maps tx.vout
    else (maps, none))

end AssetMaps

/-- `AcceptToMemoryPoolWorker`: the pool and, if the worker returns false, the reason. -/
def acceptToMemoryPoolWorker (env : Env) (rules : AcceptRules) (nSpendHeight : Int) (coins : Coins)
    (s : AssetState) (pool : CTxMemPool) (tx : CTransaction) : CTxMemPool × Option Reject :=
  match (acceptChecks env rules nSpendHeight coins pool tx).run s with
  | .error reason _ => (pool, some reason)
  | .ok accepted _ =>
      if rules.testAccept then (pool, none)
      else
        let pool := pool.store rules accepted
        if !rules.bypassLimits && !pool.exists? tx.hash then (pool, some ⟨0, "mempool full"⟩)
        else
          let tracked := pool.toAssetMaps.track env coins tx accepted.vReissueAssets
          ({ pool with toAssetMaps := tracked.1 }, tracked.2)

/-- The checks have passed. -/
structure PoolAccepted (env : Env) (rules : AcceptRules) (coins : Coins) (s : AssetState)
    (pool : CTxMemPool) (tx : CTransaction) (accepted : AcceptedTx) : Prop where
  checked : checkTransaction env tx true true false = .ok ()
  fresh : pool.exists? tx.hash = false
  conflicts : pool.findConflicts rules tx = .ok accepted.setConflicts
  assets : ∃ view, pool.inputsView rules coins tx = .ok view ∧
    ∃ s', checkPoolTxAssets env pool.assets view tx s = .ok accepted.vReissueAssets s'
  tx_eq : accepted.entry.tx = tx
  time_eq : accepted.entry.nTime = rules.nAcceptTime

theorem acceptChecks_ok {env : Env} {nSpendHeight : Int} {coins : Coins} {tx : CTransaction}
    {s s' : AssetState} {accepted : AcceptedTx}
    (h : (acceptChecks env rules nSpendHeight coins pool tx).run s = .ok accepted s') :
    PoolAccepted env rules coins s pool tx accepted := by
  simp only [acceptChecks, EStateM.run, run_lift_bind_eq_ok] at h
  obtain ⟨_, hchecked, _, -, _, -, _, hfresh, setConflicts, hconflicts, view, hview, _, -, nFees, -,
    h⟩ := h
  obtain ⟨vReissueAssets, s₁, hassets, h⟩ := run_bind_eq_ok.mp h
  simp only [run_lift_bind_eq_ok] at h
  obtain ⟨_, -, _, -, _, -, _, -, _, -, h⟩ := h
  obtain ⟨rfl, rfl⟩ := run_pure_eq_ok.mp h
  exact ⟨hchecked, by simpa using hfresh, hconflicts, ⟨view, hview, s₁, hassets⟩, rfl, rfl⟩

/-- What insertions and removals keep is kept when the pool takes a transaction in. -/
theorem CTxMemPool.RemovalInvariant.store {P : CTxMemPool → Prop} (hP : RemovalInvariant P)
    {accepted : AcceptedTx} (hinsert : ∀ pool, P pool →
      P ((pool.insertEntry accepted.entry).insertNextTx accepted.entry.tx)) (h : P pool) :
    P (pool.store rules accepted) := by
  have hadd := hP.same
    (addUnchecked_same _ _ (pool.ancestorsFrom (pool.searchForParents accepted.entry.tx)))
    (hinsert _ (hP.removeStaged h (pool.calculateAllDescendants accepted.setConflicts) false))
  simp only [CTxMemPool.store]
  split
  · exact hadd
  · exact hP.limitMempoolSize hadd rules.limits

theorem CTxMemPool.store_exists_of_bypass {accepted : AcceptedTx} (h : rules.bypassLimits = true) :
    (pool.store rules accepted).exists? accepted.entry.hash = true := by
  simp only [store, if_pos h, exists?_addUnchecked, decide_true, Bool.true_or]

/-- The exits of the worker: a check fails, the transaction is only tested, it is trimmed away at
once, or it is in the pool when the maps are filled. -/
inductive WorkerExit (env : Env) (rules : AcceptRules) (coins : Coins) (s : AssetState)
    (pool : CTxMemPool) (tx : CTransaction) :
    EStateM.Result Reject AssetState AcceptedTx → CTxMemPool × Option Reject → Prop
  | refused (reason : Reject) (s' : AssetState) :
      WorkerExit env rules coins s pool tx (.error reason s') (pool, some reason)
  | tested (accepted : AcceptedTx) (s' : AssetState) (htest : rules.testAccept = true) :
      WorkerExit env rules coins s pool tx (.ok accepted s') (pool, none)
  | trimmed (accepted : AcceptedTx) (s' : AssetState) (htest : rules.testAccept = false)
      (haccepted : PoolAccepted env rules coins s pool tx accepted)
      (hgone : (pool.store rules accepted).exists? tx.hash = false) :
      WorkerExit env rules coins s pool tx (.ok accepted s')
        (pool.store rules accepted, some ⟨0, "mempool full"⟩)
  | tracked (accepted : AcceptedTx) (s' : AssetState) (htest : rules.testAccept = false)
      (haccepted : PoolAccepted env rules coins s pool tx accepted)
      (hthere : (pool.store rules accepted).exists? tx.hash = true) :
      WorkerExit env rules coins s pool tx (.ok accepted s')
        ({ pool.store rules accepted with
          toAssetMaps := ((pool.store rules accepted).toAssetMaps.track env coins tx
            accepted.vReissueAssets).1 },
          ((pool.store rules accepted).toAssetMaps.track env coins tx accepted.vReissueAssets).2)

theorem worker_exit (env : Env) (rules : AcceptRules) (nSpendHeight : Int) (coins : Coins)
    (s : AssetState) (pool : CTxMemPool) (tx : CTransaction) :
    WorkerExit env rules coins s pool tx
      ((acceptChecks env rules nSpendHeight coins pool tx).run s)
      (acceptToMemoryPoolWorker env rules nSpendHeight coins s pool tx) := by
  unfold acceptToMemoryPoolWorker
  cases hchecks : (acceptChecks env rules nSpendHeight coins pool tx).run s with
  | error reason s' => exact .refused reason s'
  | ok accepted s' =>
    have haccepted := acceptChecks_ok hchecks
    have htx : accepted.entry.hash = tx.hash := congrArg CTransaction.hash haccepted.tx_eq
    by_cases htest : rules.testAccept = true
    · simp only [if_pos htest]
      exact .tested accepted s' htest
    · simp only [if_neg htest]
      have htest' := Bool.eq_false_iff.mpr htest
      by_cases hfull : (!rules.bypassLimits && !(pool.store rules accepted).exists? tx.hash) = true
      · simp only [if_pos hfull]
        obtain ⟨-, hgone⟩ := Bool.and_eq_true_iff.mp hfull
        exact .trimmed accepted s' htest' haccepted (by simpa using hgone)
      · simp only [if_neg hfull]
        apply WorkerExit.tracked accepted s' htest' haccepted
        cases hbypass : rules.bypassLimits with
        | true =>
          rw [← htx]
          exact CTxMemPool.store_exists_of_bypass hbypass
        | false => simpa [hbypass] using hfull

end HnbCore
