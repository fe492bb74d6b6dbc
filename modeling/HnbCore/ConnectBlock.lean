import HnbCore.UpdateCoins

/-!
# Connecting a block

`CheckTxInputs`, `CheckBlock` and `ConnectBlock`. The checks of a block that concern neither
amounts nor assets are parameters.
-/

namespace HnbCore

open Checks AssetState

variable {env : ChainEnv} {block : CBlock} {s t : AssetState}

structure CBlock where
  hash : UInt256
  vtx : List CTransaction
  fChecked : Bool

/-- The checks that are not modelled: proof of work, merkle root and weight, signature operations,
relative lock times and scripts. -/
structure BlockRules where
  checkBlockHeader : CBlock → Bool
  checkLegacySigOps : CBlock → Bool
  sequenceLocks : Coins → CTransaction → Bool
  checkSigOpCost : Coins → CTransaction → Bool
  checkInputs : Coins → CTransaction → Bool

/-- Rules that let everything pass. -/
def BlockRules.lax : BlockRules :=
  ⟨fun _ => true, fun _ => true, fun _ _ => true, fun _ _ => true, fun _ _ => true⟩

/-- What a block is connected with. -/
structure ChainEnv extends Env where
  rules : BlockRules
  mempool : MempoolAssets

def coinbaseMaturity : Int := 100

/-- The loop body of `CheckTxInputs` over the inputs. -/
def addValueIn (coins : Coins) (nSpendHeight : Int) (nValueIn : CAmount) (txin : CTxIn) :
    Check CAmount := do
  let coin ← demand 100 (coins.accessCoin txin.prevout) "assertion failed: !coin.IsSpent()"
  dos 0 (!(coin.fCoinBase && nSpendHeight - coin.nHeight < coinbaseMaturity))
    "bad-txns-premature-spend-of-coinbase"
  let nValueIn := nValueIn + coin.out.nValue
  dos 100 (moneyRange coin.out.nValue && moneyRange nValueIn) "bad-txns-inputvalues-outofrange"
  return nValueIn

/-- `Consensus::CheckTxInputs`; the result is the fee. A value out of range throws in the source. -/
def checkTxInputs (env : Env) (coins : Coins) (nSpendHeight : Int) (tx : CTransaction) :
    Check CAmount := do
  dos 100 (coins.haveInputs tx) "bad-txns-inputs-missingorspent"
  let nValueIn ← tx.vin.foldlM (addValueIn coins nSpendHeight) 0
  let valueOut ← reject 0 (tx.getValueOut env.deployments.areEnforcedValuesDeployed)
  dos 100 (valueOut ≤ nValueIn) "bad-txns-in-belowout"
  let txfee := nValueIn - valueOut
  dos 100 (moneyRange txfee) "bad-txns-fee-out-of-range"
  return txfee

/-- `CheckBlock`, as it is called when a block is accepted and connected. -/
def checkBlock (env : ChainEnv) (block : CBlock) : Check Unit :=
  whenever (!block.fChecked) do
    dos 100 (env.rules.checkBlockHeader block) "bad-block-header"
    dos 100 (!block.vtx.isEmpty) "bad-blk-length"
    dos 100 ((block.vtx.head?.map (·.isCoinBase)).getD false) "bad-cb-missing"
    dos 100 (block.vtx.tail.all fun tx => !tx.isCoinBase) "bad-cb-multiple"
    forM block.vtx fun tx => checkTransaction env.toEnv tx true false true
    dos 100 (env.rules.checkLegacySigOps block) "bad-blk-sigops"

def getBlockSubsidy (env : Env) (nHeight : Int) : CAmount :=
  let halvings := nHeight / env.params.nSubsidyHalvingInterval
  if halvings ≥ 64 then 0 else 5000 * coin / 2 ^ halvings.toNat

/-- The variables of the loop, with the undo data in the order of the transactions. The coinbase,
which stands first and only there, has no entry in `vtxundo`. -/
structure ConnectScan where
  coins : Coins
  nFees : CAmount
  vtxundo : List (List Coin)
  vUndoAssetData : List (Bytes × CBlockAssetUndo)

/-- Before assets are active no output may have an asset script. -/
def checkNoAssets (tx : CTransaction) : Check Unit :=
  forM tx.vout fun out => do
    dos 100 (!out.scriptPubKey.isAssetScript.isSome) "bad-txns-assets-not-active"
    dos 100 (!out.scriptPubKey.isNullAsset) "bad-txns-null-data-assets-not-active"

/-- The asset checks of a transaction that is no coinbase. -/
def checkBlockTxAssets (env : ChainEnv) (coins : Coins) (tx : CTransaction) : StateCheck Unit :=
  if env.deployments.areAssetsDeployed then
    (fun _ => ()) <$> checkTxAssets env.toEnv env.mempool coins tx false
  else monadLift (checkNoAssets tx)

/-- The checks of a transaction; the result is the fees so far. -/
def checkBlockTx (env : ChainEnv) (nHeight : Int) (scan : ConnectScan) (tx : CTransaction) :
    StateCheck CAmount :=
  if tx.isCoinBase then pure scan.nFees
  else do
    let txfee ← checkTxInputs env.toEnv scan.coins nHeight tx
    let nFees := scan.nFees + txfee
    dos 100 (moneyRange nFees) "bad-txns-accumulated-fee-outofrange"
    checkBlockTxAssets env scan.coins tx
    dos 100 (env.rules.sequenceLocks scan.coins tx) "bad-txns-nonfinal"
    return nFees

def connectTx (env : ChainEnv) (blockHash : UInt256) (nHeight : Int) (scan : ConnectScan)
    (tx : CTransaction) : StateCheck ConnectScan := do
  let nFees ← checkBlockTx env nHeight scan tx
  dos 100 (env.rules.checkSigOpCost scan.coins tx) "bad-blk-sigops"
  dos 100 (tx.isCoinBase || env.rules.checkInputs scan.coins tx) "block-validation-failed"
  let (undo, coins) ← updateCoins env.toEnv tx scan.coins nHeight blockHash
  return {
    coins := coins
    nFees := nFees
    vtxundo := if tx.isCoinBase then scan.vtxundo else scan.vtxundo ++ [undo.vprevout]
    vUndoAssetData := scan.vUndoAssetData ++ undo.assetUndo.toList.filter fun e => !e.1.isEmpty }

/-- What connecting a block leaves for disconnecting it. -/
structure CBlockUndo where
  vtxundo : List (List Coin)
  vUndoAssetData : List (Bytes × CBlockAssetUndo)

/-- `ConnectBlock` of a block other than the genesis block. -/
def connectBlock (env : ChainEnv) (block : CBlock) (nHeight : Int) (coins : Coins) :
    StateCheck (CBlockUndo × Coins) := do
  checkBlock env block
  let scan ← block.vtx.foldlM (connectTx env block.hash nHeight) ⟨coins, 0, [], []⟩
  let blockReward := scan.nFees + getBlockSubsidy env.toEnv nHeight
  let coinbase ← demand 100 block.vtx.head? "bad-cb-missing"
  let paid ← reject 0 (coinbase.getValueOut env.deployments.areEnforcedValuesDeployed)
  dos 100 (paid ≤ blockReward) "bad-cb-amount"
  return (⟨scan.vtxundo, scan.vUndoAssetData⟩, scan.coins)

/-- The checks of `CheckBlock` pass. The flag `fChecked` of a block stands for this. -/
def CBlock.Checked (env : ChainEnv) (block : CBlock) : Prop :=
  checkBlock env { block with fChecked := false } = .ok ()

/-- A block is marked as checked only if its checks pass. -/
def CBlock.HonestlyMarked (env : ChainEnv) (block : CBlock) : Prop :=
  block.fChecked = true → block.Checked env

theorem checked_of_checkBlock (h : checkBlock env block = .ok ())
    (hmark : block.HonestlyMarked env) : block.Checked env := by
  cases hf : block.fChecked with
  | true => exact hmark hf
  | false =>
    have : { block with fChecked := false } = block := by rw [← hf]
    rwa [CBlock.Checked, this]

/-- The block has a coinbase, which stands first, and every transaction passes its checks. -/
theorem CBlock.Checked.shape (h : block.Checked env) :
    ∃ coinbase rest, block.vtx = coinbase :: rest ∧ coinbase.isCoinBase = true ∧
      (∀ tx ∈ rest, tx.isCoinBase = false) ∧
      ∀ tx ∈ block.vtx, checkTransaction env.toEnv tx true false true = .ok () := by
  simp only [CBlock.Checked, checkBlock, whenever_eq_ok, bind_eq_ok, dos_eq_ok, forM_eq_ok,
    Bool.not_false, forall_const] at h
  obtain ⟨_, _, _, hne, _, hfirst, _, hrest, _, htxs, _⟩ := h
  cases hvtx : block.vtx with
  | nil => simp [hvtx] at hne
  | cons coinbase rest =>
    refine ⟨coinbase, rest, rfl, by simpa [hvtx] using hfirst, ?_, hvtx ▸ htxs⟩
    simpa [hvtx] using hrest

theorem connectTx_ok {blockHash : UInt256} {nHeight : Int} {scan scan' : ConnectScan}
    {tx : CTransaction} (h : connectTx env blockHash nHeight scan tx s = .ok scan' t) :
    ∃ nFees undo coins u, checkBlockTx env nHeight scan tx s = .ok nFees u ∧
      updateCoins env.toEnv tx scan.coins nHeight blockHash u = .ok (undo, coins) t ∧
      scan' = {
        coins := coins
        nFees := nFees
        vtxundo := if tx.isCoinBase then scan.vtxundo else scan.vtxundo ++ [undo.vprevout]
        vUndoAssetData :=
          scan.vUndoAssetData ++ undo.assetUndo.toList.filter fun e => !e.1.isEmpty } := by
  simp only [connectTx, run_bind_eq_ok, run_lift_eq_ok, run_pure_eq_ok] at h
  obtain ⟨nFees, u, hcheck, _, _, ⟨_, rfl⟩, _, _, ⟨_, rfl⟩, ⟨undo, coins⟩, _, hupdate, rfl, rfl⟩ := h
  exact ⟨nFees, undo, coins, _, hcheck, hupdate, rfl⟩

/-- A transaction other than the coinbase passes the input and the asset checks. -/
theorem checkBlockTx_ok {nHeight : Int} {scan : ConnectScan} {tx : CTransaction} {nFees : CAmount}
    (hcb : tx.isCoinBase = false) (h : checkBlockTx env nHeight scan tx s = .ok nFees t) :
    ∃ fee, checkTxInputs env.toEnv scan.coins nHeight tx = .ok fee ∧ nFees = scan.nFees + fee ∧
      checkBlockTxAssets env scan.coins tx s = .ok () t := by
  simp only [checkBlockTx, hcb, Bool.false_eq_true, if_false, run_bind_eq_ok, run_lift_eq_ok,
    run_pure_eq_ok] at h
  obtain ⟨fee, _, ⟨hfee, rfl⟩, _, _, ⟨_, rfl⟩, _, _, hassets, _, _, ⟨_, rfl⟩, rfl, rfl⟩ := h
  exact ⟨fee, hfee, rfl, hassets⟩

section

variable {nHeight : Int} {scan : ConnectScan} {tx : CTransaction} {nFees : CAmount}
  (hcb : tx.isCoinBase = false) (h : checkBlockTx env nHeight scan tx s = .ok nFees t)

include hcb h

/-- A transaction other than the coinbase passes `CheckTxAssets` where assets are deployed. -/
theorem checkTxAssets_of_checkBlockTx (hactive : env.deployments.areAssetsDeployed = true) :
    ∃ pairs, checkTxAssets env.toEnv env.mempool scan.coins tx false s = .ok pairs t := by
  obtain ⟨_, -, -, hassets⟩ := checkBlockTx_ok hcb h
  rw [checkBlockTxAssets, hactive, if_pos rfl, run_map_eq_ok] at hassets
  obtain ⟨pairs, hcheck, -⟩ := hassets
  exact ⟨pairs, hcheck⟩

/-- Before assets are active it has no asset output. -/
theorem noAssets_of_checkBlockTx (hinactive : ¬env.deployments.areAssetsDeployed = true) :
    ∀ out ∈ tx.vout,
      out.scriptPubKey.isAssetScript = none ∧ out.scriptPubKey.isNullAsset = false := by
  obtain ⟨_, -, -, hassets⟩ := checkBlockTx_ok hcb h
  rw [checkBlockTxAssets, if_neg hinactive] at hassets
  obtain ⟨hno, -⟩ := run_lift_eq_ok.mp hassets
  simp only [checkNoAssets, forM_eq_ok, bind_eq_ok, dos_eq_ok] at hno
  intro out hout
  obtain ⟨_, hasset, hnull⟩ := hno out hout
  exact ⟨by simpa using hasset, by simpa using hnull⟩

end

theorem connectBlock_ok {nHeight : Int} {coins coins' : Coins} {undo : CBlockUndo}
    (h : connectBlock env block nHeight coins s = .ok (undo, coins') t) :
    ∃ scan coinbase paid, checkBlock env block = .ok () ∧
      block.vtx.foldlM (connectTx env block.hash nHeight) ⟨coins, 0, [], []⟩ s = .ok scan t ∧
      block.vtx.head? = some coinbase ∧
      coinbase.getValueOut env.deployments.areEnforcedValuesDeployed = .ok paid ∧
      paid ≤ scan.nFees + getBlockSubsidy env.toEnv nHeight ∧
      undo = ⟨scan.vtxundo, scan.vUndoAssetData⟩ ∧ coins' = scan.coins := by
  simp only [connectBlock, run_bind_eq_ok, run_lift_eq_ok, run_pure_eq_ok, demand_eq_ok,
    reject_eq_ok, dos_eq_ok, decide_eq_true_eq, Prod.mk.injEq] at h
  obtain ⟨_, _, ⟨hcheck, rfl⟩, scan, _, hscan, coinbase, _, ⟨hhead, rfl⟩, paid, _, ⟨hpaid, rfl⟩, _,
    _, ⟨hle, rfl⟩, ⟨rfl, rfl⟩, rfl⟩ := h
  exact ⟨scan, coinbase, paid, hcheck, hscan, hhead, hpaid, hle, rfl, rfl⟩

end HnbCore
