import HnbCore.AssetConservation
import HnbCore.CoinConservation

/-!
# The supply of an asset

The total amount of an asset in the unspent coins before and after a block. Transactions conserve
it but for what their issue, owner and reissue outputs create; the coinbase is not among the
transactions whose assets are compared.
-/

namespace HnbCore

open Checks AssetState List

variable {env : Env} {tx : CTransaction} {script : CScript} {scan : ConnectScan} {s : AssetState}

/-- The amount of an asset in a coin. -/
def assetOf (env : Env) (name : Bytes) (coin : Coin) : Int :=
  carriedAmount env name coin.out.scriptPubKey

/-- The amount of an asset that an issue, owner or reissue output creates. -/
def createdAmount (env : Env) (name : Bytes) (script : CScript) : Int :=
  match getAssetData env script with
  | some data =>
      if data.type ≠ .txTransferAsset ∧ data.assetName = name then data.nAmount else 0
  | none => 0

def CTransaction.carriedSum (tx : CTransaction) (env : Env) (name : Bytes) : Int :=
  (tx.vout.map fun out => carriedAmount env name out.scriptPubKey).sum

def CTransaction.createdSum (tx : CTransaction) (env : Env) (name : Bytes) : Int :=
  (tx.vout.map fun out => createdAmount env name out.scriptPubKey).sum

theorem getAssetData_of_transfer {transfer : CAssetTransfer} {address : Bytes}
    (h : transferAssetFromScript env script = some (transfer, address)) :
    getAssetData env script = some ⟨.txTransferAsset, transfer.strName,
      env.decodeDestination address, transfer.nAmount, transfer.message, transfer.nExpireTime⟩ := by
  have htype := transferAssetFromScript_isTransfer h
  cases ha : script.isAssetScript with
  | none => simp [ha] at htype
  | some a =>
    simp only [ha, Option.map_some, Option.some.injEq] at htype
    simp [getAssetData, ha, htype, h]

theorem getAssetData_transfer {data : CAssetOutputEntry} (h : getAssetData env script = some data)
    (htype : data.type = .txTransferAsset) :
    ∃ found, transferAssetFromScript env script = some found := by
  unfold getAssetData at h
  cases ha : script.isAssetScript with
  | none => simp [ha] at h
  | some a =>
    simp only [ha, Option.bind_eq_bind, Option.bind_some] at h
    split at h
    case h_2 =>
      obtain ⟨found, hfound, _⟩ := Option.bind_eq_some_iff.mp h
      exact ⟨found, hfound⟩
    case h_5 => simp at h
    all_goals
      obtain ⟨found, _, hdata⟩ := Option.bind_eq_some_iff.mp h
      simp only [Option.pure_def, Option.some.injEq] at hdata
      rw [← hdata] at htype
      simp at htype

/-- An output carries what it transfers or what it creates. -/
theorem carriedAmount_eq (env : Env) (name : Bytes) (script : CScript) :
    carriedAmount env name script =
      transferredAmount env name script + createdAmount env name script := by
  unfold carriedAmount transferredAmount createdAmount
  cases htransfer : transferAssetFromScript env script with
  | some found =>
    obtain ⟨transfer, address⟩ := found
    simp [getAssetData_of_transfer htransfer]
  | none =>
    cases hdata : getAssetData env script with
    | none => simp
    | some data =>
      have htype : data.type ≠ .txTransferAsset := by
        intro htype
        obtain ⟨found, hfound⟩ := getAssetData_transfer hdata htype
        simp [htransfer] at hfound
      simp [htype]

theorem carriedSum_eq (tx : CTransaction) (env : Env) (name : Bytes) :
    tx.carriedSum env name = transferredSum env tx name + tx.createdSum env name := by
  unfold CTransaction.carriedSum CTransaction.createdSum transferredSum
  rw [← sum_map_add]
  exact congrArg List.sum (map_congr_left fun out _ => carriedAmount_eq env name _)

variable {name : Bytes} {nFees : CAmount} {nHeight : Int} {rest : List CTransaction}
  {u t : AssetState} {blockHash : UInt256} {scan' : ConnectScan}

theorem carriedAmount_eq_zero (h : script.isAssetScript = none) :
    carriedAmount env name script = 0 := by
  simp [carriedAmount, getAssetData, h]

theorem createdAmount_eq_zero (h : script.isAssetScript = none) :
    createdAmount env name script = 0 := by
  simp [createdAmount, getAssetData, h]

/-- The coinbase is checked for assets, or has none. -/
def CleanCoinbase (env : Env) (tx : CTransaction) : Prop :=
  env.deployments.areCoinbaseCheckAssetsDeployed = true ∨
    ∀ out ∈ tx.vout, out.scriptPubKey.isAssetScript = none

/-- What a list of transactions must meet, on the coins they are connected to, for the supply of
an asset to be accounted for. -/
structure SupplyAccounted (env : Env) (txs : List CTransaction) (coins : Coins) (name : Bytes) :
    Prop where
  /-- Assets are active, or there are none. -/
  assets : env.deployments.areAssetsDeployed = true ∨
    ∀ entry ∈ coins.items, entry.2.out.scriptPubKey.isAssetScript = none
  coinbase : ∀ tx ∈ txs, tx.isCoinBase = true → CleanCoinbase env tx
  /-- No output that carries the asset is dropped as unspendable. -/
  spendable : ∀ tx ∈ txs, ∀ out ∈ tx.vout, isUnspendable out.scriptPubKey = true →
    carriedAmount env name out.scriptPubKey = 0
  /-- The ids of the transactions are different and new. -/
  distinct : (txs.map (·.hash)).Nodup
  fresh : ∀ tx ∈ txs, ∀ entry ∈ coins.items, entry.1.hash ≠ tx.hash
  /-- No 64-bit total of the asset can wrap: neither what one transaction transfers nor the supply
  with all that is created. -/
  coins_nonneg : ∀ entry ∈ coins.items, 0 ≤ assetOf env name entry.2
  outs_nonneg : ∀ tx ∈ txs, ∀ out ∈ tx.vout, 0 ≤ carriedAmount env name out.scriptPubKey
  transfers : ∀ tx ∈ txs, transferredSum env tx name < 2 ^ 64
  supply : totalOf (assetOf env name) coins + (txs.map fun tx => tx.createdSum env name).sum < 2 ^ 64

/-- With no asset among the outputs nothing is transferred and nothing created. -/
theorem sums_eq_zero (name : Bytes) (h : ∀ out ∈ tx.vout, out.scriptPubKey.isAssetScript = none) :
    transferredSum env tx name = 0 ∧ tx.carriedSum env name = 0 := by
  have hcarried : tx.carriedSum env name = 0 := by
    refine sum_eq_zero fun n hn => ?_
    obtain ⟨out, hout, rfl⟩ := mem_map.mp hn
    exact carriedAmount_eq_zero (h out hout)
  have hcreated : tx.createdSum env name = 0 := by
    refine sum_eq_zero fun n hn => ?_
    obtain ⟨out, hout, rfl⟩ := mem_map.mp hn
    exact createdAmount_eq_zero (h out hout)
  have hsplit := carriedSum_eq tx env name
  exact ⟨by omega, hcarried⟩

theorem coinbase_no_assets {m b : Bool} (hacc : Accepted env tx true m b)
    (hcb : tx.isCoinBase = true) (hclean : CleanCoinbase env tx) :
    ∀ out ∈ tx.vout, out.scriptPubKey.isAssetScript = none := by
  rcases hclean with hactive | hnone
  · exact fun out hout => (hacc.coinbase_noAssets hcb hactive out hout).1
  · exact hnone

theorem transferredAmount_nonneg (h : 0 ≤ carriedAmount env name script) :
    0 ≤ transferredAmount env name script ∧ 0 ≤ createdAmount env name script := by
  cases htransfer : transferAssetFromScript env script with
  | some found =>
    obtain ⟨transfer, address⟩ := found
    have hcreated : createdAmount env name script = 0 := by
      simp [createdAmount, getAssetData_of_transfer htransfer]
    have hsplit := carriedAmount_eq env name script
    constructor <;> omega
  | none =>
    have hzero : transferredAmount env name script = 0 := by simp [transferredAmount, htransfer]
    have hsplit := carriedAmount_eq env name script
    constructor <;> omega

theorem sums_nonneg (h : ∀ out ∈ tx.vout, 0 ≤ carriedAmount env name out.scriptPubKey) :
    0 ≤ transferredSum env tx name ∧ 0 ≤ tx.createdSum env name := by
  constructor
  · refine sum_nonneg fun n hn => ?_
    obtain ⟨out, hout, rfl⟩ := mem_map.mp hn
    exact (transferredAmount_nonneg (h out hout)).1
  · refine sum_nonneg fun n hn => ?_
    obtain ⟨out, hout, rfl⟩ := mem_map.mp hn
    exact (transferredAmount_nonneg (h out hout)).2

theorem totalOf_nonneg {f : Coin → Int} {coins : Coins}
    (h : ∀ entry ∈ coins.items, 0 ≤ f entry.2) : 0 ≤ totalOf f coins := by
  refine sum_nonneg fun n hn => ?_
  obtain ⟨entry, hentry, rfl⟩ := mem_map.mp hn
  exact h entry hentry

/-- The coins made by a transaction carry what its outputs carry. -/
theorem spendableOutputs_carried (nHeight : Int)
    (h : ∀ out ∈ tx.vout, isUnspendable out.scriptPubKey = true →
      carriedAmount env name out.scriptPubKey = 0) :
    ((spendableOutputs tx nHeight).map fun e => assetOf env name e.2).sum =
      tx.carriedSum env name := by
  rw [CTransaction.carriedSum, ← outputs_map_snd, spendableOutputs, map_map, map_map]
  have houts : ∀ entry ∈ tx.outputs, isUnspendable entry.2.scriptPubKey = true →
      carriedAmount env name entry.2.scriptPubKey = 0 := fun entry hentry =>
    h entry.2 (outputs_map_snd tx ▸ mem_map_of_mem hentry)
  generalize tx.outputs = outs at houts ⊢
  induction outs with
  | nil => rfl
  | cons entry l ih =>
    have hrest := ih fun e he => houts e (mem_cons_of_mem _ he)
    rw [filter_cons]
    cases hspend : isUnspendable entry.2.scriptPubKey with
    | true =>
      have hzero := houts entry mem_cons_self hspend
      simp only [Bool.not_true, Bool.false_eq_true, if_false, map_cons, sum_cons,
        Function.comp, hzero, zero_add]
      exact hrest
    | false =>
      simp only [Bool.not_false, if_true, map_cons, sum_cons]
      rw [hrest]
      rfl

/-- What a transaction spends of an asset is what it transfers. -/
theorem connectTx_spent {env : ChainEnv} {spent : List Coin}
    (htx : checkTransaction env.toEnv tx true false true = .ok ())
    (hcheck : checkBlockTx env nHeight scan tx s = .ok nFees u)
    (hspends : Spends scan.coins (if tx.isCoinBase then [] else tx.vin) spent)
    (hacct : SupplyAccounted env.toEnv (tx :: rest) scan.coins name) :
    (spent.map (assetOf env.toEnv name)).sum = transferredSum env.toEnv tx name := by
  have hacc := checkTransaction_accepted htx
  have htotal := totalOf_eraseInputs (assetOf env.toEnv name) hspends
  cases hcb : tx.isCoinBase with
  | true =>
    have hnone := coinbase_no_assets hacc hcb (hacct.coinbase tx mem_cons_self hcb)
    rw [hcb, if_pos rfl] at hspends
    rw [hspends.sum_eq, (sums_eq_zero name hnone).1]
    rfl
  | false =>
    rw [hcb, if_neg (by simp)] at hspends htotal
    by_cases hactive : env.deployments.areAssetsDeployed = true
    · obtain ⟨pairs, hpairs⟩ := checkTxAssets_of_checkBlockTx hcb hcheck hactive
      have hmod := checkTxAssets_emod hpairs name
      have hspent : (spent.map (assetOf env.toEnv name)).sum =
          (tx.vin.map fun txin => spentAmount env.toEnv scan.coins name txin.prevout).sum := by
        rw [hspends.sum_eq]
        refine congrArg List.sum (map_congr_left fun txin _ => ?_)
        unfold spentAmount
        cases scan.coins.accessCoin txin.prevout <;> rfl
      rw [← hspent] at hmod
      -- both sums lie between zero and the bound
      have hleft := totalOf_nonneg
        fun entry (hentry : entry ∈ (eraseInputs scan.coins tx.vin).items) =>
          hacct.coins_nonneg entry (mem_eraseInputs hentry)
      have hspent_nonneg : 0 ≤ (spent.map (assetOf env.toEnv name)).sum := by
        refine sum_nonneg fun n hn => ?_
        obtain ⟨coin, hcoin, rfl⟩ := mem_map.mp hn
        obtain ⟨out, hmem⟩ := hspends.mem hcoin
        exact hacct.coins_nonneg _ hmem
      have hsums := sums_nonneg (hacct.outs_nonneg tx mem_cons_self)
      have htransfers := hacct.transfers tx mem_cons_self
      have hsupply := hacct.supply
      have hcreated : 0 ≤ ((tx :: rest).map fun tx => tx.createdSum env.toEnv name).sum := by
        refine sum_nonneg fun n hn => ?_
        obtain ⟨tx', htx', rfl⟩ := mem_map.mp hn
        exact (sums_nonneg (hacct.outs_nonneg tx' htx')).2
      omega
    · have hnone := noAssets_of_checkBlockTx hcb hcheck hactive
      rw [(sums_eq_zero name fun out hout => (hnone out hout).1).1]
      refine sum_eq_zero fun n hn => ?_
      obtain ⟨coin, hcoin, rfl⟩ := mem_map.mp hn
      obtain ⟨out, hmem⟩ := hspends.mem hcoin
      exact carriedAmount_eq_zero (hacct.assets.resolve_left hactive _ hmem)

/-- When assets are not active, no connected transaction brings any. -/
theorem connectTx_inactive {env : ChainEnv}
    (htx : checkTransaction env.toEnv tx true false true = .ok ())
    (hcheck : checkBlockTx env nHeight scan tx s = .ok nFees u)
    (hclean : tx.isCoinBase = true → CleanCoinbase env.toEnv tx)
    (hinactive : ¬ env.deployments.areAssetsDeployed = true) :
    ∀ out ∈ tx.vout, out.scriptPubKey.isAssetScript = none := by
  cases hcb : tx.isCoinBase with
  | true => exact coinbase_no_assets (checkTransaction_accepted htx) hcb (hclean hcb)
  | false =>
    exact fun out hout => (noAssets_of_checkBlockTx hcb hcheck hinactive out hout).1

/-- One transaction: the supply grows by what it creates, and the conditions stay with the
transactions behind it. -/
theorem connectTx_accounted {env : ChainEnv}
    (h : connectTx env blockHash nHeight scan tx s = .ok scan' t)
    (htx : checkTransaction env.toEnv tx true false true = .ok ())
    (hacct : SupplyAccounted env.toEnv (tx :: rest) scan.coins name) :
    SupplyAccounted env.toEnv rest scan'.coins name ∧
      totalOf (assetOf env.toEnv name) scan'.coins =
        totalOf (assetOf env.toEnv name) scan.coins + tx.createdSum env.toEnv name := by
  obtain ⟨nFees, undo, coins, u, hcheck, hupdate, rfl⟩ := connectTx_ok h
  obtain ⟨hspends, hadded⟩ := updateCoins_ok hupdate
  have hspent := connectTx_spent htx hcheck hspends hacct
  simp only at hspends hadded ⊢
  set inputs := if tx.isCoinBase then [] else tx.vin
  have hmem : ∀ entry ∈ coins.items,
      entry ∈ spendableOutputs tx nHeight ∨ entry ∈ scan.coins.items := by
    intro entry hentry
    rw [hadded, addOutputCoins_eq] at hentry
    exact (KeyedSet.mem_foldl_assign hentry).imp_right mem_eraseInputs
  have htotal : totalOf (assetOf env.toEnv name) coins =
      totalOf (assetOf env.toEnv name) scan.coins + tx.createdSum env.toEnv name := by
    have hgrow := totalOf_foldl_assign (assetOf env.toEnv name) (spendableOutputs tx nHeight)
      (eraseInputs scan.coins inputs) (spendableOutputs_nodup tx nHeight) (by
        intro entry hentry
        by_contra hcontains
        obtain ⟨old, hold, hkey⟩ := KeyedSet.contains_iff.mp (by simpa using hcontains)
        refine hacct.fresh tx mem_cons_self old (mem_eraseInputs hold) ?_
        rw [hkey, (mem_spendableOutputs hentry).1])
    rw [← addOutputCoins_eq, ← hadded, totalOf_eraseInputs _ hspends, hspent,
      spendableOutputs_carried nHeight (hacct.spendable tx mem_cons_self)] at hgrow
    have hsplit := carriedSum_eq tx env.toEnv name
    omega
  refine ⟨?_, htotal⟩
  have hdistinct := nodup_cons.mp (by simpa using hacct.distinct :
    (tx.hash :: rest.map (·.hash)).Nodup)
  constructor
  case assets =>
    by_cases hactive : env.deployments.areAssetsDeployed = true
    · exact .inl hactive
    · refine .inr fun entry hentry => ?_
      rcases hmem entry hentry with hnew | hold
      · exact connectTx_inactive htx hcheck (hacct.coinbase tx mem_cons_self) hactive _
          (mem_spendableOutputs hnew).2
      · exact hacct.assets.resolve_left hactive entry hold
  case coinbase => exact fun tx' h' => hacct.coinbase tx' (mem_cons_of_mem _ h')
  case spendable => exact fun tx' h' => hacct.spendable tx' (mem_cons_of_mem _ h')
  case distinct => exact hdistinct.2
  case fresh =>
    intro tx' h' entry hentry heq
    rcases hmem entry hentry with hnew | hold
    · rw [(mem_spendableOutputs hnew).1] at heq
      exact hdistinct.1 (heq ▸ mem_map_of_mem h')
    · exact hacct.fresh tx' (mem_cons_of_mem _ h') entry hold heq
  case coins_nonneg =>
    intro entry hentry
    rcases hmem entry hentry with hnew | hold
    · exact hacct.outs_nonneg tx mem_cons_self _ (mem_spendableOutputs hnew).2
    · exact hacct.coins_nonneg entry hold
  case outs_nonneg => exact fun tx' h' => hacct.outs_nonneg tx' (mem_cons_of_mem _ h')
  case transfers => exact fun tx' h' => hacct.transfers tx' (mem_cons_of_mem _ h')
  case supply =>
    have hsupply := hacct.supply
    rw [map_cons, sum_cons] at hsupply
    rw [htotal]
    omega

theorem connectTxs_accounted {env : ChainEnv} {txs : List CTransaction}
    (h : txs.foldlM (connectTx env blockHash nHeight) scan s = .ok scan' t)
    (htxs : ∀ tx ∈ txs, checkTransaction env.toEnv tx true false true = .ok ())
    (hacct : SupplyAccounted env.toEnv txs scan.coins name) :
    totalOf (assetOf env.toEnv name) scan'.coins = totalOf (assetOf env.toEnv name) scan.coins +
      (txs.map fun tx => tx.createdSum env.toEnv name).sum := by
  induction txs generalizing scan s with
  | nil =>
    obtain ⟨rfl, _⟩ := run_pure_eq_ok.mp h
    simp
  | cons tx txs ih =>
    obtain ⟨mid, u, hround, hrest⟩ := run_bind_eq_ok.mp h
    obtain ⟨hmid, htotal⟩ := connectTx_accounted hround (htxs tx mem_cons_self) hacct
    rw [ih hrest (fun tx' h' => htxs tx' (mem_cons_of_mem _ h')) hmid, htotal, map_cons,
      sum_cons]
    ring

/-- A block changes the supply of an asset by what its issue, owner and reissue outputs create,
and its coinbase creates nothing. -/
theorem asset_supply_accounted (env : ChainEnv) (block : CBlock) (nHeight : Int)
    (coins coins' : Coins) (undo : CBlockUndo) (s t : AssetState) (name : Bytes)
    (h : connectBlock env block nHeight coins s = .ok (undo, coins') t)
    (hmark : block.HonestlyMarked env)
    (hacct : SupplyAccounted env.toEnv block.vtx coins name) :
    totalOf (assetOf env.toEnv name) coins' = totalOf (assetOf env.toEnv name) coins +
        (block.vtx.map fun tx => tx.createdSum env.toEnv name).sum ∧
      ∀ tx ∈ block.vtx, tx.isCoinBase = true → ∀ out ∈ tx.vout,
        carriedAmount env.toEnv name out.scriptPubKey = 0 := by
  obtain ⟨scan, coinbase, paid, hcheck, hscan, -, -, -, -, rfl⟩ := connectBlock_ok h
  obtain ⟨-, -, -, -, -, htxs⟩ := (checked_of_checkBlock hcheck hmark).shape
  refine ⟨connectTxs_accounted hscan htxs hacct, fun tx htx hcb out hout => ?_⟩
  exact carriedAmount_eq_zero (coinbase_no_assets (checkTransaction_accepted (htxs tx htx)) hcb
    (hacct.coinbase tx htx hcb) out hout)

/-- A block whose coinbase has the given outputs. -/
def blockOf (coinbaseOuts : List CTxOut) (txs : List CTransaction) : CBlock :=
  ⟨3, ⟨[⟨⟨0, 2 ^ 32 - 1⟩, [1, 1]⟩], coinbaseOuts, 4⟩ :: txs, false⟩

def goldBlock : CBlock := blockOf [⟨0, scriptForKeyID issuerKey⟩] [goldTx [4, 6]]

/-- Ten units of gold are moved, and the supply stays at ten. -/
theorem goldBlock_supply :
    ∃ undo coins' t, connectBlock ⟨regTestEnv, .lax, {}⟩ goldBlock 2 goldCoins goldState =
        .ok (undo, coins') t ∧
      totalOf (assetOf regTestEnv (str "GOLD")) coins' = 10 := by
  have hok : succeeded (connectBlock ⟨regTestEnv, .lax, {}⟩ goldBlock 2 goldCoins goldState) =
      true := by decide +kernel
  obtain ⟨⟨undo, coins'⟩, t, h⟩ := succeeded_iff.mp hok
  have hsupply := asset_supply_accounted _ _ _ _ _ _ _ _ (str "GOLD") h
    (by simp [CBlock.HonestlyMarked, goldBlock, blockOf]) (by
      constructor
      case assets => exact .inl rfl
      case coinbase => exact fun _ _ _ => .inl rfl
      all_goals decide +kernel)
  refine ⟨undo, coins', t, h, hsupply.1.trans ?_⟩
  decide +kernel

def coinbaseUnchecked : Deployments :=
  { Deployments.all with areCoinbaseCheckAssetsDeployed := false }

/-- Before the coinbase is checked for assets, it can transfer gold that was never issued. -/
theorem coinbase_creates_gold :
    ∃ undo coins' t, connectBlock ⟨regTestWith coinbaseUnchecked, .lax, {}⟩
        (blockOf [goldTransfer 1000] []) 2 .empty {} = .ok (undo, coins') t ∧
      totalOf (assetOf (regTestWith coinbaseUnchecked) (str "GOLD")) .empty = 0 ∧
      ((blockOf [goldTransfer 1000] []).vtx.map fun tx =>
        tx.createdSum (regTestWith coinbaseUnchecked) (str "GOLD")).sum = 0 ∧
      totalOf (assetOf (regTestWith coinbaseUnchecked) (str "GOLD")) coins' = 1000 := by
  decide +kernel

end HnbCore
