import HnbCore.CoinTotals
import HnbCore.ParentTransfer

/-!
# Conservation of coins

What an accepted transaction pays out, over all its outputs, against what it spends, and from that
the growth of the coin supply by a block. `GetValueOut` skips asset outputs as long as enforced
values are not active; the output checks then leave the value of reissue outputs alone.
-/

namespace HnbCore

open Checks AssetState List CTransaction

variable {tx : CTransaction} {env : Env} {m b d : Bool} {v : CAmount} {coins : Coins}
  {nSpendHeight : Int}

def valueOf (coin : Coin) : Int := coin.out.nValue

/-- The value of all outputs, asset outputs included. -/
def CTransaction.totalOut (tx : CTransaction) : Int := (tx.vout.map (·.nValue)).sum

/-- The value of the coins a transaction spends, each counted once. -/
def CTransaction.totalIn (tx : CTransaction) (coins : Coins) : Int :=
  ((tx.vin.map (·.prevout)).dedup.map fun out =>
    ((coins.accessCoin out).map valueOf).getD 0).sum

/-- Enforced values are active, or no reissue output carries a value. -/
def ValuesEnforced (env : Env) (tx : CTransaction) : Prop :=
  env.deployments.areEnforcedValuesDeployed = true ∨
    ∀ out ∈ tx.vout, out.scriptPubKey.isAssetScript.map (·.nType) = some .txReissueAsset →
      out.nValue = 0

variable {out : CTxOut} {n fee : CAmount} {blockHash : UInt256} {nHeight : Int} {s t : AssetState}
  {scan scan' : ConnectScan}

theorem checkOut_value {fMempoolCheck fBlockCheck : Bool} {s t : OutputScan}
    (h : checkOut env fMempoolCheck fBlockCheck s out = .ok t) :
    0 ≤ out.nValue ∧ (out.scriptPubKey.isAssetScript.isSome = true →
      out.scriptPubKey.isAssetScript.map (·.nType) = some .txReissueAsset ∨ out.nValue = 0) := by
  simp only [checkOut, bind_eq_ok, dos_eq_ok, decide_eq_true_eq] at h
  obtain ⟨_, hnonneg, _, _, _, _, s', _, hasset⟩ := h
  refine ⟨hnonneg, fun hsome => ?_⟩
  unfold checkAssetOut at hasset
  cases ha : out.scriptPubKey.isAssetScript with
  | none => simp [ha] at hsome
  | some a =>
    simp only [ha] at hasset
    -- a transfer and an issue are checked for the value, a reissue need not be
    split at hasset
    case h_1 =>
      simp only [checkTransferOut, bind_eq_ok, dos_eq_ok, decide_eq_true_eq] at hasset
      obtain ⟨_, _, _, _, _, _, _, _, _, _, _, hzero, _⟩ := hasset
      exact .inr hzero
    case h_2 =>
      simp only [bind_eq_ok, dos_eq_ok, decide_eq_true_eq] at hasset
      exact .inr hasset.choose_spec.1
    case h_3 htype => exact .inl (by simp [htype])
    case h_4 => simp at hasset

theorem Accepted.output_value (h : Accepted env tx d m b) (hout : out ∈ tx.vout) :
    0 ≤ out.nValue ∧ (out.scriptPubKey.isAssetScript.isSome = true →
      out.scriptPubKey.isAssetScript.map (·.nType) = some .txReissueAsset ∨ out.nValue = 0) := by
  obtain ⟨scan, hscan⟩ := h.outputs
  obtain ⟨s₁, s₂, hround⟩ := foldlM_mem hscan hout
  exact checkOut_value hround

/-- `GetValueOut` is the sum over the outputs it does not skip. -/
theorem getValueOut_eq {f : Bool} (h : tx.getValueOut f = .ok v) :
    v = (tx.vout.map fun out =>
      if !f && out.scriptPubKey.isAssetScript.isSome then 0 else out.nValue).sum := by
  unfold getValueOut at h
  suffices ∀ (l : List CTxOut) (start : CAmount), l.foldlM (fun nValueOut txOut =>
      if !f && txOut.scriptPubKey.isAssetScript.isSome then Except.ok nValueOut
      else do
        let nValueOut := nValueOut + txOut.nValue
        ensure (moneyRange txOut.nValue && moneyRange nValueOut) "GetValueOut: value out of range"
        return nValueOut) start = .ok v →
      v = start + (l.map fun out =>
        if !f && out.scriptPubKey.isAssetScript.isSome then 0 else out.nValue).sum by
    simpa using this tx.vout 0 h
  intro l
  induction l with
  | nil =>
    intro start h
    rw [foldlM_nil, pure_eq_ok] at h
    simp [h]
  | cons out l ih =>
    intro start h
    rw [foldlM_cons, bind_eq_ok] at h
    obtain ⟨mid, hmid, hrest⟩ := h
    rw [ih mid hrest, map_cons, sum_cons]
    split at hmid
    case isTrue hskip =>
      obtain rfl := Except.ok.inj hmid
      rw [if_pos hskip]
      ring
    case isFalse hskip =>
      simp only [bind_eq_ok, pure_eq_ok] at hmid
      obtain ⟨_, _, rfl⟩ := hmid
      rw [if_neg hskip]
      ring

/-- Where values are enforced, the skipped outputs carry none. -/
theorem getValueOut_eq_totalOut (hacc : Accepted env tx d m b) (henf : ValuesEnforced env tx)
    (h : tx.getValueOut env.deployments.areEnforcedValuesDeployed = .ok v) : v = tx.totalOut := by
  rw [getValueOut_eq h, totalOut]
  refine congrArg List.sum (map_congr_left fun out hout => ?_)
  split
  case isFalse => rfl
  case isTrue hskip =>
    simp only [Bool.and_eq_true, Bool.not_eq_true'] at hskip
    rcases (hacc.output_value hout).2 hskip.2 with hreissue | hzero
    · rcases henf with hactive | hall
      · simp [hskip.1] at hactive
      · exact (hall out hout hreissue).symm
    · exact hzero.symm

theorem addValueIn_ok {txin : CTxIn} (h : addValueIn coins nSpendHeight n txin = .ok v) :
    v = n + ((coins.accessCoin txin.prevout).map valueOf).getD 0 := by
  simp only [addValueIn, bind_eq_ok, demand_eq_ok, pure_eq_ok] at h
  obtain ⟨coin, hcoin, _, _, _, _, rfl⟩ := h
  simp [hcoin, valueOf]

theorem valueIn_eq {vin : List CTxIn} (h : vin.foldlM (addValueIn coins nSpendHeight) n = .ok v) :
    v = n + (vin.map fun txin => ((coins.accessCoin txin.prevout).map valueOf).getD 0).sum := by
  induction vin generalizing n with
  | nil =>
    rw [foldlM_nil, pure_eq_ok] at h
    simp [h]
  | cons txin vin ih =>
    rw [foldlM_cons, bind_eq_ok] at h
    obtain ⟨mid, hmid, hrest⟩ := h
    rw [ih hrest, addValueIn_ok hmid, map_cons, sum_cons]
    ring

/-- The fee is what the inputs bring over what `GetValueOut` counts, and not negative. -/
theorem checkTxInputs_fee (h : checkTxInputs env coins nSpendHeight tx = .ok fee) :
    ∃ valueOut, tx.getValueOut env.deployments.areEnforcedValuesDeployed = .ok valueOut ∧
      0 ≤ fee ∧
      (tx.vin.map fun txin => ((coins.accessCoin txin.prevout).map valueOf).getD 0).sum =
        valueOut + fee := by
  simp only [checkTxInputs, bind_eq_ok, dos_eq_ok, reject_eq_ok, pure_eq_ok,
    decide_eq_true_eq] at h
  obtain ⟨_, _, nValueIn, hin, valueOut, hout, _, hle, _, _, rfl⟩ := h
  refine ⟨valueOut, hout, sub_nonneg.mpr hle, ?_⟩
  rw [← zero_add (List.sum _), ← valueIn_eq hin]
  ring

theorem Accepted.prevouts_nodup (h : Accepted env tx true m b) :
    (tx.vin.map (·.prevout)).Nodup := by
  have hvin := h.inputs
  simp only [checkVin, bind_eq_ok, whenever_eq_ok, dos_eq_ok, decide_eq_true_eq,
    forall_const] at hvin
  exact hvin.choose_spec.1

theorem totalIn_eq (h : Accepted env tx true m b) (coins : Coins) :
    tx.totalIn coins =
      (tx.vin.map fun txin => ((coins.accessCoin txin.prevout).map valueOf).getD 0).sum := by
  rw [totalIn, h.prevouts_nodup.dedup, map_map]
  rfl

theorem totalOut_le_totalIn (hacc : Accepted env tx true m b)
    (henf : ValuesEnforced env tx) (h : checkTxInputs env coins nSpendHeight tx = .ok fee) :
    0 ≤ fee ∧ tx.totalIn coins = tx.totalOut + fee := by
  obtain ⟨valueOut, hout, hfee, hsum⟩ := checkTxInputs_fee h
  rw [totalIn_eq hacc, hsum, getValueOut_eq_totalOut hacc henf hout]
  exact ⟨hfee, rfl⟩

theorem outputs_map_snd (tx : CTransaction) : tx.outputs.map Prod.snd = tx.vout := by
  rw [outputs, map_map]
  exact zipIdx_map_fst 0 tx.vout

theorem sum_filter_le (p : COutPoint × CTxOut → Bool) (l : List (COutPoint × CTxOut))
    (h : ∀ entry ∈ l, 0 ≤ entry.2.nValue) :
    ((l.filter p).map fun entry => entry.2.nValue).sum ≤ (l.map fun entry => entry.2.nValue).sum := by
  induction l with
  | nil => simp
  | cons entry l ih =>
    have hentry := h entry mem_cons_self
    have hrest := ih fun e he => h e (mem_cons_of_mem _ he)
    rw [filter_cons]
    split <;> simp only [map_cons, sum_cons] <;> linarith

theorem spendableOutputs_value_le (hacc : Accepted env tx d m b) (nHeight : Int) :
    (∀ entry ∈ spendableOutputs tx nHeight, 0 ≤ valueOf entry.2) ∧
      ((spendableOutputs tx nHeight).map fun e => valueOf e.2).sum ≤ tx.totalOut := by
  have hnonneg : ∀ entry ∈ tx.outputs, 0 ≤ entry.2.nValue := by
    intro entry hentry
    have hmem : entry.2 ∈ tx.vout := outputs_map_snd tx ▸ mem_map_of_mem hentry
    exact (hacc.output_value hmem).1
  constructor
  · intro entry hentry
    obtain ⟨e, he, rfl⟩ := mem_map.mp hentry
    exact hnonneg e (mem_of_mem_filter he)
  · have hsum : tx.totalOut = (tx.outputs.map fun entry => entry.2.nValue).sum := by
      rw [totalOut, ← outputs_map_snd, map_map]
      rfl
    rw [spendableOutputs, map_map, hsum]
    exact sum_filter_le _ _ hnonneg

/-- No unspent coin has a negative value. -/
def CoinsNonneg (coins : Coins) : Prop := ∀ entry ∈ coins.items, 0 ≤ valueOf entry.2

/-- What one transaction does to the supply: outside the coinbase the fee is lost. -/
theorem connectTx_supply {env : ChainEnv}
    (h : connectTx env blockHash nHeight scan tx s = .ok scan' t)
    (htx : checkTransaction env.toEnv tx true false true = .ok ())
    (henf : ValuesEnforced env.toEnv tx) (hcoins : CoinsNonneg scan.coins) :
    CoinsNonneg scan'.coins ∧
      totalOf valueOf scan'.coins + scan'.nFees ≤
        totalOf valueOf scan.coins + scan.nFees + if tx.isCoinBase then tx.totalOut else 0 := by
  have hacc := checkTransaction_accepted htx
  obtain ⟨nFees, undo, coins, u, hcheck, hupdate, rfl⟩ := connectTx_ok h
  obtain ⟨hspends, hadded⟩ := updateCoins_ok hupdate
  obtain ⟨houts, hle⟩ := spendableOutputs_value_le hacc nHeight
  simp only at hspends hadded ⊢
  set inputs := if tx.isCoinBase then [] else tx.vin with hinputs
  have hleft : CoinsNonneg (eraseInputs scan.coins inputs) :=
    fun entry hentry => hcoins entry (mem_eraseInputs hentry)
  have hgrow := totalOf_foldl_assign_le valueOf (spendableOutputs tx nHeight)
    (eraseInputs scan.coins inputs) hleft houts
  rw [← addOutputCoins_eq, ← hadded] at hgrow
  have herase := totalOf_eraseInputs valueOf hspends
  refine ⟨hgrow.2, ?_⟩
  cases hcb : tx.isCoinBase with
  | true =>
    have hfees : scan.nFees = nFees := by
      simpa [checkBlockTx, hcb, run_pure_eq_ok] using (run_pure_eq_ok.mp
        (by simpa [checkBlockTx, hcb] using hcheck)).1
    have hnone : undo.vprevout = [] := by
      rw [hcb, if_pos rfl] at hinputs
      have hlength := congrArg List.length (hinputs ▸ hspends).access
      simpa using hlength.symm
    simp only [hnone, map_nil, sum_nil, if_true] at herase ⊢
    linarith [hgrow.1]
  | false =>
    obtain ⟨fee, hfee, rfl, -⟩ := checkBlockTx_ok hcb hcheck
    have hin := (totalOut_le_totalIn hacc henf hfee).2
    rw [hcb, if_neg (by simp)] at hinputs
    have hspent : (undo.vprevout.map valueOf).sum = tx.totalIn scan.coins := by
      rw [totalIn_eq hacc]
      exact (hinputs ▸ hspends).sum_eq valueOf
    simp only [Bool.false_eq_true, if_false, add_zero]
    linarith [hgrow.1]

theorem connectTxs_supply {env : ChainEnv} {txs : List CTransaction}
    (h : txs.foldlM (connectTx env blockHash nHeight) scan s = .ok scan' t)
    (htxs : ∀ tx ∈ txs, checkTransaction env.toEnv tx true false true = .ok ())
    (henf : ∀ tx ∈ txs, ValuesEnforced env.toEnv tx) (hcoins : CoinsNonneg scan.coins) :
    CoinsNonneg scan'.coins ∧
      totalOf valueOf scan'.coins + scan'.nFees ≤ totalOf valueOf scan.coins + scan.nFees +
        (txs.map fun tx => if tx.isCoinBase then tx.totalOut else 0).sum := by
  induction txs generalizing scan s with
  | nil =>
    obtain ⟨rfl, _⟩ := run_pure_eq_ok.mp h
    exact ⟨hcoins, by simp⟩
  | cons tx txs ih =>
    obtain ⟨mid, u, hround, hrest⟩ := run_bind_eq_ok.mp h
    obtain ⟨hmid, hle⟩ := connectTx_supply hround (htxs tx mem_cons_self)
      (henf tx mem_cons_self) hcoins
    obtain ⟨hend, hle'⟩ := ih hrest (fun tx' h' => htxs tx' (mem_cons_of_mem _ h'))
      (fun tx' h' => henf tx' (mem_cons_of_mem _ h')) hmid
    refine ⟨hend, ?_⟩
    rw [map_cons, sum_cons]
    linarith

/-- Where values are enforced, every transaction spends at least what it pays out over all its
outputs, and a block makes the coin supply grow by at most the subsidy. -/
theorem coins_conserved (env : ChainEnv) (coins : Coins) (nHeight : Int) :
    (∀ tx fee, tx.isCoinBase = false →
      checkTransaction env.toEnv tx true false true = .ok () →
      checkTxInputs env.toEnv coins nHeight tx = .ok fee → ValuesEnforced env.toEnv tx →
      tx.totalOut ≤ tx.totalIn coins) ∧
    ∀ block undo coins' s t, connectBlock env block nHeight coins s = .ok (undo, coins') t →
      block.HonestlyMarked env → (∀ tx ∈ block.vtx, ValuesEnforced env.toEnv tx) →
      CoinsNonneg coins → CoinsNonneg coins' ∧
        totalOf valueOf coins' ≤ totalOf valueOf coins + getBlockSubsidy env.toEnv nHeight := by
  constructor
  · intro tx fee _ htx hfee henf
    obtain ⟨hnonneg, heq⟩ := totalOut_le_totalIn (checkTransaction_accepted htx) henf hfee
    linarith
  · intro block undo coins' s t h hmark henf hcoins
    obtain ⟨scan, coinbase, paid, hcheck, hscan, hhead, hpaid, hle, rfl, rfl⟩ := connectBlock_ok h
    obtain ⟨first, rest, hvtx, hfirst, hrest, htxs⟩ := (checked_of_checkBlock hcheck hmark).shape
    obtain ⟨hend, hsupply⟩ := connectTxs_supply hscan htxs henf hcoins
    refine ⟨hend, ?_⟩
    -- only the first transaction is a coinbase, and it pays at most fees and subsidy
    obtain rfl : first = coinbase := by simpa [hvtx] using hhead
    have hmem : first ∈ block.vtx := hvtx ▸ mem_cons_self
    have htotal : paid = first.totalOut := getValueOut_eq_totalOut
      (checkTransaction_accepted (htxs first hmem)) (henf first hmem) hpaid
    have hzero : (rest.map fun tx => if tx.isCoinBase then tx.totalOut else 0).sum = 0 := by
      refine sum_eq_zero fun n hn => ?_
      obtain ⟨tx, htx, rfl⟩ := mem_map.mp hn
      simp [hrest tx htx]
    rw [hvtx, map_cons, sum_cons, if_pos hfirst, hzero] at hsupply
    linarith

def reissueBurnKey : Bytes :=
  [0xda, 0x61, 0xc4, 0x7a, 0xdb, 0xad, 0x4a, 0x81, 0xe5, 0xf1,
   0x4e, 0x1f, 0xab, 0xb3, 0xd1, 0x67, 0xa5, 0x1c, 0xa4, 0x48]

def issueBurnKey : Bytes :=
  [0xdd, 0xa3, 0xd2, 0x17, 0x97, 0xff, 0x26, 0xcb, 0x8a, 0xe9,
   0xa7, 0x69, 0xbd, 0xc6, 0x8c, 0xf4, 0x56, 0x7f, 0x5b, 0xba]

/-- Regtest with the given deployments; the checksums are those of the real hash. -/
def regTestWith (deployments : Deployments) : Env where
  hashes := tableHashes
    [(111 :: reissueBurnKey, [0x87, 0xfa, 0xc9, 0x36]),
     (111 :: issueBurnKey, [0x25, 0xa3, 0xfb, 0x2b]),
     (111 :: issuerKey, [0x98, 0xd5, 0x6f, 0xd1])] []
  params := regTestParams
  deployments := deployments

def unenforced : Deployments := { Deployments.all with areEnforcedValuesDeployed := false }

def goldOwnerTransfer : CTxOut :=
  ⟨0, CAssetTransfer.constructTransaction ⟨str "GOLD!", 1 * coin, [], 0⟩ (scriptForKeyID issuerKey)⟩

/-- The burn takes the whole input; the reissue output carries seven more. -/
def paidReissueTx : CTransaction :=
  ⟨[⟨⟨1, 0⟩, []⟩],
   [⟨100 * coin, scriptForKeyID reissueBurnKey⟩, goldOwnerTransfer,
    ⟨7, CReissueAsset.constructTransaction ⟨str "GOLD", 5, 8, 1, []⟩ (scriptForKeyID issuerKey)⟩], 2⟩

def burnCoins : Coins :=
  KeyedSet.empty.insert (⟨1, 0⟩, ⟨⟨100 * coin, scriptForKeyID issuerKey⟩, false, 1⟩)

theorem paidReissueTx_creates_coins :
    paidReissueTx.isCoinBase = false ∧
      checkTransaction (regTestWith unenforced) paidReissueTx true false true = .ok () ∧
      checkTxInputs (regTestWith unenforced) burnCoins 2 paidReissueTx = .ok 0 ∧
      paidReissueTx.totalOut = paidReissueTx.totalIn burnCoins + 7 := by
  refine ⟨by decide, by decide +kernel, by decide +kernel, by decide +kernel⟩

/-- The owner token of gold changes hands, for a fee of ten. -/
def tokenTx : CTransaction :=
  ⟨[⟨⟨1, 0⟩, []⟩, ⟨⟨1, 1⟩, []⟩], [⟨90 * coin, scriptForKeyID issuerKey⟩, goldOwnerTransfer], 2⟩

def tokenCoins : Coins := burnCoins.insert (⟨1, 1⟩, ⟨goldOwnerTransfer, false, 1⟩)

/-- The coinbase takes the subsidy and the fee. -/
def tokenBlock : CBlock :=
  ⟨3, [⟨[⟨⟨0, 2 ^ 32 - 1⟩, [1, 1]⟩], [⟨5010 * coin, scriptForKeyID issuerKey⟩], 4⟩, tokenTx], false⟩

def tokenAssets : AssetState where
  assetsdb.assetData := KeyedSet.empty.insert ⟨⟨str "GOLD", 5 * coin, 0, 1, 0, []⟩, some 1, 1⟩

theorem tokenBlock_supply :
    tokenTx.totalOut ≤ tokenTx.totalIn tokenCoins ∧
    ∃ undo coins' t, connectBlock ⟨regTestWith .all, .lax, {}⟩ tokenBlock 2 tokenCoins tokenAssets =
        .ok (undo, coins') t ∧ totalOf valueOf coins' ≤ 5100 * coin := by
  obtain ⟨htx, hblock⟩ := coins_conserved ⟨regTestWith .all, .lax, {}⟩ tokenCoins 2
  refine ⟨htx tokenTx (10 * coin) rfl (by decide +kernel) (by decide +kernel) (.inl rfl), ?_⟩
  have hok : succeeded (connectBlock ⟨regTestWith .all, .lax, {}⟩ tokenBlock 2 tokenCoins
      tokenAssets) = true := by decide +kernel
  obtain ⟨⟨undo, coins'⟩, t, h⟩ := succeeded_iff.mp hok
  have hsupply := hblock _ _ _ _ _ h (by simp [CBlock.HonestlyMarked, tokenBlock])
    (fun tx _ => .inl rfl) (by unfold CoinsNonneg; decide +kernel)
  have hbefore : totalOf valueOf tokenCoins + getBlockSubsidy (regTestWith .all) 2 =
      5100 * coin := by decide +kernel
  exact ⟨undo, coins', t, h, hsupply.2.trans_eq hbefore⟩

end HnbCore
