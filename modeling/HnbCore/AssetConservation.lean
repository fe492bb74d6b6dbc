import HnbCore.CheckTxAssets
import HnbCore.ParentTransfer

/-!
# Conservation of assets in a transaction

`CheckTxAssets` compares running totals kept in 64-bit signed integers. What it establishes about
the sums of the amounts is their equality modulo `2 ^ 64`.
-/

namespace HnbCore

open Checks AssetState Option KeyedSet AssetTotals

variable {env : Env} {s t : AssetState} {tx : CTransaction} {totals : AssetTotals} {coins : Coins}
  {mempool : MempoolAssets} {sum : Bytes → Int} {scan : AssetOutputScan}

/-- The amount of an asset that an output or a coin with this script carries. -/
def carriedAmount (env : Env) (name : Bytes) (script : CScript) : Int :=
  match getAssetData env script with
  | some data => if data.assetName = name then data.nAmount else 0
  | none => 0

/-- The amount of an asset that an output with this script transfers. -/
def transferredAmount (env : Env) (name : Bytes) (script : CScript) : Int :=
  match transferAssetFromScript env script with
  | some (transfer, _) => if transfer.strName = name then transfer.nAmount else 0
  | none => 0

/-- The amount of an asset in the coin at an outpoint. -/
def spentAmount (env : Env) (coins : Coins) (name : Bytes) (out : COutPoint) : Int :=
  match coins.accessCoin out with
  | some coin => carriedAmount env name coin.out.scriptPubKey
  | none => 0

def transferredSum (env : Env) (tx : CTransaction) (name : Bytes) : Int :=
  (tx.vout.map fun out => transferredAmount env name out.scriptPubKey).sum

/-- Each coin counts once, however many inputs name it. -/
def spentSum (env : Env) (coins : Coins) (tx : CTransaction) (name : Bytes) : Int :=
  ((tx.vin.map (·.prevout)).dedup.map (spentAmount env coins name)).sum

/-- What a map of totals says about an asset, nothing being zero. -/
def AssetTotals.total (totals : AssetTotals) (name : Bytes) : Int :=
  ((totals.find? name).map Prod.snd).getD 0

/-- The totals are the sums as far as a 64-bit integer can tell. -/
def AssetTotals.Tracks (totals : AssetTotals) (sum : Bytes → Int) : Prop :=
  ∀ name, totals.total name % 2 ^ 64 = sum name % 2 ^ 64

theorem int64_emod (x : Int) : int64 x % 2 ^ 64 = x % 2 ^ 64 := by
  rw [int64, Int.bmod_def]
  split <;> omega

theorem AssetTotals.total_add (totals : AssetTotals) (name : Bytes) (nAmount : CAmount)
    (other : Bytes) :
    (totals.add name nAmount).total other % 2 ^ 64 =
      (totals.total other + if name = other then nAmount else 0) % 2 ^ 64 := by
  unfold add total
  cases hfind : totals.find? name with
  | some entry =>
    by_cases hname : name = other
    · subst hname
      simpa [find?_assign, hfind] using int64_emod (entry.2 + nAmount)
    · simp [find?_assign, hname]
  | none =>
    by_cases hname : name = other
    · subst hname
      simp [find?_insert, hfind]
    · simp [find?_insert, hname]

theorem AssetTotals.Tracks.add (h : totals.Tracks sum) (name : Bytes) (nAmount : CAmount) :
    (totals.add name nAmount).Tracks
      (fun other => sum other + if name = other then nAmount else 0) := by
  intro other
  rw [total_add, Int.add_emod, h other, ← Int.add_emod]

variable {totals' : AssetTotals} {txin : CTxIn} {scan' : AssetOutputScan} {txout : CTxOut}

/-- An input adds the asset its coin carries to the totals, if the coin carries one. -/
theorem checkAssetInput_totals (h : checkAssetInput env coins totals txin s = .ok totals' t) :
    ∃ coin, coins.accessCoin txin.prevout = some coin ∧
      ((getAssetData env coin.out.scriptPubKey = none ∧ totals' = totals) ∨
        ∃ data, getAssetData env coin.out.scriptPubKey = some data ∧
          totals' = totals.add data.assetName data.nAmount) := by
  simp only [checkAssetInput, run_bind_eq_ok, run_lift_eq_ok, demand_eq_ok] at h
  obtain ⟨coin, u, ⟨hcoin, rfl⟩, h⟩ := h
  refine ⟨coin, hcoin, ?_⟩
  split at h
  case isTrue =>
    simp only [run_bind_eq_ok, run_lift_eq_ok, demand_eq_ok, run_pure_eq_ok] at h
    obtain ⟨data, _, ⟨hdata, rfl⟩, _, _, _, rfl, rfl⟩ := h
    exact .inr ⟨data, hdata, rfl⟩
  case isFalse hasset =>
    obtain ⟨rfl, rfl⟩ := run_pure_eq_ok.mp h
    -- a script that is no asset script has no asset data
    simp only [Coin.isAsset, Bool.not_eq_true, isSome_eq_false_iff,
      isNone_iff_eq_none] at hasset
    exact .inl ⟨by simp [getAssetData, hasset], rfl⟩

theorem checkAssetInput_tracks
    (h : checkAssetInput env coins totals txin s = .ok totals' t) (hsum : totals.Tracks sum) :
    totals'.Tracks fun name => sum name + spentAmount env coins name txin.prevout := by
  obtain ⟨coin, hcoin, ⟨hnone, rfl⟩ | ⟨data, hdata, rfl⟩⟩ := checkAssetInput_totals h
  · simpa [spentAmount, hcoin, carriedAmount, hnone] using hsum
  · have hcarried : ∀ name, spentAmount env coins name txin.prevout =
        if data.assetName = name then data.nAmount else 0 := by
      intro name
      simp [spentAmount, hcoin, carriedAmount, hdata]
    simpa only [hcarried] using hsum.add data.assetName data.nAmount

theorem transferAssetFromScript_isTransfer {script : CScript} {found : CAssetTransfer × Bytes}
    (h : transferAssetFromScript env script = some found) :
    script.isAssetScript.map (·.nType) = some .txTransferAsset := by
  unfold transferAssetFromScript isScriptTransferAsset assetDataStart at h
  cases hasset : script.isAssetScript with
  | none => simp [hasset, fromScript] at h
  | some a =>
    by_cases htype : a.nType = .txTransferAsset
    · simp [htype]
    · simp [hasset, htype, fromScript] at h

/-- An output adds the asset it transfers to the totals, if it transfers one. -/
theorem checkAssetOutput_totals (h : checkAssetOutput env mempool tx scan txout s = .ok scan' t) :
    (transferAssetFromScript env txout.scriptPubKey = none ∧
      scan'.totalOutputs = scan.totalOutputs) ∨
    ∃ transfer address,
      transferAssetFromScript env txout.scriptPubKey = some (transfer, address) ∧
        scan'.totalOutputs = scan.totalOutputs.add transfer.strName transfer.nAmount := by
  simp only [checkAssetOutput, run_bind_eq_ok, run_lift_eq_ok] at h
  obtain ⟨_, _, _, _, _, _, h⟩ := h
  split at h
  case isTrue =>
    simp only [run_bind_eq_ok, run_lift_eq_ok, demand_eq_ok, run_pure_eq_ok] at h
    obtain ⟨⟨transfer, address⟩, _, ⟨hfrom, rfl⟩, _, _, _, _, _, _, rfl, rfl⟩ := h
    exact .inr ⟨transfer, address, hfrom, rfl⟩
  case isFalse htype =>
    have hnone : transferAssetFromScript env txout.scriptPubKey = none := by
      by_contra hsome
      obtain ⟨found, hfound⟩ := ne_none_iff_exists'.mp hsome
      exact htype (transferAssetFromScript_isTransfer hfound)
    refine .inl ⟨hnone, ?_⟩
    split at h
    case isTrue =>
      simp only [run_bind_eq_ok] at h
      obtain ⟨⟨reissue, _⟩, _, _, h⟩ := h
      cases hreissued : mempool.mapReissuedAssets.find? reissue.strName with
      | some entry =>
        simp only [hreissued, run_bind_eq_ok, run_pure_eq_ok] at h
        obtain ⟨_, _, _, rfl, _⟩ := h
        rfl
      | none =>
        simp only [hreissued, run_pure_eq_ok] at h
        obtain ⟨rfl, _⟩ := h
        rfl
    case isFalse =>
      obtain ⟨rfl, _⟩ := run_pure_eq_ok.mp h
      rfl

theorem checkAssetOutput_tracks (h : checkAssetOutput env mempool tx scan txout s = .ok scan' t)
    (hsum : scan.totalOutputs.Tracks sum) :
    scan'.totalOutputs.Tracks
      fun name => sum name + transferredAmount env name txout.scriptPubKey := by
  rcases checkAssetOutput_totals h with ⟨hnone, hsame⟩ | ⟨transfer, address, hfrom, hadd⟩
  · rw [hsame]
    simpa [transferredAmount, hnone] using hsum
  · have hamount : ∀ name, transferredAmount env name txout.scriptPubKey =
        if transfer.strName = name then transfer.nAmount else 0 := by
      intro name
      simp [transferredAmount, hfrom]
    rw [hadd]
    simpa only [hamount] using hsum.add transfer.strName transfer.nAmount

theorem totalInputs_track {vin : List CTxIn}
    (h : vin.foldlM (checkAssetInput env coins) .empty s = .ok totals t) :
    totals.Tracks fun name => (vin.map fun txin => spentAmount env coins name txin.prevout).sum := by
  let Tracked (done : List CTxIn) (totals : AssetTotals) : Prop :=
    totals.Tracks fun name => (done.map fun txin => spentAmount env coins name txin.prevout).sum
  have hstart : Tracked [] .empty := fun name => by simp [total]
  refine run_foldlM_induction hstart (fun done totals txin s totals' t hdone hround => ?_) h
  simpa [Tracked] using checkAssetInput_tracks hround hdone

theorem totalOutputs_track {vout : List CTxOut}
    (h : vout.foldlM (checkAssetOutput env mempool tx) {} s = .ok scan t) :
    scan.totalOutputs.Tracks
      fun name => (vout.map fun out => transferredAmount env name out.scriptPubKey).sum := by
  let Tracked (done : List CTxOut) (scan : AssetOutputScan) : Prop :=
    scan.totalOutputs.Tracks
      fun name => (done.map fun out => transferredAmount env name out.scriptPubKey).sum
  have hstart : Tracked [] {} := fun name => by simp [total]
  refine run_foldlM_induction hstart (fun done scan txout s scan' t hdone hround => ?_) h
  simpa [Tracked] using checkAssetOutput_tracks hround hdone

/-- The comparison passes only if both maps hold the same totals. -/
theorem compareTotals_ok {totalInputs totalOutputs : AssetTotals}
    (h : compareTotals totalInputs totalOutputs = .ok ()) (name : Bytes) :
    totalOutputs.total name = totalInputs.total name := by
  simp only [compareTotals, bind_eq_ok, forM_eq_ok, demand_eq_ok, dos_eq_ok,
    decide_eq_true_eq] at h
  obtain ⟨_, hall, hsize⟩ := h
  have hmem : ∀ entry ∈ totalOutputs.items, entry ∈ totalInputs.items := by
    rintro ⟨name, total⟩ hentry
    obtain ⟨⟨name', input⟩, hfind, rfl⟩ := hall (name, total) hentry
    obtain rfl : name' = name := key_of_find? hfind
    exact mem_of_find? hfind
  rw [total, total, find?_eq_of_mem_of_size hmem hsize]

/-- What an accepted transaction transfers and what its inputs name agree modulo `2 ^ 64`. -/
theorem checkTxAssets_emod {fCheckMempool : Bool} {pairs : List (Bytes × UInt256)}
    (h : checkTxAssets env mempool coins tx fCheckMempool s = .ok pairs t) (name : Bytes) :
    transferredSum env tx name % 2 ^ 64 =
      (tx.vin.map fun txin => spentAmount env coins name txin.prevout).sum % 2 ^ 64 := by
  simp only [checkTxAssets, run_bind_eq_ok, run_lift_eq_ok] at h
  obtain ⟨_, _, _, totalInputs, _, hin, scan, _, hout, _, _, _, _, _, ⟨hcompare, _⟩, _⟩ := h
  rw [transferredSum, ← totalInputs_track hin name, ← totalOutputs_track hout name,
    compareTotals_ok hcompare name]

/-- No two inputs of an accepted transaction name the same coin. -/
theorem spentSum_eq {fMempoolCheck fBlockCheck : Bool}
    (h : checkTransaction env tx true fMempoolCheck fBlockCheck = .ok ()) (coins : Coins)
    (name : Bytes) :
    spentSum env coins tx name =
      (tx.vin.map fun txin => spentAmount env coins name txin.prevout).sum := by
  have hvin := (checkTransaction_accepted h).inputs
  simp only [checkVin, bind_eq_ok, whenever_eq_ok, dos_eq_ok, decide_eq_true_eq,
    forall_const] at hvin
  obtain ⟨_, hnodup, _⟩ := hvin
  rw [spentSum, hnodup.dedup, List.map_map]
  rfl

/-- Every asset an accepted transaction moves is conserved if and only if, for every asset, the
sums of what is transferred and of what is spent lie less than `2 ^ 64` apart. -/
theorem assets_conserved_iff (env : Env) (mempool : MempoolAssets) (coins : Coins)
    (tx : CTransaction) (fMempoolCheck fBlockCheck fCheckMempool : Bool) (s t : AssetState)
    (pairs : List (Bytes × UInt256))
    (hcheck : checkTransaction env tx true fMempoolCheck fBlockCheck = .ok ())
    (hassets : checkTxAssets env mempool coins tx fCheckMempool s = .ok pairs t) :
    (∀ name, transferredSum env tx name = spentSum env coins tx name) ↔
      ∀ name, |transferredSum env tx name - spentSum env coins tx name| < 2 ^ 64 := by
  constructor
  · intro hall name
    simp [hall name]
  · intro hnear name
    have hmod := checkTxAssets_emod hassets name
    rw [← spentSum_eq hcheck] at hmod
    have hlt := abs_lt.mp (hnear name)
    omega

def goldAsset : CNewAsset := ⟨str "GOLD", 1000, 8, 1, 0, []⟩

/-- The asset is in the database and nothing is pending. -/
def goldState : AssetState :=
  { assetsdb := { assetData := empty.insert ⟨goldAsset, some 1, 1⟩ } }

def goldTransfer (nAmount : CAmount) : CTxOut :=
  ⟨0, CAssetTransfer.constructTransaction ⟨str "GOLD", nAmount, [], 0⟩ (scriptForKeyID issuerKey)⟩

/-- One coin with ten units. -/
def goldCoins : Coins := empty.insert (⟨1, 0⟩, ⟨goldTransfer 10, false, 1⟩)

def goldTx (amounts : List CAmount) : CTransaction :=
  ⟨[⟨⟨1, 0⟩, []⟩], amounts.map goldTransfer, 2⟩

/-- Two outputs of `2 ^ 63 - 1` and one of twelve: the 64-bit total is ten. -/
def wrappingAmounts : List CAmount := [2 ^ 63 - 1, 2 ^ 63 - 1, 12]

theorem goldTx_conserved :
    checkTransaction regTestEnv (goldTx [4, 6]) true false true = .ok () ∧
      ∀ name, transferredSum regTestEnv (goldTx [4, 6]) name =
        spentSum regTestEnv goldCoins (goldTx [4, 6]) name := by
  have hcheck : checkTransaction regTestEnv (goldTx [4, 6]) true false true = .ok () := by
    decide +kernel
  have hassets : succeeded (checkTxAssets regTestEnv {} goldCoins (goldTx [4, 6]) false goldState) =
      true := by decide +kernel
  obtain ⟨pairs, t, hok⟩ := succeeded_iff.mp hassets
  refine ⟨hcheck, (assets_conserved_iff regTestEnv {} goldCoins (goldTx [4, 6]) false true false
    goldState t pairs hcheck hok).mpr fun name => ?_⟩
  have hfour : transferAssetFromScript regTestEnv (goldTransfer 4).scriptPubKey =
      some (⟨str "GOLD", 4, [], 0⟩, regTestEnv.addressOf (goldTransfer 4).scriptPubKey) := by
    decide +kernel
  have hsix : transferAssetFromScript regTestEnv (goldTransfer 6).scriptPubKey =
      some (⟨str "GOLD", 6, [], 0⟩, regTestEnv.addressOf (goldTransfer 6).scriptPubKey) := by
    decide +kernel
  have hten : getAssetData regTestEnv (goldTransfer 10).scriptPubKey =
      some ⟨.txTransferAsset, str "GOLD", .keyID issuerKey, 10, [], 0⟩ := by decide +kernel
  have hcoin : goldCoins.accessCoin ⟨1#256, 0⟩ = some ⟨goldTransfer 10, false, 1⟩ := by decide +kernel
  by_cases hname : str "GOLD" = name <;>
    simp [transferredSum, spentSum, goldTx, transferredAmount, spentAmount, carriedAmount, hfour,
      hsix, hten, hcoin, hname]

theorem goldTx_wrapped :
    checkTransaction regTestEnv (goldTx wrappingAmounts) true false true = .ok () ∧
      (∃ pairs t, checkTxAssets regTestEnv {} goldCoins (goldTx wrappingAmounts) false goldState =
        .ok pairs t) ∧
      transferredSum regTestEnv (goldTx wrappingAmounts) (str "GOLD") = 2 ^ 64 + 10 ∧
      spentSum regTestEnv goldCoins (goldTx wrappingAmounts) (str "GOLD") = 10 := by
  exact ⟨by decide +kernel, succeeded_iff.mp (by decide +kernel), by decide +kernel,
    by decide +kernel⟩

end HnbCore
