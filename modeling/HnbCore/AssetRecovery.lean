import HnbCore.CoinRecovery
import HnbCore.FlushAgree

/-!
# Recovering the assets

`FlushStateToDisk` writes the coin database and then dumps the asset cache. Neither write of the
asset databases is marked, and `ReplayBlocks` applies the new branch without the asset cache: what
was pending when the node stopped is lost.
-/

namespace HnbCore

open Checks AssetState List Option CTransaction

namespace AssetState

/-- One write of the dump. The indexes by address and by qualifier mirror others and are not kept
here. -/
def putDump (s : AssetState) : DumpKey × Option DumpValue → AssetState
  | (.asset _, some (.data data)) =>
      { s with assetsdb.assetData := s.assetsdb.assetData.assign data }
  | (.asset name, none) => { s with assetsdb.assetData := s.assetsdb.assetData.erase name }
  | (.assetAddressQuantity name address, some (.quantity amount)) =>
      { s with assetsdb.assetAddressQuantity :=
          s.assetsdb.assetAddressQuantity.assign ((name, address), amount) }
  | (.assetAddressQuantity name address, none) =>
      { s with assetsdb.assetAddressQuantity :=
          s.assetsdb.assetAddressQuantity.erase (name, address) }
  | (.verifier name, some (.verifier verifier)) =>
      { s with restricteddb.verifiers := s.restricteddb.verifiers.assign (name, verifier) }
  | (.verifier name, none) =>
      { s with restricteddb.verifiers := s.restricteddb.verifiers.erase name }
  | (.addressQualifier address name, some .flag) =>
      { s with restricteddb.addressQualifiers :=
          s.restricteddb.addressQualifiers.insert (address, name) }
  | (.addressQualifier address name, none) =>
      { s with restricteddb.addressQualifiers :=
          s.restricteddb.addressQualifiers.erase (address, name) }
  | (.restrictedAddress address name, some .flag) =>
      { s with restricteddb.restrictedAddresses :=
          s.restricteddb.restrictedAddresses.insert (address, name) }
  | (.restrictedAddress address name, none) =>
      { s with restricteddb.restrictedAddresses :=
          s.restricteddb.restrictedAddresses.erase (address, name) }
  | (.globalRestriction name, some .flag) =>
      { s with restricteddb.globalRestrictions := s.restricteddb.globalRestrictions.insert name }
  | (.globalRestriction name, none) =>
      { s with restricteddb.globalRestrictions := s.restricteddb.globalRestrictions.erase name }
  | _ => s

/-- The node started again: nothing but the databases is left. -/
def restart (s : AssetState) : AssetState where
  assetsdb := s.assetsdb
  restricteddb := s.restricteddb
  fAssetIndex := s.fAssetIndex

end AssetState

theorem stored_putDump (s : AssetState) {change : DumpKey × Option DumpValue}
    (h : WellTyped change) {k : DumpKey} (hk : k.isKept = true) :
    (s.putDump change).stored k = Batch.after [change] k (s.stored k) := by
  obtain ⟨key, value⟩ := change
  cases key <;> rcases value with _ | _ | _ | _ | _ <;> cases k <;>
    simp_all [WellTyped, putDump, stored, Batch.after_cons, DumpKey.isKept,
      KeyedSet.find?_assign, KeyedSet.find?_erase, KeyedSet.find?_insert] <;>
    split <;> simp_all

theorem stored_putDumps (s : AssetState) {made : DumpBatch} (h : ∀ change ∈ made, WellTyped change)
    {k : DumpKey} (hk : k.isKept = true) :
    (made.foldl putDump s).stored k = Batch.after made k (s.stored k) := by
  induction made generalizing s with
  | nil => rfl
  | cons change made ih =>
    rw [foldl_cons, ih _ fun change' hin => h change' (mem_cons_of_mem _ hin),
      stored_putDump s (h change mem_cons_self) hk, ← Batch.after_append]
    rfl

/-- When all writes are made, the databases are those of the dump. -/
theorem stored_whole_dump (hashes : Hashes) (s : AssetState) {k : DumpKey} (hk : k.isKept = true) :
    ((dumpGroups s.fAssetIndex s.passets).flatten.foldl putDump s).stored k =
      (s.dumpCacheToDatabase hashes).stored k := by
  rw [stored_putDumps s (dumpGroups_makes hashes _ _).typed hk, dump_makes hashes s k hk]

/-- What taking a transaction back does to the assets. It reads no coins. -/
def disconnectTxAssets (env : Env) (vUndoData : List (Bytes × CBlockAssetUndo))
    (item : CTransaction × Option (List Coin)) : Contextual Unit := do
  undoTxAssets env item.1 vUndoData
  forM (item.1.vin.zip (item.2.getD [])).reverse fun input =>
    ask fun s => ((), (undoCoinAssets env input.2 s).2)

def disconnectBlockAssets (env : CBlock → Env) (stored : StoredBlock) : Contextual Unit := do
  let s ← get
  forM (stored.block.vtx.zip (none :: (stored.vtxundo.getD []).map some)).reverse
    (disconnectTxAssets (env stored.block) (s.assetsdb.readBlockUndoAssetData stored.block.hash))

theorem disconnectTx_assets {env : Env} {nHeight : Int} {vUndoData : List (Bytes × CBlockAssetUndo)}
    {scan scan' : DisconnectScan} {item : CTransaction × Option (List Coin)} {s t : AssetState}
    (h : disconnectTx env nHeight vUndoData scan item s = .ok scan' t) :
    disconnectTxAssets env vUndoData item s = .ok () t := by
  obtain ⟨tx, vprevout⟩ := item
  simp only [disconnectTx, run_bind_eq_ok, run_get_eq_ok] at h
  obtain ⟨_, _, ⟨rfl, rfl⟩, _, u, hundo, hrest⟩ := h
  refine run_bind_eq_ok.mpr ⟨(), u, hundo, ?_⟩
  cases vprevout with
  | none =>
    obtain ⟨-, rfl⟩ := run_pure_eq_ok.mp hrest
    simp [pure, EStateM.pure]
  | some vprevout =>
    simp only [restoreInputs, run_bind_eq_ok, run_lift_eq_ok] at hrest
    obtain ⟨_, _, ⟨-, rfl⟩, hinputs⟩ := hrest
    refine run_forM_of_foldlM (fun scan input s scan' t hround => ?_) hinputs
    simp only [applyTxInUndo, run_bind_eq_ok, run_lift_eq_ok, run_pure_eq_ok] at hround
    obtain ⟨_, _, ⟨-, rfl⟩, _, u, hask, -, rfl⟩ := hround
    cases hask
    rfl

theorem rollBack_assets {env : CBlock → Env} {branch fork : List StoredBlock} (hfork : fork ≠ [])
    {coins coins' : Coins} {s t : AssetState}
    (h : rollBack env fork (branch ++ fork) coins s = .ok coins' t) :
    forM branch (disconnectBlockAssets env) s = .ok () t := by
  induction branch generalizing coins s with
  | nil =>
    cases fork with
    | nil => exact absurd rfl hfork
    | cons stored fork =>
      rw [nil_append, rollBack, if_pos rfl, run_pure_eq_ok] at h
      rw [h.2]
      rfl
  | cons stored branch ih =>
    have hlength : stored :: (branch ++ fork) ≠ fork := by
      intro heq
      have hlength := congrArg List.length heq
      simp at hlength
      omega
    have hempty : (branch ++ fork).isEmpty = false := by simp [hfork]
    rw [cons_append, rollBack, if_neg hlength, hempty] at h
    simp only [Bool.false_eq_true, if_false, disconnectBlock, run_bind_eq_ok, run_lift_eq_ok,
      require_eq_ok, run_get_eq_ok] at h
    obtain ⟨vtxundo, _, ⟨hundo, rfl⟩, scan, u, ⟨_, _, ⟨-, rfl⟩, _, _, ⟨rfl, rfl⟩, htxs⟩, hrest⟩ := h
    refine run_bind_eq_ok.mpr ⟨(), u, run_bind_eq_ok.mpr ⟨_, _, rfl, ?_⟩, ih hrest⟩
    rw [hundo]
    exact run_forM_of_foldlM (fun _ _ _ _ _ => disconnectTx_assets) htxs

/-- The transaction issues, reissues, tags and freezes nothing, and transfers nothing with the asset
index on. -/
def CTransaction.OnlyTransfers (fAssetIndex : Bool) (tx : CTransaction) : Prop :=
  ∀ out ∈ tx.vout, out.scriptPubKey.isNullAsset = false ∧
    ∀ a ∈ out.scriptPubKey.isAssetScript, a.nType = .txTransferAsset ∧ fAssetIndex = false

/-- The block does nothing but transfers to the assets, and with the asset index on nothing. -/
structure StoredBlock.OnlyTransfers (fAssetIndex : Bool) (stored : StoredBlock) : Prop where
  outputs : ∀ tx ∈ stored.block.vtx, tx.OnlyTransfers fAssetIndex
  inputs : ∀ vprevout ∈ stored.vtxundo.getD [], ∀ coin ∈ vprevout,
    coin.isAsset = true → fAssetIndex = false

section OnlyTransfers

variable {env : Env} {tx : CTransaction} {vUndoData : List (Bytes × CBlockAssetUndo)}
  {fAssetIndex : Bool}

theorem CTransaction.OnlyTransfers.lastScript (h : tx.OnlyTransfers fAssetIndex) :
    ∀ a ∈ tx.lastScript.isAssetScript, a.nType = .txTransferAsset := by
  unfold CTransaction.lastScript
  cases hlast : tx.vout.getLast? with
  | none => exact fun a ha => by cases ha
  | some out => exact fun a ha => ((h out (mem_of_getLast? hlast)).2 a ha).1

end OnlyTransfers

namespace AssetState

variable {hashes : Hashes} {s : AssetState}

end AssetState

/-- What a node finds when it starts again after the flush from the old to the new tip was
interrupted: some batches of the coin database, or all of them and some writes of the dump. -/
inductive FlushInterrupted {mapBlockIndex : BlockPointers} (tips : TwoTips mapBlockIndex)
    (n : AssetState) : CoinsDatabase → AssetState → Prop
  | coins {db : CoinsDatabase} (start : db.At (tipHash tips.old) tips.coinsOld)
      (cacheOver : CacheOver db.view tips.coinsNew) (full : Nat → Bool) (k : Nat) (begun : 0 < k) :
      FlushInterrupted tips n
        (db.writeBatches ((db.batches full cacheOver.cache (tipHash tips.new)).take k)) n.restart
  | dump {db : CoinsDatabase} (start : db.At (tipHash tips.old) tips.coinsOld)
      (cacheOver : CacheOver db.view tips.coinsNew) (full : Nat → Bool) (made : DumpBatch)
      (written : made <+: (dumpGroups n.fAssetIndex n.passets).flatten) :
      FlushInterrupted tips n (db.writeBatches (db.batches full cacheOver.cache (tipHash tips.new)))
        (made.foldl putDump n).restart

/-- The blocks of the old branch that a replay takes back. -/
def TwoTips.takenBack {mapBlockIndex : BlockPointers} (tips : TwoTips mapBlockIndex) :
    List StoredBlock :=
  tips.old.take (tips.old.length - (lastCommonAncestor tips.old tips.new).length)

section Recovery

variable {mapBlockIndex : BlockPointers} {tips : TwoTips mapBlockIndex} {n s : AssetState}
  {db : CoinsDatabase}

theorem FlushInterrupted.recoverable (h : FlushInterrupted tips n db s) : Recoverable tips db := by
  cases h with
  | coins start cacheOver full k begun =>
    exact (Interrupted.flush start cacheOver full k begun).recoverable
  | dump start cacheOver full made written =>
    exact .inr (CoinsDatabase.writeBatches_all full cacheOver (tipHash tips.new))

/-- A replay leaves to the assets what taking the old branch back leaves. -/
theorem replayCoins_assets {env : CBlock → Env} {view coins : Coins} {t : AssetState}
    (h : replayCoins env mapBlockIndex view (tipHash tips.new) (tipHash tips.old) s =
      .ok coins t) :
    forM tips.takenBack (disconnectBlockAssets env) s = .ok () t := by
  rcases tips.replayCoins_ok h with ⟨hold, -, rfl⟩ | ⟨hbase, rolled, hroll, -⟩
  · simp [TwoTips.takenBack, hold, pure, EStateM.pure]
  · obtain ⟨branch, hsplit⟩ := (lastCommonAncestor_suffix tips.old tips.new).1
    have htaken : tips.takenBack = branch := by
      have hlength := congrArg List.length hsplit
      rw [length_append] at hlength
      rw [TwoTips.takenBack, ← hlength, Nat.add_sub_cancel]
      exact (congrArg (List.take branch.length) hsplit.symm).trans take_left
    rw [htaken]
    refine rollBack_assets hbase (?_ : rollBack _ _ _ view s = .ok rolled t)
    rw [hsplit]
    exact hroll

/-- Where there is something to replay, the databases are those before the dump. -/
theorem FlushInterrupted.replayed {env : CBlock → Env} (h : FlushInterrupted tips n db s)
    (flush : ReplayFlush env mapBlockIndex s db) :
    forM tips.takenBack (disconnectBlockAssets env) n.restart =
      .ok () flush.assets := by
  obtain ⟨hheads, -⟩ := flush.coins_eq h.recoverable
  obtain ⟨hashNew, hashOld, coins, assets, heads, replayed, -, -⟩ := flush
  rw [hheads] at heads
  cases heads
  cases h with
  | coins => exact replayCoins_assets replayed
  | dump start cacheOver full =>
    have hat := CoinsDatabase.writeBatches_all full cacheOver (tipHash tips.new)
    cases hat.headBlocks.symm.trans hheads

variable (tips) (env : CBlock → Env) (hashes : Hashes) (n)

end Recovery

end HnbCore
