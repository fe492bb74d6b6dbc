import HnbCore.Lib.Lockstep
import HnbCore.ReorgRestore

/-!
# Blocks and the reissues of the memory pool

`CheckTxAssets` serves the memory pool and the chain alike, and in both it looks the asset of a
reissue up in `mapReissuedAssets`, which remembers the reissues that wait in the memory pool.
`mapReissuedTx`, the same map the other way round, is not read when a block is connected.
-/

namespace HnbCore

open Checks AssetState List Option

/-- What `AcceptToMemoryPool` remembers of a transaction it has let in. -/
def MempoolAssets.rememberReissues (mempool : MempoolAssets) (pairs : List (Bytes × UInt256)) :
    MempoolAssets :=
  { mempool with mapReissuedAssets := pairs.foldl .insert mempool.mapReissuedAssets }

/-- The names in the reissue outputs of a transaction, wherever they stand. -/
def CTransaction.reissueOutputs (env : Env) (tx : CTransaction) : List Bytes :=
  tx.vout.filterMap fun out =>
    (reissueAssetFromScript env out.scriptPubKey).map fun (reissue, _) => reissue.strName

/-- A reissue of the asset that waits in the memory pool is this very transaction. -/
def MempoolAssets.allowsReissue (mempool : MempoolAssets) (tx : CTransaction) (name : Bytes) :
    Bool :=
  (mempool.mapReissuedAssets.find? name).all fun (_, hash) => hash = tx.hash

/-- No reissue that waits in the memory pool stands against a reissue of the block. -/
def CBlock.Unhindered (block : CBlock) (env : Env) (mempool : MempoolAssets) : Prop :=
  ∀ tx ∈ block.vtx, tx.isCoinBase = false →
    ∀ name ∈ tx.reissueOutputs env, mempool.allowsReissue tx name = true

variable {address : Bytes} {reissue : CReissueAsset}

theorem CTransaction.mem_reissueOutputs {env : Env} {tx : CTransaction} {out : CTxOut}
    (hout : out ∈ tx.vout)
    (h : reissueAssetFromScript env out.scriptPubKey = some (reissue, address)) :
    reissue.strName ∈ tx.reissueOutputs env := by
  refine mem_filterMap.mpr ⟨out, hout, ?_⟩
  rw [h]
  rfl

theorem nType_of_reissueAssetFromScript {env : Env} {script : CScript}
    (h : reissueAssetFromScript env script = some (reissue, address)) :
    script.isAssetScript.map (·.nType) = some .txReissueAsset := by
  have hscript := isReissueAsset_of_reissueAssetFromScript h
  unfold CScript.isReissueAsset at hscript
  split at hscript
  next a hread =>
    rw [hread, map_some, of_decide_eq_true hscript]
  next => cases hscript

section Lockstep

variable {env : Env} {m m' : MempoolAssets} {tx : CTransaction}

/-- Two scans that differ at most in the reissues they would have remembered. -/
def SameTotals (scan scan' : AssetOutputScan) : Prop := scan.totalOutputs = scan'.totalOutputs

variable {out : CTxOut} {scan scan' : AssetOutputScan} {s t : AssetState}

theorem checkAssetOutput_lockstep (hscan : SameTotals scan scan') (hout : out ∈ tx.vout)
    (h : ∀ name ∈ tx.reissueOutputs env, m.allowsReissue tx name = true)
    (h' : ∀ name ∈ tx.reissueOutputs env, m'.allowsReissue tx name = true) :
    Lockstep SameTotals (checkAssetOutput env m tx scan out)
      (checkAssetOutput env m' tx scan' out) := by
  unfold checkAssetOutput
  refine lockstep_bind_same fun _ _ => lockstep_bind_same fun _ _ => ?_
  split_ifs
  · refine lockstep_bind_same fun _ _ => lockstep_bind_same fun _ _ =>
      lockstep_bind_same fun _ _ => lockstep_pure ?_
    unfold SameTotals at hscan ⊢
    simp only [hscan]
  · refine lockstep_bind_same fun found hfound => ?_
    obtain ⟨_, _, hread⟩ := hfound
    obtain ⟨hread, -⟩ := run_lift_eq_ok.mp hread
    have hmem := CTransaction.mem_reissueOutputs hout (demand_eq_ok.mp hread)
    have hallowed := h _ hmem
    have hallowed' := h' _ hmem
    unfold MempoolAssets.allowsReissue at hallowed hallowed'
    dsimp only
    -- on either side the lookup finds no entry, or one that lets the transaction pass
    split
    on_goal 1 =>
      rename_i hfind
      rw [hfind, all_some] at hallowed
      refine lockstep_ensure_left hallowed ?_
    all_goals
      split
      next hfind' =>
        rw [hfind', all_some] at hallowed'
        exact lockstep_ensure_right hallowed' (lockstep_pure hscan)
      next => exact lockstep_pure hscan
  · exact lockstep_pure hscan

variable (k : MempoolAssets)

/-- With `fCheckMempool` off the names that wait in the memory pool are not looked at. -/
theorem contextualCheckNewAsset_mempool (asset : CNewAsset) :
    contextualCheckNewAsset env m asset false = contextualCheckNewAsset env k asset false := by
  unfold contextualCheckNewAsset
  simp only [Bool.false_and]

theorem checkIssue_mempool (deployed : Bool) (beforeActive : String)
    (asset : Option (CNewAsset × Bytes)) (badSerialization : String) (message : String → String) :
    checkIssue env m false deployed beforeActive asset badSerialization message =
      checkIssue env k false deployed beforeActive asset badSerialization message := by
  unfold checkIssue
  simp only [contextualCheckNewAsset_mempool (m := m) k]

theorem contextualCheckUniqueAssetTx_mempool :
    contextualCheckUniqueAssetTx env m tx = contextualCheckUniqueAssetTx env k tx := by
  unfold contextualCheckUniqueAssetTx
  simp only [contextualCheckNewAsset_mempool (m := m) k]

theorem checkCreated_mempool :
    checkCreated env m tx false = checkCreated env k tx false := by
  unfold checkCreated
  split_ifs
  · rw [checkIssue_mempool k]
  · rfl
  · rw [contextualCheckUniqueAssetTx_mempool k]
  · rw [checkIssue_mempool k]
  · rw [checkIssue_mempool k]
  · rw [checkIssue_mempool k]
  · rfl

theorem checkTxAssets_lockstep (coins : Coins)
    (h : ∀ name ∈ tx.reissueOutputs env, m.allowsReissue tx name = true)
    (h' : ∀ name ∈ tx.reissueOutputs env, m'.allowsReissue tx name = true) :
    Lockstep (fun _ _ => True) (checkTxAssets env m coins tx false)
      (checkTxAssets env m' coins tx false) := by
  unfold checkTxAssets
  refine lockstep_bind_same fun _ _ => lockstep_bind_same fun totalInputs _ => ?_
  apply lockstep_bind (R := SameTotals)
  · apply lockstep_foldlM
    · intro out hout _ _ hscan
      exact checkAssetOutput_lockstep hscan hout h h'
    · rfl
  · intro scan scan' htotals
    unfold SameTotals at htotals
    rw [checkCreated_mempool m', htotals]
    exact lockstep_bind_same fun _ _ => lockstep_bind_same fun _ _ => lockstep_pure trivial

/-- An output loop that went through has found no reissue against its own. -/
theorem checkAssetOutput_allows {reissue : CReissueAsset} {address : Bytes}
    (h : checkAssetOutput env m tx scan out s = .ok scan' t)
    (hread : reissueAssetFromScript env out.scriptPubKey = some (reissue, address)) :
    m.allowsReissue tx reissue.strName = true := by
  have htype := nType_of_reissueAssetFromScript hread
  simp only [checkAssetOutput, htype, run_bind_eq_ok, reduceCtorEq, some.injEq, if_false,
    if_true] at h
  obtain ⟨_, _, -, _, _, -, found, _, hfound, hlookup⟩ := h
  rw [run_lift_eq_ok, demand_eq_ok, hread, some.injEq] at hfound
  obtain ⟨rfl, rfl⟩ := hfound
  unfold MempoolAssets.allowsReissue
  cases hfind : m.mapReissuedAssets.find? reissue.strName with
  | none => rfl
  | some entry =>
    simp only [hfind, run_bind_eq_ok, run_lift_eq_ok, dos_eq_ok] at hlookup
    obtain ⟨_, _, ⟨hsame, -⟩, -⟩ := hlookup
    exact hsame

theorem checkTxAssets_allows {coins : Coins} {pairs : List (Bytes × UInt256)}
    (h : checkTxAssets env m coins tx false s = .ok pairs t) :
    ∀ name ∈ tx.reissueOutputs env, m.allowsReissue tx name = true := by
  intro name hname
  obtain ⟨out, hout, hread⟩ := mem_filterMap.mp hname
  obtain ⟨⟨reissue, address⟩, hreissue, rfl⟩ := map_eq_some_iff.mp hread
  simp only [checkTxAssets, run_bind_eq_ok] at h
  obtain ⟨_, _, -, _, _, -, scan, _, hscan, -⟩ := h
  obtain ⟨_, _, _, _, hround⟩ := run_foldlM_mem hscan hout
  exact checkAssetOutput_allows hround hreissue

end Lockstep

section Blocks

variable {env : ChainEnv} {m m' : MempoolAssets} {block : CBlock} {nHeight : Int} {coins : Coins}
  {s : AssetState}

/-- The same chain with another memory pool. -/
def ChainEnv.withMempool (env : ChainEnv) (mempool : MempoolAssets) : ChainEnv :=
  { env with mempool := mempool }

def Accepts (env : ChainEnv) (block : CBlock) (nHeight : Int) (coins : Coins) (s : AssetState) :
    Prop :=
  ∃ undo t, connectBlock env block nHeight coins s = .ok undo t

theorem connectTx_same {tx : CTransaction} {blockHash : UInt256} {scan : ConnectScan}
    (h : tx.isCoinBase = false → ∀ name ∈ tx.reissueOutputs env.toEnv,
      m.allowsReissue tx name = true ∧ m'.allowsReissue tx name = true) :
    connectTx (env.withMempool m) blockHash nHeight scan tx =
      connectTx (env.withMempool m') blockHash nHeight scan tx := by
  have hchecks : checkBlockTx (env.withMempool m) nHeight scan tx =
      checkBlockTx (env.withMempool m') nHeight scan tx := by
    unfold checkBlockTx
    split_ifs with hcb
    · rfl
    · have hassets : checkBlockTxAssets (env.withMempool m) scan.coins tx =
          checkBlockTxAssets (env.withMempool m') scan.coins tx := by
        have hallows := h (by simpa using hcb)
        have hlock := checkTxAssets_lockstep scan.coins
          (fun name hname => (hallows name hname).1) (fun name hname => (hallows name hname).2)
        change (if env.deployments.areAssetsDeployed = true then _ else _) =
          (if env.deployments.areAssetsDeployed = true then _ else _)
        split_ifs
        · exact (lockstep_map hlock fun _ _ _ => rfl).eq
        · rfl
      rw [hassets]
      rfl
  unfold connectTx
  rw [hchecks]
  rfl

/-- A memory pool that does not stand against the block makes no difference to it. -/
theorem connectBlock_same (h : block.Unhindered env.toEnv m) (h' : block.Unhindered env.toEnv m') :
    connectBlock (env.withMempool m) block nHeight coins =
      connectBlock (env.withMempool m') block nHeight coins := by
  have hloop : ∀ (l : List CTransaction) (scan : ConnectScan), (∀ tx ∈ l, tx ∈ block.vtx) →
      l.foldlM (connectTx (env.withMempool m) block.hash nHeight) scan =
        l.foldlM (connectTx (env.withMempool m') block.hash nHeight) scan := by
    intro l
    induction l with
    | nil => intro scan _; rfl
    | cons tx l ih =>
      intro scan hl
      have htx := hl tx mem_cons_self
      rw [foldlM_cons, foldlM_cons,
        connectTx_same fun hcb name hname => ⟨h tx htx hcb name hname, h' tx htx hcb name hname⟩]
      congr 1
      funext next
      exact ih next fun tx' htx' => hl tx' (mem_cons_of_mem _ htx')
  unfold connectBlock
  rw [hloop block.vtx _ fun _ h => h]
  rfl

theorem unhindered_of_accepts (h : Accepts (env.withMempool m) block nHeight coins s) :
    block.Unhindered env.toEnv m := by
  obtain ⟨⟨undo, coins'⟩, t, hconnect⟩ := h
  obtain ⟨scan, _, _, -, hscan, -⟩ := connectBlock_ok hconnect
  intro tx htx hcb name hname
  obtain ⟨_, _, _, _, hround⟩ := run_foldlM_mem hscan htx
  obtain ⟨_, _, _, _, hcheck, -⟩ := connectTx_ok hround
  by_cases hactive : env.deployments.areAssetsDeployed = true
  · obtain ⟨pairs, hassets⟩ := checkTxAssets_of_checkBlockTx hcb hcheck hactive
    exact checkTxAssets_allows hassets name hname
  · -- before assets are active there are no asset scripts at all
    obtain ⟨out, hout, hread⟩ := mem_filterMap.mp hname
    obtain ⟨⟨reissue, address⟩, hreissue, -⟩ := map_eq_some_iff.mp hread
    have htype := nType_of_reissueAssetFromScript hreissue
    rw [(noAssets_of_checkBlockTx hcb hcheck hactive out hout).1] at htype
    cases htype

/-- A block is accepted when it is with nothing tracked and nothing tracked stands against it. -/
theorem accepts_iff : Accepts (env.withMempool m) block nHeight coins s ↔
    Accepts (env.withMempool {}) block nHeight coins s ∧ block.Unhindered env.toEnv m := by
  have hnothing : block.Unhindered env.toEnv {} := fun _ _ _ _ _ => rfl
  unfold Accepts
  constructor
  · intro haccepts
    have h := unhindered_of_accepts haccepts
    rw [connectBlock_same h hnothing] at haccepts
    exact ⟨haccepts, h⟩
  · rintro ⟨haccepts, h⟩
    rwa [connectBlock_same h hnothing]

/-- Two memory pools that both stand against the block, or both do not, give the same verdict on
it. For a block that is valid when nothing waits this is the only way they do, and one that is
refused when nothing waits is refused with every memory pool. -/
theorem verdict_same_iff (env : ChainEnv) (block : CBlock) (nHeight : Int) (coins : Coins)
    (s : AssetState) (m m' : MempoolAssets) :
    ((block.Unhindered env.toEnv m ↔ block.Unhindered env.toEnv m') →
      (Accepts (env.withMempool m) block nHeight coins s ↔
        Accepts (env.withMempool m') block nHeight coins s)) ∧
    (Accepts (env.withMempool {}) block nHeight coins s →
      ((Accepts (env.withMempool m) block nHeight coins s ↔
        Accepts (env.withMempool m') block nHeight coins s) ↔
      (block.Unhindered env.toEnv m ↔ block.Unhindered env.toEnv m'))) ∧
    (¬Accepts (env.withMempool {}) block nHeight coins s →
      ¬Accepts (env.withMempool m) block nHeight coins s) := by
  refine ⟨fun hboth => ?_, fun hvalid => ?_, fun hrefused haccepts => ?_⟩
  · rw [accepts_iff, hboth, ← accepts_iff]
  · rw [accepts_iff, and_iff_right hvalid, accepts_iff, and_iff_right hvalid]
  · exact hrefused (accepts_iff.mp haccepts).1

end Blocks

/-- Another reissue of gold, which spends the same owner token as the one in the block. -/
def waitingReissueTx : CTransaction := wholeGoldReissueTx 52 1 ⟨1, 2⟩ moreGold

/-- The memory pool lets a reissue of gold in, and then a block with another reissue of gold is
refused that would have been accepted before. -/
theorem waiting_reissue_refuses_block :
    ∃ pairs t, checkTransaction regTestChain.toEnv waitingReissueTx true true false = .ok () ∧
      checkTxAssets regTestChain.toEnv {} wholeGoldNode.coins waitingReissueTx true
        wholeGoldNode.assets = .ok pairs t ∧
      Accepts (regTestChain.withMempool {}) moreGoldBlock 2 wholeGoldNode.coins
        wholeGoldNode.assets ∧
      ¬ Accepts (regTestChain.withMempool (({} : MempoolAssets).rememberReissues pairs))
        moreGoldBlock 2 wholeGoldNode.coins wholeGoldNode.assets := by
  obtain ⟨pairs, t, hcheck, hrefused⟩ : ∃ pairs t, checkTxAssets regTestChain.toEnv {}
      wholeGoldNode.coins waitingReissueTx true wholeGoldNode.assets = .ok pairs t ∧
      ¬succeeded (connectBlock
        (regTestChain.withMempool (({} : MempoolAssets).rememberReissues pairs)) moreGoldBlock 2
        wholeGoldNode.coins wholeGoldNode.assets) = true := by decide +kernel
  exact ⟨pairs, t, by decide +kernel, hcheck, succeeded_iff.mp (by decide +kernel),
    fun haccepts => hrefused (succeeded_iff.mpr haccepts)⟩

end HnbCore
