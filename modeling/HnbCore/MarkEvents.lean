import HnbCore.ConnectEvents
import HnbCore.NameKinds

/-!
# The marks of a block

A mark that the checks let pass changes what lies below the view.
-/

namespace HnbCore

open Checks AssetState Option

variable {s t : AssetState} {env : Env} {tx : CTransaction} {coins coins' : Coins} {u : Unit}
  {block : CBlock} {m : Mark} {hashes : Hashes}

namespace CAssetsCache

variable (v : CAssetsCache)

def markAll (marks : List Mark) : CAssetsCache := marks.foldl mark v

def unmarkAll (marks : List Mark) : CAssetsCache := marks.foldl unmark v

@[simp] theorem markAll_nil : v.markAll [] = v := rfl

@[simp] theorem unmarkAll_nil : v.unmarkAll [] = v := rfl

end CAssetsCache

/-- What is looked up before something is marked. -/
def MarkTarget.status (hashes : Hashes) (fSkipTempCache : Bool) :
    MarkTarget → AssetState → Bool × AssetState
  | .tag name address => checkForAddressQualifier hashes name address fSkipTempCache
  | .freeze name address => checkForAddressRestriction hashes name address fSkipTempCache
  | .freezeAll name => checkForGlobalRestriction name fSkipTempCache

theorem verifyChange_ok {data : CNullAssetTxData} {status : AssetState → Bool × AssetState}
    {alreadySet notSet : String} (h : verifyChange data status alreadySet notSet s = .ok u t) :
    (status s).1 = decide (data.flag = 0) := by
  simp only [verifyChange, run_bind_eq_ok, run_lift_eq_ok, run_ask_eq_ok] at h
  obtain ⟨_, _, ⟨-, rfl⟩, current, v, hstatus, hchange⟩ := h
  rw [hstatus]
  split at hchange
  case isTrue hflag =>
    rw [run_lift_eq_ok, ensure_eq_ok] at hchange
    simpa [hflag] using hchange.1
  case isFalse hflag =>
    rw [run_lift_eq_ok, ensure_eq_ok] at hchange
    simpa [not_not.mp hflag] using hchange.1

/-- A mark that the checks let pass changes what lies below the view. -/
theorem contextualCheckNullAssetOut_mark {out : CTxOut}
    (h : contextualCheckNullAssetOut env out s = .ok u t)
    (hm : out.scriptPubKey.mark? env = some m) :
    env.deployments.areRestrictedAssetsDeployed = true ∧
      (m.target.status env.hashes true s).1 = !m.sets := by
  simp only [contextualCheckNullAssetOut, rejectWith, run_bind_eq_ok, run_lift_eq_ok, dos_eq_ok] at h
  obtain ⟨_, _, ⟨hdeployed, rfl⟩, h⟩ := h
  refine ⟨hdeployed, ?_⟩
  unfold CScript.mark? at hm
  split at h
  case isTrue hdata =>
    rw [run_orElseFail_eq_ok] at h
    simp only [contextualCheckNullAssetTxOut, run_bind_eq_ok, run_lift_eq_ok, require_eq_ok] at h
    obtain ⟨⟨data, address⟩, _, ⟨hread, rfl⟩, h⟩ := h
    simp only [hdata, if_true, hread, getD_some, CNullAssetTxData.mark?] at hm
    split at hm
    case h_1 htype =>
      obtain rfl := some.inj hm
      have hrestricted := assetTypeOf_eq_restricted_iff.mp htype
      have hnot : isAssetNameAQualifier data.assetName false = false := by
        by_contra hyes
        rw [Bool.not_eq_false] at hyes
        exact not_restrictedChar_of_qualifier hyes (headD_of_restricted hrestricted)
      simp only [hnot, Bool.false_eq_true, if_false, hrestricted, if_true] at h
      rw [MarkTarget.status, verifyChange_ok h]
      by_cases hflag : data.flag = 0 <;> simp [hflag]
    case h_2 htype =>
      obtain rfl := some.inj hm
      simp only [isAssetNameAQualifier_of_type (.inl htype), if_true] at h
      rw [MarkTarget.status, verifyChange_ok h]
      by_cases hflag : data.flag = 0 <;> simp [hflag]
    case h_3 htype =>
      obtain rfl := some.inj hm
      simp only [isAssetNameAQualifier_of_type (.inr htype), if_true] at h
      rw [MarkTarget.status, verifyChange_ok h]
      by_cases hflag : data.flag = 0 <;> simp [hflag]
    case h_4 => cases hm
  case isFalse hdata =>
    simp only [hdata, Bool.false_eq_true, if_false] at hm
    split at h
    case isTrue hglobal =>
      rw [run_orElseFail_eq_ok] at h
      simp only [contextualCheckGlobalAssetTxOut, run_bind_eq_ok, run_lift_eq_ok,
        require_eq_ok] at h
      obtain ⟨data, _, ⟨hread, rfl⟩, h⟩ := h
      simp only [hglobal, if_true, hread, getD_some, some.injEq] at hm
      subst hm
      rw [MarkTarget.status, verifyChange_ok h]
      by_cases hflag : data.flag = 0 <;> simp [hflag]
    case isFalse hglobal => simp [hglobal] at hm

/-- The marks of a transaction change what lies below the view it was checked on. -/
theorem checkTxAssets_mark {mempool : MempoolAssets} {fCheckMempool : Bool}
    {pairs : List (Bytes × UInt256)}
    (h : checkTxAssets env mempool coins tx fCheckMempool s = .ok pairs t)
    (hm : m ∈ tx.vout.filterMap fun out => out.scriptPubKey.mark? env) :
    env.deployments.areRestrictedAssetsDeployed = true ∧
      ∃ u, Quiet env.hashes s u ∧ (m.target.status env.hashes true u).1 = !m.sets := by
  obtain ⟨out, hout, hmark⟩ := List.mem_filterMap.mp hm
  simp only [checkTxAssets, run_bind_eq_ok, run_lift_eq_ok] at h
  obtain ⟨_, _, ⟨-, rfl⟩, _, s₁, hin, _, s₂, houts, -⟩ := h
  have hquiet := foldlM_quiet _ checkAssetInput_quiet _ _ _ hin
  obtain ⟨scan, s₃, _, _, hquiet', hround⟩ := run_foldlM_mem_keeps Quiet.refl
    (fun _ _ _ h h' => h.trans h') (fun scan out _ => checkAssetOutput_quiet scan out) houts hout
  have hnull : out.scriptPubKey.isNullAsset = true := by
    by_contra hno
    rw [CScript.mark?_eq_none (.inl (Bool.not_eq_true _ ▸ hno))] at hmark
    cases hmark
  simp only [checkAssetOutput, run_bind_eq_ok, run_lift_eq_ok, run_onlyIf_eq_ok, hnull,
    if_true] at hround
  obtain ⟨_, _, ⟨-, rfl⟩, _, _, hcheck, -⟩ := hround
  obtain ⟨hdeployed, hstatus⟩ := contextualCheckNullAssetOut_mark hcheck hmark
  exact ⟨hdeployed, s₃, hquiet.trans hquiet', hstatus⟩

theorem connectTx_sameGround (env : ChainEnv) (blockHash : UInt256) (nHeight : Int)
    (scan : ConnectScan) (tx : CTransaction) :
    Keeps (SameGround env.hashes) (connectTx env blockHash nHeight scan tx) :=
  fun _ _ _ h => (connectTx_effect h).toSameGround

/-- Where assets are active, every transaction after the coinbase passes `CheckTxAssets` on a state
that has the ground of the block's own. -/
theorem connectBlock_checkTxAssets {env : ChainEnv} {nHeight : Int} {undo : CBlockUndo}
    (h : connectBlock env block nHeight coins s = .ok (undo, coins') t) (htx : tx ∈ block.vtx)
    (hcb : tx.isCoinBase = false) (hactive : env.deployments.areAssetsDeployed = true) :
    ∃ scan u v pairs, SameGround env.hashes s u ∧
      checkTxAssets env.toEnv env.mempool scan tx false u = .ok pairs v := by
  obtain ⟨scan, _, _, _, hscan, _⟩ := connectBlock_ok h
  obtain ⟨before, u, after, v, hground, hround⟩ := run_foldlM_mem_keeps SameGround.refl
    (fun _ _ _ h h' => h.trans h') (fun c tx _ => connectTx_sameGround env block.hash nHeight c tx)
    hscan htx
  obtain ⟨_, _, _, w, hcheck, -⟩ := connectTx_ok hround
  obtain ⟨pairs, hpairs⟩ := checkTxAssets_of_checkBlockTx hcb hcheck hactive
  exact ⟨before.coins, u, w, pairs, hground, hpairs⟩

/-- The marks that a block makes after the coinbase change what lies below its view. -/
theorem connectBlock_mark {env : ChainEnv} {nHeight : Int} {undo : CBlockUndo}
    (h : connectBlock env block nHeight coins s = .ok (undo, coins') t) (htx : tx ∈ block.vtx)
    (hcb : tx.isCoinBase = false) (hm : m ∈ tx.marks env.toEnv) :
    env.deployments.areRestrictedAssetsDeployed = true ∧
      ∃ u, SameGround env.hashes s u ∧ (m.target.status env.hashes true u).1 = !m.sets := by
  unfold CTransaction.marks at hm
  split at hm
  case isFalse => cases hm
  case isTrue hactive =>
    obtain ⟨_, u, _, _, hground, hcheck⟩ := connectBlock_checkTxAssets h htx hcb hactive
    obtain ⟨hdeployed, w, hquiet, hstatus⟩ := checkTxAssets_mark hcheck hm
    exact ⟨hdeployed, w, hground.trans hquiet.toSameGround, hstatus⟩

end HnbCore
