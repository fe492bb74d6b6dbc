import HnbCore.DumpRestrictions
import HnbCore.Node

/-!
# Marks in the runs of a node

The marks of the blocks on the active chain, and what every run keeps of the flags: the pending
changes are such as marks make them, and the caches of flags are backed by the database.
-/

namespace HnbCore

open Checks AssetState List

variable {env : Env}

/-- Addresses are written and hashed as in another environment. -/
structure Env.SameChain (base env : Env) : Prop where
  hashes : env.hashes = base.hashes
  params : env.params = base.params

/-- The marks that the outputs of a block stand for. -/
def CBlock.markOutputs (block : CBlock) (env : Env) : List Mark :=
  block.vtx.flatMap fun tx => tx.vout.filterMap fun out => out.scriptPubKey.mark? env

theorem Env.SameChain.mark? {base : Env} (h : base.SameChain env) (script : CScript) :
    script.mark? env = script.mark? base := by
  obtain ⟨hashes, params, deployments⟩ := env
  obtain ⟨rfl, rfl⟩ := h
  rfl

theorem Env.SameChain.markOutputs {base : Env} (h : base.SameChain env) (block : CBlock) :
    block.markOutputs env = block.markOutputs base := by
  simp only [CBlock.markOutputs, h.mark?]

/-- The coinbase carries no assets: it is checked for that, or it has none. -/
def CBlock.AssetFreeCoinbase (block : CBlock) (env : ChainEnv) : Prop :=
  (env.deployments.areCoinbaseCheckAssetsDeployed = true ∧ block.HonestlyMarked env) ∨
    ∀ tx ∈ block.vtx, tx.isCoinBase = true →
      ∀ out ∈ tx.vout, out.scriptPubKey.isAssetScript = none ∧ out.scriptPubKey.isNullAsset = false

section Connected

variable {env : ChainEnv} {block : CBlock} {nHeight : Int} {coins coins' : Coins}
  {undo : CBlockUndo} {s t : AssetState} {tx : CTransaction}

theorem coinbase_assetFree (hfree : block.AssetFreeCoinbase env)
    (h : connectBlock env block nHeight coins s = .ok (undo, coins') t) (htx : tx ∈ block.vtx)
    (hcb : tx.isCoinBase = true) :
    ∀ out ∈ tx.vout,
      out.scriptPubKey.isAssetScript = none ∧ out.scriptPubKey.isNullAsset = false := by
  rcases hfree with ⟨hactive, hhonest⟩ | hnone
  · obtain ⟨_, _, _, hchecked, -⟩ := connectBlock_ok h
    obtain ⟨_, _, _, _, _, hall⟩ := (checked_of_checkBlock hchecked hhonest).shape
    exact (checkTransaction_accepted (hall tx htx)).coinbase_noAssets hcb hactive
  · exact hnone tx htx hcb

/-- Before assets are active a block has no null asset output. -/
theorem connectBlock_inactive (h : connectBlock env block nHeight coins s = .ok (undo, coins') t)
    (htx : tx ∈ block.vtx) (hcb : tx.isCoinBase = false)
    (hinactive : ¬env.deployments.areAssetsDeployed = true) :
    ∀ out ∈ tx.vout,
      out.scriptPubKey.isAssetScript = none ∧ out.scriptPubKey.isNullAsset = false := by
  obtain ⟨_, _, _, _, hscan, _⟩ := connectBlock_ok h
  obtain ⟨_, _, _, _, hround⟩ := run_foldlM_mem hscan htx
  obtain ⟨_, _, _, _, hcheck, -⟩ := connectTx_ok hround
  exact noAssets_of_checkBlockTx hcb hcheck hinactive

theorem marks_eq_nil_of_notNull (env : Env)
    (h : ∀ out ∈ tx.vout, out.scriptPubKey.isNullAsset = false) :
    (tx.vout.filterMap fun out => out.scriptPubKey.mark? env) = [] :=
  filterMap_eq_nil_iff.mpr fun out hout => CScript.mark?_eq_none (.inl (h out hout))

/-- What the outputs of a connected block stand for is what it marks. -/
theorem connectBlock_markOutputs (hfree : block.AssetFreeCoinbase env)
    (h : connectBlock env block nHeight coins s = .ok (undo, coins') t) :
    block.marks env.toEnv = block.markOutputs env.toEnv := by
  refine flatMap_congr fun tx htx => ?_
  unfold CTransaction.marks
  split
  case isTrue => rfl
  case isFalse hinactive =>
    refine (marks_eq_nil_of_notNull env.toEnv fun out hout => ?_).symm
    cases hcb : tx.isCoinBase with
    | true => exact (coinbase_assetFree hfree h htx hcb out hout).2
    | false => exact (connectBlock_inactive h htx hcb hinactive out hout).2

/-- Every mark that a block makes was looked up below its view. -/
theorem connectBlock_markOutput (hfree : block.AssetFreeCoinbase env)
    (h : connectBlock env block nHeight coins s = .ok (undo, coins') t) {m : Mark}
    (hm : m ∈ block.markOutputs env.toEnv) :
    ∃ u, SameGround env.hashes s u ∧ (m.target.status env.hashes true u).1 = !m.sets := by
  rw [← connectBlock_markOutputs hfree h] at hm
  obtain ⟨tx, htx, hmark⟩ := mem_flatMap.mp hm
  cases hcb : tx.isCoinBase with
  | true =>
    have hnone := marks_eq_nil_of_notNull env.toEnv fun out hout =>
      (coinbase_assetFree hfree h htx hcb out hout).2
    rw [CTransaction.marks, hnone, ite_self] at hmark
    cases hmark
  | false => exact (connectBlock_mark h htx hcb hmark).2

end Connected

namespace Node

/-- One chain, whose blocks mark flags with a property only and whose coinbases carry no assets.
Restricted assets are still active when a block that marks something is disconnected. -/
def MarkRun (base : Env) (P : MarkTarget → Prop) (n : Node) : Act → Prop
  | .connectTip env block =>
      base.SameChain env.toEnv ∧ block.AssetFreeCoinbase env ∧
        ∀ m ∈ block.markOutputs base, P m.target
  | .disconnectTip env =>
      base.SameChain env ∧ ∀ block ∈ n.chain.head?, block.markOutputs base ≠ [] →
        env.deployments.areAssetsDeployed = true ∧
          env.deployments.areRestrictedAssetsDeployed = true
  | .flushStateToDisk hashes => hashes = base.hashes

/-- What every run keeps of the flags. -/
structure FlagsKept (base : Env) (P : MarkTarget → Prop) (n : Node) : Prop where
  typed : n.assets.passets.Typed P
  within : n.assets.restricteddb.Within P
  chain : ∀ block ∈ n.chain, ∀ m ∈ block.markOutputs base, P m.target
  tags : n.assets.TagsBacked base.hashes
  freezes : n.assets.FreezesBacked base.hashes
  globals : n.assets.GlobalsBacked

/-- A step at the tip, by the marks of the view that is flushed. -/
structure FlagStep (hashes : Hashes) (view : CAssetsCache) (n n' : Node) : Prop where
  passets : ∃ v : CAssetsCache, v.marking = view ∧ n'.assets.passets = v.flush n.assets.passets
  restricteddb : n'.assets.restricteddb = n.assets.restricteddb
  backed : FlagsStayBacked hashes n.assets n'.assets

section Steps

variable {base : Env} {P : MarkTarget → Prop} {n n' : Node} {hashes : Hashes}

/-- A view that was worked on over the node's own ground is flushed. -/
theorem flagStep_of_marked {f : CAssetsCache → CAssetsCache} {t : AssetState} (hrest : n.AtRest)
    (hmarked : Marked hashes f n.assets t) (hpassets : n'.assets.passets = t.view.flush t.passets)
    (hdb : n'.assets.restricteddb = t.restricteddb) (hbacked : FlagsStayBacked hashes t n'.assets) :
    FlagStep hashes (f .fresh) n n' where
  passets := by
    refine ⟨t.view, ?_, by rw [hpassets, hmarked.passets]⟩
    rw [hmarked.marking, hrest.fresh]
    rfl
  restricteddb := hdb.trans hmarked.restricteddb
  backed := FlagsStayBacked.trans ⟨hmarked.tags, hmarked.freezes, hmarked.globals⟩ hbacked

theorem connectTip_flagStep {env : ChainEnv} {block : CBlock} (hrest : n.AtRest)
    (hchain : base.SameChain env.toEnv) (hfree : block.AssetFreeCoinbase env)
    (hact : n.connectTip env block = some n') :
    n'.chain = block :: n.chain ∧
      FlagStep base.hashes (CAssetsCache.fresh.markAll (block.markOutputs base)) n n' ∧
      ∀ m ∈ block.markOutputs base, ∃ u, SameGround base.hashes n.assets u ∧
        (m.target.status base.hashes true u).1 = !m.sets := by
  obtain ⟨undo, coins, assets, hconnect, rfl⟩ := connectTip_some hact
  refine ⟨rfl, ?_, fun m hm => ?_⟩
  · have hmarked := (connectBlock_effect hconnect).toMarked
    rw [connectBlock_markOutputs hfree hconnect, hchain.markOutputs, hchain.hashes] at hmarked
    refine flagStep_of_marked hrest hmarked ?_ ?_ ?_ <;>
      dsimp only [AssetState.flush, writeUndo] <;> split
    · rfl
    · rfl
    · rfl
    · rfl
    · exact { FlagsStayBacked.refl _ with }
    · exact { FlagsStayBacked.refl _ with }
  · rw [← hchain.markOutputs] at hm
    have hstatus := connectBlock_markOutput hfree hconnect hm
    rwa [hchain.hashes] at hstatus

/-- Where restricted assets are active, a block's marks are taken back, in another order. -/
theorem mem_undoneMarks {block : CBlock} (hdeployed : block.markOutputs env ≠ [] →
      env.deployments.areAssetsDeployed = true ∧ env.deployments.areRestrictedAssetsDeployed = true)
    (m : Mark) : m ∈ block.undoneMarks env ↔ m ∈ block.markOutputs env := by
  simp only [CBlock.undoneMarks, CBlock.markOutputs, CTransaction.undoneMarks, CTransaction.marks,
    mem_flatMap, mem_reverse]
  constructor
  · rintro ⟨tx, htx, hm⟩
    split_ifs at hm
    · exact ⟨tx, htx, hm⟩
    all_goals cases hm
  · rintro ⟨tx, htx, hm⟩
    have hne : block.markOutputs env ≠ [] :=
      ne_nil_of_mem (mem_flatMap.mpr ⟨tx, htx, hm⟩)
    exact ⟨tx, htx, by simpa only [(hdeployed hne).1, (hdeployed hne).2, if_true] using hm⟩

theorem disconnectTip_flagStep (hrest : n.AtRest) (hchain : base.SameChain env)
    (hdeployed : ∀ block ∈ n.chain.head?, block.markOutputs base ≠ [] →
      env.deployments.areAssetsDeployed = true ∧ env.deployments.areRestrictedAssetsDeployed = true)
    (hact : n.disconnectTip env = some n') :
    ∃ block undone, n.chain = block :: n'.chain ∧ (∀ m, m ∈ undone ↔ m ∈ block.markOutputs base) ∧
      FlagStep base.hashes (CAssetsCache.fresh.unmarkAll undone) n n' := by
  obtain ⟨block, chain, item, scan, assets, hhead, -, hdisconnect, rfl⟩ := disconnectTip_some hact
  refine ⟨block, block.undoneMarks env, hhead, fun m => ?_, ?_⟩
  · rw [← hchain.markOutputs]
    refine mem_undoneMarks (fun hne => hdeployed block (by rw [hhead]; rfl) ?_) m
    rwa [← hchain.markOutputs]
  · have hmarked := (disconnectBlock_effect hdisconnect).toMarked
    rw [hchain.hashes] at hmarked
    exact flagStep_of_marked hrest hmarked rfl rfl { FlagsStayBacked.refl _ with }

theorem FlagStep.layerAt {view : CAssetsCache} (h : FlagStep hashes view n n')
    (target : MarkTarget) :
    n'.assets.passets.layerAt target =
      (view.layerAt target).merge (n.assets.passets.layerAt target) := by
  obtain ⟨v, rfl, hpassets⟩ := h.passets
  rw [hpassets, CAssetsCache.layerAt_flush, CAssetsCache.layerAt_marking]

theorem FlagStep.typed {view : CAssetsCache} (h : FlagStep hashes view n n') (hview : view.Typed P)
    (hn : n.assets.passets.Typed P) : n'.assets.passets.Typed P := by
  obtain ⟨v, rfl, hpassets⟩ := h.passets
  rw [hpassets]
  exact (CAssetsCache.Typed.of_marking (v := v) (w := v.marking) rfl hview).flush hn

theorem FlagsKept.act {a : Act} (hn : n.FlagsKept base P) (hrest : n.AtRest)
    (hallowed : n.MarkRun base P a) (hact : n.act a = some n') : n'.FlagsKept base P := by
  cases a with
  | connectTip env block =>
    obtain ⟨hchain, hfree, hmarks⟩ := hallowed
    obtain ⟨hnext, hstep, -⟩ := connectTip_flagStep hrest hchain hfree hact
    refine ⟨hstep.typed (CAssetsCache.Typed.fresh.markAll hmarks) hn.typed,
      hstep.restricteddb ▸ hn.within, ?_, hstep.backed.tags hn.tags,
      hstep.backed.freezes hn.freezes, hstep.backed.globals hn.globals⟩
    rw [hnext]
    exact forall_mem_cons.mpr ⟨hmarks, hn.chain⟩
  | disconnectTip env =>
    obtain ⟨hchain, hdeployed⟩ := hallowed
    obtain ⟨block, undone, hnext, hundone, hstep⟩ :=
      disconnectTip_flagStep hrest hchain hdeployed hact
    have hblocks := hn.chain
    rw [hnext] at hblocks
    obtain ⟨hmarks, hchain'⟩ := forall_mem_cons.mp hblocks
    exact ⟨hstep.typed (CAssetsCache.Typed.fresh.unmarkAll fun m hm =>
        hmarks m ((hundone m).mp hm)) hn.typed,
      hstep.restricteddb ▸ hn.within, hchain', hstep.backed.tags hn.tags,
      hstep.backed.freezes hn.freezes, hstep.backed.globals hn.globals⟩
  | flushStateToDisk hashes =>
    obtain rfl := hallowed
    obtain rfl := Option.some.inj hact
    have hbacked := (dumpGroups_makes base.hashes n.assets.fAssetIndex n.assets.passets).stores
      n.assets
    refine ⟨?_, dumpCacheToDatabase_within base.hashes n.assets hn.typed hn.within, hn.chain,
      hbacked.tags hn.tags, hbacked.freezes hn.freezes, hbacked.globals hn.globals⟩
    exact CAssetsCache.Typed.fresh

theorem Reachable.flagsKept (h : n.Reachable (MarkRun base P)) : n.FlagsKept base P := by
  induction h with
  | start =>
    refine ⟨CAssetsCache.Typed.fresh, ?_, fun block hb => absurd hb not_mem_nil,
      Lru.backed_empty _ _, Lru.backed_empty _ _, Lru.backed_empty _ _⟩
    intro target hmarked
    cases target <;> simp [CRestrictedDB.marked] at hmarked
  | step a hreach hallowed hact ih => exact ih.act hreach.atRest hallowed hact

end Steps

end Node

end HnbCore
