import HnbCore.ConnectEvents
import HnbCore.DumpRetry

/-!
# Runs of a node

A node connects blocks at its tip, disconnects them in a reorganisation, and dumps its asset cache
from time to time. Every block works on a fresh view, which is flushed when the block went through.
-/

namespace HnbCore

open Checks AssetState List Option

/-- A dump keeps the state well formed and leaves nothing pending. -/
theorem AssetState.WellFormed.dumpCacheToDatabase {s : AssetState} (hs : s.WellFormed)
    (hashes : Hashes) :
    (s.dumpCacheToDatabase hashes).WellFormed ∧
      (s.dumpCacheToDatabase hashes).view = s.view ∧
      (s.dumpCacheToDatabase hashes).passets = .fresh := by
  have hstores := (dumpGroups_makes hashes s.fAssetIndex s.passets).stores s
  have hview : (s.dumpCacheToDatabase hashes).view = s.view := hstores.view
  refine ⟨⟨hstores.reindex.trans hs.running, hstores.assets hs.passetsNamed hs.sound, ?_, ?_, ?_⟩,
    hview, rfl⟩
  · rw [hview]
    exact hs.apart
  · rw [hview]
    exact hs.viewNamed
  · intro item hitem
    exact absurd hitem not_mem_nil

/-- The coins, the assets, the chain with its tip first, and the undo file of every block that was
ever connected. -/
structure Node where
  coins : Coins := .empty
  assets : AssetState := {}
  chain : List CBlock := []
  undoFile : KeyedMap UInt256 (List (List Coin)) := .empty

namespace Node

variable {n n' : Node}

/-- The asset undo data of a block that has any is written when it is first connected. -/
def writeUndo (n : Node) (block : CBlock) (undo : CBlockUndo) (assets : AssetState) : AssetState :=
  if n.undoFile.contains block.hash || undo.vUndoAssetData.isEmpty then assets
  else
    { assets with assetsdb :=
        assets.assetsdb.writeBlockUndoAssetData block.hash undo.vUndoAssetData }

/-- `ConnectTip`. A block that does not go through is dropped with its view. -/
def connectTip (n : Node) (env : ChainEnv) (block : CBlock) : Option Node :=
  match connectBlock env block (n.chain.length + 1) n.coins n.assets with
  | .error _ _ => none
  | .ok (undo, coins) assets =>
      some {
        coins := coins
        assets := (n.writeUndo block undo assets).flush
        chain := block :: n.chain
        undoFile := n.undoFile.insert (block.hash, undo.vtxundo) }

/-- `DisconnectTip`, which takes nothing but a clean result. -/
def disconnectTip (n : Node) (env : Env) : Option Node :=
  match n.chain with
  | [] => none
  | block :: chain =>
      match n.undoFile.find? block.hash with
      | none => none
      | some (_, vtxundo) =>
          match disconnectBlock env block (chain.length + 1) vtxundo n.coins n.assets with
          | .error _ _ => none
          | .ok scan assets =>
              if scan.fClean then
                some { n with coins := scan.coins, assets := assets.flush, chain := chain }
              else none

/-- The dump that `FlushStateToDisk` makes. -/
def flushStateToDisk (n : Node) (hashes : Hashes) : Node :=
  { n with assets := n.assets.dumpCacheToDatabase hashes }

theorem connectTip_some {env : ChainEnv} {block : CBlock} (h : n.connectTip env block = some n') :
    ∃ undo coins assets,
      connectBlock env block (n.chain.length + 1) n.coins n.assets = .ok (undo, coins) assets ∧
      n' = ⟨coins, (n.writeUndo block undo assets).flush, block :: n.chain,
        n.undoFile.insert (block.hash, undo.vtxundo)⟩ := by
  unfold connectTip at h
  cases hconnect : connectBlock env block (n.chain.length + 1) n.coins n.assets with
  | error e assets => simp [hconnect] at h
  | ok result assets =>
    rw [hconnect] at h
    obtain rfl := some.inj h
    exact ⟨result.1, result.2, assets, rfl, rfl⟩

theorem disconnectTip_some {env : Env} (h : n.disconnectTip env = some n') :
    ∃ block chain item scan assets, n.chain = block :: chain ∧
      n.undoFile.find? block.hash = some item ∧
      disconnectBlock env block (chain.length + 1) item.2 n.coins n.assets = .ok scan assets ∧
      n' = ⟨scan.coins, assets.flush, chain, n.undoFile⟩ := by
  unfold disconnectTip at h
  cases hchain : n.chain with
  | nil => simp [hchain] at h
  | cons block chain =>
    cases hfile : n.undoFile.find? block.hash with
    | none => simp [hchain, hfile] at h
    | some item =>
      cases hdisconnect :
        disconnectBlock env block (chain.length + 1) item.2 n.coins n.assets with
      | error e assets => simp [hchain, hfile, hdisconnect] at h
      | ok scan assets =>
        simp only [hchain, hfile, hdisconnect, ite_none_right_eq_some,
          some.injEq] at h
        exact ⟨block, chain, item, scan, assets, rfl, hfile, hdisconnect, h.2.symm⟩

theorem writeUndo_untouched (n : Node) (block : CBlock) (undo : CBlockUndo) (assets : AssetState) :
    Untouched assets (n.writeUndo block undo assets) := by
  unfold writeUndo
  split <;> exact { Untouched.refl assets with }

/-- What a node does to its chain and its caches. -/
inductive Act
  | connectTip (env : ChainEnv) (block : CBlock)
  | disconnectTip (env : Env)
  | flushStateToDisk (hashes : Hashes)

def act (n : Node) : Act → Option Node
  | .connectTip env block => n.connectTip env block
  | .disconnectTip env => n.disconnectTip env
  | .flushStateToDisk hashes => some (n.flushStateToDisk hashes)

def acts (n : Node) : List Act → Option Node
  | [] => some n
  | a :: later => (n.act a).bind fun n => n.acts later

/-- The nodes that the allowed acts lead to, from an empty data directory. -/
inductive Reachable (Allowed : Node → Act → Prop) : Node → Prop
  | start (fAssetIndex : Bool) : Reachable Allowed { assets := { fAssetIndex := fAssetIndex } }
  | step {n n' : Node} (a : Act) : Reachable Allowed n → Allowed n a → n.act a = some n' →
      Reachable Allowed n'

/-- Every block may be connected and disconnected, and a dump may be made at any time. -/
def Anything (_ : Node) (_ : Act) : Prop := True

/-- A run of acts that are allowed wherever they happen. -/
theorem Reachable.acts_of_forall {Allowed : Node → Act → Prop} {later : List Act}
    (h : Reachable Allowed n) (hallowed : ∀ a ∈ later, ∀ m, Allowed m a)
    (hacts : n.acts later = some n') : Reachable Allowed n' := by
  induction later generalizing n with
  | nil => exact some.inj hacts ▸ h
  | cons a later ih =>
    obtain ⟨next, hact, hrest⟩ := bind_eq_some_iff.mp hacts
    obtain ⟨ha, hlater⟩ := forall_mem_cons.mp hallowed
    exact ih (h.step a (ha n) hact) hlater hrest

theorem Reachable.acts {later : List Act} (h : Reachable Anything n)
    (hacts : n.acts later = some n') : Reachable Anything n' :=
  h.acts_of_forall (fun _ _ _ => trivial) hacts

/-- Between blocks the view is fresh, and the assets are well formed. -/
structure AtRest (n : Node) : Prop where
  wellFormed : n.assets.WellFormed
  fresh : n.assets.view = .fresh

theorem AtRest.act {a : Act} (h : n.AtRest) (hact : n.act a = some n') : n'.AtRest := by
  cases a with
  | connectTip env block =>
    obtain ⟨undo, coins, assets, hconnect, rfl⟩ := connectTip_some hact
    have hdoes := (connectBlock_effect hconnect).toDoes.then (writeUndo_untouched n block undo assets)
    exact ⟨(hdoes.wellFormed h.wellFormed).flush, rfl⟩
  | disconnectTip env =>
    obtain ⟨_, _, _, _, assets, _, _, hdisconnect, rfl⟩ := disconnectTip_some hact
    exact ⟨((disconnectBlock_effect hdisconnect).toDoes.wellFormed h.wellFormed).flush, rfl⟩
  | flushStateToDisk hashes =>
    obtain ⟨hwell, hview, -⟩ := h.wellFormed.dumpCacheToDatabase hashes
    obtain rfl := some.inj hact
    exact ⟨hwell, hview.trans h.fresh⟩

theorem Reachable.atRest {Allowed : Node → Act → Prop} (h : Reachable Allowed n) : n.AtRest := by
  induction h with
  | start fAssetIndex =>
    refine ⟨⟨rfl, Lru.sound_empty _ _, ?_, ?_, ?_⟩, rfl⟩
    · intro name h; simp at h
    · intro item h; exact absurd h not_mem_nil
    · intro item h; exact absurd h not_mem_nil
  | step a _ _ hact ih => exact ih.act hact

end Node

end HnbCore
