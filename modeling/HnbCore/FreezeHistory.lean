import HnbCore.MarkRun
import HnbCore.IssueOnce

/-!
# Frozen addresses and frozen assets

In every run whose coinbases carry no assets, an address is frozen exactly when the last change on
the active chain froze it, and so is an asset as a whole.
-/

namespace HnbCore

open AssetState List Option

/-- The last change of a flag on a chain whose tip stands first. -/
def lastChange (env : Env) (target : MarkTarget) (chain : List CBlock) : Option Bool :=
  (chain.reverse.flatMap fun block => changesOf target (block.markOutputs env)).getLast?

/-- The changes of a flag, block by block. -/
def changesOn (env : Env) (target : MarkTarget) (chain : List CBlock) : List (List Bool) :=
  chain.map fun block => changesOf target (block.markOutputs env)

theorem after_changesOn (env : Env) (target : MarkTarget) (chain : List CBlock) :
    Flags.after (changesOn env target chain) = (lastChange env target chain).getD false := by
  rw [Flags.after_eq_getLast?, lastChange, changesOn, ← map_reverse, flatMap_def]

/-- Where two pairs of a name and an address are frozen, their cache keys are different. -/
def FreezeKeysApart (hashes : Hashes) (name address : Bytes) : MarkTarget → Prop
  | .freeze name' address' =>
      addressKey hashes name' address' = addressKey hashes name address →
        name' = name ∧ address' = address
  | _ => True

namespace Node

/-- What lies below the view is what the chain says, and every change on the chain was one. -/
structure Tells (base : Env) (target : MarkTarget) (n : Node) : Prop where
  below : n.assets.markedBelow target = Flags.after (changesOn base target n.chain)
  alternating : Flags.Alternating (changesOn base target n.chain)

variable {base : Env} {P : MarkTarget → Prop} {target : MarkTarget} {n n' : Node}

theorem FlagStep.markedBelow {view : CAssetsCache} (h : FlagStep base.hashes view n n') :
    n'.assets.markedBelow target =
      ((view.layerAt target).merge (n.assets.passets.layerAt target)).answer.getD
        (n.assets.restricteddb.marked target) := by
  rw [AssetState.markedBelow, h.layerAt, h.restricteddb]

/-- A step keeps the flag in line with the chain, if its lookup answers from below the view. -/
theorem Tells.act {a : Act} (h : n.Tells base target) (hn : n.FlagsKept base P) (hrest : n.AtRest)
    (hlookup : ∀ u, SameGround base.hashes n.assets u →
      (target.status base.hashes true u).1 = n.assets.markedBelow target)
    (hallowed : n.MarkRun base P a) (hact : n.act a = some n') : n'.Tells base target := by
  cases a with
  | connectTip env block =>
    obtain ⟨hchain, hfree, -⟩ := hallowed
    obtain ⟨hnext, hstep, hchecked⟩ := connectTip_flagStep hrest hchain hfree hact
    constructor
    · rw [hstep.markedBelow, CAssetsCache.layerAt_markAll, CAssetsCache.layerAt_fresh, hnext]
      exact Flags.answer_after_block h.below
    · rw [hnext]
      refine ⟨fun b hb => ?_, h.alternating⟩
      obtain ⟨u, hground, hstatus⟩ := hchecked _ (mem_changesOf.mp hb)
      rw [hlookup u hground, h.below] at hstatus
      rw [← changesOn, hstatus, Bool.not_not]
  | disconnectTip env =>
    obtain ⟨hchain, hdeployed⟩ := hallowed
    obtain ⟨block, undone, hnext, hundone, hstep⟩ :=
      disconnectTip_flagStep hrest hchain hdeployed hact
    have hbelow := h.below
    have halternating := h.alternating
    rw [hnext] at hbelow halternating
    refine ⟨?_, halternating.2⟩
    rw [hstep.markedBelow, CAssetsCache.layerAt_unmarkAll, CAssetsCache.layerAt_fresh]
    refine Flags.answer_before_block hbelow halternating fun b => ?_
    rw [mem_changesOf, mem_changesOf, hundone]
  | flushStateToDisk hashes =>
    obtain rfl := some.inj hact
    exact ⟨(markedBelow_dumpCacheToDatabase hashes n.assets hn.typed target).trans h.below,
      h.alternating⟩

theorem tells_start (fAssetIndex : Bool) :
    ({ assets := { fAssetIndex := fAssetIndex } } : Node).Tells base target := by
  constructor
  · cases target <;> rfl
  · exact trivial

section Freezes

variable {name address : Bytes}

theorem FlagsKept.keyApart (hn : n.FlagsKept base (FreezeKeysApart base.hashes name address)) :
    KeyApart base.hashes n.assets.restricteddb.restrictedAddresses name address :=
  fun name' address' hmem => hn.within (.freeze name' address') hmem

/-- The lookup of a freeze answers from below the view, on every state over the node's ground. -/
theorem FlagsKept.freeze_status (hn : n.FlagsKept base (FreezeKeysApart base.hashes name address))
    {u : AssetState} (hu : SameGround base.hashes n.assets u) :
    (checkForAddressRestriction base.hashes name address true u).1 =
      n.assets.markedBelow (.freeze name address) := by
  have hkey := hn.keyApart
  rw [← hu.restricteddb] at hkey
  rw [restriction_eq_markedBelow (hu.freezes hn.freezes) hkey, hu.markedBelow]

theorem FlagsKept.freezeAll_status (hn : n.FlagsKept base P) {u : AssetState}
    (hu : SameGround base.hashes n.assets u) :
    (checkForGlobalRestriction name true u).1 = n.assets.markedBelow (.freezeAll name) := by
  rw [global_eq_markedBelow (hu.globals hn.globals), hu.markedBelow]

theorem Reachable.tells
    (h : n.Reachable (MarkRun base (FreezeKeysApart base.hashes name address)))
    (ht : target = .freeze name address ∨ target = .freezeAll name) : n.Tells base target := by
  induction h with
  | start fAssetIndex => exact tells_start fAssetIndex
  | step a hreach hallowed hact ih =>
    have hn := hreach.flagsKept
    refine ih.act hn hreach.atRest (fun u hu => ?_) hallowed hact
    rcases ht with rfl | rfl
    · exact hn.freeze_status hu
    · exact hn.freezeAll_status hu

end Freezes

/-- A flag below the view is what its last change on the chain made of it. -/
theorem Tells.lastChange (h : n.Tells base target) :
    n.assets.markedBelow target = true ↔ lastChange base target n.chain = some true := by
  rw [h.below, after_changesOn]
  cases HnbCore.lastChange base target n.chain <;> simp

end Node

/-- In every run an address is frozen exactly when the last change of it on the active chain is a
freeze, and an asset is frozen as a whole exactly when its last global change is one. -/
theorem frozen_iff_lastChange {base : Env} {name address : Bytes} {n : Node}
    (h : n.Reachable (Node.MarkRun base (FreezeKeysApart base.hashes name address)))
    (fSkipTempCache : Bool) :
    ((checkForAddressRestriction base.hashes name address fSkipTempCache n.assets).1 = true ↔
        lastChange base (.freeze name address) n.chain = some true) ∧
      ((checkForGlobalRestriction name fSkipTempCache n.assets).1 = true ↔
        lastChange base (.freezeAll name) n.chain = some true) := by
  have hn := h.flagsKept
  have hview := h.atRest.fresh
  have hfreeze : (checkForAddressRestriction base.hashes name address fSkipTempCache n.assets).1 =
      n.assets.markedBelow (.freeze name address) := by
    rw [← hn.freeze_status (.refl _)]
    cases fSkipTempCache with
    | true => rfl
    | false => exact restriction_fresh hview
  have hglobal : (checkForGlobalRestriction name fSkipTempCache n.assets).1 =
      n.assets.markedBelow (.freezeAll name) := by
    rw [← hn.freezeAll_status (.refl _)]
    cases fSkipTempCache with
    | true => rfl
    | false => exact global_fresh hview
  rw [hfreeze, hglobal]
  exact ⟨(h.tells (.inl rfl)).lastChange, (h.tells (.inr rfl)).lastChange⟩

/-- In every run the changes of a freeze alternate on the chain, and once the caches are dumped the
database alone tells the last one. -/
theorem freezes_alternate {base : Env} {name address : Bytes} {n : Node}
    (h : n.Reachable (Node.MarkRun base (FreezeKeysApart base.hashes name address)))
    {target : MarkTarget} (ht : target = .freeze name address ∨ target = .freezeAll name) :
    Flags.Alternating (changesOn base target n.chain) ∧
      ((n.assets.dumpCacheToDatabase base.hashes).restricteddb.marked target = true ↔
        lastChange base target n.chain = some true) := by
  have htells := h.tells ht
  rw [dumpCacheToDatabase_marked _ _ h.flagsKept.typed]
  exact ⟨htells.alternating, htells.lastChange⟩

/-- `GetScriptForNullAssetDataDestination` of a key hash, with
`CNullAssetTxData::ConstructTransaction`. -/
def scriptForNullData (id : Bytes) (data : CNullAssetTxData) : CScript :=
  [opHnbAsset] ++ pushData id ++ pushData (writeString data.assetName ++ writeInt8 data.flag)

/-- The owner of gold freezes the issuer's address for restricted gold. -/
def goldFreezeTx : CTransaction :=
  ⟨[⟨⟨21, 1⟩, []⟩], [goldOwnerTransfer, ⟨0, scriptForNullData issuerKey ⟨str "$GOLD", 1⟩⟩], 51⟩

def goldFreezeActs : List Node.Act :=
  maturedActs [500 * coin] ++
    [.connectTip regTestChain goldIssueBlock,
     .connectTip regTestChain (minedBlock 50 [0] [goldFreezeTx])]

/-- The address of the issuer. -/
def issuerAddress : Bytes := regTestChain.addressOf (scriptForKeyID issuerKey)

theorem goldFreezeActs_allowed : ∀ a ∈ goldFreezeActs, ∀ m : Node, m.MarkRun regTestChain.toEnv
    (FreezeKeysApart regTestChain.hashes (str "$GOLD") issuerAddress) a := by
  have hmined : ∀ hash values txs, (∀ mark ∈ (minedBlock hash values txs).markOutputs
      regTestChain.toEnv, mark.target = .freeze (str "$GOLD") issuerAddress) → ∀ m : Node,
      m.MarkRun regTestChain.toEnv (FreezeKeysApart regTestChain.hashes (str "$GOLD") issuerAddress)
        (.connectTip regTestChain (minedBlock hash values txs)) := by
    intro hash values txs hmarks m
    refine ⟨⟨rfl, rfl⟩, .inl ⟨rfl, by simp [CBlock.HonestlyMarked, minedBlock]⟩, fun mark hmark => ?_⟩
    rw [hmarks mark hmark]
    exact fun _ => ⟨rfl, rfl⟩
  intro a ha
  simp only [goldFreezeActs, maturedActs, mem_append, mem_cons, List.mem_map,
    not_mem_nil, or_false] at ha
  rcases ha with (rfl | ⟨i, -, rfl⟩) | rfl | rfl
  · exact hmined _ _ _ (by decide +kernel)
  · exact hmined _ _ _ (by simp [CBlock.markOutputs, minedBlock]; decide +kernel)
  · exact hmined _ _ _ (by decide +kernel)
  · exact hmined _ _ _ (by decide +kernel)

/-- Restricted gold is frozen for the issuer by the last block, and not frozen as a whole. -/
theorem goldFreezeActs_frozen :
    ∃ n : Node, ({} : Node).acts goldFreezeActs = some n ∧
      (checkForAddressRestriction regTestChain.hashes (str "$GOLD") issuerAddress false
        n.assets).1 = true ∧
      (checkForGlobalRestriction (str "$GOLD") false n.assets).1 = false := by
  obtain ⟨n, hn, hlast⟩ : ∃ n, ({} : Node).acts goldFreezeActs = some n ∧
      lastChange regTestChain.toEnv (.freeze (str "$GOLD") issuerAddress) n.chain = some true ∧
      lastChange regTestChain.toEnv (.freezeAll (str "$GOLD")) n.chain = none := by decide +kernel
  have hiff := frozen_iff_lastChange
    ((Node.Reachable.start false).acts_of_forall goldFreezeActs_allowed hn) false
  refine ⟨n, hn, hiff.1.mpr hlast.1, ?_⟩
  rw [Bool.eq_false_iff]
  intro hglobal
  simpa [hlast.2] using hiff.2.mp hglobal

theorem goldFreezeActs_stored : ∃ n : Node, ({} : Node).acts goldFreezeActs = some n ∧
    (n.assets.dumpCacheToDatabase regTestChain.hashes).restricteddb.marked
      (.freeze (str "$GOLD") issuerAddress) = true := by
  obtain ⟨n, hn, hlast⟩ : ∃ n, ({} : Node).acts goldFreezeActs = some n ∧ lastChange
      regTestChain.toEnv (.freeze (str "$GOLD") issuerAddress) n.chain = some true := by
    decide +kernel
  have hreach := (Node.Reachable.start false).acts_of_forall goldFreezeActs_allowed hn
  exact ⟨n, hn, (freezes_alternate hreach (.inl rfl)).2.mpr hlast⟩

/-- A coinbase that moves the owner token and freezes the issuer's address. -/
def freezingBlock (hash : UInt256) : CBlock :=
  ⟨hash, [⟨[⟨⟨0, 2 ^ 32 - 1⟩, [1, 1]⟩],
    [goldOwnerTransfer, ⟨0, scriptForNullData issuerKey ⟨str "$GOLD", 1⟩⟩], hash⟩], false⟩

/-- Before the coinbase is checked for assets, one can freeze an address that is frozen; when it is
disconnected the address is free, with a freeze as its last change on the chain. -/
theorem coinbase_freezes_twice :
    ∃ n : Node, n.Reachable Node.Anything ∧
      (checkForAddressRestriction regTestChain.hashes (str "$GOLD") issuerAddress false
        n.assets).1 = false ∧
      lastChange (regTestWith coinbaseUnchecked) (.freeze (str "$GOLD") issuerAddress) n.chain =
        some true := by
  obtain ⟨n, hn, hlast⟩ : ∃ n, ({} : Node).acts
      [.connectTip ⟨regTestWith coinbaseUnchecked, .lax, {}⟩ (freezingBlock 60),
       .connectTip ⟨regTestWith coinbaseUnchecked, .lax, {}⟩ (freezingBlock 61),
       .disconnectTip (regTestWith coinbaseUnchecked)] = some n ∧
      (checkForAddressRestriction regTestChain.hashes (str "$GOLD") issuerAddress false
        n.assets).1 = false ∧
      lastChange (regTestWith coinbaseUnchecked) (.freeze (str "$GOLD") issuerAddress) n.chain =
        some true := by decide +kernel
  exact ⟨n, (Node.Reachable.start false).acts hn, hlast⟩

end HnbCore
