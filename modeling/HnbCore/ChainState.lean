import HnbCore.HeaderWork
import HnbCore.Lib.Ancestry
import HnbCore.Lib.TwoWay

/-!
# The active chain

The block index with the blocks that have arrived, the set of candidates for the tip and the active
chain: `AcceptBlock`, `ReceivedBlockTransactions`, `InvalidateBlock`, and `ActivateBestChain` with
`FindMostWorkChain` and `ActivateBestChainStep`. Block files are never pruned. Whether a block goes
through `ConnectTip` is a parameter, and so is the outcome of `CheckBlock` and
`ContextualCheckBlock`.
-/

namespace HnbCore

open Checks Ancestry

def blockValidTransactions : Nat := 3
def minBlocksToKeep : Nat := 288

namespace CBlockIndex

def markFailedValid (pindex : CBlockIndex) : CBlockIndex :=
  { pindex with nStatus := { pindex.nStatus with failedValid := true } }

def raiseValidity (nUpTo : Nat) (pindex : CBlockIndex) : CBlockIndex :=
  if pindex.failed then pindex
  else { pindex with nStatus := { pindex.nStatus with nValid := max pindex.nStatus.nValid nUpTo } }

end CBlockIndex

namespace BlockTree

def parent (tree : BlockTree) (hash : UInt256) : Option UInt256 :=
  (tree.find? hash).bind CBlockIndex.pprev

def update (tree : BlockTree) (hash : UInt256) (f : CBlockIndex → CBlockIndex) : BlockTree :=
  match tree.find? hash with
  | none => tree
  | some pindex => tree.set hash (f pindex)

end BlockTree

structure ChainRules where
  headers : HeaderRules
  nMinimumChainWork : Nat
  /-- Where the entry of a block lies in memory. -/
  address : UInt256 → Nat
  /-- Whether a block goes through `ConnectTip`. -/
  connects : UInt256 → Bool

/-- What a node reads when a header arrives, besides its chain. -/
structure Surroundings where
  nodeCount : Option Int
  nTime : Int
  nAdjustedTime : Int
  areAssetsDeployed : Bool

/-- What `CheckBlock` and `ContextualCheckBlock` say of a block. A block that passes has
transactions; one that fails because its transactions may have been tampered with is mutated. -/
inductive BlockVerdict
  | passed (nTx : Nat) (notEmpty : nTx ≠ 0)
  | invalid
  | mutated

/-- The fields of an entry that `ReceivedBlockTransactions` fills in. -/
structure BlockData where
  nTx : Nat
  nChainTx : Nat := 0
  nSequenceId : Nat := 0

/-- The block index, the entries that have their data, and the active chain with its tip first. -/
structure ChainState where
  tree : BlockTree
  data : KeyedMap UInt256 BlockData := .empty
  setBlockIndexCandidates : PlainSet UInt256 := .empty
  mapBlocksUnlinked : List (UInt256 × UInt256) := []
  nBlockSequenceId : Nat := 1
  chainActive : List UInt256 := []

namespace ChainState

variable (s : ChainState)

def tip : Option UInt256 := s.chainActive.head?

def nHeight (hash : UInt256) : Nat :=
  ((s.tree.find? hash).map CBlockIndex.nHeight).getD 0

def nChainWork (hash : UInt256) : Nat :=
  ((s.tree.find? hash).map CBlockIndex.nChainWork).getD 0

def failed (hash : UInt256) : Bool :=
  ((s.tree.find? hash).map CBlockIndex.failed).getD false

def isValid (hash : UInt256) (nUpTo : Nat) : Bool :=
  ((s.tree.find? hash).map (·.isValid nUpTo)).getD false

def hasData (hash : UInt256) : Bool := s.data.contains hash

def nTx (hash : UInt256) : Nat :=
  ((s.data.find? hash).map fun item => item.2.nTx).getD 0

def nChainTx (hash : UInt256) : Nat :=
  ((s.data.find? hash).map fun item => item.2.nChainTx).getD 0

def nSequenceId (hash : UInt256) : Nat :=
  ((s.data.find? hash).map fun item => item.2.nSequenceId).getD 0

variable (rules : ChainRules)

/-- `CBlockIndexWorkComparator`: `pa` has less work than `pb`, or came later. -/
def worse (s : ChainState) (pa pb : UInt256) : Bool :=
  if s.nChainWork pa > s.nChainWork pb then false
  else if s.nChainWork pa < s.nChainWork pb then true
  else if s.nSequenceId pa < s.nSequenceId pb then false
  else if s.nSequenceId pa > s.nSequenceId pb then true
  else if rules.address pa < rules.address pb then false
  else rules.address pa > rules.address pb

/-- `chainActive.Height()` is the height of the tip. -/
def headerContext (around : Surroundings) : HeaderContext where
  chainHeight := ((s.tip.bind s.tree.find?).map fun pindex => (pindex.nHeight : Int)).getD (-1)
  tipTime := ((s.tip.bind s.tree.find?).map fun pindex => (pindex.nTime.toNat : Int)).getD 0
  nodeCount := around.nodeCount
  nTime := around.nTime
  nAdjustedTime := around.nAdjustedTime
  areAssetsDeployed := around.areAssetsDeployed

def processHeader (s : ChainState) (around : Surroundings) (block : CBlockHeader) : ChainState :=
  match acceptBlockHeader rules.headers (s.headerContext around) block s.tree with
  | .ok _ tree => { s with tree := tree }
  | .error _ tree => { s with tree := tree }

variable (pindex : UInt256)

/-- The counts of an entry whose parent is linked. -/
def linkData : ChainState :=
  let nChainTx := ((s.tree.parent pindex).map s.nChainTx).getD 0 + s.nTx pindex
  { s with
    data := s.data.assign (pindex, ⟨s.nTx pindex, nChainTx, s.nBlockSequenceId⟩)
    nBlockSequenceId := s.nBlockSequenceId + 1
    mapBlocksUnlinked := s.mapBlocksUnlinked.filter fun item => item.1 ≠ pindex }

/-- One round of the loop of `ReceivedBlockTransactions`. -/
def link (s : ChainState) (pindex : UInt256) : ChainState :=
  let s := s.linkData pindex
  if s.tip.all fun tip => !s.worse rules pindex tip then
    { s with setBlockIndexCandidates := s.setBlockIndexCandidates.insert pindex }
  else s

/-- The entries that wait for this one. -/
def unlinkedChildren : List UInt256 :=
  (s.mapBlocksUnlinked.filter fun item => item.1 = pindex).map Prod.snd

/-- The queue of `ReceivedBlockTransactions`. -/
def linkQueue (rules : ChainRules) : Nat → List UInt256 → ChainState → ChainState
  | 0, _, s => s
  | _, [], s => s
  | fuel + 1, pindex :: queue, s =>
      linkQueue rules fuel (queue ++ s.unlinkedChildren pindex) (s.link rules pindex)

/-- The entry of a block that has arrived, before it is linked. -/
def received (pindexNew : UInt256) (nTx : Nat) : ChainState :=
  { s with
    tree := s.tree.update pindexNew (.raiseValidity blockValidTransactions)
    data := s.data.assign (pindexNew, { nTx := nTx }) }

def receivedBlockTransactions (s : ChainState) (pindexNew : UInt256) (nTx : Nat) : ChainState :=
  let s := s.received pindexNew nTx
  match s.tree.parent pindexNew with
  | none => s.linkQueue rules (s.mapBlocksUnlinked.length + 1) [pindexNew]
  | some pprev =>
      if s.nChainTx pprev ≠ 0 then
        s.linkQueue rules (s.mapBlocksUnlinked.length + 1) [pindexNew]
      else if s.isValid pprev blockValidTree then
        { s with mapBlocksUnlinked := s.mapBlocksUnlinked ++ [(pprev, pindexNew)] }
      else s

/-- Whether `AcceptBlock` looks at a block that nobody asked for. -/
def isWanted (s : ChainState) (pindex : UInt256) : Bool :=
  (match s.tip with
    | none => true
    | some tip => s.nChainWork pindex > s.nChainWork tip) &&
  !((s.nHeight pindex : Int) > (s.tip.map fun tip => (s.nHeight tip : Int)).getD (-1) +
    minBlocksToKeep) &&
  !(s.nChainWork pindex < rules.nMinimumChainWork)

def acceptBlock (s : ChainState) (around : Surroundings)
    (block : CBlockHeader) (fRequested : Bool) (verdict : BlockVerdict) : ChainState :=
  match acceptBlockHeader rules.headers (s.headerContext around) block s.tree with
  | .error _ tree => { s with tree := tree }
  | .ok _ tree =>
      let s := { s with tree := tree }
      let pindex := block.getHash rules.headers
      if s.hasData pindex then s
      else if !fRequested && !s.isWanted rules pindex then s
      else
        match verdict with
        | .passed nTx _ => s.receivedBlockTransactions rules pindex nTx
        | .invalid => { s with tree := s.tree.update pindex .markFailedValid }
        | .mutated => s

/-- `LoadGenesisBlock` on an empty index. -/
def loadGenesisBlock (genesis : CBlockHeader) (nTx : Nat) : ChainState :=
  let s : ChainState := ⟨.addToBlockIndex rules.headers ⟨.empty, [], none⟩ genesis, .empty, .empty,
    [], 1, []⟩
  s.receivedBlockTransactions rules (genesis.getHash rules.headers) nTx

/-- The block that no other is better than. -/
def bestOf (rules : ChainRules) (s : ChainState) : List UInt256 → Option UInt256
  | [] => none
  | pindex :: others =>
      match bestOf rules s others with
      | none => some pindex
      | some pindexBest => some (if s.worse rules pindexBest pindex then pindex else pindexBest)

/-- The last element of `setBlockIndexCandidates`. -/
def bestCandidate (s : ChainState) : Option UInt256 :=
  s.bestOf rules s.setBlockIndexCandidates.items

/-- The blocks from this one down to the active chain, and the block where they meet it. -/
def branchOf : List UInt256 × Option UInt256 :=
  walkUp s.tree.parent s.chainActive.contains (s.nHeight pindex + 1) pindex

def eraseCandidate : ChainState :=
  { s with setBlockIndexCandidates := s.setBlockIndexCandidates.erase pindex }

def markFailedChild : ChainState :=
  { s with tree := s.tree.update pindex .markFailedChild }

/-- A candidate above a block that failed or is missing: all down to that block are removed. -/
def dropBranch (above : List UInt256) (pindexTest : UInt256) : ChainState :=
  let fFailedChain := s.failed pindexTest
  let s := above.foldl (fun s pindexFailed =>
    let s :=
      if fFailedChain then s.markFailedChild pindexFailed
      else { s with mapBlocksUnlinked := s.mapBlocksUnlinked ++
        ((s.tree.parent pindexFailed).map fun pprev => (pprev, pindexFailed)).toList }
    s.eraseCandidate pindexFailed) s
  s.eraseCandidate pindexTest

/-- The outer loop takes candidate after candidate. -/
def findMostWorkChain (rules : ChainRules) :
    Nat → ChainState → Option (ChainState × Option UInt256)
  | 0, _ => none
  | fuel + 1, s =>
      match s.bestCandidate rules with
      | none => some (s, none)
      | some pindexNew =>
          let branch := (s.branchOf pindexNew).1
          match branch.find? fun pindex => s.failed pindex || !s.hasData pindex with
          | none => some (s, some pindexNew)
          | some pindexTest =>
              findMostWorkChain rules fuel
                (s.dropBranch (branch.takeWhile (· ≠ pindexTest)) pindexTest)

/-- `DisconnectTip` as long as the chain is as given: the blocks that go, the chain that is left,
and whether all went well. The genesis block has no undo data. -/
def disconnectWhile (go : List UInt256 → Bool) :
    List UInt256 → List UInt256 × List UInt256 × Bool
  | [] => ([], [], true)
  | [genesis] => ([], [genesis], !go [genesis])
  | pindexDelete :: chain =>
      if go (pindexDelete :: chain) then
        let (gone, left, fOk) := disconnectWhile go chain
        (pindexDelete :: gone, left, fOk)
      else ([], pindexDelete :: chain, true)

/-- `ConnectTip` for a block that goes through. The genesis block is connected without its checks
and keeps its level of validity. -/
def connectTip (s : ChainState) (pindexNew : UInt256) : Option ChainState :=
  if s.tree.parent pindexNew = s.tip then
    some { s with
      tree :=
        if pindexNew = rules.headers.hashGenesisBlock then s.tree
        else s.tree.update pindexNew (.raiseValidity blockValidScripts)
      chainActive := pindexNew :: s.chainActive }
  else none

/-- `InvalidBlockFound`; `InvalidChainFound` asserts that there is a tip. -/
def invalidBlockFound : Option ChainState :=
  if s.chainActive.isEmpty then none
  else
    let tree := s.tree.update pindex .markFailedValid
    some ({ s with tree := { tree with failedBlocks := pindex :: tree.failedBlocks } }.eraseCandidate
      pindex)

/-- The candidates that are worse than the tip go; one must be left. -/
def pruneBlockIndexCandidates (s : ChainState) : Option ChainState :=
  match s.tip with
  | none => none
  | some tip =>
      let candidates := (s.setBlockIndexCandidates.items.filter (s.worse rules · tip)).foldl
        KeyedSet.erase s.setBlockIndexCandidates
      if candidates.items.isEmpty then none
      else some { s with setBlockIndexCandidates := candidates }

/-- The loop of `ActivateBestChainStep` that connects: it stops at a block that fails, which it
reports, and when the chain is better than before. The source takes the blocks up to 32 at a time,
in the same order. -/
def connectBlocks (rules : ChainRules) (pindexOldTip : Option UInt256) :
    List UInt256 → ChainState → Option (ChainState × Bool)
  | [], s => some (s, false)
  | pindexConnect :: later, s =>
      if rules.connects pindexConnect then do
        let s ← s.connectTip rules pindexConnect
        let s ← s.pruneBlockIndexCandidates rules
        if pindexOldTip.all fun pindexOldTip =>
            s.nChainWork pindexConnect > s.nChainWork pindexOldTip then
          some (s, false)
        else connectBlocks rules pindexOldTip later s
      else (s.invalidBlockFound pindexConnect).map fun s => (s, true)

/-- With the blocks that were disconnected and whether an invalid block was found. -/
def activateBestChainStep (s : ChainState) (pindexMostWork : UInt256) :
    Option (ChainState × List UInt256 × Bool) :=
  let (branch, pindexFork) := s.branchOf pindexMostWork
  let (gone, chain, fOk) := disconnectWhile (fun chain => chain.head? ≠ pindexFork) s.chainActive
  if fOk then
    (connectBlocks rules s.tip branch.reverse { s with chainActive := chain }).map
      fun (s, fInvalidFound) => (s, gone, fInvalidFound)
  else none

/-- The block to work towards, which is kept from round to round. -/
def mostWorkChain (pindexCached : Option UInt256) (s : ChainState) :
    Option (ChainState × Option UInt256) :=
  match pindexCached with
  | some pindexMostWork => some (s, some pindexMostWork)
  | none => s.findMostWorkChain rules (s.setBlockIndexCandidates.size + 1)

/-- The loop of `ActivateBestChain`, with the blocks that were disconnected. No value stands for a
node that stopped, or for too little fuel. -/
def activateFrom (rules : ChainRules) :
    Nat → Option UInt256 → ChainState → Option (ChainState × List UInt256)
  | 0, _, _ => none
  | fuel + 1, pindexCached, s => do
      let (s, pindexMostWork) ← s.mostWorkChain rules pindexCached
      match pindexMostWork with
      | none => some (s, [])
      | some pindexMostWork =>
          if s.tip = some pindexMostWork then some (s, [])
          else
            let (s, gone, fInvalidFound) ← s.activateBestChainStep rules pindexMostWork
            let pindexCached := if fInvalidFound then none else some pindexMostWork
            if s.tip = pindexCached then some (s, gone)
            else
              let (s, goneLater) ← activateFrom rules fuel pindexCached s
              some (s, gone ++ goneLater)

def activateBestChain (fuel : Nat) (s : ChainState) : Option (ChainState × List UInt256) :=
  activateFrom rules fuel none s

/-- Blocks are marked as descending from a failed one and taken from the set. -/
def markAll (l : List UInt256) (s : ChainState) : ChainState :=
  l.foldl (fun s pindex => (s.markFailedChild pindex).eraseCandidate pindex) s

/-- The valid blocks that are as good as the tip become candidates again. -/
def readdCandidates (s : ChainState) : Option ChainState := do
  let tip ← s.tip
  let readded := (s.tree.mapBlockIndex.items.map Prod.fst).filter fun hash =>
    s.isValid hash blockValidTransactions && s.nChainTx hash ≠ 0 && !s.worse rules hash tip
  some { s with
    setBlockIndexCandidates := readded.foldl KeyedSet.insert s.setBlockIndexCandidates }

/-- `InvalidateBlock`. Invalidating the genesis block fails when that is the only block left. -/
def invalidateBlock (s : ChainState) (pindex : UInt256) : Option ChainState :=
  let (gone, chain, fOk) := disconnectWhile (·.contains pindex) s.chainActive
  let s := { s with chainActive := chain }
  if fOk then do
    let s ← (s.markAll (gone.takeWhile (· ≠ pindex))).invalidBlockFound pindex
    s.readdCandidates rules
  else some s

end ChainState

inductive ChainEvent
  | header (around : Surroundings) (block : CBlockHeader)
  | block (around : Surroundings) (block : CBlockHeader) (fRequested : Bool)
      (verdict : BlockVerdict)
  | invalidateBlock (hash : UInt256)
  | activateBestChain (fuel : Nat)

namespace ChainState

/-- One call, if the node is still there after it. A block to invalidate must be in the index. -/
def step (rules : ChainRules) (s : ChainState) : ChainEvent → Option ChainState
  | .header around block => some (s.processHeader rules around block)
  | .block around block fRequested verdict =>
      some (s.acceptBlock rules around block fRequested verdict)
  | .invalidateBlock hash =>
      if s.tree.mapBlockIndex.contains hash then s.invalidateBlock rules hash else some s
  | .activateBestChain fuel => (s.activateBestChain rules fuel).map Prod.fst

def steps (rules : ChainRules) (s : ChainState) (events : List ChainEvent) : Option ChainState :=
  events.foldlM (step rules) s

end ChainState

end HnbCore
