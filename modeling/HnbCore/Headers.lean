import HnbCore.CheckTxAssets

/-!
# Block headers

`CheckBlockHeader`, `ContextualCheckBlockHeader`, `AcceptBlockHeader` and the block index they work
on. The proof-of-work functions and the difficulty rule are parameters.
-/

namespace HnbCore

open Checks

structure CBlockHeader where
  nVersion : Int
  hashPrevBlock : UInt256
  hashMerkleRoot : UInt256
  nTime : UInt32
  nBits : UInt32
  nNonce : UInt32
  nHeight : UInt32
  nNonce64 : UInt64
  mixHash : UInt256
  deriving DecidableEq, Repr

/-- What `CKAWPOWInput` serializes. -/
structure CKAWPOWInput where
  nVersion : Int
  hashPrevBlock : UInt256
  hashMerkleRoot : UInt256
  nTime : UInt32
  nBits : UInt32
  nHeight : UInt32
  deriving DecidableEq, Repr

/-- The bytes of a header from `nVersion` to `nNonce`, which X16R reads. -/
structure X16RInput where
  nVersion : Int
  hashPrevBlock : UInt256
  hashMerkleRoot : UInt256
  nTime : UInt32
  nBits : UInt32
  nNonce : UInt32
  deriving DecidableEq, Repr

/-- The hash functions of a header. KAWPOW takes a height, a header hash and a nonce and gives the
final hash and the mix hash; without verification it takes the mix hash on trust, and with the
right one it gives the same final hash. -/
structure PowHashes where
  hashX16R : X16RInput → UInt256
  hashX16RV2 : X16RInput → UInt256
  serializeHash : CKAWPOWInput → UInt256
  progpowHash : UInt32 → UInt256 → UInt64 → UInt256 × UInt256
  progpowHashNoVerify : UInt32 → UInt256 → UInt256 → UInt64 → UInt256
  noVerify_eq : ∀ height headerHash nonce,
    progpowHashNoVerify height headerHash (progpowHash height headerHash nonce).2 nonce =
      (progpowHash height headerHash nonce).1

structure BlockStatus where
  /-- The level of `BLOCK_VALID_MASK`. -/
  nValid : Nat := 0
  failedValid : Bool := false
  failedChild : Bool := false
  deriving DecidableEq, Repr

def blockValidTree : Nat := 2
def blockValidScripts : Nat := 5

/-- `CBlockIndex`, with the hash of the previous entry for the pointer to it. Heights are `int`s
that start at zero. -/
structure CBlockIndex where
  pprev : Option UInt256
  nHeight : Nat
  nChainWork : Nat
  nStatus : BlockStatus
  nVersion : Int
  hashMerkleRoot : UInt256
  nTime : UInt32
  nBits : UInt32
  nNonce : UInt32
  nNonce64 : UInt64
  mixHash : UInt256
  nTimeMax : UInt32
  deriving DecidableEq, Repr

/-- `mapBlockIndex`, `g_failed_blocks` and `pindexBestHeader`. -/
structure BlockTree where
  mapBlockIndex : KeyedMap UInt256 CBlockIndex
  failedBlocks : List UInt256 := []
  bestHeader : Option UInt256 := none

abbrev HeaderCheck := EStateM Reject BlockTree

namespace BlockTree

def find? (tree : BlockTree) (hash : UInt256) : Option CBlockIndex :=
  (tree.mapBlockIndex.find? hash).map Prod.snd

def set (tree : BlockTree) (hash : UInt256) (pindex : CBlockIndex) : BlockTree :=
  { tree with mapBlockIndex := tree.mapBlockIndex.assign (hash, pindex) }

end BlockTree

/-- The rules of a network. The checkpoints stand in the order of their heights. -/
structure HeaderRules where
  pow : PowHashes
  nKAWPOWActivationTime : UInt32
  nX16RV2ActivationTime : UInt32
  powLimit : Nat
  hashGenesisBlock : UInt256
  mapCheckpoints : List (Nat × UInt256)
  fCheckpointsEnabled : Bool
  nDGWActivationBlock : Nat
  nMaxReorgDepth : Int
  nMinReorgPeers : Int
  nMinReorgAge : Int
  getNextWorkRequired : BlockTree → CBlockIndex → CBlockHeader → UInt32

/-- What the node knows besides the block index when it checks a header. -/
structure HeaderContext where
  chainHeight : Int
  tipTime : Int
  nodeCount : Option Int
  nTime : Int
  nAdjustedTime : Int
  areAssetsDeployed : Bool

structure CompactTarget where
  bnTarget : Nat
  fNegative : Bool
  fOverflow : Bool
  deriving DecidableEq, Repr

/-- `arith_uint256::SetCompact`. -/
def setCompact (nCompact : UInt32) : CompactTarget :=
  let nSize := nCompact.toNat / 2 ^ 24
  let mantissa := nCompact.toNat % 2 ^ 23
  let nWord := if nSize ≤ 3 then mantissa / 2 ^ (8 * (3 - nSize)) else mantissa
  { bnTarget := if nSize ≤ 3 then nWord else nWord * 2 ^ (8 * (nSize - 3)) % 2 ^ 256
    fNegative := nWord ≠ 0 && nCompact.toNat / 2 ^ 23 % 2 ≠ 0
    fOverflow := nWord ≠ 0 &&
      (nSize > 34 || (nWord > 0xff && nSize > 33) || (nWord > 0xffff && nSize > 32)) }

variable (rules : HeaderRules)

def checkProofOfWork (hash : UInt256) (nBits : UInt32) : Bool :=
  let target := setCompact nBits
  !(target.fNegative || target.bnTarget = 0 || target.fOverflow ||
    target.bnTarget > rules.powLimit) && hash.toNat ≤ target.bnTarget

/-- `GetBlockProof`. -/
def getBlockProof (nBits : UInt32) : Nat :=
  let target := setCompact nBits
  if target.fNegative || target.fOverflow || target.bnTarget = 0 then 0
  else (2 ^ 256 - 1 - target.bnTarget) / (target.bnTarget + 1) + 1

namespace CBlockHeader

variable (rules : HeaderRules) (block : CBlockHeader)

def getKAWPOWHeaderHash : UInt256 :=
  rules.pow.serializeHash ⟨block.nVersion, block.hashPrevBlock, block.hashMerkleRoot, block.nTime,
    block.nBits, block.nHeight⟩

def x16RInput : X16RInput :=
  ⟨block.nVersion, block.hashPrevBlock, block.hashMerkleRoot, block.nTime, block.nBits,
    block.nNonce⟩

/-- The hash of a header from before KAWPOW. -/
def getX16Hash : UInt256 :=
  if block.nTime ≥ rules.nX16RV2ActivationTime then rules.pow.hashX16RV2 block.x16RInput
  else rules.pow.hashX16R block.x16RInput

def getHash : UInt256 :=
  if block.nTime < rules.nKAWPOWActivationTime then block.getX16Hash rules
  else rules.pow.progpowHashNoVerify block.nHeight (block.getKAWPOWHeaderHash rules) block.mixHash
    block.nNonce64

/-- `KAWPOWHash`: the final hash and the mix hash, recomputed for the height in the header. -/
def kawpowHash : UInt256 × UInt256 :=
  rules.pow.progpowHash block.nHeight (block.getKAWPOWHeaderHash rules) block.nNonce64

/-- `GetHashFull`; before KAWPOW the mix hash stays null. -/
def getHashFull : UInt256 × UInt256 :=
  if block.nTime < rules.nKAWPOWActivationTime then (block.getX16Hash rules, 0)
  else block.kawpowHash rules

end CBlockHeader

/-- `Checkpoints::GetLastCheckpoint`: the highest checkpoint that is in the index. -/
def getLastCheckpoint (tree : BlockTree) : Option CBlockIndex :=
  rules.mapCheckpoints.reverse.findSome? fun checkpoint => tree.find? checkpoint.2

namespace CBlockIndex

variable (pindex : CBlockIndex)

def failed : Bool :=
  pindex.nStatus.failedValid || pindex.nStatus.failedChild

def isValid (nUpTo : Nat) : Bool :=
  !pindex.failed && pindex.nStatus.nValid ≥ nUpTo

/-- `CBlockIndex(block)`: the height is first the one in the header. -/
def ofHeader (block : CBlockHeader) : CBlockIndex where
  pprev := none
  nHeight := block.nHeight.toNat
  nChainWork := 0
  nStatus := {}
  nVersion := block.nVersion
  hashMerkleRoot := block.hashMerkleRoot
  nTime := block.nTime
  nBits := block.nBits
  nNonce := block.nNonce
  nNonce64 := block.nNonce64
  mixHash := block.mixHash
  nTimeMax := 0

def markFailedChild : CBlockIndex :=
  { pindex with nStatus := { pindex.nStatus with failedChild := true } }

/-- `GetBlockHeader`: the header of an entry, with the height of the index. -/
def getBlockHeader : CBlockHeader where
  nVersion := pindex.nVersion
  hashPrevBlock := pindex.pprev.getD 0
  hashMerkleRoot := pindex.hashMerkleRoot
  nTime := pindex.nTime
  nBits := pindex.nBits
  nNonce := pindex.nNonce
  nHeight := UInt32.ofNat pindex.nHeight
  nNonce64 := pindex.nNonce64
  mixHash := pindex.mixHash

end CBlockIndex

namespace BlockTree

/-- The times of an entry and the ones before it, eleven at most. -/
def timesFrom (tree : BlockTree) : Nat → CBlockIndex → List Nat
  | 0, _ => []
  | n + 1, pindex =>
      pindex.nTime.toNat :: match pindex.pprev.bind tree.find? with
        | some prev => timesFrom tree n prev
        | none => []

def nMedianTimeSpan : Nat := 11

def getMedianTimePast (tree : BlockTree) (pindex : CBlockIndex) : Nat :=
  let times := (tree.timesFrom nMedianTimeSpan pindex).insertionSort (· ≤ ·)
  times.getD (times.length / 2) 0

/-- `GetAncestor`, by the hash of the entry; the walk stops at the height or at the root. -/
def getAncestor (tree : BlockTree) (height : Nat) : Nat → UInt256 → Option UInt256
  | 0, _ => none
  | fuel + 1, hash =>
      match tree.find? hash with
      | none => none
      | some pindex =>
          if pindex.nHeight = height then some hash
          else if pindex.nHeight < height then none
          else pindex.pprev.bind (getAncestor tree height fuel)

/-- The entry that `AddToBlockIndex` makes of a header. -/
def newIndex (tree : BlockTree) (block : CBlockHeader) : CBlockIndex :=
  let pindexNew := CBlockIndex.ofHeader block
  let work := getBlockProof block.nBits
  match tree.find? block.hashPrevBlock with
  | some prev =>
      { pindexNew with
        pprev := some block.hashPrevBlock
        nHeight := prev.nHeight + 1
        nTimeMax := max prev.nTimeMax block.nTime
        nChainWork := prev.nChainWork + work
        nStatus := { nValid := blockValidTree } }
  | none =>
      { pindexNew with
        nTimeMax := block.nTime
        nChainWork := work
        nStatus := { nValid := blockValidTree } }

def addToBlockIndex (rules : HeaderRules) (tree : BlockTree) (block : CBlockHeader) : BlockTree :=
  let hash := block.getHash rules
  match tree.find? hash with
  | some _ => tree
  | none =>
      let pindexNew := tree.newIndex block
      let better : Bool :=
        match tree.bestHeader.bind tree.find? with
        | none => true
        | some best => best.nChainWork < pindexNew.nChainWork
      { tree.set hash pindexNew with
        bestHeader := if better then some hash else tree.bestHeader }

end BlockTree

/-- The proof of work of a header below the last checkpoint: the mix hash is taken on trust. -/
def isBelowCheckpoint (tree : BlockTree) (block : CBlockHeader) : Bool :=
  block.nTime ≥ rules.nKAWPOWActivationTime &&
    match getLastCheckpoint rules tree with
    | some pcheckpoint => block.nHeight.toNat ≤ pcheckpoint.nHeight % 2 ^ 32
    | none => false

/-- `CheckBlockHeader` with `fCheckPOW` set. -/
def checkBlockHeader (tree : BlockTree) (block : CBlockHeader) : Check Unit :=
  if isBelowCheckpoint rules tree block then
    dos 50 (checkProofOfWork rules (block.getHash rules) block.nBits) "high-hash"
  else do
    let (hash, mixHash) := block.getHashFull rules
    dos 50 (checkProofOfWork rules hash block.nBits) "high-hash"
    whenever (block.nTime ≥ rules.nKAWPOWActivationTime)
      (dos 50 (mixHash = block.mixHash) "invalid-mix-hash")

def maxFutureBlockTime : Int := 2 * 60 * 60
def maxFutureBlockTimeDGW : Int := maxFutureBlockTime / 10
def versionbitsTopBitsAssets : Int := 0x30000000

variable (ctx : HeaderContext)

/-- Whether a header on top of `nHeight - 1` would reorganize the chain too deeply. -/
def isTooDeep (nHeight : Int) : Bool :=
  ctx.chainHeight - (nHeight - 1) ≥ rules.nMaxReorgDepth &&
    match ctx.nodeCount with
    | some nodeCount =>
        nodeCount ≥ rules.nMinReorgPeers && ctx.nTime - ctx.tipTime ≤ rules.nMinReorgAge
    | none => false

def contextualCheckBlockHeader (tree : BlockTree)
    (pindexPrev : CBlockIndex) (block : CBlockHeader) : Check Unit := do
  let nHeight := pindexPrev.nHeight + 1
  let nBlockTime : Int := block.nTime.toNat
  dos 10 (!isTooDeep rules ctx nHeight) "bad-fork-prior-to-maxreorgdepth"
  dos 100 (block.nBits = rules.getNextWorkRequired tree pindexPrev block) "bad-diffbits"
  dos 100 (!(rules.fCheckpointsEnabled &&
    match getLastCheckpoint rules tree with
    | some pcheckpoint => nHeight < pcheckpoint.nHeight
    | none => false)) "bad-fork-prior-to-checkpoint"
  dos 0 (tree.getMedianTimePast pindexPrev < nBlockTime) "time-too-old"
  dos 0 (nBlockTime ≤ ctx.nAdjustedTime +
    if nHeight ≥ rules.nDGWActivationBlock then maxFutureBlockTimeDGW else maxFutureBlockTime)
    "time-too-new"
  dos 0 (!(ctx.areAssetsDeployed && block.nVersion < versionbitsTopBitsAssets)) "bad-version"

namespace BlockTree

/-- The walk that marks the entries from `hash` down to a failed block. -/
def markFailed (failedit : UInt256) : Nat → UInt256 → BlockTree → BlockTree
  | 0, _, tree => tree
  | fuel + 1, hash, tree =>
      if hash = failedit then tree
      else
        match tree.find? hash with
        | none => tree
        | some pindex =>
            let tree := tree.set hash pindex.markFailedChild
            match pindex.pprev with
            | none => tree
            | some prev => markFailed failedit fuel prev tree

/-- The first failed block that an entry descends from. -/
def failedAncestor (tree : BlockTree) (hash : UInt256) (pindex : CBlockIndex) : Option UInt256 :=
  tree.failedBlocks.find? fun failedit =>
    match tree.find? failedit with
    | some f => tree.getAncestor f.nHeight (pindex.nHeight + 1) hash = some failedit
    | none => false

end BlockTree

/-- A parent that is not fully validated must not descend from a failed block. -/
def checkFailedAncestors (hash : UInt256) (pindexPrev : CBlockIndex) : HeaderCheck Unit :=
  fun tree =>
    if pindexPrev.isValid blockValidScripts then .ok () tree
    else
      match tree.failedAncestor hash pindexPrev with
      | none => .ok () tree
      | some failedit => .error ⟨100, "bad-prevblk"⟩
          (tree.markFailed failedit (pindexPrev.nHeight + 1) hash)

/-- The part of `AcceptBlockHeader` for a header that is not in the index. -/
def checkNewHeader (block : CBlockHeader) :
    HeaderCheck Unit := do
  let tree ← get
  checkBlockHeader rules tree block
  let pindexPrev ← demand 10 (tree.find? block.hashPrevBlock) "prev-blk-not-found"
  dos 100 (!pindexPrev.failed) "bad-prevblk"
  contextualCheckBlockHeader rules ctx tree pindexPrev block
  checkFailedAncestors block.hashPrevBlock pindexPrev
  modify fun tree => tree.addToBlockIndex rules block

def acceptBlockHeader (block : CBlockHeader) :
    HeaderCheck Unit := do
  let tree ← get
  if block.getHash rules = rules.hashGenesisBlock then
    modify fun tree => tree.addToBlockIndex rules block
  else
    match tree.find? (block.getHash rules) with
    | some pindex => monadLift (dos 0 (!pindex.failed) "duplicate")
    | none => checkNewHeader rules ctx block

end HnbCore
