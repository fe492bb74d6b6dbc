import HnbCore.CoinsCache
import HnbCore.IndexUndo
import HnbCore.TxHistory

/-!
# Writing the coin database, and recovering it

`CCoinsViewDB::BatchWrite` writes the entries of a cache in several batches. The first one marks the
database as being on the way from one tip to another, the last one removes the mark. When the
database is opened with the mark, `ReplayBlocks` takes the blocks of the old branch back, applies
those of the new one, and writes the result.
-/

namespace HnbCore

open Checks AssetState

/-- The coins with the entries `DB_BEST_BLOCK` and `DB_HEAD_BLOCKS`. A null hash and an empty list
stand for entries that are not there. -/
structure CoinsDatabase where
  view : CCoinsViewDB
  bestBlock : UInt256
  headBlocks : List UInt256

/-- One operation of a `CDBBatch`. -/
inductive CoinsWrite
  | coin (item : COutPoint × CCoinsCacheEntry)
  | bestBlock (hash : UInt256)
  | headBlocks (hashes : List UInt256)

namespace CoinsDatabase

variable (db : CoinsDatabase)

def put : CoinsWrite → CoinsDatabase
  | .coin item => { db with view := db.view.writeEntry item }
  | .bestBlock hash => { db with bestBlock := hash }
  | .headBlocks hashes => { db with headBlocks := hashes }

/-- A batch is written as a whole. -/
def writeBatch (batch : List CoinsWrite) : CoinsDatabase := batch.foldl put db

/-- The loop of `BatchWrite` over the entries: whenever the batch is full it is written, and an
empty one begun. -/
def batchesFrom (full : Nat → Bool) (finish : List CoinsWrite) :
    Nat → List (COutPoint × CCoinsCacheEntry) → List CoinsWrite → List (List CoinsWrite)
  | _, [], batch => [batch ++ finish]
  | n, item :: items, batch =>
      let batch := if item.2.dirty then batch ++ [.coin item] else batch
      if full n then batch :: batchesFrom full finish (n + 1) items []
      else batchesFrom full finish (n + 1) items batch

/-- The tip the database comes from, which a replay takes from the mark. -/
def oldTip : UInt256 :=
  if db.bestBlock = 0 then
    match db.headBlocks with
    | [_, old] => old
    | _ => 0
  else db.bestBlock

/-- The batches of `BatchWrite`. -/
def batches (full : Nat → Bool) (db : CoinsDatabase) (mapCoins : CCoinsMap) (hashBlock : UInt256) :
    List (List CoinsWrite) :=
  batchesFrom full [.headBlocks [], .bestBlock hashBlock] 0 mapCoins.items
    [.bestBlock 0, .headBlocks [hashBlock, db.oldTip]]

/-- What is there when the process ends after some of the batches. -/
def writeBatches (batches : List (List CoinsWrite)) : CoinsDatabase :=
  batches.foldl writeBatch db

end CoinsDatabase

deriving instance DecidableEq for CBlock, StoredBlock

/-- `LastCommonAncestor` of two pointers at the same height. A pointer to a block is the chain that
ends in it, the null pointer the empty one. -/
def commonSuffix {α : Type} [DecidableEq α] : List α → List α → List α
  | a :: as, b :: bs => if a :: as = b :: bs then a :: as else commonSuffix as bs
  | _, _ => []

def lastCommonAncestor {α : Type} [DecidableEq α] (pa pb : List α) : List α :=
  commonSuffix (pa.drop (pa.length - pb.length)) (pb.drop (pb.length - pa.length))

/-- The loop over the old branch. The genesis block is never disconnected. -/
def rollBack (env : CBlock → Env) (pindexFork : List StoredBlock) :
    List StoredBlock → Coins → Contextual Coins
  | [], coins => pure coins
  | stored :: pprev, coins =>
      if stored :: pprev = pindexFork then pure coins
      else if pprev.isEmpty then rollBack env pindexFork pprev coins
      else do
        let vtxundo ← require stored.vtxundo "DisconnectBlock(): no undo data available"
        let scan ← disconnectBlock (env stored.block) stored.block pprev.length vtxundo coins
        rollBack env pindexFork pprev scan.coins

/-- `RollforwardBlock`, which is given no asset cache. -/
def rollforwardBlock (stored : StoredBlock) (nHeight : Int) (coins : Coins) : Coins :=
  stored.block.vtx.foldl (fun coins tx => coins.afterTx tx nHeight) coins

/-- The block of the new branch at a height is applied. -/
def rollHeight (pindexNew : List StoredBlock) (coins : Coins) (nHeight : Nat) : Coins :=
  match pindexNew.drop (pindexNew.length - 1 - nHeight) with
  | stored :: _ => rollforwardBlock stored nHeight coins
  | [] => coins

/-- The loop over the heights of the new branch. -/
def rollForward (pindexNew : List StoredBlock) (nForkHeight : Nat) (coins : Coins) : Coins :=
  (List.range' (nForkHeight + 1) (pindexNew.length - 1 - nForkHeight)).foldl
    (rollHeight pindexNew) coins

/-- `mapBlockIndex`. -/
abbrev BlockPointers := KeyedMap UInt256 (List StoredBlock)

/-- `ReplayBlocks` up to the flush: the coins of its cache and the tip they belong to. -/
def replayCoins (env : CBlock → Env) (mapBlockIndex : BlockPointers) (view : Coins)
    (hashNew hashOld : UInt256) : Contextual Coins := do
  let (_, pindexNew) ← require (mapBlockIndex.find? hashNew)
    "ReplayBlocks(): reorganization to unknown block requested"
  if hashOld = 0 then return rollForward pindexNew 0 view
  else do
    let (_, pindexOld) ← require (mapBlockIndex.find? hashOld)
      "ReplayBlocks(): reorganization from unknown block requested"
    let pindexFork := lastCommonAncestor pindexOld pindexNew
    ensure (!pindexFork.isEmpty) "assertion failed: pindexFork != nullptr"
    let coins ← rollBack env pindexFork pindexOld view
    return rollForward pindexNew (pindexFork.length - 1) coins

/-- A cache over the database that shows the coins. -/
structure CacheOver (db : CCoinsViewDB) (coins : Coins) where
  cache : CCoinsMap
  sound : CCoinsViewCache.Sound CCoinsViewDB.view db [cache]
  shows : ∀ out, CCoinsViewCache.viewed CCoinsViewDB.view db [cache] out = coins.accessCoin out

/-- A replay has come to its flush: the coins that its cache shows, and the batches it writes. -/
structure ReplayFlush (env : CBlock → Env) (mapBlockIndex : BlockPointers) (s : AssetState)
    (db : CoinsDatabase) where
  hashNew : UInt256
  hashOld : UInt256
  coins : Coins
  assets : AssetState
  heads : db.headBlocks = [hashNew, hashOld]
  replayed : replayCoins env mapBlockIndex db.view.coins hashNew hashOld s = .ok coins assets
  cacheOver : CacheOver db.view coins
  full : Nat → Bool

def ReplayFlush.batches {env : CBlock → Env} {mapBlockIndex : BlockPointers} {s : AssetState}
    {db : CoinsDatabase} (flush : ReplayFlush env mapBlockIndex s db) : List (List CoinsWrite) :=
  db.batches flush.full flush.cacheOver.cache flush.hashNew

/-- `ReplayBlocks` returns true, with the database and the assets it leaves: at once if there is no
mark, or when the flush is through. -/
inductive ReplayBlocks (env : CBlock → Env) (mapBlockIndex : BlockPointers) (s : AssetState)
    (db : CoinsDatabase) : CoinsDatabase → AssetState → Prop
  | consistent (heads : db.headBlocks = []) : ReplayBlocks env mapBlockIndex s db db s
  | replayed (flush : ReplayFlush env mapBlockIndex s db) :
      ReplayBlocks env mapBlockIndex s db (db.writeBatches flush.batches) flush.assets.flush

end HnbCore
