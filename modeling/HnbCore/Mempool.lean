import HnbCore.CheckTxAssets
import HnbCore.Lib.Worklist

/-!
# The memory pool

`CTxMemPool`: the entries with the links between them, the outpoints they spend, and the maps by
which asset transactions are found again. An iterator into `mapTx` is the hash of the entry it
points to. Memory usage, the fee estimator and the address and spent indexes of the pool are left
out.
-/

namespace HnbCore

open KeyedSet

abbrev TxidSet := PlainSet UInt256

/-- An entry with its cached sums: over itself and its descendants, and over itself and its
ancestors. -/
structure CTxMemPoolEntry where
  tx : CTransaction
  nFee : CAmount
  nTime : Int
  nTxSize : Int
  sigOpCost : Int
  feeDelta : CAmount
  nCountWithDescendants : Int
  nSizeWithDescendants : Int
  nModFeesWithDescendants : CAmount
  nCountWithAncestors : Int
  nSizeWithAncestors : Int
  nModFeesWithAncestors : CAmount
  nSigOpCostWithAncestors : Int
  deriving DecidableEq, Repr

namespace CTxMemPoolEntry

def hash (entry : CTxMemPoolEntry) : UInt256 := entry.tx.hash

/-- The constructor. -/
def make (tx : CTransaction) (nFee : CAmount) (nTime nTxSize sigOpCost : Int) : CTxMemPoolEntry where
  tx := tx
  nFee := nFee
  nTime := nTime
  nTxSize := nTxSize
  sigOpCost := sigOpCost
  feeDelta := 0
  nCountWithDescendants := 1
  nSizeWithDescendants := nTxSize
  nModFeesWithDescendants := nFee
  nCountWithAncestors := 1
  nSizeWithAncestors := nTxSize
  nModFeesWithAncestors := nFee
  nSigOpCostWithAncestors := sigOpCost

def getModifiedFee (entry : CTxMemPoolEntry) : CAmount := entry.nFee + entry.feeDelta

def updateFeeDelta (newFeeDelta : CAmount) (entry : CTxMemPoolEntry) : CTxMemPoolEntry :=
  { entry with
    nModFeesWithDescendants := entry.nModFeesWithDescendants + (newFeeDelta - entry.feeDelta)
    nModFeesWithAncestors := entry.nModFeesWithAncestors + (newFeeDelta - entry.feeDelta)
    feeDelta := newFeeDelta }

def updateDescendantState (modifySize : Int) (modifyFee : CAmount) (modifyCount : Int)
    (entry : CTxMemPoolEntry) : CTxMemPoolEntry :=
  { entry with
    nSizeWithDescendants := entry.nSizeWithDescendants + modifySize
    nModFeesWithDescendants := entry.nModFeesWithDescendants + modifyFee
    nCountWithDescendants := entry.nCountWithDescendants + modifyCount }

def updateAncestorState (modifySize : Int) (modifyFee : CAmount) (modifyCount modifySigOps : Int)
    (entry : CTxMemPoolEntry) : CTxMemPoolEntry :=
  { entry with
    nSizeWithAncestors := entry.nSizeWithAncestors + modifySize
    nModFeesWithAncestors := entry.nModFeesWithAncestors + modifyFee
    nCountWithAncestors := entry.nCountWithAncestors + modifyCount
    nSigOpCostWithAncestors := entry.nSigOpCostWithAncestors + modifySigOps }

end CTxMemPoolEntry

structure TxLinks where
  parents : TxidSet := .empty
  children : TxidSet := .empty

/-- The maps by which the pool finds asset transactions, with the two maps of pending reissues that
the source keeps beside the pool. Each two-way map stands for a pair of maps of the source, named
here by the first of them. -/
structure AssetMaps where
  mapAssetToHash : KeyedMap Bytes UInt256 := .empty
  mapHashToAsset : KeyedMap UInt256 Bytes := .empty
  mapAddressesMarkedFrozen : TwoWay (Bytes × Bytes) UInt256 := {}
  mapAssetMarkedGlobalFrozen : TwoWay Bytes UInt256 := {}
  mapAddressesQualifiersChanged : TwoWay Bytes UInt256 := {}
  mapAssetVerifierChanged : TwoWay Bytes UInt256 := {}
  mapGlobalFreezingAssetTransactions : TwoWay Bytes UInt256 := {}
  mapGlobalUnFreezingAssetTransactions : TwoWay Bytes UInt256 := {}
  mapAddressAddedTag : TwoWay (Bytes × Bytes) UInt256 := {}
  mapAddressRemoveTag : TwoWay (Bytes × Bytes) UInt256 := {}
  mapReissuedAssets : KeyedMap Bytes UInt256 := .empty
  mapReissuedTx : KeyedMap UInt256 Bytes := .empty
  deriving DecidableEq

namespace AssetMaps

variable (maps : AssetMaps)

/-- What asset validation reads of them. -/
def assets : MempoolAssets := ⟨maps.mapAssetToHash, maps.mapReissuedAssets⟩

/-- A transaction no longer locks the asset it reissues. -/
def removeReissue (hash : UInt256) : AssetMaps :=
  match maps.mapReissuedTx.find? hash with
  | some (_, name) =>
      if maps.mapReissuedAssets.contains name then
        { maps with
          mapReissuedAssets := maps.mapReissuedAssets.erase name
          mapReissuedTx := maps.mapReissuedTx.erase hash }
      else maps
  | none => maps

def removeIssue (hash : UInt256) : AssetMaps :=
  match maps.mapHashToAsset.find? hash with
  | some (_, name) =>
      { maps with
        mapAssetToHash := maps.mapAssetToHash.erase name
        mapHashToAsset := maps.mapHashToAsset.erase hash }
  | none => maps

/-- The part of `removeUnchecked` that concerns these maps. The hash stays in the second of the two
maps of added and of removed tags. -/
def removeUnchecked (hash : UInt256) : AssetMaps :=
  let maps := (maps.removeReissue hash).removeIssue hash
  { maps with
    mapAddressesMarkedFrozen := maps.mapAddressesMarkedFrozen.unlinkKeeping hash
    mapAssetMarkedGlobalFrozen := maps.mapAssetMarkedGlobalFrozen.unlinkKeeping hash
    mapAddressesQualifiersChanged := maps.mapAddressesQualifiersChanged.unlinkKeeping hash
    mapAssetVerifierChanged := maps.mapAssetVerifierChanged.unlinkKeeping hash
    mapGlobalFreezingAssetTransactions :=
      maps.mapGlobalFreezingAssetTransactions.unlinkDropping hash
    mapGlobalUnFreezingAssetTransactions :=
      maps.mapGlobalUnFreezingAssetTransactions.unlinkDropping hash
    mapAddressAddedTag := maps.mapAddressAddedTag.unlinkForward hash
    mapAddressRemoveTag := maps.mapAddressRemoveTag.unlinkForward hash }

/-- `ConnectTip` forgets the pending reissue of a transaction of the block. -/
def forgetReissue (hash : UInt256) : AssetMaps :=
  match maps.mapReissuedTx.find? hash with
  | some (_, name) =>
      { maps with
        mapReissuedAssets := maps.mapReissuedAssets.erase name
        mapReissuedTx := maps.mapReissuedTx.erase hash }
  | none => maps

/-- The part of `_clear` that concerns these maps: the pending reissues stay. -/
def clear : AssetMaps :=
  { mapReissuedAssets := maps.mapReissuedAssets, mapReissuedTx := maps.mapReissuedTx }

end AssetMaps

structure CTxMemPool extends AssetMaps where
  mapTx : KeyedSet CTxMemPoolEntry.hash := .empty
  mapLinks : KeyedMap UInt256 TxLinks := .empty
  mapNextTx : KeyedMap COutPoint CTransaction := .empty
  mapDeltas : KeyedMap UInt256 CAmount := .empty

namespace CTxMemPool

variable (pool : CTxMemPool)

def exists? (hash : UInt256) : Bool := pool.mapTx.contains hash

def links (hash : UInt256) : TxLinks :=
  match pool.mapLinks.find? hash with
  | some (_, l) => l
  | none => {}

def getMemPoolParents (hash : UInt256) : TxidSet := (pool.links hash).parents

def getMemPoolChildren (hash : UInt256) : TxidSet := (pool.links hash).children

/-- `mapTx.modify`. -/
def modify (f : CTxMemPoolEntry → CTxMemPoolEntry) (pool : CTxMemPool) (hash : UInt256) :
    CTxMemPool :=
  match pool.mapTx.find? hash with
  | some entry => { pool with mapTx := pool.mapTx.assign (f entry) }
  | none => pool

def updateChild (entry child : UInt256) (add : Bool) : CTxMemPool :=
  let l := pool.links entry
  let children := if add then l.children.insert child else l.children.erase child
  { pool with mapLinks := pool.mapLinks.assign (entry, { l with children := children }) }

def updateParent (entry parent : UInt256) (add : Bool) : CTxMemPool :=
  let l := pool.links entry
  let parents := if add then l.parents.insert parent else l.parents.erase parent
  { pool with mapLinks := pool.mapLinks.assign (entry, { l with parents := parents }) }

def calculateDescendants (hash : UInt256) (setDescendants : TxidSet) : TxidSet :=
  let stage : TxidSet := if setDescendants.contains hash then .empty else empty.insert hash
  Worklist.walk (fun h => (pool.getMemPoolChildren h).items) pool.mapTx.size stage setDescendants

/-- The descendants of several entries, the entries among them. -/
def calculateAllDescendants (hashes : List UInt256) : TxidSet :=
  hashes.foldl (fun set hash => pool.calculateDescendants hash set) .empty

/-- `CalculateMemPoolAncestors` without limits, from given parents. -/
def ancestorsFrom (parents : TxidSet) : TxidSet :=
  Worklist.walk (fun h => (pool.getMemPoolParents h).items) pool.mapTx.size parents .empty

/-- The parents are those of the links. -/
def calculateMemPoolAncestors (hash : UInt256) : TxidSet :=
  pool.ancestorsFrom (pool.getMemPoolParents hash)

variable (tx : CTransaction)

/-- The parents of a transaction that is not in the pool yet. -/
def searchForParents : TxidSet :=
  tx.vin.foldl (fun (parents : TxidSet) txin =>
    if pool.exists? txin.prevout.hash then parents.insert txin.prevout.hash else parents) .empty

def updateAncestorsOf (add : Bool) (entry : CTxMemPoolEntry)
    (setAncestors : TxidSet) : CTxMemPool :=
  let pool := (pool.getMemPoolParents entry.hash).items.foldl
    (fun pool parent => pool.updateChild parent entry.hash add) pool
  let updateCount : Int := if add then 1 else -1
  setAncestors.items.foldl (modify (CTxMemPoolEntry.updateDescendantState
    (updateCount * entry.nTxSize) (updateCount * entry.getModifiedFee) updateCount)) pool

/-- A sum over the entries of a set. -/
def sumOver (set : TxidSet) (f : CTxMemPoolEntry → Int) : Int :=
  (set.items.map fun hash => ((pool.mapTx.find? hash).map f).getD 0).sum

def updateEntryForAncestors (hash : UInt256) (setAncestors : TxidSet) : CTxMemPool :=
  pool.modify (CTxMemPoolEntry.updateAncestorState (pool.sumOver setAncestors (·.nTxSize))
    (pool.sumOver setAncestors (·.getModifiedFee)) setAncestors.size
    (pool.sumOver setAncestors (·.sigOpCost))) hash

def insertEntry (entry : CTxMemPoolEntry) : CTxMemPool :=
  { pool with
    mapTx := pool.mapTx.insert entry
    mapLinks := pool.mapLinks.insert (entry.hash, {}) }

/-- A delta set before by `PrioritiseTransaction` is taken over. -/
def takeDelta (hash : UInt256) : CTxMemPool :=
  match pool.mapDeltas.find? hash with
  | some (_, delta) =>
      if delta ≠ 0 then pool.modify (CTxMemPoolEntry.updateFeeDelta delta) hash else pool
  | none => pool

def insertNextTx : CTxMemPool :=
  { pool with
    mapNextTx := tx.vin.foldl (fun m (txin : CTxIn) => m.insert (txin.prevout, tx))
      pool.mapNextTx }

def linkParents : CTxMemPool :=
  (pool.searchForParents tx).items.foldl
    (fun (pool : CTxMemPool) parent => pool.updateParent tx.hash parent true) pool

def addUnchecked (entry : CTxMemPoolEntry) (setAncestors : TxidSet) : CTxMemPool :=
  let pool := (pool.insertEntry entry).takeDelta entry.hash
  let pool := (pool.insertNextTx entry.tx).linkParents entry.tx
  match pool.mapTx.find? entry.hash with
  | some entry => (pool.updateAncestorsOf true entry setAncestors).updateEntryForAncestors
      entry.hash setAncestors
  | none => pool

/-- `removeUnchecked` of an entry of the pool. -/
def removeUnchecked (hash : UInt256) : CTxMemPool :=
  match pool.mapTx.find? hash with
  | some entry =>
      { pool with
        toAssetMaps := pool.toAssetMaps.removeUnchecked hash
        mapNextTx := entry.tx.vin.foldl (fun m (txin : CTxIn) => m.erase txin.prevout)
          pool.mapNextTx
        mapLinks := pool.mapLinks.erase hash
        mapTx := pool.mapTx.erase hash }
  | none => pool

def updateChildrenForRemoval (hash : UInt256) : CTxMemPool :=
  (pool.getMemPoolChildren hash).items.foldl
    (fun pool child => pool.updateParent child hash false) pool

/-- The descendants of an entry that is removed lose it as an ancestor. -/
def updateDescendantsForRemoval (hash : UInt256) : CTxMemPool :=
  match pool.mapTx.find? hash with
  | some entry =>
      ((pool.calculateDescendants hash .empty).erase hash).items.foldl
        (modify (CTxMemPoolEntry.updateAncestorState (-entry.nTxSize) (-entry.getModifiedFee) (-1)
          (-entry.sigOpCost))) pool
  | none => pool

/-- The ancestors of an entry that is removed lose it as a descendant. -/
def updateAncestorsForRemoval (hash : UInt256) : CTxMemPool :=
  match pool.mapTx.find? hash with
  | some entry => pool.updateAncestorsOf false entry (pool.calculateMemPoolAncestors hash)
  | none => pool

def updateForRemoveFromMempool (entriesToRemove : TxidSet)
    (updateDescendants : Bool) : CTxMemPool :=
  let pool := if updateDescendants then
      entriesToRemove.items.foldl updateDescendantsForRemoval pool
    else pool
  let pool := entriesToRemove.items.foldl updateAncestorsForRemoval pool
  entriesToRemove.items.foldl updateChildrenForRemoval pool

def removeStaged (stage : TxidSet) (updateDescendants : Bool) : CTxMemPool :=
  stage.items.foldl removeUnchecked (pool.updateForRemoveFromMempool stage updateDescendants)

/-- The entries `removeRecursive` starts from: the transaction, or those that spend it. -/
def recursiveRoots (origTx : CTransaction) : List UInt256 :=
  if pool.exists? origTx.hash then [origTx.hash]
  else (List.range origTx.vout.length).filterMap fun i =>
    (pool.mapNextTx.find? ⟨origTx.hash, i⟩).map fun next => next.2.hash

def removeRecursive (origTx : CTransaction) : CTxMemPool :=
  pool.removeStaged (pool.calculateAllDescendants (pool.recursiveRoots origTx)) false

def clearPrioritisation (hash : UInt256) : CTxMemPool :=
  { pool with mapDeltas := pool.mapDeltas.erase hash }

def removeConflict (hash : UInt256) (pool : CTxMemPool) (txin : CTxIn) : CTxMemPool :=
  match pool.mapNextTx.find? txin.prevout with
  | some (_, txConflict) =>
      if txConflict.hash ≠ hash then
        (pool.clearPrioritisation txConflict.hash).removeRecursive txConflict
      else pool
  | none => pool

def removeConflicts : CTxMemPool :=
  tx.vin.foldl (removeConflict tx.hash) pool

structure ConnectedBlockAssetData where
  newAssetsToAdd : List CAssetCacheNewAsset := []
  newVerifiersToAdd : List CAssetCacheRestrictedVerifiers := []
  newAddressRestrictionsToAdd : List CAssetCacheRestrictedAddress := []
  newGlobalRestrictionsToAdd : List CAssetCacheRestrictedGlobal := []
  newQualifiersToAdd : List CAssetCacheQualifierAddress := []

/-- What `ConnectTip` takes from the cache of a connected block. -/
def ConnectedBlockAssetData.ofCache (cache : CAssetsCache) : ConnectedBlockAssetData where
  newAssetsToAdd := cache.setNewAssetsToAdd.items
  newVerifiersToAdd := cache.setNewRestrictedVerifierToAdd.items
  newAddressRestrictionsToAdd := cache.setNewRestrictedAddressToAdd.items
  newGlobalRestrictionsToAdd := cache.setNewRestrictedGlobalToAdd.items
  newQualifiersToAdd := cache.setNewQualifierAddressToAdd.items

/-- The candidates among the entries that fail a check are marked for removal. -/
def markForRemoval (fails : CTransaction → Bool) (trans : List CTransaction)
    (hash : UInt256) : List CTransaction :=
  match pool.mapTx.find? hash with
  | some entry =>
      if !(trans.map (·.hash)).contains hash && fails entry.tx then trans ++ [entry.tx] else trans
  | none => trans

/-- The re-check of `removeForBlock` for changed verifiers, tags and global freezes: the pointer
`passets` is passed to `CheckTransaction` where it takes the flag for duplicate inputs. -/
def failsCheckTransaction (env : Env) (tx : CTransaction) : Bool :=
  (checkTransaction env tx true false false).isOk = false

/-- The transactions of the pool that `removeForBlock` evicts for what the block changes. `passes`
tells whether a transaction passes `CheckTxAssets` on the state after the block. -/
def assetConflicts (env : Env) (passes : CTransaction → Bool)
    (data : ConnectedBlockAssetData) : List CTransaction :=
  let holders (m : TwoWay Bytes UInt256) (name : Bytes) := (TwoWay.members m.forward name).items
  let recheck := pool.markForRemoval (failsCheckTransaction env)
  let always := pool.markForRemoval fun _ => true
  let trans := data.newAssetsToAdd.foldl (fun trans e =>
    match pool.mapAssetToHash.find? e.asset.strName with
    | some (_, hash) =>
        match pool.mapTx.find? hash with
        | some entry => trans ++ [entry.tx]
        | none => trans
    | none => trans) []
  let trans := data.newVerifiersToAdd.foldl (fun trans e =>
    (holders pool.mapAssetVerifierChanged e.assetName).foldl recheck trans) trans
  let trans := data.newQualifiersToAdd.foldl (fun trans e =>
    (holders pool.mapAddressesQualifiersChanged e.address).foldl recheck trans) trans
  let trans := data.newGlobalRestrictionsToAdd.foldl (fun trans e =>
    match e.type with
    | .globalFreeze =>
        (holders pool.mapGlobalFreezingAssetTransactions e.assetName).foldl always
          ((holders pool.mapAssetMarkedGlobalFrozen e.assetName).foldl recheck trans)
    | .globalUnfreeze =>
        (holders pool.mapGlobalUnFreezingAssetTransactions e.assetName).foldl always trans
    | _ => trans) trans
  data.newAddressRestrictionsToAdd.foldl (fun trans e =>
    if e.type = .freezeAddress then
      (TwoWay.members pool.mapAddressesMarkedFrozen.forward (e.address, e.assetName)).items.foldl
        (pool.markForRemoval fun tx => !passes tx) trans
    else trans) trans

/-- One transaction leaves the pool alone, and what conflicts with it with all descendants. -/
def removeMined : CTxMemPool :=
  let pool := if pool.exists? tx.hash then
      pool.removeStaged (empty.insert tx.hash) true
    else pool
  (pool.removeConflicts tx).clearPrioritisation tx.hash

def removeForBlock (env : Env) (passes : CTransaction → Bool)
    (vtx : List CTransaction) (data : ConnectedBlockAssetData) : CTxMemPool :=
  let trans := pool.assetConflicts env passes data
  trans.foldl removeMined (vtx.foldl removeMined pool)

/-- `ConnectTip` forgets the pending reissues of a block's transactions. -/
def forgetReissues (vtx : List CTransaction) : CTxMemPool :=
  { pool with
    toAssetMaps := vtx.foldl (fun maps (tx : CTransaction) => maps.forgetReissue tx.hash)
      pool.toAssetMaps }

/-- `_clear`: the deltas stay. -/
def clear : CTxMemPool :=
  { toAssetMaps := pool.toAssetMaps.clear, mapDeltas := pool.mapDeltas }

/-- How the size of the pool is measured and which entry has the lowest descendant score. -/
structure Limits where
  expiry : Int
  sizelimit : Nat
  usage : CTxMemPool → Nat
  worst : CTxMemPool → UInt256

/-- `Expire`. -/
def expire (time : Int) : CTxMemPool :=
  let toremove := (pool.mapTx.items.filter fun entry => entry.nTime < time).map (·.hash)
  pool.removeStaged (pool.calculateAllDescendants toremove) false

/-- `TrimToSize`, at most `fuel` times around its loop. -/
def trimToSize (limits : Limits) : Nat → CTxMemPool → CTxMemPool
  | 0, pool => pool
  | fuel + 1, pool =>
      if pool.mapTx.size ≠ 0 ∧ limits.usage pool > limits.sizelimit then
        trimToSize limits fuel
          (pool.removeStaged (pool.calculateDescendants (limits.worst pool) .empty) false)
      else pool

/-- `LimitMempoolSize`. -/
def limitMempoolSize (limits : Limits) : CTxMemPool :=
  trimToSize limits pool.mapTx.size (pool.expire limits.expiry)

/-- The two pools hold the same transactions, with the times they came, and maps; links, cached
sums and fee deltas may differ. -/
structure SameTxs (pool pool' : CTxMemPool) : Prop where
  maps : pool'.toAssetMaps = pool.toAssetMaps
  txs : ∀ hash, (pool'.mapTx.find? hash).map (fun entry => (entry.tx, entry.nTime)) =
    (pool.mapTx.find? hash).map fun entry => (entry.tx, entry.nTime)
  nextTx : pool'.mapNextTx = pool.mapNextTx

namespace SameTxs

variable {pool pool' pool'' : CTxMemPool}

theorem refl (pool : CTxMemPool) : SameTxs pool pool := ⟨rfl, fun _ => rfl, rfl⟩

theorem trans (h : SameTxs pool pool') (h' : SameTxs pool' pool'') : SameTxs pool pool'' :=
  ⟨h'.maps.trans h.maps, fun hash => (h'.txs hash).trans (h.txs hash), h'.nextTx.trans h.nextTx⟩

theorem foldl {α : Type} {f : CTxMemPool → α → CTxMemPool}
    (hf : ∀ pool a, SameTxs pool (f pool a)) (l : List α) (pool : CTxMemPool) :
    SameTxs pool (l.foldl f pool) :=
  List.foldlRecOn l f (refl pool) fun pool' h a _ => h.trans (hf pool' a)

theorem exists? (h : SameTxs pool pool') (hash : UInt256) :
    pool'.exists? hash = pool.exists? hash := by
  have htx := congrArg Option.isSome (h.txs hash)
  simpa [CTxMemPool.exists?, contains] using htx

end SameTxs

theorem modify_same {f : CTxMemPoolEntry → CTxMemPoolEntry}
    (hf : ∀ entry, (f entry).tx = entry.tx ∧ (f entry).nTime = entry.nTime)
    (pool : CTxMemPool) (hash : UInt256) : SameTxs pool (pool.modify f hash) := by
  unfold modify
  cases hfind : pool.mapTx.find? hash with
  | none => exact .refl pool
  | some entry =>
    refine ⟨rfl, ?_, rfl⟩
    intro hash'
    have hkey : (f entry).hash = hash := by
      have hentry : entry.hash = hash := key_of_find? hfind
      rw [CTxMemPoolEntry.hash, (hf entry).1]
      exact hentry
    simp only [find?_assign, hkey]
    by_cases hh : hash = hash'
    · subst hh
      rw [if_pos rfl, hfind, Option.map_some, Option.map_some, (hf entry).1, (hf entry).2]
    · rw [if_neg hh]

theorem updateChild_same (entry child : UInt256) (add : Bool) :
    SameTxs pool (pool.updateChild entry child add) := ⟨rfl, fun _ => rfl, rfl⟩

theorem updateParent_same (entry parent : UInt256) (add : Bool) :
    SameTxs pool (pool.updateParent entry parent add) := ⟨rfl, fun _ => rfl, rfl⟩

theorem updateAncestorsOf_same (add : Bool) (entry : CTxMemPoolEntry)
    (setAncestors : TxidSet) : SameTxs pool (pool.updateAncestorsOf add entry setAncestors) := by
  apply SameTxs.trans
  · exact .foldl (fun pool parent => updateChild_same pool parent entry.hash add)
      (pool.getMemPoolParents entry.hash).items pool
  · apply SameTxs.foldl
    exact modify_same fun entry => ⟨rfl, rfl⟩

variable (hash : UInt256)

theorem updateDescendantsForRemoval_same :
    SameTxs pool (pool.updateDescendantsForRemoval hash) := by
  unfold updateDescendantsForRemoval
  split
  · apply SameTxs.foldl
    exact modify_same fun entry => ⟨rfl, rfl⟩
  · exact .refl pool

theorem updateAncestorsForRemoval_same :
    SameTxs pool (pool.updateAncestorsForRemoval hash) := by
  unfold updateAncestorsForRemoval
  split
  · exact updateAncestorsOf_same pool false _ _
  · exact .refl pool

theorem updateChildrenForRemoval_same :
    SameTxs pool (pool.updateChildrenForRemoval hash) :=
  .foldl (fun pool child => updateParent_same pool child hash false) _ pool

theorem updateForRemoveFromMempool_same (stage : TxidSet) (updateDescendants : Bool) :
    SameTxs pool (pool.updateForRemoveFromMempool stage updateDescendants) := by
  have hfirst : SameTxs pool (if updateDescendants then
      stage.items.foldl updateDescendantsForRemoval pool else pool) := by
    split
    · exact .foldl updateDescendantsForRemoval_same _ pool
    · exact .refl pool
  exact (hfirst.trans (.foldl updateAncestorsForRemoval_same _ _)).trans
    (.foldl updateChildrenForRemoval_same _ _)

theorem takeDelta_same :
    SameTxs pool (pool.takeDelta hash) := by
  unfold takeDelta
  split
  · split
    · apply modify_same
      exact fun entry => ⟨rfl, rfl⟩
    · exact .refl _
  · exact .refl _

variable (entry : CTxMemPoolEntry)

theorem insertNextTx_same :
    SameTxs ((pool.insertEntry entry).insertNextTx entry.tx)
      (((pool.insertEntry entry).takeDelta entry.hash).insertNextTx entry.tx) := by
  have hdelta := takeDelta_same (pool.insertEntry entry) entry.hash
  refine ⟨hdelta.maps, hdelta.txs, ?_⟩
  simp only [insertNextTx, hdelta.nextTx]

theorem linkParents_same :
    SameTxs pool (pool.linkParents tx) :=
  .foldl (fun pool parent => updateParent_same pool tx.hash parent true) _ pool

/-- Apart from links and sums, `addUnchecked` inserts the entry and the outpoints it spends. -/
theorem addUnchecked_same (setAncestors : TxidSet) :
    SameTxs ((pool.insertEntry entry).insertNextTx entry.tx)
      (pool.addUnchecked entry setAncestors) := by
  have hparents := (insertNextTx_same pool entry).trans (linkParents_same _ entry.tx)
  simp only [addUnchecked]
  split
  · apply hparents.trans
    apply (updateAncestorsOf_same _ true _ setAncestors).trans
    apply modify_same
    exact fun entry => ⟨rfl, rfl⟩
  · exact hparents

theorem exists?_addUnchecked (setAncestors : TxidSet) (hash : UInt256) :
    (pool.addUnchecked entry setAncestors).exists? hash =
      (decide (entry.hash = hash) || pool.exists? hash) := by
  rw [(addUnchecked_same pool entry setAncestors).exists?]
  exact contains_insert _ _ _

theorem clearPrioritisation_same :
    SameTxs pool (pool.clearPrioritisation hash) := ⟨rfl, fun _ => rfl, rfl⟩

theorem exists?_removeUnchecked (hash hash' : UInt256) :
    (pool.removeUnchecked hash).exists? hash' = (!decide (hash = hash') && pool.exists? hash') := by
  unfold removeUnchecked exists?
  cases hfind : pool.mapTx.find? hash with
  | none =>
    by_cases hh : hash = hash'
    · subst hh
      simp [contains, hfind]
    · simp [hh]
  | some entry =>
    rw [contains_erase]
    by_cases hh : hash = hash' <;> simp [hh]

section Removal

/-- What a change of links and sums keeps, and the removal of an entry, is kept by all removals. -/
structure RemovalInvariant (P : CTxMemPool → Prop) : Prop where
  same : ∀ {pool pool' : CTxMemPool}, SameTxs pool pool' → P pool → P pool'
  remove : ∀ (pool : CTxMemPool) (hash : UInt256), P pool → P (pool.removeUnchecked hash)

variable {P : CTxMemPool → Prop} (hP : RemovalInvariant P) {pool : CTxMemPool}

include hP

theorem RemovalInvariant.removeStaged (h : P pool) (stage : TxidSet) (updateDescendants : Bool) :
    P (pool.removeStaged stage updateDescendants) :=
  List.foldlRecOn stage.items removeUnchecked
    (hP.same (updateForRemoveFromMempool_same pool stage updateDescendants) h)
    fun pool h hash _ => hP.remove pool hash h

theorem RemovalInvariant.limitMempoolSize (h : P pool) (limits : Limits) :
    P (pool.limitMempoolSize limits) := by
  have htrim : ∀ (fuel : Nat) (pool : CTxMemPool), P pool → P (trimToSize limits fuel pool) := by
    intro fuel
    induction fuel with
    | zero => exact fun pool h => h
    | succ fuel ih =>
      intro pool h
      unfold trimToSize
      split
      · exact ih _ (hP.removeStaged h _ false)
      · exact h
  exact htrim _ _ (hP.removeStaged h _ false)

theorem RemovalInvariant.removeMined (h : P pool) (tx : CTransaction) : P (pool.removeMined tx) := by
  refine hP.same (clearPrioritisation_same _ tx.hash) (List.foldlRecOn tx.vin _ ?_ ?_)
  · split
    · exact hP.removeStaged h _ true
    · exact h
  · intro pool h txin _
    unfold removeConflict
    split
    · split
      · exact hP.removeStaged (hP.same (clearPrioritisation_same pool _) h) _ false
      · exact h
    · exact h

theorem RemovalInvariant.removeForBlock (h : P pool) (env : Env) (passes : CTransaction → Bool)
    (vtx : List CTransaction) (data : ConnectedBlockAssetData) :
    P (pool.removeForBlock env passes vtx data) :=
  List.foldlRecOn _ _ (List.foldlRecOn vtx _ h fun _ h tx _ => hP.removeMined h tx)
    fun _ h tx _ => hP.removeMined h tx

end Removal

end CTxMemPool

end HnbCore
