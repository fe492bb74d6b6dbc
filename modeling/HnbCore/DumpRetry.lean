import HnbCore.AssetEvents
import HnbCore.Dump
import HnbCore.Lib.Interrupted

/-!
# A dump that fails

`DumpCacheToDatabase` as the writes it makes, in the order and in the groups in which they are
tried. All of them are decided by the cache alone, and the cache is cleared only at the end, so that
a dump that was given up can be made again.
-/

namespace HnbCore

open List KeyedSet Batch

/-- The keys of the two databases. -/
inductive DumpKey
  | asset (name : Bytes)
  | assetAddressQuantity (name address : Bytes)
  | addressAssetQuantity (address name : Bytes)
  | verifier (name : Bytes)
  | addressQualifier (address name : Bytes)
  | qualifierAddress (name address : Bytes)
  | restrictedAddress (address name : Bytes)
  | globalRestriction (name : Bytes)
  deriving DecidableEq, Repr

inductive DumpValue
  | data (data : CDatabasedAssetData)
  | quantity (amount : CAmount)
  | verifier (verifier : Bytes)
  | flag
  deriving DecidableEq, Repr

abbrev DumpBatch := Batch DumpKey DumpValue

/-- The asset and the restricted database. -/
abbrev DumpDB := KeyedMap DumpKey DumpValue

namespace DumpBatch

def eraseQuantity (name address : Bytes) : DumpBatch :=
  [(.assetAddressQuantity name address, none), (.addressAssetQuantity address name, none)]

def writeQuantity (name address : Bytes) (amount : CAmount) : DumpBatch :=
  [(.assetAddressQuantity name address, some (.quantity amount)),
    (.addressAssetQuantity address name, some (.quantity amount))]

variable (p : CAssetsCache)

def writeAmount (name address : Bytes) : DumpBatch :=
  match AssetState.amountOf p name address with
  | some amount => writeQuantity name address amount
  | none => []

def writeOrEraseAmount (name address : Bytes) : DumpBatch :=
  match AssetState.amountOf p name address with
  | some amount =>
      if amount = 0 then eraseQuantity name address else writeQuantity name address amount
  | none => []

def writePositiveAmount (name address : Bytes) : DumpBatch :=
  match AssetState.amountOf p name address with
  | some amount => if amount > 0 then writeQuantity name address amount else []
  | none => []

variable (fAssetIndex : Bool)

/-- Balances are kept with the asset index only. -/
def indexed (batch : DumpBatch) : DumpBatch :=
  if fAssetIndex then batch else []

/-- The asset goes first; the verifier string and the balance are tried together. -/
def removedAsset (e : CAssetCacheNewAsset) : List DumpBatch :=
  [[(.asset e.asset.strName, none)],
    (.verifier e.asset.strName, none) ::
      indexed fAssetIndex (eraseQuantity e.asset.strName e.address)]

def newAsset (e : CAssetCacheNewAsset) : List DumpBatch :=
  [[(.asset e.asset.strName, some (.data ⟨e.asset, some e.blockHeight, e.blockHash⟩))],
    indexed fAssetIndex (writeQuantity e.asset.strName e.address e.asset.nAmount)]

def reissue (p : CAssetsCache) (e : CAssetCacheReissueAsset) : List DumpBatch :=
  match p.mapReissuedAssetData.find? e.reissue.strName with
  | some (_, asset) =>
      [[(.asset asset.strName, some (.data ⟨asset, e.blockHeight, e.blockHash⟩))],
        indexed fAssetIndex (writePositiveAmount p e.reissue.strName e.address)]
  | none => []

/-- The data and the balance are tried together. -/
def undoneReissue (p : CAssetsCache) (e : CAssetCacheReissueAsset) : List DumpBatch :=
  if p.setNewAssetsToRemove.contains e.reissue.strName then []
  else
    match p.mapReissuedAssetData.find? e.reissue.strName with
    | some (_, asset) =>
        [(.asset asset.strName, some (.data ⟨asset, e.blockHeight, e.blockHash⟩)) ::
          indexed fAssetIndex (writeOrEraseAmount p e.reissue.strName e.address)]
    | none => []

def newVerifier (e : CAssetCacheRestrictedVerifiers) : List DumpBatch :=
  [[(.verifier e.assetName, some (.verifier e.verifier))]]

def undoneVerifier (e : CAssetCacheRestrictedVerifiers) : List DumpBatch :=
  [[(.verifier e.assetName, if e.fUndoingRessiue then some (.verifier e.verifier) else none)]]

/-- The index by qualifier is not tried when the tag itself was refused. -/
def tag (name address : Bytes) (tagged : Bool) : List DumpBatch :=
  let value := if tagged then some DumpValue.flag else none
  [[(.addressQualifier address name, value)],
    indexed fAssetIndex [(.qualifierAddress name address, value)]]

def freeze (name address : Bytes) (type frozen unfrozen : RestrictedType) : List DumpBatch :=
  if type = frozen then [[(.restrictedAddress address name, some .flag)]]
  else if type = unfrozen then [[(.restrictedAddress address name, none)]]
  else []

def globalFreeze (name : Bytes) (type frozen unfrozen : RestrictedType) : List DumpBatch :=
  if type = frozen then [[(.globalRestriction name, some .flag)]]
  else if type = unfrozen then [[(.globalRestriction name, none)]]
  else []

/-- The owners and the transfers. -/
def balances : List DumpBatch :=
  p.setNewOwnerAssetsToRemove.items.map (fun e => eraseQuantity e.assetName e.address) ++
  p.setNewOwnerAssetsToAdd.items.map (fun e => writePositiveAmount p e.assetName e.address) ++
  p.setNewTransferAssetsToRemove.items.map
    (fun e => writeOrEraseAmount p e.transfer.strName e.address) ++
  p.setNewTransferAssetsToAdd.items.map (fun e => writeAmount p e.transfer.strName e.address)

def restrictions (p : CAssetsCache) : List DumpBatch :=
  p.setNewRestrictedVerifierToAdd.items.flatMap newVerifier ++
  p.setNewRestrictedVerifierToRemove.items.flatMap undoneVerifier ++
  p.setNewQualifierAddressToAdd.items.flatMap
    (fun e => tag fAssetIndex e.assetName e.address (e.type = .addQualifier)) ++
  p.setNewQualifierAddressToRemove.items.flatMap
    (fun e => tag fAssetIndex e.assetName e.address (e.type = .removeQualifier)) ++
  p.setNewRestrictedAddressToAdd.items.flatMap
    (fun e => freeze e.assetName e.address e.type .freezeAddress .unfreezeAddress) ++
  p.setNewRestrictedAddressToRemove.items.flatMap
    (fun e => freeze e.assetName e.address e.type .unfreezeAddress .freezeAddress) ++
  p.setNewRestrictedGlobalToAdd.items.flatMap
    (fun e => globalFreeze e.assetName e.type .globalFreeze .globalUnfreeze) ++
  p.setNewRestrictedGlobalToRemove.items.flatMap
    (fun e => globalFreeze e.assetName e.type .globalUnfreeze .globalFreeze)

/-- The spends and the spends that were undone. -/
def spends : List DumpBatch :=
  p.vUndoAssetAmount.map (fun e => writeAmount p e.assetName e.address) ++
  p.vSpentAssets.map (fun e => writeOrEraseAmount p e.assetName e.address)

end DumpBatch

open DumpBatch

/-- All writes of `DumpCacheToDatabase`, group by group. -/
def dumpGroups (fAssetIndex : Bool) (p : CAssetsCache) : List DumpBatch :=
  p.setNewAssetsToRemove.items.flatMap (removedAsset fAssetIndex) ++
  p.setNewAssetsToAdd.items.flatMap (newAsset fAssetIndex) ++
  (if fAssetIndex then balances p else []) ++
  p.setNewReissueToAdd.items.flatMap (reissue fAssetIndex p) ++
  p.setNewReissueToRemove.items.flatMap (undoneReissue fAssetIndex p) ++
  restrictions fAssetIndex p ++
  if fAssetIndex then spends p else []

/-- What a dump leaves: its answer, the databases and the cache. -/
structure DumpResult where
  ok : Bool
  db : DumpDB
  cache : CAssetsCache

/-- `DumpCacheToDatabase` with writes that may fail. The cache is cleared when all is written. -/
def tryDump (results : Nat → Batch.WriteResult) (fAssetIndex : Bool) (p : CAssetsCache)
    (db : DumpDB) : DumpResult :=
  let (db, ok) := runGroups results 0 db (dumpGroups fAssetIndex p)
  ⟨ok, db, if ok then .fresh else p⟩

/-- The keys that `AssetState` has a database for: all but the indexes by address and by qualifier,
which mirror others. -/
def DumpKey.isKept : DumpKey → Bool
  | .addressAssetQuantity _ _ => false
  | .qualifierAddress _ _ => false
  | _ => true

/-- A value of the kind that its key holds. -/
def WellTyped : DumpKey × Option DumpValue → Prop
  | (_, none) => True
  | (.asset name, some (.data data)) => data.asset.strName = name
  | (.assetAddressQuantity _ _, some (.quantity _)) => True
  | (.addressAssetQuantity _ _, some (.quantity _)) => True
  | (.verifier _, some (.verifier _)) => True
  | (.addressQualifier _ _, some .flag) => True
  | (.qualifierAddress _ _, some .flag) => True
  | (.restrictedAddress _ _, some .flag) => True
  | (.globalRestriction _, some .flag) => True
  | _ => False

namespace AssetState

/-- What the databases have under a key. -/
def stored (s : AssetState) : DumpKey → Option DumpValue
  | .asset name => (s.assetsdb.assetData.find? name).map .data
  | .assetAddressQuantity name address =>
      (s.assetsdb.assetAddressQuantity.find? (name, address)).map fun item => .quantity item.2
  | .verifier name => (s.restricteddb.verifiers.find? name).map fun item => .verifier item.2
  | .addressQualifier address name =>
      (s.restricteddb.addressQualifiers.find? (address, name)).map fun _ => .flag
  | .restrictedAddress address name =>
      (s.restricteddb.restrictedAddresses.find? (address, name)).map fun _ => .flag
  | .globalRestriction name => (s.restricteddb.globalRestrictions.find? name).map fun _ => .flag
  | .addressAssetQuantity _ _ => none
  | .qualifierAddress _ _ => none

/-- The caches of flags that were backed by the database still are. -/
structure FlagsStayBacked (hashes : Hashes) (s t : AssetState) : Prop where
  tags : s.TagsBacked hashes → t.TagsBacked hashes
  freezes : s.FreezesBacked hashes → t.FreezesBacked hashes
  globals : s.GlobalsBacked → t.GlobalsBacked

/-- A step of the dump of `p`: the view stays, and the caches stay in step with the databases. -/
structure Stores (hashes : Hashes) (p : CAssetsCache) (s t : AssetState) : Prop
    extends FlagsStayBacked hashes s t where
  view : t.view = s.view
  index : t.fAssetIndex = s.fAssetIndex
  reindex : t.fReindex = s.fReindex
  assets : Named p.mapReissuedAssetData → s.AssetsBacked → t.AssetsBacked

open Stores

/-- With the index as it is, `f` makes these writes, each of the kind that its key holds. -/
structure Makes (hashes : Hashes) (p : CAssetsCache) (fAssetIndex : Bool)
    (f : AssetState → AssetState) (batch : DumpBatch) : Prop where
  stored_eq : ∀ s, s.fAssetIndex = fAssetIndex → ∀ k, k.isKept = true →
    (f s).stored k = after batch k (s.stored k)
  stores : ∀ s, Stores hashes p s (f s)
  typed : ∀ change ∈ batch, WellTyped change

open Makes

variable {hashes : Hashes} {p : CAssetsCache} {fAssetIndex : Bool} {s t u : AssetState}

theorem FlagsStayBacked.refl (s : AssetState) : FlagsStayBacked hashes s s := ⟨id, id, id⟩

theorem FlagsStayBacked.trans (hst : FlagsStayBacked hashes s t) (htu : FlagsStayBacked hashes t u) :
    FlagsStayBacked hashes s u :=
  ⟨fun h => htu.tags (hst.tags h), fun h => htu.freezes (hst.freezes h),
    fun h => htu.globals (hst.globals h)⟩

theorem Stores.refl (s : AssetState) : Stores hashes p s s := ⟨.refl s, rfl, rfl, rfl, fun _ => id⟩

namespace Makes

variable {f g : AssetState → AssetState} {batch batch' : DumpBatch}

theorem pending (q : CAssetsCache) :
    Makes hashes p fAssetIndex (fun s => { s with passets := q }) [] :=
  ⟨fun _ _ _ _ => rfl, fun s => { refl s with }, forall_mem_nil _⟩

theorem nothing : Makes hashes p fAssetIndex (fun s => s) [] :=
  ⟨fun _ _ _ _ => rfl, .refl, forall_mem_nil _⟩

theorem comp (hf : Makes hashes p fAssetIndex f batch) (hg : Makes hashes p fAssetIndex g batch') :
    Makes hashes p fAssetIndex (fun s => g (f s)) (batch ++ batch') where
  stored_eq s hindex k hk := by
    rw [hg.stored_eq (f s) ((hf.stores s).index.trans hindex) k hk, hf.stored_eq s hindex k hk,
      after_append]
  stores s := {
    (hf.stores s).toFlagsStayBacked.trans (hg.stores (f s)).toFlagsStayBacked with
    view := (hg.stores (f s)).view.trans (hf.stores s).view
    index := (hg.stores (f s)).index.trans (hf.stores s).index
    reindex := (hg.stores (f s)).reindex.trans (hf.stores s).reindex
    assets := fun hp h => (hg.stores (f s)).assets hp ((hf.stores s).assets hp h) }
  typed := forall_mem_append.mpr ⟨hf.typed, hg.typed⟩

variable {α : Type} {step : AssetState → α → AssetState} {batchOf : α → DumpBatch} {l : List α}

theorem foldl (h : ∀ a, Makes hashes p fAssetIndex (fun s => step s a) (batchOf a)) (l : List α) :
    Makes hashes p fAssetIndex (fun s => l.foldl step s) (l.flatMap batchOf) := by
  induction l with
  | nil => exact nothing
  | cons a l ih => exact (h a).comp ih

theorem loop {groupsOf : α → List DumpBatch} (hf : Makes hashes p fAssetIndex f batch)
    (h : ∀ a, Makes hashes p fAssetIndex (fun s => step s a) (groupsOf a).flatten) :
    Makes hashes p fAssetIndex (fun s => l.foldl step (f s))
      (batch ++ (l.flatMap groupsOf).flatten) := by
  have hflat : (l.flatMap groupsOf).flatten = l.flatMap fun a => (groupsOf a).flatten := by
    rw [List.flatMap, flatten_flatten, map_map]
    rfl
  rw [hflat]
  exact hf.comp (foldl h l)

theorem amounts (hf : Makes hashes p fAssetIndex f batch)
    (h : ∀ a, Makes hashes p fAssetIndex (fun s => step s a) (indexed fAssetIndex (batchOf a))) :
    Makes hashes p fAssetIndex (fun s => l.foldl step (f s))
      (batch ++ indexed fAssetIndex (l.map batchOf).flatten) := by
  have hflat : indexed fAssetIndex (l.map batchOf).flatten =
      l.flatMap fun a => indexed fAssetIndex (batchOf a) := by
    cases fAssetIndex with
    | false => simp [indexed]
    | true => simp [indexed, List.flatMap]
  rw [hflat]
  exact hf.comp (foldl h l)

end Makes

theorem indexed_append (batch batch' : DumpBatch) :
    indexed fAssetIndex (batch ++ batch') =
      indexed fAssetIndex batch ++ indexed fAssetIndex batch' := by
  cases fAssetIndex <;> rfl

theorem flatten_indexed (groups : List DumpBatch) :
    (if fAssetIndex then groups else []).flatten = indexed fAssetIndex groups.flatten := by
  cases fAssetIndex <;> rfl

variable {name address : Bytes}

theorem makes_eraseQuantity :
    Makes hashes p fAssetIndex (fun s => s.eraseQuantity name address)
      (indexed fAssetIndex (DumpBatch.eraseQuantity name address)) := by
  constructor
  · intro s hindex k hk
    cases fAssetIndex with
    | false => simp [eraseQuantity, indexed, hindex]
    | true =>
      cases k <;> simp_all [eraseQuantity, indexed, DumpBatch.eraseQuantity, stored,
        after_cons, find?_erase, DumpKey.isKept]
      split <;> rfl
  · intro s
    unfold eraseQuantity
    split <;> exact { refl s with }
  · cases fAssetIndex <;> simp [indexed, DumpBatch.eraseQuantity, WellTyped]

theorem makes_writeQuantity {amount : CAmount} :
    Makes hashes p fAssetIndex (fun s => s.writeQuantity name address amount)
      (indexed fAssetIndex (DumpBatch.writeQuantity name address amount)) := by
  constructor
  · intro s hindex k hk
    cases fAssetIndex with
    | false => simp [writeQuantity, indexed, hindex]
    | true =>
      cases k <;> simp_all [writeQuantity, indexed, DumpBatch.writeQuantity, stored,
        after_cons, find?_assign, DumpKey.isKept]
      split <;> rfl
  · intro s
    unfold writeQuantity
    split <;> exact { refl s with }
  · cases fAssetIndex <;> simp [indexed, DumpBatch.writeQuantity, WellTyped]

theorem makes_removedAsset (e : CAssetCacheNewAsset) :
    Makes hashes p fAssetIndex (fun s => s.dumpRemovedAsset e) (removedAsset fAssetIndex e).flatten := by
  have hfirst : Makes hashes p fAssetIndex (fun s : AssetState => { s with
      assetsCache := s.assetsCache.erase e.asset.strName
      assetsdb.assetData := s.assetsdb.assetData.erase e.asset.strName
      restricteddb.verifiers := s.restricteddb.verifiers.erase e.asset.strName })
      [(.asset e.asset.strName, none), (.verifier e.asset.strName, none)] := by
    refine ⟨?_, fun s => ?_, by simp [WellTyped]⟩
    · intro s _ k _
      cases k <;> simp [stored, after_cons, find?_erase]
      all_goals split <;> rfl
    · refine { refl (p := p) s with assets := fun _ h => h.erase_of_update fun name hne => ?_ }
      rw [find?_erase, if_neg (Ne.symm hne)]
  simpa [removedAsset, dumpRemovedAsset] using
    hfirst.comp makes_eraseQuantity

/-- The asset data is written, and the cache of asset data stays in step. -/
theorem makes_assetData {assetsCache : AssetState → Lru Bytes CDatabasedAssetData}
    (data : CDatabasedAssetData) (h : ∀ s, Named p.mapReissuedAssetData → s.AssetsBacked →
      (assetsCache s).Sound (s.assetsdb.assetData.assign data).find?) :
    Makes hashes p fAssetIndex (fun s : AssetState => { s with
      assetsCache := assetsCache s
      assetsdb.assetData := s.assetsdb.assetData.assign data })
      [(.asset data.asset.strName, some (.data data))] := by
  refine ⟨?_, fun s => { refl (p := p) s with assets := h s }, by simp [WellTyped]⟩
  intro s _ k _
  cases k <;> simp [stored, after_cons, find?_assign]
  split <;> rfl

theorem makes_newAsset (e : CAssetCacheNewAsset) :
    Makes hashes p fAssetIndex (fun s => s.dumpNewAsset e) (newAsset fAssetIndex e).flatten := by
  have hdata : Makes hashes p fAssetIndex _ _ :=
    makes_assetData ⟨e.asset, some e.blockHeight, e.blockHash⟩ fun s _ hs =>
      hs.put_of_update (v := ⟨e.asset, some e.blockHeight, e.blockHash⟩)
        (by rw [find?_assign, if_pos rfl])
        fun name hne => by rw [find?_assign, if_neg (Ne.symm hne)]
  simpa [newAsset, dumpNewAsset] using
    hdata.comp makes_writeQuantity

theorem makes_writeAmount :
    Makes hashes p fAssetIndex (fun s => s.writeAmount p name address)
      (indexed fAssetIndex (DumpBatch.writeAmount p name address)) := by
  unfold writeAmount DumpBatch.writeAmount
  cases amountOf p name address with
  | none => simpa [indexed] using nothing
  | some amount => exact makes_writeQuantity

theorem makes_writeOrEraseAmount :
    Makes hashes p fAssetIndex (fun s => s.writeOrEraseAmount p name address)
      (indexed fAssetIndex (DumpBatch.writeOrEraseAmount p name address)) := by
  unfold writeOrEraseAmount DumpBatch.writeOrEraseAmount
  cases amountOf p name address with
  | none => simpa [indexed] using nothing
  | some amount =>
    by_cases hzero : amount = 0
    · simp only [hzero, if_true]
      exact makes_eraseQuantity
    · simp only [hzero, if_false]
      exact makes_writeQuantity

theorem makes_writePositiveAmount :
    Makes hashes p fAssetIndex (fun s => s.writePositiveAmount p name address)
      (indexed fAssetIndex (DumpBatch.writePositiveAmount p name address)) := by
  unfold writePositiveAmount DumpBatch.writePositiveAmount
  cases amountOf p name address with
  | none => simpa [indexed] using nothing
  | some amount =>
    by_cases hpos : amount > 0
    · simp only [hpos, if_true]
      exact makes_writeQuantity
    · simpa [hpos, indexed] using nothing

variable {batch : DumpBatch} {f : AssetState → AssetState}

theorem Makes.balances (hf : Makes hashes p fAssetIndex f batch) :
    Makes hashes p fAssetIndex (fun s => dumpBalances p (f s))
      (batch ++ indexed fAssetIndex (DumpBatch.balances p).flatten) := by
  simp only [DumpBatch.balances, flatten_append, indexed_append, ← append_assoc]
  refine amounts (.amounts (.amounts (.amounts hf ?_) ?_) ?_) ?_
  · exact fun _ => makes_eraseQuantity
  · exact fun _ => makes_writePositiveAmount
  · exact fun _ => makes_writeOrEraseAmount
  · exact fun _ => makes_writeAmount

theorem makes_writeReissued {item : Bytes × CNewAsset}
    (hfind : p.mapReissuedAssetData.find? name = some item) (e : CAssetCacheReissueAsset) :
    Makes hashes p fAssetIndex (fun s => s.writeReissued name item.2 e)
      [(.asset item.2.strName, some (.data ⟨item.2, e.blockHeight, e.blockHash⟩))] := by
  refine makes_assetData _ fun s hp hs => hs.erase_of_update fun other hne => ?_
  have hname := (hp item (mem_of_find? hfind)).trans (key_of_find? hfind)
  rw [find?_assign, if_neg fun h => hne (h.symm.trans hname)]

theorem makes_reissue (e : CAssetCacheReissueAsset) :
    Makes hashes p fAssetIndex (fun s => dumpReissue p s e) (reissue fAssetIndex p e).flatten := by
  unfold dumpReissue reissue
  cases hfind : p.mapReissuedAssetData.find? e.reissue.strName with
  | none => exact nothing
  | some item =>
    simpa using (makes_writeReissued hfind e).comp makes_writePositiveAmount

theorem makes_undoneReissue (e : CAssetCacheReissueAsset) :
    Makes hashes p fAssetIndex (fun s => dumpUndoneReissue p s e)
      (undoneReissue fAssetIndex p e).flatten := by
  unfold dumpUndoneReissue undoneReissue
  by_cases hremoved : p.setNewAssetsToRemove.contains e.reissue.strName = true
  · simp only [hremoved, if_true]
    exact nothing
  · simp only [hremoved, Bool.false_eq_true, if_false]
    cases hfind : p.mapReissuedAssetData.find? e.reissue.strName with
    | none => exact nothing
    | some item =>
      simpa using (makes_writeReissued hfind e).comp makes_writeOrEraseAmount

variable (e : CAssetCacheRestrictedVerifiers)

theorem makes_newVerifier :
    Makes hashes p fAssetIndex (fun s => s.writeVerifier e.assetName e.verifier)
      (newVerifier e).flatten := by
  refine ⟨?_, fun s => { refl s with }, by simp [newVerifier, WellTyped]⟩
  intro s _ k _
  cases k <;> simp [stored, writeVerifier, newVerifier, after_cons, find?_assign]
  split <;> rfl

theorem makes_undoneVerifier :
    Makes hashes p fAssetIndex (fun s => s.dumpUndoneVerifier e) (undoneVerifier e).flatten := by
  cases hundo : e.fUndoingRessiue with
  | true =>
    simp only [undoneVerifier, dumpUndoneVerifier, hundo, if_true]
    exact makes_newVerifier e
  | false =>
    simp only [undoneVerifier, dumpUndoneVerifier, hundo, Bool.false_eq_true, if_false]
    refine ⟨?_, fun s => { refl s with }, by simp [WellTyped]⟩
    intro s _ k _
    cases k <;> simp [stored, after_cons, find?_erase]
    split <;> rfl

variable {cache : Lru Bytes Unit} {pairs : AddressSet} {type frozen unfrozen : RestrictedType}

theorem backed_assign (h : cache.Backed (IsKeyOf hashes pairs)) :
    (cache.put (addressKey hashes name address) ()).Backed
      (IsKeyOf hashes (pairs.assign (address, name))) := by
  refine h.put_of_update ⟨name, address, by simp [contains_assign], rfl⟩ ?_
  rintro key - ⟨name', address', hmem, heq⟩
  exact ⟨name', address', by simp [contains_assign, hmem], heq⟩

/-- A pair is erased, and its key with it: every pair of that key loses its place in the cache. -/
theorem backed_erase (h : cache.Backed (IsKeyOf hashes pairs)) :
    (cache.erase (addressKey hashes name address)).Backed
      (IsKeyOf hashes (pairs.erase (address, name))) := by
  refine h.erase_of_update ?_
  rintro key hne ⟨name', address', hmem, heq⟩
  refine ⟨name', address', ?_, heq⟩
  have hother : (address, name) ≠ (address', name') := by
    rintro hpair
    obtain ⟨rfl, rfl⟩ := Prod.mk.inj hpair
    exact hne heq.symm
  rw [contains_erase, hmem, decide_eq_true hother]
  rfl

theorem makes_tag {tagged : Bool} :
    Makes hashes p fAssetIndex (fun s => setTag hashes s name address tagged)
      (tag fAssetIndex name address tagged).flatten := by
  constructor
  · intro s _ k hk
    cases fAssetIndex <;> cases tagged <;> cases k <;>
      simp_all [stored, setTag, tag, indexed, after_cons, find?_erase,
        find?_assign, DumpKey.isKept]
    all_goals split <;> rfl
  · intro s
    unfold setTag
    split
    · exact { refl s with tags := backed_assign }
    · exact { refl s with tags := backed_erase }
  · cases fAssetIndex <;> cases tagged <;> simp [tag, indexed, WellTyped]

theorem makes_freeze :
    Makes hashes p fAssetIndex (fun s => setFrozen hashes s name address type frozen unfrozen)
      (freeze name address type frozen unfrozen).flatten := by
  unfold setFrozen freeze
  split_ifs
  · refine ⟨fun s _ k _ => ?_, fun s => { refl s with freezes := backed_assign }, by simp [WellTyped]⟩
    cases k <;> simp [stored, after_cons, find?_assign]
    split <;> rfl
  · refine ⟨fun s _ k _ => ?_, fun s => { refl s with freezes := backed_erase }, by simp [WellTyped]⟩
    cases k <;> simp [stored, after_cons, find?_erase]
    split <;> rfl
  · exact nothing

theorem makes_globalFreeze :
    Makes hashes p fAssetIndex (fun s => s.setGloballyFrozen name type frozen unfrozen)
      (globalFreeze name type frozen unfrozen).flatten := by
  unfold setGloballyFrozen globalFreeze
  split_ifs
  · refine ⟨fun s _ k _ => ?_, fun s => ?_, by simp [WellTyped]⟩
    · cases k <;> simp [stored, after_cons, find?_assign]
      split <;> rfl
    · refine { refl s with globals := fun h => h.put_of_update ?_ ?_ }
      · simp [contains_assign]
      · intro name' _ hmem
        simp [contains_assign, hmem]
  · refine ⟨fun s _ k _ => ?_, fun s => ?_, by simp [WellTyped]⟩
    · cases k <;> simp [stored, after_cons, find?_erase]
      split <;> rfl
    · refine { refl s with globals := fun h => h.erase_of_update ?_ }
      intro name' hne hmem
      rw [contains_erase, hmem]
      simpa using Ne.symm hne
  · exact nothing

theorem Makes.restrictions (hf : Makes hashes p fAssetIndex f batch) :
    Makes hashes p fAssetIndex (fun s => dumpRestrictions hashes p (f s))
      (batch ++ (DumpBatch.restrictions fAssetIndex p).flatten) := by
  simp only [DumpBatch.restrictions, flatten_append, ← append_assoc]
  refine loop (.loop (.loop (.loop (.loop (.loop (.loop (.loop hf
    makes_newVerifier) makes_undoneVerifier) ?_) ?_) ?_) ?_) ?_) ?_
  · exact fun _ => makes_tag
  · exact fun _ => makes_tag
  · exact fun _ => makes_freeze
  · exact fun _ => makes_freeze
  · exact fun _ => makes_globalFreeze
  · exact fun _ => makes_globalFreeze

theorem dumpGroups_makes (hashes : Hashes) (fAssetIndex : Bool) (p : CAssetsCache) :
    Makes hashes p fAssetIndex (fun s => { s with passets := p }.dumpCacheToDatabase hashes)
      (dumpGroups fAssetIndex p).flatten := by
  have hstart : Makes hashes p fAssetIndex (fun s => { s with passets := p }) [] := .pending p
  have hassets := (hstart.loop (l := p.setNewAssetsToRemove.items) makes_removedAsset).loop
    (l := p.setNewAssetsToAdd.items) makes_newAsset
  have hreissues := (hassets.balances.loop (l := p.setNewReissueToAdd.items)
    makes_reissue).loop (l := p.setNewReissueToRemove.items) makes_undoneReissue
  have hspends := (hreissues.restrictions.amounts (l := p.vUndoAssetAmount)
    fun e => @makes_writeAmount _ _ _ e.assetName e.address).amounts (l := p.vSpentAssets)
    fun e => @makes_writeOrEraseAmount _ _ _ e.assetName e.address
  have hall := hspends.comp (.pending .fresh)
  simp only [dumpGroups, spends, flatten_append, flatten_indexed, indexed_append,
    ← append_assoc]
  rw [append_nil] at hall
  exact hall

theorem dump_makes (hashes : Hashes) (s : AssetState) (k : DumpKey) (hk : k.isKept = true) :
    (s.dumpCacheToDatabase hashes).stored k =
      after (dumpGroups s.fAssetIndex s.passets).flatten k (s.stored k) :=
  (dumpGroups_makes hashes s.fAssetIndex s.passets).stored_eq s rfl k hk

end AssetState

/-- A dump that failed, made again on the cache it has left, leaves the databases and the cache as
one dump does that does not fail. -/
theorem dump_again (fAssetIndex : Bool) (p : CAssetsCache) (db : DumpDB)
    (results : Nat → Batch.WriteResult) (hfailed : (tryDump results fAssetIndex p db).ok = false) :
    let failed := tryDump results fAssetIndex p db
    let again := tryDump (fun _ => .done) fAssetIndex failed.cache failed.db
    let once := tryDump (fun _ => .done) fAssetIndex p db
    again.ok = true ∧ once.ok = true ∧ again.cache = once.cache ∧
      ∀ k, again.db.find? k = once.db.find? k := by
  have hcache : (tryDump results fAssetIndex p db).cache = p := by
    unfold tryDump at hfailed ⊢
    simp only at hfailed ⊢
    rw [hfailed]
    rfl
  simp only [hcache]
  refine ⟨?_, ?_, ?_, ?_⟩
  · simp only [tryDump, runGroups_done]
  · simp only [tryDump, runGroups_done]
  · simp only [tryDump, runGroups_done]
  · intro k
    exact runGroups_again db (dumpGroups fAssetIndex p) [results] k

/-- A new asset waits to be written. -/
def goldPassets : CAssetsCache :=
  { setNewAssetsToAdd := empty.insert ⟨⟨str "GOLD", 1000, 8, 1, 0, []⟩, str "a", 1, 1⟩ }

/-- The balance is refused after the asset has been written; the second dump completes it. -/
theorem goldPassets_dumped_again :
    let results : Nat → Batch.WriteResult := fun n => if n = 1 then .refused false else .done
    let failed := tryDump results true goldPassets .empty
    failed.ok = false ∧
      (tryDump (fun _ => .done) true failed.cache failed.db).db.find?
          (.assetAddressQuantity (str "GOLD") (str "a")) =
        (tryDump (fun _ => .done) true goldPassets .empty).db.find?
          (.assetAddressQuantity (str "GOLD") (str "a")) := by
  intro results failed
  have hfailed : failed.ok = false := by decide +kernel
  exact ⟨hfailed, (dump_again true goldPassets .empty results hfailed).2.2.2 _⟩

end HnbCore
