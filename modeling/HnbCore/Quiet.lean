import HnbCore.LookupAnswers

/-!
# Lookups and balances

The lookups move entries of the least recently used caches, and payments move balances. Neither
changes what is issued, reissued, tagged, frozen or verified, and the caches stay backed by the
databases.
-/

namespace HnbCore

/-- A cache without its balances, owners and transfers. -/
def CAssetsCache.core (v : CAssetsCache) : CAssetsCache :=
  { v with
    mapAssetsAddressAmount := .empty
    vUndoAssetAmount := []
    vSpentAssets := []
    setNewOwnerAssetsToAdd := .empty
    setNewOwnerAssetsToRemove := .empty
    setNewTransferAssetsToAdd := .empty
    setNewTransferAssetsToRemove := .empty }

/-- `ReadVerifier`. -/
def CRestrictedDB.readVerifier (db : CRestrictedDB) (name : Bytes) :
    Option CNullAssetTxVerifierString :=
  (db.verifiers.find? name).map fun item => ⟨item.2⟩

/-- A set of addresses and names, as the database keeps tags and freezes. -/
abbrev AddressSet := KeyedSet (id : Bytes × Bytes → Bytes × Bytes)

namespace AssetState

/-- The key of a tag or a freeze that the database has. -/
def IsKeyOf (hashes : Hashes) (pairs : AddressSet) (key : Bytes) : Prop :=
  ∃ name address, pairs.contains (address, name) = true ∧ addressKey hashes name address = key

section Backing

variable (hashes : Hashes) (s : AssetState)

def AssetsBacked : Prop := s.assetsCache.Sound s.assetsdb.assetData.find?

def VerifiersBacked : Prop := s.assetsVerifierCache.Sound s.restricteddb.readVerifier

def TagsBacked : Prop :=
  s.assetsQualifierCache.Backed (IsKeyOf hashes s.restricteddb.addressQualifiers)

def FreezesBacked : Prop :=
  s.assetsRestrictionCache.Backed (IsKeyOf hashes s.restricteddb.restrictedAddresses)

def GlobalsBacked : Prop :=
  s.assetsGlobalRestrictionCache.Backed
    fun name => s.restricteddb.globalRestrictions.contains name = true

end Backing

/-- What lies below the view is as it was, apart from the least recently used caches; a cache that
was backed by its database still is. -/
structure SameGround (hashes : Hashes) (s t : AssetState) : Prop where
  passets : t.passets = s.passets
  assetsdb : t.assetsdb = s.assetsdb
  restricteddb : t.restricteddb = s.restricteddb
  reindex : t.fReindex = s.fReindex
  assets : s.AssetsBacked → t.AssetsBacked
  verifiers : s.VerifiersBacked → t.VerifiersBacked
  tags : s.TagsBacked hashes → t.TagsBacked hashes
  freezes : s.FreezesBacked hashes → t.FreezesBacked hashes
  globals : s.GlobalsBacked → t.GlobalsBacked

/-- Only the least recently used caches and the balances differ. -/
structure Quiet (hashes : Hashes) (s t : AssetState) : Prop extends SameGround hashes s t where
  view : t.view.core = s.view.core

variable {hashes : Hashes}

theorem sameGround_view (s : AssetState) (v : CAssetsCache) :
    SameGround hashes s { s with view := v } :=
  ⟨rfl, rfl, rfl, rfl, id, id, id, id, id⟩

theorem SameGround.refl (s : AssetState) : SameGround hashes s s := sameGround_view s s.view

theorem SameGround.trans {s t u : AssetState} (hst : SameGround hashes s t)
    (htu : SameGround hashes t u) : SameGround hashes s u where
  passets := htu.passets.trans hst.passets
  assetsdb := htu.assetsdb.trans hst.assetsdb
  restricteddb := htu.restricteddb.trans hst.restricteddb
  reindex := htu.reindex.trans hst.reindex
  assets h := htu.assets (hst.assets h)
  verifiers h := htu.verifiers (hst.verifiers h)
  tags h := htu.tags (hst.tags h)
  freezes h := htu.freezes (hst.freezes h)
  globals h := htu.globals (hst.globals h)

theorem Quiet.refl (s : AssetState) : Quiet hashes s s := ⟨.refl s, rfl⟩

theorem Quiet.trans {s t u : AssetState} (hst : Quiet hashes s t) (htu : Quiet hashes t u) :
    Quiet hashes s u :=
  ⟨hst.toSameGround.trans htu.toSameGround, htu.view.trans hst.view⟩

variable {env : Env} {name address : Bytes} {skip : Bool} {out : COutPoint} {txOut : CTxOut}
  {transfer : CAssetTransfer} (s : AssetState)

theorem readAssetData_quiet : Quiet hashes s (s.readAssetData name).2 := by
  unfold readAssetData
  cases hget : s.assetsCache.get name with | mk found cache =>
  have hcache : cache = (s.assetsCache.get name).2 := by rw [hget]
  cases found with
  | some data => exact { Quiet.refl s with assets := fun h => hcache ▸ h.get name }
  | none =>
    cases hdb : s.assetsdb.assetData.find? name with
    | none => exact .refl s
    | some data =>
      refine { Quiet.refl s with assets := fun h => h.put ?_ }
      rw [KeyedSet.key_of_find? hdb]
      exact hdb

theorem assetIsStored_quiet : Quiet hashes s (s.assetIsStored name).2 := by
  unfold assetIsStored
  split
  · exact .refl s
  · cases hdb : s.assetsdb.assetData.find? name with
    | none => exact .refl s
    | some data =>
      refine { Quiet.refl s with assets := fun h => h.put ?_ }
      rw [KeyedSet.key_of_find? hdb]
      exact hdb

theorem checkIfAssetExists_quiet (name : Bytes) (force : Bool) (s : AssetState) :
    Quiet hashes s (checkIfAssetExists name force s).2 := by
  unfold checkIfAssetExists
  split_ifs <;> first | exact .refl s | exact assetIsStored_quiet s

theorem getAssetMetaDataIfExists_quiet (name : Bytes) (s : AssetState) :
    Quiet hashes s (getAssetMetaDataIfExists name s).2 := by
  unfold getAssetMetaDataIfExists
  split
  · exact .refl s
  · split
    · exact .refl s
    · exact readAssetData_quiet s

theorem getAssetVerifierStringIfExists_quiet :
    Quiet hashes s (getAssetVerifierStringIfExists name skip s).2 := by
  unfold getAssetVerifierStringIfExists
  split
  · exact .refl s
  · cases hget : s.assetsVerifierCache.get name with | mk found cache =>
    have hcache : cache = (s.assetsVerifierCache.get name).2 := by rw [hget]
    cases found with
    | some verifier => exact { Quiet.refl s with verifiers := fun h => hcache ▸ h.get name }
    | none =>
      dsimp only
      split
      · rename_i hdb
        exact { Quiet.refl s with
          verifiers := fun h => h.put (by rw [CRestrictedDB.readVerifier, hdb]; rfl) }
      · exact .refl s

theorem checkForAddressQualifier_quiet :
    Quiet hashes s (checkForAddressQualifier hashes name address skip s).2 := by
  unfold checkForAddressQualifier
  dsimp only
  repeat' split
  all_goals first
    | exact .refl s
    | exact { Quiet.refl s with tags := fun h => h.put ⟨name, address, by assumption, rfl⟩ }

theorem checkForAddressRestriction_quiet :
    Quiet hashes s (checkForAddressRestriction hashes name address skip s).2 := by
  unfold checkForAddressRestriction
  dsimp only
  repeat' split
  all_goals first
    | exact .refl s
    | exact { Quiet.refl s with freezes := fun h => h.put ⟨name, address, by assumption, rfl⟩ }

theorem checkForGlobalRestriction_quiet :
    Quiet hashes s (checkForGlobalRestriction name skip s).2 := by
  unfold checkForGlobalRestriction
  repeat' split
  all_goals first
    | exact .refl s
    | exact { Quiet.refl s with globals := fun h => h.put (by assumption) }

theorem quiet_view {s : AssetState} {v : CAssetsCache} (h : v.core = s.view.core) :
    Quiet hashes s { s with view := v } :=
  { Quiet.refl s with view := h }

theorem setAmount_quiet {amount : CAmount} :
    Quiet hashes s (s.setAmount name address amount) := quiet_view rfl

theorem getBestAssetAddressAmount_quiet (name address : Bytes) (s : AssetState) :
    Quiet hashes s (getBestAssetAddressAmount name address s).2 := by
  unfold getBestAssetAddressAmount
  split
  · split
    · exact .refl s
    · split
      · exact quiet_view rfl
      · exact .refl s
  · exact .refl s

theorem updateBalance_quiet {f : CAmount → CAmount} :
    Quiet hashes s (updateBalance name address f s) := by
  unfold updateBalance
  split
  · exact (getBestAssetAddressAmount_quiet name address s).trans (setAmount_quiet _)
  · exact .refl s

theorem addTransferAsset_quiet : Quiet hashes s (addTransferAsset transfer address out s) :=
  (updateBalance_quiet s).trans (quiet_view rfl)

theorem addOwnerAsset_quiet : Quiet hashes s (addOwnerAsset name address s) := by
  unfold addOwnerAsset
  dsimp only
  split <;> exact quiet_view rfl

theorem removeOwnerAsset_quiet : Quiet hashes s (removeOwnerAsset name address s) := by
  unfold removeOwnerAsset
  dsimp only
  split <;> exact quiet_view rfl

theorem takeOff_quiet {nAmount : CAmount} : Quiet hashes s (takeOff name address nAmount s) := by
  have hbest : Quiet hashes s _ := getBestAssetAddressAmount_quiet name address s
  unfold takeOff
  split
  · split <;> rename_i hfound <;> rw [hfound] at hbest
    · exact hbest
    · exact hbest.trans (quiet_view rfl)
  · exact .refl s

theorem trySpendCoin_quiet : Quiet hashes s (trySpendCoin env txOut s).2 := by
  unfold trySpendCoin
  split
  · split
    · exact .refl s
    · split
      · exact .refl s
      · exact takeOff_quiet s
  · exact .refl s

theorem takeReissuedAmount_quiet {reissue : CReissueAsset} :
    Quiet hashes s (takeReissuedAmount reissue address s).2 := by
  have hbest : Quiet hashes s _ := getBestAssetAddressAmount_quiet reissue.strName address s
  unfold takeReissuedAmount
  split
  · split <;> rename_i hfound <;> rw [hfound] at hbest
    · split
      · exact hbest
      · exact hbest.trans (setAmount_quiet _)
    · exact hbest.trans (setAmount_quiet _)
  · exact .refl s

theorem takeTransferredAmount_quiet (transfer : CAssetTransfer) (address : Bytes)
    (s : AssetState) : Quiet hashes s (takeTransferredAmount transfer address s).2 := by
  have hbest : Quiet hashes s _ := getBestAssetAddressAmount_quiet transfer.strName address s
  unfold takeTransferredAmount
  split
  · split <;> rename_i hfound <;> rw [hfound] at hbest
    · exact hbest
    · split
      · exact hbest
      · exact hbest.trans (setAmount_quiet _)
  · exact .refl s

theorem removeTransfer_quiet : Quiet hashes s (removeTransfer transfer address out s).2 := by
  have htaken : Quiet hashes s _ := takeTransferredAmount_quiet transfer address s
  unfold removeTransfer
  split <;> rename_i hfound <;> rw [hfound] at htaken
  · exact htaken
  · exact htaken.trans (quiet_view rfl)

theorem undoAssetCoin_quiet {coin : Coin} :
    Quiet hashes s (undoAssetCoin env coin s).2 := by
  unfold undoAssetCoin
  split
  · exact .refl s
  · dsimp only
    split
    · exact .refl s
    · exact (updateBalance_quiet s).trans (quiet_view rfl)

end AssetState

end HnbCore
