import HnbCore.NameKinds
import HnbCore.ReorgRestore

/-!
# Who may tag, freeze and reissue

`CheckTransaction` sees outputs only: a change asks for a transfer of the token that controls it.
`CheckTxAssets` then finds every transferred asset among the coins that are spent.
-/

namespace HnbCore

open Checks AssetState List Option

/-- Some coin that the transaction spends carries the token. -/
def CTransaction.SpendsToken (env : Env) (coins : Coins) (tx : CTransaction) (token : Bytes) :
    Prop :=
  ∃ txin ∈ tx.vin, ∃ coin data, coins.accessCoin txin.prevout = some coin ∧
    getAssetData env coin.out.scriptPubKey = some data ∧ data.assetName = token

/-- The names and addresses whose tag or freeze an output changes. -/
def nullDataChange (env : Env) (out : CTxOut) : Option (Bytes × Bytes) :=
  (assetNullDataFromScript env out.scriptPubKey).map fun (data, address) => (data.assetName, address)

/-- The name whose global freeze an output changes. -/
def globalChange (out : CTxOut) : Option Bytes :=
  (globalAssetNullDataFromScript out.scriptPubKey).map (·.assetName)

theorem AssetTotals.contains_add (totals : AssetTotals) (name other : Bytes) (nAmount : CAmount) :
    (totals.add name nAmount).contains other = (decide (name = other) || totals.contains other) := by
  unfold AssetTotals.add
  split
  · exact KeyedSet.contains_assign _ _ _
  · exact KeyedSet.contains_insert _ _ _

section Spent

variable {env : Env} {mempool : MempoolAssets} {coins : Coins} {tx : CTransaction}
  {s t : AssetState}

/-- Every asset in the map of the inputs is carried by a coin of one of them. -/
theorem totalInputs_spent {vin : List CTxIn} {totals : AssetTotals}
    (h : vin.foldlM (checkAssetInput env coins) .empty s = .ok totals t) {name : Bytes}
    (hname : totals.contains name = true) :
    ∃ txin ∈ vin, ∃ coin data, coins.accessCoin txin.prevout = some coin ∧
      getAssetData env coin.out.scriptPubKey = some data ∧ data.assetName = name := by
  let Spent (done : List CTxIn) (totals : AssetTotals) : Prop :=
    totals.contains name = true → ∃ txin ∈ done, ∃ coin data,
      coins.accessCoin txin.prevout = some coin ∧
        getAssetData env coin.out.scriptPubKey = some data ∧ data.assetName = name
  have hstart : Spent [] .empty := by simp [Spent]
  refine run_foldlM_induction hstart (fun done totals txin s totals' t hdone hround => ?_) h hname
  intro hname
  have hearlier : totals.contains name = true → ∃ txin' ∈ done ++ [txin], ∃ coin data,
      coins.accessCoin txin'.prevout = some coin ∧
        getAssetData env coin.out.scriptPubKey = some data ∧ data.assetName = name := by
    intro hold
    obtain ⟨txin', hmem, hspent⟩ := hdone hold
    exact ⟨txin', mem_append_left _ hmem, hspent⟩
  obtain ⟨coin, hcoin, ⟨-, rfl⟩ | ⟨data, hdata, rfl⟩⟩ := checkAssetInput_totals hround
  · exact hearlier hname
  · rw [AssetTotals.contains_add, Bool.or_eq_true, decide_eq_true_eq] at hname
    rcases hname with hnamed | hold
    · exact ⟨txin, by simp, coin, data, hcoin, hdata, hnamed⟩
    · exact hearlier hold

theorem totalOutputs_transferred {vout : List CTxOut} {scan : AssetOutputScan}
    (h : vout.foldlM (checkAssetOutput env mempool tx) {} s = .ok scan t) {out : CTxOut}
    (hout : out ∈ vout) {transfer : CAssetTransfer} {address : Bytes}
    (hfrom : transferAssetFromScript env out.scriptPubKey = some (transfer, address)) :
    scan.totalOutputs.contains transfer.strName = true := by
  let Listed (done : List CTxOut) (scan : AssetOutputScan) : Prop :=
    ∀ out ∈ done, ∀ transfer address,
      transferAssetFromScript env out.scriptPubKey = some (transfer, address) →
        scan.totalOutputs.contains transfer.strName = true
  have hstart : Listed [] {} := by simp [Listed]
  refine run_foldlM_induction hstart (fun done scan txout s scan' t hdone hround => ?_) h out hout
    transfer address hfrom
  intro out hout transfer address hfrom
  rcases checkAssetOutput_totals hround with ⟨hnone, hsame⟩ | ⟨found, _, hfound, hadd⟩
  · rw [hsame]
    rcases mem_append.mp hout with hold | hnew
    · exact hdone out hold transfer address hfrom
    · rw [mem_singleton.mp hnew, hnone] at hfrom
      cases hfrom
  · rw [hadd, AssetTotals.contains_add, Bool.or_eq_true, decide_eq_true_eq]
    rcases mem_append.mp hout with hold | hnew
    · exact .inr (hdone out hold transfer address hfrom)
    · rw [mem_singleton.mp hnew, hfound, some.injEq, Prod.mk.injEq] at hfrom
      exact .inl (by rw [hfrom.1])

/-- An accepted transaction spends every asset that it transfers. -/
theorem spendsToken_of_transfer {fCheckMempool : Bool} {pairs : List (Bytes × UInt256)}
    {token : Bytes} (h : checkTxAssets env mempool coins tx fCheckMempool s = .ok pairs t)
    (htransfer : TransfersToken env tx token) : tx.SpendsToken env coins token := by
  obtain ⟨out, hout, transfer, address, hfrom, rfl⟩ := htransfer
  simp only [checkTxAssets, run_bind_eq_ok, run_lift_eq_ok] at h
  obtain ⟨_, _, _, totalInputs, _, hin, scan, _, hscan, _, _, _, _, _, ⟨hcompare, _⟩, _⟩ := h
  have hlisted := totalOutputs_transferred hscan hout hfrom
  obtain ⟨entry, hentry, hname⟩ := KeyedSet.contains_iff.mp hlisted
  simp only [compareTotals, bind_eq_ok, forM_eq_ok, demand_eq_ok] at hcompare
  obtain ⟨_, hall, -⟩ := hcompare
  obtain ⟨input, hfind, -⟩ := hall entry hentry
  refine totalInputs_spent hin ?_
  rw [KeyedSet.contains, show transfer.strName = entry.1 from hname.symm, hfind]
  rfl

end Spent

/-- What the output loop of `CheckTransaction` knows about the outputs it has seen. -/
structure Scanned (env : Env) (done : List CTxOut) (scan : OutputScan) : Prop where
  transfers : ∀ name ∈ scan.setAssetTransferNames, ∃ out ∈ done, ∃ transfer address,
    transferAssetFromScript env out.scriptPubKey = some (transfer, address) ∧
      transfer.strName = name
  changes : scan.mapNullDataTxCount = (done.filterMap (nullDataChange env)).reverse
  changes_nodup : scan.mapNullDataTxCount.Nodup
  globals : scan.setNullGlobalAssetChanges = (done.filterMap globalChange).reverse
  globals_nodup : scan.setNullGlobalAssetChanges.Nodup

section Scan

variable {env : Env} {s t : OutputScan} {out : CTxOut} {fMempoolCheck fBlockCheck : Bool}

theorem nullDataChange_eq_none (h : out.scriptPubKey.isNullAssetTxDataScript = false) :
    nullDataChange env out = none := by
  simp [nullDataChange, assetNullDataFromScript, fromScript, h]

theorem globalChange_eq_none
    (h : out.scriptPubKey.isNullGlobalRestrictionAssetTxDataScript = false) :
    globalChange out = none := by
  simp [globalChange, globalAssetNullDataFromScript, h]

/-- The second byte tells a tag or freeze from a global freeze. -/
theorem not_global_of_nullData (h : out.scriptPubKey.isNullAssetTxDataScript = true) :
    out.scriptPubKey.isNullGlobalRestrictionAssetTxDataScript = false := by
  simp only [CScript.isNullAssetTxDataScript, Bool.and_eq_true, decide_eq_true_eq] at h
  simp [CScript.isNullGlobalRestrictionAssetTxDataScript, h.2, opReserved]

/-- The changes an output makes are noted, and none was made by an earlier output. -/
theorem checkNullAssetOut_notes (h : checkNullAssetOut env s out = .ok t) :
    t.setAssetTransferNames = s.setAssetTransferNames ∧
      t.mapNullDataTxCount = (nullDataChange env out).toList ++ s.mapNullDataTxCount ∧
      (∀ change ∈ nullDataChange env out, change ∉ s.mapNullDataTxCount) ∧
      t.setNullGlobalAssetChanges = (globalChange out).toList ++ s.setNullGlobalAssetChanges ∧
      ∀ name ∈ globalChange out, name ∉ s.setNullGlobalAssetChanges := by
  unfold checkNullAssetOut at h
  split at h
  case isTrue hdata =>
    simp only [bind_eq_ok, require_eq_ok, dos_eq_ok, pure_eq_ok] at h
    obtain ⟨⟨data, address⟩, hfrom, _, _, _, hnew, rfl⟩ := h
    have hchange : nullDataChange env out = some (data.assetName, address) := by
      rw [nullDataChange, hfrom]
      rfl
    have hglobal : globalChange out = none := globalChange_eq_none (not_global_of_nullData hdata)
    rw [hchange, hglobal]
    exact ⟨rfl, rfl, by simpa using hnew, rfl, by simp⟩
  case isFalse hdata =>
    have hnone : nullDataChange env out = none := nullDataChange_eq_none (by simpa using hdata)
    rw [hnone]
    split at h
    case isTrue hglobal =>
      simp only [bind_eq_ok, require_eq_ok, dos_eq_ok, pure_eq_ok] at h
      obtain ⟨data, hfrom, _, _, _, hnew, rfl⟩ := h
      have hchange : globalChange out = some data.assetName := by
        rw [globalChange, hfrom]
        rfl
      rw [hchange]
      exact ⟨rfl, rfl, by simp, rfl, by simpa using hnew⟩
    case isFalse hglobal =>
      rw [globalChange_eq_none (by simpa using hglobal)]
      split at h
      · simp only [bind_eq_ok, pure_eq_ok] at h
        obtain ⟨_, _, _, _, rfl⟩ := h
        exact ⟨rfl, rfl, by simp, rfl, by simp⟩
      · obtain rfl := pure_eq_ok.mp h
        exact ⟨rfl, rfl, by simp, rfl, by simp⟩

theorem checkAssetOut_cases (h : checkAssetOut env fMempoolCheck fBlockCheck s out = .ok t) :
    t.mapNullDataTxCount = s.mapNullDataTxCount ∧
      t.setNullGlobalAssetChanges = s.setNullGlobalAssetChanges ∧
      ∀ name ∈ t.setAssetTransferNames, name ∈ s.setAssetTransferNames ∨
        ∃ transfer address,
          transferAssetFromScript env out.scriptPubKey = some (transfer, address) ∧
            transfer.strName = name := by
  have hsame : ∀ {u : OutputScan}, u = s → u.mapNullDataTxCount = s.mapNullDataTxCount ∧
      u.setNullGlobalAssetChanges = s.setNullGlobalAssetChanges ∧
      ∀ name ∈ u.setAssetTransferNames, name ∈ s.setAssetTransferNames ∨
        ∃ transfer address,
          transferAssetFromScript env out.scriptPubKey = some (transfer, address) ∧
            transfer.strName = name := by
    rintro u rfl
    exact ⟨rfl, rfl, fun name hname => .inl hname⟩
  unfold checkAssetOut at h
  split at h
  · exact hsame (pure_eq_ok.mp h).symm
  · split at h
    · simp only [checkTransferOut, bind_eq_ok, require_eq_ok, pure_eq_ok] at h
      obtain ⟨⟨transfer, address⟩, hfrom, _, _, _, _, _, _, _, _, _, _, rfl⟩ := h
      refine ⟨rfl, rfl, fun name hname => ?_⟩
      rcases mem_cons.mp hname with rfl | hold
      · exact .inr ⟨transfer, address, hfrom, rfl⟩
      · exact .inl hold
    · simp only [bind_eq_ok, pure_eq_ok] at h
      obtain ⟨_, _, rfl⟩ := h
      exact hsame rfl
    · simp only [bind_eq_ok, pure_eq_ok] at h
      obtain ⟨_, _, _, _, rfl⟩ := h
      exact hsame rfl
    · cases h

theorem nodup_toList_append {β : Type} {change : Option β} {l : List β}
    (hnew : ∀ b ∈ change, b ∉ l) (hl : l.Nodup) : (change.toList ++ l).Nodup := by
  cases change with
  | none => exact hl
  | some b => exact nodup_cons.mpr ⟨hnew b rfl, hl⟩

theorem filterMap_snoc_reverse {β : Type} (f : CTxOut → Option β) (done : List CTxOut) :
    ((done ++ [out]).filterMap f).reverse = (f out).toList ++ (done.filterMap f).reverse := by
  cases hf : f out <;> simp [hf]

theorem Scanned.step {done : List CTxOut} (hs : Scanned env done s)
    (h : checkOut env fMempoolCheck fBlockCheck s out = .ok t) : Scanned env (done ++ [out]) t := by
  simp only [checkOut, bind_eq_ok] at h
  obtain ⟨_, _, _, _, _, _, u, hnull, hasset⟩ := h
  obtain ⟨hnames, hchanges, hnew, hglobals, hnewGlobal⟩ := checkNullAssetOut_notes hnull
  obtain ⟨hmap, hset, htransfers⟩ := checkAssetOut_cases hasset
  rw [hchanges] at hmap
  rw [hglobals] at hset
  refine ⟨fun name hname => ?_, ?_, ?_, ?_, ?_⟩
  · rcases htransfers name hname with hold | hfound
    · rw [hnames] at hold
      obtain ⟨out', hmem, hfound⟩ := hs.transfers name hold
      exact ⟨out', mem_append_left _ hmem, hfound⟩
    · exact ⟨out, by simp, hfound⟩
  · rw [hmap, filterMap_snoc_reverse, ← hs.changes]
  · rw [hmap]
    exact nodup_toList_append hnew hs.changes_nodup
  · rw [hset, filterMap_snoc_reverse, ← hs.globals]
  · rw [hset]
    exact nodup_toList_append hnewGlobal hs.globals_nodup

theorem scanned_of_outputs {vout : List CTxOut}
    (h : vout.foldlM (checkOut env fMempoolCheck fBlockCheck) OutputScan.start = .ok t) :
    Scanned env vout t := by
  have hstart : Scanned env [] OutputScan.start :=
    ⟨fun name hname => absurd hname not_mem_nil, rfl, nodup_nil, rfl, nodup_nil⟩
  exact foldlM_induction hstart (fun done s out t hs hround => hs.step hround) h

end Scan

/-- An accepted transaction spends a coin that carries the qualifier of every tag it changes, the
owner token of every restricted asset it freezes or unfreezes, and the owner token of the asset it
reissues; and it changes nothing twice. -/
theorem changes_authorised (env : Env) (mempool : MempoolAssets) (coins : Coins)
    (tx : CTransaction) (fCheckDuplicateInputs fMempoolCheck fBlockCheck fCheckMempool : Bool)
    (s t : AssetState) (pairs : List (Bytes × UInt256))
    (hcheck : checkTransaction env tx fCheckDuplicateInputs fMempoolCheck fBlockCheck = .ok ())
    (hassets : checkTxAssets env mempool coins tx fCheckMempool s = .ok pairs t) :
    (∀ out ∈ tx.vout, ∀ data address,
      assetNullDataFromScript env out.scriptPubKey = some (data, address) →
        (isAssetNameAQualifier data.assetName false = true →
          tx.SpendsToken env coins data.assetName) ∧
        ∀ root, data.assetName = restrictedChar :: root →
          tx.SpendsToken env coins (root ++ ownerTag)) ∧
    (∀ out ∈ tx.vout, ∀ data, globalAssetNullDataFromScript out.scriptPubKey = some data →
      ∀ root, data.assetName = restrictedChar :: root →
        tx.SpendsToken env coins (root ++ ownerTag)) ∧
    (∀ out ∈ tx.vout, ∀ reissue address,
      reissueAssetFromScript env out.scriptPubKey = some (reissue, address) →
        tx.SpendsToken env coins
          (if isAssetNameAnRestricted reissue.strName then reissue.strName.drop 1 ++ ownerTag
            else reissue.strName ++ ownerTag)) ∧
    (tx.vout.filterMap (nullDataChange env)).Nodup ∧ (tx.vout.filterMap globalChange).Nodup := by
  have hacc := checkTransaction_accepted hcheck
  simp only [checkTransaction, bind_eq_ok] at hcheck
  obtain ⟨_, _, _, _, _, _, scan, hscan, _, _, _, hnames, _⟩ := hcheck
  have hscanned := scanned_of_outputs hscan
  have hspends : ∀ {token : Bytes}, token ∈ scan.setAssetTransferNames →
      tx.SpendsToken env coins token := fun htoken =>
    spendsToken_of_transfer hassets (hscanned.transfers _ htoken)
  simp only [checkNullNames, bind_eq_ok, forM_eq_ok] at hnames
  obtain ⟨_, hchanges, hglobals⟩ := hnames
  refine ⟨?_, ?_, ?_, ?_, ?_⟩
  · intro out hout data address hfrom
    have hmem : (data.assetName, address) ∈ scan.mapNullDataTxCount := by
      rw [hscanned.changes, mem_reverse]
      refine mem_filterMap.mpr ⟨out, hout, ?_⟩
      rw [nullDataChange, hfrom]
      rfl
    have hasked := hchanges _ hmem
    refine ⟨fun hqualifier => ?_, fun root hroot => ?_⟩
    · rw [if_neg (not_restrictedChar_of_qualifier hqualifier), dos_eq_ok] at hasked
      exact hspends (List.contains_iff_mem.mp hasked)
    · simp only [hroot, headD_cons, if_true, dos_eq_ok] at hasked
      exact hspends (List.contains_iff_mem.mp hasked)
  · intro out hout data hfrom root hroot
    have hmem : data.assetName ∈ scan.setNullGlobalAssetChanges := by
      rw [hscanned.globals, mem_reverse]
      refine mem_filterMap.mpr ⟨out, hout, ?_⟩
      rw [globalChange, hfrom]
      rfl
    have hasked := hglobals _ hmem
    simp only [dos_eq_ok, hroot] at hasked
    obtain ⟨_, _, hasked⟩ := hasked
    exact hspends (List.contains_iff_mem.mp hasked)
  · intro out hout reissue address hfrom
    obtain ⟨flags, hkind⟩ := hacc.kind
    obtain ⟨hverify, hscript⟩ := reissue_is_last hacc.vout_ne_nil hkind hout
      (isReissueAsset_of_reissueAssetFromScript hfrom)
    obtain ⟨reissue', address', hlast, htransfer, -⟩ := verifyReissueAsset_ok hverify
    rw [hscript, hlast, some.injEq, Prod.mk.injEq] at hfrom
    obtain ⟨rfl, rfl⟩ := hfrom
    have hspent := spendsToken_of_transfer hassets htransfer
    unfold CReissueAsset.ownerToken at hspent
    simp only [assetTypeOf_eq_restricted_iff] at hspent
    split
    · rwa [if_pos ‹_›] at hspent
    · rwa [if_neg ‹_›] at hspent
  · rw [← nodup_reverse, ← hscanned.changes]
    exact hscanned.changes_nodup
  · rw [← nodup_reverse, ← hscanned.globals]
    exact hscanned.globals_nodup

/-- The reissue of gold spends the owner token of gold. -/
theorem moreGold_authorised :
    (wholeGoldReissueTx 51 0 ⟨1, 2⟩ moreGold).SpendsToken regTestChain.toEnv wholeGoldNode.coins
      (str "GOLD" ++ ownerTag) := by
  have hcheck : checkTransaction regTestChain.toEnv (wholeGoldReissueTx 51 0 ⟨1, 2⟩ moreGold) true
      false true = .ok () := by decide +kernel
  have hok : succeeded (checkTxAssets regTestChain.toEnv {} wholeGoldNode.coins
      (wholeGoldReissueTx 51 0 ⟨1, 2⟩ moreGold) false wholeGoldNode.assets) = true := by
    decide +kernel
  obtain ⟨pairs, t, hassets⟩ := succeeded_iff.mp hok
  let out : CTxOut := ⟨0, moreGold.constructTransaction (scriptForKeyID issuerKey)⟩
  have hfrom : reissueAssetFromScript regTestChain.toEnv out.scriptPubKey =
      some (moreGold, regTestChain.addressOf out.scriptPubKey) := by decide +kernel
  have hout : out ∈ (wholeGoldReissueTx 51 0 ⟨1, 2⟩ moreGold).vout := by
    simp [wholeGoldReissueTx, out]
  have hspent := (changes_authorised regTestChain.toEnv {} wholeGoldNode.coins _ true false true
    false wholeGoldNode.assets t pairs hcheck hassets).2.2.1 out hout moreGold _ hfrom
  have hname : isAssetNameAnRestricted moreGold.strName = false := by decide +kernel
  rwa [hname] at hspent

end HnbCore
