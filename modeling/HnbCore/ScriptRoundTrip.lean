import HnbCore.AssetConservation
import HnbCore.AssetHolder

/-!
# Asset records through a script

A record is serialized behind the marker of an asset script and read back from it. Optional fields
have no marker of their own: the reader goes by how many bytes are left, and every script ends with
one byte that is not part of the record.
-/

namespace HnbCore

open Checks List Option CScript CAssetTransfer Int

variable {rest s : Bytes} {n : Int} {asset : CNewAsset} {transfer : CAssetTransfer}

section Streams

variable {α β : Type}

/-- The reader takes these bytes off the front of any stream, and the value is what it makes of
them. -/
def ReadsOff (r : Reader α) (bytes : Bytes) (a : α) : Prop :=
  ∀ rest, r (bytes ++ rest) = some (a, rest)

variable {a : α} {r : Reader α} {bytes : Bytes} {width : Nat}

theorem reader_bind (h : r s = some (a, rest)) (f : α → Reader β) :
    (r >>= f) s = f a rest := by
  simp only [bind, StateT.bind, h, bind_some]

theorem ReadsOff.run_bind (h : ReadsOff r bytes a)
    (f : α → Reader β) (rest : Bytes) : (r >>= f) (bytes ++ rest) = f a rest :=
  reader_bind (h rest) f

theorem remaining_bind (f : Nat → Reader β) (s : Bytes) : (remaining >>= f) s = f s.length s := rfl

theorem ReadsOff.map (h : ReadsOff r bytes a)
    (f : α → β) : ReadsOff (do return f (← r)) bytes (f a) := by
  intro rest
  rw [h.run_bind]
  rfl

theorem readBytes_readsOff (bytes : Bytes) : ReadsOff (readBytes bytes.length) bytes bytes := by
  intro rest
  simp [readBytes]

theorem length_leBytes (width n : Nat) : (leBytes width n).length = width := by
  induction width generalizing n with
  | zero => rfl
  | succ width ih => simp [leBytes, ih]

theorem leNat_leBytes {n : Nat} (h : n < 256 ^ width) : leNat (leBytes width n) = n := by
  induction width generalizing n with
  | zero =>
    have hn : n = 0 := by simpa using h
    simp [leBytes, leNat, hn]
  | succ width ih =>
    have hdiv : n / 256 < 256 ^ width := by
      rw [Nat.div_lt_iff_lt_mul (by decide), ← pow_succ]
      exact h
    have hbyte : (UInt8.ofNat n).toNat = n % 256 := by simp
    rw [leBytes, leNat, ih hdiv, hbyte]
    exact Nat.mod_add_div n 256

theorem readLE_leBytes {n : Nat} (h : n < 256 ^ width) :
    ReadsOff (readLE width) (leBytes width n) n := by
  have hread := (readBytes_readsOff (leBytes width n)).map leNat
  rw [length_leBytes, leNat_leBytes h] at hread
  exact hread

theorem readInt8_writeInt8 (hlow : -2 ^ 7 ≤ n) (hhigh : n < 2 ^ 7) :
    ReadsOff readInt8 (writeInt8 n) n := by
  have hlt : (n % 2 ^ 8).toNat < 256 ^ 1 := by omega
  have hread := (readLE_leBytes hlt).map fun m => (ofNat m).bmod (2 ^ 8)
  have hval : (ofNat (n % 2 ^ 8).toNat).bmod (2 ^ 8) = n := by
    have hnonneg : 0 ≤ n % 2 ^ 8 := emod_nonneg _ (by decide)
    rw [ofNat_eq_natCast, toNat_of_nonneg hnonneg]
    exact (emod_bmod n (2 ^ 8)).trans (bmod_eq_of_le (by omega) (by omega))
  rw [hval] at hread
  exact hread

theorem readInt64_writeInt64 (hlow : -2 ^ 63 ≤ n) (hhigh : n < 2 ^ 63) :
    ReadsOff readInt64 (writeInt64 n) n := by
  have hlt : (n % 2 ^ 64).toNat < 256 ^ 8 := by omega
  have hread := (readLE_leBytes hlt).map fun m => int64 (ofNat m)
  have hval : int64 (ofNat (n % 2 ^ 64).toNat) = n := by
    have hnonneg : 0 ≤ n % 2 ^ 64 := emod_nonneg _ (by decide)
    rw [int64, ofNat_eq_natCast, toNat_of_nonneg hnonneg]
    exact (emod_bmod n (2 ^ 64)).trans (bmod_eq_of_le (by omega) (by omega))
  rw [hval] at hread
  exact hread

/-- Names and hashes are short enough for a size of one byte. -/
theorem readString_writeString (h : s.length < 253) : ReadsOff readString (writeString s) s := by
  have hmax : ¬s.length > maxSize := by
    rw [maxSize]
    omega
  have hsize : ReadsOff readCompactSize (writeCompactSize s.length) s.length := by
    intro rest
    have hread := readLE_leBytes (show s.length < 256 ^ 1 by omega)
    rw [writeCompactSize, if_pos h, readCompactSize, hread.run_bind]
    rw [if_pos h, pure_bind]
    beta_reduce
    rw [if_neg hmax]
    rfl
  intro rest
  rw [writeString, append_assoc, readString, hsize.run_bind]
  exact readBytes_readsOff s rest

end Streams

/-- The hashes that come back as they were: of 34 bytes only the last 32 are written, and the
reader puts `0x12 0x20` in front of them. -/
def HashKept (hash : Bytes) : Prop :=
  hash.length = 34 → hash.take 2 = [ipfsSha2256, ipfsSha2256Len]

instance (hash : Bytes) : Decidable (HashKept hash) :=
  inferInstanceAs (Decidable (_ → _))

/-- With no hash in front, too few bytes are left for one. -/
theorem readAssetHash_short (h : rest.length < 33) :
    readAssetHash rest = some (([], false), rest) := by
  have hshort : ¬rest.length ≥ 33 := by omega
  rw [readAssetHash, remaining_bind, if_neg hshort]
  rfl

variable {hash : Bytes}

/-- A kind byte and 32 bytes with their size are read as a hash. -/
theorem readAssetHash_long (kind : UInt8) (h : hash.length = 32) (rest : Bytes) :
    readAssetHash ([kind] ++ (writeString hash ++ rest)) =
      some (((if [kind] = [ipfsSha2256] then [ipfsSha2256, ipfsSha2256Len] else []) ++ hash, true),
        rest) := by
  have hlong : ([kind] ++ (writeString hash ++ rest)).length ≥ 33 := by
    simp only [writeString, length_append, length_singleton, h]
    omega
  have hkind : ReadsOff (readBytes 1) [kind] [kind] := readBytes_readsOff [kind]
  rw [readAssetHash, remaining_bind, if_pos hlong, hkind.run_bind,
    (readString_writeString (by omega)).run_bind, ← h, take_length]
  rfl

theorem readAssetHash_writeAssetHash (hlen : hash.length = 34 ∨ hash.length = 32)
    (hkept : HashKept hash) (rest : Bytes) :
    (writeAssetHash hash).2 = true ∧
      readAssetHash ((writeAssetHash hash).1 ++ rest) = some ((hash, true), rest) := by
  rcases hlen with hlen | hlen
  · have hdrop : (hash.drop 2).length = 32 := by simp [hlen]
    rw [writeAssetHash, if_pos hlen]
    refine ⟨rfl, ?_⟩
    rw [append_assoc, readAssetHash_long _ hdrop, if_pos rfl, ← hkept hlen,
      take_append_drop]
  · have hne : hash.length ≠ 34 := by omega
    rw [writeAssetHash, if_neg hne, if_pos hlen]
    refine ⟨rfl, ?_⟩
    rw [append_assoc, readAssetHash_long _ hlen, if_neg (by decide), nil_append]

theorem writeAssetHash_nil : writeAssetHash [] = ([], false) := rfl

theorem CNewAsset.unserialize_serialize (hname : asset.strName.length < 253)
    (hamount : -2 ^ 63 ≤ asset.nAmount ∧ asset.nAmount < 2 ^ 63)
    (hunits : -2 ^ 7 ≤ asset.units ∧ asset.units < 2 ^ 7)
    (hreissuable : -2 ^ 7 ≤ asset.nReissuable ∧ asset.nReissuable < 2 ^ 7)
    (hflag : asset.nHasIPFS = 0 ∧ asset.strIPFSHash = [] ∨
      asset.nHasIPFS = 1 ∧ (asset.strIPFSHash.length = 34 ∨ asset.strIPFSHash.length = 32))
    (hkept : HashKept asset.strIPFSHash) (rest : Bytes) :
    fromStream CNewAsset.unserialize (asset.serialize ++ rest) = some asset := by
  have hflagRange : -2 ^ 7 ≤ asset.nHasIPFS ∧ asset.nHasIPFS < 2 ^ 7 := by
    rcases hflag with ⟨hflag, -⟩ | ⟨hflag, -⟩ <;> rw [hflag] <;> decide
  simp only [CNewAsset.serialize, append_assoc]
  rw [fromStream, CNewAsset.unserialize, (readString_writeString hname).run_bind,
    (readInt64_writeInt64 hamount.1 hamount.2).run_bind,
    (readInt8_writeInt8 hunits.1 hunits.2).run_bind,
    (readInt8_writeInt8 hreissuable.1 hreissuable.2).run_bind,
    (readInt8_writeInt8 hflagRange.1 hflagRange.2).run_bind]
  rcases hflag with ⟨hflag, hnone⟩ | ⟨hflag, hlen⟩
  · have hzero : ¬asset.nHasIPFS = 1 := by omega
    rw [if_neg hzero, if_neg hzero, nil_append, ← hnone]
    rfl
  · have hread := (readAssetHash_writeAssetHash hlen hkept rest).2
    rw [if_pos hflag, if_pos hflag]
    simp only [bind, StateT.bind, Functor.map, StateT.map, hread, bind_some]
    rfl

theorem CAssetTransfer.unserialize_serialize (hname : transfer.strName.length < 253)
    (hamount : -2 ^ 63 ≤ transfer.nAmount ∧ transfer.nAmount < 2 ^ 63)
    (hexpire : -2 ^ 63 ≤ transfer.nExpireTime ∧ transfer.nExpireTime < 2 ^ 63)
    (hsized : transfer.message = [] ∧ transfer.nExpireTime = 0 ∨
      transfer.message.length = 34 ∨ transfer.message.length = 32)
    (hkept : HashKept transfer.message) (hrest : rest.length < 8) :
    fromStream unserialize (transfer.serialize ++ rest) = some transfer := by
  obtain ⟨strName, nAmount, message, nExpireTime⟩ := transfer
  dsimp only at hname hamount hexpire hsized hkept
  simp only [serialize, append_assoc]
  rw [fromStream, unserialize, (readString_writeString hname).run_bind,
    (readInt64_writeInt64 hamount.1 hamount.2).run_bind]
  rcases hsized with ⟨rfl, rfl⟩ | hlen
  · have hread := readAssetHash_short (show rest.length < 33 by omega)
    rw [writeAssetHash_nil]
    dsimp only
    rw [Bool.false_and, if_neg Bool.false_ne_true, nil_append, nil_append,
      reader_bind hread]
    rfl
  · by_cases hzero : nExpireTime = 0
    · obtain ⟨hvalid, hread⟩ := readAssetHash_writeAssetHash hlen hkept rest
      have hwritten : ((writeAssetHash message).2 && decide (nExpireTime ≠ 0)) = false := by
        simp [hzero]
      rw [hwritten, if_neg Bool.false_ne_true, nil_append, reader_bind hread]
      dsimp only
      rw [remaining_bind, if_neg (by simpa using hrest), hzero]
      rfl
    · obtain ⟨hvalid, hread⟩ := readAssetHash_writeAssetHash hlen hkept
        (writeInt64 nExpireTime ++ rest)
      have hlong : (writeInt64 nExpireTime ++ rest).length ≥ 8 := by
        rw [length_append, writeInt64, length_leBytes]
        omega
      have hwritten : ((writeAssetHash message).2 && decide (nExpireTime ≠ 0)) = true := by
        simp [hvalid, hzero]
      rw [hwritten, if_pos rfl, reader_bind hread]
      dsimp only
      rw [remaining_bind, if_pos (by simpa using hlong),
        (readInt64_writeInt64 hexpire.1 hexpire.2).run_bind]
      rfl

theorem CReissueAsset.unserialize_serialize {reissue : CReissueAsset}
    (hname : reissue.strName.length < 253)
    (hamount : -2 ^ 63 ≤ reissue.nAmount ∧ reissue.nAmount < 2 ^ 63)
    (hunits : -2 ^ 7 ≤ reissue.nUnits ∧ reissue.nUnits < 2 ^ 7)
    (hreissuable : -2 ^ 7 ≤ reissue.nReissuable ∧ reissue.nReissuable < 2 ^ 7)
    (hsized : reissue.strIPFSHash = [] ∨ reissue.strIPFSHash.length = 34 ∨
      reissue.strIPFSHash.length = 32) (hkept : HashKept reissue.strIPFSHash)
    (hrest : rest.length < 33) :
    fromStream CReissueAsset.unserialize (reissue.serialize ++ rest) = some reissue := by
  obtain ⟨strName, nAmount, nUnits, nReissuable, strIPFSHash⟩ := reissue
  dsimp only at hname hamount hunits hreissuable hsized hkept
  simp only [CReissueAsset.serialize, append_assoc]
  rw [fromStream, CReissueAsset.unserialize, (readString_writeString hname).run_bind,
    (readInt64_writeInt64 hamount.1 hamount.2).run_bind,
    (readInt8_writeInt8 hunits.1 hunits.2).run_bind,
    (readInt8_writeInt8 hreissuable.1 hreissuable.2).run_bind]
  rcases hsized with rfl | hlen
  · rw [writeAssetHash_nil, nil_append, reader_bind (readAssetHash_short hrest)]
    rfl
  · rw [reader_bind (readAssetHash_writeAssetHash hlen hkept rest).2]
    rfl

section Scripts

variable {id data : Bytes} {kind : UInt8}

/-- The push of a short record has one or two bytes in front of the marker, and the second is not
the marker's first letter. -/
theorem pushData_marker (hlen : data.length < 110) :
    ∃ size : Bytes, (size.length = 1 ∨ size.length = 2 ∧ size.getD 1 0 ≠ hnbR) ∧
      pushData ([hnbR, hnbV, hnbN, kind] ++ data) = size ++ hnbR :: hnbV :: hnbN :: kind :: data := by
  have hlength : ([hnbR, hnbV, hnbN, kind] ++ data).length = data.length + 4 := by simp
  rw [pushData]
  split
  · exact ⟨[_], .inl rfl, rfl⟩
  · rw [if_pos (by omega), hlength]
    refine ⟨opPushdata1 :: leBytes 1 (data.length + 4), .inr ⟨rfl, ?_⟩, rfl⟩
    intro hr
    have hsize : (UInt8.ofNat (data.length + 4)).toNat = hnbR.toNat := congrArg UInt8.toNat hr
    have hletter : hnbR.toNat = 114 := rfl
    rw [UInt8.toNat_ofNat'] at hsize
    omega

theorem length_scriptForKeyID (hid : id.length = 20) : (scriptForKeyID id).length = 25 := by
  simp [scriptForKeyID_eq hid, hid]

/-- Where the recogniser finds the marker of a constructed script, what is behind it, and how long
the script is. -/
theorem assetMarkerEnd_constructScript (hid : id.length = 20) (hlen : data.length < 110) :
    ∃ index, assetMarkerEnd (constructScript kind data (scriptForKeyID id)) = some index ∧
      byteAt (constructScript kind data (scriptForKeyID id)) 25 = opHnbAsset ∧
      byteAt (constructScript kind data (scriptForKeyID id)) index = kind ∧
      (constructScript kind data (scriptForKeyID id)).drop (index + 1) = data ++ [opDrop] ∧
      30 ≤ index ∧
      (constructScript kind data (scriptForKeyID id)).length = index + data.length + 2 := by
  have hhead := length_scriptForKeyID hid
  obtain ⟨size, hsize, hpush⟩ := @pushData_marker data kind hlen
  rw [constructScript, hpush]
  rcases hsize with hone | ⟨htwo, hletter⟩
  · obtain ⟨a, rfl⟩ := length_eq_one_iff.mp hone
    refine ⟨30, ?_, ?_, ?_, ?_, le_refl 30, ?_⟩
    · simp [assetMarkerEnd, byteAt, List.getD, getElem?_append_right, hhead]
    · simp [byteAt, List.getD, hhead]
    · simp [byteAt, List.getD, getElem?_append_right, hhead]
    · simp [drop_append, hhead]
    · simp [hhead]
      omega
  · obtain ⟨a, b, rfl⟩ := length_eq_two.mp htwo
    have hb : b ≠ hnbR := hletter
    refine ⟨31, ?_, ?_, ?_, ?_, by decide, ?_⟩
    · simp [assetMarkerEnd, byteAt, List.getD, getElem?_append_right, hhead, hb]
    · simp [byteAt, List.getD, hhead]
    · simp [byteAt, List.getD, getElem?_append_right, hhead]
    · simp [drop_append, hhead]
    · simp [hhead]
      omega

variable {α : Type} {env : Env}

/-- The script is recognised as one of the type, and what is read from it is the record with the
address of the key hash. -/
structure Survives (env : Env) (id : Bytes) (script : CScript) (nType : TxnOutType)
    (read : Option (α × Bytes)) (a : α) : Prop where
  recognised : ∃ start, script.isAssetScript = some ⟨nType, false, start⟩
  readBack : read = some (a, env.encodeDestination (.keyID id))

/-- The letters behind the marker. -/
def letterOf : TxnOutType → Option UInt8
  | .txNewAsset => some hnbQ
  | .txTransferAsset => some hnbT
  | .txReissueAsset => some hnbR
  | _ => none

/-- A record survives in a constructed script: the script is recognised by its letter, and the reader
of that type starts behind the marker. -/
theorem survives_constructScript (hid : id.length = 20) (hlong : 8 ≤ data.length)
    (hlen : data.length < 110) {nType : TxnOutType} (hletter : letterOf nType = some kind)
    {r : Reader α} {a : α} (hread : fromStream r (data ++ [opDrop]) = some a)
    {read : CScript → Option (α × Bytes)}
    (hstart : ∀ script start, isAssetScript script = some ⟨nType, false, start⟩ →
      read script = fromScript env (some start) r script) :
    Survives env id (constructScript kind data (scriptForKeyID id)) nType
      (read (constructScript kind data (scriptForKeyID id))) a := by
  obtain ⟨index, hmark, hasset, hkind, hdrop, hindex, hlength⟩ :=
    @assetMarkerEnd_constructScript id data kind hid hlen
  have hkey : ((constructScript kind data (scriptForKeyID id)).drop 3).take 20 = id := by
    rw [constructScript, scriptForKeyID_eq hid]
    simp [hid]
  generalize constructScript kind data (scriptForKeyID id) = script at *
  have hshape : script.isAssetScript = some ⟨nType, false, index + 1⟩ := by
    rw [isAssetScript, if_pos (by simp [hasset]; omega), hmark]
    dsimp only
    rw [hkind]
    cases nType <;> simp only [letterOf, some.injEq, reduceCtorEq] at hletter
    case txNewAsset =>
      subst hletter
      rw [if_neg (by decide), if_pos (by simp; omega)]
    case txReissueAsset =>
      subst hletter
      have hq : (hnbR = hnbQ) = False := by decide
      simp only [hq, decide_false, Bool.false_and, Bool.false_eq_true, if_false]
      rfl
    case txTransferAsset =>
      subst hletter
      rw [if_pos rfl]
  refine ⟨⟨index + 1, hshape⟩, ?_⟩
  rw [hstart _ _ hshape, fromScript, hdrop, hread, Env.addressOf, Env.extractDestination,
    extractDestination_asset hshape, hkey]
  rfl

end Scripts

section Checked

variable {env : Env} {s t : AssetState} {name : Bytes}

theorem length_of_valid (h : nameValid name = true) : name.length ≤ 40 := by
  by_contra hlong
  simp [nameValid, isAssetNameValid, show name.length > 40 by omega, Except.isOk,
    Except.toBool] at h

theorem nameValid_of_toOption {type : AssetType}
    (h : (isAssetNameValid name).toOption = some type) : nameValid name = true := by
  rw [nameValid]
  cases hvalid : isAssetNameValid name with
  | ok type' => rfl
  | error e => simp [hvalid, Except.toOption] at h

theorem checkEncoded_length {hash : Bytes} (h : checkEncoded env hash = .ok ()) :
    hash.length = 34 ∨ hash.length = 32 := by
  by_contra hother
  obtain ⟨h34, h32⟩ := not_or.mp hother
  simp [checkEncoded, encodeAssetData, h34, h32, str] at h

theorem contextualCheckNewAsset_fields {mempool : MempoolAssets} {fCheckMempool : Bool}
    (h : contextualCheckNewAsset env mempool asset fCheckMempool s = .ok () t) :
    nameValid asset.strName = true ∧ (0 < asset.nAmount ∧ asset.nAmount ≤ maxMoney) ∧
      (0 ≤ asset.units ∧ asset.units ≤ 8) ∧ (asset.nReissuable = 0 ∨ asset.nReissuable = 1) ∧
      (asset.nHasIPFS = 0 ∨
        asset.nHasIPFS = 1 ∧ (asset.strIPFSHash.length = 34 ∨ asset.strIPFSHash.length = 32)) := by
  simp only [contextualCheckNewAsset, run_bind_eq_ok, run_lift_eq_ok] at h
  obtain ⟨_, _, -, _, _, ⟨hcheck, -⟩, _, _, -, _, _, -, _, _, -, _, _, -, hencoded, -⟩ := h
  simp only [checkNewAsset, bind_eq_ok, require_eq_ok, ensure_eq_ok] at hcheck
  obtain ⟨type, hname, _, -, _, -, _, -, _, hpos, _, hmax, _, hunits, _, -, _, hreissuable,
    hflag⟩ := hcheck
  have hcases : asset.nHasIPFS = 0 ∨ asset.nHasIPFS = 1 := by simpa using hflag
  refine ⟨nameValid_of_toOption hname, ⟨by simpa using hpos, by simpa using hmax⟩,
    by simpa using hunits, by simpa using hreissuable, hcases.imp_right fun hone => ⟨hone, ?_⟩⟩
  rw [whenever_eq_ok] at hencoded
  exact checkEncoded_length (hencoded (by simp [hone]))

theorem contextualCheckTransferAsset_fields {address : Bytes}
    (hmessages : env.deployments.areMessagesDeployed = true)
    (h : contextualCheckTransferAsset env transfer address s = .ok () t) :
    nameValid transfer.strName = true ∧ 0 < transfer.nAmount ∧ 0 ≤ transfer.nExpireTime ∧
      (transfer.message = [] ∧ transfer.nExpireTime = 0 ∨
        transfer.message.length = 34 ∨ transfer.message.length = 32) := by
  simp only [contextualCheckTransferAsset, run_bind_eq_ok, run_lift_eq_ok] at h
  obtain ⟨type, _, ⟨hname, -⟩, _, _, ⟨hpos, -⟩, _, _, ⟨hmessage, -⟩, -⟩ := h
  rw [require_eq_ok] at hname
  rw [hmessages, whenever_eq_ok] at hmessage
  simp only [bind_eq_ok, ensure_eq_ok, whenever_eq_ok, forall_const] at hmessage
  obtain ⟨_, hneeds, _, hexpire, hencoded⟩ := hmessage
  have hnonneg : 0 ≤ transfer.nExpireTime := by simpa using hexpire
  refine ⟨nameValid_of_toOption hname, by simpa using hpos, hnonneg, ?_⟩
  by_cases hempty : transfer.message = []
  · have hzero : ¬transfer.nExpireTime > 0 := by simpa [hempty] using hneeds
    exact .inl ⟨hempty, by omega⟩
  · exact .inr (checkEncoded_length (hencoded (by simpa using hempty)))

theorem contextualCheckReissueAsset_fields {reissue : CReissueAsset} {tx : CTransaction}
    (h : contextualCheckReissueAsset env reissue tx s = .ok () t) :
    (AssetState.getAssetMetaDataIfExists reissue.strName s).1.isSome = true ∧
      (0 ≤ reissue.nAmount ∧ reissue.nAmount < maxMoney) ∧
      (-1 ≤ reissue.nUnits ∧ reissue.nUnits ≤ 8) ∧
      (-2 ^ 7 ≤ reissue.nReissuable ∧ reissue.nReissuable < 2 ^ 7) ∧
      (reissue.strIPFSHash = [] ∨ reissue.strIPFSHash.length = 34 ∨
        reissue.strIPFSHash.length = 32) := by
  simp only [contextualCheckReissueAsset, run_bind_eq_ok, run_lift_eq_ok, run_ask_eq_ok] at h
  obtain ⟨_, s₁, ⟨-, rfl⟩, _, s₂, ⟨hcheck, rfl⟩, found, _, hfound, prev, _, ⟨hprev, -⟩, _, _, -, _, _,
    -, _, _, ⟨hencoded, -⟩, -⟩ := h
  simp only [checkReissueAsset, bind_eq_ok, ensure_eq_ok] at hcheck
  obtain ⟨_, hamount, _, hunits, hflag⟩ := hcheck
  rw [require_eq_ok] at hprev
  rw [whenever_eq_ok] at hencoded
  have hreissuable : reissue.nReissuable = 109 ∨ reissue.nReissuable = -47 ∨
      reissue.nReissuable = 0 ∨ reissue.nReissuable = 1 := by
    simp only [Bool.or_eq_true, Bool.and_eq_true, decide_eq_true_eq] at hflag
    tauto
  have hunits' : -1 ≤ reissue.nUnits ∧ reissue.nUnits ≤ maxUnit := by simpa using hunits
  refine ⟨by rw [hfound, hprev]; rfl, by simpa using hamount, hunits',
    by omega, ?_⟩
  by_cases hempty : reissue.strIPFSHash = []
  · exact .inl hempty
  · exact .inr (checkEncoded_length (hencoded (by simpa using hempty)))

end Checked

theorem int64_of_money (h : 0 ≤ n) (hmax : n ≤ maxMoney) : -2 ^ 63 ≤ n ∧ n < 2 ^ 63 := by
  have hmoney : n ≤ 2100000000000000000 := hmax
  omega

theorem length_writeString (h : s.length < 253) : (writeString s).length = s.length + 1 := by
  rw [writeString, writeCompactSize, if_pos h, length_append, length_leBytes, add_comm]

theorem length_writeAssetHash_le (hash : Bytes) : (writeAssetHash hash).1.length ≤ 34 := by
  unfold writeAssetHash
  split
  case isTrue hlen =>
    have hdrop : (hash.drop 2).length = 32 := by simp [hlen]
    rw [length_append, length_writeString (by omega), hdrop]
    decide
  case isFalse =>
    split
    case isTrue hlen =>
      rw [length_append, length_writeString (by omega), hlen]
      decide
    case isFalse => exact Nat.zero_le _

/-- Both fields fit the 64-bit integers they are. -/
structure CAssetTransfer.InRange (transfer : CAssetTransfer) : Prop where
  amount : transfer.nAmount < 2 ^ 63
  expireTime : transfer.nExpireTime < 2 ^ 63

/-- Names are checked before anything is stored under them. -/
def AssetState.NamesValid (s : AssetState) : Prop :=
  ∀ name, (s.getAssetMetaDataIfExists name).1.isSome = true → nameValid name = true

/-- Records survive their script. What passes its contextual check is recognised and read back
from the script it is put into, if a hash of 34 bytes starts as the reader assumes and a new asset
without the flag for a hash has none. -/
theorem records_survive (env : Env) (id : Bytes) (hid : id.length = 20)
    (hmessages : env.deployments.areMessagesDeployed = true)
    (hsize : env.deployments.areTransferScriptsSizeDeployed = true) :
    (∀ mempool asset fCheckMempool s t,
      contextualCheckNewAsset env mempool asset fCheckMempool s = .ok () t →
      (asset.nHasIPFS = 0 → asset.strIPFSHash = []) → HashKept asset.strIPFSHash →
      Survives env id (asset.constructTransaction (scriptForKeyID id)) .txNewAsset
        (assetFromScript env (asset.constructTransaction (scriptForKeyID id))) asset) ∧
    (∀ (transfer : CAssetTransfer) address s t, transfer.InRange →
      contextualCheckTransferAsset env transfer address s = .ok () t →
      HashKept transfer.message →
      Survives env id (transfer.constructTransaction (scriptForKeyID id)) .txTransferAsset
        (transferAssetFromScript env (transfer.constructTransaction (scriptForKeyID id)))
        transfer) ∧
    (∀ (reissue : CReissueAsset) tx (s t : AssetState), s.NamesValid →
      contextualCheckReissueAsset env reissue tx s = .ok () t →
      HashKept reissue.strIPFSHash →
      Survives env id (reissue.constructTransaction (scriptForKeyID id)) .txReissueAsset
        (reissueAssetFromScript env (reissue.constructTransaction (scriptForKeyID id)))
        reissue) := by
  refine ⟨?_, ?_, ?_⟩
  · intro mempool asset fCheckMempool s t h hflag hkept
    obtain ⟨hname, hamount, hunits, hreissuable, hhash⟩ := contextualCheckNewAsset_fields h
    have hshort := length_of_valid hname
    have hwritten := length_writeAssetHash_le asset.strIPFSHash
    have hlen : asset.serialize.length = asset.strName.length + 12 +
        (if asset.nHasIPFS = 1 then (writeAssetHash asset.strIPFSHash).1 else []).length := by
      simp only [CNewAsset.serialize, length_append, writeInt64, writeInt8, length_leBytes,
        length_writeString (show asset.strName.length < 253 by omega)]
    have hpart : (if asset.nHasIPFS = 1 then (writeAssetHash asset.strIPFSHash).1
        else []).length ≤ 34 := by
      split
      · exact hwritten
      · exact Nat.zero_le _
    refine survives_constructScript hid (by omega) (by omega) rfl
      (CNewAsset.unserialize_serialize (by omega) (int64_of_money hamount.1.le hamount.2)
        (by omega) (by omega) ?_ hkept _) fun script start hshape => ?_
    · exact hhash.imp_left fun hzero => ⟨hzero, hflag hzero⟩
    · simp [assetFromScript, isScriptNewAsset, assetDataStart, hshape]
  · intro transfer address s t hrange h hkept
    obtain ⟨hname, hamount, hexpire, hhash⟩ := contextualCheckTransferAsset_fields hmessages h
    have hshort := length_of_valid hname
    have hwritten := length_writeAssetHash_le transfer.message
    have hlow : -2 ^ 63 ≤ transfer.nAmount := le_trans (by decide) hamount.le
    have htime : -2 ^ 63 ≤ transfer.nExpireTime := by omega
    have hlen : transfer.serialize.length = transfer.strName.length + 9 +
        (writeAssetHash transfer.message).1.length +
        (if (writeAssetHash transfer.message).2 && transfer.nExpireTime ≠ 0 then
          writeInt64 transfer.nExpireTime else []).length := by
      simp only [serialize, length_append, writeInt64, length_leBytes,
        length_writeString (show transfer.strName.length < 253 by omega)]
    have hpart : (if (writeAssetHash transfer.message).2 && transfer.nExpireTime ≠ 0 then
        writeInt64 transfer.nExpireTime else []).length ≤ 8 := by
      split
      · rw [writeInt64, length_leBytes]
      · exact Nat.zero_le _
    refine survives_constructScript hid (by omega) (by omega) rfl
      (unserialize_serialize (by omega) ⟨hlow, hrange.amount⟩
        ⟨htime, hrange.expireTime⟩ hhash hkept (by decide)) fun script start hshape => ?_
    simp [transferAssetFromScript, isScriptTransferAsset, assetDataStart, hshape, hsize]
  · intro reissue tx s t hnames h hkept
    obtain ⟨hfound, hamount, hunits, hreissuable, hhash⟩ := contextualCheckReissueAsset_fields h
    have hshort := length_of_valid (hnames _ hfound)
    have hwritten := length_writeAssetHash_le reissue.strIPFSHash
    have hlen : reissue.serialize.length = reissue.strName.length + 11 +
        (writeAssetHash reissue.strIPFSHash).1.length := by
      simp only [CReissueAsset.serialize, length_append, writeInt64, writeInt8, length_leBytes,
        length_writeString (show reissue.strName.length < 253 by omega)]
    refine survives_constructScript hid (by omega) (by omega) rfl
      (CReissueAsset.unserialize_serialize (by omega) (int64_of_money hamount.1 hamount.2.le)
        (by omega) hreissuable hhash hkept (by decide)) fun script start hshape => ?_
    simp [reissueAssetFromScript, isScriptReissueAsset, assetDataStart, hshape]

/-- 34 bytes that start with the two given ones. -/
def multihash (code length : UInt8) : Bytes := code :: length :: List.replicate 32 1

def hashedAsset (nHasIPFS : Int) (strIPFSHash : Bytes) : CNewAsset :=
  ⟨str "SILVER", 1000, 8, 1, nHasIPFS, strIPFSHash⟩

def hashedTransfer : CAssetTransfer := ⟨str "GOLD", 5, List.replicate 32 7, 1700000000⟩

def hashedReissue : CReissueAsset := ⟨str "GOLD", 0, -1, 1, multihash 0x12 0x20⟩

def hashedReissueTx : CTransaction :=
  ⟨[], [⟨0, hashedReissue.constructTransaction (scriptForKeyID issuerKey)⟩], 3⟩

theorem goldState_namesValid : goldState.NamesValid := by
  intro name hfound
  by_cases hname : str "GOLD" = name
  · rw [← hname]
    decide +kernel
  · have hnone : goldState.assetsdb.assetData.find? name = none := by
      rw [goldState, KeyedSet.find?_insert]
      exact if_neg hname
    have hread : goldState.readAssetData name = (none, goldState) := by
      rw [AssetState.readAssetData, hnone]
      rfl
    have hnothing : goldState.getAssetMetaDataIfExists name = goldState.readAssetData name := rfl
    simp [hnothing, hread] at hfound

theorem gold_records_survive :
    Survives regTestEnv issuerKey
      ((hashedAsset 1 (multihash 0x12 0x20)).constructTransaction (scriptForKeyID issuerKey))
      .txNewAsset
      (assetFromScript regTestEnv
        ((hashedAsset 1 (multihash 0x12 0x20)).constructTransaction (scriptForKeyID issuerKey)))
      (hashedAsset 1 (multihash 0x12 0x20)) ∧
    Survives regTestEnv issuerKey (hashedTransfer.constructTransaction (scriptForKeyID issuerKey))
      .txTransferAsset
      (transferAssetFromScript regTestEnv
        (hashedTransfer.constructTransaction (scriptForKeyID issuerKey))) hashedTransfer ∧
    Survives regTestEnv issuerKey (hashedReissue.constructTransaction (scriptForKeyID issuerKey))
      .txReissueAsset
      (reissueAssetFromScript regTestEnv
        (hashedReissue.constructTransaction (scriptForKeyID issuerKey))) hashedReissue := by
  obtain ⟨hnew, htransfer, hreissue⟩ := records_survive regTestEnv issuerKey rfl rfl rfl
  have hnewOk : succeeded (contextualCheckNewAsset regTestEnv {}
      (hashedAsset 1 (multihash 0x12 0x20)) false goldState) = true := by decide +kernel
  have htransferOk : succeeded (contextualCheckTransferAsset regTestEnv hashedTransfer [] goldState)
      = true := by decide +kernel
  have hreissueOk : succeeded (contextualCheckReissueAsset regTestEnv hashedReissue
      hashedReissueTx goldState) = true := by decide +kernel
  obtain ⟨_, t, hnewOk⟩ := succeeded_iff.mp hnewOk
  obtain ⟨_, t', htransferOk⟩ := succeeded_iff.mp htransferOk
  obtain ⟨_, t'', hreissueOk⟩ := succeeded_iff.mp hreissueOk
  exact ⟨hnew _ _ _ _ _ hnewOk (by decide) (by decide),
    htransfer _ _ _ _ ⟨by decide, by decide⟩ htransferOk (by decide),
    hreissue _ _ _ _ goldState_namesValid hreissueOk (by decide)⟩

/-- Without the flag the hash of a new asset is not written, and of a hash of 34 bytes that starts
otherwise the first two bytes are replaced. Both pass the contextual check. -/
theorem hashes_not_kept :
    (∃ t, contextualCheckNewAsset regTestEnv {} (hashedAsset 0 (multihash 0x12 0x20)) false
        goldState = .ok () t) ∧
      assetFromScript regTestEnv ((hashedAsset 0 (multihash 0x12 0x20)).constructTransaction
        (scriptForKeyID issuerKey)) =
        some (hashedAsset 0 [], regTestEnv.encodeDestination (.keyID issuerKey)) ∧
      (∃ t, contextualCheckNewAsset regTestEnv {} (hashedAsset 1 (multihash 0x12 0x21)) false
        goldState = .ok () t) ∧
      assetFromScript regTestEnv ((hashedAsset 1 (multihash 0x12 0x21)).constructTransaction
        (scriptForKeyID issuerKey)) =
        some (hashedAsset 1 (multihash 0x12 0x20),
          regTestEnv.encodeDestination (.keyID issuerKey)) := by
  have hflagless : succeeded (contextualCheckNewAsset regTestEnv {}
      (hashedAsset 0 (multihash 0x12 0x20)) false goldState) = true := by decide +kernel
  have hother : succeeded (contextualCheckNewAsset regTestEnv {}
      (hashedAsset 1 (multihash 0x12 0x21)) false goldState) = true := by decide +kernel
  obtain ⟨_, t, hflagless⟩ := succeeded_iff.mp hflagless
  obtain ⟨_, t', hother⟩ := succeeded_iff.mp hother
  exact ⟨⟨t, hflagless⟩, by decide +kernel, ⟨t', hother⟩, by decide +kernel⟩

end HnbCore
