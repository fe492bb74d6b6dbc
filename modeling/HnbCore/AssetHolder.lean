import HnbCore.Interpreter
import HnbCore.ParentTransfer

/-!
# Who holds an asset output

The asset layer reads the holder of an output at fixed offsets of its script; the interpreter
decides who can spend it. The two agree exactly when the script starts like a payment to a key
hash.
-/

namespace HnbCore

open Checks List CScript

variable {ctx : ScriptContext} {pc script : CScript} {m m' : Machine} {opcode : UInt8} {vch : Bytes}
  {a : CScript.AssetScript}

theorem evalStep_eq_ok :
    evalStep ctx opcode vch pc m = .ok m' ↔
      vch.length ≤ maxScriptElementSize ∧
      (opcode ≤ op16 ∨ (m.countOp opcode).nOpCount ≤ maxOpsPerScript) ∧
      isDisabledOpcode opcode = false ∧
      execOp ctx opcode vch pc (m.countOp opcode) = .ok m' ∧
      m'.stack.length + m'.altstack.length ≤ maxStackSize := by
  simp only [evalStep, bind_eq_ok, ensure_eq_ok, pure_eq_ok, decide_eq_true_eq, Bool.or_eq_true,
    Bool.not_eq_true', exists_const]
  constructor
  · rintro ⟨hpush, hcount, hdisabled, m1, hexec, hsize, rfl⟩
    exact ⟨hpush, hcount, hdisabled, hexec, hsize⟩
  · rintro ⟨hpush, hcount, hdisabled, hexec, hsize⟩
    exact ⟨hpush, hcount, hdisabled, m', hexec, hsize, rfl⟩

theorem evalFrom_step {fuel : Nat} {pc' : CScript}
    (hop : getOp pc = some (opcode, vch, pc')) (h : evalFrom ctx (fuel + 1) pc m = .ok m') :
    ∃ m₁, evalStep ctx opcode vch pc' m = .ok m₁ ∧ evalFrom ctx fuel pc' m₁ = .ok m' := by
  have hne : pc.isEmpty = false := by
    cases pc with
    | nil => simp [getOp] at hop
    | cons b pc => rfl
  simpa [evalFrom, hne, hop, require] using h

theorem evalFrom_nil (ctx : ScriptContext) (fuel : Nat) (m : Machine) :
    evalFrom ctx fuel [] m = .ok m := by
  cases fuel <;> rfl

theorem evalStep_instr {instr : Instr} (h : evalStep ctx opcode vch pc m = .ok m')
    (hexec : m.fExec = true) (hop : op16 < opcode) (hinstr : instrOf opcode = some instr) :
    vch.length ≤ maxScriptElementSize ∧
      execInstr ctx pc { m with nOpCount := m.nOpCount + 1 } instr = .ok m' := by
  obtain ⟨hpush, -, -, hrun, -⟩ := evalStep_eq_ok.mp h
  refine ⟨hpush, ?_⟩
  have hcount : m.countOp opcode = { m with nOpCount := m.nOpCount + 1 } := if_pos hop
  have hnot : ¬ opcode ≤ opPushdata4 := by
    have : op16 < opcode := hop
    simp only [op16, opPushdata4, UInt8.lt_iff_toNat_lt, UInt8.le_iff_toNat_le] at *
    simp at *
    omega
  rw [execOp, hcount] at hrun
  have hexec' : Machine.fExec { m with nOpCount := m.nOpCount + 1 } = true := hexec
  simpa [hexec', hnot, hinstr, require] using hrun

theorem evalStep_push (h : evalStep ctx opcode vch pc m = .ok m') (hexec : m.fExec = true)
    (hop : opcode ≤ opPushdata4) : m' = m.push vch := by
  obtain ⟨-, -, -, hrun, -⟩ := evalStep_eq_ok.mp h
  have hcount : m.countOp opcode = m := by
    refine if_neg fun hgt => ?_
    simp only [op16, opPushdata4, UInt8.lt_iff_toNat_lt, UInt8.le_iff_toNat_le, GT.gt] at *
    simp at *
    omega
  rw [hcount, execOp] at hrun
  simp only [hexec, hop, decide_true, Bool.and_self, if_true, bind_eq_ok, ensure_eq_ok,
    pure_eq_ok] at hrun
  obtain ⟨-, -, hm⟩ := hrun
  exact hm.symm

theorem getOp_instr (h : opPushdata4 < opcode) (hne : opcode ≠ opHnbAsset) (pc : CScript) :
    getOp (opcode :: pc) = some (opcode, [], pc) := by
  have h1 : ¬ opcode < opPushdata1 := by
    simp only [opPushdata1, opPushdata4, UInt8.lt_iff_toNat_lt] at *
    simp at *
    omega
  have h2 : opcode ≠ opPushdata1 ∧ opcode ≠ opPushdata2 ∧ opcode ≠ opPushdata4 := by
    refine ⟨?_, ?_, ?_⟩ <;> rintro rfl <;> exact absurd h (by decide)
  simp [getOp, h1, h2, hne]

theorem getOp_pushHash {hash : Bytes} (h : hash.length = 20) (pc : CScript) :
    getOp (0x14 :: (hash ++ pc)) = some (0x14, hash, pc) := by
  have hlt : (0x14 : UInt8) < opPushdata1 := by decide
  have hn : (0x14 : UInt8).toNat = hash.length := h.symm ▸ rfl
  simp [getOp, hlt, hn]

theorem getOp_hnbAsset (pc : CScript) :
    getOp (opHnbAsset :: pc) = some (opHnbAsset, pc, []) := by
  rfl

theorem scriptForKeyID_eq {hash : Bytes} (h : hash.length = 20) :
    scriptForKeyID hash = opDup :: opHash160 :: 0x14 :: (hash ++ [opEqualverify, opChecksig]) := by
  have hlt : hash.length < opPushdata1.toNat := by rw [h]; decide
  rw [scriptForKeyID, pushData, if_pos hlt, h]
  rfl

theorem execInstr_dup (h : execInstr ctx pc m .dup = .ok m') :
    ∃ x tail, m.stack = x :: tail ∧ m' = { m with stack := x :: x :: tail } := by
  cases hstack : m.stack with
  | nil => simp [execInstr, execStack, hstack] at h
  | cons x tail =>
    simp only [execInstr, execStack, hstack, Except.ok.injEq] at h
    exact ⟨x, tail, rfl, h.symm⟩

theorem execInstr_equalverify (h : execInstr ctx pc m (.equal true) = .ok m') :
    ∃ x tail, m.stack = x :: x :: tail ∧ m' = { m with stack := tail } := by
  rcases hstack : m.stack with _ | ⟨x2, _ | ⟨x1, tail⟩⟩
  · simp [execInstr, hstack] at h
  · simp [execInstr, hstack] at h
  · simp only [execInstr, hstack, pushResult, if_true, decide_eq_true_eq] at h
    split at h
    case isTrue heq =>
      obtain rfl : _ = m' := by simpa using h
      exact ⟨x2, tail, by rw [heq], rfl⟩
    case isFalse => simp at h

/-- `OP_CHECKSIG` leaves the answer of the signature checker. -/
theorem execInstr_checksig (h : execInstr ctx pc m (.checksig false) = .ok m') :
    ∃ vchPubKey vchSig tail, m.stack = vchPubKey :: vchSig :: tail ∧
      m' = { m with stack := vchBool (ctx.checker.checkSig vchSig vchPubKey
        (scriptCodeFor ctx m [vchSig]) ctx.sigversion) :: tail } := by
  rcases hstack : m.stack with _ | ⟨vchPubKey, _ | ⟨vchSig, tail⟩⟩
  · simp [execInstr, execCheckSig, hstack] at h
  · simp [execInstr, execCheckSig, hstack] at h
  · simp only [execInstr, execCheckSig, hstack, bind_eq_ok, ensure_eq_ok, pushResult,
      Bool.false_eq_true, if_false, Except.ok.injEq, Machine.push] at h
    obtain ⟨-, -, -, -, -, -, rfl⟩ := h
    exact ⟨vchPubKey, vchSig, tail, rfl, rfl⟩

theorem castToBool_vchBool {b : Bool} {tail : List Bytes} :
    endsTrue (vchBool b :: tail) = true ↔ b = true := by
  cases b <;> simp [endsTrue, vchBool, vchTrue, vchFalse, castToBool]

/-- A stack that a payment to a key hash, followed by an asset marker, turns into a true one: a key
with that hash on top of a signature by it. -/
theorem evalScript_keyHash {hash : Bytes} (hlen : hash.length = 20) (hbase : ctx.sigversion = .base)
    {rest : CScript} {stack out : List Bytes}
    (h : evalScript ctx (scriptForKeyID hash ++ opHnbAsset :: rest) stack = .ok out)
    (htrue : endsTrue out = true) :
    ∃ vchSig vchPubKey tail, stack = vchPubKey :: vchSig :: tail ∧
      ctx.crypto.hash160 vchPubKey = hash ∧
      ctx.checker.checkSig vchSig vchPubKey (findAndDelete
        (scriptForKeyID hash ++ opHnbAsset :: rest) (pushData vchSig)) .base = true := by
  set script := scriptForKeyID hash ++ opHnbAsset :: rest with hscript
  have hshape : script = opDup :: opHash160 :: 0x14 :: (hash ++ opEqualverify :: opChecksig ::
      opHnbAsset :: rest) := by
    rw [hscript, scriptForKeyID_eq hlen]
    simp
  have hfuel : script.length = rest.length + 20 + 6 := by
    rw [hshape]
    simp [hlen]
    omega
  simp only [evalScript, bind_eq_ok, ensure_eq_ok, pure_eq_ok, exists_const] at h
  obtain ⟨-, m, hrun, -, rfl⟩ := h
  rw [hfuel, hshape] at hrun
  obtain ⟨m₁, hdup, hrun⟩ := evalFrom_step (getOp_instr (by decide) (by decide) _) hrun
  obtain ⟨m₂, hhash, hrun⟩ := evalFrom_step (getOp_instr (by decide) (by decide) _) hrun
  obtain ⟨m₃, hpush, hrun⟩ := evalFrom_step (getOp_pushHash hlen _) hrun
  obtain ⟨m₄, hequal, hrun⟩ := evalFrom_step (getOp_instr (by decide) (by decide) _) hrun
  obtain ⟨m₅, hsig, hrun⟩ := evalFrom_step (getOp_instr (by decide) (by decide) _) hrun
  obtain ⟨m₆, hmark, hrun⟩ := evalFrom_step (getOp_hnbAsset _) hrun
  -- the machine after each operation
  obtain ⟨-, hdup⟩ := evalStep_instr hdup rfl (by decide) (rfl : instrOf opDup = some .dup)
  obtain ⟨vchPubKey, stack', rfl, rfl⟩ := execInstr_dup hdup
  obtain ⟨-, hhash⟩ := evalStep_instr hhash rfl (by decide)
    (rfl : instrOf opHash160 = some (.hash .hash160))
  simp only [execInstr, HashOp.eval, Except.ok.injEq] at hhash
  subst hhash
  obtain rfl := evalStep_push hpush rfl (by decide)
  obtain ⟨-, hequal⟩ := evalStep_instr hequal rfl (by decide)
    (rfl : instrOf opEqualverify = some (.equal true))
  obtain ⟨x, tail, hsame, rfl⟩ := execInstr_equalverify hequal
  simp only [Machine.push, List.cons.injEq] at hsame
  obtain ⟨rfl, hkey, rfl⟩ := hsame
  obtain ⟨-, hsig⟩ := evalStep_instr hsig rfl (by decide)
    (rfl : instrOf opChecksig = some (.checksig false))
  obtain ⟨vchPubKey', vchSig, tail, hargs, rfl⟩ := execInstr_checksig hsig
  simp only [List.cons.injEq] at hargs
  obtain ⟨rfl, rfl⟩ := hargs
  obtain ⟨-, hmark⟩ := evalStep_instr hmark rfl (by decide)
    (rfl : instrOf opHnbAsset = some .hnbAsset)
  simp only [execInstr, Except.ok.injEq] at hmark
  subst hmark
  rw [evalFrom_nil, Except.ok.injEq] at hrun
  subst hrun
  refine ⟨vchSig, vchPubKey, tail, rfl, hkey, ?_⟩
  have hchecked := castToBool_vchBool.mp htrue
  rw [hshape]
  simpa [scriptCodeFor, hbase, Machine.push] using hchecked

theorem byteAt_eq {i : Nat} {b : UInt8} (h : script.byteAt i = b) (hb : b ≠ 0) :
    script[i]? = some b := by
  cases hget : script[i]? with
  | none => exact absurd (by simpa [byteAt, List.getD, hget] using h.symm) hb
  | some c => simpa [byteAt, List.getD, hget] using h

/-- An asset script has its marker behind the first 25 bytes. -/
theorem isAssetScript_split (h : script.isAssetScript = some a) :
    25 < script.length ∧ ∃ rest, script = script.take 25 ++ opHnbAsset :: rest := by
  unfold isAssetScript at h
  split at h
  case isTrue hmark =>
    simp only [Bool.and_eq_true, decide_eq_true_eq] at hmark
    refine ⟨by omega, script.drop 26, ?_⟩
    have hlt : 25 < script.length := by omega
    have hbyte : script[25] = opHnbAsset := by
      have := byteAt_eq hmark.2 (by decide)
      simpa [hlt] using this
    rw [← hbyte, ← drop_eq_getElem_cons hlt, take_append_drop]
  case isFalse => simp at h

theorem isAssetScript_type (h : script.isAssetScript = some a) :
    a.nType = .txTransferAsset ∨ a.nType = .txNewAsset ∨ a.nType = .txReissueAsset := by
  unfold isAssetScript at h
  split at h
  case isTrue =>
    split at h
    case h_1 => simp at h
    case h_2 =>
      split_ifs at h <;> simp_all <;> simp [← h]
  case isFalse => simp at h

theorem isPayToPublicKeyHash_iff :
    script.isPayToPublicKeyHash = true ↔
      ∃ hash : Bytes, hash.length = 20 ∧ script = scriptForKeyID hash := by
  constructor
  · intro h
    simp only [isPayToPublicKeyHash, Bool.and_eq_true, decide_eq_true_eq] at h
    obtain ⟨⟨⟨⟨⟨hlen, h0⟩, h1⟩, h2⟩, h23⟩, h24⟩ := h
    have hhash : ((script.drop 3).take 20).length = 20 := by simp [hlen]
    have hhead : script.take 3 = [opDup, opHash160, 0x14] := by
      simp [take_add_one, byteAt_eq h0 (by decide), byteAt_eq h1 (by decide),
        byteAt_eq h2 (by decide)]
    have hlast : script.drop 23 = [opEqualverify, opChecksig] := by
      have e23 := byteAt_eq h23 (by decide)
      have e24 := byteAt_eq h24 (by decide)
      rw [drop_eq_getElem_cons (by omega), drop_eq_getElem_cons (by omega),
        drop_eq_nil_of_le (by omega)]
      simp_all
    refine ⟨(script.drop 3).take 20, hhash, ?_⟩
    have hparts : script = script.take 3 ++ ((script.drop 3).take 20 ++ (script.drop 3).drop 20) := by
      rw [take_append_drop, take_append_drop]
    rw [drop_drop, hlast, hhead] at hparts
    rw [scriptForKeyID_eq hhash]
    exact hparts
  · rintro ⟨hash, hlen, rfl⟩
    rw [scriptForKeyID_eq hlen]
    simp [isPayToPublicKeyHash, byteAt, List.getD, hlen]

/-- The destination of an asset script is read at bytes 3 to 22. -/
theorem extractDestination_asset {hashes : Hashes} (h : script.isAssetScript = some a) :
    extractDestination hashes script = some (.keyID ((script.drop 3).take 20)) := by
  have hp2sh : script.isPayToScriptHash = false := by
    have hlt := (isAssetScript_split h).1
    have : script.length ≠ 23 := by omega
    simp [isPayToScriptHash, this]
  have htype := isAssetScript_type h
  simp only [extractDestination, solver, hp2sh, Bool.false_eq_true, if_false, h]
  rcases htype with htype | htype | htype <;> simp [htype]

/-- An output of an asset belongs to the key hash that the asset layer reports. -/
structure HeldAsReported (env : Env) (script : CScript) (hash : Bytes) : Prop where
  size : hash.length = 20
  template : script.take 25 = scriptForKeyID hash
  destination : env.extractDestination script = some (.keyID hash)
  /-- Nothing but a signature by a key with this hash spends the output. -/
  controlled : ∀ (ctx : ScriptContext) (scriptSig : CScript) (witness : List Bytes),
    ctx.crypto.toHashes = env.hashes → ctx.sigversion = .base →
    verifyScript ctx scriptSig script witness = .ok () →
    ∃ vchSig vchPubKey, env.hashes.hash160 vchPubKey = hash ∧
      ctx.checker.checkSig vchSig vchPubKey (findAndDelete script (pushData vchSig)) .base = true

/-- An asset script is held by the key hash it is reported for if and only if its first 25 bytes
are recognised as a payment to a key hash, which the recogniser of asset scripts does not look
at. -/
theorem held_as_reported_iff (env : Env) (script : CScript) (a : CScript.AssetScript)
    (h : script.isAssetScript = some a) :
    (∃ hash, HeldAsReported env script hash) ↔
      isPayToPublicKeyHash (script.take 25) = true := by
  constructor
  · rintro ⟨hash, hheld⟩
    exact isPayToPublicKeyHash_iff.mpr ⟨hash, hheld.size, hheld.template⟩
  · intro hp2pkh
    obtain ⟨hash, hlen, htake⟩ := isPayToPublicKeyHash_iff.mp hp2pkh
    obtain ⟨-, rest, hsplit⟩ := isAssetScript_split h
    rw [htake] at hsplit
    refine ⟨hash, hlen, htake, ?_, ?_⟩
    · have hhash : (script.drop 3).take 20 = hash := by
        rw [hsplit, scriptForKeyID_eq hlen]
        simp [hlen]
      rw [Env.extractDestination, extractDestination_asset h, hhash]
    · intro ctx scriptSig witness hhashes hbase hverify
      simp only [verifyScript, bind_eq_ok, ensure_eq_ok] at hverify
      obtain ⟨-, -, stack, -, out, hrun, -, htrue, -⟩ := hverify
      rw [hsplit] at hrun
      obtain ⟨vchSig, vchPubKey, -, -, hkey, hsig⟩ := evalScript_keyHash hlen hbase hrun htrue
      refine ⟨vchSig, vchPubKey, hhashes ▸ hkey, ?_⟩
      rw [hsplit]
      exact hsig

def restrictedTransfer (script : CScript) : CScript :=
  CAssetTransfer.constructTransaction ⟨str "$GOLD", 5, [], 0⟩ script

theorem keyTransfer_held_as_reported :
    ∃ a hash, isAssetScript (restrictedTransfer (scriptForKeyID issuerKey)) = some a ∧
      HeldAsReported regTestEnv (restrictedTransfer (scriptForKeyID issuerKey)) hash := by
  have hasset : isAssetScript (restrictedTransfer (scriptForKeyID issuerKey)) =
      some ⟨.txTransferAsset, false, 31⟩ := by decide +kernel
  obtain ⟨hash, hheld⟩ := (held_as_reported_iff regTestEnv _ _ hasset).mpr (by decide +kernel)
  exact ⟨_, hash, hasset, hheld⟩

/-- One push of 24 bytes, with a key hash at bytes 3 to 22. -/
def pushedKey : CScript := 0x18 :: 1 :: 1 :: (issuerKey ++ [1, 1])

def allFlags : ScriptFlags :=
  ⟨true, true, true, true, true, true, true, true, true, true, true, true, true, true, true, true⟩

/-- No signature is ever accepted. -/
def refuseAll : SignatureChecker := ⟨fun _ _ _ _ => false, fun _ => false, fun _ => false⟩

def regTestCrypto : ScriptCrypto :=
  ⟨regTestEnv.hashes, fun _ => [], fun _ => [], fun _ => [], fun _ => false⟩

/-- The output is reported for the key hash that is pushed, and is spent without a signature. -/
theorem pushedKey_spent_by_anyone :
    (isAssetScript (restrictedTransfer pushedKey)).isSome = true ∧
      regTestEnv.extractDestination (restrictedTransfer pushedKey) = some (.keyID issuerKey) ∧
      transferAssetFromScript regTestEnv (restrictedTransfer pushedKey) =
        some (⟨str "$GOLD", 5, [], 0⟩, regTestEnv.encodeDestination (.keyID issuerKey)) ∧
      verifyScript ⟨regTestCrypto, allFlags, refuseAll, .base⟩ [] (restrictedTransfer pushedKey) [] =
        .ok () ∧
      ¬ ∃ hash, HeldAsReported regTestEnv (restrictedTransfer pushedKey) hash := by
  have hspent : verifyScript ⟨regTestCrypto, allFlags, refuseAll, .base⟩ []
      (restrictedTransfer pushedKey) [] = .ok () := by decide +kernel
  refine ⟨by decide +kernel, by decide +kernel, by decide +kernel, hspent, ?_⟩
  rintro ⟨hash, hheld⟩
  obtain ⟨vchSig, vchPubKey, -, hsig⟩ := hheld.controlled _ _ _ rfl rfl hspent
  exact Bool.false_ne_true hsig

end HnbCore
