import HnbCore.Transaction

/-!
# Block files

Blocks and their undo data lie in numbered files. For each file a summary of the heights in it is
kept as blocks arrive, and pruning decides by the summaries alone which files go: `FindBlockPos`,
`FindUndoPos`, `FindFilesToPrune`, `FindFilesToPruneManual` and `PruneOneBlockFile`.
-/

namespace HnbCore

open List Option

def maxBlockFileSize : UInt32 := 0x8000000
def blockFileChunkSize : UInt64 := 0x1000000
def undoFileChunkSize : UInt64 := 0x100000
def minHeightsToKeep : UInt32 := 288

/-- The network's start bytes and the size stand in front of what is written. -/
def indexHeaderSize : UInt32 := 8

structure CBlockFileInfo where
  nBlocks : UInt32 := 0
  nSize : UInt32 := 0
  nUndoSize : UInt32 := 0
  nHeightFirst : UInt32 := 0
  nHeightLast : UInt32 := 0
  nTimeFirst : UInt64 := 0
  nTimeLast : UInt64 := 0
  deriving DecidableEq, Repr

namespace CBlockFileInfo

def addBlock (info : CBlockFileInfo) (nHeightIn : UInt32) (nTimeIn : UInt64) : CBlockFileInfo :=
  { info with
    nHeightFirst :=
      if info.nBlocks = 0 ∨ info.nHeightFirst > nHeightIn then nHeightIn else info.nHeightFirst
    nTimeFirst := if info.nBlocks = 0 ∨ info.nTimeFirst > nTimeIn then nTimeIn else info.nTimeFirst
    nBlocks := info.nBlocks + 1
    nHeightLast := if nHeightIn > info.nHeightLast then nHeightIn else info.nHeightLast
    nTimeLast := if nTimeIn > info.nTimeLast then nTimeIn else info.nTimeLast }

/-- The sizes are added as 32-bit numbers. -/
def nBytes (info : CBlockFileInfo) : UInt64 := (info.nSize + info.nUndoSize).toUInt64

end CBlockFileInfo

/-- What an entry of the block index says of the files. -/
structure FileEntry where
  nHeight : UInt32
  nFile : Nat := 0
  nDataPos : UInt32 := 0
  nUndoPos : UInt32 := 0
  haveData : Bool := false
  haveUndo : Bool := false
  deriving DecidableEq, Repr

structure BlockFiles where
  mapBlockIndex : UInt256 → Option FileEntry := fun _ => none
  vinfoBlockFile : List CBlockFileInfo := []
  nLastBlockFile : Nat := 0

open BlockFiles

namespace BlockFiles

/-- A file that no block was ever put into has an empty summary. -/
def info (s : BlockFiles) (nFile : Nat) : CBlockFileInfo := s.vinfoBlockFile[nFile]?.getD {}

def setInfo (s : BlockFiles) (nFile : Nat) (info : CBlockFileInfo) : BlockFiles :=
  { s with vinfoBlockFile := (s.vinfoBlockFile ++
      List.replicate (nFile + 1 - s.vinfoBlockFile.length) ({} : CBlockFileInfo)).set nFile info }

def setEntry (s : BlockFiles) (hash : UInt256) (e : FileEntry) : BlockFiles :=
  { s with mapBlockIndex := fun hash' => if hash' = hash then some e else s.mapBlockIndex hash' }

/-- The loop of `FindBlockPos` that looks for room, from the last file on. -/
def fileWithRoom (nAddSize : UInt32) : List CBlockFileInfo → Option Nat
  | [] => if nAddSize ≥ maxBlockFileSize then none else some 0
  | info :: later =>
      if info.nSize + nAddSize ≥ maxBlockFileSize then (fileWithRoom nAddSize later).map (· + 1)
      else some 0

/-- The position is known when files are read again. -/
def findBlockPos (s : BlockFiles) (known : Option (Nat × UInt32)) (nAddSize nHeight : UInt32)
    (nTime : UInt64) : Option (BlockFiles × Nat × UInt32) :=
  let pos := match known with
    | some pos => some pos
    | none => (fileWithRoom nAddSize (s.vinfoBlockFile.drop s.nLastBlockFile)).map fun n =>
        (s.nLastBlockFile + n, (s.info (s.nLastBlockFile + n)).nSize)
  pos.map fun (nFile, nPos) =>
    let info := (s.info nFile).addBlock nHeight nTime
    let nSize :=
      if known.isSome then max (nPos + nAddSize) info.nSize else info.nSize + nAddSize
    ({ s with nLastBlockFile := nFile }.setInfo nFile { info with nSize }, nFile, nPos)

/-- The part of `AcceptBlock` that stores a block which is not there yet; a block whose position is
known is in its file. Without room on the disk the summary has been changed all the same. -/
def acceptBlock (s : BlockFiles) (hash : UInt256) (known : Option (Nat × UInt32))
    (nAddSize : UInt32) (nTime : UInt64) (hasRoom : Bool) : BlockFiles :=
  match s.mapBlockIndex hash with
  | none => s
  | some e =>
      if e.haveData then s
      else
        match s.findBlockPos known nAddSize e.nHeight nTime with
        | none => s
        | some (s, nFile, nPos) =>
            if hasRoom then
              let nDataPos := if known.isSome then nPos else nPos + indexHeaderSize
              s.setEntry hash { e with nFile, nDataPos, nUndoPos := 0, haveData := true }
            else s

/-- The part of `ConnectBlock` that stores undo data, with `FindUndoPos`. -/
def writeUndo (s : BlockFiles) (hash : UInt256) (nAddSize : UInt32) (hasRoom : Bool) : BlockFiles :=
  match s.mapBlockIndex hash with
  | none => s
  | some e =>
      if e.haveData && !e.haveUndo then
        let info := s.info e.nFile
        let s := s.setInfo e.nFile { info with nUndoSize := info.nUndoSize + nAddSize }
        if hasRoom then
          s.setEntry hash { e with nUndoPos := info.nUndoSize + indexHeaderSize, haveUndo := true }
        else s
      else s

def pruneOneBlockFile (s : BlockFiles) (fileNumber : Nat) : BlockFiles :=
  setInfo { s with mapBlockIndex := fun hash => (s.mapBlockIndex hash).map fun (e : FileEntry) =>
      if e.nFile = fileNumber then
        { e with haveData := false, haveUndo := false, nFile := 0, nDataPos := 0, nUndoPos := 0 }
      else e } fileNumber {}

/-- The loop of `FindFilesToPruneManual`, with the files that go. -/
def pruneManual (nLastBlockWeCanPrune : UInt32) : List Nat → BlockFiles → BlockFiles × List Nat
  | [], s => (s, [])
  | fileNumber :: later, s =>
      if (s.info fileNumber).nSize = 0 ∨ (s.info fileNumber).nHeightLast > nLastBlockWeCanPrune then
        pruneManual nLastBlockWeCanPrune later s
      else
        let (s, files) := pruneManual nLastBlockWeCanPrune later (s.pruneOneBlockFile fileNumber)
        (s, fileNumber :: files)

def nBuffer : UInt64 := blockFileChunkSize + undoFileChunkSize

/-- The loop of `FindFilesToPrune`, which stops when the files are small enough. -/
def pruneToTarget (nPruneTarget : UInt64) (nLastBlockWeCanPrune : UInt32) :
    List Nat → UInt64 → BlockFiles → BlockFiles × List Nat
  | [], _, s => (s, [])
  | fileNumber :: later, nCurrentUsage, s =>
      if (s.info fileNumber).nSize = 0 then
        pruneToTarget nPruneTarget nLastBlockWeCanPrune later nCurrentUsage s
      else if nCurrentUsage + nBuffer < nPruneTarget then (s, [])
      else if (s.info fileNumber).nHeightLast > nLastBlockWeCanPrune then
        pruneToTarget nPruneTarget nLastBlockWeCanPrune later nCurrentUsage s
      else
        let (s, files) := pruneToTarget nPruneTarget nLastBlockWeCanPrune later
          (nCurrentUsage - (s.info fileNumber).nBytes) (s.pruneOneBlockFile fileNumber)
        (s, fileNumber :: files)

def calculateCurrentUsage (s : BlockFiles) : UInt64 :=
  s.vinfoBlockFile.foldl (fun retval file => retval + file.nBytes) 0

def findFilesToPruneManual (s : BlockFiles) (tip nManualPruneHeight : UInt32) :
    BlockFiles × List Nat :=
  pruneManual (min nManualPruneHeight (tip - minHeightsToKeep)) (List.range s.nLastBlockFile) s

def findFilesToPrune (s : BlockFiles) (tip : UInt32) (nPruneTarget nPruneAfterHeight : UInt64) :
    BlockFiles × List Nat :=
  if nPruneTarget = 0 ∨ tip.toUInt64 ≤ nPruneAfterHeight then (s, [])
  else if s.calculateCurrentUsage + nBuffer ≥ nPruneTarget then
    pruneToTarget nPruneTarget (tip - minHeightsToKeep) (List.range s.nLastBlockFile)
      s.calculateCurrentUsage s
  else (s, [])

/-- What a call of `FlushStateToDisk` prunes by; without a tip it prunes nothing. -/
inductive Pruning
  | toTarget (nPruneTarget nPruneAfterHeight : UInt64)
  | manual (nManualPruneHeight : UInt32)

def prune (s : BlockFiles) (tip : UInt32) : Pruning → BlockFiles × List Nat
  | .toTarget nPruneTarget nPruneAfterHeight => s.findFilesToPrune tip nPruneTarget nPruneAfterHeight
  | .manual nManualPruneHeight => s.findFilesToPruneManual tip nManualPruneHeight

inductive Event
  | header (hash : UInt256) (nHeight : UInt32)
  | block (hash : UInt256) (known : Option (Nat × UInt32)) (nAddSize : UInt32) (nTime : UInt64)
      (hasRoom : Bool)
  | undo (hash : UInt256) (nAddSize : UInt32) (hasRoom : Bool)
  | prune (tip : UInt32) (pruning : Pruning)

/-- A header that is known adds no entry. -/
def step (s : BlockFiles) : Event → BlockFiles
  | .header hash nHeight =>
      if (s.mapBlockIndex hash).isSome then s else s.setEntry hash { nHeight := nHeight }
  | .block hash known nAddSize nTime hasRoom => s.acceptBlock hash known nAddSize nTime hasRoom
  | .undo hash nAddSize hasRoom => s.writeUndo hash nAddSize hasRoom
  | .prune tip pruning => (s.prune tip pruning).1

def run (events : List Event) : BlockFiles := events.foldl step {}

variable {s s' t : BlockFiles} {hash : UInt256} {e : FileEntry} {nFile : Nat} {nLast : UInt32}

/-- No block that has its data lies above the summary of its file. -/
def Covered (s : BlockFiles) : Prop :=
  ∀ hash e, s.mapBlockIndex hash = some e → e.haveData = true →
    e.nHeight ≤ (s.info e.nFile).nHeightLast

theorem info_setInfo (s : BlockFiles) (nFile nFile' : Nat) (info : CBlockFileInfo) :
    (s.setInfo nFile info).info nFile' = if nFile' = nFile then info else s.info nFile' := by
  unfold setInfo BlockFiles.info
  rw [getElem?_set]
  by_cases h : nFile = nFile'
  · have hlt : nFile' < s.vinfoBlockFile.length + (nFile' + 1 - s.vinfoBlockFile.length) := by omega
    simp [h, hlt]
  · rw [if_neg h, if_neg (Ne.symm h), getElem?_append, getElem?_replicate]
    split
    · rfl
    · next hlt =>
        rw [getElem?_eq_none (Nat.not_lt.mp hlt)]
        split <;> rfl

theorem le_addBlock (info : CBlockFileInfo) (nHeight : UInt32) (nTime : UInt64) :
    info.nHeightLast ≤ (info.addBlock nHeight nTime).nHeightLast ∧
      nHeight ≤ (info.addBlock nHeight nTime).nHeightLast := by
  simp only [CBlockFileInfo.addBlock]
  split
  · next h => exact ⟨UInt32.le_of_lt h, UInt32.le_refl _⟩
  · next h => exact ⟨UInt32.le_refl _, UInt32.not_lt.mp h⟩

theorem Covered.setInfo (h : s.Covered) (info : CBlockFileInfo)
    (hle : (s.info nFile).nHeightLast ≤ info.nHeightLast) : (s.setInfo nFile info).Covered := by
  intro hash e he hdata
  rw [info_setInfo]
  have hold := h hash e he hdata
  split
  · next heq =>
      rw [heq] at hold
      exact UInt32.le_trans hold hle
  · exact hold

theorem Covered.setEntry (h : s.Covered)
    (he : e.haveData = true → e.nHeight ≤ (s.info e.nFile).nHeightLast) :
    (s.setEntry hash e).Covered := by
  intro hash' e' he' hdata
  simp only [BlockFiles.setEntry] at he'
  split at he'
  · cases he'
    exact he hdata
  · exact h hash' e' he' hdata

theorem Covered.findBlockPos (h : s.Covered) {known : Option (Nat × UInt32)}
    {nAddSize nHeight nPos : UInt32} {nTime : UInt64}
    (hpos : s.findBlockPos known nAddSize nHeight nTime = some (s', nFile, nPos)) :
    s'.Covered ∧ nHeight ≤ (s'.info nFile).nHeightLast := by
  obtain ⟨⟨nFile, nPos⟩, -, heq⟩ := map_eq_some_iff.mp hpos
  cases heq
  have hle := le_addBlock (s.info nFile) nHeight nTime
  have hs : Covered { s with nLastBlockFile := nFile } := h
  rw [info_setInfo, if_pos rfl]
  exact ⟨hs.setInfo _ hle.1, hle.2⟩

theorem Covered.acceptBlock (h : s.Covered) (hash : UInt256) (known : Option (Nat × UInt32))
    (nAddSize : UInt32) (nTime : UInt64) (hasRoom : Bool) :
    (s.acceptBlock hash known nAddSize nTime hasRoom).Covered := by
  unfold BlockFiles.acceptBlock
  split
  · exact h
  · split
    · exact h
    · split
      · exact h
      · next hpos =>
          obtain ⟨hcovered, hheight⟩ := h.findBlockPos hpos
          split
          · exact hcovered.setEntry fun _ => hheight
          · exact hcovered

theorem Covered.writeUndo (h : s.Covered) (hash : UInt256) (nAddSize : UInt32) (hasRoom : Bool) :
    (s.writeUndo hash nAddSize hasRoom).Covered := by
  unfold BlockFiles.writeUndo
  split
  · exact h
  · next e he =>
      split
      · next hdata =>
          rw [Bool.and_eq_true] at hdata
          have hcovered := h.setInfo { s.info e.nFile with
            nUndoSize := (s.info e.nFile).nUndoSize + nAddSize } (UInt32.le_refl _)
          dsimp only
          split
          · refine hcovered.setEntry fun _ => ?_
            rw [info_setInfo, if_pos rfl]
            exact h hash e he hdata.1
          · exact hcovered
      · exact h

/-- Files are pruned: the blocks above a height keep everything, and only blocks of these files lose
their data. -/
structure Prunes (nLast : UInt32) (files : List Nat) (s t : BlockFiles) : Prop where
  covered : t.Covered
  kept : ∀ {hash e}, s.mapBlockIndex hash = some e → e.haveData = true → nLast < e.nHeight →
    t.mapBlockIndex hash = some e
  lost : ∀ {hash e}, s.mapBlockIndex hash = some e → e.nFile ∉ files → t.mapBlockIndex hash = some e

theorem Prunes.nothing (h : s.Covered) : Prunes nLast [] s s := ⟨h, fun he _ _ => he, fun he _ => he⟩

theorem Prunes.cons {files : List Nat} (h : s.Covered) (hlast : (s.info nFile).nHeightLast ≤ nLast)
    (hrest : (s.pruneOneBlockFile nFile).Covered → Prunes nLast files (s.pruneOneBlockFile nFile) t) :
    Prunes nLast (nFile :: files) s t := by
  have hother : ∀ {hash e}, s.mapBlockIndex hash = some e → e.nFile ≠ nFile →
      (s.pruneOneBlockFile nFile).mapBlockIndex hash = some e := by
    intro hash e he hne
    simp [pruneOneBlockFile, setInfo, he, hne]
  have hcovered : (s.pruneOneBlockFile nFile).Covered := by
    intro hash e he hdata
    obtain ⟨e', he', heq⟩ := map_eq_some_iff.mp he
    split at heq
    · rw [← heq] at hdata
      cases hdata
    · next hne =>
        subst heq
        unfold pruneOneBlockFile
        rw [info_setInfo, if_neg hne]
        exact h hash _ he' hdata
  have hrest := hrest hcovered
  refine ⟨hrest.covered, fun {hash e} he hdata hlt => ?_, fun {hash e} he hout => ?_⟩
  · -- a block this high is not in a file that ends so low
    have hne : e.nFile ≠ nFile := by
      intro heq
      have hle := h hash e he hdata
      rw [heq] at hle
      exact UInt32.lt_irrefl _ (UInt32.lt_of_lt_of_le hlt (UInt32.le_trans hle hlast))
    exact hrest.kept (hother he hne) hdata hlt
  · rw [mem_cons, not_or] at hout
    exact hrest.lost (hother he hout.1) hout.2

theorem pruneManual_prunes (nLast : UInt32) (l : List Nat) (h : s.Covered) :
    Prunes nLast (pruneManual nLast l s).2 s (pruneManual nLast l s).1 := by
  induction l generalizing s with
  | nil => exact .nothing h
  | cons nFile later ih =>
    unfold pruneManual
    split
    · exact ih h
    · next hskip =>
        exact .cons h (UInt32.not_lt.mp (not_or.mp hskip).2) ih

theorem pruneToTarget_prunes (nPruneTarget : UInt64) (nLast : UInt32) (l : List Nat)
    (nCurrentUsage : UInt64) (h : s.Covered) :
    Prunes nLast (pruneToTarget nPruneTarget nLast l nCurrentUsage s).2 s
      (pruneToTarget nPruneTarget nLast l nCurrentUsage s).1 := by
  induction l generalizing s nCurrentUsage with
  | nil => exact .nothing h
  | cons nFile later ih =>
    unfold pruneToTarget
    split
    · exact ih _ h
    · split
      · exact .nothing h
      · split
        · exact ih _ h
        · next hskip => exact .cons h (UInt32.not_lt.mp hskip) (ih _)

/-- Whatever the height of the tip; the subtraction may wrap. -/
theorem prune_prunes (tip : UInt32) (pruning : Pruning) (h : s.Covered) :
    ∃ nLast ≤ tip - minHeightsToKeep,
      Prunes nLast (s.prune tip pruning).2 s (s.prune tip pruning).1 := by
  cases pruning with
  | manual nManualPruneHeight =>
    exact ⟨_, Std.min_le_right, pruneManual_prunes _ _ h⟩
  | toTarget nPruneTarget nPruneAfterHeight =>
    refine ⟨_, UInt32.le_refl _, ?_⟩
    simp only [prune, findFilesToPrune]
    split
    · exact .nothing h
    · split
      · exact pruneToTarget_prunes _ _ _ _ h
      · exact .nothing h

theorem Covered.step (h : s.Covered) (event : Event) : (s.step event).Covered := by
  cases event with
  | header hash nHeight =>
    unfold BlockFiles.step
    dsimp only
    split
    · exact h
    · exact h.setEntry fun hdata => by cases hdata
  | block hash known nAddSize nTime hasRoom => exact h.acceptBlock hash known nAddSize nTime hasRoom
  | undo hash nAddSize hasRoom => exact h.writeUndo hash nAddSize hasRoom
  | prune tip pruning =>
    obtain ⟨nLast, -, hprunes⟩ := prune_prunes tip pruning h
    exact hprunes.covered

theorem covered_run (events : List Event) : (run events).Covered :=
  List.foldlRecOn events step (fun _ _ he => by cases he) fun _ hs event _ => hs.step event

end BlockFiles

open BlockFiles

/-- Pruning leaves the data and the undo data of every block above the last 288 heights, and takes
the data of no block whose file it does not return. -/
theorem pruning_keeps_recent (events : List BlockFiles.Event) (tip : UInt32)
    (htip : 288 < tip.toNat) (pruning : Pruning) (hash : UInt256) (e : FileEntry)
    (he : (run events).mapBlockIndex hash = some e) (hdata : e.haveData = true) :
    (tip.toNat - 288 < e.nHeight.toNat →
      ((run events).prune tip pruning).1.mapBlockIndex hash = some e) ∧
    ∀ e', ((run events).prune tip pruning).1.mapBlockIndex hash = some e' →
      e'.haveData = false → e.nFile ∈ ((run events).prune tip pruning).2 := by
  obtain ⟨nLast, hle, hprunes⟩ := prune_prunes tip pruning (covered_run events)
  constructor
  · intro hlt
    apply hprunes.kept he hdata (UInt32.lt_of_le_of_lt hle _)
    rw [UInt32.lt_iff_toNat_lt, UInt32.toNat_sub_of_le _ _ (UInt32.le_of_lt htip)]
    exact hlt
  · intro e' he' hlost
    by_contra hout
    rw [hprunes.lost he hout] at he'
    cases he'
    rw [hdata] at hlost
    cases hlost

/-- A low block in the first file and a high one in the second. -/
def twoFiles : List BlockFiles.Event :=
  [.header 1 5, .header 2 300, .block 1 none 100 0 true, .undo 1 10 true,
    .block 2 (some (1, 0)) 100 0 true, .undo 2 10 true]

theorem twoFiles_pruned :
    ((run twoFiles).prune 400 (.manual 100)).2 = [0] ∧
      ((run twoFiles).prune 400 (.manual 100)).1.mapBlockIndex 1 = some { nHeight := 5 } ∧
      ((run twoFiles).prune 400 (.manual 100)).1.mapBlockIndex 2 =
        some ⟨300, 1, 0, 8, true, true⟩ := by
  refine ⟨by decide +kernel, by decide +kernel, ?_⟩
  exact (pruning_keeps_recent twoFiles 400 (by decide) (.manual 100) 2 _ (by decide +kernel) rfl).1
    (by decide)

end HnbCore
