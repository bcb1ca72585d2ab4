import Mathlib
import TbcNode.Logic.Bump
import TbcNode.Logic.Sequence

/-! # Block and undo files (`blockfileinfostore.cpp`)

`FindBlockPos` and `FindUndoPos` hand out space at the end of a file and grow its size, so over
any run the ranges handed out are disjoint (`allocRun_disjoint`). The position handed out is an
`unsigned int`: the 64-bit size modulo `2 ^ 32`, which an undo file can pass.
-/

namespace TbcNode.Chain

open TbcNode.Logic

def BLOCKFILE_CHUNK_SIZE : UInt32 := 0x1000000

def UNDOFILE_CHUNK_SIZE : UInt32 := 0x100000

def MIN_BLOCKS_TO_KEEP : UInt32 := 288

/-- `CBlockFileInfo`. -/
structure CBlockFileInfo where
  nBlocks : Nat
  nHeightFirst : UInt32
  nHeightLast : UInt32
  nTimeFirst : Nat
  nTimeLast : Nat
  nSize : Nat
  nUndoSize : Nat
  deriving DecidableEq, Repr

def CBlockFileInfo.null : CBlockFileInfo := ⟨0, 0, 0, 0, 0, 0, 0⟩

/-- `CBlockFileInfo::AddBlock`: the statistics of one more block, not its size. -/
def CBlockFileInfo.addBlock (info : CBlockFileInfo) (nHeightIn : UInt32) (nTimeIn : Nat) :
    CBlockFileInfo :=
  { info with
    nHeightFirst :=
      if info.nBlocks = 0 ∨ info.nHeightFirst > nHeightIn then nHeightIn else info.nHeightFirst
    nTimeFirst := if info.nBlocks = 0 ∨ info.nTimeFirst > nTimeIn then nTimeIn else info.nTimeFirst
    nBlocks := info.nBlocks + 1
    nHeightLast := if nHeightIn > info.nHeightLast then nHeightIn else info.nHeightLast
    nTimeLast := if nTimeIn > info.nTimeLast then nTimeIn else info.nTimeLast }

@[simp] theorem CBlockFileInfo.addBlock_nSize (info : CBlockFileInfo) (nHeightIn : UInt32)
    (nTimeIn : Nat) : (info.addBlock nHeightIn nTimeIn).nSize = info.nSize := rfl

@[simp] theorem CBlockFileInfo.addBlock_nUndoSize (info : CBlockFileInfo) (nHeightIn : UInt32)
    (nTimeIn : Nat) : (info.addBlock nHeightIn nTimeIn).nUndoSize = info.nUndoSize := rfl

/-- `CDiskBlockPos`: a file number and an `unsigned int` position in it. -/
structure CDiskBlockPos where
  nFile : Nat
  nPos : UInt32
  deriving DecidableEq, Repr

/-- `CBlockFileInfoStore`: the file table and the last block file. -/
structure CBlockFileInfoStore where
  vinfoBlockFile : List CBlockFileInfo
  nLastBlockFile : Nat
  deriving Repr

/-- `vinfoBlockFile[n]`; an index out of range is an error. -/
def readInfo (vinfo : List CBlockFileInfo) (n : Nat) : Except String CBlockFileInfo :=
  if n < vinfo.length then .ok (vinfo.getD n .null) else .error "vinfoBlockFile index out of range"

def growTo (vinfo : List CBlockFileInfo) (nFile : Nat) : List CBlockFileInfo :=
  if vinfo.length ≤ nFile then resize vinfo (nFile + 1) .null else vinfo

/-- The loop of `FindNextFileWithEnoughEmptySpace`: the first file from `nFile` on that is empty or
has room for `nAddSize` bytes below the preferred size. Past the end of the table every file is
empty, so the loop stops there at the latest. -/
def findNextFile (preferredBlockFileSize nAddSize : Nat) (vinfo : List CBlockFileInfo)
    (nFile : Nat) : Nat :=
  if nFile < vinfo.length then
    if (vinfo.getD nFile .null).nSize ≠ 0 ∧
        (vinfo.getD nFile .null).nSize + nAddSize ≥ preferredBlockFileSize then
      findNextFile preferredBlockFileSize nAddSize vinfo (nFile + 1)
    else nFile
  else nFile
termination_by vinfo.length - nFile

/-- `FindNextFileWithEnoughEmptySpace`: the file found, and the table grown to hold it. The source
grows the table one file at a time as the loop passes its end; the loop stops at the first file
past the old end, so the table ends the same. -/
def findNextFileWithEnoughEmptySpace (preferredBlockFileSize nAddSize : Nat)
    (vinfo : List CBlockFileInfo) (nFile : Nat) : List CBlockFileInfo × Nat :=
  let nFile := findNextFile preferredBlockFileSize nAddSize vinfo nFile
  (growTo vinfo nFile, nFile)

/-- The pre-allocation of `FindBlockPos` and `FindUndoPos` after a file grew from `nPos` to
`nNewSize` bytes: when it enters a new chunk, pruning is to be checked and the disk must have room
for the chunks. It returns whether there was room and `fCheckForPruning`. -/
def preallocate (chunkSize : UInt32) (checkDiskSpace : Nat → Bool) (fPruneMode : Bool)
    (nPos : UInt32) (nNewSize : Nat) (fCheckForPruning : Bool) : Bool × Bool :=
  let nOldChunks := ((nPos + chunkSize - 1) / chunkSize).toNat
  let nNewChunks := (nNewSize + chunkSize.toNat - 1) / chunkSize.toNat
  if nNewChunks > nOldChunks then
    (checkDiskSpace (nNewChunks * chunkSize.toNat - nPos.toNat), fCheckForPruning || fPruneMode)
  else (true, fCheckForPruning)

/-- `FindBlockPos` with the preferred block file size, `CheckDiskSpace` and `fPruneMode`: whether
it succeeded, the position, `fCheckForPruning`, and the store after. An out-of-disk-space failure
returns `false` with the sizes already grown, as the source does. A change of file also logs and
flushes the file left, which only touches the disk. -/
def findBlockPos (preferredBlockFileSize : Nat) (checkDiskSpace : Nat → Bool) (fPruneMode : Bool)
    (s : CBlockFileInfoStore) (pos : CDiskBlockPos) (nAddSize : Nat) (nHeight : UInt32)
    (nTime : Nat) (fCheckForPruning fKnown : Bool) :
    Except String (Bool × CDiskBlockPos × Bool × CBlockFileInfoStore) := do
  let nFile := if fKnown then pos.nFile else s.nLastBlockFile
  let vinfo := growTo s.vinfoBlockFile nFile
  let (vinfo, nFile, pos) ← if fKnown then pure (vinfo, nFile, pos) else do
    let (vinfo, nFile) :=
      findNextFileWithEnoughEmptySpace preferredBlockFileSize nAddSize vinfo nFile
    let info ← readInfo vinfo nFile
    pure (vinfo, nFile, (⟨nFile, UInt32.ofNat info.nSize⟩ : CDiskBlockPos))
  let info ← readInfo vinfo nFile
  let info := info.addBlock nHeight nTime
  let info : CBlockFileInfo :=
    if fKnown then { info with nSize := max (pos.nPos.toNat + nAddSize) info.nSize }
    else { info with nSize := info.nSize + nAddSize }
  let s : CBlockFileInfoStore := ⟨vinfo.set nFile info, nFile⟩
  if fKnown then pure (true, pos, fCheckForPruning, s)
  else
    let prealloc := preallocate BLOCKFILE_CHUNK_SIZE checkDiskSpace fPruneMode pos.nPos info.nSize
      fCheckForPruning
    pure (prealloc.1, pos, prealloc.2, s)

/-- `FindUndoPos`: as `FindBlockPos` for the undo file of `nFile`, with no preferred size. -/
def findUndoPos (checkDiskSpace : Nat → Bool) (fPruneMode : Bool) (s : CBlockFileInfoStore)
    (nFile : Nat) (nAddSize : Nat) (fCheckForPruning : Bool) :
    Except String (Bool × CDiskBlockPos × Bool × CBlockFileInfoStore) := do
  let info ← readInfo s.vinfoBlockFile nFile
  let pos : CDiskBlockPos := ⟨nFile, UInt32.ofNat info.nUndoSize⟩
  let nNewSize := info.nUndoSize + nAddSize
  let s := { s with
    vinfoBlockFile := s.vinfoBlockFile.set nFile { info with nUndoSize := nNewSize } }
  let prealloc := preallocate UNDOFILE_CHUNK_SIZE checkDiskSpace fPruneMode pos.nPos nNewSize
    fCheckForPruning
  pure (prealloc.1, pos, prealloc.2, s)

/-! ### Reading the file table -/

/-- The bytes a file's block file uses, `0` past the end of the table. -/
def blockSize (vinfo : List CBlockFileInfo) (f : Nat) : Nat := (vinfo.getD f .null).nSize

/-- The bytes a file's undo file uses, `0` past the end of the table. -/
def undoSize (vinfo : List CBlockFileInfo) (f : Nat) : Nat := (vinfo.getD f .null).nUndoSize

theorem readInfo_of_lt {vinfo : List CBlockFileInfo} {n : Nat} (h : n < vinfo.length) :
    readInfo vinfo n = .ok (vinfo.getD n .null) := if_pos h

theorem readInfo_of_le {vinfo : List CBlockFileInfo} {n : Nat} (h : vinfo.length ≤ n) :
    readInfo vinfo n = .error "vinfoBlockFile index out of range" := if_neg (by omega)

@[simp] theorem getD_growTo (vinfo : List CBlockFileInfo) (n i : Nat) :
    (growTo vinfo n).getD i .null = vinfo.getD i .null := by
  unfold growTo
  split
  · rw [getD_resize]
    split
    · rfl
    · rw [List.getD_eq_default _ _ (by omega)]
  · rfl

theorem lt_length_growTo (vinfo : List CBlockFileInfo) (n : Nat) : n < (growTo vinfo n).length := by
  unfold growTo
  split
  · rw [length_resize]
    omega
  · omega

theorem length_le_growTo (vinfo : List CBlockFileInfo) (n : Nat) :
    vinfo.length ≤ (growTo vinfo n).length := by
  unfold growTo
  split
  · rw [length_resize]
    omega
  · exact Nat.le_refl _

theorem le_findNextFile (preferredBlockFileSize nAddSize : Nat) (vinfo : List CBlockFileInfo)
    (nFile : Nat) : nFile ≤ findNextFile preferredBlockFileSize nAddSize vinfo nFile := by
  fun_induction findNextFile preferredBlockFileSize nAddSize vinfo nFile with
  | case1 nFile _ _ ih => omega
  | case2 => exact Nat.le_refl _
  | case3 => exact Nat.le_refl _

theorem findNextFile_fits (preferredBlockFileSize nAddSize : Nat) (vinfo : List CBlockFileInfo)
    (nFile : Nat) :
    blockSize vinfo (findNextFile preferredBlockFileSize nAddSize vinfo nFile) = 0 ∨
      blockSize vinfo (findNextFile preferredBlockFileSize nAddSize vinfo nFile) + nAddSize <
        preferredBlockFileSize := by
  fun_induction findNextFile preferredBlockFileSize nAddSize vinfo nFile with
  | case1 _ _ _ ih => exact ih
  | case2 nFile _ hfull =>
    unfold blockSize
    omega
  | case3 nFile hout =>
    left
    rw [blockSize, List.getD_eq_default _ _ (by omega)]
    rfl

/-! ### `FindBlockPos` and `FindUndoPos` -/

/-- The file `FindBlockPos` puts a block of `nAddSize` bytes in when its position is not known. -/
def nextBlockFile (preferredBlockFileSize nAddSize : Nat) (s : CBlockFileInfoStore) : Nat :=
  findNextFile preferredBlockFileSize nAddSize (growTo s.vinfoBlockFile s.nLastBlockFile)
    s.nLastBlockFile

/-- The store after a block of `nAddSize` bytes went to the end of file `f`. -/
def addBlockAt (s : CBlockFileInfoStore) (f nAddSize : Nat) (nHeight : UInt32) (nTime : Nat) :
    CBlockFileInfoStore :=
  ⟨(growTo (growTo s.vinfoBlockFile s.nLastBlockFile) f).set f
    { (s.vinfoBlockFile.getD f .null).addBlock nHeight nTime with
      nSize := blockSize s.vinfoBlockFile f + nAddSize }, f⟩

theorem findBlockPos_unknown (preferredBlockFileSize : Nat) (checkDiskSpace : Nat → Bool)
    (fPruneMode : Bool) (s : CBlockFileInfoStore) (pos : CDiskBlockPos) (nAddSize : Nat)
    (nHeight : UInt32) (nTime : Nat) (fCheckForPruning : Bool) :
    findBlockPos preferredBlockFileSize checkDiskSpace fPruneMode s pos nAddSize nHeight nTime
        fCheckForPruning false =
      let f := nextBlockFile preferredBlockFileSize nAddSize s
      let prealloc := preallocate BLOCKFILE_CHUNK_SIZE checkDiskSpace fPruneMode
        (UInt32.ofNat (blockSize s.vinfoBlockFile f)) (blockSize s.vinfoBlockFile f + nAddSize)
        fCheckForPruning
      .ok (prealloc.1, ⟨f, UInt32.ofNat (blockSize s.vinfoBlockFile f)⟩, prealloc.2,
        addBlockAt s f nAddSize nHeight nTime) := by
  have hf := lt_length_growTo (growTo s.vinfoBlockFile s.nLastBlockFile)
    (nextBlockFile preferredBlockFileSize nAddSize s)
  unfold findBlockPos
  rw [if_neg Bool.false_ne_true, if_neg Bool.false_ne_true, findNextFileWithEnoughEmptySpace]
  rw [nextBlockFile] at hf
  simp only [bind, Except.bind, pure, Except.pure, readInfo_of_lt hf, getD_growTo,
    Bool.false_eq_true, if_false]
  rfl

/-- The size of a block file, or with the flag set of an undo file. -/
def fileSize (vinfo : List CBlockFileInfo) : Bool × Nat → Nat
  | (true, f) => undoSize vinfo f
  | (false, f) => blockSize vinfo f

theorem fileSize_addBlockAt (s : CBlockFileInfoStore) (f nAddSize : Nat) (nHeight : UInt32)
    (nTime : Nat) :
    fileSize (addBlockAt s f nAddSize nHeight nTime).vinfoBlockFile =
      Function.update (fileSize s.vinfoBlockFile) (false, f)
        (fileSize s.vinfoBlockFile (false, f) + nAddSize) := by
  have hf := lt_length_growTo (growTo s.vinfoBlockFile s.nLastBlockFile) f
  funext ⟨undo, g⟩
  cases undo with
  | true =>
    rw [Function.update_of_ne (by simp)]
    simp only [fileSize, undoSize, addBlockAt, getD_set, getD_growTo]
    split_ifs with hg
    · obtain ⟨rfl, -⟩ := hg
      rfl
    · rfl
  | false =>
    by_cases hg : g = f
    · subst hg
      simp only [fileSize, blockSize, addBlockAt, getD_set, Function.update_self, hf, and_self,
        if_true]
    · rw [Function.update_of_ne (by simp [hg])]
      simp only [fileSize, blockSize, addBlockAt, getD_set, getD_growTo, Ne.symm hg, false_and,
        if_false]

/-- The store after `nAddSize` bytes of undo data went to the end of the undo file of `f`. -/
def addUndoAt (s : CBlockFileInfoStore) (f nAddSize : Nat) : CBlockFileInfoStore :=
  ⟨s.vinfoBlockFile.set f
    { (s.vinfoBlockFile.getD f .null) with nUndoSize := undoSize s.vinfoBlockFile f + nAddSize },
    s.nLastBlockFile⟩

theorem findUndoPos_of_lt (checkDiskSpace : Nat → Bool) (fPruneMode : Bool)
    (s : CBlockFileInfoStore) {nFile : Nat} (nAddSize : Nat) (fCheckForPruning : Bool)
    (h : nFile < s.vinfoBlockFile.length) :
    findUndoPos checkDiskSpace fPruneMode s nFile nAddSize fCheckForPruning =
      let prealloc := preallocate UNDOFILE_CHUNK_SIZE checkDiskSpace fPruneMode
        (UInt32.ofNat (undoSize s.vinfoBlockFile nFile)) (undoSize s.vinfoBlockFile nFile + nAddSize)
        fCheckForPruning
      .ok (prealloc.1, ⟨nFile, UInt32.ofNat (undoSize s.vinfoBlockFile nFile)⟩, prealloc.2,
        addUndoAt s nFile nAddSize) := by
  unfold findUndoPos
  rw [readInfo_of_lt h]
  rfl

theorem findUndoPos_of_le (checkDiskSpace : Nat → Bool) (fPruneMode : Bool)
    (s : CBlockFileInfoStore) {nFile : Nat} (nAddSize : Nat) (fCheckForPruning : Bool)
    (h : s.vinfoBlockFile.length ≤ nFile) :
    findUndoPos checkDiskSpace fPruneMode s nFile nAddSize fCheckForPruning =
      .error "vinfoBlockFile index out of range" := by
  unfold findUndoPos
  rw [readInfo_of_le h]
  rfl

theorem fileSize_addUndoAt (s : CBlockFileInfoStore) {f : Nat} (nAddSize : Nat)
    (hf : f < s.vinfoBlockFile.length) :
    fileSize (addUndoAt s f nAddSize).vinfoBlockFile =
      Function.update (fileSize s.vinfoBlockFile) (true, f)
        (fileSize s.vinfoBlockFile (true, f) + nAddSize) := by
  funext ⟨undo, g⟩
  cases undo with
  | true =>
    by_cases hg : g = f
    · subst hg
      simp only [fileSize, undoSize, addUndoAt, getD_set, Function.update_self, hf, and_self,
        if_true]
    · rw [Function.update_of_ne (by simp [hg])]
      simp only [fileSize, undoSize, addUndoAt, getD_set, Ne.symm hg, false_and, if_false]
  | false =>
    rw [Function.update_of_ne (by simp)]
    simp only [fileSize, blockSize, addUndoAt, getD_set]
    split_ifs with hg
    · obtain ⟨rfl, -⟩ := hg
      rfl
    · rfl

/-! ### Runs of allocations -/

/-- A request for space: a block whose position is not known, or undo data for a file. -/
inductive AllocOp
  | block (nAddSize : Nat) (nHeight : UInt32) (nTime : Nat)
  | undo (nFile : Nat) (nAddSize : Nat)
  deriving DecidableEq, Repr

/-- One request: whether it was undo space, the position and the size handed out, the store
after, and `fCheckForPruning`. -/
def AllocOp.apply (preferredBlockFileSize : Nat) (checkDiskSpace : Nat → Bool) (fPruneMode : Bool)
    (s : CBlockFileInfoStore) (fCheckForPruning : Bool) :
    AllocOp → Except String ((Bool × CDiskBlockPos × Nat) × CBlockFileInfoStore × Bool)
  | .block nAddSize nHeight nTime => do
    let r ← findBlockPos preferredBlockFileSize checkDiskSpace fPruneMode s ⟨0, 0⟩ nAddSize nHeight
      nTime fCheckForPruning false
    pure ((false, r.2.1, nAddSize), r.2.2.2, r.2.2.1)
  | .undo nFile nAddSize => do
    let r ← findUndoPos checkDiskSpace fPruneMode s nFile nAddSize fCheckForPruning
    pure ((true, r.2.1, nAddSize), r.2.2.2, r.2.2.1)

/-- The requests one after another, with what each handed out. -/
def allocRun (preferredBlockFileSize : Nat) (checkDiskSpace : Nat → Bool) (fPruneMode : Bool) :
    List AllocOp → CBlockFileInfoStore → Bool →
      Except String (List (Bool × CDiskBlockPos × Nat) × CBlockFileInfoStore × Bool)
  | [], s, fCheckForPruning => .ok ([], s, fCheckForPruning)
  | op :: ops, s, fCheckForPruning => do
    let r ← op.apply preferredBlockFileSize checkDiskSpace fPruneMode s fCheckForPruning
    let rs ← allocRun preferredBlockFileSize checkDiskSpace fPruneMode ops r.2.1 r.2.2
    pure (r.1 :: rs.1, rs.2)

/-- What a range of the 64-bit sizes is handed out as: the kind of file, the position with the
size reduced to an `unsigned int`, and the size. -/
def handedOf (r : Range (Bool × Nat)) : Bool × CDiskBlockPos × Nat :=
  (r.key.1, ⟨r.key.2, UInt32.ofNat r.start⟩, r.size)

/-- A range handed out to a block file starts at `0` or ends below the preferred size. -/
def Range.Fits (preferredBlockFileSize : Nat) (r : Range (Bool × Nat)) : Prop :=
  r.key.1 = false → r.start = 0 ∨ r.start + r.size < preferredBlockFileSize

theorem AllocOp.apply_spec {preferredBlockFileSize : Nat} {checkDiskSpace : Nat → Bool}
    {fPruneMode : Bool} {s s' : CBlockFileInfoStore} {fCheckForPruning fCheckForPruning' : Bool}
    {op : AllocOp} {h : Bool × CDiskBlockPos × Nat}
    (hop : op.apply preferredBlockFileSize checkDiskSpace fPruneMode s fCheckForPruning =
      .ok (h, s', fCheckForPruning')) :
    ∃ k n, h = handedOf ⟨k, fileSize s.vinfoBlockFile k, n⟩ ∧
      fileSize s'.vinfoBlockFile =
        Function.update (fileSize s.vinfoBlockFile) k (fileSize s.vinfoBlockFile k + n) ∧
      Range.Fits preferredBlockFileSize ⟨k, fileSize s.vinfoBlockFile k, n⟩ := by
  cases op with
  | block nAddSize nHeight nTime =>
    rw [AllocOp.apply, findBlockPos_unknown] at hop
    cases hop
    refine ⟨(false, nextBlockFile preferredBlockFileSize nAddSize s), nAddSize, rfl,
      fileSize_addBlockAt _ _ _ _ _, fun _ => ?_⟩
    have hfits := findNextFile_fits preferredBlockFileSize nAddSize
      (growTo s.vinfoBlockFile s.nLastBlockFile) s.nLastBlockFile
    simpa only [fileSize, blockSize, nextBlockFile, getD_growTo] using hfits
  | undo nFile nAddSize =>
    by_cases hf : nFile < s.vinfoBlockFile.length
    · rw [AllocOp.apply, findUndoPos_of_lt _ _ _ _ _ hf] at hop
      cases hop
      exact ⟨(true, nFile), nAddSize, rfl, fileSize_addUndoAt s nAddSize hf, fun h => nomatch h⟩
    · rw [AllocOp.apply, findUndoPos_of_le _ _ _ _ _ (Nat.le_of_not_lt hf)] at hop
      cases hop

theorem allocRun_bumped {preferredBlockFileSize : Nat} {checkDiskSpace : Nat → Bool}
    {fPruneMode : Bool} (ops : List AllocOp) :
    ∀ {s s' : CBlockFileInfoStore} {fCheckForPruning fCheckForPruning' : Bool}
      {R₀ : List (Range (Bool × Nat))} {hs : List (Bool × CDiskBlockPos × Nat)},
      Bumped (fileSize s.vinfoBlockFile) R₀ →
      allocRun preferredBlockFileSize checkDiskSpace fPruneMode ops s fCheckForPruning =
        .ok (hs, s', fCheckForPruning') →
      ∃ R, Bumped (fileSize s'.vinfoBlockFile) (R₀ ++ R) ∧
        (∀ r ∈ R, Range.Fits preferredBlockFileSize r) ∧ hs = R.map handedOf := by
  induction ops with
  | nil =>
    intro s s' _ _ R₀ hs hR hrun
    cases hrun
    exact ⟨[], by simpa using hR, by simp, rfl⟩
  | cons op ops ih =>
    intro s s' _ _ R₀ hs hR hrun
    simp only [allocRun, bind, Except.bind] at hrun
    split at hrun
    · cases hrun
    · rename_i r hop
      obtain ⟨h, s₁, fCheckForPruning₁⟩ := r
      split at hrun
      · cases hrun
      · rename_i rs hrest
        obtain ⟨hs', s₂, fCheckForPruning₂⟩ := rs
        cases hrun
        obtain ⟨k, n, rfl, hsize, hfits⟩ := AllocOp.apply_spec hop
        have hR' := hR.bump_update k n
        rw [← hsize] at hR'
        obtain ⟨R, hbumped, hfitsR, hmap⟩ := ih hR' hrest
        refine ⟨⟨k, fileSize s.vinfoBlockFile k, n⟩ :: R, by simpa using hbumped, ?_, ?_⟩
        · intro r hr
          rcases List.mem_cons.mp hr with rfl | hr
          · exact hfits
          · exact hfitsR r hr
        · rw [List.map_cons, ← hmap]

/-- The ranges of a run from any store: at one file, an earlier range of the 64-bit sizes ends
before a later one starts, and every one lies below the file's size at the end. -/
theorem allocRun_disjoint {preferredBlockFileSize : Nat} {checkDiskSpace : Nat → Bool}
    {fPruneMode : Bool} {ops : List AllocOp} {s s' : CBlockFileInfoStore}
    {fCheckForPruning fCheckForPruning' : Bool} {hs : List (Bool × CDiskBlockPos × Nat)}
    (hrun : allocRun preferredBlockFileSize checkDiskSpace fPruneMode ops s fCheckForPruning =
      .ok (hs, s', fCheckForPruning')) :
    ∃ R, Bumped (fileSize s'.vinfoBlockFile) R ∧
      (∀ r ∈ R, Range.Fits preferredBlockFileSize r) ∧ hs = R.map handedOf := by
  simpa using allocRun_bumped ops (bumped_nil _) hrun

theorem allocRun_disjoint_sample :
    allocRun 0x8000000 (fun _ => true) false [.undo 0 10, .undo 0 20] ⟨[.null], 0⟩ false =
      .ok ([(true, ⟨0, 0⟩, 10), (true, ⟨0, 10⟩, 20)],
        ⟨[{ CBlockFileInfo.null with nUndoSize := 30 }], 0⟩, false) ∧
    ∃ R, Bumped (fileSize [{ CBlockFileInfo.null with nUndoSize := 30 }]) R ∧
      (∀ r ∈ R, Range.Fits 0x8000000 r) ∧ [(true, ⟨0, 0⟩, 10), (true, ⟨0, 10⟩, 20)] = R.map handedOf :=
  have hrun : allocRun 0x8000000 (fun _ => true) false [.undo 0 10, .undo 0 20] ⟨[.null], 0⟩ false =
      .ok ([(true, ⟨0, 0⟩, 10), (true, ⟨0, 10⟩, 20)],
        ⟨[{ CBlockFileInfo.null with nUndoSize := 30 }], 0⟩, false) := rfl
  ⟨hrun, allocRun_disjoint hrun⟩

def DEFAULT_PREFERRED_BLOCKFILE_SIZE : Nat := 0x8000000

/-- Two undo allocations in one file, of `2 ^ 32` bytes and then of `10`, are both handed out at
position `0`: the second range overlaps the first, as its start no longer fits an `unsigned int`. -/
theorem undo_positions_wrap :
    allocRun DEFAULT_PREFERRED_BLOCKFILE_SIZE (fun _ => true) false
        [.undo 0 (2 ^ 32), .undo 0 10] ⟨[.null], 0⟩ false =
      .ok ([(true, ⟨0, 0⟩, 2 ^ 32), (true, ⟨0, 0⟩, 10)],
        ⟨[{ CBlockFileInfo.null with nUndoSize := 2 ^ 32 + 10 }], 0⟩, false) := rfl

end TbcNode.Chain
