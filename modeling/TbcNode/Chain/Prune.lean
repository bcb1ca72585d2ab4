import Mathlib
import TbcNode.Chain.BlockFiles

/-! # Pruning block files (`FindFilesToPrune`, `FindFilesToPruneManual`, `pruneblockchain`)

Both searches prune the files whose last block is at most the tip's height less
`MIN_BLOCKS_TO_KEEP`, an `unsigned int` that is the integer difference at the heights they run at
(`flushPrune_prunable`); the usage the automatic search tracks never wraps (`pruneLoop_usage`).
-/

namespace TbcNode.Chain

/-- The networks of `chainparams.cpp`. -/
inductive Network
  | main
  | stn
  | testnet
  | regtest
  deriving DecidableEq, Repr

def Network.pruneAfterHeight : Network → Nat
  | .main => 100000
  | .stn => 1000
  | .testnet => 1000
  | .regtest => 1000

theorem Network.minBlocksToKeep_le_pruneAfterHeight (net : Network) :
    MIN_BLOCKS_TO_KEEP.toNat ≤ net.pruneAfterHeight := by
  cases net <;> decide

def calculateCurrentUsage (vinfo : List CBlockFileInfo) : Nat :=
  (vinfo.map fun info => info.nSize + info.nUndoSize).sum

/-- The bytes of a file and its undo file, the `nBytesToPrune` of `FindFilesToPrune`. -/
def fileBytes (vinfo : List CBlockFileInfo) (f : Nat) : Nat := blockSize vinfo f + undoSize vinfo f

/-- The loop of `FindFilesToPrune` over the file numbers: the files it queues and `nCurrentUsage`
after it. Below the target the loop breaks. -/
def pruneLoop (vinfo : List CBlockFileInfo) (nPruneTarget nBuffer : Nat)
    (nLastBlockWeCanPrune : UInt32) : List Nat → Nat → List Nat × Nat
  | [], nCurrentUsage => ([], nCurrentUsage)
  | fileNumber :: rest, nCurrentUsage =>
    let info := vinfo.getD fileNumber .null
    let nBytesToPrune := info.nSize + info.nUndoSize
    if info.nSize = 0 then pruneLoop vinfo nPruneTarget nBuffer nLastBlockWeCanPrune rest nCurrentUsage
    else if nCurrentUsage + nBuffer < nPruneTarget then ([], nCurrentUsage)
    else if info.nHeightLast > nLastBlockWeCanPrune then
      pruneLoop vinfo nPruneTarget nBuffer nLastBlockWeCanPrune rest nCurrentUsage
    else
      let r := pruneLoop vinfo nPruneTarget nBuffer nLastBlockWeCanPrune rest
        (nCurrentUsage - nBytesToPrune)
      (fileNumber :: r.1, r.2)

/-- `FindFilesToPrune` for the tip's height (`none` without a tip): the files to prune. -/
def findFilesToPrune (s : CBlockFileInfoStore) (tip : Option Nat)
    (nPruneTarget nPruneAfterHeight : Nat) : List Nat :=
  match tip with
  | some nHeight =>
    if nPruneTarget = 0 then []
    else if nHeight ≤ nPruneAfterHeight then []
    else
      let nLastBlockWeCanPrune := UInt32.ofNat nHeight - MIN_BLOCKS_TO_KEEP
      let nCurrentUsage := calculateCurrentUsage s.vinfoBlockFile
      let nBuffer := BLOCKFILE_CHUNK_SIZE.toNat + UNDOFILE_CHUNK_SIZE.toNat
      if nCurrentUsage + nBuffer ≥ nPruneTarget then
        (pruneLoop s.vinfoBlockFile nPruneTarget nBuffer nLastBlockWeCanPrune
          (List.range s.nLastBlockFile) nCurrentUsage).1
      else []
  | none => []

/-- `FindFilesToPruneManual` for the tip's height: the files to prune, or the failed assertion. -/
def findFilesToPruneManual (fPruneMode : Bool) (s : CBlockFileInfoStore) (tip : Option Nat)
    (nManualPruneHeight : Int) : Except String (List Nat) :=
  if !(fPruneMode && decide (nManualPruneHeight > 0)) then
    .error "assert(fPruneMode && nManualPruneHeight > 0)"
  else
    match tip with
    | some nHeight =>
      let nLastBlockWeCanPrune :=
        min (UInt32.ofNat nManualPruneHeight.toNat) (UInt32.ofNat nHeight - MIN_BLOCKS_TO_KEEP)
      .ok ((List.range s.nLastBlockFile).filter fun fileNumber =>
        !((s.vinfoBlockFile.getD fileNumber .null).nSize = 0 ||
          (s.vinfoBlockFile.getD fileNumber .null).nHeightLast > nLastBlockWeCanPrune))
    | none => .ok []

/-- The pruning step of `FlushStateToDisk`: the manual search for a positive height, else the
automatic one when pruning is due. -/
def flushPrune (fPruneMode fCheckForPruning fReindex : Bool) (net : Network)
    (s : CBlockFileInfoStore) (tip : Option Nat) (nPruneTarget : Nat) (nManualPruneHeight : Int) :
    Except String (List Nat) :=
  if fPruneMode && (fCheckForPruning || decide (nManualPruneHeight > 0)) && !fReindex then
    if nManualPruneHeight > 0 then findFilesToPruneManual fPruneMode s tip nManualPruneHeight
    else .ok (findFilesToPrune s tip nPruneTarget net.pruneAfterHeight)
  else .ok []

/-- The error codes `pruneblockchain` throws. -/
inductive RPCErrorCode
  | RPC_MISC_ERROR
  | RPC_INVALID_PARAMETER
  deriving DecidableEq, Repr

/-- `TIMESTAMP_WINDOW`, which is `MAX_FUTURE_BLOCK_TIME`. -/
def TIMESTAMP_WINDOW : Int := 2 * 60 * 60

/-- The checks of `pruneblockchain` on the height asked for against the chain's height: the
height to prune to, at least `MIN_BLOCKS_TO_KEEP` below the tip. -/
def checkPruneHeight (net : Network) (chainHeight height : UInt32) :
    Except (RPCErrorCode × String) Nat :=
  if chainHeight.toNat < net.pruneAfterHeight then
    throw (.RPC_MISC_ERROR, "Blockchain is too short for pruning.")
  else if height > chainHeight then
    throw (.RPC_INVALID_PARAMETER, "Blockchain is shorter than the attempted prune height.")
  else if height > chainHeight - MIN_BLOCKS_TO_KEEP then
    pure (chainHeight - MIN_BLOCKS_TO_KEEP).toNat
  else pure height.toNat

/-- `pruneblockchain` up to its call of `PruneBlockFilesManual`: the height it passes on, or the
error it throws. `findEarliestAtLeast` is `chainActive.FindEarliestAtLeast`, giving the height of
the block it finds. A parameter above a billion is a time, and the height is that of the first block
at most two hours before it. -/
def pruneblockchain (fPruneMode : Bool) (net : Network) (chainHeight : Nat)
    (findEarliestAtLeast : Int → Option Nat) (heightParam : Int) :
    Except (RPCErrorCode × String) Nat := do
  if !fPruneMode then
    throw (.RPC_MISC_ERROR, "Cannot prune blocks because node is not in prune mode.")
  if heightParam < 0 then throw (.RPC_INVALID_PARAMETER, "Negative block height.")
  let heightParam : Nat ← if heightParam > 1000000000 then
      match findEarliestAtLeast (heightParam - TIMESTAMP_WINDOW) with
      | some nHeight => pure nHeight
      | none => throw (.RPC_INVALID_PARAMETER,
          "Could not find block with at least the specified timestamp.")
    else pure heightParam.toNat
  checkPruneHeight net (UInt32.ofNat chainHeight) (UInt32.ofNat heightParam)

/-! ### The running usage -/

theorem sum_range_fileBytes_le (vinfo : List CBlockFileInfo) (n : Nat) :
    ((List.range n).map (fileBytes vinfo)).sum ≤ calculateCurrentUsage vinfo := by
  induction vinfo generalizing n with
  | nil =>
    have hzero : fileBytes [] = fun _ => 0 := rfl
    simp [hzero, List.map_const', calculateCurrentUsage]
  | cons info vinfo ih =>
    cases n with
    | zero => simp
    | succ m =>
      have hshift : (List.range m).map (fun i => fileBytes (info :: vinfo) (i + 1)) =
          (List.range m).map (fileBytes vinfo) := by
        simp [fileBytes, blockSize, undoSize]
      have hhead : fileBytes (info :: vinfo) 0 = info.nSize + info.nUndoSize := rfl
      rw [List.range_succ_eq_map, List.map_cons, List.map_map, List.sum_cons]
      simp only [Function.comp_def, hshift, hhead, calculateCurrentUsage, List.map_cons,
        List.sum_cons]
      have := ih m
      unfold calculateCurrentUsage at this
      omega

/-- What the loop has queued and what it has left add up to the usage it started from, so the
running usage never wraps, when the files it looks at account for no more than that usage. -/
theorem pruneLoop_usage (vinfo : List CBlockFileInfo) (nPruneTarget nBuffer : Nat)
    (nLastBlockWeCanPrune : UInt32) (l : List Nat) :
    ∀ {nCurrentUsage : Nat}, (l.map (fileBytes vinfo)).sum ≤ nCurrentUsage →
      let r := pruneLoop vinfo nPruneTarget nBuffer nLastBlockWeCanPrune l nCurrentUsage
      r.2 + (r.1.map (fileBytes vinfo)).sum = nCurrentUsage := by
  induction l with
  | nil => intro _ _; rfl
  | cons fileNumber rest ih =>
    intro nCurrentUsage hsum
    rw [List.map_cons, List.sum_cons] at hsum
    have hrest : (rest.map (fileBytes vinfo)).sum ≤ nCurrentUsage := by omega
    simp only [pruneLoop]
    split_ifs
    · exact ih hrest
    · rfl
    · exact ih hrest
    · have hbytes : (vinfo.getD fileNumber .null).nSize + (vinfo.getD fileNumber .null).nUndoSize =
          fileBytes vinfo fileNumber := rfl
      have hnext := @ih (nCurrentUsage - fileBytes vinfo fileNumber) (by omega)
      simp only [hbytes, List.map_cons, List.sum_cons]
      omega

theorem mem_pruneLoop {vinfo : List CBlockFileInfo} {nPruneTarget nBuffer : Nat}
    {nLastBlockWeCanPrune : UInt32} {l : List Nat} {nCurrentUsage f : Nat}
    (hf : f ∈ (pruneLoop vinfo nPruneTarget nBuffer nLastBlockWeCanPrune l nCurrentUsage).1) :
    f ∈ l ∧ (vinfo.getD f .null).nSize ≠ 0 ∧
      (vinfo.getD f .null).nHeightLast ≤ nLastBlockWeCanPrune := by
  induction l generalizing nCurrentUsage with
  | nil => cases hf
  | cons fileNumber rest ih =>
    simp only [pruneLoop] at hf
    split_ifs at hf with hsize hbelow hheight
    · obtain ⟨hmem, h⟩ := ih hf
      exact ⟨List.mem_cons_of_mem _ hmem, h⟩
    · cases hf
    · obtain ⟨hmem, h⟩ := ih hf
      exact ⟨List.mem_cons_of_mem _ hmem, h⟩
    · rcases List.mem_cons.mp hf with rfl | hf
      · exact ⟨List.mem_cons_self, hsize, UInt32.not_lt.mp hheight⟩
      · obtain ⟨hmem, h⟩ := ih hf
        exact ⟨List.mem_cons_of_mem _ hmem, h⟩

/-- The usage left after the automatic search is the usage less the bytes of the files queued. -/
theorem findFilesToPrune_usage (s : CBlockFileInfoStore) (nPruneTarget nBuffer : Nat)
    (nLastBlockWeCanPrune : UInt32) :
    let r := pruneLoop s.vinfoBlockFile nPruneTarget nBuffer nLastBlockWeCanPrune
      (List.range s.nLastBlockFile) (calculateCurrentUsage s.vinfoBlockFile)
    r.2 + (r.1.map (fileBytes s.vinfoBlockFile)).sum = calculateCurrentUsage s.vinfoBlockFile :=
  pruneLoop_usage _ _ _ _ _ (sum_range_fileBytes_le _ _)

/-! ### The files pruned -/

/-- What a pruned file must satisfy against the tip's height: below the last file, with data, and
its last block at least `MIN_BLOCKS_TO_KEEP` below the tip, over the integers. -/
def PrunableAt (s : CBlockFileInfoStore) (nHeight f : Nat) : Prop :=
  f < s.nLastBlockFile ∧ (s.vinfoBlockFile.getD f .null).nSize ≠ 0 ∧
    ((s.vinfoBlockFile.getD f .null).nHeightLast.toNat : Int) ≤
      (nHeight : Int) - MIN_BLOCKS_TO_KEEP.toNat

theorem lastBlockWeCanPrune_toNat {nHeight : Nat} (hmin : MIN_BLOCKS_TO_KEEP.toNat ≤ nHeight)
    (hint : nHeight < 2 ^ 31) :
    (UInt32.ofNat nHeight - MIN_BLOCKS_TO_KEEP).toNat = nHeight - MIN_BLOCKS_TO_KEEP.toNat := by
  have hofNat : (UInt32.ofNat nHeight).toNat = nHeight :=
    UInt32.toNat_ofNat_of_lt' (Nat.lt_trans hint (by decide))
  rw [UInt32.toNat_sub_of_le _ _ (UInt32.le_iff_toNat_le.mpr (by omega)), hofNat]

theorem prunableAt_of_le {s : CBlockFileInfoStore} {nHeight f : Nat} {bound : UInt32}
    (hmin : MIN_BLOCKS_TO_KEEP.toNat ≤ nHeight) (hint : nHeight < 2 ^ 31)
    (hf : f < s.nLastBlockFile) (hsize : (s.vinfoBlockFile.getD f .null).nSize ≠ 0)
    (hle : (s.vinfoBlockFile.getD f .null).nHeightLast ≤ bound)
    (hbound : bound ≤ UInt32.ofNat nHeight - MIN_BLOCKS_TO_KEEP) : PrunableAt s nHeight f := by
  refine ⟨hf, hsize, ?_⟩
  have hlast := UInt32.le_iff_toNat_le.mp (UInt32.le_trans hle hbound)
  rw [lastBlockWeCanPrune_toNat hmin hint] at hlast
  omega

theorem findFilesToPrune_prunable (net : Network) (s : CBlockFileInfoStore) {nHeight : Nat}
    (hint : nHeight < 2 ^ 31) (nPruneTarget : Nat) {f : Nat}
    (hf : f ∈ findFilesToPrune s (some nHeight) nPruneTarget net.pruneAfterHeight) :
    PrunableAt s nHeight f := by
  simp only [findFilesToPrune] at hf
  split_ifs at hf with htarget hshort
  · cases hf
  · cases hf
  · obtain ⟨hmem, hsize, hle⟩ := mem_pruneLoop hf
    have hmin := net.minBlocksToKeep_le_pruneAfterHeight
    exact prunableAt_of_le (by omega) hint (List.mem_range.mp hmem) hsize hle (UInt32.le_refl _)
  · cases hf

theorem findFilesToPruneManual_prunable {fPruneMode : Bool} {s : CBlockFileInfoStore}
    {nHeight : Nat} {nManualPruneHeight : Int} {files : List Nat}
    (hmin : MIN_BLOCKS_TO_KEEP.toNat ≤ nHeight) (hint : nHeight < 2 ^ 31)
    (h : findFilesToPruneManual fPruneMode s (some nHeight) nManualPruneHeight = .ok files) :
    ∀ f ∈ files, PrunableAt s nHeight f := by
  intro f hf
  simp only [findFilesToPruneManual] at h
  split_ifs at h
  cases h
  simp only [List.mem_filter, List.mem_range, Bool.not_or, Bool.and_eq_true, Bool.not_eq_true',
    decide_eq_false_iff_not, UInt32.not_lt] at hf
  obtain ⟨hlt, hsize, hle⟩ := hf
  exact prunableAt_of_le hmin hint hlt hsize hle Std.min_le_right

theorem checkPruneHeight_ok {net : Network} {chainHeight height : UInt32} {n : Nat}
    (h : checkPruneHeight net chainHeight height = .ok n) :
    net.pruneAfterHeight ≤ chainHeight.toNat ∧ n ≤ chainHeight.toNat - MIN_BLOCKS_TO_KEEP.toNat := by
  have hmin := net.minBlocksToKeep_le_pruneAfterHeight
  unfold checkPruneHeight at h
  split_ifs at h with hshort hlong hclose
  · cases h
    rw [UInt32.toNat_sub_of_le _ _ (UInt32.le_iff_toNat_le.mpr (by omega))]
    omega
  · cases h
    rw [UInt32.not_lt, UInt32.le_iff_toNat_le,
      UInt32.toNat_sub_of_le _ _ (UInt32.le_iff_toNat_le.mpr (by omega))] at hclose
    omega

theorem pruneblockchain_eq_ok {fPruneMode : Bool} {net : Network} {chainHeight : Nat}
    {findEarliestAtLeast : Int → Option Nat} {heightParam : Int} {height : Nat}
    (h : pruneblockchain fPruneMode net chainHeight findEarliestAtLeast heightParam = .ok height) :
    ∃ n, checkPruneHeight net (UInt32.ofNat chainHeight) n = .ok height := by
  simp only [pruneblockchain, bind, Except.bind, pure, Except.pure, throw, throwThe,
    MonadExceptOf.throw] at h
  split_ifs at h
  · split at h
    · exact ⟨_, h⟩
    · cases h
  · exact ⟨_, h⟩

theorem pruneblockchain_ok {fPruneMode : Bool} {net : Network} {chainHeight : Nat}
    {findEarliestAtLeast : Int → Option Nat} {heightParam : Int} {height : Nat}
    (hint : chainHeight < 2 ^ 31)
    (h : pruneblockchain fPruneMode net chainHeight findEarliestAtLeast heightParam = .ok height) :
    net.pruneAfterHeight ≤ chainHeight ∧ height ≤ chainHeight - MIN_BLOCKS_TO_KEEP.toNat := by
  have hchain : (UInt32.ofNat chainHeight).toNat = chainHeight :=
    UInt32.toNat_ofNat_of_lt' (Nat.lt_trans hint (by decide))
  obtain ⟨n, hn⟩ := pruneblockchain_eq_ok h
  rw [← hchain]
  exact checkPruneHeight_ok hn

/-- Every file the pruning step of `FlushStateToDisk` picks is prunable, for the automatic search
and for every height `pruneblockchain` passes on. -/
theorem flushPrune_prunable {fPruneMode fCheckForPruning fReindex : Bool} {net : Network}
    {s : CBlockFileInfoStore} {nHeight nPruneTarget : Nat} {nManualPruneHeight : Int}
    {files : List Nat} (hint : nHeight < 2 ^ 31)
    (hmanual : nManualPruneHeight = 0 ∨ ∃ findEarliestAtLeast heightParam height,
      pruneblockchain fPruneMode net nHeight findEarliestAtLeast heightParam = .ok height ∧
        nManualPruneHeight = height)
    (h : flushPrune fPruneMode fCheckForPruning fReindex net s (some nHeight) nPruneTarget
      nManualPruneHeight = .ok files) :
    ∀ f ∈ files, PrunableAt s nHeight f := by
  unfold flushPrune at h
  split_ifs at h with hdue hpos
  · rcases hmanual with rfl | ⟨_, _, height, hrpc, rfl⟩
    · exact absurd hpos (Int.lt_irrefl 0)
    · have hlong := (pruneblockchain_ok hint hrpc).1
      have hmin := net.minBlocksToKeep_le_pruneAfterHeight
      exact findFilesToPruneManual_prunable (by omega) hint h
  · cases h
    exact fun f hf => findFilesToPrune_prunable net s hint nPruneTarget hf
  · cases h
    exact fun f hf => absurd hf List.not_mem_nil

def samplePruneStore : CBlockFileInfoStore :=
  ⟨[{ CBlockFileInfo.null with nBlocks := 1, nHeightLast := 10, nSize := 100 },
    { CBlockFileInfo.null with
      nBlocks := 1, nHeightFirst := 1900, nHeightLast := 1900, nSize := 100 }], 2⟩

theorem flushPrune_prunable_sample :
    flushPrune true true false .regtest samplePruneStore (some 2000) 1 0 = .ok [0] ∧
      ∀ f ∈ [0], PrunableAt samplePruneStore 2000 f :=
  have h : flushPrune true true false .regtest samplePruneStore (some 2000) 1 0 = .ok [0] := by
    decide
  ⟨h, flushPrune_prunable (by norm_num) (.inl rfl) h⟩

end TbcNode.Chain
