import TbcNode.Coins.UndoFile
import TbcNode.Chain.BlockFiles

/-! # Undo records on disk (`ConnectBlock`)

`ConnectBlock` asks `FindUndoPos` for the size of a block's undo data and 40 bytes more, writes the
record there and records where its header ends. While every undo file stays within `2 ^ 32` bytes,
each block's undo data reads back from its position after any run (`writeBlockUndoRun_reads_back`).
-/

namespace TbcNode.Coins.Cache

open TbcNode.Primitives TbcNode.Logic TbcNode.Chain

/-- The undo files: the byte at each offset of the undo file of each block file. -/
abbrev UndoFiles := Nat × Nat → UInt8

/-- A block whose undo data `ConnectBlock` writes: its file, its undo data and its parent's hash. -/
structure UndoWrite where
  nFile : Nat
  blockundo : CBlockUndo
  hashPrev : uint256

section Disk

variable (hash256 : List UInt8 → uint256) (secp : Secp256k1) (checkDiskSpace : Nat → Bool)
  (fPruneMode : Bool) (messageStart : Vector UInt8 4)

/-- The branch of `ConnectBlock` that writes the undo data of a block without any: the `nUndoPos`
it records, the store, the undo files and `fCheckForPruning` after. -/
def writeBlockUndo (s : CBlockFileInfoStore) (files : UndoFiles) (b : UndoWrite)
    (fCheckForPruning : Bool) : Except String (UInt32 × CBlockFileInfoStore × UndoFiles × Bool) := do
  let bytes ← serializeBlockUndo secp b.blockundo
  let r ← findUndoPos checkDiskSpace fPruneMode s b.nFile (bytes.length + 40) fCheckForPruning
  if !r.1 then throw "ConnectBlock(): FindUndoPos failed"
  let record ← undoWriteToDisk hash256 secp b.blockundo b.hashPrev messageStart
  let pos := r.2.1
  pure (UInt32.ofNat (pos.nPos.toNat + record.header.length), r.2.2.2,
    writeAll files (placeAt pos.nFile pos.nPos.toNat (record.header ++ record.data)), r.2.2.1)

/-- `ConnectBlock`'s undo writes for blocks one after another, with the position recorded for
each. -/
def writeBlockUndoRun : List UndoWrite → CBlockFileInfoStore → UndoFiles → Bool →
    Except String (List UInt32 × CBlockFileInfoStore × UndoFiles × Bool)
  | [], s, files, fCheckForPruning => .ok ([], s, files, fCheckForPruning)
  | b :: bs, s, files, fCheckForPruning => do
    let r ← writeBlockUndo hash256 secp checkDiskSpace fPruneMode messageStart s files b
      fCheckForPruning
    let rs ← writeBlockUndoRun bs r.2.1 r.2.2.1 r.2.2.2
    pure (r.1 :: rs.1, rs.2)

end Disk

/-- The bytes `data` stand from offset `o` of the undo file of `f`, below the size the store
accounts for. -/
structure Placed (s : CBlockFileInfoStore) (files : UndoFiles) (f o : Nat) (data : List UInt8) :
    Prop where
  reads : readAt files f o data.length = data
  below : o + data.length ≤ undoSize s.vinfoBlockFile f

/-- The undo data of a block stands from the position recorded for it, and `UndoReadFromDisk` takes
it back from there. -/
def Recorded (hash256 : List UInt8 → uint256) (secp : Secp256k1) (sizeofCTxUndo : Nat)
    (s : CBlockFileInfoStore) (files : UndoFiles) (b : UndoWrite) (p : UInt32) : Prop :=
  ∃ data, Placed s files b.nFile p.toNat data ∧
    ∀ rest, undoReadFromDisk hash256 secp sizeofCTxUndo b.hashPrev (data ++ rest) = .ok b.blockundo

theorem undoSize_addUndoAt {s : CBlockFileInfoStore} {f : Nat} (n : Nat)
    (hf : f < s.vinfoBlockFile.length) (g : Nat) :
    undoSize (addUndoAt s f n).vinfoBlockFile g =
      if g = f then undoSize s.vinfoBlockFile f + n else undoSize s.vinfoBlockFile g := by
  have h := congrFun (fileSize_addUndoAt s n hf) (true, g)
  simp only [fileSize, Function.update_apply, Prod.mk.injEq, true_and] at h
  rw [h]

theorem undoSize_le_addUndoAt {s : CBlockFileInfoStore} {f : Nat} (n : Nat)
    (hf : f < s.vinfoBlockFile.length) (g : Nat) :
    undoSize s.vinfoBlockFile g ≤ undoSize (addUndoAt s f n).vinfoBlockFile g := by
  rw [undoSize_addUndoAt n hf]
  split
  · subst g
    exact Nat.le_add_right _ _
  · exact le_refl _

theorem Placed.addUndoAt {s : CBlockFileInfoStore} {files : UndoFiles} {f o : Nat}
    {data : List UInt8} (h : Placed s files f o data) {nFile : Nat}
    (hf : nFile < s.vinfoBlockFile.length) (n : Nat) (bs : List UInt8) :
    Placed (Chain.addUndoAt s nFile n)
      (writeAll files (placeAt nFile (undoSize s.vinfoBlockFile nFile) bs)) f o data where
  reads := by
    rw [readAt_writeAll_placeAt_of_disjoint]
    · exact h.reads
    · by_cases hfn : f = nFile
      · subst hfn
        exact .inr h.below
      · exact .inl hfn
  below := h.below.trans (undoSize_le_addUndoAt n hf f)

section Disk

variable {hash256 : List UInt8 → uint256} {secp : Secp256k1} {checkDiskSpace : Nat → Bool}
  {fPruneMode : Bool} {messageStart : Vector UInt8 4}

theorem writeBlockUndo_spec {s s' : CBlockFileInfoStore} {files files' : UndoFiles}
    {b : UndoWrite} {fCheckForPruning fCheckForPruning' : Bool} {p : UInt32}
    (h : writeBlockUndo hash256 secp checkDiskSpace fPruneMode messageStart s files b
      fCheckForPruning = .ok (p, s', files', fCheckForPruning')) :
    ∃ bytes record, serializeBlockUndo secp b.blockundo = .ok bytes ∧
      undoWriteToDisk hash256 secp b.blockundo b.hashPrev messageStart = .ok record ∧
      b.nFile < s.vinfoBlockFile.length ∧ s' = addUndoAt s b.nFile (bytes.length + 40) ∧
      p.toNat = (undoSize s.vinfoBlockFile b.nFile % 2 ^ 32 + record.header.length) % 2 ^ 32 ∧
      files' = writeAll files (placeAt b.nFile (undoSize s.vinfoBlockFile b.nFile % 2 ^ 32)
        (record.header ++ record.data)) := by
  unfold writeBlockUndo at h
  cases hb : serializeBlockUndo secp b.blockundo with
  | error e =>
    rw [hb] at h
    cases h
  | ok bytes =>
    rw [hb] at h
    simp only [bind, Except.bind] at h
    by_cases hf : b.nFile < s.vinfoBlockFile.length
    · rw [findUndoPos_of_lt _ _ _ _ _ hf] at h
      generalize preallocate UNDOFILE_CHUNK_SIZE checkDiskSpace fPruneMode _ _ _ = prealloc at h
      obtain ⟨fOk, _⟩ := prealloc
      cases fOk
      · cases h
      · have hw := undoWriteToDisk_eq_ok secp hash256 hb b.hashPrev messageStart
        rw [hw] at h
        cases h
        refine ⟨bytes, _, rfl, hw, hf, rfl, ?_, ?_⟩
        · rw [UInt32.toNat_ofNat', UInt32.toNat_ofNat']
        · rw [UInt32.toNat_ofNat']
    · rw [findUndoPos_of_le _ _ _ _ _ (Nat.le_of_not_lt hf)] at h
      cases h

theorem writeBlockUndoRun_cons_ok {b : UndoWrite} {bs : List UndoWrite}
    {s s' : CBlockFileInfoStore} {files files' : UndoFiles}
    {fCheckForPruning fCheckForPruning' : Bool} {ps : List UInt32}
    (h : writeBlockUndoRun hash256 secp checkDiskSpace fPruneMode messageStart (b :: bs) s files
      fCheckForPruning = .ok (ps, s', files', fCheckForPruning')) :
    ∃ p s₁ files₁ fCheckForPruning₁ ps',
      writeBlockUndo hash256 secp checkDiskSpace fPruneMode messageStart s files b
        fCheckForPruning = .ok (p, s₁, files₁, fCheckForPruning₁) ∧
      writeBlockUndoRun hash256 secp checkDiskSpace fPruneMode messageStart bs s₁ files₁
        fCheckForPruning₁ = .ok (ps', s', files', fCheckForPruning') ∧ ps = p :: ps' := by
  simp only [writeBlockUndoRun, bind, Except.bind] at h
  split at h
  · cases h
  · rename_i r hr
    obtain ⟨p, s₁, files₁, fCheckForPruning₁⟩ := r
    split at h
    · cases h
    · rename_i rs hrs
      obtain ⟨ps', s₂, files₂, fCheckForPruning₂⟩ := rs
      cases h
      exact ⟨p, s₁, files₁, fCheckForPruning₁, ps', hr, hrs, rfl⟩

theorem undoSize_le_of_writeBlockUndoRun :
    ∀ (bs : List UndoWrite) {s s' : CBlockFileInfoStore} {files files' : UndoFiles}
      {fCheckForPruning fCheckForPruning' : Bool} {ps : List UInt32},
      writeBlockUndoRun hash256 secp checkDiskSpace fPruneMode messageStart bs s files
        fCheckForPruning = .ok (ps, s', files', fCheckForPruning') →
      ∀ f, undoSize s.vinfoBlockFile f ≤ undoSize s'.vinfoBlockFile f
  | [], _, _, _, _, _, _, _, h, f => by
    cases h
    exact le_refl _
  | b :: bs, _, _, _, _, _, _, _, h, f => by
    obtain ⟨_, _, _, _, _, hstep, hrest, -⟩ := writeBlockUndoRun_cons_ok h
    obtain ⟨_, _, _, _, hf, rfl, -⟩ := writeBlockUndo_spec hstep
    exact (undoSize_le_addUndoAt _ hf f).trans (undoSize_le_of_writeBlockUndoRun bs hrest f)

theorem writeBlockUndo_placed {secp : Secp256k1} (hsecp : secp.Spec) (sizeofCTxUndo : Nat)
    {s s' : CBlockFileInfoStore} {files files' : UndoFiles} {b : UndoWrite}
    {fCheckForPruning fCheckForPruning' : Bool} {p : UInt32}
    (h : writeBlockUndo hash256 secp checkDiskSpace fPruneMode messageStart s files b
      fCheckForPruning = .ok (p, s', files', fCheckForPruning'))
    (hs : b.blockundo.Storable) (hfit : undoSize s'.vinfoBlockFile b.nFile ≤ 2 ^ 32) :
    (∀ {f o data}, Placed s files f o data → Placed s' files' f o data) ∧
      Recorded hash256 secp sizeofCTxUndo s' files' b p := by
  obtain ⟨bytes, record, hb, hw, hf, rfl, hp, rfl⟩ := writeBlockUndo_spec h
  have hsize := undoSize_addUndoAt (bytes.length + 40) hf b.nFile
  rw [if_pos rfl] at hsize
  rw [hsize] at hfit
  have hrecord := Except.ok.inj (hw.symm.trans (undoWriteToDisk_eq_ok secp hash256 hb _ _))
  have hlen := length_undoRecord secp hash256 hb b.hashPrev messageStart hw
  rw [if_neg (by omega)] at hlen
  have hheader : record.header.length = 8 := by
    rw [hrecord, length_writeIndexHeader, if_neg (by omega)]
  have hstart : undoSize s.vinfoBlockFile b.nFile % 2 ^ 32 = undoSize s.vinfoBlockFile b.nFile :=
    Nat.mod_eq_of_lt (by omega)
  rw [hstart, hheader, Nat.mod_eq_of_lt (by omega)] at hp
  rw [hstart]
  refine ⟨fun hpl => hpl.addUndoAt hf _ _, record.data, ⟨?_, ?_⟩,
    undoReadFromDisk_of_undoWriteToDisk hash256 sizeofCTxUndo hsecp hs hw⟩
  · rw [hp, placeAt_append, writeAll_append, hheader, readAt_writeAll_placeAt]
  · rw [hp, hsize]
    omega

theorem writeBlockUndoRun_placed {secp : Secp256k1} (hsecp : secp.Spec) (sizeofCTxUndo : Nat) :
    ∀ (bs : List UndoWrite) {s s' : CBlockFileInfoStore} {files files' : UndoFiles}
      {fCheckForPruning fCheckForPruning' : Bool} {ps : List UInt32},
      writeBlockUndoRun hash256 secp checkDiskSpace fPruneMode messageStart bs s files
        fCheckForPruning = .ok (ps, s', files', fCheckForPruning') →
      (∀ b ∈ bs, b.blockundo.Storable) → (∀ f, undoSize s'.vinfoBlockFile f ≤ 2 ^ 32) →
      (∀ {f o data}, Placed s files f o data → Placed s' files' f o data) ∧
        List.Forall₂ (Recorded hash256 secp sizeofCTxUndo s' files') bs ps
  | [], _, _, _, _, _, _, _, h, _, _ => by
    cases h
    exact ⟨id, .nil⟩
  | b :: bs, _, _, _, _, _, _, _, h, hs, hfit => by
    obtain ⟨p, s₁, files₁, _, ps', hstep, hrest, rfl⟩ := writeBlockUndoRun_cons_ok h
    have hfit₁ := (undoSize_le_of_writeBlockUndoRun bs hrest b.nFile).trans (hfit b.nFile)
    obtain ⟨hframe, data, hpl, hread⟩ :=
      writeBlockUndo_placed hsecp sizeofCTxUndo hstep (hs b List.mem_cons_self) hfit₁
    obtain ⟨hframe', hall⟩ := writeBlockUndoRun_placed hsecp sizeofCTxUndo bs hrest
      (fun b' hb' => hs b' (List.mem_cons_of_mem _ hb')) hfit
    exact ⟨fun hpl' => hframe' (hframe hpl'), .cons ⟨data, hframe' hpl, hread⟩ hall⟩

/-- Over any run of `ConnectBlock`'s undo writes whose undo files end within `2 ^ 32` bytes, every
block's undo data is read back by `UndoReadFromDisk` from the position recorded for it, in the undo
files as the run leaves them. -/
theorem writeBlockUndoRun_reads_back {secp : Secp256k1} (hsecp : secp.Spec) (sizeofCTxUndo : Nat)
    {bs : List UndoWrite} {s s' : CBlockFileInfoStore} {files files' : UndoFiles}
    {fCheckForPruning fCheckForPruning' : Bool} {ps : List UInt32}
    (hrun : writeBlockUndoRun hash256 secp checkDiskSpace fPruneMode messageStart bs s files
      fCheckForPruning = .ok (ps, s', files', fCheckForPruning'))
    (hs : ∀ b ∈ bs, b.blockundo.Storable) (hfit : ∀ f, undoSize s'.vinfoBlockFile f ≤ 2 ^ 32) :
    List.Forall₂ (fun b p => ∃ n, ∀ rest, undoReadFromDisk hash256 secp sizeofCTxUndo b.hashPrev
      (readAt files' b.nFile p.toNat n ++ rest) = .ok b.blockundo) bs ps := by
  refine (writeBlockUndoRun_placed hsecp sizeofCTxUndo bs hrun hs hfit).2.imp fun {b p} => ?_
  rintro ⟨data, hpl, hread⟩
  exact ⟨data.length, by rw [hpl.reads]; exact hread⟩

end Disk

def sampleUndoWrites : List UndoWrite :=
  [⟨0, ⟨[]⟩, Vector.replicate 32 1⟩, ⟨0, ⟨[]⟩, Vector.replicate 32 2⟩]

theorem sampleUndoWrites_storable : ∀ b ∈ sampleUndoWrites, b.blockundo.Storable := by
  intro b hb
  simp only [sampleUndoWrites, List.mem_cons, List.not_mem_nil, or_false] at hb
  rcases hb with rfl | rfl <;>
    exact ⟨fun _ h => absurd h List.not_mem_nil, fun _ h => absurd h List.not_mem_nil, by decide⟩

/-- The two records go one after the other into the undo file, and both read back. -/
theorem writeBlockUndoRun_reads_back_sample :
    ∃ files', writeBlockUndoRun (fun _ => Vector.replicate 32 0) Secp256k1.rejectAll (fun _ => true)
        false (Vector.replicate 4 0xe3) sampleUndoWrites ⟨[.null], 0⟩ (fun _ => 0) false =
        .ok ([8, 49], ⟨[{ CBlockFileInfo.null with nUndoSize := 82 }], 0⟩, files', false) ∧
      Secp256k1.rejectAll.Spec ∧ (∀ b ∈ sampleUndoWrites, b.blockundo.Storable) ∧
      (∀ f, undoSize [{ CBlockFileInfo.null with nUndoSize := 82 }] f ≤ 2 ^ 32) ∧
      List.Forall₂ (fun b p => ∃ n, ∀ rest, undoReadFromDisk (fun _ => Vector.replicate 32 0)
        Secp256k1.rejectAll 24 b.hashPrev (readAt files' b.nFile p.toNat n ++ rest) =
          .ok b.blockundo) sampleUndoWrites [(8 : UInt32), 49] := by
  obtain ⟨files', hrun⟩ : ∃ files', writeBlockUndoRun (fun _ => Vector.replicate 32 0)
      Secp256k1.rejectAll (fun _ => true) false (Vector.replicate 4 0xe3) sampleUndoWrites
      ⟨[.null], 0⟩ (fun _ => 0) false =
        .ok ([8, 49], ⟨[{ CBlockFileInfo.null with nUndoSize := 82 }], 0⟩, files', false) :=
    ⟨_, rfl⟩
  have hfit : ∀ f, undoSize [{ CBlockFileInfo.null with nUndoSize := 82 }] f ≤ 2 ^ 32 := by
    intro f
    cases f <;> simp [undoSize, CBlockFileInfo.null]
  exact ⟨files', hrun, Secp256k1.rejectAll_spec, sampleUndoWrites_storable, hfit,
    writeBlockUndoRun_reads_back Secp256k1.rejectAll_spec 24 hrun sampleUndoWrites_storable hfit⟩

end TbcNode.Coins.Cache
