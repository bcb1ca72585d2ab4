import TbcNode.Consensus.Merkle
import TbcNode.Primitives.Serialize

/-! # Partial Merkle trees (`merkleblock.h`, `merkleblock.cpp`)

`TraverseAndBuild` writes a depth-first walk of the tree above the matched ids, one flag per node
and one hash where it stops, and `TraverseAndExtract` reads it back. `nTransactions` is an
`unsigned int`, so `CalcTreeWidth` sums modulo `2 ^ 32`.
-/

namespace TbcNode.Consensus

open TbcNode.Logic TbcNode.Primitives

/-- The fields of a `CPartialMerkleTree`. -/
structure CPartialMerkleTree where
  nTransactions : Nat
  vBits : List Bool
  vHash : List uint256
  fBad : Bool

/-- `CalcTreeWidth`: the number of nodes at `height`, in `unsigned int` arithmetic. -/
def calcTreeWidth (nTransactions height : Nat) : Nat :=
  ((nTransactions + 2 ^ height - 1) % 2 ^ 32) >>> height

theorem calcTreeWidth_eq_zero {nTransactions height : Nat} (h : 32 ≤ height) :
    calcTreeWidth nTransactions height = 0 := by
  rw [calcTreeWidth, Nat.shiftRight_eq_div_pow]
  apply Nat.div_eq_of_lt
  calc (nTransactions + 2 ^ height - 1) % 2 ^ 32 < 2 ^ 32 := Nat.mod_lt _ (Nat.two_pow_pos 32)
    _ ≤ 2 ^ height := Nat.pow_le_pow_right (by decide) h

theorem lt_32_of_one_lt_calcTreeWidth {nTransactions height : Nat}
    (h : 1 < calcTreeWidth nTransactions height) : height < 32 := by
  by_contra hge
  rw [calcTreeWidth_eq_zero (Nat.le_of_not_lt hge)] at h
  exact absurd h (by decide)

/-- The loop `while (CalcTreeWidth(nHeight) > 1) nHeight++`, from `nHeight`. -/
def treeHeightFrom (nTransactions nHeight : Nat) : Nat :=
  if 1 < calcTreeWidth nTransactions nHeight then treeHeightFrom nTransactions (nHeight + 1)
  else nHeight
termination_by 32 - nHeight
decreasing_by
  have := lt_32_of_one_lt_calcTreeWidth ‹_›
  omega

/-- The height of the tree, as the constructor and `ExtractMatches` compute it. -/
def treeHeight (nTransactions : Nat) : Nat := treeHeightFrom nTransactions 0

theorem treeHeightFrom_of_lt {nTransactions nHeight : Nat}
    (h : 1 < calcTreeWidth nTransactions nHeight) :
    treeHeightFrom nTransactions nHeight = treeHeightFrom nTransactions (nHeight + 1) := by
  rw [treeHeightFrom, if_pos h]

theorem treeHeightFrom_of_not_lt {nTransactions nHeight : Nat}
    (h : ¬1 < calcTreeWidth nTransactions nHeight) :
    treeHeightFrom nTransactions nHeight = nHeight := by
  rw [treeHeightFrom, if_neg h]

section Walks

variable (hashPair : uint256 → uint256 → uint256)

/-- `CalcHash`: the hash of the node `pos` at `height`, a missing right child standing for a copy
of the left one. -/
def calcHash (nTransactions : Nat) (vTxid : List uint256) : Nat → Nat → uint256
  | 0, pos => vTxid.getD pos nullHash
  | height + 1, pos =>
    let left := calcHash nTransactions vTxid height (pos * 2)
    let right := if pos * 2 + 1 < calcTreeWidth nTransactions height then
      calcHash nTransactions vTxid height (pos * 2 + 1) else left
    hashPair left right

/-- The leaves below the node `pos` at `height`: the range of the loop of `TraverseAndBuild`. -/
def leavesBelow (nTransactions height pos : Nat) : List Nat :=
  List.range' (pos <<< height) (min ((pos + 1) <<< height) nTransactions - pos <<< height)

/-- The flag of `TraverseAndBuild`: whether a leaf below the node is matched. -/
def parentOfMatch (nTransactions : Nat) (vMatch : List Bool) (height pos : Nat) : Bool :=
  (leavesBelow nTransactions height pos).any fun p => vMatch.getD p false

/-- `TraverseAndBuild`: the flag bit of the node, then its hash where the walk stops (at a leaf,
or with nothing matched below), or else the walks of its children. -/
def traverseAndBuild (vTxid : List uint256) (vMatch : List Bool) :
    Nat → Nat → CPartialMerkleTree → CPartialMerkleTree
  | 0, pos, t =>
    let t' := { t with vBits := t.vBits ++ [parentOfMatch t.nTransactions vMatch 0 pos] }
    { t' with vHash := t'.vHash ++ [calcHash hashPair t.nTransactions vTxid 0 pos] }
  | h + 1, pos, t =>
    let fParentOfMatch := parentOfMatch t.nTransactions vMatch (h + 1) pos
    let t' := { t with vBits := t.vBits ++ [fParentOfMatch] }
    if fParentOfMatch then
      let tl := traverseAndBuild vTxid vMatch h (pos * 2) t'
      if pos * 2 + 1 < calcTreeWidth t.nTransactions h then
        traverseAndBuild vTxid vMatch h (pos * 2 + 1) tl
      else tl
    else { t' with vHash := t'.vHash ++ [calcHash hashPair t.nTransactions vTxid (h + 1) pos] }

/-- The constructor `CPartialMerkleTree(vTxid, vMatch)`: `nTransactions` is the size of `vTxid`
as an `unsigned int`. -/
def partialMerkleTree (vTxid : List uint256) (vMatch : List Bool) : CPartialMerkleTree :=
  let t : CPartialMerkleTree := ⟨vTxid.length % 2 ^ 32, [], [], false⟩
  traverseAndBuild hashPair vTxid vMatch (treeHeight t.nTransactions) 0 t

/-- The state of `TraverseAndExtract`: the two counters, the two output vectors and `fBad`. -/
structure Extraction where
  nBitsUsed : Nat
  nHashUsed : Nat
  vMatch : List uint256
  vnIndex : List Nat
  fBad : Bool

/-- The branch of `TraverseAndExtract` that takes the next stored hash and does not descend; at a
leaf with its flag set the hash and the position go to the output. -/
def useStoredHash (t : CPartialMerkleTree) (height pos : Nat) (fParentOfMatch : Bool)
    (e : Extraction) : uint256 × Extraction :=
  if hh : e.nHashUsed < t.vHash.length then
    let hash := t.vHash[e.nHashUsed]
    let e' := { e with nHashUsed := e.nHashUsed + 1 }
    if height = 0 ∧ fParentOfMatch = true then
      (hash, { e' with vMatch := e'.vMatch ++ [hash], vnIndex := e'.vnIndex ++ [pos] })
    else (hash, e')
  else (nullHash, { e with fBad := true })

/-- `TraverseAndExtract`: the walk of `TraverseAndBuild` read back from `vBits` and `vHash`. Two
equal children make the tree bad, as do a flag or a hash past the end. -/
def traverseAndExtract (t : CPartialMerkleTree) : Nat → Nat → Extraction → uint256 × Extraction
  | height, pos, e =>
    if hb : e.nBitsUsed < t.vBits.length then
      let fParentOfMatch := t.vBits[e.nBitsUsed]
      let e' := { e with nBitsUsed := e.nBitsUsed + 1 }
      match height with
      | 0 => useStoredHash t 0 pos fParentOfMatch e'
      | h + 1 =>
        if fParentOfMatch then
          let left := traverseAndExtract t h (pos * 2) e'
          if pos * 2 + 1 < calcTreeWidth t.nTransactions h then
            let right := traverseAndExtract t h (pos * 2 + 1) left.2
            (hashPair left.1 right.1,
              if right.1 = left.1 then { right.2 with fBad := true } else right.2)
          else (hashPair left.1 left.1, left.2)
        else useStoredHash t (h + 1) pos false e'
    else (nullHash, { e with fBad := true })

/-- `ExtractMatches`: `vMatch` is cleared and `vnIndex` appended to; `none` is the `uint256()`
returned after a failed check. -/
def extractMatches (t : CPartialMerkleTree) (vnIndex : List Nat) : Option uint256 × Extraction :=
  let e : Extraction := ⟨0, 0, [], vnIndex, t.fBad⟩
  if t.nTransactions = 0 then (none, e)
  else if t.vHash.length > t.nTransactions then (none, e)
  else if t.vBits.length < t.vHash.length then (none, e)
  else
    let r := traverseAndExtract hashPair t (treeHeight t.nTransactions) 0 e
    if r.2.fBad then (none, r.2)
    else if (r.2.nBitsUsed + 7) / 8 ≠ (t.vBits.length + 7) / 8 then (none, r.2)
    else if r.2.nHashUsed ≠ t.vHash.length then (none, r.2)
    else (some r.1, r.2)

end Walks

/-! ### Serialization -/

/-- One round of the writing loop of `SerializationOp`: bit `p` of `vBits` is or-ed into bit
`p % 8` of byte `p / 8`. -/
def packStep (vBits : List Bool) (vBytes : List UInt8) (p : Nat) : List UInt8 :=
  vBytes.modify (p / 8) fun b => b ||| (vBits.getD p false).toUInt8 <<< (p % 8).toUInt8

/-- The writing loop of `SerializationOp`, over zeroed bytes. -/
def packBits (vBits : List Bool) : List UInt8 :=
  (List.range vBits.length).foldl (packStep vBits) (List.replicate ((vBits.length + 7) / 8) 0)

/-- The reading loop of `SerializationOp`: eight bits from each byte. -/
def unpackBits (vBytes : List UInt8) : List Bool :=
  (List.range (vBytes.length * 8)).map fun p =>
    (vBytes.getD (p / 8) 0 &&& (1 : UInt8) <<< (p % 8).toUInt8) != 0

/-- `SerializationOp` writing: `nTransactions`, `vHash`, then `vBits` as bytes. -/
def serializePartialMerkleTree (t : CPartialMerkleTree) : Except String (List UInt8) := do
  let vHash ← serializeVector (fun h : uint256 => pure h.toList) t.vHash
  let vBytes ← serializeBytes (packBits t.vBits)
  pure (serWritedata32 t.nTransactions ++ vHash ++ vBytes)

/-- `SerializationOp` reading: `fBad` is cleared. -/
def unserializePartialMerkleTree : Reader CPartialMerkleTree := do
  let nTransactions ← serReaddata32
  let vHash ← unserializeVector (read 32) 32
  let vBytes ← unserializeBytes
  pure ⟨nTransactions, unpackBits vBytes, vHash, false⟩

/-! ### The cases of the walks -/

section Cases

variable (hashPair : uint256 → uint256 → uint256) (vTxid : List uint256) (vMatch : List Bool)

@[simp] theorem calcHash_zero (nTransactions pos : Nat) :
    calcHash hashPair nTransactions vTxid 0 pos = vTxid.getD pos nullHash := rfl

theorem calcHash_succ (nTransactions height pos : Nat) :
    calcHash hashPair nTransactions vTxid (height + 1) pos =
      hashPair (calcHash hashPair nTransactions vTxid height (pos * 2))
        (if pos * 2 + 1 < calcTreeWidth nTransactions height then
          calcHash hashPair nTransactions vTxid height (pos * 2 + 1)
        else calcHash hashPair nTransactions vTxid height (pos * 2)) := rfl

theorem traverseAndBuild_stop {height pos : Nat} {t : CPartialMerkleTree}
    (hstop : height = 0 ∨ parentOfMatch t.nTransactions vMatch height pos = false) :
    traverseAndBuild hashPair vTxid vMatch height pos t =
      { t with vBits := t.vBits ++ [parentOfMatch t.nTransactions vMatch height pos],
               vHash := t.vHash ++ [calcHash hashPair t.nTransactions vTxid height pos] } := by
  cases height with
  | zero => rfl
  | succ h =>
    have hf : parentOfMatch t.nTransactions vMatch (h + 1) pos = false := by simpa using hstop
    rw [traverseAndBuild, hf]
    rfl

theorem traverseAndBuild_descend {height pos : Nat} {t : CPartialMerkleTree}
    (hf : parentOfMatch t.nTransactions vMatch (height + 1) pos = true) :
    traverseAndBuild hashPair vTxid vMatch (height + 1) pos t =
      let tl := traverseAndBuild hashPair vTxid vMatch height (pos * 2)
        { t with vBits := t.vBits ++ [true] }
      if pos * 2 + 1 < calcTreeWidth t.nTransactions height then
        traverseAndBuild hashPair vTxid vMatch height (pos * 2 + 1) tl
      else tl := by
  rw [traverseAndBuild, hf]
  rfl

@[simp] theorem nTransactions_traverseAndBuild (height pos : Nat) (t : CPartialMerkleTree) :
    (traverseAndBuild hashPair vTxid vMatch height pos t).nTransactions = t.nTransactions := by
  induction height generalizing pos t with
  | zero => rw [traverseAndBuild_stop hashPair vTxid vMatch (Or.inl rfl)]
  | succ h ih =>
    cases hf : parentOfMatch t.nTransactions vMatch (h + 1) pos with
    | false => rw [traverseAndBuild_stop hashPair vTxid vMatch (Or.inr hf)]
    | true =>
      rw [traverseAndBuild_descend hashPair vTxid vMatch hf]
      dsimp only
      split
      · rw [ih, ih]
      · rw [ih]

theorem traverseAndExtract_overflow {t : CPartialMerkleTree} {height pos : Nat} {e : Extraction}
    (hb : t.vBits.length ≤ e.nBitsUsed) :
    traverseAndExtract hashPair t height pos e = (nullHash, { e with fBad := true }) := by
  rw [traverseAndExtract, dif_neg (Nat.not_lt.mpr hb)]

theorem traverseAndExtract_stop {t : CPartialMerkleTree} {height pos : Nat} {e : Extraction}
    {f : Bool} (hb : t.vBits[e.nBitsUsed]? = some f) (hstop : height = 0 ∨ f = false) :
    traverseAndExtract hashPair t height pos e =
      useStoredHash t height pos f { e with nBitsUsed := e.nBitsUsed + 1 } := by
  obtain ⟨hlt, hf⟩ := List.getElem?_eq_some_iff.mp hb
  rw [traverseAndExtract, dif_pos hlt]
  dsimp only
  rw [hf]
  cases height with
  | zero => rfl
  | succ h =>
    have hf : f = false := by simpa using hstop
    rw [hf]
    rfl

theorem traverseAndExtract_descend {t : CPartialMerkleTree} {height pos : Nat} {e : Extraction}
    (hb : t.vBits[e.nBitsUsed]? = some true) :
    traverseAndExtract hashPair t (height + 1) pos e =
      let left := traverseAndExtract hashPair t height (pos * 2)
        { e with nBitsUsed := e.nBitsUsed + 1 }
      if pos * 2 + 1 < calcTreeWidth t.nTransactions height then
        let right := traverseAndExtract hashPair t height (pos * 2 + 1) left.2
        (hashPair left.1 right.1,
          if right.1 = left.1 then { right.2 with fBad := true } else right.2)
      else (hashPair left.1 left.1, left.2) := by
  obtain ⟨hlt, hf⟩ := List.getElem?_eq_some_iff.mp hb
  rw [traverseAndExtract, dif_pos hlt]
  dsimp only
  rw [hf, if_pos rfl]

theorem useStoredHash_overflow {t : CPartialMerkleTree} {height pos : Nat} {f : Bool}
    {e : Extraction} (hh : t.vHash.length ≤ e.nHashUsed) :
    useStoredHash t height pos f e = (nullHash, { e with fBad := true }) := by
  rw [useStoredHash, dif_neg (Nat.not_lt.mpr hh)]

theorem useStoredHash_of_getElem? {t : CPartialMerkleTree} {height pos : Nat} {f : Bool}
    {e : Extraction} {hash : uint256} (hh : t.vHash[e.nHashUsed]? = some hash) :
    useStoredHash t height pos f e =
      (hash, if height = 0 ∧ f = true then
          { e with nHashUsed := e.nHashUsed + 1, vMatch := e.vMatch ++ [hash],
                   vnIndex := e.vnIndex ++ [pos] }
        else { e with nHashUsed := e.nHashUsed + 1 }) := by
  obtain ⟨hlt, rfl⟩ := List.getElem?_eq_some_iff.mp hh
  rw [useStoredHash, dif_pos hlt]
  dsimp only
  split <;> rfl

end Cases

end TbcNode.Consensus
