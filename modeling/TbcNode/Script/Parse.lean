import TbcNode.Script.Opcodes
import TbcNode.Encoding.Integers

/-! # The two script parsers

`CScript::GetOp2` reads one instruction at an iterator, modelled by the suffix it points to.
`bsv::decode_instruction` and `bsv::instruction_iterator` reimplement the same rules, but decode a
failed read and the byte `0xff` both as `OP_INVALIDOPCODE`.
-/

namespace TbcNode.Script

open TbcNode.Encoding

/-- `ReadLE16`: the first two bytes, little-endian. -/
def readLE16 (s : List UInt8) : Nat := readLE (s.take 2)

/-- `ReadLE32`: the first four bytes, little-endian. -/
def readLE32 (s : List UInt8) : Nat := readLE (s.take 4)

/-- The operand length of a push opcode and the rest of the script after the length field, as
`getOp2` reads them; `none` when the length field runs past the end. -/
def pushSize (opcode : UInt8) (pc : List UInt8) : Option (Nat × List UInt8) :=
  if opcode < OP_PUSHDATA1 then some (opcode.toNat, pc)
  else if opcode = OP_PUSHDATA1 then
    if pc.length < 1 then none else some (readLE (pc.take 1), pc.drop 1)
  else if opcode = OP_PUSHDATA2 then
    if pc.length < 2 then none else some (readLE16 pc, pc.drop 2)
  else if opcode = OP_PUSHDATA4 then
    if pc.length < 4 then none else some (readLE32 pc, pc.drop 4)
  else some (0, pc)

/-- `CScript::GetOp2`: the opcode, its operand and the rest of the script. -/
def getOp2 : List UInt8 → Option (UInt8 × valtype × List UInt8)
  | [] => none
  | opcode :: pc =>
    if opcode ≤ OP_PUSHDATA4 then
      match pushSize opcode pc with
      | none => none
      | some (nSize, pc) =>
        if pc.length < nSize then none else some (opcode, pc.take nSize, pc.drop nSize)
    else some (opcode, [], pc)

/-! ## `bsv::decode_instruction` and the instruction iterator -/

/-- `bsv::decode_instruction`: the opcode, the offset of the operand after the opcode byte and the
operand's length. -/
def decodeInstruction : List UInt8 → UInt8 × Nat × Nat
  | [] => (OP_INVALIDOPCODE, 0, 0)
  | opcode :: s =>
    if opcode > OP_PUSHDATA4 ∨ opcode = 0 then (opcode, 0, 0)
    else if s = [] then (OP_INVALIDOPCODE, 0, 0)
    else if opcode < OP_PUSHDATA1 then
      if opcode.toNat ≤ s.length then (opcode, 0, opcode.toNat) else (OP_INVALIDOPCODE, 0, 0)
    else if opcode = OP_PUSHDATA1 then
      if readLE (s.take 1) > s.length - 1 then (OP_INVALIDOPCODE, 0, 0)
      else (opcode, 1, readLE (s.take 1))
    else if opcode = OP_PUSHDATA2 then
      if s.length < 2 then (OP_INVALIDOPCODE, 0, 0)
      else if readLE16 s > s.length - 2 then (OP_INVALIDOPCODE, 0, 0)
      else (opcode, 2, readLE16 s)
    else if opcode = OP_PUSHDATA4 then
      if s.length < 4 then (OP_INVALIDOPCODE, 0, 0)
      else if readLE32 s > s.length - 4 then (OP_INVALIDOPCODE, 0, 0)
      else (opcode, 4, readLE32 s)
    else (opcode, 0, 0)

/-- `bsv::instruction`: the operand is kept as the bytes its span covers. -/
structure Instruction where
  opcode : UInt8
  offset : Nat
  operand : List UInt8
  deriving DecidableEq, Repr

/-- `instruction_iterator::next`: the instruction at the start of a span. -/
def next (s : List UInt8) : Instruction :=
  let (opcode, offset, len) := decodeInstruction s
  ⟨opcode, offset, (s.drop (1 + offset)).take len⟩

/-- `bsv::instruction_iterator`: the span still to read and the current instruction. -/
structure InstructionIterator where
  span : List UInt8
  instr : Instruction

def InstructionIterator.ofSpan (s : List UInt8) : InstructionIterator := ⟨s, next s⟩

/-- `instruction_iterator::operator++`: after `OP_INVALIDOPCODE` it jumps to the end of the span. -/
def InstructionIterator.incr (it : InstructionIterator) : InstructionIterator :=
  if it.instr.opcode = OP_INVALIDOPCODE then ⟨[], ⟨OP_INVALIDOPCODE, 0, []⟩⟩
  else InstructionIterator.ofSpan (it.span.drop (1 + it.instr.offset + it.instr.operand.length))

/-- The instructions `for (it = begin_instructions(); it != end_instructions(); ++it)` visits;
an iterator equals the end iterator when its span is empty. -/
def InstructionIterator.visit : Nat → InstructionIterator → List Instruction
  | 0, _ => []
  | fuel + 1, it => if it.span = [] then [] else it.instr :: visit fuel it.incr

/-- The instructions of a script, from `begin_instructions()` to `end_instructions()`. -/
def instructions (script : CScript) : List Instruction :=
  (InstructionIterator.ofSpan script).visit script.length

/-- The instructions `getOp2` reads from the start until it returns `false`, a failure being
recorded as one final `OP_INVALIDOPCODE` with no operand. -/
def getOpTrace : Nat → List UInt8 → List (UInt8 × valtype)
  | 0, _ => []
  | fuel + 1, pc =>
    match getOp2 pc with
    | none => if pc = [] then [] else [(OP_INVALIDOPCODE, [])]
    | some (opcode, v, pc') => (opcode, v) :: getOpTrace fuel pc'

/-! ## The iterator against `getOp2`

Both parsers read a push opcode's length field and operand by the same rules, so on every
instruction `getOp2` reads, `next` reads the same opcode and operand; where `getOp2` fails, `next`
yields `OP_INVALIDOPCODE`. They part at the literal byte `0xff`: `getOp2` reads it as an ordinary
opcode and goes on, the iterator takes it for a failure and jumps to the end.
-/

/-- The size of a push opcode's length field and the operand length it announces. -/
def pushHeader (opcode : UInt8) (t : List UInt8) : Nat × Nat :=
  if opcode < OP_PUSHDATA1 then (0, opcode.toNat)
  else if opcode = OP_PUSHDATA1 then (1, readLE (t.take 1))
  else if opcode = OP_PUSHDATA2 then (2, readLE16 t)
  else (4, readLE32 t)

theorem eq_OP_PUSHDATA4 {opcode : UInt8} (h : opcode ≤ OP_PUSHDATA4) (h1 : ¬ opcode < OP_PUSHDATA1)
    (h2 : ¬ opcode = OP_PUSHDATA1) (h3 : ¬ opcode = OP_PUSHDATA2) : opcode = OP_PUSHDATA4 := by
  simp only [OP_PUSHDATA1, OP_PUSHDATA2, OP_PUSHDATA4, UInt8.lt_iff_toNat_lt,
    UInt8.le_iff_toNat_le, ← UInt8.toNat_inj] at h h1 h2 h3 ⊢
  simp at h h1 h2 h3 ⊢
  omega

theorem getOp2_push {opcode : UInt8} (t : List UInt8) (h : opcode ≤ OP_PUSHDATA4) :
    getOp2 (opcode :: t) =
      if t.length < (pushHeader opcode t).1 then none
      else if (t.drop (pushHeader opcode t).1).length < (pushHeader opcode t).2 then none
      else some (opcode, (t.drop (pushHeader opcode t).1).take (pushHeader opcode t).2,
        (t.drop (pushHeader opcode t).1).drop (pushHeader opcode t).2) := by
  simp only [getOp2, h, if_true, pushSize, pushHeader]
  by_cases h1 : opcode < OP_PUSHDATA1
  · simp [h1]
  · by_cases h2 : opcode = OP_PUSHDATA1
    · by_cases ht : t.length < 1 <;> simp [h2, ht]
    · by_cases h3 : opcode = OP_PUSHDATA2
      · by_cases ht : t.length < 2 <;> simp [h3, ht, OP_PUSHDATA1, OP_PUSHDATA2]
      · simp only [if_neg h1, if_neg h2, if_neg h3, if_pos (eq_OP_PUSHDATA4 h h1 h2 h3)]
        by_cases ht : t.length < 4 <;> simp [ht]

theorem decodeInstruction_push {opcode : UInt8} (t : List UInt8) (h : opcode ≤ OP_PUSHDATA4)
    (h0 : opcode ≠ 0) :
    decodeInstruction (opcode :: t) =
      if t.length < (pushHeader opcode t).1 then (OP_INVALIDOPCODE, 0, 0)
      else if (pushHeader opcode t).2 > t.length - (pushHeader opcode t).1 then
        (OP_INVALIDOPCODE, 0, 0)
      else (opcode, (pushHeader opcode t).1, (pushHeader opcode t).2) := by
  have hn : ¬ (opcode > OP_PUSHDATA4 ∨ opcode = 0) := by
    simp only [gt_iff_lt, not_or, UInt8.not_lt]
    exact ⟨h, h0⟩
  have h0' : 0 < opcode.toNat := by
    simpa [Nat.pos_iff_ne_zero, ← UInt8.toNat_inj] using h0
  simp only [decodeInstruction, hn, if_false, pushHeader]
  by_cases h1 : opcode < OP_PUSHDATA1
  · simp only [if_pos h1]
    cases t with
    | nil => simp; omega
    | cons b t =>
      by_cases hl : opcode.toNat ≤ t.length + 1
      · simp only [List.length_cons, hl, if_true, Nat.sub_zero, gt_iff_lt]
        simp [Nat.not_lt.mpr hl]
      · simp [hl]
  · simp only [if_neg h1]
    by_cases h2 : opcode = OP_PUSHDATA1
    · simp only [if_pos h2]
      cases t with
      | nil => simp
      | cons b t => simp [h2]
    · simp only [if_neg h2]
      by_cases h3 : opcode = OP_PUSHDATA2
      · simp only [if_pos h3]
        cases t with
        | nil => simp
        | cons b t => simp [h3]
      · simp only [if_neg h3, if_pos (eq_OP_PUSHDATA4 h h1 h2 h3)]
        cases t with
        | nil => simp
        | cons b t => simp [eq_OP_PUSHDATA4 h h1 h2 h3]

theorem decodeInstruction_of_not_push {opcode : UInt8} (t : List UInt8)
    (h : ¬ opcode ≤ OP_PUSHDATA4) : decodeInstruction (opcode :: t) = (opcode, 0, 0) := by
  have hgt : opcode > OP_PUSHDATA4 := UInt8.not_le.mp h
  simp [decodeInstruction, hgt]

theorem next_of_getOp2_some {s rest : List UInt8} {op : UInt8} {v : valtype}
    (h : getOp2 s = some (op, v, rest)) :
    (next s).opcode = op ∧ (next s).operand = v ∧
      s.drop (1 + (next s).offset + v.length) = rest := by
  obtain _ | ⟨opcode, t⟩ := s
  · simp [getOp2] at h
  by_cases hp : opcode ≤ OP_PUSHDATA4
  · by_cases h0 : opcode = 0
    · subst h0
      simp [getOp2_push t hp, pushHeader, OP_PUSHDATA1] at h
      obtain ⟨rfl, rfl, rfl⟩ := h
      simp [next, decodeInstruction]
    · rw [getOp2_push t hp] at h
      have hdec := decodeInstruction_push t hp h0
      set k := (pushHeader opcode t).1
      set len := (pushHeader opcode t).2
      have hk : ¬ t.length < k := fun hk => by simp [hk] at h
      have hl : len ≤ t.length - k := Nat.not_lt.mp fun hl => by simp [hk, hl] at h
      simp only [hk, if_false, List.length_drop, Nat.not_lt.mpr hl, Option.some.injEq,
        Prod.mk.injEq] at h
      obtain ⟨rfl, rfl, rfl⟩ := h
      have hv : ((t.drop k).take len).length = len := by simp; omega
      simp only [next, hdec, hk, Nat.not_lt.mpr hl, if_false, hv]
      have hdrop : ∀ n, (opcode :: t).drop (1 + n) = t.drop n := fun n => by
        rw [Nat.add_comm 1, List.drop_succ_cons]
      refine ⟨trivial, by rw [hdrop], by rw [Nat.add_assoc, hdrop, List.drop_drop]⟩
  · simp only [getOp2, hp, if_false, Option.some.injEq, Prod.mk.injEq] at h
    obtain ⟨rfl, rfl, rfl⟩ := h
    simp [next, decodeInstruction_of_not_push t hp]

theorem length_lt_of_getOp2_some {s rest : List UInt8} {op : UInt8} {v : valtype}
    (h : getOp2 s = some (op, v, rest)) : rest.length < s.length := by
  have hs : s ≠ [] := by
    rintro rfl
    simp [getOp2] at h
  obtain ⟨-, -, hrest⟩ := next_of_getOp2_some h
  have hpos := List.length_pos_of_ne_nil hs
  rw [← hrest, List.length_drop]
  omega

theorem next_of_getOp2_none {s : List UInt8} (hs : s ≠ []) (h : getOp2 s = none) :
    (next s).opcode = OP_INVALIDOPCODE ∧ (next s).operand = [] := by
  obtain _ | ⟨opcode, t⟩ := s
  · exact absurd rfl hs
  by_cases hp : opcode ≤ OP_PUSHDATA4
  · by_cases h0 : opcode = 0
    · subst h0
      simp [getOp2_push t hp, pushHeader, OP_PUSHDATA1] at h
    · rw [getOp2_push t hp] at h
      have hdec := decodeInstruction_push t hp h0
      set k := (pushHeader opcode t).1
      set len := (pushHeader opcode t).2
      by_cases hk : t.length < k
      · simp [next, hdec, hk]
      · have hl : t.length - k < len := Nat.not_le.mp fun hl => by
          simp [hk, Nat.not_lt.mpr hl] at h
        simp [next, hdec, hk, hl]
  · simp [getOp2, hp] at h

/-- The prefix of an instruction list up to and including its first `OP_INVALIDOPCODE`. -/
def untilInvalid : List (UInt8 × valtype) → List (UInt8 × valtype)
  | [] => []
  | x :: xs => if x.1 = OP_INVALIDOPCODE then [x] else x :: untilInvalid xs

/-- An instruction as an (opcode, operand) pair. -/
def Instruction.pair (i : Instruction) : UInt8 × valtype := (i.opcode, i.operand)

@[simp] theorem visit_of_span_nil (fuel : Nat) (i : Instruction) :
    InstructionIterator.visit fuel ⟨[], i⟩ = [] := by
  cases fuel <;> rfl

theorem visit_ofSpan_pair (fuel : Nat) (s : List UInt8) (hs : s.length ≤ fuel) :
    ((InstructionIterator.ofSpan s).visit fuel).map Instruction.pair =
      untilInvalid (getOpTrace fuel s) := by
  induction fuel generalizing s with
  | zero => rfl
  | succ fuel ih =>
    by_cases hnil : s = []
    · subst hnil
      rfl
    have hvisit : (InstructionIterator.ofSpan s).visit (fuel + 1) =
        next s :: (InstructionIterator.incr ⟨s, next s⟩).visit fuel := by
      simp [InstructionIterator.visit, InstructionIterator.ofSpan, hnil]
    rw [hvisit]
    cases hg : getOp2 s with
    | none =>
      obtain ⟨hop, hv⟩ := next_of_getOp2_none hnil hg
      simp [getOpTrace, hg, hnil, untilInvalid, InstructionIterator.incr, hop,
        Instruction.pair, hv]
    | some r =>
      obtain ⟨op, v, rest⟩ := r
      obtain ⟨hop, hv, hrest⟩ := next_of_getOp2_some hg
      by_cases hinv : op = OP_INVALIDOPCODE
      · simp [getOpTrace, hg, untilInvalid, InstructionIterator.incr, hop, hinv,
          Instruction.pair, hv]
      · have hlen : rest.length ≤ fuel := by
          rw [← hrest, List.length_drop]
          omega
        have hincr : InstructionIterator.incr ⟨s, next s⟩ = InstructionIterator.ofSpan rest := by
          simp [InstructionIterator.incr, hop, hinv, hv, hrest]
        simp [getOpTrace, hg, untilInvalid, hinv, hincr, ih rest hlen, Instruction.pair, hop, hv]

theorem instructions_pair (script : CScript) :
    (instructions script).map Instruction.pair =
      untilInvalid (getOpTrace script.length script) :=
  visit_ofSpan_pair script.length script (Nat.le_refl _)

/-! ## Scripts built from data, and `FindAndDelete` -/

/-- `CScript() << b` for a byte vector `b`: the shortest of the four push forms, then `b`. -/
def pushData (b : valtype) : CScript :=
  (if b.length < OP_PUSHDATA1.toNat then [UInt8.ofNat b.length]
    else if b.length ≤ 0xff then [OP_PUSHDATA1, UInt8.ofNat b.length]
    else if b.length ≤ 0xffff then OP_PUSHDATA2 :: writeLE 2 b.length
    else OP_PUSHDATA4 :: writeLE 4 b.length) ++ b

/-- The inner `while` of `FindAndDelete`: skips every copy of `b` at `pc`, counting them. -/
def skipCopies (b : CScript) : Nat → CScript → CScript × Nat
  | 0, pc => (pc, 0)
  | fuel + 1, pc =>
    if b ≠ [] ∧ b <+: pc then
      let (pc', n) := skipCopies b fuel (pc.drop b.length)
      (pc', n + 1)
    else (pc, 0)

/-- The outer `do ... while (GetOp(pc, opcode))` of `FindAndDelete`: `result` holds the kept
bytes, `pc2` the start of the instruction not yet copied and `pc` the iterator. Returns the kept
bytes, the number of copies found and `pc2` when `GetOp` fails. -/
def findAndDeleteLoop (b : CScript) : Nat → CScript → Nat → CScript → CScript → CScript × Nat × CScript
  | 0, result, nFound, pc2, _ => (result, nFound, pc2)
  | fuel + 1, result, nFound, pc2, pc =>
    let result := result ++ pc2.take (pc2.length - pc.length)
    let (pc, n) := skipCopies b pc.length pc
    match getOp2 pc with
    | some (_, _, rest) => findAndDeleteLoop b fuel result (nFound + n) pc rest
    | none => (result, nFound + n, pc)

/-- `CScript::FindAndDelete(b)`: the script with every copy of `b` at an instruction boundary
removed, and the number of copies; an empty `b`, or none found, leaves the script as it is. -/
def findAndDelete (script b : CScript) : CScript × Nat :=
  if b = [] then (script, 0)
  else
    let (result, nFound, pc2) := findAndDeleteLoop b (script.length + 1) [] 0 script script
    if nFound > 0 then (result ++ pc2, nFound) else (script, 0)

/-- `CScript::IsPushOnly(pc)`, on fuel: every instruction from `pc` on parses and is at most
`OP_16`. -/
def isPushOnlyFrom : Nat → CScript → Bool
  | 0, _ => true
  | fuel + 1, pc =>
    match pc with
    | [] => true
    | _ =>
      match getOp2 pc with
      | none => false
      | some (opcode, _, rest) => if opcode > OP_16 then false else isPushOnlyFrom fuel rest

/-- `CScript::IsPushOnly()`; every instruction takes a byte, so the script's length is enough
fuel. -/
def isPushOnly (script : CScript) : Bool := isPushOnlyFrom script.length script

/-- `IsP2SH`: `OP_HASH160`, a 20-byte push and `OP_EQUAL`. -/
def isP2SH (script : CScript) : Bool :=
  script.length == 23 && script[0]? == some OP_HASH160 && script[1]? == some 0x14 &&
    script[22]? == some OP_EQUAL

end TbcNode.Script
