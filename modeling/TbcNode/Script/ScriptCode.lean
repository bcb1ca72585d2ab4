import TbcNode.Script.FindAndDelete
import TbcNode.Primitives.Serialize

/-! # The script code in a signature hash (`CTransactionSignatureSerializer`)

`SerializeScriptCode` writes the script code without its `OP_CODESEPARATOR`s, counting them in a
first `GetOp` loop. `GetOp2` advances past a push it cannot finish, so a truncated last push loses
its data although the announced size counts it.
-/

namespace TbcNode.Script

open TbcNode.Primitives

/-- Where `GetOp2` leaves the iterator when it returns `false`: past the opcode and the part of
the length field it read, or at the end. -/
def getOp2Stop : List UInt8 → List UInt8
  | [] => []
  | opcode :: pc =>
    if opcode ≤ OP_PUSHDATA4 then
      match pushSize opcode pc with
      | none => pc
      | some (_, pc) => pc
    else pc

/-- The first loop of `SerializeScriptCode`: the separators counted until `GetOp` fails. -/
def countCodeSeparators : Nat → CScript → Nat → Nat
  | 0, _, nCodeSeparators => nCodeSeparators
  | fuel + 1, it, nCodeSeparators =>
    match getOp2 it with
    | some (opcode, _, it) =>
      countCodeSeparators fuel it
        (if opcode = OP_CODESEPARATOR then nCodeSeparators + 1 else nCodeSeparators)
    | none => nCodeSeparators

/-- The second loop of `SerializeScriptCode`: at each separator the bytes from `itBegin` to just
before it are written, and once `GetOp` fails the bytes from `itBegin` to where it stopped. -/
def writeScriptCodeLoop : Nat → (itBegin it : CScript) → List UInt8 → List UInt8
  | 0, _, _, s => s
  | fuel + 1, itBegin, it, s =>
    match getOp2 it with
    | some (opcode, _, it) =>
      if opcode = OP_CODESEPARATOR then
        writeScriptCodeLoop fuel it it (s ++ itBegin.take (itBegin.length - it.length - 1))
      else writeScriptCodeLoop fuel itBegin it s
    | none =>
      let it := getOp2Stop it
      if itBegin ≠ [] then s ++ itBegin.take (itBegin.length - it.length) else s

def serializeScriptCode (scriptCode : CScript) : Except String (List UInt8) := do
  let nCodeSeparators := countCodeSeparators (scriptCode.length + 1) scriptCode 0
  let size ← writeCompactSize (scriptCode.length - nCodeSeparators)
  pure (size ++ writeScriptCodeLoop (scriptCode.length + 1) scriptCode scriptCode [])

/-! ## The instructions of a script -/

/-- The instructions `GetOp` reads from the start of a script, each with its opcode and its bytes,
and the part of the script where it fails. -/
def splitInstructions (s : CScript) : List (UInt8 × CScript) × CScript :=
  match h : getOp2 s with
  | some (opcode, _, rest) =>
    have : rest.length < s.length := length_lt_of_getOp2_some h
    let r := splitInstructions rest
    ((opcode, s.take (s.length - rest.length)) :: r.1, r.2)
  | none => ([], s)
termination_by s.length

/-- The bytes of the instructions whose opcode satisfies `p`. -/
def instructionBytes (p : UInt8 → Bool) (l : List (UInt8 × CScript)) : CScript :=
  (l.filter fun i => p i.1).flatMap Prod.snd

/-- The script with the bytes of every separator `GetOp` reads removed. -/
def withoutSeparators (s : CScript) : CScript :=
  instructionBytes (· != OP_CODESEPARATOR) (splitInstructions s).1 ++ (splitInstructions s).2

def separatorCount (s : CScript) : Nat :=
  ((splitInstructions s).1.filter fun i => i.1 == OP_CODESEPARATOR).length

theorem splitInstructions_of_some {s rest : CScript} {opcode : UInt8} {v : valtype}
    (h : getOp2 s = some (opcode, v, rest)) :
    splitInstructions s = ((opcode, s.take (s.length - rest.length)) :: (splitInstructions rest).1,
      (splitInstructions rest).2) := by
  rw [splitInstructions]
  split
  · next h' =>
    rw [h] at h'
    cases h'
    rfl
  · next h' =>
    rw [h] at h'
    cases h'

theorem splitInstructions_of_none {s : CScript} (h : getOp2 s = none) :
    splitInstructions s = ([], s) := by
  rw [splitInstructions]
  split
  · next h' =>
    rw [h] at h'
    cases h'
  · rfl

@[simp] theorem instructionBytes_nil (p : UInt8 → Bool) : instructionBytes p [] = [] := rfl

theorem instructionBytes_cons (p : UInt8 → Bool) (i : UInt8 × CScript) (l : List (UInt8 × CScript)) :
    instructionBytes p (i :: l) = (if p i.1 then i.2 else []) ++ instructionBytes p l := by
  unfold instructionBytes
  by_cases hp : p i.1 <;> simp [hp]

theorem getOp2_separator {s rest : CScript} {v : valtype}
    (h : getOp2 s = some (OP_CODESEPARATOR, v, rest)) : s = OP_CODESEPARATOR :: rest := by
  obtain _ | ⟨opcode, pc⟩ := s
  · cases h
  · simp only [getOp2] at h
    split_ifs at h with hpush
    · exfalso
      split at h
      · cases h
      · split_ifs at h
        cases h
        exact absurd hpush (by decide)
    · cases h
      rfl

theorem getOp2Stop_suffix (s : List UInt8) : getOp2Stop s <:+ s := by
  obtain _ | ⟨opcode, pc⟩ := s
  · exact List.suffix_refl _
  · simp only [getOp2Stop]
    split_ifs
    · split
      · exact List.suffix_cons _ _
      · next _ pc' hsize =>
        have hpc : pc' <:+ pc := by
          unfold pushSize at hsize
          split_ifs at hsize <;> cases hsize <;>
            first | exact List.suffix_refl _ | exact List.drop_suffix _ _
        exact hpc.trans (List.suffix_cons _ _)
    · exact List.suffix_cons _ _

theorem take_append_take_of_suffix {α : Type} {l m t : List α} (hm : m <:+ l) (ht : t <:+ m) :
    l.take (l.length - m.length) ++ m.take (m.length - t.length) = l.take (l.length - t.length) := by
  obtain ⟨b, rfl⟩ := ht
  obtain ⟨a, rfl⟩ := hm
  have e₁ : (a ++ (b ++ t)).length - (b ++ t).length = a.length := by simp
  have e₂ : (b ++ t).length - t.length = b.length := by simp
  have e₃ : (a ++ (b ++ t)).length - t.length = (a ++ b).length := by simp; omega
  rw [e₁, e₂, e₃, List.take_left, List.take_left, ← List.append_assoc, List.take_left]

/-! ## The two loops against the reference -/

theorem separatorCount_of_some {s rest : CScript} {opcode : UInt8} {v : valtype}
    (h : getOp2 s = some (opcode, v, rest)) :
    separatorCount s = (if opcode = OP_CODESEPARATOR then 1 else 0) + separatorCount rest := by
  unfold separatorCount
  rw [splitInstructions_of_some h, List.filter_cons]
  by_cases hs : opcode = OP_CODESEPARATOR <;> simp [hs, Nat.add_comm]

theorem separatorCount_of_none {s : CScript} (h : getOp2 s = none) : separatorCount s = 0 := by
  unfold separatorCount
  rw [splitInstructions_of_none h]
  rfl

theorem countCodeSeparators_eq :
    ∀ fuel it n, it.length < fuel → countCodeSeparators fuel it n = n + separatorCount it := by
  intro fuel
  induction fuel with
  | zero => intro _ _ h; omega
  | succ fuel ih =>
    intro it n hlen
    rcases hg : getOp2 it with _ | ⟨opcode, v, rest⟩
    · rw [countCodeSeparators, hg, separatorCount_of_none hg]
      rfl
    · have hrest := length_lt_of_getOp2_some hg
      rw [countCodeSeparators, hg, separatorCount_of_some hg]
      dsimp only
      rw [ih rest _ (by omega)]
      split_ifs <;> omega

/-- The bytes the second loop writes from `it` on: the reference's bytes with the tail where
`GetOp` fails cut at the point `GetOp2` stopped reading it. -/
def writtenFrom (it : CScript) : List UInt8 :=
  instructionBytes (· != OP_CODESEPARATOR) (splitInstructions it).1 ++
    (splitInstructions it).2.take
      ((splitInstructions it).2.length - (getOp2Stop (splitInstructions it).2).length)

theorem writeScriptCodeLoop_eq :
    ∀ fuel itBegin it s, it <:+ itBegin → it.length < fuel →
      writeScriptCodeLoop fuel itBegin it s =
        s ++ itBegin.take (itBegin.length - it.length) ++ writtenFrom it := by
  intro fuel
  induction fuel with
  | zero => intro _ _ _ _ h; omega
  | succ fuel ih =>
    intro itBegin it s hsuf hlen
    rcases hg : getOp2 it with _ | ⟨opcode, v, rest⟩
    · have hstop := getOp2Stop_suffix it
      rw [writeScriptCodeLoop, hg, writtenFrom, splitInstructions_of_none hg, instructionBytes_nil,
        List.nil_append, List.append_assoc, take_append_take_of_suffix hsuf hstop]
      dsimp only
      split_ifs with hb
      · rfl
      · obtain rfl : itBegin = [] := by simpa using hb
        obtain rfl : it = [] := List.eq_nil_of_suffix_nil hsuf
        simp
    · have hrest := length_lt_of_getOp2_some hg
      have hsr := suffix_of_getOp2_some hg
      rw [writeScriptCodeLoop, hg]
      dsimp only
      split_ifs with hs
      · subst hs
        have hit := getOp2_separator hg
        rw [ih rest rest _ (List.suffix_refl _) (by omega), writtenFrom, writtenFrom,
          splitInstructions_of_some hg, instructionBytes_cons, if_neg (by simp), List.nil_append,
          Nat.sub_self, List.take_zero, List.append_nil, hit, List.length_cons]
        rfl
      · rw [ih itBegin rest s (hsr.trans hsuf) (by omega), writtenFrom, writtenFrom,
          splitInstructions_of_some hg, instructionBytes_cons, if_pos (by simpa using hs),
          ← take_append_take_of_suffix hsuf hsr]
        simp only [List.append_assoc]

/-! ## What is written -/

theorem splitInstructions_spec (s : CScript) :
    (instructionBytes (· != OP_CODESEPARATOR) (splitInstructions s).1).length + separatorCount s +
        (splitInstructions s).2.length = s.length ∧ (splitInstructions s).2 <:+ s := by
  induction hn : s.length using Nat.strong_induction_on generalizing s with
  | _ n ih =>
    rcases hg : getOp2 s with _ | ⟨opcode, v, rest⟩
    · rw [splitInstructions_of_none hg, separatorCount_of_none hg]
      exact ⟨by simp [hn], List.suffix_refl _⟩
    · have hrest := length_lt_of_getOp2_some hg
      have hsr := suffix_of_getOp2_some hg
      obtain ⟨hlen, hsuf⟩ := ih rest.length (by omega) rest rfl
      rw [splitInstructions_of_some hg, separatorCount_of_some hg, instructionBytes_cons]
      dsimp only
      refine ⟨?_, hsuf.trans hsr⟩
      by_cases hs : opcode = OP_CODESEPARATOR
      · subst hs
        have hit := getOp2_separator hg
        rw [if_neg (by simp), if_pos rfl, List.nil_append]
        rw [hit, List.length_cons] at hn
        omega
      · rw [if_pos (by simpa using hs), if_neg hs, List.length_append, List.length_take,
          Nat.min_eq_left (Nat.sub_le _ _)]
        omega

theorem length_withoutSeparators (s : CScript) :
    (withoutSeparators s).length = s.length - separatorCount s := by
  have h := (splitInstructions_spec s).1
  rw [withoutSeparators, List.length_append]
  omega

theorem writtenFrom_eq (s : CScript) :
    writtenFrom s = (withoutSeparators s).take
      ((withoutSeparators s).length - (getOp2Stop (splitInstructions s).2).length) := by
  have hstop := (getOp2Stop_suffix (splitInstructions s).2).length_le
  have hN : (instructionBytes (· != OP_CODESEPARATOR) (splitInstructions s).1 ++
      (splitInstructions s).2).length - (getOp2Stop (splitInstructions s).2).length =
      (instructionBytes (· != OP_CODESEPARATOR) (splitInstructions s).1).length +
        ((splitInstructions s).2.length - (getOp2Stop (splitInstructions s).2).length) := by
    rw [List.length_append]
    omega
  rw [writtenFrom, withoutSeparators, hN, List.take_length_add_append]

/-- `SerializeScriptCode` announces the size of the reference, and writes the reference except the
bytes of the tail that `GetOp2` did not read when it failed: exactly the announced size when it
read the whole tail. -/
theorem serialize_script_code_layout (scriptCode : CScript) :
    serializeScriptCode scriptCode =
      (fun size => size ++ (withoutSeparators scriptCode).take
        ((withoutSeparators scriptCode).length -
          (getOp2Stop (splitInstructions scriptCode).2).length)) <$>
        writeCompactSize (scriptCode.length - separatorCount scriptCode) ∧
    (withoutSeparators scriptCode).length = scriptCode.length - separatorCount scriptCode ∧
    (((withoutSeparators scriptCode).take ((withoutSeparators scriptCode).length -
        (getOp2Stop (splitInstructions scriptCode).2).length)).length =
        scriptCode.length - separatorCount scriptCode ↔
      getOp2Stop (splitInstructions scriptCode).2 = []) := by
  have hlen := length_withoutSeparators scriptCode
  have hstop := (getOp2Stop_suffix (splitInstructions scriptCode).2).length_le
  have htail := (splitInstructions_spec scriptCode).1
  refine ⟨?_, hlen, ?_⟩
  · rw [serializeScriptCode, countCodeSeparators_eq _ _ _ (Nat.lt_succ_self _), Nat.zero_add,
      writeScriptCodeLoop_eq _ _ _ _ (List.suffix_refl _) (Nat.lt_succ_self _), Nat.sub_self,
      List.take_zero, List.nil_append, List.nil_append, writtenFrom_eq]
    cases writeCompactSize (scriptCode.length - separatorCount scriptCode) <;> rfl
  · rw [List.length_take, hlen, ← List.length_eq_zero_iff]
    omega

/-- A push whose data runs past the end: only its opcode byte is written, under a size of two. -/
theorem serializeScriptCode_truncated_push :
    serializeScriptCode [0x02, 0xaa] = .ok [0x02, 0x02] := rfl

end TbcNode.Script
