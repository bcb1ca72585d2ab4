import TbcNode.Script.Parse

/-! # `FindAndDelete` (`script.cpp`)

`FindAndDelete` removes the copies of a pattern that start at instruction boundaries, as `GetOp`
reads them. Its two nested loops compute the reference deletion (`stripCopies`,
`deleteAtBoundaries`), which drops every copy at a boundary and copies one instruction.
-/

namespace TbcNode.Script

theorem suffix_of_getOp2_some {s rest : List UInt8} {op : UInt8} {v : valtype}
    (h : getOp2 s = some (op, v, rest)) : rest <:+ s := by
  obtain ⟨-, -, hrest⟩ := next_of_getOp2_some h
  rw [← hrest]
  exact List.drop_suffix _ _

theorem take_append_of_suffix {α : Type} {l t : List α} (h : t <:+ l) :
    l.take (l.length - t.length) ++ t = l := by
  obtain ⟨u, rfl⟩ := h
  rw [List.length_append, Nat.add_sub_cancel, List.take_left]

/-! ## The reference deletion

The deletion as the specification describes it: at an instruction boundary drop every copy of
the pattern that starts there, then copy one instruction and go on at the next boundary, and keep
what is left once no instruction can be read. -/

/-- The copies of `b` at the start of `s` removed, with their number. -/
def stripCopies (b s : CScript) : CScript × Nat :=
  if h : b ≠ [] ∧ b <+: s then
    let r := stripCopies b (s.drop b.length)
    (r.1, r.2 + 1)
  else (s, 0)
termination_by s.length
decreasing_by
  have := List.length_pos_of_ne_nil h.1
  have := h.2.length_le
  rw [List.length_drop]
  omega

theorem length_stripCopies_le (b s : CScript) : (stripCopies b s).1.length ≤ s.length := by
  fun_induction stripCopies b s with
  | case1 s _ r ih =>
    rw [List.length_drop] at ih
    exact le_trans ih (Nat.sub_le _ _)
  | case2 => exact le_rfl

/-- Deletion of the copies of `b` at every instruction boundary of `s`. -/
def deleteAtBoundaries (b s : CScript) : CScript × Nat :=
  let r := stripCopies b s
  match h : getOp2 r.1 with
  | some (_, _, rest) =>
    have : rest.length < s.length :=
      lt_of_lt_of_le (length_lt_of_getOp2_some h) (length_stripCopies_le b s)
    let d := deleteAtBoundaries b rest
    (r.1.take (r.1.length - rest.length) ++ d.1, r.2 + d.2)
  | none => r
termination_by s.length

/-! ## The copies of the pattern at one boundary -/

section Copies

variable {b : CScript}

theorem skipCopies_succ_of_copy {fuel : Nat} {pc : CScript} (hp : b ≠ [] ∧ b <+: pc) :
    skipCopies b (fuel + 1) pc =
      ((skipCopies b fuel (pc.drop b.length)).1, (skipCopies b fuel (pc.drop b.length)).2 + 1) := by
  rw [skipCopies, if_pos hp]

theorem skipCopies_succ_of_no_copy {fuel : Nat} {pc : CScript} (hp : ¬ (b ≠ [] ∧ b <+: pc)) :
    skipCopies b (fuel + 1) pc = (pc, 0) := by
  rw [skipCopies, if_neg hp]

theorem skipCopies_eq_stripCopies :
    ∀ fuel pc, pc.length ≤ fuel → skipCopies b fuel pc = stripCopies b pc := by
  intro fuel
  induction fuel with
  | zero =>
    intro pc hpc
    obtain rfl : pc = [] := List.eq_nil_of_length_eq_zero (by omega)
    rw [skipCopies, stripCopies, dif_neg (fun h => h.1 (List.eq_nil_of_prefix_nil h.2))]
  | succ fuel ih =>
    intro pc hpc
    by_cases hp : b ≠ [] ∧ b <+: pc
    · have hlen : (pc.drop b.length).length ≤ fuel := by
        have := List.length_pos_of_ne_nil hp.1
        rw [List.length_drop]
        omega
      rw [skipCopies_succ_of_copy hp, stripCopies, dif_pos hp, ih _ hlen]
    · rw [skipCopies_succ_of_no_copy hp, stripCopies, dif_neg hp]

theorem skipCopies_spec (hb : b ≠ []) :
    ∀ fuel pc, pc.length ≤ fuel →
      (List.replicate (skipCopies b fuel pc).2 b).flatten ++ (skipCopies b fuel pc).1 = pc ∧
        ¬ b <+: (skipCopies b fuel pc).1 := by
  intro fuel
  induction fuel with
  | zero =>
    intro pc hpc
    obtain rfl : pc = [] := List.eq_nil_of_length_eq_zero (by omega)
    exact ⟨rfl, fun h => hb (List.eq_nil_of_prefix_nil h)⟩
  | succ fuel ih =>
    intro pc hpc
    by_cases hp : b ≠ [] ∧ b <+: pc
    · have hlen : (pc.drop b.length).length ≤ fuel := by
        have := List.length_pos_of_ne_nil hb
        rw [List.length_drop]
        omega
      obtain ⟨happ, hnot⟩ := ih _ hlen
      rw [skipCopies_succ_of_copy hp]
      refine ⟨?_, hnot⟩
      dsimp only
      rw [List.replicate_succ, List.flatten_cons, List.append_assoc, happ]
      obtain ⟨t, rfl⟩ := hp.2
      rw [List.drop_left]
    · rw [skipCopies_succ_of_no_copy hp]
      exact ⟨rfl, fun h => hp ⟨hb, h⟩⟩

theorem stripCopies_spec (hb : b ≠ []) (s : CScript) :
    (List.replicate (stripCopies b s).2 b).flatten ++ (stripCopies b s).1 = s ∧
      ¬ b <+: (stripCopies b s).1 := by
  rw [← skipCopies_eq_stripCopies s.length s le_rfl]
  exact skipCopies_spec hb s.length s le_rfl

theorem length_flatten_replicate (n : Nat) (l : CScript) :
    (List.replicate n l).flatten.length = n * l.length := by
  simp [List.length_flatten, List.map_replicate, List.sum_replicate]

theorem length_stripCopies (hb : b ≠ []) (s : CScript) :
    (stripCopies b s).1.length + (stripCopies b s).2 * b.length = s.length := by
  have h := congrArg List.length (stripCopies_spec hb s).1
  rw [List.length_append, length_flatten_replicate] at h
  omega

theorem stripCopies_suffix (hb : b ≠ []) (s : CScript) : (stripCopies b s).1 <:+ s :=
  ⟨_, (stripCopies_spec hb s).1⟩

end Copies

/-! ## The outer loop of the source against the reference -/

section Loop

variable {b : CScript}

theorem deleteAtBoundaries_of_some {s rest : CScript} {op : UInt8} {v : valtype}
    (h : getOp2 (stripCopies b s).1 = some (op, v, rest)) :
    deleteAtBoundaries b s =
      ((stripCopies b s).1.take ((stripCopies b s).1.length - rest.length) ++
        (deleteAtBoundaries b rest).1, (stripCopies b s).2 + (deleteAtBoundaries b rest).2) := by
  rw [deleteAtBoundaries]
  split
  · next h' =>
    rw [h] at h'
    cases h'
    rfl
  · next h' =>
    rw [h] at h'
    cases h'

theorem deleteAtBoundaries_of_none {s : CScript} (h : getOp2 (stripCopies b s).1 = none) :
    deleteAtBoundaries b s = stripCopies b s := by
  rw [deleteAtBoundaries]
  split
  · next h' =>
    rw [h] at h'
    cases h'
  · rfl

theorem findAndDeleteLoop_succ_of_some {fuel : Nat} {result pc2 pc rest : CScript} {nFound : Nat}
    {op : UInt8} {v : valtype} (h : getOp2 (skipCopies b pc.length pc).1 = some (op, v, rest)) :
    findAndDeleteLoop b (fuel + 1) result nFound pc2 pc =
      findAndDeleteLoop b fuel (result ++ pc2.take (pc2.length - pc.length))
        (nFound + (skipCopies b pc.length pc).2) (skipCopies b pc.length pc).1 rest := by
  rw [findAndDeleteLoop]
  generalize skipCopies b pc.length pc = r at h ⊢
  obtain ⟨p, n⟩ := r
  dsimp only at h ⊢
  rw [h]

theorem findAndDeleteLoop_succ_of_none {fuel : Nat} {result pc2 pc : CScript} {nFound : Nat}
    (h : getOp2 (skipCopies b pc.length pc).1 = none) :
    findAndDeleteLoop b (fuel + 1) result nFound pc2 pc =
      (result ++ pc2.take (pc2.length - pc.length), nFound + (skipCopies b pc.length pc).2,
        (skipCopies b pc.length pc).1) := by
  rw [findAndDeleteLoop]
  generalize skipCopies b pc.length pc = r at h ⊢
  obtain ⟨p, n⟩ := r
  dsimp only at h ⊢
  rw [h]

theorem findAndDeleteLoop_eq :
    ∀ fuel result nFound pc2 pc, pc.length < fuel →
      (findAndDeleteLoop b fuel result nFound pc2 pc).1 ++
          (findAndDeleteLoop b fuel result nFound pc2 pc).2.2 =
        result ++ pc2.take (pc2.length - pc.length) ++ (deleteAtBoundaries b pc).1 ∧
      (findAndDeleteLoop b fuel result nFound pc2 pc).2.1 = nFound + (deleteAtBoundaries b pc).2 := by
  intro fuel
  induction fuel with
  | zero => intro _ _ _ _ h; omega
  | succ fuel ih =>
    intro result nFound pc2 pc hpc
    have hskip := skipCopies_eq_stripCopies (b := b) pc.length pc le_rfl
    rcases hg : getOp2 (stripCopies b pc).1 with _ | ⟨op, v, rest⟩
    · rw [findAndDeleteLoop_succ_of_none (by rw [hskip, hg]), deleteAtBoundaries_of_none hg, hskip]
      exact ⟨rfl, rfl⟩
    · have hrest : rest.length < fuel :=
        lt_of_lt_of_le (length_lt_of_getOp2_some hg) (by have := length_stripCopies_le b pc; omega)
      obtain ⟨happ, hn⟩ := ih (result ++ pc2.take (pc2.length - pc.length))
        (nFound + (stripCopies b pc).2) (stripCopies b pc).1 rest hrest
      rw [findAndDeleteLoop_succ_of_some (by rw [hskip, hg]), deleteAtBoundaries_of_some hg,
        hskip]
      constructor
      · rw [happ, List.append_assoc, List.append_assoc]
      · rw [hn, Nat.add_assoc]

end Loop

/-! ## What the reference keeps -/

section Reference

variable {b : CScript}

theorem deleteAtBoundaries_spec (hb : b ≠ []) (s : CScript) :
    (deleteAtBoundaries b s).1.length + (deleteAtBoundaries b s).2 * b.length = s.length ∧
      List.Sublist (deleteAtBoundaries b s).1 s := by
  fun_induction deleteAtBoundaries b s with
  | case1 s r op v rest hg _ d ih =>
    have hstrip := length_stripCopies hb s
    have hsuf := suffix_of_getOp2_some hg
    have hrl := hsuf.length_le
    obtain ⟨ihl, ihs⟩ := ih
    simp only [r, d] at hg hsuf hrl ihl ihs ⊢
    constructor
    · rw [List.length_append, List.length_take, Nat.min_eq_left (Nat.sub_le _ _), Nat.add_mul]
      omega
    · calc List.Sublist _ ((stripCopies b s).1.take ((stripCopies b s).1.length - rest.length) ++ rest) :=
            ihs.append_left _
        _ = (stripCopies b s).1 := take_append_of_suffix hsuf
        List.Sublist _ s := (stripCopies_suffix hb s).sublist
  | case2 s r hg => exact ⟨length_stripCopies hb s, (stripCopies_suffix hb s).sublist⟩

theorem deleteAtBoundaries_of_zero (hb : b ≠ []) {s : CScript} (h : (deleteAtBoundaries b s).2 = 0) :
    deleteAtBoundaries b s = (s, 0) := by
  obtain ⟨hlen, hsub⟩ := deleteAtBoundaries_spec hb s
  rw [h, Nat.zero_mul, Nat.add_zero] at hlen
  exact Prod.ext (hsub.eq_of_length hlen) h

theorem findAndDelete_eq_deleteAtBoundaries (hb : b ≠ []) (s : CScript) :
    findAndDelete s b = deleteAtBoundaries b s := by
  obtain ⟨happ, hn⟩ := findAndDeleteLoop_eq (b := b) (s.length + 1) [] 0 s s (Nat.lt_succ_self _)
  rw [Nat.sub_self, List.take_zero, List.nil_append, List.nil_append] at happ
  rw [Nat.zero_add] at hn
  rw [findAndDelete, if_neg hb]
  generalize findAndDeleteLoop b (s.length + 1) [] 0 s s = out at happ hn ⊢
  obtain ⟨result, nFound, pc2⟩ := out
  dsimp only at happ hn ⊢
  by_cases h0 : nFound > 0
  · rw [if_pos h0, happ, hn]
  · rw [if_neg h0, deleteAtBoundaries_of_zero hb (by omega)]

example : findAndDelete [0x03, 0x02, 0xff, 0x03, 0x03, 0x02, 0xff, 0x03] [0x03] =
    ([0x02, 0xff, 0x03, 0x02, 0xff, 0x03], 2) := by decide

example : findAndDelete [0x00, 0x03, 0xfe, 0xed] [0x03, 0xfe, 0xed] = ([0x00], 1) := by decide

end Reference

theorem find_and_delete_reference (s b : CScript) (hb : b ≠ []) :
    findAndDelete s b = deleteAtBoundaries b s ∧
      (findAndDelete s b).1.length = s.length - (findAndDelete s b).2 * b.length ∧
      List.Sublist (findAndDelete s b).1 s ∧
      ((findAndDelete s b).2 = 0 → (findAndDelete s b).1 = s) := by
  have heq := findAndDelete_eq_deleteAtBoundaries hb s
  obtain ⟨hlen, hsub⟩ := deleteAtBoundaries_spec hb s
  rw [← heq] at hlen hsub
  refine ⟨heq, by omega, hsub, fun h0 => ?_⟩
  rw [heq, deleteAtBoundaries_of_zero hb (by rwa [← heq])]

theorem find_and_delete_reference_sample :
    [0x51] ≠ ([] : CScript) ∧
      findAndDelete [0x51, 0x51] [0x51] = deleteAtBoundaries [0x51] [0x51, 0x51] ∧
      (findAndDelete [0x51, 0x51] [0x51]).1.length =
        [0x51, 0x51].length - (findAndDelete [0x51, 0x51] [0x51]).2 * [0x51].length ∧
      List.Sublist (findAndDelete [0x51, 0x51] [0x51]).1 [0x51, 0x51] ∧
      ((findAndDelete [0x51, 0x51] [0x51]).2 = 0 →
        (findAndDelete [0x51, 0x51] [0x51]).1 = [0x51, 0x51]) :=
  ⟨by decide, find_and_delete_reference [0x51, 0x51] [0x51] (by decide)⟩


end TbcNode.Script
