import Mathlib.Logic.Function.Basic
import Mathlib.Data.List.Nodup

/-! # Runs of writes to a map

`writeAll` makes a run of writes to a map one after another: what it leaves at a key, what holds of
every value after it, and when a later run overrides it. A file of bytes is such a map on offsets:
`placeAt` writes a list from an offset on and `readAt` reads one back.
-/

namespace TbcNode.Logic

variable {α β : Type*} [DecidableEq α]

def writeAll (f : α → β) (ws : List (α × β)) : α → β :=
  ws.foldl (fun g w => Function.update g w.1 w.2) f

@[simp] theorem writeAll_nil (f : α → β) : writeAll f [] = f := rfl

@[simp] theorem writeAll_cons (f : α → β) (w : α × β) (ws : List (α × β)) :
    writeAll f (w :: ws) = writeAll (Function.update f w.1 w.2) ws := rfl

@[simp] theorem writeAll_append (f : α → β) (ws ws' : List (α × β)) :
    writeAll f (ws ++ ws') = writeAll (writeAll f ws) ws' :=
  List.foldl_append

theorem writeAll_apply_of_not_mem {ws : List (α × β)} {a : α} (h : a ∉ ws.map Prod.fst)
    (f : α → β) : writeAll f ws a = f a := by
  induction ws generalizing f with
  | nil => rfl
  | cons w ws ih =>
    simp only [List.map_cons, List.mem_cons, not_or] at h
    rw [writeAll_cons, ih h.2, Function.update_of_ne h.1]

theorem writeAll_apply_of_mem_keys {ws : List (α × β)} {a : α} (h : a ∈ ws.map Prod.fst)
    (f g : α → β) : writeAll f ws a = writeAll g ws a := by
  induction ws generalizing f g with
  | nil => simp at h
  | cons w ws ih =>
    rw [writeAll_cons, writeAll_cons]
    by_cases ha : a ∈ ws.map Prod.fst
    · exact ih ha _ _
    · have hw : a = w.1 := by simpa [ha] using h
      rw [writeAll_apply_of_not_mem ha, writeAll_apply_of_not_mem ha, hw, Function.update_self,
        Function.update_self]

theorem writeAll_apply_of_forall {P : β → Prop} {f : α → β} (hf : ∀ a, P (f a))
    {ws : List (α × β)} (hws : ∀ w ∈ ws, P w.2) (a : α) : P (writeAll f ws a) := by
  induction ws generalizing f with
  | nil => exact hf a
  | cons w ws ih =>
    rw [writeAll_cons]
    refine ih (fun a' => ?_) fun w' hw' => hws w' (List.mem_cons_of_mem _ hw')
    by_cases ha : a' = w.1
    · subst ha
      rw [Function.update_self]
      exact hws w List.mem_cons_self
    · rw [Function.update_of_ne ha]
      exact hf a'

theorem writeAll_apply_of_mem {ws : List (α × β)} (hn : (ws.map Prod.fst).Nodup) {a : α} {b : β}
    (h : (a, b) ∈ ws) (f : α → β) : writeAll f ws a = b := by
  induction ws generalizing f with
  | nil => simp at h
  | cons w ws ih =>
    rw [List.map_cons, List.nodup_cons] at hn
    rw [writeAll_cons]
    rcases List.mem_cons.mp h with rfl | h
    · rw [writeAll_apply_of_not_mem hn.1, Function.update_self]
    · exact ih hn.2 h _

theorem writeAll_eq_self {f : α → β} {ws : List (α × β)} (h : ∀ w ∈ ws, f w.1 = w.2) :
    writeAll f ws = f := by
  induction ws with
  | nil => rfl
  | cons w ws ih =>
    have hw : Function.update f w.1 w.2 = f := Function.update_eq_self_iff.mpr (h w (by simp)).symm
    rw [writeAll_cons, hw]
    exact ih fun w' hw' => h w' (List.mem_cons_of_mem _ hw')

theorem writeAll_writeAll_of_subset {ws ws' : List (α × β)}
    (h : ∀ a ∈ ws.map Prod.fst, a ∈ ws'.map Prod.fst) (f : α → β) :
    writeAll (writeAll f ws) ws' = writeAll f ws' := by
  funext a
  by_cases ha : a ∈ ws'.map Prod.fst
  · exact writeAll_apply_of_mem_keys ha _ _
  · have ha' : a ∉ ws.map Prod.fst := fun h' => ha (h a h')
    rw [writeAll_apply_of_not_mem ha, writeAll_apply_of_not_mem ha,
      writeAll_apply_of_not_mem ha']

section Files

variable {κ : Type*}

/-- The writes that put `bs` at the offsets from `o` on of the file `k`. -/
def placeAt (k : κ) (o : Nat) (bs : List β) : List ((κ × Nat) × β) :=
  bs.mapIdx fun i b => ((k, o + i), b)

/-- The `n` values at the offsets from `o` on of the file `k`. -/
def readAt (f : κ × Nat → β) (k : κ) (o n : Nat) : List β :=
  (List.range n).map fun i => f (k, o + i)

@[simp] theorem length_readAt (f : κ × Nat → β) (k : κ) (o n : Nat) :
    (readAt f k o n).length = n := by
  simp [readAt]

theorem placeAt_append (k : κ) (o : Nat) (xs ys : List β) :
    placeAt k o (xs ++ ys) = placeAt k o xs ++ placeAt k (o + xs.length) ys := by
  simp only [placeAt, List.mapIdx_append]
  congr 2
  funext i b
  rw [Nat.add_assoc, Nat.add_comm i]

theorem map_fst_placeAt (k : κ) (o : Nat) (bs : List β) :
    (placeAt k o bs).map Prod.fst = (List.range bs.length).map fun i => (k, o + i) := by
  apply List.ext_getElem <;> simp [placeAt]

theorem mem_placeAt (k : κ) (o : Nat) {bs : List β} {i : Nat} (hi : i < bs.length) :
    ((k, o + i), bs[i]) ∈ placeAt k o bs := by
  rw [placeAt, List.mem_mapIdx]
  exact ⟨i, hi, rfl⟩

theorem nodup_placeAt (k : κ) (o : Nat) (bs : List β) :
    ((placeAt k o bs).map Prod.fst).Nodup := by
  rw [map_fst_placeAt]
  refine List.nodup_range.map fun i j h => ?_
  simpa using h

variable [DecidableEq κ]

theorem readAt_writeAll_placeAt (f : κ × Nat → β) (k : κ) (o : Nat) (bs : List β) :
    readAt (writeAll f (placeAt k o bs)) k o bs.length = bs := by
  apply List.ext_getElem (length_readAt _ _ _ _)
  intro i hi _
  simp only [readAt, List.getElem_map, List.getElem_range]
  exact writeAll_apply_of_mem (nodup_placeAt k o bs) (mem_placeAt k o (by simpa using hi)) f

theorem readAt_writeAll_placeAt_of_disjoint (f : κ × Nat → β) {k k' : κ} {o o' n : Nat}
    (bs : List β) (h : k' ≠ k ∨ o' + n ≤ o) :
    readAt (writeAll f (placeAt k o bs)) k' o' n = readAt f k' o' n := by
  refine List.map_congr_left fun i hi => writeAll_apply_of_not_mem ?_ f
  rw [List.mem_range] at hi
  rw [map_fst_placeAt]
  simp only [List.mem_map, List.mem_range, Prod.mk.injEq, not_exists, not_and]
  intro j _ hk ho
  rcases h with h | h
  · exact h hk.symm
  · omega

end Files

end TbcNode.Logic
