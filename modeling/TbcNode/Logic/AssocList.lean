import Mathlib.Data.List.AList
import Mathlib.Data.List.Dedup

/-! # Association lists filled one pair at a time

An `AList` built by inserting the pairs of a list, later ones over earlier ones, as a hash map is
filled by `operator[]`: without repeated keys each key finds its own value
(`lookup_insertAll_of_nodup`).
-/

namespace TbcNode.Logic

variable {α β : Type*} [DecidableEq α]

/-- Insert the pairs of `l` one after another. -/
def insertAll (m : AList (fun _ : α => β)) (l : List (α × β)) : AList (fun _ : α => β) :=
  l.foldl (fun m p => m.insert p.1 p.2) m

@[simp] theorem insertAll_nil (m : AList (fun _ : α => β)) : insertAll m [] = m := rfl

@[simp] theorem insertAll_cons (m : AList (fun _ : α => β)) (p : α × β) (l : List (α × β)) :
    insertAll m (p :: l) = insertAll (m.insert p.1 p.2) l := rfl

theorem mem_insertAll {m : AList (fun _ : α => β)} {l : List (α × β)} {a : α} :
    a ∈ insertAll m l ↔ a ∈ m ∨ a ∈ l.map Prod.fst := by
  induction l generalizing m with
  | nil => simp
  | cons p l ih =>
    rw [insertAll_cons, ih, AList.mem_insert, List.map_cons, List.mem_cons]
    tauto

theorem lookup_insertAll_of_notMem {m : AList (fun _ : α => β)} {l : List (α × β)} {a : α}
    (h : a ∉ l.map Prod.fst) : (insertAll m l).lookup a = m.lookup a := by
  induction l generalizing m with
  | nil => rfl
  | cons p l ih =>
    rw [List.map_cons, List.mem_cons, not_or] at h
    rw [insertAll_cons, ih h.2, AList.lookup_insert_ne h.1]

/-- A value found is the value of one of the pairs, or was there before. -/
theorem mem_of_lookup_insertAll {m : AList (fun _ : α => β)} {l : List (α × β)} {a : α} {b : β}
    (h : (insertAll m l).lookup a = some b) : (a, b) ∈ l ∨ m.lookup a = some b := by
  induction l generalizing m with
  | nil => exact .inr h
  | cons p l ih =>
    rcases ih h with hl | hm
    · exact .inl (List.mem_cons_of_mem p hl)
    · by_cases ha : a = p.1
      · subst ha
        rw [AList.lookup_insert] at hm
        obtain rfl := Option.some.inj hm
        exact .inl List.mem_cons_self
      · rw [AList.lookup_insert_ne ha] at hm
        exact .inr hm

/-- When no key repeats, each key finds its own value. -/
theorem lookup_insertAll_of_nodup {m : AList (fun _ : α => β)} {l : List (α × β)}
    (hl : (l.map Prod.fst).Nodup) {a : α} {b : β} (hab : (a, b) ∈ l) :
    (insertAll m l).lookup a = some b := by
  induction l generalizing m with
  | nil => simp at hab
  | cons p l ih =>
    rw [List.map_cons, List.nodup_cons] at hl
    rw [insertAll_cons]
    rcases List.mem_cons.mp hab with rfl | hab
    · rw [lookup_insertAll_of_notMem hl.1, AList.lookup_insert]
    · exact ih hl.2 hab

theorem length_keys_insertAll (l : List (α × β)) :
    (insertAll ∅ l).keys.length = (l.map Prod.fst).dedup.length := by
  have hperm : (insertAll ∅ l).keys.Perm (l.map Prod.fst).dedup := by
    rw [List.perm_ext_iff_of_nodup (AList.keys_nodup _) (List.nodup_dedup _)]
    intro a
    rw [List.mem_dedup, ← AList.mem_keys, mem_insertAll]
    simp [AList.notMem_empty]
  exact hperm.length_eq

/-- A map filled from empty has as many keys as there are pairs only when no key repeats. -/
theorem nodup_of_length_keys_insertAll {l : List (α × β)}
    (h : (insertAll ∅ l).keys.length = l.length) : (l.map Prod.fst).Nodup := by
  rw [length_keys_insertAll, ← List.length_map (f := Prod.fst)] at h
  exact List.dedup_eq_self.mp ((List.dedup_sublist _).eq_of_length h)

end TbcNode.Logic
