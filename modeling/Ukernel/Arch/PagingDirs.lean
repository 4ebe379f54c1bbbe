import Ukernel.Arch.PagingSupply

/-!
# New directories

A new directory is a copy of the kernel's, in a frame from the pool.

## Main definitions

* `Created`: a directory has been made

## Main results

* `archCloneKernelPde_created`: cloning the kernel's directory into a fresh frame
-/

namespace Ukernel.Arch

open Kernel Lib

variable {L : Layout} {pg pg' : Paging} {dirs : Set Nat} {d : Nat}

/-! ## Cloning -/

/-- The directory `d` is new, and its translations are those of the kernel's. -/
structure Created (L : Layout) (dirs : Set Nat) (d : Nat) (pg pg' : Paging) : Prop where
  wf : pg'.Wf L (insert d dirs)
  fresh : d ∉ dirs
  pos : d ≠ 0
  ne_master : d ≠ L.master
  table : ∀ d' ∈ dirs, pg'.table d' = pg.table d'
  table_new : pg'.table d = pg.table L.master
  view_new : ∀ q, view pg' d q = view pg L.master q
  view_other : ∀ d' ∈ dirs, ∀ q, view pg' d' q = view pg d' q

section Clone

variable {i : Nat} (h : pg.Wf L dirs) (hfree : pg.poolUsed i = false)
include h hfree

/-- The copy of the kernel's directory in the frame of a free slot. -/
theorem Paging.Wf.clone (hi : i < pagingPoolSlots) :
    ((pg.setSlot i true).fill (L.poolFrame i) (pg.table L.master)).Wf L
      (insert (L.poolFrame i) dirs) := by
  have hmem := poolFrame_not_mem h hfree
  have hheld {f : Nat} (hf : Held L pg f ∨ f = L.poolFrame i) :
      Held L ((pg.setSlot i true).fill (L.poolFrame i) (pg.table L.master)) f :=
    (held_update rfl hi).mpr hf
  have hold {d' : Nat} (hd' : d' ∈ dirs) :
      ((pg.setSlot i true).fill (L.poolFrame i) (pg.table L.master)).table d' = pg.table d' := by
    have hne : d' ≠ L.poolFrame i := fun heq => hmem (heq ▸ hd')
    rw [fill_table_of_ne _ hne]
    rfl
  -- every entry of a directory is the entry of an old one
  have hsrc {d' : Nat} (hd' : d' ∈ insert (L.poolFrame i) dirs) : ∃ s ∈ dirs,
      ((pg.setSlot i true).fill (L.poolFrame i) (pg.table L.master)).table d' = pg.table s ∧
        (d' = s ∨ d' = L.poolFrame i ∧ s = L.master) := by grind [h.master_mem, fill_table_self]
  have hmaster := hold h.master_mem
  refine ⟨h.poolLock, h.kernelPdir, Set.mem_insert_of_mem _ h.master_mem, ?_, ?_, ?_, ?_, ?_, ?_,
    ?_⟩
  · grind [h.held_dir]
  · intro d' hd' j
    obtain ⟨s, hs, heq, -⟩ := hsrc hd'
    rw [heq, hmaster]
    exact h.own s hs j
  · intro d' hd' j ht
    obtain ⟨s, hs, heq, -⟩ := hsrc hd'
    rw [heq] at ht ⊢
    exact hheld (Or.inl (h.held_table s hs j ht))
  · intro d' hd' j ht
    obtain ⟨s, hs, heq, -⟩ := hsrc hd'
    rw [heq] at ht ⊢
    rw [Set.mem_insert_iff, not_or]
    exact ⟨poolFrame_ne_table h hfree hs ht, h.not_dir s hs j ht⟩
  · intro d₁ hd₁ j₁ d₂ hd₂ j₂ ht₁ ht₂ heq
    obtain ⟨s₁, hs₁, heq₁, hc₁⟩ := hsrc hd₁
    obtain ⟨s₂, hs₂, heq₂, hc₂⟩ := hsrc hd₂
    rw [heq₁] at ht₁ heq
    rw [heq₂] at ht₂ heq
    rw [hmaster]
    obtain ⟨hj, hsame⟩ := h.inj s₁ hs₁ j₁ s₂ hs₂ j₂ ht₁ ht₂ heq
    refine ⟨hj, ?_⟩
    rcases hsame with rfl | hm
    · grind
    · exact Or.inr hm
  · intro d' hd' j ht
    obtain ⟨s, hs, heq, -⟩ := hsrc hd'
    rw [heq] at ht ⊢
    exact h.table_rw s hs j ht
  · intro j hbig
    rw [hmaster] at hbig ⊢
    exact h.big j hbig

end Clone

theorem view_congr_dir {d' : Nat} (hdir : pg'.table d' = pg.table d)
    (hframe : ∀ i, (pg.table d i).IsTable →
      pg'.table (pg.table d i).paddr = pg.table (pg.table d i).paddr) (q : Nat) :
    view pg' d' q = view pg d q := by
  have hdiv : d * 4096 / 4096 = d := Nat.mul_div_cancel _ (by decide)
  have hdiv' : d' * 4096 / 4096 = d' := Nat.mul_div_cancel _ (by decide)
  refine walk_congr (by rw [hdiv, hdiv', hdir]) fun ht => ?_
  rw [hdiv] at ht ⊢
  rw [hframe _ ht]

/-- A directory is created by cloning into a frame of the pool, or the pool is exhausted. -/
theorem archCloneKernelPde_created (h : pg.Wf L dirs) :
    archPagingPoolAlloc L pg = (0, pg) ∨
      ∃ d pg₁ pg', archPagingPoolAlloc L pg = (d * 4096, pg₁) ∧
        archCloneKernelPde pg₁ (d * 4096) = (d * 4096, pg') ∧ Created L dirs d pg pg' := by
  rcases archPagingPoolAlloc_cases (L := L) h.poolLock with heq | ⟨i, hi, hfree, -, heq⟩
  · exact Or.inl heq
  · have hpos := poolFrame_pos L i
    have hmem := poolFrame_not_mem h hfree
    have hdiv : L.poolFrame i * 4096 / 4096 = L.poolFrame i := Nat.mul_div_cancel _ (by decide)
    have hne := poolFrame_ne_master L i
    have hmaster : (pg.setSlot i true).kernelPdirPhys / 4096 = L.master := by
      change pg.kernelPdirPhys / 4096 = _
      rw [h.kernelPdir]
      rfl
    refine Or.inr ⟨L.poolFrame i, _,
      (pg.setSlot i true).fill (L.poolFrame i) (pg.table L.master), heq, ?_, ?_⟩
    · unfold archCloneKernelPde
      rw [if_neg (by omega), hdiv]
      change (_, ((pg.setSlot i true).fill _ _).fill _ (((pg.setSlot i true).fill _ _).table
        ((pg.setSlot i true).kernelPdirPhys / 4096))) = _
      rw [hmaster, fill_setSlot_fill, fill_table_of_ne _ (Ne.symm hne)]
      rfl
    · have hold {d' : Nat} (hne' : d' ≠ L.poolFrame i) :
          ((pg.setSlot i true).fill (L.poolFrame i) (pg.table L.master)).table d' =
            pg.table d' := by
        rw [fill_table_of_ne _ hne']
        rfl
      have hdir {d' : Nat} (hd' : d' ∈ dirs) :
          ((pg.setSlot i true).fill (L.poolFrame i) (pg.table L.master)).table d' =
            pg.table d' := hold fun heq => hmem (heq ▸ hd')
      refine ⟨h.clone hfree hi, hmem, by omega, hne, fun d' hd' => hdir hd', fill_table_self _ _,
        ?_, ?_⟩
      · exact view_congr_dir (fill_table_self _ _) fun j ht =>
          hold (poolFrame_ne_table h hfree h.master_mem ht)
      · grind [view_congr_dir, poolFrame_ne_table]

end Ukernel.Arch
