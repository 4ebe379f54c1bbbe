import Ukernel.Arch.Paging
import Mathlib.Data.Set.Insert

/-!
# Well-formed paging structures

Directories share the tables of the kernel's directory, and own every other table they point to.
The pool's slots keep the frames of directories and tables apart, so that a change below one
directory shows in another only through a shared table.

## Main definitions

* `Held`: a frame of the pool that is in use
* `Paging.Wf L pg dirs`: the structures of the directories `dirs` are well formed
* `Touches`: a write for an address of one directory shows at an address of another

## Main results

* `Wf.install`: a directory gets a table of its own
* `Wf.writePte`, `walk_writePte`: a table entry is written
-/

namespace Ukernel.Arch

open Kernel Lib

/-- The entry points to a table. -/
def Entry.IsTable (e : Entry) : Prop := e.present = true ∧ e.pageSize = false

instance (e : Entry) : Decidable e.IsTable := by unfold Entry.IsTable; infer_instance

@[simp] theorem Entry.not_isTable_zero : ¬Entry.zero.IsTable := by decide

/-- The frame of the kernel's directory. -/
def Layout.master (L : Layout) : Nat := L.pdes / 4096

/-- The frame of a slot of the pool. -/
def Layout.poolFrame (L : Layout) (i : Nat) : Nat := L.pageTableBase / 4096 + i

variable {L : Layout} {pg pg' : Paging} {dirs : Set Nat}

/-- The frame belongs to a slot of the pool that is in use. -/
def Held (L : Layout) (pg : Paging) (f : Nat) : Prop :=
  ∃ i < pagingPoolSlots, f = L.poolFrame i ∧ pg.poolUsed i = true

theorem held_of_poolUsed_eq (h : pg'.poolUsed = pg.poolUsed) {f : Nat} :
    Held L pg' f ↔ Held L pg f := by
  unfold Held
  rw [h]

/-- The structures of the directories in `dirs`, the kernel's among them, are well formed. -/
structure Paging.Wf (L : Layout) (pg : Paging) (dirs : Set Nat) : Prop where
  poolLock : pg.poolLock = true
  kernelPdir : pg.kernelPdirPhys = L.pdes
  master_mem : L.master ∈ dirs
  held_dir : ∀ d ∈ dirs, d ≠ L.master → Held L pg d
  /-- A directory departs from the kernel's only by tables of its own. -/
  own : ∀ d ∈ dirs, ∀ i, pg.table d i = pg.table L.master i ∨
    ¬(pg.table L.master i).IsTable ∧ (pg.table d i).IsTable
  held_table : ∀ d ∈ dirs, ∀ i, (pg.table d i).IsTable → Held L pg (pg.table d i).paddr
  not_dir : ∀ d ∈ dirs, ∀ i, (pg.table d i).IsTable → (pg.table d i).paddr ∉ dirs
  /-- Two entries point to the same table only where it is the kernel's. -/
  inj : ∀ d ∈ dirs, ∀ i, ∀ d' ∈ dirs, ∀ i', (pg.table d i).IsTable → (pg.table d' i').IsTable →
    (pg.table d i).paddr = (pg.table d' i').paddr →
      i = i' ∧ (d = d' ∨ (pg.table L.master i).IsTable)
  table_rw : ∀ d ∈ dirs, ∀ i, (pg.table d i).IsTable → (pg.table d i).rw = true
  big : ∀ i, (pg.table L.master i).pageSize = true →
    (pg.table L.master i).paddr % 1024 = 0 ∧ (pg.table L.master i).paddr < 2 ^ 20

namespace Paging.Wf

theorem shared (h : pg.Wf L dirs) {d i : Nat} (hd : d ∈ dirs)
    (hi : (pg.table L.master i).IsTable) : pg.table d i = pg.table L.master i :=
  (h.own d hd i).resolve_right fun hn => hn.1 hi

/-- A 4 MB entry is the kernel's. -/
theorem eq_master (h : pg.Wf L dirs) {d i : Nat} (hd : d ∈ dirs)
    (hi : ¬(pg.table d i).IsTable) : pg.table d i = pg.table L.master i :=
  (h.own d hd i).resolve_right fun hn => hi hn.2

theorem not_isTable_master (h : pg.Wf L dirs) {d i : Nat} (hd : d ∈ dirs)
    (hi : ¬(pg.table d i).IsTable) : ¬(pg.table L.master i).IsTable := fun hm =>
  hi (h.shared hd hm ▸ hm)

end Paging.Wf

/-! ## The pool -/

/-- What the pool hands out: nothing, or a zeroed frame that was not in use. -/
theorem archPagingPoolAlloc_cases (h : pg.poolLock = true) :
    archPagingPoolAlloc L pg = (0, pg) ∨
      ∃ i < pagingPoolSlots, pg.poolUsed i = false ∧
        firstFree pg.poolUsed pagingPoolSlots 0 = some i ∧
        archPagingPoolAlloc L pg =
          (L.poolFrame i * 4096, (pg.setSlot i true).fill (L.poolFrame i) fun _ => .zero) := by
  unfold archPagingPoolAlloc
  rw [if_neg (by simp [h])]
  cases hf : firstFree pg.poolUsed pagingPoolSlots 0 with
  | none => exact Or.inl rfl
  | some i =>
    obtain ⟨-, hi, hfree⟩ := firstFree_some hf
    have hbase := L.pageTableBase_aligned
    have hpa : L.pageTableBase + i * 4096 = L.poolFrame i * 4096 := by
      unfold Layout.poolFrame
      omega
    refine Or.inr ⟨i, by omega, hfree, rfl, ?_⟩
    dsimp only
    rw [hpa, Nat.mul_div_cancel _ (by decide)]

theorem poolFrame_pos (L : Layout) (i : Nat) : 0 < L.poolFrame i := by
  have h₁ := L.pdes_below
  unfold Layout.poolFrame
  omega

theorem poolFrame_inj {i j : Nat} (h : L.poolFrame i = L.poolFrame j) : i = j := by
  unfold Layout.poolFrame at h
  omega

theorem not_held_poolFrame {i : Nat} (hi : pg.poolUsed i = false) : ¬Held L pg (L.poolFrame i) := by
  rintro ⟨j, -, hj, hu⟩
  obtain rfl := poolFrame_inj hj
  rw [hi] at hu
  exact absurd hu (by decide)

theorem poolFrame_ne_master (L : Layout) (i : Nat) : L.poolFrame i ≠ L.master := by
  have h₁ := L.pdes_below
  unfold Layout.poolFrame Layout.master
  omega

/-! ## Writing a table entry -/

/-- What the walk finds through a directory entry and a table entry. -/
def compose (pde pte : Entry) : Option Translation :=
  if pte.present then some ⟨pte.paddr, pde.rw && pte.rw, pde.user && pte.user⟩ else none

theorem walk_of_isTable {cr3 va : Nat} (h : (pg.table (cr3 / 4096) (pdIndex va)).IsTable) :
    walk pg cr3 va = compose (pg.table (cr3 / 4096) (pdIndex va))
      (pg.table (pg.table (cr3 / 4096) (pdIndex va)).paddr (ptIndex va)) := by
  unfold walk compose
  simp only [h.1, h.2]
  cases (pg.table (pg.table (cr3 / 4096) (pdIndex va)).paddr (ptIndex va)).present <;> rfl

/-- Without a table in between, the walk only reads the directory entry. -/
theorem walk_congr_of_not_isTable {cr3 cr3' va : Nat}
    (he : pg'.table (cr3' / 4096) (pdIndex va) = pg.table (cr3 / 4096) (pdIndex va))
    (h : ¬(pg.table (cr3 / 4096) (pdIndex va)).IsTable) : walk pg' cr3' va = walk pg cr3 va := by
  unfold walk
  rw [he]
  unfold Entry.IsTable at h
  cases hp : (pg.table (cr3 / 4096) (pdIndex va)).present with
  | false => simp only [hp, Bool.not_false, if_true]
  | true => grind

/-- The walk reads one directory entry and, where it points to a table, one entry of that. -/
theorem walk_congr {cr3 cr3' va : Nat}
    (he : pg'.table (cr3' / 4096) (pdIndex va) = pg.table (cr3 / 4096) (pdIndex va))
    (ht : (pg.table (cr3 / 4096) (pdIndex va)).IsTable →
      pg'.table (pg.table (cr3 / 4096) (pdIndex va)).paddr (ptIndex va) =
        pg.table (pg.table (cr3 / 4096) (pdIndex va)).paddr (ptIndex va)) :
    walk pg' cr3' va = walk pg cr3 va := by
  by_cases h : (pg.table (cr3 / 4096) (pdIndex va)).IsTable
  · rw [walk_of_isTable h, walk_of_isTable (by rwa [he]), he, ht h]
  · exact walk_congr_of_not_isTable he h

@[simp] theorem write_table_self (frame index : Nat) (e : Entry) :
    (pg.write frame index e).table frame index = e := by
  simp [Paging.write]

theorem write_table_of_ne {frame index f i : Nat} (e : Entry) (h : f ≠ frame ∨ i ≠ index) :
    (pg.write frame index e).table f i = pg.table f i := by
  unfold Paging.write
  by_cases hf : f = frame
  · subst hf
    simp [h.resolve_left fun hn => hn rfl]
  · simp [hf]

@[simp] theorem fill_table_self (frame : Nat) (g : Nat → Entry) :
    (pg.fill frame g).table frame = g := by
  simp [Paging.fill]

theorem fill_table_of_ne {frame f : Nat} (g : Nat → Entry) (h : f ≠ frame) :
    (pg.fill frame g).table f = pg.table f := by
  simp [Paging.fill, h]

/-- Frames other than directories may be written at will. -/
theorem Paging.Wf.congr (h : pg.Wf L dirs) (hdir : ∀ d ∈ dirs, pg'.table d = pg.table d)
    (hused : pg'.poolUsed = pg.poolUsed) (hlock : pg'.poolLock = pg.poolLock)
    (hk : pg'.kernelPdirPhys = pg.kernelPdirPhys) : pg'.Wf L dirs := by
  have hm := hdir _ h.master_mem
  refine ⟨hlock ▸ h.poolLock, hk ▸ h.kernelPdir, h.master_mem, ?_, ?_, ?_, ?_, ?_, ?_, ?_⟩
  · exact fun d hd hne => (held_of_poolUsed_eq hused).mpr (h.held_dir d hd hne)
  · intro d hd i
    rw [hdir d hd, hm]
    exact h.own d hd i
  · intro d hd i hi
    rw [hdir d hd] at hi ⊢
    exact (held_of_poolUsed_eq hused).mpr (h.held_table d hd i hi)
  · intro d hd i hi
    rw [hdir d hd] at hi ⊢
    exact h.not_dir d hd i hi
  · intro d hd i d' hd' i' hi hi' heq
    rw [hdir d hd] at hi heq
    rw [hdir d' hd'] at hi' heq
    rw [hm]
    exact h.inj d hd i d' hd' i' hi hi' heq
  · intro d hd i hi
    rw [hdir d hd] at hi ⊢
    exact h.table_rw d hd i hi
  · intro i hi
    rw [hm] at hi ⊢
    exact h.big i hi

/-- Writing a table entry for an address below the directory `d` shows at `va'` below `d'`. -/
def Touches (L : Layout) (pg : Paging) (d va d' va' : Nat) : Prop :=
  pdIndex va' = pdIndex va ∧ ptIndex va' = ptIndex va ∧
    (d' = d ∨ (pg.table L.master (pdIndex va)).IsTable)

instance (L : Layout) (pg : Paging) (d va d' va' : Nat) : Decidable (Touches L pg d va d' va') := by
  unfold Touches
  infer_instance

section WritePte

variable {cr3 va : Nat} {e : Entry}

/-- Write the table entry for an address, as mapping and unmapping do. -/
def writePte (pg : Paging) (cr3 va : Nat) (e : Entry) : Paging :=
  pg.write (pg.table (cr3 / 4096) (pdIndex va)).paddr (ptIndex va) e

theorem writePte_dir (h : pg.Wf L dirs) (hd : cr3 / 4096 ∈ dirs)
    (ht : (pg.table (cr3 / 4096) (pdIndex va)).IsTable) {d : Nat} (hd' : d ∈ dirs) :
    (writePte pg cr3 va e).table d = pg.table d := by
  have hne : d ≠ (pg.table (cr3 / 4096) (pdIndex va)).paddr := fun heq =>
    h.not_dir _ hd _ ht (heq ▸ hd')
  funext i
  exact write_table_of_ne e (Or.inl hne)

theorem Paging.Wf.writePte (h : pg.Wf L dirs) (hd : cr3 / 4096 ∈ dirs)
    (ht : (pg.table (cr3 / 4096) (pdIndex va)).IsTable) : (writePte pg cr3 va e).Wf L dirs :=
  h.congr (fun _ => writePte_dir h hd ht) rfl rfl rfl

/-- Writing a table entry changes the walks that it touches and no others. -/
theorem walk_writePte (h : pg.Wf L dirs) (hd : cr3 / 4096 ∈ dirs)
    (ht : (pg.table (cr3 / 4096) (pdIndex va)).IsTable) {cr3' : Nat}
    (hd' : cr3' / 4096 ∈ dirs) (va' : Nat) :
    walk (writePte pg cr3 va e) cr3' va' =
      if Touches L pg (cr3 / 4096) va (cr3' / 4096) va' then
        compose (pg.table (cr3 / 4096) (pdIndex va)) e
      else walk pg cr3' va' := by
  have hdir := writePte_dir (e := e) h hd ht hd'
  split
  · rename_i htouch
    obtain ⟨hpd, hpt, hsame⟩ := htouch
    have heq : pg.table (cr3' / 4096) (pdIndex va') = pg.table (cr3 / 4096) (pdIndex va) := by
      grind [h.shared]
    rw [walk_of_isTable (by rwa [hdir, heq]), hdir, heq, hpt]
    congr 1
    exact write_table_self _ _ _
  · rename_i htouch
    refine walk_congr (by rw [hdir]) fun ht' => ?_
    refine write_table_of_ne e ?_
    -- the same table would be a shared one, and the same entry of it is touched
    by_contra hn
    rw [not_or, not_not, not_not] at hn
    obtain ⟨hi, hsame⟩ := h.inj _ hd' _ _ hd _ ht' ht hn.1
    refine htouch ⟨hi, hn.2, ?_⟩
    rw [hi] at hsame
    exact hsame

end WritePte

/-! ## Installing a table -/

section Install

variable {d idx i : Nat} {e : Entry} {g : Nat → Entry}

/-- Take a slot for a new table `g` and point a directory entry to it. -/
def install (L : Layout) (pg : Paging) (d idx i : Nat) (e : Entry) (g : Nat → Entry) : Paging :=
  ((pg.setSlot i true).fill (L.poolFrame i) g).write d idx e

theorem held_update (hu : pg'.poolUsed = Function.update pg.poolUsed i true)
    (hi : i < pagingPoolSlots) {f : Nat} :
    Held L pg' f ↔ Held L pg f ∨ f = L.poolFrame i := by
  unfold Held
  rw [hu]
  constructor
  · grind
  · grind

theorem held_install (hi : i < pagingPoolSlots) {f : Nat} :
    Held L (install L pg d idx i e g) f ↔ Held L pg f ∨ f = L.poolFrame i :=
  held_update rfl hi

variable (h : pg.Wf L dirs) (hfree : pg.poolUsed i = false)
include h hfree

theorem poolFrame_not_mem : L.poolFrame i ∉ dirs := fun hmem =>
  not_held_poolFrame hfree (h.held_dir _ hmem (poolFrame_ne_master L i))

theorem poolFrame_ne_table {d' i' : Nat} (hd' : d' ∈ dirs) (ht : (pg.table d' i').IsTable) :
    (pg.table d' i').paddr ≠ L.poolFrame i := fun heq =>
  not_held_poolFrame hfree (heq ▸ h.held_table d' hd' i' ht)

theorem install_table_of_ne {d' i' : Nat} (hd' : d' ∈ dirs) (hne : d' ≠ d ∨ i' ≠ idx) :
    (install L pg d idx i e g).table d' i' = pg.table d' i' := by
  have hmem := poolFrame_not_mem h hfree
  have hne' : d' ≠ L.poolFrame i := fun heq => hmem (heq ▸ hd')
  unfold install
  rw [write_table_of_ne e hne, fill_table_of_ne _ hne']
  rfl

variable (hd : d ∈ dirs)
include hd

theorem install_table_new : (install L pg d idx i e g).table (L.poolFrame i) = g := by
  have hmem := poolFrame_not_mem h hfree
  unfold install
  funext j
  rw [write_table_of_ne e (Or.inl fun heq : L.poolFrame i = d => hmem (heq ▸ hd)),
    fill_table_self]

/-- A directory gets a table of its own. The kernel's directory may only do so while it is the
only one, because the others would no longer follow it. -/
theorem Paging.Wf.install (hi : i < pagingPoolSlots) (hn : ¬(pg.table d idx).IsTable)
    (hk : d = L.master → dirs = {L.master}) (he : e.IsTable) (hrw : e.rw = true)
    (hpaddr : e.paddr = L.poolFrame i) : (install L pg d idx i e g).Wf L dirs := by
  have hself : (Arch.install L pg d idx i e g).table d idx = e := write_table_self _ _ _
  have hother {d' i' : Nat} (hd' : d' ∈ dirs) (hne : ¬(d' = d ∧ i' = idx)) :
      (Arch.install L pg d idx i e g).table d' i' = pg.table d' i' :=
    install_table_of_ne h hfree hd' (not_and_or.mp hne)
  have hmaster : d ≠ L.master → ∀ i', (Arch.install L pg d idx i e g).table L.master i' =
      pg.table L.master i' := fun hne i' => hother h.master_mem fun hc => hne hc.1.symm
  refine ⟨h.poolLock, h.kernelPdir, h.master_mem, ?_, ?_, ?_, ?_, ?_, ?_, ?_⟩
  · exact fun d' hd' hne => (held_install hi).mpr (Or.inl (h.held_dir d' hd' hne))
  · grind [h.own]
  · grind [held_install, h.held_table]
  · grind [poolFrame_not_mem, h.not_dir]
  · grind [poolFrame_ne_table, h.inj]
  · grind [h.table_rw]
  · intro i' hbig
    by_cases hc : L.master = d ∧ i' = idx
    · rw [hc.1, hc.2, hself, he.2] at hbig
      exact absurd hbig (by decide)
    · rw [hother h.master_mem hc] at hbig ⊢
      exact h.big i' hbig

/-- Installing a table changes no walk, if it translates as the entry did. -/
theorem walk_install (he : e.IsTable)
    (hpaddr : e.paddr = L.poolFrame i)
    (hsame : ∀ cr3 va, cr3 / 4096 = d → pdIndex va = idx →
      compose e (g (ptIndex va)) = walk pg cr3 va) {cr3 : Nat} (hd' : cr3 / 4096 ∈ dirs)
    (va : Nat) : walk (Arch.install L pg d idx i e g) cr3 va = walk pg cr3 va := by
  by_cases hc : cr3 / 4096 = d ∧ pdIndex va = idx
  · grind [Arch.install, write_table_self, walk_of_isTable, install_table_new]
  · refine walk_congr (install_table_of_ne h hfree hd' (not_and_or.mp hc)) fun ht => ?_
    have hne : (pg.table (cr3 / 4096) (pdIndex va)).paddr ≠ d := fun heq =>
      h.not_dir _ hd' _ ht (heq ▸ hd)
    unfold Arch.install
    rw [write_table_of_ne e (Or.inl hne),
      fill_table_of_ne _ (poolFrame_ne_table h hfree hd' ht)]
    rfl

end Install

end Ukernel.Arch
