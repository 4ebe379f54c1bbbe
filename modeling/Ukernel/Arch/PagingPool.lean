import Ukernel.Arch.PagingDirs

/-!
# The slots of the pool that a directory takes

A directory takes one slot of the pool for itself and one for each table of its own, and gives them
back when it is destroyed.

## Why a table may stay behind

`arch_destroy_address_space` tells the tables of the kernel by their address alone: it passes over
an entry whose address is that of the kernel's entry, although the kernel's entry may be a 4 MB one.
The identity map puts the address `i * 4 MB` into the entry `i`, and the pool lies inside the
identity map, so that a slot of the pool may have just the address of the entry that it splits.
`Clear` excludes this.

## Main definitions

* `Own`: a directory has a table of its own
* `Accounts`: the slots in use, apart from those of one directory
* `Clear`: no free slot has the address of the kernel's entry

## Main results

* `mapPages_accounts`, `unmapPages_accounts`: mapping and unmapping keep account
* `Accounts.destroy`: a directory that is destroyed gives back all that it took
* `archDestroyAddressSpace_of_alike`: what the sweep misses
-/

namespace Ukernel.Arch

open Kernel Lib

variable {L : Layout} {pg pg' : Paging} {dirs : Set Nat} {d : Nat} {base : Nat → Bool}

/-- The directory has a table of its own. -/
def Own (L : Layout) (pg : Paging) (d i : Nat) : Prop := (pg.table d i).IsTable ∧ ¬Shared L pg i

/-- The slots in use are those in `base`, and those of the directory `d` and of its own tables. -/
structure Accounts (L : Layout) (base : Nat → Bool) (d : Nat) (pg : Paging) : Prop where
  used : ∀ j, pg.poolUsed j = true ↔ base j = true ∨ L.poolFrame j = d ∨
    ∃ i, Own L pg d i ∧ (pg.table d i).paddr = L.poolFrame j
  dir : ∀ j, base j = true → L.poolFrame j ≠ d
  apart : ∀ j, base j = true → ∀ i, Own L pg d i → (pg.table d i).paddr ≠ L.poolFrame j
  low : ∀ i, Own L pg d i → i < userSpaceTop / 2 ^ 22
  /-- The sweep over the directory can tell its tables from the kernel's entries. -/
  unlike : ∀ i, Own L pg d i → (pg.table d i).paddr ≠ (pg.table L.master i).paddr

/-- No free slot of the pool has the address in the kernel's entry. -/
def Clear (L : Layout) (pg : Paging) (i : Nat) : Prop :=
  ∀ j < pagingPoolSlots, pg.poolUsed j = false → L.poolFrame j ≠ (pg.table L.master i).paddr

namespace Accounts

/-- Only the entries of the directory and of the kernel's count. -/
theorem congr (h : Accounts L base d pg) (hdir : pg'.table d = pg.table d)
    (hmaster : pg'.table L.master = pg.table L.master) (hused : pg'.poolUsed = pg.poolUsed) :
    Accounts L base d pg' := by
  have hown (i : Nat) : Own L pg' d i ↔ Own L pg d i := by
    unfold Own Shared
    rw [hdir, hmaster]
  refine ⟨fun j => ?_, h.dir, ?_, fun i hi => h.low i ((hown i).mp hi), ?_⟩
  · simp only [hused, hown, hdir]
    exact h.used j
  · simp only [hown, hdir]
    exact h.apart
  · simp only [hown, hdir, hmaster]
    exact h.unlike

/-- The directory gets a table of its own. -/
theorem table {idx j : Nat} {e : Entry} (h : Accounts L base d pg)
    (hfree : pg.poolUsed j = false) (hold : ¬(pg.table d idx).IsTable)
    (hshared : ¬Shared L pg idx) (he : e.IsTable) (hpaddr : e.paddr = L.poolFrame j)
    (hlow : idx < userSpaceTop / 2 ^ 22) (hunlike : L.poolFrame j ≠ (pg.table L.master idx).paddr)
    (hdir : pg'.table d = Function.update (pg.table d) idx e)
    (hmaster : pg'.table L.master = pg.table L.master)
    (hused : pg'.poolUsed = Function.update pg.poolUsed j true) : Accounts L base d pg' := by
  have hnotbase : base j = false := by grind [h.used]
  -- the tables of the directory afterwards: the old ones and the new one
  have hown (i : Nat) : Own L pg' d i ↔ i = idx ∨ i ≠ idx ∧ Own L pg d i := by
    unfold Own Shared
    rw [hdir, hmaster]
    by_cases hi : i = idx
    · subst hi
      simp [he, show ¬(pg.table L.master i).IsTable from hshared]
    · simp [hi]
  have hself : pg'.table d idx = e := by rw [hdir, Function.update_self]
  have hothers {i : Nat} (hi : i ≠ idx) : pg'.table d i = pg.table d i := by
    rw [hdir, Function.update_of_ne hi]
  refine ⟨fun k => ?_, h.dir, ?_, ?_, ?_⟩
  · rw [hused]
    by_cases hk : k = j
    · grind
    · rw [Function.update_of_ne hk, h.used k]
      refine or_congr_right (or_congr_right ⟨?_, ?_⟩)
      · rintro ⟨i, hi, heq⟩
        have hi' : i ≠ idx := fun hc => hold (hc ▸ hi.1)
        exact ⟨i, (hown i).mpr (Or.inr ⟨hi', hi⟩), by rw [hothers hi', heq]⟩
      · grind [poolFrame_inj]
  · grind [poolFrame_inj, h.apart]
  · intro i hi
    rcases (hown i).mp hi with rfl | ⟨-, hi⟩
    · exact hlow
    · exact h.low i hi
  · grind [h.unlike]

end Accounts

/-! ## Mapping -/

/-- The directory `d` may have got a table of its own at `idx`. -/
def Grows (L : Layout) (d idx : Nat) (pg pg' : Paging) : Prop :=
  pg'.table L.master = pg.table L.master ∧
    (pg'.poolUsed = pg.poolUsed ∧ pg'.table d = pg.table d ∨
      ∃ j < pagingPoolSlots, ∃ e : Entry, pg.poolUsed j = false ∧ ¬(pg.table d idx).IsTable ∧
        e.IsTable ∧ e.paddr = L.poolFrame j ∧
        pg'.table d = Function.update (pg.table d) idx e ∧
        pg'.poolUsed = Function.update pg.poolUsed j true)

theorem Grows.refl (L : Layout) (d idx : Nat) (pg : Paging) : Grows L d idx pg pg :=
  ⟨rfl, Or.inl ⟨rfl, rfl⟩⟩

theorem Accounts.grows {idx : Nat} (h : Accounts L base d pg) (hwf : pg.Wf L dirs) (hd : d ∈ dirs)
    (hlow : idx < userSpaceTop / 2 ^ 22) (hclear : Clear L pg idx)
    (hg : Grows L d idx pg pg') : Accounts L base d pg' := by
  obtain ⟨hmaster, ⟨hused, hdir⟩ | ⟨j, hj, e, hfree, hold, he, hpaddr, hdir, hused⟩⟩ := hg
  · exact h.congr hdir hmaster hused
  · exact h.table hfree hold (hwf.not_isTable_master hd hold) he hpaddr hlow
      (hclear j hj hfree) hdir hmaster hused

/-- A slot that is not free any more cannot be handed out. -/
theorem Clear.grows {d idx i : Nat} (h : Clear L pg i) (hg : Grows L d idx pg pg') :
    Clear L pg' i := by
  obtain ⟨hmaster, ⟨hused, -⟩ | ⟨j, -, e, -, -, -, -, -, hused⟩⟩ := hg
  · unfold Clear
    rw [hmaster, hused]
    exact h
  · intro k hk hfree
    rw [hmaster]
    refine h k hk ?_
    rw [hused] at hfree
    by_cases hkj : k = j
    · grind
    · rwa [Function.update_of_ne hkj] at hfree

section Install

variable {idx j : Nat} {e : Entry} {g : Nat → Entry}

theorem grows_install (h : pg.Wf L dirs) (hd : d ∈ dirs) (hne : d ≠ L.master)
    (hj : j < pagingPoolSlots) (hfree : pg.poolUsed j = false) (hold : ¬(pg.table d idx).IsTable)
    (he : e.IsTable) (hpaddr : e.paddr = L.poolFrame j) :
    Grows L d idx pg (install L pg d idx j e g) := by
  refine ⟨?_, Or.inr ⟨j, hj, e, hfree, hold, he, hpaddr, ?_, rfl⟩⟩
  · funext i
    exact install_table_of_ne h hfree h.master_mem (Or.inl hne.symm)
  · funext i
    by_cases hi : i = idx
    · subst hi
      rw [Function.update_self]
      exact write_table_self _ _ _
    · rw [Function.update_of_ne hi]
      exact install_table_of_ne h hfree hd (Or.inr hi)

end Install

/-- Writing a table entry does not show in the directories. -/
theorem Grows.writePte {idx k : Nat} {e : Entry} (hg : Grows L d idx pg pg')
    (hd : d ∈ dirs) (hwf : pg'.Wf L dirs) (ht : (pg'.table d idx).IsTable) :
    Grows L d idx pg (pg'.write (pg'.table d idx).paddr k e) := by
  have hsame {f : Nat} (hf : f ∈ dirs) :
      (pg'.write (pg'.table d idx).paddr k e).table f = pg'.table f := by
    grind [write_table_of_ne, hwf.not_dir]
  unfold Grows
  rw [hsame hd, hsame hwf.master_mem]
  exact hg

section Map

variable (h : pg.Wf L dirs) (hd : d ∈ dirs) (hne : d ≠ L.master)
include h hd hne

theorem splitForMap_grows (idx flags : Nat) :
    Grows L d idx pg (splitForMap L pg d idx flags).2 := by
  by_cases hbig : ((pg.table d idx).present && (pg.table d idx).pageSize) = true
  · rw [Bool.and_eq_true] at hbig
    have hold : ¬(pg.table d idx).IsTable := fun ht => by
      rw [ht.2] at hbig
      exact absurd hbig.2 (by decide)
    rcases splitForMap_eq L pg flags hbig.1 hbig.2 with heq | ⟨j, hj, hfree, heq⟩
    · exact heq ▸ Grows.refl L d idx pg
    · exact heq ▸ grows_install h hd hne hj hfree hold ⟨rfl, rfl⟩ (Nat.mul_div_cancel _ (by decide))
  · rw [splitForMap, if_neg hbig]
    exact Grows.refl L d idx pg

theorem tableForMap_grows (idx flags : Nat) :
    Grows L d idx pg (tableForMap L pg d idx flags).2 := by
  by_cases hp : (pg.table d idx).present = true
  · rw [tableForMap, if_pos hp]
    exact Grows.refl L d idx pg
  · rcases tableForMap_eq flags (eq_false_of_ne_true hp) fun i hfree heq =>
      poolFrame_not_mem h hfree (heq ▸ hd) with heq | ⟨j, hj, hfree, heq⟩
    · exact heq ▸ Grows.refl L d idx pg
    · exact heq ▸ grows_install h hd hne hj hfree (fun ht => hp ht.1) ⟨rfl, rfl⟩
        (Nat.mul_div_cancel _ (by decide))

/-- Mapping a page takes at most one slot, for a table of the directory's own. -/
theorem archMap4kb_grows {p : Nat} (pa flags : Nat) (hcr3 : d ≠ 0) (hp : p < 2 ^ 20) :
    Grows L d (p / 1024) pg (archMap4kb L pg (d * 4096) (p * 4096) pa flags).2 := by
  have hdiv : d * 4096 / 4096 = d := Nat.mul_div_cancel _ (by decide)
  have hd₁ : d * 4096 / 4096 ∈ dirs := by rwa [hdiv]
  have hk : d * 4096 / 4096 = L.master → dirs = {L.master} := fun hc =>
    absurd (hdiv.symm.trans hc) hne
  have hsplit := splitForMap_grows h hd hne (p / 1024) flags
  have htable := tableForMap_grows h hd hne (p / 1024) flags
  have hcases := splitForMap_cases (p * 4096) flags h hd₁ hk
  have htcases := tableForMap_cases (p * 4096) flags h hd₁ hk
  unfold archMap4kb
  rw [if_neg (by omega)]
  rw [hdiv, pdIndex_page hp, ptIndex_page] at *
  rcases hcases with heq | ⟨pg₁, heq, hq₁, ht | ⟨rfl, habs⟩⟩
  · rw [heq]
    exact Grows.refl L d _ pg
  · -- the entry points to a table, perhaps one that has just split a 4 MB entry
    rw [heq] at hsplit ⊢
    dsimp only
    rw [if_neg (by simp), tableForMap, if_pos ht.1]
    exact hsplit.writePte hd hq₁.wf ht
  · rw [heq]
    dsimp only
    rcases htcases habs with heq' | ⟨pg₂, heq', hq₂, ht⟩
    · rw [heq']
      exact Grows.refl L d _ _
    · rw [heq'] at htable ⊢
      exact htable.writePte hd hq₂.wf ht

end Map

/-- The pages of a range lie below the user's limit and get no table that the sweep would miss. -/
def ClearRange (L : Layout) (pg : Paging) (p n : Nat) : Prop :=
  p + n ≤ userSpaceTop / 4096 ∧ ∀ q, p ≤ q → q < p + n → Clear L pg (q / 1024)

section Range

variable {p : Nat} (hd : d ∈ dirs) (hcr3 : d ≠ 0) (hne : d ≠ L.master)
include hd hcr3 hne

theorem mapLoop_accounts (pa flags : Nat) {n : Nat} (left i : Nat) (hn : i + left = n)
    (h : pg.Wf L dirs) (ha : Accounts L base d pg) (hclear : ClearRange L pg p n) :
    Accounts L base d (mapLoop L (d * 4096) (p * 4096) pa flags left i pg).2 := by
  have hend := hclear.1
  unfold userSpaceTop at hend
  induction left generalizing i pg with
  | zero => exact ha
  | succ left ih =>
    rw [mapLoop, page_add (by omega)]
    have hgrows := archMap4kb_grows h hd hne ((pa + i * 4096) % 2 ^ 32) flags hcr3
      (show p + i < 2 ^ 20 by omega)
    have hnow := ha.grows h hd (by unfold userSpaceTop; omega)
      (hclear.2 (p + i) (by omega) (by omega)) hgrows
    rcases archMap4kb_cases ((pa + i * 4096) % 2 ^ 32) flags h hd
      (show p + i < 2 ^ 20 by omega) hcr3 (fun hc => absurd hc hne) with heq | ⟨pg₁, heq, hmap⟩
    · rw [heq]
      exact ha
    · rw [heq] at hgrows hnow ⊢
      exact ih (i + 1) (by omega) hmap.wf hnow
        ⟨hclear.1, fun q h₁ h₂ => (hclear.2 q h₁ h₂).grows hgrows⟩

/-- Unmapping pages that have tables does not show in the directories. -/
theorem unmapPages_dirs (h : pg.Wf L dirs) (n : Nat) (hend : p + n ≤ 2 ^ 20)
    (ht : ∀ q, p ≤ q → q < p + n → (pg.table d (q / 1024)).IsTable) :
    (∀ f ∈ dirs, (unmapPages pg (d * 4096) (p * 4096) n).table f = pg.table f) ∧
      (unmapPages pg (d * 4096) (p * 4096) n).poolUsed = pg.poolUsed := by
  have hk : d = L.master → dirs = {L.master} := fun hc => absurd hc hne
  have hdiv : d * 4096 / 4096 = d := Nat.mul_div_cancel _ (by decide)
  induction n with
  | zero => exact ⟨fun _ _ => rfl, rfl⟩
  | succ n ih =>
    have ht' : ∀ q, p ≤ q → q < p + n → (pg.table d (q / 1024)).IsTable :=
      fun q h₁ h₂ => ht q h₁ (by omega)
    obtain ⟨hdirs, hused⟩ := ih (by omega) ht'
    have hwf := (unmapPages_unmapped h hd hcr3 hk n (by omega) ht').wf
    have htn : ((unmapPages pg (d * 4096) (p * 4096) n).table d ((p + n) / 1024)).IsTable := by
      rw [hdirs d hd]
      exact ht _ (by omega) (by omega)
    have hstep : unmapPages pg (d * 4096) (p * 4096) (n + 1) =
        archUnmap4kb (unmapPages pg (d * 4096) (p * 4096) n) (d * 4096) ((p + n) * 4096) := by
      grind [List.range_succ, unmapPages]
    rw [hstep]
    unfold archUnmap4kb
    dsimp only
    rw [hdiv, pdIndex_page (by omega), ptIndex_page]
    split_ifs
    · exact ⟨hdirs, hused⟩
    · exact ⟨hdirs, hused⟩
    · refine ⟨fun f hf => ?_, hused⟩
      rw [← hdirs f hf]
      funext i
      refine write_table_of_ne _ (Or.inl fun heq => ?_)
      exact hwf.not_dir d hd _ htn (heq ▸ hf)

theorem unmapPages_accounts (h : pg.Wf L dirs) (ha : Accounts L base d pg) (n : Nat)
    (hend : p + n ≤ 2 ^ 20) (ht : ∀ q, p ≤ q → q < p + n → (pg.table d (q / 1024)).IsTable) :
    Accounts L base d (unmapPages pg (d * 4096) (p * 4096) n) := by
  obtain ⟨hdirs, hused⟩ := unmapPages_dirs hd hcr3 hne h n hend ht
  exact ha.congr (hdirs d hd) (hdirs _ h.master_mem) hused

/-- Mapping a range keeps account, whether it succeeds or not. -/
theorem mapPages_accounts (h : pg.Wf L dirs) (ha : Accounts L base d pg) {n : Nat} (pa flags : Nat)
    (hclear : ClearRange L pg p n) :
    Accounts L base d (mapPages L pg (d * 4096) (p * 4096) pa n flags).2 := by
  have hend := hclear.1
  unfold userSpaceTop at hend
  have hk : d = L.master → dirs = {L.master} := fun hc => absurd hc hne
  have hloop := mapLoop_accounts hd hcr3 hne pa flags n 0 (Nat.zero_add n) h ha hclear
  unfold mapPages
  rcases mapLoop_cases hd hcr3 hk n 0 (Nat.zero_add n) (by omega)
    (MappedRange.refl h d p pa flags) with ⟨pg₁, heq, hmap⟩ | ⟨k, pg₁, heq, hlt, hmap⟩
  · rw [heq] at hloop ⊢
    exact hloop
  · rw [heq] at hloop ⊢
    exact unmapPages_accounts hd hcr3 hne hmap.wf hloop k (by omega) hmap.tables

end Range

/-! ## The life of a directory -/

/-- A directory that has just been cloned has taken one slot. -/
theorem accounts_clone {j : Nat} (hj : pg.poolUsed j = false)
    (hd : d = L.poolFrame j) (htable : pg'.table d = pg.table L.master)
    (hmaster : pg'.table L.master = pg.table L.master)
    (hused : pg'.poolUsed = Function.update pg.poolUsed j true) :
    Accounts L pg.poolUsed d pg' := by
  have hown (i : Nat) : ¬Own L pg' d i := by
    unfold Own Shared
    rw [htable, hmaster]
    exact fun hc => hc.2 hc.1
  refine ⟨fun k => ?_, fun k hk heq => ?_, fun k _ i hi => absurd hi (hown i),
    fun i hi => absurd hi (hown i), fun i hi => absurd hi (hown i)⟩
  · rw [hused]
    by_cases hkj : k = j
    · grind
    · grind [poolFrame_inj]
  · rw [poolFrame_inj (heq.trans hd), hj] at hk
    exact absurd hk (by decide)

/-- The sweep of `arch_destroy_address_space` has passed the first `n` entries. -/
structure Swept (L : Layout) (d : Nat) (pg₀ : Paging) (n : Nat) (pg : Paging) : Prop where
  used : ∀ j, pg.poolUsed j = true ↔ pg₀.poolUsed j = true ∧
    ¬∃ i < n, Own L pg₀ d i ∧ (pg₀.table d i).paddr = L.poolFrame j
  entry : ∀ i, n ≤ i → pg.table d i = pg₀.table d i
  master : pg.table L.master = pg₀.table L.master
  poolLock : pg.poolLock = pg₀.poolLock
  kernelPdir : pg.kernelPdirPhys = pg₀.kernelPdirPhys

theorem archPagingPoolFree_poolFrame (hlock : pg.poolLock = true) {j : Nat}
    (hj : j < pagingPoolSlots) :
    archPagingPoolFree L pg (L.poolFrame j * 4096) = pg.setSlot j false := by
  have hbase := L.pageTableBase_aligned
  unfold pagingPoolSlots at hj
  unfold archPagingPoolFree
  rw [if_neg (by simp [hlock]), if_neg]
  · grind [Layout.poolFrame]
  · grind [Layout.poolFrame, Layout.pageTableEnd, vmmPdeAllocSize]

section Sweep

variable {pg₀ : Paging} (h₀ : pg₀.Wf L dirs) (ha : Accounts L base d pg₀) (hd : d ∈ dirs)
  (hne : d ≠ L.master)
include h₀ ha hd hne

/-- The sweep gives back a table exactly where the directory has one of its own. -/
theorem Swept.step {n : Nat} (h : Swept L d pg₀ n pg) :
    Swept L d pg₀ (n + 1) (destroyPde L d pg n) := by
  have hentry := h.entry n (Nat.le_refl n)
  have hk : pg.kernelPdirPhys / 4096 = L.master := by
    rw [h.kernelPdir, h₀.kernelPdir]
    rfl
  -- an entry that the sweep passes over is not the directory's own
  have hskip (hnot : ¬Own L pg₀ d n) : Swept L d pg₀ (n + 1) pg := by
    refine ⟨fun j => (h.used j).trans (and_congr_right fun _ => not_congr ⟨?_, ?_⟩),
      fun i hi => h.entry i (by omega), h.master, h.poolLock, h.kernelPdir⟩
    · rintro ⟨i, hi, hown⟩
      exact ⟨i, by omega, hown⟩
    · grind
  unfold destroyPde
  dsimp only
  rw [hentry, hk, h.master]
  split_ifs with habs hsame
  · refine hskip fun hown => ?_
    rw [hown.1.1] at habs
    exact absurd habs (by decide)
  · exact hskip fun hown => ha.unlike n hown hsame
  · have hown : Own L pg₀ d n := by
      rcases h₀.own d hd n with heq | ⟨hm, ht⟩
      · exact absurd (congrArg Entry.paddr heq) hsame
      · exact ⟨ht, hm⟩
    obtain ⟨j, hj, hframe, hu⟩ := h₀.held_table d hd n hown.1
    rw [hframe, archPagingPoolFree_poolFrame (h.poolLock.trans h₀.poolLock) hj]
    refine ⟨fun k => ?_, fun i hi => ?_, ?_, h.poolLock, h.kernelPdir⟩
    · change Function.update pg.poolUsed j false k = true ↔ _
      by_cases hkj : k = j
      · grind
      · grind [h.used, poolFrame_inj]
    · rw [write_table_of_ne _ (Or.inr (by omega))]
      exact h.entry i (by omega)
    · funext i
      rw [write_table_of_ne _ (Or.inl hne.symm)]
      exact congrFun h.master i

theorem swept_foldl (n : Nat) :
    Swept L d pg₀ n ((List.range n).foldl (destroyPde L d) pg₀) := by
  induction n with
  | zero =>
    refine ⟨fun j => ⟨fun hj => ⟨hj, ?_⟩, And.left⟩, fun _ _ => rfl, rfl, rfl, rfl⟩
    rintro ⟨i, hi, -⟩
    exact absurd hi (Nat.not_lt_zero i)
  | succ n ih => grind [List.range_succ, ih.step]

/-- A directory that is destroyed gives back all that it took. -/
theorem Accounts.destroy (hpos : d ≠ 0) :
    (archPagingPoolFree L (archDestroyAddressSpace L pg₀ (d * 4096)) (d * 4096)).poolUsed =
      base := by
  have hal := L.pdes_aligned
  have hkne : d * 4096 ≠ pg₀.kernelPdirPhys := by
    rw [h₀.kernelPdir]
    unfold Layout.master at hne
    omega
  obtain ⟨j, hj, hframe, -⟩ := h₀.held_dir d hd hne
  have hswept := swept_foldl h₀ ha hd hne (userSpaceTop / 2 ^ 22)
  unfold archDestroyAddressSpace
  rw [if_neg (by simp [hkne, hpos]), Nat.mul_div_cancel _ (by decide)]
  rw [show d * 4096 = L.poolFrame j * 4096 by rw [hframe],
    archPagingPoolFree_poolFrame (hswept.poolLock.trans h₀.poolLock) hj]
  funext k
  rw [Bool.eq_iff_iff]
  change Function.update (_ : Nat → Bool) j false k = true ↔ _
  by_cases hkj : k = j
  · grind [ha.dir]
  · rw [Function.update_of_ne hkj, hswept.used k, ha.used k]
    constructor
    · rintro ⟨hb | hb | ⟨i, hi, heq⟩, hnot⟩
      · exact hb
      · exact absurd (poolFrame_inj (hb.trans hframe)) hkj
      · exact absurd ⟨i, ha.low i hi, hi, heq⟩ hnot
    · grind [ha.apart]

end Sweep

/-- The sweep passes over a directory whose entries have the addresses of the kernel's, be they
tables of its own or not. -/
theorem archDestroyAddressSpace_of_alike {pdirPhys : Nat}
    (h : ∀ i < userSpaceTop / 2 ^ 22, (pg.table (pdirPhys / 4096) i).paddr =
      (pg.table (pg.kernelPdirPhys / 4096) i).paddr) :
    archDestroyAddressSpace L pg pdirPhys = pg := by
  have hfold : ∀ n ≤ userSpaceTop / 2 ^ 22,
      (List.range n).foldl (destroyPde L (pdirPhys / 4096)) pg = pg := by
    intro n hn
    induction n with
    | zero => rfl
    | succ n ih => grind [List.range_succ, destroyPde]
  unfold archDestroyAddressSpace
  split_ifs
  · rfl
  · exact hfold _ (Nat.le_refl _)

end Ukernel.Arch
