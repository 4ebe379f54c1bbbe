import Ukernel.Arch.PagingWf

/-!
# Mapping and unmapping pages

What the operations of `paging.c` on pages do to the translations of every directory. An operation
that fails leaves the structures as they were.

## Main definitions

* `Quiet`: new tables appear, but no translation changes
* `view`: the translation of a page below a directory
* `Mapped`, `MappedRange`, `Unmapped`, `RolledBack`: what has happened to pages

## Main results

* `archMap4kb_cases`, `archUnmap4kb_unmapped`: the two operations on a page
* `mapPages_cases`, `unmapPages_unmapped`: the loops over the pages of a range
-/

namespace Ukernel.Arch

open Kernel Lib

variable {L : Layout} {pg pg' pg'' : Paging} {dirs : Set Nat}

/-- Every table is open to user mode, as far as the directories go. -/
def UserTables (pg : Paging) (dirs : Set Nat) : Prop :=
  ∀ d ∈ dirs, ∀ i, (pg.table d i).IsTable → (pg.table d i).user = true

/-- What every operation on the tables of the directory `d` keeps. -/
structure Steady (L : Layout) (dirs : Set Nat) (d : Nat) (pg pg' : Paging) : Prop where
  wf : pg'.Wf L dirs
  keeps : ∀ d' ∈ dirs, ∀ i, (pg.table d' i).IsTable → pg'.table d' i = pg.table d' i
  master : d ≠ L.master → pg'.table L.master = pg.table L.master

theorem Steady.refl (h : pg.Wf L dirs) (d : Nat) : Steady L dirs d pg pg :=
  ⟨h, fun _ _ _ _ => rfl, fun _ => rfl⟩

theorem Steady.trans {d : Nat} (h : Steady L dirs d pg pg') (h' : Steady L dirs d pg' pg'') :
    Steady L dirs d pg pg'' := by
  refine ⟨h'.wf, ?_, fun hne => (h'.master hne).trans (h.master hne)⟩
  intro d' hd' i ht
  have heq := h.keeps d' hd' i ht
  rw [h'.keeps d' hd' i (by rwa [heq]), heq]

theorem Steady.isTable {d d' i : Nat} (h : Steady L dirs d pg pg') (hd' : d' ∈ dirs)
    (ht : (pg.table d' i).IsTable) : (pg'.table d' i).IsTable := by
  rwa [h.keeps d' hd' i ht]

/-- The directory `d` may have got a table at `idx`, but every translation is what it was. -/
structure Quiet (L : Layout) (dirs : Set Nat) (d idx flags : Nat) (pg pg' : Paging) : Prop
    extends Steady L dirs d pg pg' where
  entry : ∀ d' ∈ dirs, ∀ i, ¬(d' = d ∧ i = idx) → pg'.table d' i = pg.table d' i
  user : flags.testBit 2 = true → UserTables pg dirs → UserTables pg' dirs
  walk_eq : ∀ cr3, cr3 / 4096 ∈ dirs → ∀ va, walk pg' cr3 va = walk pg cr3 va

theorem Quiet.refl (h : pg.Wf L dirs) (d idx flags : Nat) : Quiet L dirs d idx flags pg pg :=
  ⟨Steady.refl h d, fun _ _ _ _ => rfl, fun _ hu => hu, fun _ _ _ => rfl⟩

section Install

variable {d idx i flags : Nat} {e : Entry} {g : Nat → Entry}

/-- A new table that translates as before is quiet. -/
theorem Quiet.install (h : pg.Wf L dirs) (hd : d ∈ dirs) (hi : i < pagingPoolSlots)
    (hfree : pg.poolUsed i = false) (hn : ¬(pg.table d idx).IsTable)
    (hk : d = L.master → dirs = {L.master}) (he : e.IsTable) (hrw : e.rw = true)
    (hpaddr : e.paddr = L.poolFrame i) (huser : flags.testBit 2 = true → e.user = true)
    (hsame : ∀ cr3 va, cr3 / 4096 = d → pdIndex va = idx →
      compose e (g (ptIndex va)) = walk pg cr3 va) :
    Quiet L dirs d idx flags pg (install L pg d idx i e g) := by
  have hother {d' i' : Nat} (hd' : d' ∈ dirs) (hne : ¬(d' = d ∧ i' = idx)) :
      (Arch.install L pg d idx i e g).table d' i' = pg.table d' i' :=
    install_table_of_ne h hfree hd' (not_and_or.mp hne)
  refine ⟨⟨h.install hfree hd hi hn hk he hrw hpaddr, ?_, ?_⟩, fun _ hd' _ => hother hd', ?_, ?_⟩
  · grind
  · intro hne
    funext i'
    exact hother h.master_mem fun hc => hne hc.1.symm
  · intro hf hu d' hd' i' ht
    by_cases hc : d' = d ∧ i' = idx
    · grind [Arch.install, write_table_self]
    · rw [hother hd' hc] at ht ⊢
      exact hu d' hd' i' ht
  · exact fun cr3 hd' va => walk_install h hfree hd he hpaddr hsame hd' va

end Install

/-! ## The two ways to get a table -/

theorem fill_setSlot_fill {i f : Nat} (g g' : Nat → Entry) :
    ((pg.setSlot i true).fill f g').fill f g = (pg.setSlot i true).fill f g := by
  simp [Paging.fill]

theorem write_fill_comm {d idx f : Nat} (hne : d ≠ f) (e : Entry) (g : Nat → Entry) :
    (pg.write d idx e).fill f g = (pg.fill f g).write d idx e := by
  have htable :
      Function.update (Function.update pg.table d (Function.update (pg.table d) idx e)) f g =
      Function.update (Function.update pg.table f g) d
        (Function.update (Function.update pg.table f g d) idx e) := by
    rw [Function.update_of_ne hne, Function.update_comm hne]
  simp only [Paging.write, Paging.fill, htable]

/-- What the pool hands out, whether or not it has its lock. -/
theorem poolAlloc_cases (L : Layout) (pg : Paging) :
    archPagingPoolAlloc L pg = (0, pg) ∨
      ∃ i < pagingPoolSlots, pg.poolUsed i = false ∧ archPagingPoolAlloc L pg =
        (L.poolFrame i * 4096, (pg.setSlot i true).fill (L.poolFrame i) fun _ => .zero) := by
  cases hlock : pg.poolLock with
  | false => grind [archPagingPoolAlloc]
  | true => grind [archPagingPoolAlloc_cases]

/-- Splitting a 4 MB entry fails, or installs the table of its pages. -/
theorem splitForMap_eq (L : Layout) (pg : Paging) {d idx : Nat} (flags : Nat)
    (hp : (pg.table d idx).present = true) (hs : (pg.table d idx).pageSize = true) :
    splitForMap L pg d idx flags = (eNomem, pg) ∨
      ∃ i < pagingPoolSlots, pg.poolUsed i = false ∧ splitForMap L pg d idx flags =
        (0, install L pg d idx i
          (splitPde (pg.table d idx) (flags.testBit 2) (L.poolFrame i * 4096))
          (splitPte (pg.table d idx))) := by
  unfold splitForMap split4mbPde
  rw [if_pos (by rw [hp, hs]; rfl), if_neg (by simp [hp, hs])]
  rcases poolAlloc_cases L pg with heq | ⟨i, hi, hfree, heq⟩
  · rw [heq]
    exact Or.inl rfl
  · -- a zero address would have been taken for a failure
    have hnz : L.poolFrame i * 4096 ≠ 0 :=
      Nat.mul_ne_zero (Nat.ne_of_gt (poolFrame_pos L i)) (by decide)
    rw [heq]
    simp only [if_neg hnz, ne_eq, not_true, if_false,
      Nat.mul_div_cancel _ (show 0 < 4096 by decide)]
    rw [fill_setSlot_fill]
    exact Or.inr ⟨i, hi, hfree, rfl⟩

/-- Making a table where there is no entry fails, or installs an empty one. -/
theorem tableForMap_eq {d idx : Nat} (flags : Nat) (habs : (pg.table d idx).present = false)
    (hd : ∀ i, pg.poolUsed i = false → d ≠ L.poolFrame i) :
    tableForMap L pg d idx flags = (eNomem, pg) ∨
      ∃ i < pagingPoolSlots, pg.poolUsed i = false ∧ tableForMap L pg d idx flags =
        (0, install L pg d idx i (tablePde flags (L.poolFrame i * 4096)) fun _ => .zero) := by
  unfold tableForMap
  rw [if_neg (by simp [habs])]
  rcases poolAlloc_cases L pg with heq | ⟨i, hi, hfree, heq⟩
  · rw [heq]
    exact Or.inl rfl
  · have hnz : L.poolFrame i * 4096 ≠ 0 :=
      Nat.mul_ne_zero (Nat.ne_of_gt (poolFrame_pos L i)) (by decide)
    rw [heq]
    simp only [if_neg hnz, Nat.mul_div_cancel _ (show 0 < 4096 by decide)]
    rw [write_fill_comm (hd i hfree), fill_setSlot_fill]
    exact Or.inr ⟨i, hi, hfree, rfl⟩

section Map

variable {cr3 : Nat} (va flags : Nat)

/-- A 4 MB entry translates as the table that splits it. -/
theorem compose_splitPte {p : Entry} (hp : p.present = true) (hs : p.paddr % 1024 = 0)
    (hlt : p.paddr < 2 ^ 20) (ua : Bool) (ptl : Nat) :
    compose (splitPde p ua ptl) (splitPte p (ptIndex va)) =
      some ⟨p.paddr / 1024 * 1024 + ptIndex va, p.rw, p.user⟩ := by
  have hpt : ptIndex va < 1024 := Nat.mod_lt _ (by decide)
  unfold compose
  rw [if_pos (show (splitPte p (ptIndex va)).present = true from hp)]
  refine congrArg some (Translation.ext ?_ ?_ ?_)
  · change (p.paddr + ptIndex va) % 2 ^ 20 = p.paddr / 1024 * 1024 + ptIndex va
    omega
  · change (true && p.rw) = p.rw
    rw [Bool.true_and]
  · change ((p.user || ua) && p.user) = p.user
    cases p.user <;> simp

variable (h : pg.Wf L dirs) (hd : cr3 / 4096 ∈ dirs)
  (hk : cr3 / 4096 = L.master → dirs = {L.master})
include h hd hk

theorem splitForMap_cases :
    splitForMap L pg (cr3 / 4096) (pdIndex va) flags = (eNomem, pg) ∨
      ∃ pg', splitForMap L pg (cr3 / 4096) (pdIndex va) flags = (0, pg') ∧
        Quiet L dirs (cr3 / 4096) (pdIndex va) flags pg pg' ∧
        ((pg'.table (cr3 / 4096) (pdIndex va)).IsTable ∨
          pg' = pg ∧ (pg.table (cr3 / 4096) (pdIndex va)).present = false) := by
  by_cases hbig : ((pg.table (cr3 / 4096) (pdIndex va)).present &&
      (pg.table (cr3 / 4096) (pdIndex va)).pageSize) = true
  · rw [Bool.and_eq_true] at hbig
    have hn : ¬(pg.table (cr3 / 4096) (pdIndex va)).IsTable := fun ht => by
      rw [ht.2] at hbig
      exact absurd hbig.2 (by decide)
    obtain ⟨hal, hlt⟩ := h.big (pdIndex va) (h.eq_master hd hn ▸ hbig.2)
    rw [← h.eq_master hd hn] at hal hlt
    rcases splitForMap_eq L pg flags hbig.1 hbig.2 with heq | ⟨i, hi, hfree, heq⟩
    · exact Or.inl heq
    · have hdiv : L.poolFrame i * 4096 / 4096 = L.poolFrame i := Nat.mul_div_cancel _ (by decide)
      refine Or.inr ⟨_, heq, ?_, ?_⟩
      · refine Quiet.install h hd hi hfree hn hk ⟨rfl, rfl⟩ rfl hdiv (fun hf => ?_) ?_
        · change (_ || flags.testBit 2) = true
          rw [hf, Bool.or_true]
        · grind [compose_splitPte, walk]
      · exact Or.inl ((write_table_self _ _ _).symm ▸ ⟨rfl, rfl⟩)
  · refine Or.inr ⟨pg, if_neg hbig, Quiet.refl h _ _ _, ?_⟩
    rw [Bool.and_eq_true, not_and] at hbig
    by_cases hp : (pg.table (cr3 / 4096) (pdIndex va)).present = true
    · exact Or.inl ⟨hp, eq_false_of_ne_true (hbig hp)⟩
    · exact Or.inr ⟨rfl, eq_false_of_ne_true hp⟩

theorem tableForMap_cases (habs : (pg.table (cr3 / 4096) (pdIndex va)).present = false) :
    tableForMap L pg (cr3 / 4096) (pdIndex va) flags = (eNomem, pg) ∨
      ∃ pg', tableForMap L pg (cr3 / 4096) (pdIndex va) flags = (0, pg') ∧
        Quiet L dirs (cr3 / 4096) (pdIndex va) flags pg pg' ∧
        (pg'.table (cr3 / 4096) (pdIndex va)).IsTable := by
  have hn : ¬(pg.table (cr3 / 4096) (pdIndex va)).IsTable := fun ht => by
    rw [ht.1] at habs
    exact absurd habs (by decide)
  rcases tableForMap_eq flags habs fun i hfree heq => poolFrame_not_mem h hfree (heq ▸ hd) with
    heq | ⟨i, hi, hfree, heq⟩
  · exact Or.inl heq
  · have hdiv : L.poolFrame i * 4096 / 4096 = L.poolFrame i := Nat.mul_div_cancel _ (by decide)
    refine Or.inr ⟨_, heq, ?_, ?_⟩
    · refine Quiet.install h hd hi hfree hn hk ⟨rfl, rfl⟩ rfl hdiv (fun hf => hf) ?_
      intro cr3' va' hcr3' hva'
      unfold walk
      rw [hcr3', hva']
      simp [compose, Entry.zero, habs]
    · exact (write_table_self _ _ _).symm ▸ ⟨rfl, rfl⟩

end Map

/-! ## Pages -/

/-- The translation of a page below the directory in frame `d`. -/
def view (pg : Paging) (d page : Nat) : Option Translation := walk pg (d * 4096) (page * 4096)

/-- The table for this directory index is the kernel's, and every directory has it. -/
def Shared (L : Layout) (pg : Paging) (idx : Nat) : Prop := (pg.table L.master idx).IsTable

theorem pdIndex_page {p : Nat} (hp : p < 2 ^ 20) : pdIndex (p * 4096) = p / 1024 := by
  unfold pdIndex
  omega

theorem ptIndex_page (p : Nat) : ptIndex (p * 4096) = p % 1024 := by
  unfold ptIndex
  omega

/-- The walk only depends on the page. -/
theorem walk_eq_view (pg : Paging) (cr3 va : Nat) :
    walk pg cr3 va = view pg (cr3 / 4096) (va / 4096) := by
  have hpd : pdIndex (va / 4096 * 4096) = pdIndex va := by
    unfold pdIndex
    omega
  have hpt : ptIndex (va / 4096 * 4096) = ptIndex va := by
    unfold ptIndex
    omega
  unfold view walk
  rw [hpd, hpt, Nat.mul_div_cancel _ (by decide)]

theorem touches_page {d p d' q : Nat} (hp : p < 2 ^ 20) (hq : q < 2 ^ 20) :
    Touches L pg d (p * 4096) d' (q * 4096) ↔ q = p ∧ (d' = d ∨ Shared L pg (p / 1024)) := by
  unfold Touches Shared
  rw [pdIndex_page hp, pdIndex_page hq, ptIndex_page, ptIndex_page, ← and_assoc]
  refine and_congr_left fun _ => ⟨fun h => ?_, fun h => by rw [h]; exact ⟨rfl, rfl⟩⟩
  omega

/-- What unmapping leaves at a page that was mapped. -/
def released (page : Nat) : Option Translation :=
  if page < userHeapBase / 4096 then some ⟨page, true, false⟩ else none

/-- A write below the directory `d` shows below the directory `d'`. -/
def Sees (L : Layout) (pg : Paging) (d d' idx : Nat) : Prop := d' = d ∨ Shared L pg idx

theorem Steady.sees {d : Nat} (h : Steady L dirs d pg pg')
    (hk : d = L.master → dirs = {L.master}) {d' : Nat} (hd' : d' ∈ dirs) (idx : Nat) :
    Sees L pg' d d' idx ↔ Sees L pg d d' idx := by
  unfold Sees Shared
  by_cases hm : d = L.master
  · grind
  · rw [h.master hm]

section Page

variable {d p : Nat} (pa flags : Nat)

/-- The page `p` below `d` has been mapped. -/
structure Mapped (L : Layout) (dirs : Set Nat) (d p pa flags : Nat) (pg pg' : Paging) : Prop
    extends Steady L dirs d pg pg' where
  entry : ∀ d' ∈ dirs, ∀ i, ¬(d' = d ∧ i = p / 1024) → pg'.table d' i = pg.table d' i
  user : flags.testBit 2 = true → UserTables pg dirs → UserTables pg' dirs
  isTable : (pg'.table d (p / 1024)).IsTable
  view_self : ∀ d' ∈ dirs, Sees L pg d d' (p / 1024) →
    view pg' d' p = compose (pg'.table d (p / 1024)) (mapPte pa flags)
  view_other : ∀ d' ∈ dirs, ∀ q < 2 ^ 20, ¬(q = p ∧ Sees L pg d d' (p / 1024)) →
    view pg' d' q = view pg d' q

variable (h : pg.Wf L dirs) (hd : d ∈ dirs) (hp : p < 2 ^ 20)
include h hd hp

theorem Mapped.of_writePte (hk : d = L.master → dirs = {L.master})
    (hq : Quiet L dirs d (p / 1024) flags pg pg') (ht : (pg'.table d (p / 1024)).IsTable) :
    Mapped L dirs d p pa flags pg
      (pg'.write (pg'.table d (p / 1024)).paddr (p % 1024) (mapPte pa flags)) := by
  have hdiv : d * 4096 / 4096 = d := Nat.mul_div_cancel _ (by decide)
  have hd₁ : d * 4096 / 4096 ∈ dirs := by rwa [hdiv]
  have ht₁ : (pg'.table (d * 4096 / 4096) (pdIndex (p * 4096))).IsTable := by
    rwa [hdiv, pdIndex_page hp]
  have heq : pg'.write (pg'.table d (p / 1024)).paddr (p % 1024) (mapPte pa flags) =
      writePte pg' (d * 4096) (p * 4096) (mapPte pa flags) := by
    rw [writePte, hdiv, pdIndex_page hp, ptIndex_page]
  rw [heq]
  have hdir {d' : Nat} (hd' : d' ∈ dirs) :=
    writePte_dir (e := mapPte pa flags) hq.wf hd₁ ht₁ hd'
  have hwalk {d' q : Nat} (hd' : d' ∈ dirs) (hq' : q < 2 ^ 20) :
      view (writePte pg' (d * 4096) (p * 4096) (mapPte pa flags)) d' q =
        if Touches L pg' d (p * 4096) d' (q * 4096) then
          compose (pg'.table d (p / 1024)) (mapPte pa flags)
        else view pg d' q := by
    have hdiv' : d' * 4096 / 4096 = d' := Nat.mul_div_cancel _ (by decide)
    have hmem : d' * 4096 / 4096 ∈ dirs := by rwa [hdiv']
    have hw := walk_writePte (e := mapPte pa flags) hq.wf hd₁ ht₁ hmem (q * 4096)
    rw [hdiv, hdiv', pdIndex_page hp, hq.walk_eq _ hmem] at hw
    exact hw
  refine ⟨⟨hq.wf.writePte hd₁ ht₁, ?_, ?_⟩, ?_, ?_, ?_, ?_, ?_⟩
  · intro d' hd' i ht'
    rw [hdir hd']
    exact hq.keeps d' hd' i ht'
  · exact fun hne => (hdir h.master_mem).trans (hq.master hne)
  · intro d' hd' i hne
    rw [hdir hd']
    exact hq.entry d' hd' i hne
  · intro hf hu d' hd' i ht'
    rw [hdir hd'] at ht' ⊢
    exact hq.user hf hu d' hd' i ht'
  · rwa [hdir hd]
  · intro d' hd' hsees
    rw [hwalk hd' hp, hdir hd,
      if_pos ((touches_page hp hp).mpr ⟨rfl, (hq.sees hk hd' _).mpr hsees⟩)]
  · intro d' hd' q hq' hn
    rw [hwalk hd' hq', if_neg fun htouch => hn ?_]
    obtain ⟨hqp, hsees⟩ := (touches_page hp hq').mp htouch
    exact ⟨hqp, (hq.sees hk hd' _).mp hsees⟩

/-- Mapping a page fails and changes nothing, or maps it. -/
theorem archMap4kb_cases (hcr3 : d ≠ 0) (hk : d = L.master → dirs = {L.master}) :
    archMap4kb L pg (d * 4096) (p * 4096) pa flags = (eNomem, pg) ∨
      ∃ pg', archMap4kb L pg (d * 4096) (p * 4096) pa flags = (0, pg') ∧
        Mapped L dirs d p pa flags pg pg' := by
  have hdiv : d * 4096 / 4096 = d := Nat.mul_div_cancel _ (by decide)
  have hd₁ : d * 4096 / 4096 ∈ dirs := by rwa [hdiv]
  have hk₁ : d * 4096 / 4096 = L.master → dirs = {L.master} := by rwa [hdiv]
  unfold archMap4kb
  rw [if_neg (by omega)]
  have hwrite {pg₂ : Paging}
      (hq : Quiet L dirs (d * 4096 / 4096) (pdIndex (p * 4096)) flags pg pg₂)
      (ht : (pg₂.table (d * 4096 / 4096) (pdIndex (p * 4096))).IsTable) :
      Mapped L dirs d p pa flags pg (pg₂.write (pg₂.table (d * 4096 / 4096)
        (pdIndex (p * 4096))).paddr (ptIndex (p * 4096)) (mapPte pa flags)) := by
    grind [pdIndex_page, ptIndex_page, Mapped.of_writePte]
  rcases splitForMap_cases (p * 4096) flags h hd₁ hk₁ with
    heq | ⟨pg₁, heq, hq₁, ht | ⟨rfl, habs⟩⟩
  · rw [heq]
    exact Or.inl rfl
  · -- the entry points to a table, perhaps one that has just split a 4 MB entry
    rw [heq]
    dsimp only
    rw [if_neg (by simp), tableForMap, if_pos ht.1]
    exact Or.inr ⟨_, rfl, hwrite hq₁ ht⟩
  · rw [heq]
    dsimp only
    rcases tableForMap_cases (p * 4096) flags h hd₁ hk₁ habs with heq' | ⟨pg₂, heq', hq₂, ht⟩
    · rw [heq']
      exact Or.inl rfl
    · rw [heq']
      exact Or.inr ⟨_, rfl, hwrite hq₂ ht⟩

end Page

/-! ## Unmapping a page -/

/-- What unmapping makes of the translation of a page. -/
def unmapView (page : Nat) (old : Option Translation) : Option Translation :=
  if old.isSome then released page else none

theorem compose_unmapPte {pde : Entry} (hrw : pde.rw = true) {p : Nat} :
    compose pde (unmapPte (p * 4096)) = released p := by
  unfold unmapPte released
  by_cases hlow : p < userHeapBase / 4096
  · grind [Entry.zero, compose]
  · rw [if_neg hlow, if_neg (by unfold userHeapBase at *; omega)]
    simp [compose, Entry.zero]

/-- The pages from `p` on, `n` of them, have been unmapped below `d`. -/
structure Unmapped (L : Layout) (dirs : Set Nat) (d p n : Nat) (pg pg' : Paging) : Prop
    extends Steady L dirs d pg pg' where
  user : UserTables pg dirs → UserTables pg' dirs
  view_self : ∀ d' ∈ dirs, ∀ q, p ≤ q → q < p + n → Sees L pg d d' (q / 1024) →
    view pg' d' q = unmapView q (view pg d' q)
  view_other : ∀ d' ∈ dirs, ∀ q < 2 ^ 20, ¬(p ≤ q ∧ q < p + n ∧ Sees L pg d d' (q / 1024)) →
    view pg' d' q = view pg d' q

theorem Unmapped.refl (h : pg.Wf L dirs) (d p : Nat) : Unmapped L dirs d p 0 pg pg :=
  ⟨Steady.refl h d, fun hu => hu, fun _ _ _ h₁ h₂ => absurd h₂ (by omega), fun _ _ _ _ _ => rfl⟩

section Unmap

variable {d p : Nat} (h : pg.Wf L dirs) (hd : d ∈ dirs)
include h hd

/-- What a directory shows for a page whose table it sees. -/
theorem view_eq_compose {d' : Nat} (hd' : d' ∈ dirs) (hp : p < 2 ^ 20)
    (ht : (pg.table d (p / 1024)).IsTable) (hsees : Sees L pg d d' (p / 1024)) :
    view pg d' p = compose (pg.table d (p / 1024))
      (pg.table (pg.table d (p / 1024)).paddr (p % 1024)) := by
  have heq : pg.table d' (p / 1024) = pg.table d (p / 1024) := by
    rcases hsees with rfl | hs
    · rfl
    · rw [h.shared hd' hs, h.shared hd hs]
  have hdiv : d' * 4096 / 4096 = d' := Nat.mul_div_cancel _ (by decide)
  unfold view
  rw [walk_of_isTable (by rwa [hdiv, pdIndex_page hp, heq]), hdiv, pdIndex_page hp, ptIndex_page,
    heq]

theorem archUnmap4kb_unmapped (hcr3 : d ≠ 0) (hp : p < 2 ^ 20)
    (ht : (pg.table d (p / 1024)).IsTable) :
    Unmapped L dirs d p 1 pg (archUnmap4kb pg (d * 4096) (p * 4096)) := by
  have hdiv : d * 4096 / 4096 = d := Nat.mul_div_cancel _ (by decide)
  have hd₁ : d * 4096 / 4096 ∈ dirs := by rwa [hdiv]
  have ht₁ : (pg.table (d * 4096 / 4096) (pdIndex (p * 4096))).IsTable := by
    rwa [hdiv, pdIndex_page hp]
  unfold archUnmap4kb
  rw [if_neg (by rw [ht₁.1]; simp; omega)]
  split
  · -- nothing was mapped, and nothing changes
    rename_i habs
    rw [hdiv, pdIndex_page hp, ptIndex_page] at habs
    refine ⟨Steady.refl h d, fun hu => hu, ?_, fun _ _ _ _ _ => rfl⟩
    intro d' hd' q hpq hqp hsees
    obtain rfl : q = p := by omega
    have hnone : view pg d' q = none := by
      rw [view_eq_compose h hd hd' hp ht hsees, compose, if_neg (by simpa using habs)]
    rw [hnone]
    rfl
  · rename_i hpres
    rw [hdiv, pdIndex_page hp, ptIndex_page] at hpres
    have hwp : pg.write (pg.table (d * 4096 / 4096) (pdIndex (p * 4096))).paddr
        (ptIndex (p * 4096)) (unmapPte (p * 4096)) =
        writePte pg (d * 4096) (p * 4096) (unmapPte (p * 4096)) := rfl
    rw [hwp]
    have hdir {d' : Nat} (hd' : d' ∈ dirs) :=
      writePte_dir (e := unmapPte (p * 4096)) h hd₁ ht₁ hd'
    have hwalk {d' q : Nat} (hd' : d' ∈ dirs) (hq' : q < 2 ^ 20) :
        view (writePte pg (d * 4096) (p * 4096) (unmapPte (p * 4096))) d' q =
          if Touches L pg d (p * 4096) d' (q * 4096) then released p else view pg d' q := by
      have hdiv' : d' * 4096 / 4096 = d' := Nat.mul_div_cancel _ (by decide)
      have hmem : d' * 4096 / 4096 ∈ dirs := by rwa [hdiv']
      have hw := walk_writePte (e := unmapPte (p * 4096)) h hd₁ ht₁ hmem (q * 4096)
      rw [hdiv, hdiv', pdIndex_page hp, compose_unmapPte (h.table_rw d hd _ ht)] at hw
      exact hw
    refine ⟨⟨h.writePte hd₁ ht₁, ?_, ?_⟩, ?_, ?_, ?_⟩
    · intro d' hd' i _
      rw [hdir hd']
    · exact fun _ => hdir h.master_mem
    · intro hu d' hd' i ht'
      rw [hdir hd'] at ht' ⊢
      exact hu d' hd' i ht'
    · intro d' hd' q hpq hqp hsees
      obtain rfl : q = p := by omega
      rw [hwalk hd' hp, if_pos ((touches_page hp hp).mpr ⟨rfl, hsees⟩), unmapView,
        view_eq_compose h hd hd' hp ht hsees, compose, if_pos (by simpa using hpres)]
    · intro d' hd' q hq' hn
      rw [hwalk hd' hq', if_neg fun htouch => hn ?_]
      obtain ⟨rfl, hsees⟩ := (touches_page hp hq').mp htouch
      exact ⟨Nat.le_refl _, by omega, hsees⟩

end Unmap

/-! ## Ranges of pages -/

theorem Unmapped.trans_succ {d p n : Nat} (hk : d = L.master → dirs = {L.master})
    (h : Unmapped L dirs d p n pg pg') (h' : Unmapped L dirs d (p + n) 1 pg' pg'')
    (hlt : p + n < 2 ^ 20) : Unmapped L dirs d p (n + 1) pg pg'' := by
  refine ⟨h.toSteady.trans h'.toSteady, fun hu => h'.user (h.user hu), ?_, ?_⟩
  · grind [h.sees, h'.view_other, h.view_self, h'.view_self, h.view_other]
  · grind [h'.view_other, h.sees, h.view_other]

theorem page_add {p i : Nat} (h : p + i < 2 ^ 20) :
    (p * 4096 + i * 4096) % 2 ^ 32 = (p + i) * 4096 := by
  omega

/-- Unmapping the pages of a range that all have tables. -/
theorem unmapPages_unmapped {d p : Nat} (h : pg.Wf L dirs) (hd : d ∈ dirs) (hcr3 : d ≠ 0)
    (hk : d = L.master → dirs = {L.master}) (n : Nat) (hend : p + n ≤ 2 ^ 20)
    (ht : ∀ q, p ≤ q → q < p + n → (pg.table d (q / 1024)).IsTable) :
    Unmapped L dirs d p n pg (unmapPages pg (d * 4096) (p * 4096) n) := by
  induction n with
  | zero => exact Unmapped.refl h d p
  | succ n ih =>
    have ih := ih (by omega) fun q h₁ h₂ => ht q h₁ (by omega)
    rw [unmapPages, List.range_succ, List.foldl_append, List.foldl_cons, List.foldl_nil]
    refine ih.trans_succ hk ?_ (by omega)
    rw [page_add (by omega)]
    exact archUnmap4kb_unmapped ih.wf hd hcr3 (by omega)
      (ih.isTable hd (ht _ (by omega) (by omega)))

/-- The `n` pages from `p` on have been mapped below `d`. -/
structure MappedRange (L : Layout) (dirs : Set Nat) (d p n pa flags : Nat) (pg pg' : Paging) : Prop
    extends Steady L dirs d pg pg' where
  user : flags.testBit 2 = true → UserTables pg dirs → UserTables pg' dirs
  tables : ∀ q, p ≤ q → q < p + n → (pg'.table d (q / 1024)).IsTable
  view_self : ∀ d' ∈ dirs, ∀ q, p ≤ q → q < p + n → Sees L pg d d' (q / 1024) →
    view pg' d' q = compose (pg'.table d (q / 1024))
      (mapPte ((pa + (q - p) * 4096) % 2 ^ 32) flags)
  view_other : ∀ d' ∈ dirs, ∀ q < 2 ^ 20, ¬(p ≤ q ∧ q < p + n ∧ Sees L pg d d' (q / 1024)) →
    view pg' d' q = view pg d' q

theorem MappedRange.refl (h : pg.Wf L dirs) (d p pa flags : Nat) :
    MappedRange L dirs d p 0 pa flags pg pg :=
  ⟨Steady.refl h d, fun _ hu => hu, fun _ _ h₂ => absurd h₂ (by omega),
    fun _ _ _ _ h₂ => absurd h₂ (by omega), fun _ _ _ _ _ => rfl⟩

theorem MappedRange.trans_succ {d p n pa flags : Nat} (hk : d = L.master → dirs = {L.master})
    (hd : d ∈ dirs) (h : MappedRange L dirs d p n pa flags pg pg')
    (h' : Mapped L dirs d (p + n) ((pa + n * 4096) % 2 ^ 32) flags pg' pg'')
    (hlt : p + n < 2 ^ 20) : MappedRange L dirs d p (n + 1) pa flags pg pg'' := by
  refine ⟨h.toSteady.trans h'.toSteady, fun hf hu => h'.user hf (h.user hf hu), ?_, ?_, ?_⟩
  · grind [h'.toSteady.isTable, h.tables, h'.isTable]
  · grind [h.sees, h'.view_other, h.view_self, h'.keeps, h.tables, h'.view_self]
  · grind [h'.view_other, h.view_other, h.sees]

/-- The loop maps all pages, or stops at a page it could not get a table for. -/
theorem mapLoop_cases {d p n pa flags : Nat} (hd : d ∈ dirs) (hcr3 : d ≠ 0)
    (hk : d = L.master → dirs = {L.master}) {pg₀ : Paging} (left i : Nat) (hn : i + left = n)
    (hend : p + n ≤ 2 ^ 20) (h : MappedRange L dirs d p i pa flags pg₀ pg) :
    (∃ pg', mapLoop L (d * 4096) (p * 4096) pa flags left i pg = (none, pg') ∧
      MappedRange L dirs d p n pa flags pg₀ pg') ∨
    ∃ k pg', mapLoop L (d * 4096) (p * 4096) pa flags left i pg = (some k, pg') ∧ k < n ∧
      MappedRange L dirs d p k pa flags pg₀ pg' := by
  induction left generalizing i pg with
  | zero =>
    obtain rfl : i = n := by omega
    exact Or.inl ⟨pg, rfl, h⟩
  | succ left ih =>
    rw [mapLoop, page_add (by omega)]
    rcases archMap4kb_cases ((pa + i * 4096) % 2 ^ 32) flags h.wf hd
      (show p + i < 2 ^ 20 by omega) hcr3 hk with heq | ⟨pg', heq, hmap⟩
    · rw [heq]
      exact Or.inr ⟨i, pg, rfl, by omega, h⟩
    · rw [heq]
      exact ih (i + 1) (by omega) (h.trans_succ hk hd hmap (by omega))

/-- The `n` pages from `p` on have been mapped below `d` and unmapped again. -/
structure RolledBack (L : Layout) (dirs : Set Nat) (d p n flags : Nat) (pg pg' : Paging) : Prop
    extends Steady L dirs d pg pg' where
  user : flags.testBit 2 = true → UserTables pg dirs → UserTables pg' dirs
  view_self : flags.testBit 0 = true → ∀ d' ∈ dirs, ∀ q, p ≤ q → q < p + n →
    Sees L pg d d' (q / 1024) → view pg' d' q = released q
  view_other : ∀ d' ∈ dirs, ∀ q < 2 ^ 20, ¬(p ≤ q ∧ q < p + n ∧ Sees L pg d d' (q / 1024)) →
    view pg' d' q = view pg d' q

theorem MappedRange.rolledBack {d p n pa flags : Nat} (hk : d = L.master → dirs = {L.master})
    (h : MappedRange L dirs d p n pa flags pg pg') (h' : Unmapped L dirs d p n pg' pg'') :
    RolledBack L dirs d p n flags pg pg'' := by
  refine ⟨h.toSteady.trans h'.toSteady, fun hf hu => h'.user (h.user hf hu), ?_, ?_⟩
  · intro hf d' hd' q hpq hqp hsees
    rw [h'.view_self d' hd' q hpq hqp ((h.sees hk hd' _).mpr hsees),
      h.view_self d' hd' q hpq hqp hsees, compose,
      if_pos (show (mapPte ((pa + (q - p) * 4096) % 2 ^ 32) flags).present = true from hf)]
    rfl
  · grind [h'.view_other, h.sees, h.view_other]

/-- Mapping a range succeeds, or leaves some pages unmapped. -/
theorem mapPages_cases {d p n : Nat} (pa flags : Nat) (h : pg.Wf L dirs) (hd : d ∈ dirs)
    (hcr3 : d ≠ 0) (hk : d = L.master → dirs = {L.master}) (hend : p + n ≤ 2 ^ 20) :
    (∃ pg', mapPages L pg (d * 4096) (p * 4096) pa n flags = (true, pg') ∧
      MappedRange L dirs d p n pa flags pg pg') ∨
    ∃ k pg', mapPages L pg (d * 4096) (p * 4096) pa n flags = (false, pg') ∧ k < n ∧
      RolledBack L dirs d p k flags pg pg' := by
  unfold mapPages
  rcases mapLoop_cases hd hcr3 hk n 0 (Nat.zero_add n) hend (MappedRange.refl h d p pa flags) with
    ⟨pg', heq, hmap⟩ | ⟨k, pg', heq, hlt, hmap⟩
  · rw [heq]
    exact Or.inl ⟨pg', rfl, hmap⟩
  · rw [heq]
    have hun := unmapPages_unmapped hmap.wf hd hcr3 hk k (by omega) hmap.tables
    exact Or.inr ⟨k, _, rfl, hlt, hmap.rolledBack hk hun⟩

end Ukernel.Arch
