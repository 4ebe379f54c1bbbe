import Ukernel.Arch.PagingOps
import Ukernel.Machine.System

/-!
# What mapping a page does to one directory

`arch_map_4kb` on a directory that has been built by calls of `arch_map_4mb`, `arch_map_4kb` and
`arch_unmap_4kb` alone, with any rights. Nothing is assumed here about other directories: this one
may have 4 MB entries of its own, which those of processes never do.

## Where mapping is not exact

A table gets the USER bit of its directory entry when it is made, from the flags of the first page
in it, and keeps it. A page that is mapped later for the user into a table that was made for the
kernel is mapped, and the call returns 0, but the user cannot reach it.

Unmapping takes a 4 MB entry for one that points to a table, and writes into the first frame of the
4 MB page. If that frame holds the directory, the directory is no longer the one that was built.
`archMap4kb_not_exact` has an instance of each.

## Main definitions

* `Alone L pg d`: the directory in frame `d` and its tables
* `dirSystem`: runs of the three functions on one directory

## Main results

* `Alone.map`, `Alone.unmap`, `Alone.map4mb`: the calls keep the invariant
* `archMap4kb_exact`: in such runs, mapping is exact unless it asks for user access below a table
  that has none
-/

namespace Ukernel.Arch

open Kernel Lib Machine

variable {L : Layout} {pg pg' : Paging} {d : Nat}

/-- The directory in frame `d` has its frame for itself, and points to tables that are used once. -/
structure Alone (L : Layout) (pg : Paging) (d : Nat) : Prop where
  taken : ∀ i, pg.poolUsed i = false → d ≠ L.poolFrame i
  held : ∀ i, (pg.table d i).IsTable → Held L pg (pg.table d i).paddr
  apart : ∀ i, (pg.table d i).IsTable → (pg.table d i).paddr ≠ d
  inj : ∀ i j, (pg.table d i).IsTable → (pg.table d j).IsTable →
    (pg.table d i).paddr = (pg.table d j).paddr → i = j
  rw : ∀ i, (pg.table d i).IsTable → (pg.table d i).rw = true
  big : ∀ i, (pg.table d i).pageSize = true →
    (pg.table d i).paddr % 1024 = 0 ∧ (pg.table d i).paddr < 2 ^ 20

namespace Alone

/-- The invariant is about the directory and the slots in use. -/
theorem congr (h : Alone L pg d) (hdir : pg'.table d = pg.table d)
    (hused : pg'.poolUsed = pg.poolUsed) : Alone L pg' d := by
  refine ⟨hused ▸ h.taken, ?_, ?_, ?_, ?_, ?_⟩ <;> rw [hdir]
  · exact fun i hi => (held_of_poolUsed_eq hused).mpr (h.held i hi)
  · exact h.apart
  · exact h.inj
  · exact h.rw
  · exact h.big

/-! ## Writing a table entry -/

section WriteTable

variable {idx : Nat} (h : Alone L pg d) (ht : (pg.table d idx).IsTable) (j : Nat) (e : Entry)
include h ht

theorem write_dir : (pg.write (pg.table d idx).paddr j e).table d = pg.table d := by
  funext i
  exact write_table_of_ne e (Or.inl (h.apart idx ht).symm)

theorem write_table : Alone L (pg.write (pg.table d idx).paddr j e) d :=
  h.congr (h.write_dir ht j e) rfl

theorem walk_write_table {cr3 : Nat} (hcr3 : cr3 / 4096 = d) (va : Nat) :
    walk (pg.write (pg.table d idx).paddr j e) cr3 va =
      if pdIndex va = idx ∧ ptIndex va = j then compose (pg.table d idx) e
      else walk pg cr3 va := by
  have hdir := h.write_dir ht j e
  split_ifs with hc
  · grind [walk_of_isTable, write_table_self]
  · refine walk_congr (by rw [hcr3, hdir]) fun ht' => write_table_of_ne e ?_
    -- another entry of the directory points to another table
    rw [hcr3] at ht' ⊢
    by_contra hn
    rw [not_or, not_not, not_not] at hn
    exact hc ⟨h.inj _ _ ht' ht hn.1, hn.2⟩

end WriteTable

/-! ## Installing a table -/

section Install

variable {idx i : Nat} {e : Entry} {g : Nat → Entry} (h : Alone L pg d)
  (hfree : pg.poolUsed i = false)
include h hfree

theorem install_dir {j : Nat} (hj : j ≠ idx) :
    (install L pg d idx i e g).table d j = pg.table d j := by
  unfold install
  rw [write_table_of_ne e (Or.inr hj), fill_table_of_ne _ (h.taken i hfree)]
  rfl

theorem install_new : (install L pg d idx i e g).table (L.poolFrame i) = g := by
  unfold install
  funext j
  rw [write_table_of_ne e (Or.inl (h.taken i hfree).symm), fill_table_self]

theorem ne_poolFrame {j : Nat} (ht : (pg.table d j).IsTable) :
    (pg.table d j).paddr ≠ L.poolFrame i := fun heq =>
  not_held_poolFrame hfree (heq ▸ h.held j ht)

theorem install (hi : i < pagingPoolSlots) (he : e.IsTable) (hrw : e.rw = true)
    (hpaddr : e.paddr = L.poolFrame i) : Alone L (Arch.install L pg d idx i e g) d := by
  have hself : (Arch.install L pg d idx i e g).table d idx = e := write_table_self _ _ _
  have hother {j : Nat} (hj : j ≠ idx) := h.install_dir (e := e) (g := g) hfree hj
  refine ⟨fun k hk => ?_, fun k hk => ?_, fun k hk => ?_, fun k l hk hl heq => ?_, fun k hk => ?_,
    fun k hk => ?_⟩
  · -- a slot that is free now was free before
    refine h.taken k ?_
    by_cases hki : k = i
    · rw [hki]
      exact hfree
    · rwa [show (Arch.install L pg d idx i e g).poolUsed k = pg.poolUsed k from
        Function.update_of_ne hki ..] at hk
  · grind [held_install, h.held]
  · grind [h.taken, h.apart]
  · grind [h.ne_poolFrame, h.inj]
  · grind [h.rw]
  · by_cases hkx : k = idx
    · rw [hkx, hself, he.2] at hk
      cases hk
    · rw [hother hkx] at hk ⊢
      exact h.big k hk

/-- Installing a table changes no walk, if it translates as the entry did. -/
theorem walk_install {cr3 : Nat} (hcr3 : cr3 / 4096 = d) (he : e.IsTable)
    (hpaddr : e.paddr = L.poolFrame i)
    (hsame : ∀ va, pdIndex va = idx → compose e (g (ptIndex va)) = walk pg cr3 va) (va : Nat) :
    walk (Arch.install L pg d idx i e g) cr3 va = walk pg cr3 va := by
  by_cases hva : pdIndex va = idx
  · grind [Arch.install, write_table_self, walk_of_isTable, h.install_new]
  · refine walk_congr (by rw [hcr3]; exact h.install_dir hfree hva) fun ht => ?_
    rw [hcr3] at ht ⊢
    unfold Arch.install
    rw [write_table_of_ne e (Or.inl (h.apart _ ht)), fill_table_of_ne _ (h.ne_poolFrame hfree ht)]
    rfl

end Install

end Alone

/-! ## Mapping a page -/

/-- The directory has a table for the page, which was there before, or was installed without a
change of any walk and is open to the user if that is asked for. -/
structure Tabled (L : Layout) (cr3 va flags : Nat) (pg pg' : Paging) : Prop where
  alone : Alone L pg' (cr3 / 4096)
  isTable : (pg'.table (cr3 / 4096) (pdIndex va)).IsTable
  walk_eq : ∀ va', walk pg' cr3 va' = walk pg cr3 va'
  old : (pg.table (cr3 / 4096) (pdIndex va)).IsTable →
    pg'.table (cr3 / 4096) (pdIndex va) = pg.table (cr3 / 4096) (pdIndex va)
  new : ¬(pg.table (cr3 / 4096) (pdIndex va)).IsTable → flags.testBit 2 = true →
    (pg'.table (cr3 / 4096) (pdIndex va)).user = true

namespace Alone

variable {cr3 va : Nat} (flags : Nat) (h : Alone L pg (cr3 / 4096))
include h

/-- A 4 MB entry is split. -/
theorem split (hp : (pg.table (cr3 / 4096) (pdIndex va)).present = true)
    (hs : (pg.table (cr3 / 4096) (pdIndex va)).pageSize = true) :
    splitForMap L pg (cr3 / 4096) (pdIndex va) flags = (eNomem, pg) ∨
      ∃ pg', splitForMap L pg (cr3 / 4096) (pdIndex va) flags = (0, pg') ∧
        Tabled L cr3 va flags pg pg' := by
  obtain ⟨hal, hlt⟩ := h.big _ hs
  have hn : ¬(pg.table (cr3 / 4096) (pdIndex va)).IsTable := fun ht => by
    rw [ht.2] at hs
    cases hs
  rcases splitForMap_eq L pg flags hp hs with heq | ⟨i, hi, hfree, heq⟩
  · exact Or.inl heq
  · have hdiv : L.poolFrame i * 4096 / 4096 = L.poolFrame i := Nat.mul_div_cancel _ (by decide)
    refine Or.inr ⟨_, heq, h.install hfree hi ⟨rfl, rfl⟩ rfl hdiv, ?_, ?_, fun ht => absurd ht hn,
      fun _ hf => ?_⟩
    · exact (write_table_self _ _ _).symm ▸ ⟨rfl, rfl⟩
    · refine h.walk_install hfree rfl ⟨rfl, rfl⟩ hdiv fun va' hva' => ?_
      rw [compose_splitPte _ hp hal hlt]
      unfold walk
      rw [hva']
      simp [hp, hs]
    · rw [Arch.install, write_table_self]
      change (_ || flags.testBit 2) = true
      rw [hf, Bool.or_true]

/-- A table is made where there is no entry. -/
theorem newTable (habs : (pg.table (cr3 / 4096) (pdIndex va)).present = false) :
    tableForMap L pg (cr3 / 4096) (pdIndex va) flags = (eNomem, pg) ∨
      ∃ pg', tableForMap L pg (cr3 / 4096) (pdIndex va) flags = (0, pg') ∧
        Tabled L cr3 va flags pg pg' := by
  have hn : ¬(pg.table (cr3 / 4096) (pdIndex va)).IsTable := fun ht => by
    rw [ht.1] at habs
    cases habs
  rcases tableForMap_eq flags habs h.taken with heq | ⟨i, hi, hfree, heq⟩
  · exact Or.inl heq
  · have hdiv : L.poolFrame i * 4096 / 4096 = L.poolFrame i := Nat.mul_div_cancel _ (by decide)
    refine Or.inr ⟨_, heq, h.install hfree hi ⟨rfl, rfl⟩ rfl hdiv, ?_, ?_, fun ht => absurd ht hn,
      fun _ hf => ?_⟩
    · exact (write_table_self _ _ _).symm ▸ ⟨rfl, rfl⟩
    · refine h.walk_install hfree rfl ⟨rfl, rfl⟩ hdiv fun va' hva' => ?_
      unfold walk
      rw [hva']
      simp [compose, Entry.zero, habs]
    · rw [Arch.install, write_table_self]
      exact hf

/-- Mapping a page fails and changes nothing, or writes the entry of a table. -/
theorem map (hcr3 : cr3 ≠ 0) (va pa : Nat) :
    archMap4kb L pg cr3 va pa flags = (eNomem, pg) ∨
      ∃ pg₁, Tabled L cr3 va flags pg pg₁ ∧ archMap4kb L pg cr3 va pa flags =
        (0, pg₁.write (pg₁.table (cr3 / 4096) (pdIndex va)).paddr (ptIndex va)
          (mapPte pa flags)) := by
  unfold archMap4kb
  rw [if_neg hcr3]
  cases hp : (pg.table (cr3 / 4096) (pdIndex va)).present with
  | false =>
    have hsplit : splitForMap L pg (cr3 / 4096) (pdIndex va) flags = (0, pg) := by
      unfold splitForMap
      rw [if_neg (by simp [hp])]
    rw [hsplit]
    dsimp only
    rcases h.newTable flags hp with heq | ⟨pg₁, heq, ht⟩
    · rw [heq]
      exact Or.inl rfl
    · rw [heq]
      exact Or.inr ⟨pg₁, ht, rfl⟩
  | true =>
    cases hs : (pg.table (cr3 / 4096) (pdIndex va)).pageSize with
    | false =>
      have hsplit : splitForMap L pg (cr3 / 4096) (pdIndex va) flags = (0, pg) := by
        unfold splitForMap
        rw [if_neg (by simp [hs])]
      rw [hsplit]
      dsimp only
      rw [if_neg (by simp), tableForMap, if_pos hp]
      have hold : Tabled L cr3 va flags pg pg :=
        ⟨h, ⟨hp, hs⟩, fun _ => rfl, fun _ => rfl, fun hn => absurd ⟨hp, hs⟩ hn⟩
      exact Or.inr ⟨pg, hold, rfl⟩
    | true =>
      rcases h.split flags hp hs with heq | ⟨pg₁, heq, ht⟩
      · rw [heq]
        exact Or.inl rfl
      · rw [heq]
        dsimp only
        rw [if_neg (by simp), tableForMap, if_pos ht.isTable.1]
        exact Or.inr ⟨pg₁, ht, rfl⟩

end Alone

/-! ## Runs on one directory -/

/-- A call on the directory. -/
inductive DirOp where
  | map4mb (va pa flags : Nat)
  | map4kb (va pa flags : Nat)
  | unmap4kb (va : Nat)

/-- What a call does to the directory at `cr3`. -/
def DirOp.exec (L : Layout) (cr3 : Nat) (pg : Paging) : DirOp → Paging
  | .map4mb va pa flags => archMap4mb pg cr3 va pa flags
  | .map4kb va pa flags => (archMap4kb L pg cr3 va pa flags).2
  | .unmap4kb va => archUnmap4kb pg cr3 va

/-- Addresses are words. -/
def DirOp.Word : DirOp → Prop
  | .map4mb va pa _ => va < 2 ^ 32 ∧ pa < 2 ^ 32
  | .map4kb va pa _ => va < 2 ^ 32 ∧ pa < 2 ^ 32
  | .unmap4kb va => va < 2 ^ 32

/-- No 4 MB page is unmapped as if it was a page of a table. -/
def DirOp.Tame (cr3 : Nat) (pg : Paging) : DirOp → Prop
  | .unmap4kb va => ¬((pg.table (cr3 / 4096) (pdIndex va)).present = true ∧
      (pg.table (cr3 / 4096) (pdIndex va)).pageSize = true)
  | _ => True

/-- All runs of the calls on the directory at `cr3`. -/
def dirSystem (L : Layout) (cr3 : Nat) : System Paging DirOp :=
  ⟨DirOp.exec L cr3, fun _ op => op.Word⟩

/-- The runs that unmap pages of tables only. -/
def tameSystem (L : Layout) (cr3 : Nat) : System Paging DirOp :=
  ⟨DirOp.exec L cr3, fun pg op => op.Word ∧ op.Tame cr3 pg⟩

namespace Alone

variable {cr3 : Nat}

theorem map4mb (h : Alone L pg (cr3 / 4096)) (va flags : Nat) {pa : Nat} (hpa : pa < 2 ^ 32) :
    Alone L (archMap4mb pg cr3 va pa flags) (cr3 / 4096) := by
  unfold archMap4mb
  split_ifs with hc
  · exact h
  simp only [Bool.or_eq_true, decide_eq_true_eq, not_or, not_not] at hc
  generalize he : ({ Entry.zero with
    pageSize := true
    present := flags.testBit 0
    rw := flags.testBit 1
    user := flags.testBit 2
    pwt := flags.testBit 3
    pcd := flags.testBit 4
    global := flags.testBit 8
    paddr := pa / 4096 } : Entry) = e
  have hs : e.pageSize = true := by rw [← he]
  have hpaddr : e.paddr = pa / 4096 := by rw [← he]
  -- the new entry does not point to a table
  have htable {j : Nat}
      (hj : ((pg.write (cr3 / 4096) (pdIndex va) e).table (cr3 / 4096) j).IsTable) :
      (pg.write (cr3 / 4096) (pdIndex va) e).table (cr3 / 4096) j = pg.table (cr3 / 4096) j := by
    by_cases hjx : j = pdIndex va
    · rw [hjx, write_table_self] at hj
      rw [hj.2] at hs
      cases hs
    · exact write_table_of_ne e (Or.inr hjx)
  refine ⟨h.taken, fun j hj => ?_, fun j hj => ?_, fun j k hj hk heq => ?_, fun j hj => ?_,
    fun j hj => ?_⟩
  · have heq := htable hj
    rw [heq] at hj ⊢
    exact h.held j hj
  · have heq := htable hj
    rw [heq] at hj ⊢
    exact h.apart j hj
  · grind [h.inj]
  · have heq := htable hj
    rw [heq] at hj ⊢
    exact h.rw j hj
  · by_cases hjx : j = pdIndex va
    · rw [hjx, write_table_self, hpaddr]
      omega
    · rw [write_table_of_ne e (Or.inr hjx)] at hj ⊢
      exact h.big j hj

theorem unmap (h : Alone L pg (cr3 / 4096)) {va : Nat}
    (htame : ¬((pg.table (cr3 / 4096) (pdIndex va)).present = true ∧
      (pg.table (cr3 / 4096) (pdIndex va)).pageSize = true)) :
    Alone L (archUnmap4kb pg cr3 va) (cr3 / 4096) := by
  unfold archUnmap4kb
  dsimp only
  split_ifs with habs hpte
  · exact h
  · exact h
  · simp only [Bool.or_eq_true, not_or, Bool.not_eq_true'] at habs
    have hp : (pg.table (cr3 / 4096) (pdIndex va)).present = true := by simpa using habs.2
    have ht : (pg.table (cr3 / 4096) (pdIndex va)).IsTable :=
      ⟨hp, eq_false_of_ne_true fun hs => htame ⟨hp, hs⟩⟩
    exact h.write_table ht _ _

theorem exec (hcr3 : cr3 ≠ 0) (h : Alone L pg (cr3 / 4096)) {op : DirOp} (hword : op.Word)
    (htame : op.Tame cr3 pg) : Alone L (op.exec L cr3 pg) (cr3 / 4096) := by
  cases op with
  | map4mb va pa flags => exact h.map4mb va flags hword.2
  | map4kb va pa flags =>
    change Alone L (archMap4kb L pg cr3 va pa flags).2 (cr3 / 4096)
    rcases h.map flags hcr3 va pa with heq | ⟨pg₁, ht, heq⟩
    · rw [heq]
      exact h
    · rw [heq]
      exact ht.alone.write_table ht.isTable _ _
  | unmap4kb va => exact h.unmap htame

/-- A directory without entries, in a frame that the pool does not hand out. -/
theorem empty (htable : pg.table d = fun _ => .zero)
    (htaken : ∀ i, pg.poolUsed i = false → d ≠ L.poolFrame i) : Alone L pg d := by
  have hno (i : Nat) : ¬(pg.table d i).IsTable := by
    rw [htable]
    exact Entry.not_isTable_zero
  refine ⟨htaken, fun i hi => absurd hi (hno i), fun i hi => absurd hi (hno i),
    fun i j hi => absurd hi (hno i), fun i hi => absurd hi (hno i), fun i hi => ?_⟩
  rw [htable] at hi
  cases hi

end Alone

/-- Two addresses of one page have the same indices, and others have not. -/
theorem indices_iff_page {va va' : Nat} (h : va < 2 ^ 32) (h' : va' < 2 ^ 32) :
    (pdIndex va' = pdIndex va ∧ ptIndex va' = ptIndex va) ↔ va' / 4096 = va / 4096 := by
  unfold pdIndex ptIndex
  omega

/-- The walk after a page has been mapped. -/
theorem walk_map {cr3 va pa flags : Nat} (h : Alone L pg (cr3 / 4096)) (hcr3 : cr3 ≠ 0)
    (hva : va < 2 ^ 32) (hpresent : flags.testBit 0 = true)
    (hret : (archMap4kb L pg cr3 va pa flags).1 = 0) :
    ∃ user, (user = true ↔ ((pg.table (cr3 / 4096) (pdIndex va)).IsTable →
        (pg.table (cr3 / 4096) (pdIndex va)).user = true) ∨ flags.testBit 2 = false) ∧
      ∀ va' < 2 ^ 32, walk (archMap4kb L pg cr3 va pa flags).2 cr3 va' =
        if va' / 4096 = va / 4096 then
          some ⟨pa / 4096, flags.testBit 1, user && flags.testBit 2⟩
        else walk pg cr3 va' := by
  rcases h.map flags hcr3 va pa with heq | ⟨pg₁, ht, heq⟩
  · rw [heq] at hret
    exact absurd hret eNomem_ne_zero
  · have hrw := ht.alone.rw _ ht.isTable
    refine ⟨(pg₁.table (cr3 / 4096) (pdIndex va)).user || !flags.testBit 2, ?_, fun va' hva' => ?_⟩
    · grind [ht.old, ht.new]
    · grind [ht.alone.walk_write_table, ht.isTable, ht.walk_eq, indices_iff_page, compose, mapPte]

/-- Over runs that unmap pages of tables only, mapping a page for which 0 is returned gives its page
exactly the frame and the rights that were asked for, and leaves the translation of every other
page, if and only if it does not ask for user access below a table that has been made without. -/
theorem archMap4kb_exact (L : Layout) (cr3 : Nat) (hcr3 : cr3 ≠ 0) (start : Paging)
    (hzero : start.table (cr3 / 4096) = fun _ => .zero)
    (htaken : ∀ i, start.poolUsed i = false → cr3 / 4096 ≠ L.poolFrame i) (ops : List DirOp)
    (hops : (tameSystem L cr3).Legal start ops) (va pa flags : Nat) (hva : va < 2 ^ 32)
    (hpresent : flags.testBit 0 = true) :
    let pg := (tameSystem L cr3).run start ops
    let pg' := (archMap4kb L pg cr3 va pa flags).2
    (archMap4kb L pg cr3 va pa flags).1 = 0 →
      (((∀ va' < 2 ^ 32, va' / 4096 = va / 4096 →
            walk pg' cr3 va' = some ⟨pa / 4096, flags.testBit 1, flags.testBit 2⟩) ∧
          ∀ va' < 2 ^ 32, va' / 4096 ≠ va / 4096 → walk pg' cr3 va' = walk pg cr3 va') ↔
        (flags.testBit 2 = true →
          ¬((pg.table (cr3 / 4096) (pdIndex va)).IsTable ∧
            (pg.table (cr3 / 4096) (pdIndex va)).user = false))) := by
  intro pg pg' hret
  have h : Alone L pg (cr3 / 4096) :=
    System.run_invariant (M := tameSystem L cr3) (I := fun pg => Alone L pg (cr3 / 4096))
      (fun _ _ h hop => h.exec hcr3 hop.1 hop.2) (Alone.empty hzero htaken) hops
  obtain ⟨user, huser, hwalk⟩ := walk_map h hcr3 hva hpresent hret
  constructor
  · grind
  · grind

/-- A directory without entries in the frame at 0x01400000, which is a slot of the pool. -/
def emptyDir : Paging := ⟨fun _ _ => .zero, fun i => i == 734, true, 0⟩

theorem emptyDir_taken (i : Nat) (hi : emptyDir.poolUsed i = false) :
    0x01400000 / 4096 ≠ Layout.documented.poolFrame i := by
  have hne : i ≠ 734 := by
    rintro rfl
    cases hi
  unfold Layout.poolFrame Layout.documented
  dsimp only
  omega

/-- Two pages for the user in one table. -/
theorem archMap4kb_exact_user :
    (archMap4kb .documented (DirOp.exec .documented 0x01400000 emptyDir
        (.map4kb 0xC1000000 0x5000 7)) 0x01400000 0xC1001000 0x6000 7).1 = 0 ∧
      walk (archMap4kb .documented (DirOp.exec .documented 0x01400000 emptyDir
        (.map4kb 0xC1000000 0x5000 7)) 0x01400000 0xC1001000 0x6000 7).2 0x01400000 0xC1001000 =
          some ⟨6, true, true⟩ := by
  have hret : (archMap4kb .documented (DirOp.exec .documented 0x01400000 emptyDir
      (.map4kb 0xC1000000 0x5000 7)) 0x01400000 0xC1001000 0x6000 7).1 = 0 := by decide +kernel
  have hexact := archMap4kb_exact .documented 0x01400000 (by decide) emptyDir rfl emptyDir_taken
    [.map4kb 0xC1000000 0x5000 7] ⟨⟨⟨by decide, by decide⟩, trivial⟩, trivial⟩ 0xC1001000 0x6000 7
    (by decide) rfl hret
  refine ⟨hret, (hexact.mpr fun _ hn => ?_).1 0xC1001000 (by decide) rfl⟩
  exact absurd hn.2 (by decide +kernel)

/-- A page of the kernel is mapped. -/
def kernelPageOps : List DirOp := [.map4kb 0xC1000000 0x5000 3]

/-- The directory is mapped as part of a 4 MB page, and that page is unmapped as if it was a page of
a table. -/
def recursiveOps : List DirOp :=
  [.map4mb 0 0 3, .map4mb 0x00400000 0x00400000 3, .map4mb 0x01400000 0x01400000 3,
    .unmap4kb 0x01400000]

/-- The directory after a run. -/
def dirAfter (ops : List DirOp) : Paging := (dirSystem .documented 0x01400000).run emptyDir ops

/-- A page for the user in the table of a page of the kernel: the call returns 0, and the user
cannot reach the page. And a directory whose entry 0 points to itself: the call returns 0, and
another page has moved. -/
theorem archMap4kb_not_exact :
    ((dirSystem .documented 0x01400000).Legal emptyDir kernelPageOps ∧
        (archMap4kb .documented (dirAfter kernelPageOps) 0x01400000 0xC1001000 0x6000 7).1 = 0 ∧
        walk (archMap4kb .documented (dirAfter kernelPageOps) 0x01400000 0xC1001000 0x6000 7).2
          0x01400000 0xC1001000 = some ⟨6, true, false⟩) ∧
      (dirSystem .documented 0x01400000).Legal emptyDir recursiveOps ∧
      (archMap4kb .documented (dirAfter recursiveOps) 0x01400000 0x1000 0x6000 3).1 = 0 ∧
      walk (dirAfter recursiveOps) 0x01400000 0x00400000 = some ⟨0x400, true, false⟩ ∧
      walk (archMap4kb .documented (dirAfter recursiveOps) 0x01400000 0x1000 0x6000 3).2 0x01400000
        0x00400000 = none := by
  refine ⟨⟨⟨⟨by decide, by decide⟩, trivial⟩, ?_, ?_⟩, ⟨⟨by decide, by decide⟩,
    ⟨by decide, by decide⟩, ⟨by decide, by decide⟩, ?_, trivial⟩, ?_, ?_, ?_⟩
  · decide +kernel
  · decide +kernel
  · change (0x01400000 : Nat) < 2 ^ 32
    decide
  · decide +kernel
  · decide +kernel
  · decide +kernel

end Ukernel.Arch
