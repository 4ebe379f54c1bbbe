import Ukernel.Arch.Paging

/-!
# Ranges of user memory

`arch/i386/mem.c`: before the kernel reads or writes through an address that a user has passed, it
walks the page tables over the whole range. The loop goes from page to page, and a 4 MB entry is
looked at once for each of the 4 KB pages of the range that it covers.

What the loop decides is said byte by byte: `UserByte` is about a single address, and depends only
on the page that the address lies in.

## Main definitions

* `archValidateUserRange`: the check
* `UserByte`: a byte that user mode may access

## Main results

* `validateLoop_spec`: the loop ends, and decides whether every byte of the range is accessible
* `archValidateUserRange_exact`: the check is exact
-/

namespace Ukernel.Arch

variable {pg : Paging} {cr3 : Nat} {forWrite : Bool}

/-- The bits of an entry that the check looks at. -/
def Entry.allows (e : Entry) (forWrite : Bool) : Bool :=
  !(!e.present || !e.user || (forWrite && !e.rw))

/-- The body of the loop: whether the entries for `addr` allow the access. A 4 MB entry has no
table below it; its bits are looked at once more. -/
def entriesAllow (pg : Paging) (cr3 : Nat) (forWrite : Bool) (addr : Nat) : Bool :=
  let pde := pg.table (cr3 / 4096) (pdIndex addr)
  if !pde.allows forWrite then false
  else if pde.pageSize then !(!pde.user || (forWrite && !pde.rw))
  else (pg.table pde.paddr (ptIndex addr)).allows forWrite

/-- The loop of `arch_validate_user_range`; no result stands for a loop that has not ended. -/
def validateLoop (pg : Paging) (cr3 : Nat) (forWrite : Bool) :
    (fuel addr n : Nat) → Option Bool
  | 0, _, _ => none
  | fuel + 1, addr, n =>
    if n = 0 then some true
    else if !entriesAllow pg cr3 forWrite addr then some false
    else
      let remain := min (4096 - addr % 4096) n
      validateLoop pg cr3 forWrite fuel ((addr + remain) % 2 ^ 32) (n - remain)

/-- `arch_validate_user_range`, with the directory that is active. -/
def archValidateUserRange (pg : Paging) (cr3 addr n : Nat) (forWrite : Bool) : Option Bool :=
  if n = 0 then some true
  else if (addr + n) % 2 ^ 32 < addr then some false
  else if addr ≥ userSpaceTop ∨ (addr + n) % 2 ^ 32 > userSpaceTop then some false
  else validateLoop pg cr3 forWrite (n + 1) addr n

/-- A present entry that is open to user mode, and writable where that is asked for. -/
structure Entry.Open (e : Entry) (forWrite : Bool) : Prop where
  present : e.present = true
  user : e.user = true
  rw : forWrite = true → e.rw = true

/-- The byte at an address is covered by an open directory entry, and by an open table entry where
the directory entry is not a 4 MB one. -/
structure UserByte (pg : Paging) (cr3 : Nat) (forWrite : Bool) (addr : Nat) : Prop where
  pde : (pg.table (cr3 / 4096) (pdIndex addr)).Open forWrite
  pte : (pg.table (cr3 / 4096) (pdIndex addr)).pageSize = true ∨
    (pg.table (pg.table (cr3 / 4096) (pdIndex addr)).paddr (ptIndex addr)).Open forWrite

theorem Entry.allows_iff (e : Entry) : e.allows forWrite = true ↔ e.Open forWrite := by
  unfold Entry.allows
  constructor
  · intro h
    refine ⟨?_, ?_, ?_⟩ <;> revert h <;>
      cases e.present <;> cases e.user <;> cases e.rw <;> cases forWrite <;> decide
  · rintro ⟨hp, hu, hrw⟩
    rw [hp, hu]
    cases forWrite with
    | false => rfl
    | true => rw [hrw rfl]; rfl

theorem entriesAllow_iff (addr : Nat) :
    entriesAllow pg cr3 forWrite addr = true ↔ UserByte pg cr3 forWrite addr := by
  unfold entriesAllow
  dsimp only
  cases hpde : (pg.table (cr3 / 4096) (pdIndex addr)).allows forWrite with
  | false =>
    refine ⟨fun h => absurd h Bool.false_ne_true, fun h => ?_⟩
    rw [(Entry.allows_iff _).mpr h.pde] at hpde
    cases hpde
  | true =>
    have hopen := (Entry.allows_iff _).mp hpde
    rw [if_neg (by decide)]
    split_ifs with hps
    · -- the bits of a 4 MB entry have been looked at already
      refine ⟨fun _ => ⟨hopen, Or.inl hps⟩, fun _ => ?_⟩
      rw [hopen.user]
      cases forWrite with
      | false => rfl
      | true => rw [hopen.rw rfl]; rfl
    · rw [Entry.allows_iff]
      exact ⟨fun h => ⟨hopen, Or.inr h⟩, fun h => h.pte.resolve_left hps⟩

/-- Bytes of one page are alike. -/
theorem UserByte.of_page {a b : Nat} (h : UserByte pg cr3 forWrite a) (hab : a / 4096 = b / 4096) :
    UserByte pg cr3 forWrite b := by
  have hpd : pdIndex a = pdIndex b := by
    unfold pdIndex
    omega
  have hpt : ptIndex a = ptIndex b := by
    unfold ptIndex
    omega
  obtain ⟨hpde, hpte⟩ := h
  rw [hpd] at hpde hpte
  rw [hpt] at hpte
  exact ⟨hpde, hpte⟩

/-- The loop ends, and decides whether every byte of the range is accessible. -/
theorem validateLoop_spec {fuel addr n : Nat} (hfuel : n < fuel) (hend : addr + n < 2 ^ 32) :
    ∃ ok, validateLoop pg cr3 forWrite fuel addr n = some ok ∧
      (ok = true ↔ ∀ a, addr ≤ a → a < addr + n → UserByte pg cr3 forWrite a) := by
  induction fuel generalizing addr n with
  | zero => exact absurd hfuel (Nat.not_lt_zero n)
  | succ fuel ih =>
    unfold validateLoop
    by_cases hn : n = 0
    · exact ⟨true, if_pos hn, by simp; omega⟩
    rw [if_neg hn]
    cases hallow : entriesAllow pg cr3 forWrite addr with
    | false =>
      -- the first byte is not accessible
      refine ⟨false, rfl, fun h => absurd h Bool.false_ne_true, fun h => ?_⟩
      rw [(entriesAllow_iff addr).mpr (h addr (Nat.le_refl _) (by omega))] at hallow
      cases hallow
    | true =>
      dsimp only
      obtain ⟨remain, hremain⟩ : ∃ r, r = min (4096 - addr % 4096) n := ⟨_, rfl⟩
      rw [← hremain, Nat.mod_eq_of_lt (show addr + remain < 2 ^ 32 by omega)]
      obtain ⟨ok, hloop, hok⟩ :=
        ih (show n - remain < fuel by omega) (show addr + remain + (n - remain) < 2 ^ 32 by omega)
      have hfirst := (entriesAllow_iff addr).mp hallow
      refine ⟨ok, hloop, hok.trans ⟨fun h a h₁ h₂ => ?_, fun h a h₁ h₂ => ?_⟩⟩
      · grind [hfirst.of_page]
      · exact h a (by omega) (by omega)

/-- The check returns, and accepts exactly the ranges that lie in user space and all of whose bytes
user mode may access. -/
theorem archValidateUserRange_spec (pg : Paging) (cr3 : Nat) (forWrite : Bool) {addr n : Nat}
    (hn : 0 < n) (ha : addr < 2 ^ 32) (hlt : n < 2 ^ 32) :
    ∃ ok, archValidateUserRange pg cr3 addr n forWrite = some ok ∧
      (ok = true ↔ addr + n ≤ userSpaceTop ∧
        ∀ a, addr ≤ a → a < addr + n → UserByte pg cr3 forWrite a) := by
  have htop : userSpaceTop < 2 ^ 32 := by decide
  unfold archValidateUserRange
  rw [if_neg (by omega)]
  split_ifs with hwrap hout
  · grind
  · grind
  · obtain ⟨ok, hloop, hok⟩ : ∃ ok, validateLoop pg cr3 forWrite (n + 1) addr n = some ok ∧ _ :=
      validateLoop_spec (Nat.lt_succ_self n) (show addr + n < 2 ^ 32 by omega)
    exact ⟨ok, hloop, hok.trans ⟨fun h => ⟨by omega, h⟩, fun h => h.2⟩⟩

/-- Validation is exact, for any contents of the directories and tables: it accepts a range if and
only if the range ends in user space and every byte of it is covered by a present user entry of the
directory that is a 4 MB page or leads to a present user entry of a table, all of them writable
where that is asked for. It rejects every other range. -/
theorem archValidateUserRange_exact (pg : Paging) (cr3 addr n : Nat) (forWrite : Bool)
    (ha : addr < 2 ^ 32) (hlt : n < 2 ^ 32) (hn : 0 < n) :
    (archValidateUserRange pg cr3 addr n forWrite = some true ↔
        addr + n ≤ userSpaceTop ∧ ∀ a, addr ≤ a → a < addr + n →
          let pde := pg.table (cr3 / 4096) (pdIndex a)
          let pte := pg.table pde.paddr (ptIndex a)
          (pde.present = true ∧ pde.user = true ∧ (forWrite = true → pde.rw = true)) ∧
            (pde.pageSize = true ∨
              pte.present = true ∧ pte.user = true ∧ (forWrite = true → pte.rw = true))) ∧
      archValidateUserRange pg cr3 addr n forWrite ≠ none := by
  have hopen (e : Entry) : e.Open forWrite ↔
      e.present = true ∧ e.user = true ∧ (forWrite = true → e.rw = true) :=
    ⟨fun h => ⟨h.present, h.user, h.rw⟩, fun h => ⟨h.1, h.2.1, h.2.2⟩⟩
  obtain ⟨ok, heq, hok⟩ := archValidateUserRange_spec pg cr3 forWrite hn ha hlt
  rw [heq, Option.some.injEq, hok]
  refine ⟨and_congr_right fun _ => forall_congr' fun a => ?_, Option.some_ne_none ok⟩
  refine imp_congr_right fun _ => imp_congr_right fun _ => ?_
  dsimp only
  rw [← hopen, ← hopen]
  exact ⟨fun h => ⟨h.pde, h.pte⟩, fun h => ⟨h.1, h.2⟩⟩

/-- A directory in frame 1 whose entry 0 is a 4 MB user page that is not writable. -/
def readOnly4mb : Paging where
  table := Function.update (fun _ _ => .zero) 1
    (Function.update (fun _ => .zero) 0
      { Entry.zero with present := true, user := true, pageSize := true })
  poolUsed := fun _ => false
  poolLock := false
  kernelPdirPhys := 0

/-- Two pages of it may be read, and not written. -/
theorem archValidateUserRange_exact_readOnly :
    archValidateUserRange readOnly4mb 4096 4000 200 false = some true ∧
      archValidateUserRange readOnly4mb 4096 4000 200 true ≠ some true := by
  constructor
  · refine (archValidateUserRange_exact readOnly4mb 4096 4000 200 false (by decide) (by decide)
      (by decide)).1.mpr ⟨by decide, fun a _ h₂ => ?_⟩
    have hpd : pdIndex a = 0 := by
      unfold pdIndex
      omega
    rw [hpd]
    exact ⟨by decide, Or.inl (by decide)⟩
  · intro h
    have hall := ((archValidateUserRange_exact readOnly4mb 4096 4000 200 true (by decide)
      (by decide) (by decide)).1.mp h).2 4000 (by decide) (by decide)
    exact absurd (hall.1.2.2 rfl) (by decide)

end Ukernel.Arch
