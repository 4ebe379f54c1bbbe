import Ukernel.Ipc.ShmUndo

/-!
# Shares beside each other

Several buffers are shared with one process at a time: every open call of a portal shares the
caller's message with the process that answers. Whether a share succeeds should not depend on the
others, as long as there are memory and room for it.

## Where shares are in each other's way

A share comes with a capability for the pages of the buffer, and a process cannot get the same
capability twice. Buffers that lie on the same pages have the same capability: while one of them is
shared, the other one cannot be.

## Main definitions

* `Buffer.pages`: the capability for the pages of a buffer
* `outstanding`: shares that have succeeded and have not been ended
* `Enough`: memory, room and page tables for one more region

## Main results

* `Beside.offers`: the caller's side does not depend on the outstanding shares
* `share_beside_others`: a share that succeeds beside some shares succeeds beside others just if
  none of these has the same capability
-/

namespace Ukernel.Ipc

open Arch Kernel Lib Machine Mm VmmRegion Resources

variable {L : Layout} {b s s' : State} {c c' t t' : Pcb} {curr pid va size pa : Nat} {cmem : CapMem}

/-- `size` bytes at `va` of a process. -/
structure Buffer where
  owner : Nat
  va : Nat
  size : Nat

/-- The capability for the pages of a buffer. -/
def Buffer.pages (s : State) (x : Buffer) : Option CapMem :=
  (s.procs x.owner).map fun c =>
    let pa := vmmVaToPa s.mm c x.va
    ⟨pageMask pa, pageMask ((x.size + (pa - pageMask pa) + 4095) % 2 ^ 32), pteUserPage⟩

/-- Buffers are shared with the process `pid` one after the other, and all shares succeed. -/
def outstanding (L : Layout) (pid : Nat) : List Buffer → State → Option (List CapMem × State)
  | [], s => some ([], s)
  | x :: xs, s =>
    match x.pages s, shmShare L s x.owner pid x.va x.size with
    | some m, (.ok _, s') => (outstanding L pid xs s').map fun res => (m :: res.1, res.2)
    | _, _ => none

/-- The heap has a block for the capability and one for the region, there is room for the region,
and the pool has its tables. -/
structure Enough (s : State) (t : Pcb) (m : CapMem) : Prop where
  entry : s.mm.kmalloc.1 ≠ 0
  node : s.mm.kmalloc.2.kmalloc.1 ≠ 0
  room : ∃ a, chooseVa s.mm.fuel t.vcb m.base (reserveFits m.size) m.size = some a ∧
    Supplied s.mm.paging t.vcb.dir (a / 4096) (m.size / 4096)

/-! ## What outstanding shares change -/

theorem capCheck_eq_zero_iff {caps : List Capability} {args : Cap} :
    capCheck caps args = 0 ↔ ∃ e ∈ caps, e.cap.check args = 0 := by
  unfold capCheck
  split_ifs with hany
  · grind
  · refine iff_of_false (by decide) fun ⟨e, he, hcheck⟩ => hany ?_
    exact List.any_eq_true.mpr ⟨e, he, beq_iff_eq.mpr hcheck⟩

/-- A process has more regions and capabilities than before, and of the capabilities only those for
pages are new. -/
structure Grown (mm : Resources) (p : Pcb) (ms : List CapMem) (mm' : Resources) (p' : Pcb) :
    Prop where
  priv : p'.priv = p.priv
  regions : ∀ r ∈ p.regions mm, r ∈ p'.regions mm'
  capabilities : ∀ a, (∃ e ∈ p'.capabilities, e.cap = a) ↔
    (∃ e ∈ p.capabilities, e.cap = a) ∨ ∃ m ∈ ms, a = .mapMem m

theorem Grown.ipc {mm mm' : Resources} {p p' : Pcb} {ms : List CapMem}
    (h : Grown mm p ms mm' p') :
    capCheck p'.capabilities (.ipc 1) = 0 ↔ capCheck p.capabilities (.ipc 1) = 0 := by
  rw [capCheck_eq_zero_iff, capCheck_eq_zero_iff]
  constructor
  · rintro ⟨e, he, hcheck⟩
    rcases (h.capabilities e.cap).mp ⟨e, he, rfl⟩ with ⟨e', he', heq⟩ | ⟨m, -, heq⟩
    · exact ⟨e', he', by rw [heq]; exact hcheck⟩
    · -- a capability for pages is none for messages
      rw [heq] at hcheck
      exact absurd hcheck ePerm_ne_zero
  · rintro ⟨e, he, hcheck⟩
    obtain ⟨e', he', heq⟩ := (h.capabilities e.cap).mpr (Or.inl ⟨e, he, rfl⟩)
    exact ⟨e', he', by rw [heq]; exact hcheck⟩

theorem Grown.refl (mm : Resources) (p : Pcb) : Grown mm p [] mm p :=
  ⟨rfl, fun _ hr => hr, fun _ => by simp⟩

theorem Grown.trans {mm mm₁ mm₂ : Resources} {p p₁ p₂ : Pcb} {ms ms' : List CapMem}
    (h : Grown mm p ms mm₁ p₁) (h' : Grown mm₁ p₁ ms' mm₂ p₂) : Grown mm p (ms ++ ms') mm₂ p₂ := by
  refine ⟨h'.priv.trans h.priv, fun r hr => h'.regions r (h.regions r hr), fun a => ?_⟩
  rw [h'.capabilities, h.capabilities, or_assoc]
  simp only [List.mem_append, or_and_right, exists_or]

/-- What a share does to its target. -/
theorem Placed.grown {addr : Nat} {r : VmmRegion} (h : Placed L s pid t cmem addr r s' t') :
    Grown s.mm t [cmem] s'.mm t' := by
  refine ⟨h.priv, fun r' hr' => h.regions.mem_iff.mpr (List.mem_cons_of_mem _ hr'), fun a => ?_⟩
  rw [h.capabilities]
  simp only [List.mem_cons, exists_eq_or_imp, List.not_mem_nil, or_false, exists_eq_left]
  rw [or_comm, eq_comm]

theorem Offers.buffer_pages {x : Buffer} (hc : s.procs x.owner = some c)
    (ho : Offers s.mm c x.va x.size pa cmem) : x.pages s = some cmem := by
  rw [Buffer.pages, hc, ho.pages]
  simp only [Option.map_some, ho.address]

/-- The state differs from `b` only by shares of the pages `ms` with the process `pid`. -/
structure Beside (L : Layout) (pid : Nat) (b : State) (ms : List CapMem) (s : State) : Prop where
  sane : Sane L s
  calls : b.mm.kheap.calls ≤ s.mm.kheap.calls
  others : ∀ id ≠ pid, s.procs id = b.procs id
  target : (b.procs pid = none ∧ s.procs pid = none) ∨
    ∃ t t', b.procs pid = some t ∧ s.procs pid = some t' ∧ Grown b.mm t ms s.mm t'

namespace Beside

variable {ms ms' : List CapMem}

theorem refl (hs : Sane L s) : Beside L pid s [] s := by
  refine ⟨hs, Nat.le_refl _, fun _ _ => rfl, ?_⟩
  cases ht : s.procs pid with
  | none => exact Or.inl ⟨rfl, rfl⟩
  | some t => exact Or.inr ⟨t, t, rfl, rfl, Grown.refl _ _⟩

variable (h : Beside L pid b ms s)

include h

/-- The target, if it is there after the shares. -/
theorem grown (ht : s.procs pid = some t) :
    ∃ t₀, b.procs pid = some t₀ ∧ Grown b.mm t₀ ms s.mm t := by
  rcases h.target with ⟨-, hnone⟩ | ⟨t₀, t', ht₀, ht', hgrown⟩
  · rw [ht] at hnone
    cases hnone
  · cases ht.symm.trans ht'
    exact ⟨t₀, ht₀, hgrown⟩

/-- One more share. -/
theorem share {addr : Nat} {r : VmmRegion} (ht : s.procs pid = some t)
    (hp : Placed L s pid t cmem addr r s' t') : Beside L pid b (ms ++ [cmem]) s' := by
  refine ⟨hp.sane, Nat.le_trans h.calls hp.calls, fun id hid => ?_, Or.inr ?_⟩
  · rw [hp.procs, Function.update_of_ne hid, h.others id hid]
  · obtain ⟨t₀, ht₀, hgrown⟩ := h.grown ht
    exact ⟨t₀, t', ht₀, by rw [hp.procs, Function.update_self], hgrown.trans hp.grown⟩

/-- Shares one after the other. -/
theorem run {xs : List Buffer} (hrun : outstanding L pid xs s = some (ms', s')) :
    Beside L pid b (ms ++ ms') s' := by
  induction xs generalizing s ms ms' with
  | nil =>
    cases hrun
    rwa [List.append_nil]
  | cons x xs ih =>
    unfold outstanding at hrun
    split at hrun
    · rename_i m outVa s₁ hpages hok
      obtain ⟨res, hres, heq⟩ := Option.map_eq_some_iff.mp hrun
      obtain ⟨c, t, pa, cmem, _, _, _, _, hc, ht, ho, -, -, -, hplaced⟩ :=
        placed_of_shmShare h.sane hok
      obtain rfl : cmem = m := Option.some.inj ((ho.buffer_pages hc).symm.trans hpages)
      cases heq
      have hrest := ih (h.share ht hplaced) hres
      rwa [List.append_assoc] at hrest
    · cases hrun

/-- A process that is there after the shares was there before, with fewer regions and
capabilities. -/
theorem process (hb : Sane L b) (hc : s.procs curr = some c) :
    ∃ c₀, b.procs curr = some c₀ ∧ c.priv = c₀.priv ∧
      (capCheck c.capabilities (.ipc 1) = 0 ↔ capCheck c₀.capabilities (.ipc 1) = 0) ∧
      (∀ r ∈ c₀.regions b.mm, r ∈ c.regions s.mm) ∧
      (curr ≠ pid → c.regions s.mm = c₀.regions b.mm) := by
  by_cases hcp : curr = pid
  · subst hcp
    obtain ⟨c₀, hc₀, hgrown⟩ := h.grown hc
    exact ⟨c₀, hc₀, hgrown.priv, hgrown.ipc, hgrown.regions, fun hno => absurd rfl hno⟩
  · rw [h.others curr hcp] at hc
    have hregions : c.regions s.mm = c.regions b.mm :=
      (hb.sound curr c hc).tree.regions_congr (Nat.lt_succ_self _) (Nat.lt_succ_of_le h.calls)
    refine ⟨c, hc, rfl, Iff.rfl, fun r hr => ?_, fun _ => hregions⟩
    rw [hregions]
    exact hr

/-- The shares take no process away. -/
theorem exists_process (hc : b.procs curr = some c) :
    ∃ c', s.procs curr = some c' := by
  by_cases hcp : curr = pid
  · grind [h.target]
  · exact ⟨c, (h.others curr hcp).trans hc⟩

end Beside

/-! ## The caller's side -/

/-- What is offered depends on the region of the buffer, and on the rights of the caller. -/
theorem Offers.transfer {dirs dirs' : Set Nat} {mm mm' : Resources} {src : VmmRegion}
    (ho : Offers mm c va size pa cmem) (hp : c.Laid L dirs mm) (hp' : c'.Laid L dirs' mm')
    (hsrc : src ∈ c.regions mm) (hsrc' : src ∈ c'.regions mm') (hva : src.contains va = true)
    (hipc : ¬(c'.priv ≠ .kernel ∧ capCheck c'.capabilities (.ipc 1) ≠ 0)) :
    Offers mm' c' va size pa cmem := by
  have hne : va ≠ 0 := ((vmmVaToPa_spec hp va).resolve_left (ho.address.symm ▸ ho.mapped)).1
  obtain ⟨src₀, hlookup, hbounds⟩ := ho.source
  obtain rfl : src = src₀ :=
    Option.some.inj ((vmmLookupRegion_of_mem hp.apart hsrc hva).symm.trans hlookup)
  refine ⟨ho.nonempty, hipc, ?_, ho.mapped, ho.pages, src, ?_, hbounds⟩
  · rw [vmmVaToPa_of_mem hp' hne hsrc' hva, ← ho.address, vmmVaToPa_of_mem hp hne hsrc hva]
  · exact vmmLookupRegion_of_mem hp'.apart hsrc' hva

/-- What is offered beside some shares is offered beside others, if the buffer does not lie in one
of the shares itself. -/
theorem Beside.offers {ms ms' : List CapMem} (hb : Sane L b) (h : Beside L pid b ms s)
    (h' : Beside L pid b ms' s')
    (hsrc : curr = pid → ∃ src ∈ b.regions curr, src.contains va = true)
    (hc : s.procs curr = some c) (ho : Offers s.mm c va size pa cmem) :
    ∃ c', s'.procs curr = some c' ∧ Offers s'.mm c' va size pa cmem := by
  obtain ⟨c₀, hc₀, hpriv, hipc, hregions, heq⟩ := h.process hb hc
  obtain ⟨c', hc'⟩ := h'.exists_process hc₀
  obtain ⟨c₁, hc₁, hpriv', hipc', hregions', -⟩ := h'.process hb hc'
  cases hc₀.symm.trans hc₁
  obtain ⟨src, hmem, hva⟩ : ∃ src ∈ c₀.regions b.mm, src.contains va = true := by
    by_cases hcp : curr = pid
    · rw [← State.regions_of_some hc₀]
      exact hsrc hcp
    · -- nothing is shared with the caller
      obtain ⟨src, hlookup, -⟩ := ho.source
      rw [← heq hcp]
      exact ⟨src, vmmLookupRegion_some hlookup⟩
  refine ⟨c', hc', ho.transfer (h.sane.sound _ c hc).laid (h'.sane.sound _ c' hc').laid
    (hregions src hmem) (hregions' src hmem) hva fun hno => ho.ipc ⟨?_, ?_⟩⟩
  · rw [hpriv, ← hpriv']
    exact hno.1
  · rw [ne_eq, hipc, ← hipc']
    exact hno.2

/-! ## The target's side -/

/-- The capability for the pages of a buffer covers the buffer. -/
theorem Offers.covers {mm : Resources} (ho : Offers mm c va size pa cmem)
    (hbound : ¬(size = 0 ∨ size > 0xffffffff - (pa - pageMask pa) - 4095)) :
    cmem.size = pageMask (size + (pa - pageMask pa) + 4095) ∧
      Cap.check (.mapMem cmem) (.mapMem ⟨pa, size, pteUserPage⟩) = 0 := by
  have hlt := ho.pa_lt
  have hle := pageMask_le pa
  have hmod : (size + (pa - pageMask pa) + 4095) % 2 ^ 32 = size + (pa - pageMask pa) + 4095 :=
    Nat.mod_eq_of_lt (by omega)
  have hpages := ho.pages
  rw [hmod] at hpages
  have hmask : size + (pa - pageMask pa) ≤ pageMask (size + (pa - pageMask pa) + 4095) := by
    unfold pageMask
    omega
  rw [hpages]
  refine ⟨rfl, ?_⟩
  unfold Cap.check capMemCheck
  dsimp only
  rw [if_neg ho.nonempty, if_neg (by decide), if_neg (by omega), if_neg (by omega),
    if_neg (by omega)]

/-- With enough memory and room, a share succeeds whose capability the target does not have. -/
theorem shmShare_succeeds (hs : Sane L s) (hc : s.procs curr = some c) (ht : s.procs pid = some t)
    (ho : Offers s.mm c va size pa cmem) (hfresh : ∀ e ∈ t.capabilities, e.cap ≠ .mapMem cmem)
    (hcheck : capMemGrantCheck cmem = 0)
    (hbound : ¬(size = 0 ∨ size > 0xffffffff - (pa - pageMask pa) - 4095))
    (henough : Enough s t cmem) :
    ∃ outVa s', shmShare L s curr pid va size = (.ok outVa, s') := by
  have hsame := same_kmalloc s.mm
  have hgrant : capGrant s.mm t.capabilities (.mapMem cmem) = _ :=
    capGrant_of_fresh hcheck hfresh henough.entry
  have hg : Granted s t cmem s.mm.kmalloc.2 s.mm.kmalloc.1 := ⟨hgrant, hsame, hcheck, hfresh⟩
  obtain ⟨hm₁, hp₁, hready⟩ := hg.ready hs ht ho
  obtain ⟨hsize, hcovers⟩ := ho.covers hbound
  have hbase : cmem.base = pageMask pa := by rw [ho.pages]
  obtain ⟨a, hchosen, hsup⟩ := henough.room
  have htries : MemoryTries s.mm.kmalloc.2 (grantee t s.mm.kmalloc.1 cmem) pa size pteUserPage
      ⟨a, cmem.size, pteUserPage, cmem.base, false⟩ := by
    refine ⟨?_, hbound, henough.node, hsize, rfl, hbase, rfl, ?_⟩
    · exact capCheck_eq_zero_iff.mpr ⟨_, List.mem_cons_self, hcovers⟩
    · exact (chooseVa_congr (hs.sound pid t ht).laid hsame.calls _ _ _).trans hchosen
  have hok := (htries.succeeds_iff (L := L) hm₁.paging hp₁.laid (hready _ htries).2.2).mpr
    (hsame.paging.symm ▸ hsup)
  rw [shmShare_of_offers hc ht ho]
  rcases shmGrantAndMap_cases L s pid t cmem pa size with
    ⟨err, mm, hno, -, -⟩ | ⟨mm, addr, hg', ⟨herr, -⟩ | ⟨-, hrun⟩⟩
  · rw [hgrant] at hno
    exact absurd rfl hno
  · grind [hg'.grant.symm]
  · exact ⟨_, _, hrun⟩

/-- A share that succeeds beside some shares with the same target succeeds beside others, if there
are memory and room for it, just if none of these is a share of the same pages. -/
theorem share_beside_others (hb : Sane L b) {xs ys : List Buffer} {ms ms' : List CapMem}
    (hxs : outstanding L pid xs b = some (ms, s)) (hys : outstanding L pid ys b = some (ms', s'))
    (hsrc : curr = pid → ∃ src ∈ b.regions curr, src.contains va = true) {outVa : Nat} {s₁ : State}
    (hok : shmShare L s curr pid va size = (.ok outVa, s₁)) {m : CapMem}
    (hm : Buffer.pages b ⟨curr, va, size⟩ = some m) (ht' : s'.procs pid = some t')
    (henough : Enough s' t' m) :
    (∃ outVa' s₂, shmShare L s' curr pid va size = (.ok outVa', s₂)) ↔ m ∉ ms' := by
  have h : Beside L pid b ms s := (Beside.refl hb).run hxs
  have h' : Beside L pid b ms' s' := (Beside.refl hb).run hys
  obtain ⟨c, t, pa, cmem, _, _, _, _, hc, ht, ho, hg, htries, -⟩ := placed_of_shmShare h.sane hok
  obtain ⟨c', hc', ho'⟩ := h.offers hb h' hsrc hc ho
  obtain ⟨c₀, hc₀, ho₀⟩ := h.offers hb (Beside.refl hb) hsrc hc ho
  obtain rfl : cmem = m := Option.some.inj ((ho₀.buffer_pages hc₀).symm.trans hm)
  obtain ⟨t₀, ht₀, hgrown⟩ := h.grown ht
  obtain ⟨t₁, ht₁, hgrown'⟩ := h'.grown ht'
  cases ht₀.symm.trans ht₁
  constructor
  · rintro ⟨outVa', s₂, hok'⟩ hmem
    obtain ⟨c₂, t₂, pa₂, cmem₂, _, _, _, _, hc₂, ht₂, ho₂, hg₂, -⟩ :=
      placed_of_shmShare h'.sane hok'
    cases hc'.symm.trans hc₂
    cases ht'.symm.trans ht₂
    obtain ⟨-, rfl⟩ := ho'.unique ho₂
    obtain ⟨e, he, heq⟩ := (hgrown'.capabilities (.mapMem cmem₂)).mpr (Or.inr ⟨_, hmem, rfl⟩)
    exact hg₂.fresh e he heq
  · intro hnew
    refine shmShare_succeeds h'.sane hc' ht' ho' (fun e he heq => ?_) hg.check
      htries.bound henough
    -- the capability would come from the base, and be in the way in the first state as well
    rcases (hgrown'.capabilities _).mp ⟨e, he, heq⟩ with hold | ⟨m, hmem, heq⟩
    · obtain ⟨e₁, he₁, heq₁⟩ := (hgrown.capabilities _).mpr (Or.inl hold)
      exact hg.fresh e₁ he₁ heq₁
    · exact hnew (Cap.mapMem.inj heq ▸ hmem)

/-! ## Three processes -/

/-- There are memory and room for one more region, and no table is missing. -/
def enough (s : State) (t : Pcb) (m : CapMem) : Bool :=
  s.mm.kmalloc.1 != 0 && s.mm.kmalloc.2.kmalloc.1 != 0 &&
    (chooseVa s.mm.fuel t.vcb m.base (reserveFits m.size) m.size).any fun a =>
      (List.range (m.size / 4096)).all fun i =>
        decide (s.mm.paging.table t.vcb.dir ((a / 4096 + i) / 1024)).IsTable

theorem Enough.of_enough (h : enough s t cmem = true) : Enough s t cmem := by
  simp only [enough, Bool.and_eq_true, bne_iff_ne, Option.any_eq_true, List.all_eq_true,
    List.mem_range, decide_eq_true_eq] at h
  obtain ⟨⟨hentry, hnode⟩, a, hchosen, htables⟩ := h
  refine ⟨hentry, hnode, a, hchosen, ?_⟩
  have hnone : tablesMissing s.mm.paging t.vcb.dir (a / 4096) (cmem.size / 4096) = ∅ := by
    grind [mem_tablesMissing]
  rw [Supplied, hnone]
  exact Nat.zero_le _

/-- Three processes with a page each, the first two as in `twoProcesses`. -/
def threeProcesses : Option State :=
  (twoProcesses userAnonBase).bind fun s => launch s 0x02002000 userAnonBase

theorem threeProcesses_sane (h : threeProcesses = some s) : Sane .documented s := by
  obtain ⟨s₁, h₁, h₂⟩ := Option.bind_eq_some_iff.mp h
  exact launch_sane (twoProcesses_sane (by decide) h₁) (by decide) (by decide) h₂

/-- Something is true when a buffer has been shared with the second process. -/
def besides (x : Buffer) (f : State → List CapMem → State → Pcb → Bool) : Bool :=
  (threeProcesses.bind fun b => (outstanding .documented 2 [x] b).bind fun res =>
    (res.2.procs 2).map (f b res.1 res.2)).getD false

theorem exists_of_besides (x : Buffer) (f : State → List CapMem → State → Pcb → Bool)
    (h : besides x f = true) : ∃ b ms s t, Sane .documented b ∧
      outstanding .documented 2 [x] b = some (ms, s) ∧ s.procs 2 = some t ∧ f b ms s t = true := by
  unfold besides at h
  cases hb : threeProcesses with
  | none => simp [hb] at h
  | some b =>
    cases hs : outstanding .documented 2 [x] b with
    | none => simp [hb, hs] at h
    | some res =>
      cases ht : res.2.procs 2 with
      | none => simp [hb, hs, ht] at h
      | some t => grind [threeProcesses_sane]

/-- The first process shares its page with the second one while the third one does so. -/
theorem share_beside_others_three : ∃ b ms s', Sane .documented b ∧
    outstanding .documented 2 [⟨3, userAnonBase, 16⟩] b = some (ms, s') ∧ ms ≠ [] ∧
      ∃ outVa s₂, shmShare .documented s' 1 2 userAnonBase 16 = (.ok outVa, s₂) := by
  obtain ⟨b, ms, s', t, hb, hys, ht, hf⟩ := exists_of_besides ⟨3, userAnonBase, 16⟩
    (fun b ms s t => (shmShare .documented b 1 2 userAnonBase 16).1.toOption.isSome &&
      decide (Buffer.pages b ⟨1, userAnonBase, 16⟩ = some ⟨0x02000000, 0x1000, pteUserPage⟩) &&
      enough s t ⟨0x02000000, 0x1000, pteUserPage⟩ &&
      decide (ms = [⟨0x02002000, 0x1000, pteUserPage⟩])) (by decide +kernel)
  simp only [Bool.and_eq_true, decide_eq_true_eq] at hf
  obtain ⟨⟨⟨hok, hpages⟩, henough⟩, rfl⟩ := hf
  rcases hshare : shmShare .documented b 1 2 userAnonBase 16 with ⟨_ | outVa, s₁⟩
  · rw [hshare] at hok
    cases hok
  · have hnone : outstanding .documented 2 [] b = some ([], b) := rfl
    exact ⟨b, _, s', hb, hys, List.cons_ne_nil _ _,
      (share_beside_others hb hnone hys (fun h => absurd h (by decide)) hshare hpages ht
        (Enough.of_enough henough)).mpr (by decide)⟩

/-- The first process shares two buffers that lie on the same page: while the first one is shared,
the second one cannot be. -/
theorem share_not_beside_same_page : ∃ b s', Sane .documented b ∧
    (∃ outVa s₁, shmShare .documented b 1 2 (userAnonBase + 64) 16 = (.ok outVa, s₁)) ∧
      (∃ ms, outstanding .documented 2 [⟨1, userAnonBase, 16⟩] b = some (ms, s')) ∧
      (∃ t, s'.procs 2 = some t ∧ Enough s' t ⟨0x02000000, 0x1000, pteUserPage⟩) ∧
      (shmShare .documented s' 1 2 (userAnonBase + 64) 16).1 = .error eExists := by
  obtain ⟨b, ms, s', t, hb, hys, ht, hf⟩ := exists_of_besides ⟨1, userAnonBase, 16⟩
    (fun b _ s t => (shmShare .documented b 1 2 (userAnonBase + 64) 16).1.toOption.isSome &&
      enough s t ⟨0x02000000, 0x1000, pteUserPage⟩ &&
      decide ((shmShare .documented s 1 2 (userAnonBase + 64) 16).1 = .error eExists))
    (by decide +kernel)
  simp only [Bool.and_eq_true, decide_eq_true_eq] at hf
  obtain ⟨⟨hok, henough⟩, hfails⟩ := hf
  rcases hshare : shmShare .documented b 1 2 (userAnonBase + 64) 16 with ⟨_ | outVa, s₁⟩
  · rw [hshare] at hok
    cases hok
  · grind [Enough.of_enough]

end Ukernel.Ipc
