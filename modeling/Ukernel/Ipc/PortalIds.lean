import Ukernel.Ipc.Portal
import Ukernel.Machine.System

/-!
# The identifiers of portals

A portal gets the identifier that its server asks for, or the value of a counter. The counter is
pushed past every identifier that is given out, so that a portal without a wish never needs a look
at the others.

## Why the top of the range matters

The counter has 32 bits. The identifier `0xFFFFFFFF` pushes it to 0, from where it passes through
all identifiers that are in use, and the portal of the name server is the second one it meets. As
long as the counter does not get there, it is above all identifiers in use and above the one of the
name server.

## Main definitions

* `PortalIdOp`, `portalIdSystem`: portals come and go while threads do anything
* `PortalIdOp.KeepsRoom`: the counter does not wrap around

## Main results

* `portal_ids_distinct`: as long as it does not, identifiers are distinct
* `portal_ids_wrap`: what happens otherwise
-/

namespace Ukernel.Ipc

open Kernel Lib Machine Sync

/-- `PORTAL_ID_NAMESPACE`. -/
def portalIdNamespace : Nat := 1

/-- Portals come and go; between two commands the threads may do anything. -/
inductive PortalIdOp where
  | init (serverId : Nat)
  | destroy (serverId : Nat)
  | threads (sched : Sched)

namespace PortalIdOp

/-- What a step does. -/
def exec (s : PortalState) : PortalIdOp → PortalState
  | .init serverId => (s.init serverId).2.2
  | .destroy serverId => (s.destroy serverId).2
  | .threads sched => s.withSems (s.sems.withSched sched)

/-- Identifiers are words. -/
def Word : PortalIdOp → Prop
  | .init serverId => serverId < 2 ^ 32
  | _ => True

/-- The counter is not pushed past the last identifier. -/
def KeepsRoom (s : PortalState) : PortalIdOp → Prop
  | .init serverId =>
    if serverId = 0 then s.nextId < 0xFFFFFFFF else serverId < 0xFFFFFFFF
  | _ => True

instance : (op : PortalIdOp) → Decidable op.Word
  | .init serverId => inferInstanceAs (Decidable (serverId < 2 ^ 32))
  | .destroy _ => .isTrue trivial
  | .threads _ => .isTrue trivial

instance (s : PortalState) : (op : PortalIdOp) → Decidable (op.KeepsRoom s)
  | .init serverId => inferInstanceAs
      (Decidable (if serverId = 0 then s.nextId < 0xFFFFFFFF else serverId < 0xFFFFFFFF))
  | .destroy _ => .isTrue trivial
  | .threads _ => .isTrue trivial

end PortalIdOp

/-- All sequences of commands. -/
def portalIdSystem : System PortalState PortalIdOp := ⟨PortalIdOp.exec, fun _ op => op.Word⟩

/-- The sequences in which the counter does not wrap around. -/
def portalIdRoomSystem : System PortalState PortalIdOp :=
  ⟨PortalIdOp.exec, fun s op => op.Word ∧ op.KeepsRoom s⟩

instance (s : PortalState) (op : PortalIdOp) : Decidable (portalIdSystem.enabled s op) :=
  inferInstanceAs (Decidable op.Word)

instance (s : PortalState) (op : PortalIdOp) : Decidable (portalIdRoomSystem.enabled s op) :=
  inferInstanceAs (Decidable (op.Word ∧ op.KeepsRoom s))

namespace PortalState

variable {s s' : PortalState} {serverId : Nat}

/-- The identifiers of the portals. -/
def ids (s : PortalState) : List Nat := s.portals.map fun p => (s.portal p).id

/-- The blocks of the portals and of their semaphores. -/
def blocks (s : PortalState) : List Nat :=
  s.portals ++ s.portals.map fun p => (s.portal p).reqSem

/-- No portal has been made. -/
structure NoPortals (s : PortalState) : Prop where
  portals : s.portals = []
  nextId : s.nextId = portalIdNamespace + 1
  heap : s.sems.kheap.live.Nodup

/-! ## What the commands do -/

/-- The identifier that `PORTAL_CTRL_INIT` gives. -/
def chosenId (s : PortalState) (serverId : Nat) : Nat := if serverId ≠ 0 then serverId else s.nextId

/-- The counter once an identifier has been given. -/
def pushedId (s : PortalState) (id : Nat) : Nat :=
  if id ≥ s.nextId then (id + 1) % 2 ^ 32 else s.nextId

/-- No portal has been made, though the counter may have moved. -/
structure InitFailed (s : PortalState) (serverId : Nat) (s' : PortalState) : Prop where
  portals : s'.portals = s.portals
  portal : s'.portal = s.portal
  req : s'.req = s.req ∧ s'.calls = s.calls
  live : s'.sems.kheap.live = s.sems.kheap.live
  nextId : s'.nextId = s.nextId ∨ s'.nextId = s.pushedId (s.chosenId serverId)

/-- There is a new portal with its semaphore. -/
structure InitDone (s : PortalState) (serverId p sem : Nat) (s' : PortalState) : Prop where
  clash : serverId ≠ 0 → s.portalGetById serverId = none
  fresh : p ∉ s.sems.kheap.live
  freshSem : sem ∉ p :: s.sems.kheap.live
  portals : s'.portals = p :: s.portals
  self : (s'.portal p).id = s.chosenId serverId ∧ (s'.portal p).reqSem = sem ∧
    (s'.portal p).reqs = []
  others : ∀ q ≠ p, s'.portal q = s.portal q
  req : s'.req = s.req ∧ s'.calls = s.calls
  live : s'.sems.kheap.live = sem :: p :: s.sems.kheap.live
  nextId : s'.nextId = s.pushedId (s.chosenId serverId)

theorem init_cases (s : PortalState) (serverId : Nat) :
    (s.init serverId).1 ≠ 0 ∧ InitFailed s serverId (s.init serverId).2.2 ∨
      (s.init serverId).1 = 0 ∧ (s.init serverId).2.1 = s.chosenId serverId ∧
        ∃ p sem, InitDone s serverId p sem (s.init serverId).2.2 := by
  unfold init kmalloc
  dsimp only
  rcases s.sems.kheap.alloc_cases with ⟨hz, hlive⟩ | ⟨hz, hnew, hlive⟩
  · rw [if_pos hz]
    exact Or.inl ⟨(by decide : eNomem ≠ 0), rfl, rfl, ⟨rfl, rfl⟩, hlive, Or.inl rfl⟩
  rw [if_neg hz]
  generalize s.sems.kheap.alloc.2 = kheap at hlive ⊢
  generalize s.sems.kheap.alloc.1 = p at hz hnew hlive ⊢
  have hback : (kheap.free p).live = s.sems.kheap.live := by
    rw [Pool.free, hlive, List.erase_cons_head]
  by_cases hclash : serverId ≠ 0 ∧ (s.withSems { s.sems with kheap }).portalGetById serverId ≠ none
  · rw [if_pos hclash]
    exact Or.inl ⟨(by decide : eExists ≠ 0), rfl, rfl, ⟨rfl, rfl⟩, hback, Or.inl rfl⟩
  rw [if_neg hclash]
  rcases (s.withSems { s.sems with kheap }).sems.create_cases 0 with ⟨hz', hun⟩ | hmade
  · rw [if_pos hz']
    exact Or.inl ⟨(by decide : eNomem ≠ 0), rfl, rfl, ⟨rfl, rfl⟩,
      (congrArg (List.erase · p) hun.kheap).trans hback, Or.inr rfl⟩
  · rw [if_neg hmade.fresh.1]
    refine Or.inr ⟨rfl, rfl, p, ((s.withSems { s.sems with kheap }).sems.create 0).1, ?_⟩
    refine ⟨fun h0 => ?_, hnew, hlive ▸ hmade.fresh.2, rfl, ?_, fun q hq => ?_, ⟨rfl, rfl⟩, ?_, rfl⟩
    · by_contra hfound
      exact hclash ⟨h0, hfound⟩
    · simp [setPortal, chosenId, withSems]
    · exact Function.update_of_ne hq _ _
    · exact hmade.kheap.trans (congrArg _ hlive)

/-- Somebody waits for requests to a portal, or for the reply to one that is queued. -/
def busy (s : PortalState) (p : Nat) : Bool :=
  s.sems.hasWaiters (s.portal p).reqSem ||
    (s.portal p).reqs.any fun r => s.sems.hasWaiters (s.req r).doneSem

/-- A portal is gone, with its semaphore unless somebody waits there. -/
structure Dropped (s : PortalState) (p : Nat) (s' : PortalState) : Prop where
  mem : p ∈ s.portals
  portals : s'.portals = s.portals.erase p
  portal : s'.portal = s.portal
  req : s'.req = s.req ∧ s'.calls = s.calls
  nextId : s'.nextId = s.nextId
  live : s'.sems.kheap.live = s.sems.kheap.live.erase p ∨
    s'.sems.kheap.live = (s.sems.kheap.live.erase (s.portal p).reqSem).erase p

/-- A portal without requests is gone, or nothing has happened. -/
theorem destroy_cases (s : PortalState) (serverId : Nat)
    (hreqs : ∀ p, s.portalGetById serverId = some p → (s.portal p).reqs = [] ∨ s.busy p) :
    (s.destroy serverId).1 ≠ 0 ∧ (s.destroy serverId).2 = s ∨
      ∃ p, s.portalGetById serverId = some p ∧ (s.portal p).reqs = [] ∧
        Dropped s p (s.destroy serverId).2 := by
  unfold destroy
  cases hget : s.portalGetById serverId with
  | none => exact Or.inl ⟨(by decide : eNotfound ≠ 0), rfl⟩
  | some p =>
    have hp : p ∈ s.portals := List.mem_of_find?_eq_some hget
    -- the semaphore stays where a thread waits at it
    have hgone (a : Nat) : (s.sems.destroy a).2.kheap.live = s.sems.kheap.live ∨
        (s.sems.destroy a).2.kheap.live = s.sems.kheap.live.erase a := by
      unfold SemState.destroy
      split_ifs
      · exact Or.inl rfl
      · exact Or.inl rfl
      · exact Or.inr rfl
    dsimp only
    split_ifs with hbusy hany hsem
    · exact Or.inl ⟨(by decide : eBusy ≠ 0), rfl⟩
    · exact Or.inl ⟨(by decide : eBusy ≠ 0), rfl⟩
    all_goals
      have hnil : (s.portal p).reqs = [] := by
        refine (hreqs p hget).resolve_right fun hb => ?_
        rcases Bool.or_eq_true _ _ ▸ hb with hb | hb
        · exact hbusy hb
        · exact hany hb
      refine Or.inr ⟨p, rfl, hnil, ?_⟩
      rw [hnil]
    · refine ⟨hp, rfl, rfl, ⟨rfl, rfl⟩, rfl, ?_⟩
      rcases hgone (s.portal p).reqSem with hlive | hlive
      · exact Or.inl (congrArg (List.erase · p) hlive)
      · exact Or.inr (congrArg (List.erase · p) hlive)
    · exact ⟨hp, rfl, rfl, ⟨rfl, rfl⟩, rfl, Or.inl rfl⟩

/-! ## The invariant -/

/-- The counter is above all identifiers in use, and no block is used twice. -/
structure IdsOk (s : PortalState) : Prop where
  next : portalIdNamespace < s.nextId ∧ s.nextId < 2 ^ 32
  below : ∀ p ∈ s.portals, (s.portal p).id < s.nextId
  ids : s.ids.Nodup
  blocks : s.blocks.Nodup
  live : ∀ a ∈ s.blocks, a ∈ s.sems.kheap.live
  heap : s.sems.kheap.live.Nodup
  reqs : ∀ p ∈ s.portals, (s.portal p).reqs = []

theorem NoPortals.idsOk (h : s.NoPortals) : s.IdsOk := by
  have hnil : s.blocks = [] := by rw [PortalState.blocks, h.portals]; rfl
  refine ⟨?_, ?_, ?_, hnil ▸ List.nodup_nil, ?_, h.heap, ?_⟩
  · rw [h.nextId]
    decide
  · rw [h.portals]
    exact fun p hp => nomatch hp
  · rw [PortalState.ids, h.portals]
    exact List.nodup_nil
  · rw [hnil]
    exact fun a ha => nomatch ha
  · rw [h.portals]
    exact fun p hp => nomatch hp

theorem mem_blocks {a : Nat} :
    a ∈ s.blocks ↔ a ∈ s.portals ∨ ∃ p ∈ s.portals, (s.portal p).reqSem = a := by
  rw [PortalState.blocks, List.mem_append, List.mem_map]

/-- The lookup finds nothing, and nobody has the identifier. -/
theorem not_mem_ids (h : s.portalGetById serverId = none) : serverId ∉ s.ids := by
  intro hmem
  obtain ⟨p, hp, hid⟩ := List.mem_map.mp hmem
  have hno := List.find?_eq_none.mp h p hp
  exact hno (beq_iff_eq.mpr hid)

/-- A counter that is pushed without wrapping around stays above what it was and above the
identifier that was given. -/
theorem IdsOk.pushed (h : s.IdsOk) (hroom : (PortalIdOp.init serverId).KeepsRoom s) :
    s.nextId ≤ s.pushedId (s.chosenId serverId) ∧
      s.chosenId serverId < s.pushedId (s.chosenId serverId) ∧
      s.pushedId (s.chosenId serverId) < 2 ^ 32 := by
  have hnext := h.next.2
  replace hroom : if serverId = 0 then s.nextId < 0xFFFFFFFF else serverId < 0xFFFFFFFF := hroom
  unfold pushedId chosenId
  by_cases h0 : serverId = 0
  · grind
  · grind

/-- No portal has the identifier that is chosen. -/
theorem IdsOk.chosen_not_mem (h : s.IdsOk)
    (hclash : serverId ≠ 0 → s.portalGetById serverId = none) : s.chosenId serverId ∉ s.ids := by
  unfold chosenId
  split_ifs with h0
  · exact not_mem_ids (hclash h0)
  · intro hmem
    obtain ⟨p, hp, hid⟩ := List.mem_map.mp hmem
    exact absurd (h.below p hp) (by omega)

theorem IdsOk.initDone (h : s.IdsOk) {p sem : Nat} (hd : InitDone s serverId p sem s')
    (hroom : (PortalIdOp.init serverId).KeepsRoom s) : s'.IdsOk := by
  obtain ⟨hle, hlt, hword⟩ := h.pushed hroom
  obtain ⟨hid, hsem, hnil⟩ := hd.self
  have hne {q : Nat} (hq : q ∈ s.portals) : q ≠ p := by
    rintro rfl
    exact hd.fresh (h.live q (mem_blocks.mpr (Or.inl hq)))
  have hids : s'.ids = s.chosenId serverId :: s.ids := by
    grind [PortalState.ids, hd.portals, List.map_congr_left, hd.others]
  have hsems : (s'.portals.map fun q => (s'.portal q).reqSem) =
      sem :: s.portals.map fun q => (s.portal q).reqSem := by
    grind [hd.portals, List.map_congr_left, hd.others]
  have hblocks : s'.blocks.Perm (sem :: p :: s.blocks) := by
    rw [PortalState.blocks, hsems, hd.portals]
    exact List.perm_middle
  have hfresh : ∀ a ∈ s.blocks, a ≠ p ∧ a ≠ sem := by grind [h.live, hd.fresh, hd.freshSem]
  have hold {q : Nat} (hq : q ∈ s'.portals) : q = p ∨ q ∈ s.portals ∧ s'.portal q = s.portal q := by
    grind [hd.portals, hd.others]
  refine ⟨?_, ?_, ?_, ?_, ?_, ?_, ?_⟩
  · rw [hd.nextId]
    exact ⟨Nat.lt_of_lt_of_le h.next.1 hle, hword⟩
  · intro q hq
    rw [hd.nextId]
    rcases hold hq with rfl | ⟨hq, heq⟩
    · rw [hid]
      exact hlt
    · rw [heq]
      exact Nat.lt_of_lt_of_le (h.below q hq) hle
  · rw [hids]
    exact List.nodup_cons.mpr ⟨h.chosen_not_mem hd.clash, h.ids⟩
  · grind [h.blocks, hd.freshSem]
  · grind [hd.live, h.live]
  · rw [hd.live]
    exact List.nodup_cons.mpr ⟨hd.freshSem, List.nodup_cons.mpr ⟨hd.fresh, h.heap⟩⟩
  · grind [h.reqs]

theorem IdsOk.initFailed (h : s.IdsOk) (hf : InitFailed s serverId s')
    (hroom : (PortalIdOp.init serverId).KeepsRoom s) : s'.IdsOk := by
  obtain ⟨hle, -, hword⟩ := h.pushed hroom
  have hnext : s.nextId ≤ s'.nextId ∧ s'.nextId < 2 ^ 32 := by grind [hf.nextId]
  have hids : s'.ids = s.ids := by rw [PortalState.ids, hf.portals, hf.portal]; rfl
  have hblocks : s'.blocks = s.blocks := by rw [PortalState.blocks, hf.portals, hf.portal]; rfl
  refine ⟨⟨Nat.lt_of_lt_of_le h.next.1 hnext.1, hnext.2⟩, ?_, hids ▸ h.ids, hblocks ▸ h.blocks,
    ?_, hf.live ▸ h.heap, ?_⟩
  · rw [hf.portals, hf.portal]
    exact fun p hp => Nat.lt_of_lt_of_le (h.below p hp) hnext.1
  · rw [hblocks, hf.live]
    exact h.live
  · rw [hf.portals, hf.portal]
    exact h.reqs

/-- The other portals keep their blocks when one goes. -/
theorem IdsOk.mem_blocks_erase (h : s.IdsOk) {p a : Nat} (hp : p ∈ s.portals)
    (ha : a ∈ s.portals.erase p ++ (s.portals.erase p).map fun q => (s.portal q).reqSem) :
    a ∈ s.blocks ∧ a ≠ p ∧ a ≠ (s.portal p).reqSem := by
  obtain ⟨hportals, hsems, hdisj⟩ := List.nodup_append.mp h.blocks
  have hinj := List.inj_on_of_nodup_map hsems
  rcases List.mem_append.mp ha with ha | ha
  · grind [mem_blocks]
  · grind [mem_blocks]

theorem IdsOk.destroyed (h : s.IdsOk) (serverId : Nat) : (s.destroy serverId).2.IdsOk := by
  have hreqs (p : Nat) (hget : s.portalGetById serverId = some p) : (s.portal p).reqs = [] :=
    h.reqs p (List.mem_of_find?_eq_some hget)
  rcases s.destroy_cases serverId fun p hget => Or.inl (hreqs p hget) with
    ⟨-, heq⟩ | ⟨p, -, -, hp, hportals, hportal, -, hnext, hlive⟩
  · rw [heq]
    exact h
  have hsub : (s.portals.erase p).Sublist s.portals := List.erase_sublist
  refine ⟨hnext ▸ h.next, ?_, ?_, ?_, ?_, ?_, ?_⟩
  · rw [hportals, hportal, hnext]
    exact fun q hq => h.below q (hsub.subset hq)
  · rw [PortalState.ids, hportals, hportal]
    exact h.ids.sublist (hsub.map _)
  · rw [PortalState.blocks, hportals, hportal]
    exact h.blocks.sublist (hsub.append (hsub.map _))
  · rw [PortalState.blocks, hportals, hportal]
    intro a ha
    obtain ⟨hmem, hne, hsem⟩ := h.mem_blocks_erase hp ha
    have hin := h.live a hmem
    rcases hlive with hlive | hlive <;> rw [hlive]
    · exact h.heap.mem_erase_iff.mpr ⟨hne, hin⟩
    · grind
  · grind [h.heap.erase]
  · rw [hportals, hportal]
    exact fun q hq => h.reqs q (hsub.subset hq)

theorem IdsOk.exec (s : PortalState) (op : PortalIdOp) (h : s.IdsOk)
    (hop : portalIdRoomSystem.enabled s op) : (portalIdRoomSystem.exec s op).IdsOk := by
  cases op with
  | init serverId =>
    rcases s.init_cases serverId with ⟨-, hf⟩ | ⟨-, -, p, sem, hd⟩
    · exact h.initFailed hf hop.2
    · exact h.initDone hd hop.2
  | destroy serverId => exact h.destroyed serverId
  | threads sched => exact ⟨h.next, h.below, h.ids, h.blocks, h.live, h.heap, h.reqs⟩

/-- What the counter offers is not 0 and not the identifier of the name server. -/
theorem IdsOk.auto (h : s.IdsOk) (hret : (s.init 0).1 = 0) :
    (s.init 0).2.1 ≠ 0 ∧ (s.init 0).2.1 ≠ portalIdNamespace := by
  rcases s.init_cases 0 with ⟨hne, -⟩ | ⟨-, hid, -⟩
  · exact absurd hret hne
  · have hnext := h.next.1
    have heq : s.chosenId 0 = s.nextId := if_neg (not_not.mpr rfl)
    exact ⟨by omega, by omega⟩

end PortalState

/-- As long as the counter does not wrap around, the identifiers of the portals are distinct, and an
identifier that is given by the counter is neither 0 nor the one of the name server. -/
theorem portal_ids_distinct (s : PortalState) (ops : List PortalIdOp) (hs : s.NoPortals)
    (hops : portalIdRoomSystem.Legal s ops) :
    let s' := portalIdRoomSystem.run s ops
    s'.ids.Nodup ∧
      ((s'.init 0).1 = 0 → (s'.init 0).2.1 ≠ 0 ∧ (s'.init 0).2.1 ≠ portalIdNamespace) := by
  have h := System.run_invariant PortalState.IdsOk.exec hs.idsOk hops
  exact ⟨h.ids, h.auto⟩

/-- No portal, a heap that offers new blocks, and one thread. -/
def portalless : PortalState where
  sems := ⟨⟨fun n => 16 * (n + 1), 0, []⟩, fun _ => false, [], fun _ => ⟨0, 0, 0⟩, 0,
    ⟨[1], fun _ => ⟨1, .ready, false, 0, 0⟩, some 1, fun _ => []⟩⟩
  portals := []
  portal := fun _ => ⟨0, 0, 0, [], 0⟩
  nextId := 2
  req := fun _ => ⟨0, 0, 0, 0, false, 0, 0, 0⟩
  calls := 0

theorem portalless_noPortals : portalless.NoPortals := ⟨rfl, rfl, List.nodup_nil⟩

/-- The name server, a portal with a wish and two without. -/
theorem portal_ids_distinct_four :
    let ops := [.init 1, .init 40, .init 0, .destroy 40, .init 0]
    portalIdRoomSystem.Legal portalless ops ∧
      (portalIdRoomSystem.run portalless ops).ids = [42, 41, 1] ∧
      (portalIdRoomSystem.run portalless ops).ids.Nodup := by
  have hlegal : portalIdRoomSystem.Legal portalless
      [.init 1, .init 40, .init 0, .destroy 40, .init 0] := by decide
  exact ⟨hlegal, rfl, (portal_ids_distinct portalless _ portalless_noPortals hlegal).1⟩

/-- The last identifier is asked for while the name server is there: the next two portals without a
wish get 0 and the identifier of the name server. -/
theorem portal_ids_wrap :
    let ops := [.init 1, .init 0xFFFFFFFF]
    let s := portalIdSystem.run portalless ops
    let s' := (s.init 0).2.2
    portalless.NoPortals ∧ portalIdSystem.Legal portalless ops ∧
      (s.init 0).1 = 0 ∧ (s.init 0).2.1 = 0 ∧
      (s'.init 0).1 = 0 ∧ (s'.init 0).2.1 = portalIdNamespace ∧
      (s'.init 0).2.2.ids = [1, 0, 0xFFFFFFFF, 1] := by
  exact ⟨portalless_noPortals, by decide, rfl, rfl, rfl, rfl, rfl⟩

end Ukernel.Ipc
