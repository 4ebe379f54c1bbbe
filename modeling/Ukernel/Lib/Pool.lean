import Mathlib.Data.List.Basic

/-!
# Allocators seen from outside

What a caller may know of an allocator: a request fails, or is answered with an address that is not
0 and not in use. Addresses may come again once they are free. A parameter fixes the answers, so
that every behaviour of an allocator is an instance.

## Main definitions

* `Pool`, `Pool.alloc`, `Pool.free`
* `Pool.Held`: blocks that are in use, each for one purpose

## Main results

* `Pool.alloc_cases`: what a request does
* `Pool.Held.grow`, `Pool.Held.shrink`: two blocks come into use, or go
* `perm_flatMap_of_change`: lists of blocks that are put together from others
-/

namespace Ukernel.Lib

/-- An allocator: the address it offers to each request, the number of requests, and the addresses
in use. -/
structure Pool where
  offer : Nat → Nat
  calls : Nat
  live : List Nat

namespace Pool

/-- A request: a new address, or 0. -/
def alloc (p : Pool) : Nat × Pool :=
  let a := p.offer p.calls
  if a = 0 ∨ a ∈ p.live then (0, { p with calls := p.calls + 1 })
  else (a, { p with calls := p.calls + 1, live := a :: p.live })

/-- Give an address back. -/
def free (p : Pool) (a : Nat) : Pool := { p with live := p.live.erase a }

theorem alloc_cases (p : Pool) : p.alloc.1 = 0 ∧ p.alloc.2.live = p.live ∨
    p.alloc.1 ≠ 0 ∧ p.alloc.1 ∉ p.live ∧ p.alloc.2.live = p.alloc.1 :: p.live := by
  unfold alloc
  dsimp only
  split_ifs with h
  · exact Or.inl ⟨rfl, rfl⟩
  · grind

/-- Distinct addresses in use. -/
structure Held (p : Pool) (blocks : List Nat) : Prop where
  nodup : blocks.Nodup
  live : blocks ⊆ p.live

variable {p p' : Pool} {a b : Nat} {blocks blocks' : List Nat}

theorem Held.mono (h : p.Held blocks) (hlive : p.live ⊆ p'.live) : p'.Held blocks :=
  ⟨h.nodup, fun _ hc => hlive (h.live hc)⟩

/-- Two new addresses, one after the other. -/
theorem Held.grow (h : p.Held blocks) (ha : a ∉ p.live) (hb : b ∉ a :: p.live)
    (hlive : b :: a :: p.live ⊆ p'.live) (hperm : blocks'.Perm (b :: a :: blocks)) :
    p'.Held blocks' := by
  refine ⟨hperm.nodup_iff.mpr ?_, fun c hc => hlive ?_⟩
  · grind [h.nodup, h.live]
  · grind [h.live]

/-- Two addresses go. -/
theorem Held.shrink (h : p.Held blocks) (hperm : blocks.Perm (b :: a :: blocks'))
    (hlive : ∀ c ∈ p.live, c ≠ a → c ≠ b → c ∈ p'.live) : p'.Held blocks' := by
  have hnodup := hperm.nodup_iff.mp h.nodup
  obtain ⟨hb, hnodup⟩ := List.nodup_cons.mp hnodup
  obtain ⟨ha, hnodup⟩ := List.nodup_cons.mp hnodup
  refine ⟨hnodup, fun c hc => hlive c (h.live (hperm.mem_iff.mpr ?_)) ?_ ?_⟩
  · exact List.mem_cons_of_mem _ (List.mem_cons_of_mem _ hc)
  · exact fun heq => ha (heq ▸ hc)
  · exact fun heq => hb (heq ▸ List.mem_cons_of_mem _ hc)

end Pool

/-- Where one element of a list yields more, so does the list. -/
theorem perm_flatMap_of_change {α β : Type*} [DecidableEq α] {l : List α} {t : α} (xs : List β)
    {f g : α → List β} (hl : l.Nodup) (ht : t ∈ l) (hself : (g t).Perm (xs ++ f t))
    (hothers : ∀ u ∈ l, u ≠ t → g u = f u) : (l.flatMap g).Perm (xs ++ l.flatMap f) := by
  have hperm := List.perm_cons_erase ht
  have hrest : (l.erase t).flatMap g = (l.erase t).flatMap f := List.flatMap_congr fun u hu => by
    obtain ⟨hne, hmem⟩ := hl.mem_erase_iff.mp hu
    exact hothers u hmem hne
  have hnow := hperm.flatMap_right g
  have hthen := hperm.flatMap_right f
  rw [List.flatMap_cons, hrest] at hnow
  refine hnow.trans ((hself.append_right _).trans ?_)
  rw [List.append_assoc]
  exact hthen.symm.append_left xs

end Ukernel.Lib
