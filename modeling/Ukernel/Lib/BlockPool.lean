import Mathlib.Data.List.Pairwise
import Mathlib.Tactic.SplitIfs

/-!
# Allocators with sizes

An allocator as in `Pool`, for callers that look into their blocks: an answer is a range of
addresses that lies within bounds and meets no range in use. A parameter fixes what is offered, and
an offer that would not do is a failure, so that every behaviour of a sound allocator is an
instance.

## Main definitions

* `BlockPool`, `BlockPool.alloc`, `BlockPool.free`
* `BlockPool.Ok`: the ranges in use are apart

## Main results

* `BlockPool.alloc_cases`: what a request does
* `BlockPool.Ok.alloc`, `BlockPool.Ok.free`
-/

namespace Ukernel.Lib

/-- Two ranges, each an address and a length, do not meet. -/
def RangesApart (x y : Nat × Nat) : Prop := x.1 + x.2 ≤ y.1 ∨ y.1 + y.2 ≤ x.1

instance (x y : Nat × Nat) : Decidable (RangesApart x y) := by
  unfold RangesApart
  infer_instance

theorem RangesApart.symm {x y : Nat × Nat} (h : RangesApart x y) : RangesApart y x := Or.symm h

/-- An allocator: the address it offers to each request, the number of requests, its bounds, and the
ranges in use. -/
structure BlockPool where
  offer : Nat → Nat
  calls : Nat
  lo : Nat
  hi : Nat
  live : List (Nat × Nat)

namespace BlockPool

/-- A range is free. -/
def Fits (p : BlockPool) (x : Nat × Nat) : Prop :=
  x.1 ≠ 0 ∧ p.lo ≤ x.1 ∧ x.1 + x.2 ≤ p.hi ∧ ∀ y ∈ p.live, RangesApart x y

instance (p : BlockPool) (x : Nat × Nat) : Decidable (p.Fits x) := by
  unfold Fits
  infer_instance

/-- A request: the address of a free range, or 0. -/
def alloc (p : BlockPool) (size : Nat) : Nat × BlockPool :=
  let a := p.offer p.calls
  if p.Fits (a, size) then (a, { p with calls := p.calls + 1, live := (a, size) :: p.live })
  else (0, { p with calls := p.calls + 1 })

/-- Give a range back; an address at which none begins is ignored. -/
def free (p : BlockPool) (a : Nat) : BlockPool := { p with live := p.live.filter fun x => x.1 ≠ a }

/-- The ranges in use are within bounds and apart. -/
structure Ok (p : BlockPool) : Prop where
  bounds : ∀ x ∈ p.live, p.lo ≤ x.1 ∧ x.1 + x.2 ≤ p.hi
  apart : p.live.Pairwise RangesApart

variable {p p' : BlockPool} {a size : Nat}

/-- A range has been taken. -/
structure Taken (p : BlockPool) (x : Nat × Nat) (p' : BlockPool) : Prop where
  fits : p.Fits x
  bounds : p'.lo = p.lo ∧ p'.hi = p.hi
  live : p'.live = x :: p.live

theorem alloc_cases (p : BlockPool) (size : Nat) :
    (p.alloc size).1 = 0 ∧ (p.alloc size).2.live = p.live ∧
        (p.alloc size).2.lo = p.lo ∧ (p.alloc size).2.hi = p.hi ∨
      (p.alloc size).1 ≠ 0 ∧ p.Taken ((p.alloc size).1, size) (p.alloc size).2 := by
  unfold alloc
  dsimp only
  split_ifs with h
  · exact Or.inr ⟨h.1, h, ⟨rfl, rfl⟩, rfl⟩
  · exact Or.inl ⟨rfl, rfl, rfl, rfl⟩

/-- `Ok` is about the bounds and the ranges in use. -/
theorem Ok.congr (h : p.Ok) (hlo : p'.lo = p.lo) (hhi : p'.hi = p.hi) (hlive : p'.live = p.live) :
    p'.Ok := by
  refine ⟨fun x hx => ?_, hlive ▸ h.apart⟩
  rw [hlo, hhi]
  exact h.bounds x (hlive ▸ hx)

theorem Ok.alloc (h : p.Ok) {x : Nat × Nat} (ht : p.Taken x p') : p'.Ok := by
  refine ⟨fun y hy => ?_, ?_⟩
  · rw [ht.bounds.1, ht.bounds.2]
    rcases List.mem_cons.mp (ht.live ▸ hy) with rfl | hy
    · exact ⟨ht.fits.2.1, ht.fits.2.2.1⟩
    · exact h.bounds y hy
  · rw [ht.live]
    exact List.pairwise_cons.mpr ⟨ht.fits.2.2.2, h.apart⟩

theorem Ok.free (h : p.Ok) (a : Nat) : (p.free a).Ok :=
  ⟨fun x hx => h.bounds x (List.mem_filter.mp hx).1, h.apart.filter _⟩

theorem mem_free {x : Nat × Nat} : x ∈ (p.free a).live ↔ x ∈ p.live ∧ x.1 ≠ a := by
  simp [free]

/-- Ranges in use that begin at different addresses do not meet. -/
theorem Ok.apart_of_ne (h : p.Ok) {x y : Nat × Nat} (hx : x ∈ p.live) (hy : y ∈ p.live)
    (hne : x ≠ y) : RangesApart x y := by
  have hsymm : Std.Symm RangesApart := ⟨fun _ _ => RangesApart.symm⟩
  exact h.apart.forall hx hy hne

end BlockPool

end Ukernel.Lib
