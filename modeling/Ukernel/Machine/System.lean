import Mathlib.Logic.Basic

/-!
# Machines and their runs

A machine executes operations on a state; an operation may only be issued where it is enabled.
A property that holds at the start and that every enabled operation keeps holds after every
legal run.

## Main definitions

* `System`: what operations do and when they may be issued
* `System.run`, `System.Legal`: the state after a run, and the runs whose operations are enabled
* `System.trace`: what is observed at the operations of a run

## Main results

* `System.run_invariant`: the induction over runs
* `System.run_simulation`, `System.trace_simulation`: a machine that simulates another agrees with
  it on the final state and on all observations
-/

namespace Ukernel.Machine

/-- What an operation does to a state, and when it may be issued. -/
structure System (σ ο : Type*) where
  exec : σ → ο → σ
  enabled : σ → ο → Prop

namespace System

variable {σ ο : Type*} (M : System σ ο)

/-- The state after a list of operations. -/
def run (s : σ) (ops : List ο) : σ := ops.foldl M.exec s

/-- Every operation of the run is enabled where it is issued. -/
def Legal : σ → List ο → Prop
  | _, [] => True
  | s, op :: ops => M.enabled s op ∧ Legal (M.exec s op) ops

/-- What is observed at the operations of a run, each in the state where it is issued. -/
def trace {β : Type*} (out : σ → ο → β) : σ → List ο → List β
  | _, [] => []
  | s, op :: ops => out s op :: trace out (M.exec s op) ops

@[simp] theorem run_cons (s : σ) (op : ο) (ops : List ο) :
    M.run s (op :: ops) = M.run (M.exec s op) ops := rfl

@[simp] theorem legal_cons (s : σ) (op : ο) (ops : List ο) :
    M.Legal s (op :: ops) ↔ M.enabled s op ∧ M.Legal (M.exec s op) ops := Iff.rfl

/-- Whether a run is legal can be computed where single operations allow it. -/
instance decidableLegal [∀ s op, Decidable (M.enabled s op)] :
    (s : σ) → (ops : List ο) → Decidable (M.Legal s ops)
  | _, [] => .isTrue trivial
  | s, op :: ops => @instDecidableAnd _ _ _ (decidableLegal (M.exec s op) ops)

variable {M}

/-- What every enabled operation keeps, every legal run keeps. -/
theorem run_invariant {I : σ → Prop} (hstep : ∀ s op, I s → M.enabled s op → I (M.exec s op))
    {s : σ} {ops : List ο} (hs : I s) (hops : M.Legal s ops) : I (M.run s ops) := by
  induction ops generalizing s with
  | nil => exact hs
  | cons op ops ih => exact ih (hstep s op hs hops.1) hops.2

section Simulation

variable {τ π β : Type*} {N : System τ π} {abs : σ → τ} {lift : σ → ο → π} {I : σ → Prop}

/-- A machine that matches every enabled operation of another ends in the matching state. -/
theorem run_simulation (hstep : ∀ s op, I s → M.enabled s op → I (M.exec s op))
    (hexec : ∀ s op, I s → M.enabled s op → abs (M.exec s op) = N.exec (abs s) (lift s op))
    {s : σ} {ops : List ο} (hs : I s) (hops : M.Legal s ops) :
    abs (M.run s ops) = N.run (abs s) (M.trace lift s ops) := by
  induction ops generalizing s with
  | nil => rfl
  | cons op ops ih =>
    have htail := ih (hstep s op hs hops.1) hops.2
    rw [hexec s op hs hops.1] at htail
    exact htail

/-- Observations that agree at every enabled operation agree over a run. -/
theorem trace_simulation (hstep : ∀ s op, I s → M.enabled s op → I (M.exec s op))
    (hexec : ∀ s op, I s → M.enabled s op → abs (M.exec s op) = N.exec (abs s) (lift s op))
    {out : σ → ο → β} {out' : τ → π → β}
    (hout : ∀ s op, I s → M.enabled s op → out s op = out' (abs s) (lift s op))
    {s : σ} {ops : List ο} (hs : I s) (hops : M.Legal s ops) :
    M.trace out s ops = N.trace out' (abs s) (M.trace lift s ops) := by
  induction ops generalizing s with
  | nil => rfl
  | cons op ops ih =>
    have htail := ih (hstep s op hs hops.1) hops.2
    rw [hexec s op hs hops.1] at htail
    exact congrArg₂ List.cons (hout s op hs hops.1) htail

end Simulation

end System

end Ukernel.Machine
