import Ukernel.Ipc.ShmMany
import Ukernel.Machine.System

/-!
# Address spaces in any order

Processes that work on their address spaces in turn: `spaces_sane` is about every order.
-/

namespace Ukernel.Kernel

open Arch Machine Mm

/-- An operation of one of the processes on its address space. -/
def spaces (L : Layout) : System State (Nat × VmmOp) where
  exec s op := match s.procs op.1 with
    | none => s
    | some p => s.set op.1 (op.2.exec L s.mm p).1 (op.2.exec L s.mm p).2
  enabled s op := ∀ p, s.procs op.1 = some p → op.2.Admits s.mm p

/-- Whatever the processes do, and in whatever order: if no region is put at the top of the address
space or on blocks that the kernel keeps, all address spaces stay sane. -/
theorem spaces_sane {L : Layout} {s : State} (hs : Sane L s) {ops : List (Nat × VmmOp)}
    (hops : (spaces L).Legal s ops) : Sane L ((spaces L).run s ops) := by
  refine System.run_invariant (fun s op hs hop => ?_) hs hops
  cases hp : s.procs op.1 with
  | none => simpa [spaces, hp] using hs
  | some p => simpa [spaces, hp] using hs.exec hp (hop p hp)

/-- Of three processes the first one gives up its page. -/
theorem spaces_sane_three : ∃ s, Ipc.threeProcesses = some s ∧
    Sane .documented ((spaces .documented).run s [(1, .freePages userAnonBase)]) := by
  obtain ⟨s, hs⟩ := Option.isSome_iff_exists.mp
    (show Ipc.threeProcesses.isSome = true by decide +kernel)
  exact ⟨s, hs, spaces_sane (Ipc.threeProcesses_sane hs) ⟨fun _ _ _ h => h.elim, trivial⟩⟩

end Ukernel.Kernel
