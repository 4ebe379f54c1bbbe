import Ukernel.Kernel.CapabilitySets
import Ukernel.Mm.Vmm

/-!
# Port I/O

`kernel/io.c`. A request reaches the `in` or `out` instruction only if the gate lets it; the gate
asks for the one port that the request names, whatever the width of the command.

## Main definitions

* `ioExec`, `ioSyscallIsr`: the request and its gate
* `Access`: one execution of an `in` or `out` instruction

## Main results

* `ioSyscallIsr_access_iff`: which requests of a user process reach the instruction
* `io_syscall_within_grant`: where the ports of such an access lie
-/

namespace Ukernel.Kernel

open Mm

/-- `io_syscall_cmd`. -/
inductive IoSyscallCmd where
  | in8
  | in16
  | in32
  | out8
  | out16
  | out32
  deriving DecidableEq, Repr

/-- The command that a byte stands for. -/
def IoSyscallCmd.decode : Nat → Option IoSyscallCmd
  | 0 => some .in8
  | 1 => some .in16
  | 2 => some .in32
  | 3 => some .out8
  | 4 => some .out16
  | 5 => some .out32
  | _ => none

/-- How many ports a command touches. -/
def IoSyscallCmd.width : IoSyscallCmd → Nat
  | .in8 | .out8 => 1
  | .in16 | .out16 => 2
  | .in32 | .out32 => 4

/-- `io_syscall_data`. -/
structure IoSyscallData where
  cmd : Nat
  port : Nat
  value : Nat
  ret : Int

/-- One execution of an `in` or `out` instruction; `out` carries the value written. -/
structure Access where
  port : Nat
  width : Nat
  out : Option Nat
  deriving DecidableEq, Repr

/-- The ports of an access. -/
def Access.Touches (a : Access) (q : Nat) : Prop := a.port ≤ q ∧ q < a.port + a.width

/-- `io_exec`; `device` answers the `in` instructions. -/
def ioExec (device : (port width : Nat) → Nat) (cfg : IoSyscallData) :
    IoSyscallData × Option Access :=
  let input (width : Nat) : IoSyscallData × Option Access :=
    ({ cfg with value := device cfg.port width % 2 ^ (8 * width), ret := 0 },
      some ⟨cfg.port, width, none⟩)
  let output (width : Nat) : IoSyscallData × Option Access :=
    ({ cfg with ret := 0 }, some ⟨cfg.port, width, some (cfg.value % 2 ^ (8 * width))⟩)
  match IoSyscallCmd.decode cfg.cmd with
  | some .in8 => input 1
  | some .in16 => input 2
  | some .in32 => input 4
  | some .out8 => output 1
  | some .out16 => output 2
  | some .out32 => output 4
  | none => ({ cfg with ret := eInval }, none)

/-- `io_syscall_isr`, with the current process. -/
def ioSyscallIsr (proc : Option Pcb) (device : (port width : Nat) → Nat) (cfg : IoSyscallData) :
    IoSyscallData × Option Access :=
  match proc with
  | some p =>
    if p.priv ≠ .kernel ∧ capCheck p.capabilities (.accessIo ⟨cfg.port, 1⟩) ≠ 0 then
      ({ cfg with ret := ePerm }, none)
    else ioExec device cfg
  | none => ioExec device cfg

/-- A range of ports that a process has been granted. -/
def Granted (p : Pcb) (r : CapIoPort) : Prop := ∃ e ∈ p.capabilities, e.cap = .accessIo r

/-! ## What the gate lets through -/

variable {p : Pcb} {device : (port width : Nat) → Nat} {cfg : IoSyscallData} {a : Access}

/-- The request itself executes one instruction, at its port and with the width of its command. -/
theorem ioExec_access_iff (device : (port width : Nat) → Nat) :
    (∃ out, (ioExec device cfg).2 = some ⟨a.port, a.width, out⟩) ↔
      a.port = cfg.port ∧ ∃ cmd, IoSyscallCmd.decode cfg.cmd = some cmd ∧ cmd.width = a.width := by
  unfold ioExec
  cases hcmd : IoSyscallCmd.decode cfg.cmd with
  | none => simp
  | some cmd => cases cmd <;> simp [IoSyscallCmd.width, eq_comm]

theorem capIoPortCheck_one_eq_zero_iff {d : CapIoPort} {port : Nat} :
    capIoPortCheck d ⟨port, 1⟩ = 0 ↔ d.base ≤ port ∧ port < d.base + d.count := by
  unfold capIoPortCheck
  dsimp only
  rw [if_neg Nat.one_ne_zero]
  split_ifs with h₁ h₂ h₃
  · exact iff_of_false ePerm_ne_zero (by omega)
  · exact iff_of_false ePerm_ne_zero (by omega)
  · exact iff_of_false ePerm_ne_zero (by omega)
  · exact iff_of_true rfl (by omega)

/-- The check for a single port succeeds exactly if one range that is held has it. -/
theorem capCheck_port_iff {port : Nat} : capCheck p.capabilities (.accessIo ⟨port, 1⟩) = 0 ↔
    ∃ r, Granted p r ∧ r.base ≤ port ∧ port < r.base + r.count := by
  unfold capCheck
  rw [ite_eq_left_iff, Bool.not_eq_true, imp_iff_not (by simp)]
  simp only [Bool.not_eq_false, List.any_eq_true, beq_iff_eq]
  constructor
  · rintro ⟨⟨addr, cap⟩, he, hcheck⟩
    -- an entry of another type never allows the port
    cases cap with
    | accessIo r => exact ⟨r, ⟨_, he, rfl⟩, capIoPortCheck_one_eq_zero_iff.mp hcheck⟩
    | _ => exact absurd hcheck (by simp [Cap.check])
  · rintro ⟨r, ⟨⟨addr, cap⟩, he, rfl⟩, hport⟩
    exact ⟨_, he, capIoPortCheck_one_eq_zero_iff.mpr hport⟩

/-- The requests of a user process that reach the instruction. -/
theorem ioSyscallIsr_access_iff (hp : p.priv = .user) :
    (∃ out, (ioSyscallIsr (some p) device cfg).2 = some ⟨a.port, a.width, out⟩) ↔
      (∃ r, Granted p r ∧ r.base ≤ cfg.port ∧ cfg.port < r.base + r.count) ∧
        a.port = cfg.port ∧ ∃ cmd, IoSyscallCmd.decode cfg.cmd = some cmd ∧
          cmd.width = a.width := by
  rw [← capCheck_port_iff, ← ioExec_access_iff device]
  unfold ioSyscallIsr
  dsimp only
  split_ifs with h
  · simp [h.2]
  · grind

/-- The port of an access lies inside a granted range. The access begins inside that range, and it
leaves the range only past its end, by less than its width: the whole access is inside exactly if
the range holds its last port too. -/
theorem io_syscall_within_grant (hp : p.priv = .user)
    (h : (ioSyscallIsr (some p) device cfg).2 = some a) :
    a.port = cfg.port ∧ ∃ r, Granted p r ∧ r.base ≤ a.port ∧ a.port < r.base + r.count ∧
      (∀ q, a.Touches q → r.base ≤ q ∧ q < r.base + r.count + (a.width - 1)) ∧
      ((∀ q, a.Touches q → r.base ≤ q ∧ q < r.base + r.count) ↔
        a.port + a.width ≤ r.base + r.count) := by
  obtain ⟨⟨r, hr, hbase, hend⟩, hport, cmd, -, hwidth⟩ :=
    (ioSyscallIsr_access_iff hp).mp ⟨a.out, h⟩
  rw [← hport] at hbase hend
  have hpos : 0 < a.width := by
    rw [← hwidth]
    cases cmd <;> decide
  refine ⟨hport, r, hr, hbase, hend, fun q hq => ?_, fun hall => ?_, fun hle q hq => ?_⟩
  · obtain ⟨h₁, h₂⟩ := hq
    omega
  · have hlast := hall (a.port + a.width - 1) ⟨by omega, by omega⟩
    omega
  · obtain ⟨h₁, h₂⟩ := hq
    omega

theorem io_syscall_within_grant_serial :
    let p := Pcb.bare .user [⟨1, .accessIo ⟨0x3F8, 8⟩⟩]
    (ioSyscallIsr (some p) (fun _ _ => 0) ⟨3, 0x3F8, 0x41, 0⟩).2 = some ⟨0x3F8, 1, some 0x41⟩ ∧
      ∃ r, Granted p r ∧ r.base ≤ 0x3F8 ∧ 0x3F8 < r.base + r.count := by
  intro p
  have h : (ioSyscallIsr (some p) (fun _ _ => 0) ⟨3, 0x3F8, 0x41, 0⟩).2 =
      some ⟨0x3F8, 1, some 0x41⟩ := by decide
  obtain ⟨-, r, hr, hbase, hend, -⟩ := io_syscall_within_grant rfl h
  exact ⟨h, r, hr, hbase, hend⟩

/-- Four bytes written at the last port of a range touch three ports outside of it. -/
theorem io_syscall_leaves_grant :
    ¬∀ (p : Pcb) (device : (port width : Nat) → Nat) (cfg : IoSyscallData) (a : Access),
      p.priv = .user → (ioSyscallIsr (some p) device cfg).2 = some a →
        ∃ r, Granted p r ∧ ∀ q, a.Touches q → r.base ≤ q ∧ q < r.base + r.count := by
  intro h
  obtain ⟨r, ⟨e, he, hcap⟩, hall⟩ := h (Pcb.bare .user [⟨1, .accessIo ⟨0x3F8, 8⟩⟩]) (fun _ _ => 0)
    ⟨5, 0x3FF, 0, 0⟩ ⟨0x3FF, 4, some 0⟩ rfl (by decide)
  have hr : r = ⟨0x3F8, 8⟩ := by
    cases List.mem_singleton.mp he
    exact (Cap.accessIo.inj hcap).symm
  have hlast := (hall 0x402 ⟨by decide, by decide⟩).2
  rw [hr] at hlast
  exact absurd hlast (by decide)

end Ukernel.Kernel
