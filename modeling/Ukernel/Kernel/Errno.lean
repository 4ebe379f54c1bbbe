import Mathlib.Algebra.Order.Ring.Int

/-!
# Error codes

The codes of `include/kernel/errno.h` that the modelled functions return, and the sign of words: a
function that answers with a number or with a code is tested for its sign.
-/

namespace Ukernel.Kernel

/-- The signed number of a word. -/
def signedOf (w : Nat) : Int := if w < 2 ^ 31 then w else w - 2 ^ 32

theorem signedOf_nonneg {w : Nat} (h : w < 2 ^ 31) : 0 ≤ signedOf w := by
  unfold signedOf
  rw [if_pos h]
  exact Int.natCast_nonneg w

/-- `E_NOMEM`. -/
def eNomem : Int := -1

/-- `E_INVAL`. -/
def eInval : Int := -2

/-- `E_FAULT`. -/
def eFault : Int := -3

/-- `E_NODEV`. -/
def eNodev : Int := -9

/-- `E_BUSY`. -/
def eBusy : Int := -20

/-- `E_EXISTS`. -/
def eExists : Int := -21

/-- `E_LIMIT`. -/
def eLimit : Int := -24

/-- `E_PERM`. -/
def ePerm : Int := -30

/-- `E_IRQ_NOTAVAIL`. -/
def eIrqNotavail : Int := -50

/-- `E_IRQ_INUSE`. -/
def eIrqInuse : Int := -51

/-- `E_THREAD_CREATE`. -/
def eThreadCreate : Int := -63

/-- `E_NOTFOUND`. -/
def eNotfound : Int := -90

/-- `E_INTERNAL`. -/
def eInternal : Int := -100

@[simp] theorem eNomem_ne_zero : eNomem ≠ 0 := by decide

@[simp] theorem eInval_ne_zero : eInval ≠ 0 := by decide

@[simp] theorem eFault_ne_zero : eFault ≠ 0 := by decide

@[simp] theorem eExists_ne_zero : eExists ≠ 0 := by decide

@[simp] theorem eLimit_ne_zero : eLimit ≠ 0 := by decide

@[simp] theorem ePerm_ne_zero : ePerm ≠ 0 := by decide

end Ukernel.Kernel
