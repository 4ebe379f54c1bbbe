import Mathlib.Algebra.Order.Ring.Nat
import Mathlib.Logic.Function.Basic

/-!
# Thirty-two bit words and byte memory

Machine words are natural numbers; an operation that can overflow is written with its
reduction modulo `2 ^ 32`. Memory is a function from addresses to bytes. The module names
nothing of the kernel.

## Main definitions

* `pageSize`, `pageMask`, `pageAlign`: page arithmetic on words
* `memset`, `load32`, `store32`: byte memory with little-endian words

## Main results

* `memset_of_forall_ne`: a fill leaves the addresses outside its range alone
* `load32_store32`, `load32_store32_of_disjoint`: a word read after a word write
-/

namespace Ukernel.Machine

/-- A byte of memory. -/
abbrev Byte := BitVec 8

/-- Byte memory, indexed by address. -/
abbrev Memory := Nat → Byte

/-- `PAGE_SIZE`. -/
def pageSize : Nat := 4096

/-- `x & ~(PAGE_SIZE - 1)`: the page a word lies in. -/
def pageMask (x : Nat) : Nat := x - x % 4096

/-- `PAGE_ALIGN(x)`: round up to a page in thirty-two bit arithmetic. -/
def pageAlign (x : Nat) : Nat := pageMask ((x + 4095) % 2 ^ 32)

/-- `DIV_ROUND_UP(n, d)`. -/
def divRoundUp (n d : Nat) : Nat := (n + d - 1) / d

theorem pageMask_mod (x : Nat) : pageMask x % 4096 = 0 := by
  unfold pageMask
  omega

theorem pageMask_le (x : Nat) : pageMask x ≤ x := Nat.sub_le _ _

theorem pageAlign_mod (x : Nat) : pageAlign x % 4096 = 0 := pageMask_mod _

theorem pageAlign_of_aligned {x : Nat} (hx : x < 2 ^ 32) (h : x % 4096 = 0) :
    pageAlign x = x := by
  unfold pageAlign pageMask
  omega

/-- `memset(a, v, n)`; the range wraps at the end of the address space. -/
def memset (m : Memory) (a : Nat) (v : Byte) (n : Nat) : Memory :=
  fun x => if (x + (2 ^ 32 - a % 2 ^ 32)) % 2 ^ 32 < n then v else m x

theorem memset_of_forall_ne {m : Memory} {a n x : Nat} (v : Byte) (hx : x < 2 ^ 32)
    (h : ∀ i < n, (a + i) % 2 ^ 32 ≠ x) : memset m a v n x = m x := by
  unfold memset
  rw [if_neg]
  intro hlt
  exact h _ hlt (by omega)

theorem memset_add {m : Memory} {a n i : Nat} (v : Byte) (hi : i < n) (hn : n ≤ 2 ^ 32) :
    memset m a v n ((a + i) % 2 ^ 32) = v := by
  unfold memset
  rw [if_pos]
  omega

/-- `memcpy(a, src, n)` from bytes given by offset; the range wraps like that of `memset`. -/
def memcpy (m : Memory) (a : Nat) (src : Nat → Byte) (n : Nat) : Memory :=
  fun x =>
    let i := (x + (2 ^ 32 - a % 2 ^ 32)) % 2 ^ 32
    if i < n then src i else m x

/-- The little-endian word at an address. -/
def load32 (m : Memory) (a : Nat) : Nat :=
  (m a).toNat + 256 * (m (a + 1)).toNat + 65536 * (m (a + 2)).toNat +
    16777216 * (m (a + 3)).toNat

/-- Store a little-endian word at an address. -/
def store32 (m : Memory) (a v : Nat) : Memory := fun x =>
  if x = a then BitVec.ofNat 8 v
  else if x = a + 1 then BitVec.ofNat 8 (v / 256)
  else if x = a + 2 then BitVec.ofNat 8 (v / 65536)
  else if x = a + 3 then BitVec.ofNat 8 (v / 16777216)
  else m x

theorem load32_congr {m m' : Memory} {a : Nat} (h : ∀ x, a ≤ x → x < a + 4 → m x = m' x) :
    load32 m a = load32 m' a := by
  unfold load32
  rw [h a (by omega) (by omega), h (a + 1) (by omega) (by omega), h (a + 2) (by omega) (by omega),
    h (a + 3) (by omega) (by omega)]

theorem load32_lt (m : Memory) (a : Nat) : load32 m a < 2 ^ 32 := by
  unfold load32
  omega

theorem load32_store32 (m : Memory) (a v : Nat) : load32 (store32 m a v) a = v % 2 ^ 32 := by
  simp [load32, store32]
  omega

theorem store32_apply_of_disjoint (m : Memory) {a x : Nat} (v : Nat)
    (h : x < a ∨ a + 4 ≤ x) : store32 m a v x = m x := by
  unfold store32
  rw [if_neg (by omega), if_neg (by omega), if_neg (by omega), if_neg (by omega)]

theorem load32_store32_of_disjoint (m : Memory) {a b : Nat} (v : Nat)
    (h : a + 4 ≤ b ∨ b + 4 ≤ a) : load32 (store32 m b v) a = load32 m a :=
  load32_congr fun _ _ _ => store32_apply_of_disjoint m v (by omega)

end Ukernel.Machine
