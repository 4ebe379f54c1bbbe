import Mathlib.Algebra.Order.Ring.Int
import Mathlib.Logic.Function.Basic
import Mathlib.Tactic.Common

/-!
# Buffers

A buffer that somebody else provides: memory from its start on, of which only the bytes below a
limit may be accessed. An access beyond the limit has no result, so that a function that returns has
stayed inside.

## Main definitions

* `Buffer`, `Buffer.get`, `Buffer.set`: single bytes
* `Buffer.getU32`, `Buffer.setU32`: words, with the low byte first
* `chars`, `Buffer.strlen`: strings that end with a zero

## Main results

* `Buffer.word_putWord`, `Buffer.word_putWord_of_ne`: what a written word leaves
* `Buffer.strlen_eq`: a string that ends inside the buffer is measured inside the buffer
-/

namespace Ukernel.Lib

/-- Memory of which the first `limit` bytes may be accessed. -/
structure Buffer where
  bytes : Nat → UInt8
  limit : Nat

/-- The characters from `o` on before the first zero, of `n` bytes at most. -/
def chars (f : Nat → UInt8) : (n o : Nat) → List UInt8
  | 0, _ => []
  | n + 1, o => if f o = 0 then [] else f o :: chars f n (o + 1)

/-- One of the `n` bytes from `o` on is zero. -/
def Terminated (f : Nat → UInt8) (n o : Nat) : Prop := ∃ k < n, f (o + k) = 0

section Chars

variable {f : Nat → UInt8} {n o : Nat}

theorem Terminated.next (h : Terminated f (n + 1) o) (hne : f o ≠ 0) : Terminated f n (o + 1) := by
  obtain ⟨k, hk, hzero⟩ := h
  cases k with
  | zero => exact absurd hzero hne
  | succ k => exact ⟨k, by omega, by rwa [Nat.add_assoc, Nat.add_comm 1]⟩

theorem not_terminated_zero : ¬Terminated f 0 o := fun ⟨_, hk, _⟩ => Nat.not_lt_zero _ hk

/-- Behind its characters stands the zero of a string. -/
theorem chars_end (h : Terminated f n o) :
    (chars f n o).length < n ∧ f (o + (chars f n o).length) = 0 := by
  induction n generalizing o with
  | zero => exact absurd h not_terminated_zero
  | succ n ih =>
    by_cases hzero : f o = 0
    · simp [chars, hzero]
    · obtain ⟨hlen, hend⟩ := ih (h.next hzero)
      simp only [chars, if_neg hzero, List.length_cons]
      exact ⟨by omega, by rwa [Nat.add_comm _ 1, ← Nat.add_assoc]⟩

/-- A copy of a string has the same characters. -/
theorem chars_copy {g : Nat → UInt8} {m o' : Nat} (h : Terminated f n o)
    (hlen : (chars f n o).length < m)
    (hcopy : ∀ j ≤ (chars f n o).length, g (o' + j) = f (o + j)) :
    Terminated g m o' ∧ chars g m o' = chars f n o := by
  refine ⟨⟨_, hlen, (hcopy _ (Nat.le_refl _)).trans (chars_end h).2⟩, ?_⟩
  induction n generalizing m o o' with
  | zero => exact absurd h not_terminated_zero
  | succ n ih =>
    obtain ⟨m, rfl⟩ : ∃ k, m = k + 1 := ⟨m - 1, by omega⟩
    have hfirst : g o' = f o := hcopy 0 (Nat.zero_le _)
    by_cases hzero : f o = 0
    · simp [chars, hfirst, hzero]
    · simp only [chars, hfirst, if_neg hzero, List.length_cons] at hlen hcopy ⊢
      refine congrArg _ (ih (h.next hzero) (by omega) fun j hj => ?_)
      have := hcopy (j + 1) (by omega)
      rwa [Nat.add_comm j, ← Nat.add_assoc, ← Nat.add_assoc] at this

end Chars

namespace Buffer

variable {b : Buffer} {o : Nat}

/-- Read a byte. -/
def get (b : Buffer) (o : Nat) : Option UInt8 := if o < b.limit then some (b.bytes o) else none

/-- Write a byte. -/
def set (b : Buffer) (o : Nat) (x : UInt8) : Option Buffer :=
  if o < b.limit then some { b with bytes := Function.update b.bytes o x } else none

/-- Read a word. -/
def getU32 (b : Buffer) (o : Nat) : Option Nat := do
  let b₀ ← b.get o
  let b₁ ← b.get (o + 1)
  let b₂ ← b.get (o + 2)
  let b₃ ← b.get (o + 3)
  some (b₀.toNat + 2 ^ 8 * b₁.toNat + 2 ^ 16 * b₂.toNat + 2 ^ 24 * b₃.toNat)

/-- Write a word. -/
def setU32 (b : Buffer) (o w : Nat) : Option Buffer := do
  let b ← b.set o (.ofNat w)
  let b ← b.set (o + 1) (.ofNat (w / 2 ^ 8))
  let b ← b.set (o + 2) (.ofNat (w / 2 ^ 16))
  b.set (o + 3) (.ofNat (w / 2 ^ 24))

/-- The number of bytes before the first zero from `o` on. -/
def strlen (b : Buffer) : (fuel o : Nat) → Option Nat
  | 0, _ => none
  | fuel + 1, o => do
    let c ← b.get o
    if c = 0 then some 0 else (b.strlen fuel (o + 1)).map (· + 1)

/-- The word at an offset. -/
def word (b : Buffer) (o : Nat) : Nat :=
  (b.bytes o).toNat + 2 ^ 8 * (b.bytes (o + 1)).toNat + 2 ^ 16 * (b.bytes (o + 2)).toNat +
    2 ^ 24 * (b.bytes (o + 3)).toNat

/-- The buffer with a word written. -/
def putWord (b : Buffer) (o w : Nat) : Buffer where
  bytes i := if o ≤ i ∧ i < o + 4 then .ofNat (w / 2 ^ (8 * (i - o))) else b.bytes i
  limit := b.limit

@[simp] theorem putWord_limit (b : Buffer) (o w : Nat) : (b.putWord o w).limit = b.limit := rfl

theorem get_eq (h : o < b.limit) : b.get o = some (b.bytes o) := if_pos h

theorem getU32_eq (h : o + 3 < b.limit) : b.getU32 o = some (b.word o) := by
  unfold getU32
  rw [get_eq (by omega), get_eq (by omega), get_eq (by omega), get_eq h]
  rfl

theorem setU32_eq (w : Nat) (h : o + 3 < b.limit) : b.setU32 o w = some (b.putWord o w) := by
  have h₀ : o < b.limit := by omega
  have h₁ : o + 1 < b.limit := by omega
  have h₂ : o + 2 < b.limit := by omega
  simp only [setU32, set, h, h₀, h₁, h₂, if_true, Option.bind_eq_bind, Option.bind_some, putWord,
    Option.some.injEq, Buffer.mk.injEq, and_true]
  ext i
  -- the four bytes one after the other, and the others
  by_cases hi : o ≤ i ∧ i < o + 4
  · obtain rfl | rfl | rfl | rfl : i = o ∨ i = o + 1 ∨ i = o + 2 ∨ i = o + 3 := by omega
    all_goals simp
  · rw [if_neg hi]
    simp only [Function.update_apply]
    rw [if_neg (by omega), if_neg (by omega), if_neg (by omega), if_neg (by omega)]

theorem word_lt (b : Buffer) (o : Nat) : b.word o < 2 ^ 32 := by
  have h₀ := (b.bytes o).toNat_lt
  have h₁ := (b.bytes (o + 1)).toNat_lt
  have h₂ := (b.bytes (o + 2)).toNat_lt
  have h₃ := (b.bytes (o + 3)).toNat_lt
  unfold word
  omega

/-- A written word is read back. -/
theorem word_putWord (b : Buffer) (o : Nat) {w : Nat} (hw : w < 2 ^ 32) :
    (b.putWord o w).word o = w := by
  simp only [word, putWord]
  simp
  omega

/-- A written word changes no other word. -/
theorem word_putWord_of_ne (b : Buffer) {o o' : Nat} (w : Nat) (h : o' + 4 ≤ o ∨ o + 4 ≤ o') :
    (b.putWord o w).word o' = b.word o' := by
  simp only [word, putWord]
  rw [if_neg (by omega), if_neg (by omega), if_neg (by omega), if_neg (by omega)]

/-- A string that ends inside the buffer is measured inside the buffer. -/
theorem strlen_eq {fuel : Nat} (hend : Terminated b.bytes (b.limit - o) o)
    (hfuel : b.limit - o ≤ fuel) :
    b.strlen fuel o = some (chars b.bytes (b.limit - o) o).length := by
  induction fuel generalizing o with
  | zero =>
    rw [Nat.le_zero.mp hfuel] at hend
    exact absurd hend not_terminated_zero
  | succ fuel ih =>
    obtain ⟨k, hk, -⟩ := id hend
    obtain ⟨n, hn⟩ : ∃ n, b.limit - o = n + 1 := ⟨b.limit - o - 1, by omega⟩
    rw [hn] at hend ⊢
    rw [strlen, get_eq (by omega), chars]
    by_cases hzero : b.bytes o = 0
    · simp [hzero]
    · have hrest : n = b.limit - (o + 1) := by omega
      have := ih (hrest ▸ hend.next hzero) (by omega)
      simp [hzero, this, hrest]

end Buffer

end Ukernel.Lib
