import Mathlib.Data.Nat.Digits.Lemmas
import Mathlib.Tactic.Common

/-!
# Numbers as text

`itoa`, `utox` and `utoa` of `kernel/lib/string.c`. Each of them writes the digits of a number into
a temporary array, lowest digit first, and copies them back from the end. An access outside the
temporary array has no result. Negation wraps as it does on the machine, so that the lowest number
is its own opposite.

## Main definitions

* `itoa`, `utox`, `utoa`: the bytes that are written, with the length that is returned
* `readInt`: the number that a text stands for
* `numText`: the text of a number

## Main results

* `itoa_eq`, `utox_eq`, `utoa_eq`: the functions write the text of the number
* `conversions_read_back`: what is written reads back as the number, without leading zeros
-/

namespace Ukernel.Lib

/-! ## The source -/

/-- The character of a digit. -/
def digitChar (uppercase : Bool) (digit : Nat) : UInt8 :=
  if digit < 10 then .ofNat (48 + digit)
  else if uppercase then .ofNat (65 + (digit - 10)) else .ofNat (97 + (digit - 10))

/-- `temp[index++] = c` in an array of `cap` bytes. -/
def pushTemp (cap : Nat) (temp : List UInt8) (c : UInt8) : Option (List UInt8) :=
  if temp.length < cap then some (temp ++ [c]) else none

/-- The loop over the digits of a number. -/
def digitLoop (cap base : Nat) (uppercase : Bool) :
    (fuel n : Nat) → List UInt8 → Option (List UInt8)
  | 0, _, _ => none
  | fuel + 1, n, temp =>
    if n = 0 then some temp
    else do
      let temp ← pushTemp cap temp (digitChar uppercase (n % base))
      digitLoop cap base uppercase fuel (n / base) temp

/-- The loop that copies the temporary array back from its end. -/
def copyBack (temp : List UInt8) : (index : Nat) → Option (List UInt8)
  | 0 => some []
  | index + 1 => do
    let c ← temp[index]?
    let rest ← copyBack temp index
    some (c :: rest)

/-- `itoa`: the length that is returned and the bytes of the buffer that are written. -/
def itoa (num : BitVec 32) (base : Int) : Option (Nat × List UInt8) :=
  if base < 2 ∨ base > 36 then some (0, [])
  else
    let isNegative : Bool := num.toInt < 0 ∧ base = 10
    let n := if isNegative then (-num).toNat else num.toNat
    if n = 0 then some (1, [48])
    else do
      let temp ← digitLoop 32 base.toNat false 33 n []
      let temp ← if isNegative then pushTemp 32 temp 45 else some temp
      let buffer ← copyBack temp temp.length
      some (buffer.length, buffer)

/-- `utox`, which ends its text with a zero. -/
def utox (num : BitVec 32) (uppercase : Bool) : Option (Nat × List UInt8) :=
  if num = 0 then some (1, [48, 0])
  else do
    let temp ← digitLoop 16 16 uppercase 33 num.toNat []
    let buffer ← copyBack temp temp.length
    some (buffer.length, buffer ++ [0])

/-- `utoa`, which ends its text with a zero unless the number is 0. -/
def utoa (num : BitVec 32) : Option (Nat × List UInt8) :=
  if num = 0 then some (1, [48])
  else do
    let temp ← digitLoop 32 10 false 33 num.toNat []
    let buffer ← copyBack temp temp.length
    some (buffer.length, buffer ++ [0])

/-! ## Reading -/

/-- The digit of a character. -/
def digitOf (base : Nat) (c : UInt8) : Option Nat :=
  let d := if 48 ≤ c ∧ c ≤ 57 then c.toNat - 48 else if 65 ≤ c ∧ c ≤ 90 then c.toNat - 55
    else if 97 ≤ c ∧ c ≤ 122 then c.toNat - 87 else base
  if d < base then some d else none

/-- The number that a text of digits stands for. -/
def readNat (base : Nat) (cs : List UInt8) : Option Nat :=
  cs.foldlM (fun v c => (digitOf base c).map (· + base * v)) 0

/-- The number that a text stands for, which may start with a minus. -/
def readInt (base : Nat) : List UInt8 → Option Int
  | [] => none
  | c :: cs => if c = 45 then (readNat base cs).map (-·) else (readNat base (c :: cs)).map (·)

/-- The text has a zero in front, after a minus or without, only if it is the text of 0. -/
def Canonical (num : BitVec 32) (cs : List UInt8) : Prop :=
  num = 0 ∧ cs = [48] ∨
    num ≠ 0 ∧ ∃ d ds, d ≠ 45 ∧ d ≠ 48 ∧ (cs = d :: ds ∨ cs = 45 :: d :: ds)

/-- A conversion of `num` returns a text that stands for `value`. -/
def Converts (num : BitVec 32) (base : Nat) (value : Int) (result : Option (Nat × List UInt8)) :
    Prop :=
  ∃ cs rest, result = some (cs.length, cs ++ rest) ∧ readInt base cs = some value ∧
    Canonical num cs

/-! ## Texts -/

/-- The text of a list of digits, lowest first. -/
def textOf (uppercase : Bool) (ds : List Nat) : List UInt8 := (ds.map (digitChar uppercase)).reverse

/-- The text of a number. -/
def numText (uppercase : Bool) (base n : Nat) : List UInt8 :=
  if n = 0 then [48] else textOf uppercase (Nat.digits base n)

/-- The text of a number that is signed in base 10. -/
def signedText (num : BitVec 32) (base : Nat) : List UInt8 :=
  if num.toInt < 0 ∧ base = 10 then 45 :: numText false 10 (-num).toNat
  else numText false base num.toNat

variable {base n : Nat} {uppercase : Bool}

theorem digitOf_digitChar (uppercase : Bool) {d : Nat} (hd : d < base) (hbase : base ≤ 36) :
    digitOf base (digitChar uppercase d) = some d := by
  have hchar : ∀ d < 36, ∀ u, digitOf (d + 1) (digitChar u d) = some d := by decide
  have := hchar d (by omega) uppercase
  unfold digitOf at this ⊢
  grind

theorem digitChar_ne (uppercase : Bool) {d : Nat} (hd : d < 36) :
    digitChar uppercase d ≠ 45 ∧ (d ≠ 0 → digitChar uppercase d ≠ 48) := by
  have hchar : ∀ d < 36, ∀ u, digitChar u d ≠ 45 ∧ (d ≠ 0 → digitChar u d ≠ 48) := by decide
  exact hchar d hd uppercase

theorem readNat_textOf (hbase : base ≤ 36) {ds : List Nat} (hds : ∀ d ∈ ds, d < base) :
    readNat base (textOf uppercase ds) = some (Nat.ofDigits base ds) := by
  unfold readNat textOf
  induction ds with
  | nil => rfl
  | cons d ds ih =>
    rw [List.map_cons, List.reverse_cons, List.foldlM_append,
      ih fun x hx => hds x (List.mem_cons_of_mem d hx)]
    simp [digitOf_digitChar uppercase (hds d List.mem_cons_self) hbase, Nat.ofDigits_cons]

/-- The text of a number reads back, and starts with a digit other than 0 unless it is that of 0. -/
theorem numText_spec (uppercase : Bool) (hlo : 1 < base) (hhi : base ≤ 36) :
    readNat base (numText uppercase base n) = some n ∧
      (n = 0 ∧ numText uppercase base n = [48] ∨
        n ≠ 0 ∧ ∃ d ds, d ≠ 45 ∧ d ≠ 48 ∧ numText uppercase base n = d :: ds) := by
  unfold numText
  split_ifs with hn
  · have hzero : digitOf base 48 = some 0 := digitOf_digitChar false (d := 0) (by omega) hhi
    exact ⟨by simp [readNat, hzero, hn], Or.inl ⟨hn, rfl⟩⟩
  · have hlt : ∀ d ∈ Nat.digits base n, d < base := fun d hd => Nat.digits_lt_base hlo hd
    have hne : Nat.digits base n ≠ [] := Nat.digits_ne_nil_iff_ne_zero.mpr hn
    obtain ⟨hminus, hzero⟩ := digitChar_ne uppercase
      (Nat.lt_of_lt_of_le (hlt _ (List.getLast_mem hne)) hhi)
    refine ⟨by rw [readNat_textOf hhi hlt, Nat.ofDigits_digits], Or.inr ⟨hn, _,
      textOf uppercase (Nat.digits base n).dropLast, hminus,
      hzero (Nat.getLast_digit_ne_zero base hn), ?_⟩⟩
    have hsplit := congrArg (textOf uppercase) (List.dropLast_append_getLast hne)
    rw [← hsplit]
    simp [textOf]

/-! ## The loops -/

theorem digitLoop_eq (hbase : 1 < base) {cap fuel : Nat} (temp : List UInt8)
    (hcap : temp.length + (Nat.digits base n).length ≤ cap)
    (hfuel : (Nat.digits base n).length < fuel) :
    digitLoop cap base uppercase fuel n temp =
      some (temp ++ (Nat.digits base n).map (digitChar uppercase)) := by
  induction fuel generalizing n temp with
  | zero => omega
  | succ fuel ih =>
    rcases Nat.eq_zero_or_pos n with rfl | hn
    · simp [digitLoop]
    · rw [Nat.digits_def' hbase hn, List.length_cons] at hcap hfuel
      have hpush : pushTemp cap temp (digitChar uppercase (n % base)) =
          some (temp ++ [digitChar uppercase (n % base)]) := if_pos (by omega)
      rw [digitLoop, if_neg (by omega), hpush, Option.bind_eq_bind, Option.bind_some,
        ih _ (by simp; omega) (by omega), Nat.digits_def' hbase hn]
      simp

/-- A number of `k` digits at most fits an array of `cap` bytes. -/
theorem digitLoop_of_lt (hlo : 1 < base) {cap k : Nat} (hcap : k ≤ cap) (hk : k < 33)
    (hn : n < base ^ k) :
    digitLoop cap base uppercase 33 n [] =
      some ((Nat.digits base n).map (digitChar uppercase)) := by
  have hlen := (Nat.digits_length_le_iff hlo n).mpr hn
  rw [digitLoop_eq hlo [] (by simp; omega) (by omega), List.nil_append]

theorem copyBack_eq (temp : List UInt8) : copyBack temp temp.length = some temp.reverse := by
  have htake : ∀ k ≤ temp.length, copyBack temp k = some (temp.take k).reverse := by
    intro k hk
    induction k with
    | zero => simp [copyBack]
    | succ k ih =>
      rw [copyBack, List.getElem?_eq_getElem hk, ih (by omega),
        List.take_succ_eq_append_getElem hk, List.reverse_append]
      rfl
  simpa using htake temp.length (Nat.le_refl _)

theorem utoa_eq (num : BitVec 32) : ∃ rest, utoa num =
    some ((numText false 10 num.toNat).length, numText false 10 num.toNat ++ rest) := by
  unfold utoa numText
  by_cases hnum : num = 0
  · exact ⟨[], by simp [hnum]⟩
  · have hn : num.toNat ≠ 0 := by bv_omega
    have hlt : num.toNat < 10 ^ 10 := Nat.lt_trans num.isLt (by decide)
    rw [if_neg hnum, if_neg hn,
      digitLoop_of_lt (by decide) (show 10 ≤ 32 by decide) (by decide) hlt]
    exact ⟨[0], by simp [copyBack_eq, textOf]⟩

theorem utox_eq (num : BitVec 32) (uppercase : Bool) : ∃ rest, utox num uppercase =
    some ((numText uppercase 16 num.toNat).length, numText uppercase 16 num.toNat ++ rest) := by
  unfold utox numText
  by_cases hnum : num = 0
  · exact ⟨[0], by simp [hnum]⟩
  · have hn : num.toNat ≠ 0 := by bv_omega
    have hlt : num.toNat < 16 ^ 8 := num.isLt
    rw [if_neg hnum, if_neg hn, digitLoop_of_lt (by decide) (show 8 ≤ 16 by decide) (by decide) hlt]
    exact ⟨[0], by simp [copyBack_eq, textOf]⟩

/-- The opposite of a negative number. -/
theorem toNat_neg_eq {num : BitVec 32} (h : num.toInt < 0) :
    (-num).toNat ≠ 0 ∧ (-num).toNat < 10 ^ 10 ∧ -((-num).toNat : Int) = num.toInt := by
  rw [BitVec.toInt_eq_toNat_cond] at h ⊢
  rw [BitVec.toNat_neg]
  split_ifs at h ⊢ with hsmall
  · omega
  · omega

theorem itoa_eq (num : BitVec 32) (hlo : 1 < base) (hhi : base ≤ 36) :
    itoa num base = some ((signedText num base).length, signedText num base) := by
  have hrange : ¬((base : Int) < 2 ∨ (base : Int) > 36) := by omega
  have hten : (base : Int) = 10 ↔ base = 10 := by omega
  unfold itoa signedText
  simp only [if_neg hrange, hten, Int.toNat_natCast]
  by_cases hneg : num.toInt < 0 ∧ base = 10
  · -- the digits of the opposite number, and the minus
    obtain ⟨hn, hlt, -⟩ := toNat_neg_eq hneg.1
    simp only [hneg, and_self, decide_true, if_true]
    generalize (-num).toNat = n at *
    have hlen := (Nat.digits_length_le_iff (show 1 < 10 by decide) _).mpr hlt
    have hpush : pushTemp 32 ((Nat.digits 10 n).map (digitChar false)) 45 =
        some ((Nat.digits 10 n).map (digitChar false) ++ [45]) := if_pos (by simp; omega)
    rw [if_neg hn, digitLoop_of_lt (by decide) (show 10 ≤ 32 by decide) (by decide) hlt]
    simp [hn, hpush, copyBack_eq, numText, textOf]
  · simp only [hneg, if_false, decide_false, Bool.false_eq_true, numText]
    split_ifs with hn
    · rfl
    · have hlt : num.toNat < base ^ 32 := Nat.lt_of_lt_of_le num.isLt (Nat.pow_le_pow_left hlo 32)
      rw [digitLoop_of_lt hlo (Nat.le_refl 32) (by decide) hlt]
      simp [copyBack_eq, textOf]

/-! ## Reading back -/

theorem converts_numText (num : BitVec 32) (uppercase : Bool) (hlo : 1 < base) (hhi : base ≤ 36)
    (rest : List UInt8) : Converts num base num.toNat (some
      ((numText uppercase base num.toNat).length, numText uppercase base num.toNat ++ rest)) := by
  obtain ⟨hread, hform⟩ := numText_spec (n := num.toNat) uppercase hlo hhi
  refine ⟨_, rest, rfl, ?_⟩
  rcases hform with ⟨hn, htext⟩ | ⟨hn, d, ds, hminus, hd, htext⟩
  · rw [htext] at hread ⊢
    exact ⟨by simp [readInt, hread], Or.inl ⟨by bv_omega, rfl⟩⟩
  · rw [htext] at hread ⊢
    exact ⟨by simp [readInt, hread, hminus],
      Or.inr ⟨by rintro rfl; exact hn rfl, d, ds, hminus, hd, Or.inl rfl⟩⟩

/-- For every word and every base from 2 to 36, `itoa` returns a text that reads back as the number,
signed in base 10 and unsigned in the others, and so do `utoa` and `utox` in their bases. None of
them leaves its temporary array, and no text has a leading zero but that of 0. -/
theorem conversions_read_back (num : BitVec 32) {base : Nat} (hlo : 2 ≤ base) (hhi : base ≤ 36)
    (uppercase : Bool) :
    Converts num base (if base = 10 then num.toInt else num.toNat) (itoa num base) ∧
      Converts num 10 num.toNat (utoa num) ∧ Converts num 16 num.toNat (utox num uppercase) := by
  refine ⟨?_, ?_, ?_⟩
  · rw [itoa_eq num hlo hhi, signedText]
    by_cases hneg : num.toInt < 0 ∧ base = 10
    · obtain ⟨hn, -, hvalue⟩ := toNat_neg_eq hneg.1
      obtain ⟨hread, ⟨hzero, -⟩ | ⟨-, d, ds, hminus, hd, htext⟩⟩ :=
        numText_spec (n := (-num).toNat) false hlo hhi
      · exact absurd hzero hn
      · rw [if_pos hneg, if_pos hneg.2, ← hvalue]
        rw [hneg.2] at hread htext ⊢
        generalize numText false 10 (-num).toNat = cs at *
        refine ⟨45 :: cs, [], by rw [List.append_nil], by simp [readInt, hread], Or.inr ⟨?_, d, ds,
          hminus, hd, Or.inr (by rw [htext])⟩⟩
        rintro rfl
        exact hn rfl
    · have hvalue : (if base = 10 then num.toInt else num.toNat) = num.toNat := by
        have := num.isLt
        grind
      rw [if_neg hneg, hvalue]
      simpa using converts_numText num false hlo hhi []
  · obtain ⟨rest, heq⟩ := utoa_eq num
    rw [heq]
    exact converts_numText num false (by decide) (by decide) rest
  · obtain ⟨rest, heq⟩ := utox_eq num uppercase
    rw [heq]
    exact converts_numText num uppercase (by decide) (by decide) rest

/-- The lowest number in base 10. -/
theorem conversions_read_back_min : Converts (BitVec.intMin 32) 10 (-2147483648)
    (itoa (BitVec.intMin 32) 10) :=
  (conversions_read_back (BitVec.intMin 32) (show 2 ≤ 10 by decide) (by decide) false).1

end Ukernel.Lib
