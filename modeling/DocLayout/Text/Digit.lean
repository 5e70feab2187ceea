/-
  Digits.

  A decimal digit is a character of general category Nd (Unicode 14); these come in runs of ten,
  from zero to nine, and `decimalZeros` lists where the runs begin. Superscripts, circled numbers
  and their like are digits as well, but no decimal ones: no place value is read from them.
-/

namespace DocLayout.Text

/-- The zeros of the runs of ten decimal digits, by code point. -/
def decimalZeros : Array Nat := #[
  0x30, 0x660, 0x6f0, 0x7c0, 0x966, 0x9e6, 0xa66, 0xae6, 0xb66,
  0xbe6, 0xc66, 0xce6, 0xd66, 0xde6, 0xe50, 0xed0, 0xf20, 0x1040,
  0x1090, 0x17e0, 0x1810, 0x1946, 0x19d0, 0x1a80, 0x1a90, 0x1b50, 0x1bb0,
  0x1c40, 0x1c50, 0xa620, 0xa8d0, 0xa900, 0xa9d0, 0xa9f0, 0xaa50, 0xabf0,
  0xff10, 0x104a0, 0x10d30, 0x11066, 0x110f0, 0x11136, 0x111d0, 0x112f0, 0x11450,
  0x114d0, 0x11650, 0x116c0, 0x11730, 0x118e0, 0x11950, 0x11c50, 0x11d50, 0x11da0,
  0x16a60, 0x16ac0, 0x16b50, 0x1d7ce, 0x1d7d8, 0x1d7e2, 0x1d7ec, 0x1d7f6, 0x1e140,
  0x1e2f0, 0x1e950, 0x1fbf0]

/-- Ranges of the digits that are not decimal, by first and last code point. -/
def otherDigits : Array (Nat × Nat) := #[
  (0xb2, 0xb3), (0xb9, 0xb9), (0x1369, 0x1371), (0x19da, 0x19da), (0x2070, 0x2070),
  (0x2074, 0x2079), (0x2080, 0x2089), (0x2460, 0x2468), (0x2474, 0x247c), (0x2488, 0x2490),
  (0x24ea, 0x24ea), (0x24f5, 0x24fd), (0x24ff, 0x24ff), (0x2776, 0x277e), (0x2780, 0x2788),
  (0x278a, 0x2792), (0x10a40, 0x10a43), (0x10e60, 0x10e68), (0x11052, 0x1105a), (0x1f100, 0x1f10a)]

/-- The value of a decimal digit. -/
def decimalValue? (c : Char) : Option Nat :=
  (decimalZeros.find? fun start => start ≤ c.toNat && c.toNat < start + 10).map (c.toNat - ·)

/-- Whether a character is a digit of any kind. -/
def isDigit (c : Char) : Bool :=
  (decimalValue? c).isSome || otherDigits.any fun range => range.1 ≤ c.toNat && c.toNat ≤ range.2

/-- Whether a text is made of digits only, and of one at least. -/
def allDigits (s : List Char) : Bool := !s.isEmpty && s.all isDigit

/-- A decimal digit is a digit. -/
theorem isDigit_of_decimalValue? {c : Char} {n : Nat} (h : decimalValue? c = some n) :
    isDigit c = true := by simp [isDigit, h]

/-- The ASCII digits are the first run. -/
theorem decimalValue?_of_isDigit {c : Char} (h : c.isDigit) :
    decimalValue? c = some (c.toNat - '0'.toNat) := by
  rw [Char.isDigit, Bool.and_eq_true, decide_eq_true_eq, decide_eq_true_eq] at h
  have hlow : 0x30 ≤ c.toNat := h.1
  have hhigh : c.toNat ≤ 0x39 := h.2
  have hfirst : (decide (0x30 ≤ c.toNat) && decide (c.toNat < 0x30 + 10)) = true := by
    rw [Bool.and_eq_true, decide_eq_true_eq, decide_eq_true_eq]
    omega
  have hfind : decimalZeros.toList.find? (fun start => start ≤ c.toNat && c.toNat < start + 10) =
      some 0x30 := by
    exact List.find?_cons_of_pos hfirst
  rw [decimalValue?, ← Array.find?_toList, hfind]
  rfl

/-- Numbers are written in digits. -/
theorem isDigit_toString (n : Nat) : ∀ c ∈ (toString n).toList, c.isDigit := by
  intro c hc
  rw [Nat.toString_eq_repr, Nat.toList_repr] at hc
  exact Nat.isDigit_of_mem_toDigits (by decide) (by decide) hc

/-- The digits that a number is written in have its value. -/
theorem ofDigitChars_toString (n : Nat) : Nat.ofDigitChars 10 (toString n).toList 0 = n := by
  rw [Nat.toString_eq_repr, Nat.toList_repr, Nat.ofDigitChars_toDigits (by decide) (by decide)]

end DocLayout.Text
