import JavaVsixLite.Foundation.ByteText

/-!
# Decimal numbers

Reading an unsigned number from its digits.  A number that is printed is read back.
-/

namespace JavaVsixLite
namespace Foundation

def decimal (n : Nat) : Text :=
  Nat.toDigits 10 n

/-- One `+` may stand in front. -/
def withoutPlus : Text -> Text
  | '+' :: rest => rest
  | text => text

/-- `parse` of an unsigned integer type with `size` values. -/
def parseUnsigned (size : Nat) (text : Text) : Option Nat :=
  let digits := withoutPlus text
  if digits.isEmpty || !digits.all Char.isDigit then none
  else
    let n := Nat.ofDigitChars 10 digits 0
    if n < size then some n else none

theorem isDigit_of_mem_decimal {n : Nat} {c : Char} (h : c ∈ decimal n) : c.isDigit = true :=
  Nat.isDigit_of_mem_toDigits (by decide) (by decide) h

theorem decimal_ne_nil (n : Nat) : decimal n ≠ [] :=
  Nat.toDigits_ne_nil

theorem withoutPlus_decimal (n : Nat) : withoutPlus (decimal n) = decimal n := by
  unfold withoutPlus
  split
  · rename_i rest heq
    have hplus : '+' ∈ decimal n := by
      rw [heq]
      exact List.mem_cons_self
    exact absurd (isDigit_of_mem_decimal hplus) (by decide)
  · rfl

theorem parseUnsigned_decimal {size n : Nat} (h : n < size) :
    parseUnsigned size (decimal n) = some n := by
  have hall : (decimal n).all Char.isDigit = true := by
    rw [List.all_eq_true]
    intro c hc
    exact isDigit_of_mem_decimal hc
  have hempty : (decimal n).isEmpty = false := by
    simp [decimal_ne_nil]
  have hvalue : Nat.ofDigitChars 10 (decimal n) 0 = n := Nat.ofDigitChars_ten_toDigits
  simp [parseUnsigned, withoutPlus_decimal, hall, hempty, hvalue, h]

end Foundation
end JavaVsixLite
