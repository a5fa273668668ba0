/-!
# Decimal numerals

Natural numbers as their shortest decimal numeral, and numerals read back as numbers. Reading
accepts leading zeros; a caller that refuses them says so itself.
-/

namespace Typestate.Text

/-- A decimal digit. -/
def isDigit (c : Char) : Bool := '0' ≤ c && c ≤ '9'

/-- The value of a decimal digit. -/
def digitValue (c : Char) : Nat := c.toNat - '0'.toNat

/-- The digit of a value below ten. -/
def digitOf (n : Nat) : Char := Char.ofNat ('0'.toNat + n)

/-- The shortest decimal numeral of a number. -/
def decimal (n : Nat) : List Char :=
  if n < 10 then [digitOf n] else decimal (n / 10) ++ [digitOf (n % 10)]

/-- The number that a row of digits stands for. -/
def numeralValue (digits : List Char) : Nat :=
  digits.foldl (fun n c => 10 * n + digitValue c) 0

/-- The number written as a non-empty row of digits. -/
def ofDecimal? (cs : List Char) : Option Nat :=
  if !cs.isEmpty && cs.all isDigit then some (numeralValue cs) else none

theorem isDigit_digitOf {n : Nat} (h : n < 10) : isDigit (digitOf n) = true := by
  have : n = 0 ∨ n = 1 ∨ n = 2 ∨ n = 3 ∨ n = 4 ∨ n = 5 ∨ n = 6 ∨ n = 7 ∨ n = 8 ∨ n = 9 := by omega
  rcases this with h | h | h | h | h | h | h | h | h | h <;> subst h <;> decide

theorem digitValue_digitOf {n : Nat} (h : n < 10) : digitValue (digitOf n) = n := by
  have : n = 0 ∨ n = 1 ∨ n = 2 ∨ n = 3 ∨ n = 4 ∨ n = 5 ∨ n = 6 ∨ n = 7 ∨ n = 8 ∨ n = 9 := by omega
  rcases this with h | h | h | h | h | h | h | h | h | h <;> subst h <;> decide

theorem all_isDigit_decimal (n : Nat) : (decimal n).all isDigit = true := by
  fun_induction decimal n with
  | case1 n h => simp [isDigit_digitOf h]
  | case2 n h ih => simp [ih, isDigit_digitOf (Nat.mod_lt n (by decide))]

theorem decimal_ne_nil (n : Nat) : decimal n ≠ [] := by
  rw [decimal]
  split <;> simp

theorem numeralValue_decimal (n : Nat) : numeralValue (decimal n) = n := by
  fun_induction decimal n with
  | case1 n h => simp [numeralValue, digitValue_digitOf h]
  | case2 n h ih =>
    have hd := digitValue_digitOf (Nat.mod_lt n (show 0 < 10 by decide))
    simp only [numeralValue, List.foldl_append, List.foldl_cons, List.foldl_nil] at ih ⊢
    rw [ih, hd]
    omega

/-- Reading a written number gives it back. -/
theorem ofDecimal?_decimal (n : Nat) : ofDecimal? (decimal n) = some n := by
  have h : (decimal n).isEmpty = false := by simpa using decimal_ne_nil n
  simp only [ofDecimal?, h, all_isDigit_decimal, numeralValue_decimal]
  rfl

end Typestate.Text
