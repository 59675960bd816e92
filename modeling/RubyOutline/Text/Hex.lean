namespace RubyOutline

/-- The last `width` digits of a number. -/
def hexDigits : (width : Nat) → Nat → List Char
  | 0, _ => []
  | width + 1, n => hexDigits width (n / 16) ++ [Nat.digitChar (n % 16)]

def hexDigitValue? (c : Char) : Option Nat :=
  if '0' ≤ c ∧ c ≤ '9' then some (c.toNat - '0'.toNat)
  else if 'a' ≤ c ∧ c ≤ 'f' then some (c.toNat - 'a'.toNat + 10)
  else if 'A' ≤ c ∧ c ≤ 'F' then some (c.toNat - 'A'.toNat + 10)
  else none

/-- The number written by a sequence of digits, continued from `n`. -/
def hexValue? (n : Nat) : List Char → Option Nat
  | [] => some n
  | c :: rest => (hexDigitValue? c).bind fun d => hexValue? (16 * n + d) rest

end RubyOutline
