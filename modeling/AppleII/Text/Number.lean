/-!
# Numbers in digits

Reading and writing natural numbers in hexadecimal and decimal digits.
-/

namespace AppleII.Text

/-- The value of a hexadecimal digit, of either case. -/
def hexValue? (c : Char) : Option Nat :=
  if '0' ≤ c ∧ c ≤ '9' then some (c.toNat - '0'.toNat)
  else if 'a' ≤ c ∧ c ≤ 'f' then some (c.toNat - 'a'.toNat + 10)
  else if 'A' ≤ c ∧ c ≤ 'F' then some (c.toNat - 'A'.toNat + 10)
  else none

/-- The value of a digit below a base of at most 16. -/
def digitValue? (base : Nat) (c : Char) : Option Nat := (hexValue? c).filter (· < base)

/-- The number that digits stand for. -/
def ofDigits? (base : Nat) (digits : List Char) : Option Nat :=
  digits.foldlM (fun n c => (digitValue? base c).map (n * base + ·)) 0

/-- A number of at most `max`, written with one digit or more, after a plus sign if there is one. -/
def parseNat? (base max : Nat) (s : String) : Option Nat :=
  let digits := match s.toList with
    | '+' :: r => r
    | r => r
  if digits.isEmpty then none else (ofDigits? base digits).filter (· ≤ max)

/-- Upper-case hexadecimal digits, at least `width` of them. -/
def upperHex (width n : Nat) : String :=
  let digits := (Nat.toDigits 16 n).map Char.toUpper
  .ofList (List.replicate (width - digits.length) '0' ++ digits)

/-- Lower-case hexadecimal digits, as many as are needed. -/
def lowerHex (n : Nat) : String := .ofList (Nat.toDigits 16 n)

end AppleII.Text
