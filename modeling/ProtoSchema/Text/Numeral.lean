/-!
# Decimal numerals

Writing numbers in decimal and reading them back. Reading knows the ASCII digits only.
-/
namespace ProtoSchema.Text

/-- The decimal digits of `n`, without leading zeros. -/
def decimal (n : Nat) : List Char :=
  Nat.toDigits 10 n

def decimalText (n : Nat) : String :=
  String.ofList (decimal n)

/-- The decimal digits of `i` behind its sign, which only a negative number shows. -/
def signedDecimal : Int → List Char
  | .ofNat n => decimal n
  | .negSucc n => '-' :: decimal (n + 1)

/-- The number that ASCII digits denote; leading zeros are allowed. -/
def natOfDigits? (digits : List Char) : Option Nat :=
  if digits.all Char.isDigit then some (Nat.ofDigitChars 10 digits 0) else none

theorem natOfDigits?_decimal (n : Nat) : natOfDigits? (decimal n) = some n := by
  have h : (decimal n).all Char.isDigit = true := by
    simp only [List.all_eq_true]
    exact fun c hc => Nat.isDigit_of_mem_toDigits (by decide) (by decide) hc
  rw [natOfDigits?, if_pos h, decimal, Nat.ofDigitChars_toDigits (by decide) (by decide)]

end ProtoSchema.Text
