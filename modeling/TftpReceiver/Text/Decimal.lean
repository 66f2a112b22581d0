/-! Decimal numerals: printing a number and reading one below a bound. -/

namespace TftpReceiver.Decimal

def render (n : Nat) : String := String.ofList (Nat.toDigits 10 n)

def digits? (text : List Char) : Option Nat :=
  if text ≠ [] ∧ text.all Char.isDigit then some (Nat.ofDigitChars 10 text 0) else none

/-- A numeral may carry one plus sign and any number of leading zeros. -/
def parse? (limit : Nat) (text : String) : Option Nat :=
  let value := match text.toList with
    | '+' :: rest => digits? rest
    | cs => digits? cs
  value.filter (· ≤ limit)

def maxWord16 : Nat := 65535
def maxWord32 : Nat := 4294967295
def maxWord64 : Nat := 18446744073709551615

end TftpReceiver.Decimal
