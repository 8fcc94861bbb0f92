namespace ScriptLexer

structure Decimal where
  units : Nat
  places : Nat
deriving DecidableEq

namespace Decimal

def ofDigits (whole fraction : List Char) : Decimal :=
  ⟨Nat.ofDigitChars 10 (whole ++ fraction) 0,fraction.length⟩

def wholeDigits (d : Decimal) : List Char := Nat.toDigits 10 (d.units / Nat.pow 10 d.places)

def fractionDigits (d : Decimal) : List Char :=
  let digits := (Nat.toDigits 10 (d.units % Nat.pow 10 d.places)).leftpad d.places '0'
  (digits.reverse.dropWhile (· == '0')).reverse

-- Positional, never with an exponent; the point is written only when a digit follows it.
def text (d : Decimal) : List Char :=
  match d.fractionDigits with
  | [] => d.wholeDigits
  | digits => d.wholeDigits ++ '.' :: digits

end Decimal

end ScriptLexer
