import TftpReceiver.Text.Binary64
import TftpReceiver.Toml

/-! TOML values without quotes: truth values, numbers, dates and times. -/

namespace TftpReceiver.Toml

def digitValue (c : Char) : Nat :=
  if c ≤ '9' then c.toNat - 48 else c.toLower.toNat - 87

def isDigitOf (radix : Nat) (c : Char) : Bool :=
  (c.isDigit ∨ ('a' ≤ c.toLower ∧ c.toLower ≤ 'f')) ∧ digitValue c < radix

/-- The digits of a run in which single underscores may stand between digits. -/
def digits? (radix : Nat) : List Char → Option (List Char)
  | [] => none
  | [c] => if isDigitOf radix c then some [c] else none
  | c :: '_' :: rest => if isDigitOf radix c then (digits? radix rest).map (c :: ·) else none
  | c :: rest => if isDigitOf radix c then (digits? radix rest).map (c :: ·) else none

def number (radix : Nat) (digits : List Char) : Nat :=
  digits.foldl (fun n c => n * radix + digitValue c) 0

/-- No zero stands in front of other digits. -/
def decimal? (text : List Char) : Option (List Char) :=
  (digits? 10 text).filter fun digits => digits.head? ≠ some '0' ∨ digits.length = 1

def signed (text : List Char) : Bool × List Char :=
  match text with
  | '+' :: rest => (false, rest)
  | '-' :: rest => (true, rest)
  | rest => (false, rest)

/-- Integers have at most 128 bits. -/
def minInteger : Int := -170141183460469231731687303715884105728

def maxInteger : Int := 340282366920938463463374607431768211455

def integer? (text : List Char) : Option Int :=
  let value : Option Int := match text with
    | '0' :: 'x' :: rest => (digits? 16 rest).map fun ds => (number 16 ds : Int)
    | '0' :: 'o' :: rest => (digits? 8 rest).map fun ds => (number 8 ds : Int)
    | '0' :: 'b' :: rest => (digits? 2 rest).map fun ds => (number 2 ds : Int)
    | _ =>
      let (negative, rest) := signed text
      (decimal? rest).map fun ds =>
        if negative then -(number 10 ds : Int) else (number 10 ds : Int)
  value.filter fun n => minInteger ≤ n ∧ n ≤ maxInteger

def exponent? (text : List Char) : Option Int :=
  let (negative, rest) := signed text
  (digits? 10 rest).map fun ds => if negative then -(number 10 ds : Int) else (number 10 ds : Int)

/-- A number of digits times a power of ten is not above the largest of 64 bits. -/
def fits (digits : List Char) (power : Int) : Bool :=
  let n := number 10 digits
  let size := (Nat.toDigits 10 n).length + power
  if n = 0 ∨ size ≤ 300 then true
  else if 310 < size then false
  else
    (if 0 ≤ power then Binary64.ofQuotient? (n * Nat.pow 10 power.toNat) 1
      else Binary64.ofQuotient? n (Nat.pow 10 power.natAbs)).isSome

def isFloat (text : List Char) : Bool :=
  let body := (signed text).2
  if body = "inf".toList ∨ body = "nan".toList then true
  else
    let mantissa := body.takeWhile fun c => c ≠ 'e' ∧ c ≠ 'E'
    let power := match body.drop mantissa.length with
      | [] => some 0
      | _ :: rest => exponent? rest
    let whole := mantissa.takeWhile (· ≠ '.')
    let fraction := match mantissa.drop whole.length with
      | [] => some []
      | _ :: rest => digits? 10 rest
    match decimal? whole, fraction, power with
    | some digits, some fraction, some power =>
      whole.length < body.length && fits (digits ++ fraction) (power - fraction.length)
    | _, _, _ => false

/-- A number of just so many digits. -/
def field? (width : Nat) (text : List Char) : Option (Nat × List Char) :=
  let digits := text.take width
  if digits.length = width ∧ digits.all Char.isDigit then
    some (number 10 digits, text.drop width)
  else none

def mark? (mark : Char) : List Char → Option (List Char)
  | c :: rest => if c = mark then some rest else none
  | [] => none

def isLeap (year : Nat) : Bool := year % 4 = 0 ∧ (year % 100 ≠ 0 ∨ year % 400 = 0)

def daysIn (year month : Nat) : Nat :=
  if month = 2 then if isLeap year then 29 else 28
  else if month = 4 ∨ month = 6 ∨ month = 9 ∨ month = 11 then 30
  else 31

def date? (text : List Char) : Option (List Char) := do
  let (year, rest) ← field? 4 text
  let (month, rest) ← field? 2 (← mark? '-' rest)
  let (day, rest) ← field? 2 (← mark? '-' rest)
  if 1 ≤ month ∧ month ≤ 12 ∧ 1 ≤ day ∧ day ≤ daysIn year month then some rest else none

def fractionOfSecond? : List Char → Option (List Char)
  | '.' :: rest =>
    let after := rest.dropWhile Char.isDigit
    if after.length < rest.length then some after else none
  | text => some text

/-- Seconds may be left out; a leap second is one of them. -/
def time? (text : List Char) : Option (List Char) := do
  let (hour, rest) ← field? 2 text
  let (minute, rest) ← field? 2 (← mark? ':' rest)
  guard (hour ≤ 23 ∧ minute ≤ 59)
  match rest with
  | ':' :: rest =>
    let (second, rest) ← field? 2 rest
    guard (second ≤ 60)
    fractionOfSecond? rest
  | rest => some rest

def offset? (text : List Char) : Option (List Char) :=
  match text with
  | [] => some []
  | c :: rest =>
    if c = 'Z' ∨ c = 'z' then some rest
    else if c = '+' ∨ c = '-' then do
      let (hour, rest) ← field? 2 rest
      let (minute, rest) ← field? 2 (← mark? ':' rest)
      if hour ≤ 23 ∧ minute ≤ 59 then some rest else none
    else none

def isDateTime (text : List Char) : Bool :=
  let rest := match date? text with
    | none => time? text
    | some [] => some []
    | some (c :: rest) =>
      if c = 'T' ∨ c = 't' ∨ c = ' ' then (time? rest).bind offset? else none
  rest = some []

def isScalarChar (c : Char) : Bool :=
  c.isAlphanum ∨ c = '_' ∨ c = '+' ∨ c = '-' ∨ c = '.' ∨ c = ':'

/-- The longest run that can be a value, which may hold a blank between date and time. -/
def word (text : List Char) : List Char × List Char :=
  let run := text.takeWhile isScalarChar
  match text.dropWhile isScalarChar with
  | ' ' :: c :: rest =>
    if date? run = some [] ∧ c.isDigit then
      (run ++ ' ' :: (c :: rest).takeWhile isScalarChar, (c :: rest).dropWhile isScalarChar)
    else (run, ' ' :: c :: rest)
  | rest => (run, rest)

def ofWord? (text : List Char) : Option Value :=
  if text = "true".toList then some (.boolean true)
  else if text = "false".toList then some (.boolean false)
  else
    match integer? text with
    | some n => some (.integer n)
    | none =>
      if isFloat text then some (.float (String.ofList text))
      else if isDateTime text then some (.datetime (String.ofList text))
      else none

def scalar? (text : List Char) : Option (Value × List Char) :=
  let (run, rest) := word text
  (ofWord? run).map (·, rest)

end TftpReceiver.Toml
