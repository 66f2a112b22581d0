import TftpReceiver.Json

/-! Reading JSON. Every reader takes what it can from the front of a text and returns
the rest. -/

namespace TftpReceiver.Json

/-- Containers may stand in one another up to this depth. -/
def maxDepth : Nat := 127

def isBlank (c : Char) : Bool := c = ' ' ∨ c = '\n' ∨ c = '\t' ∨ c = '\r'

def skipBlanks (text : List Char) : List Char := text.dropWhile isBlank

def hexValue? (c : Char) : Option Nat :=
  if '0' ≤ c ∧ c ≤ '9' then some (c.toNat - 48)
  else if 'a' ≤ c ∧ c ≤ 'f' then some (c.toNat - 87)
  else if 'A' ≤ c ∧ c ≤ 'F' then some (c.toNat - 55)
  else none

/-- A unit of sixteen bits in four hexadecimal digits. -/
def unit? (a b c d : Char) : Option Nat := do
  return (((← hexValue? a) * 16 + (← hexValue? b)) * 16 + (← hexValue? c)) * 16 + (← hexValue? d)

def isHighUnit (n : Nat) : Bool := 0xD800 ≤ n ∧ n ≤ 0xDBFF
def isLowUnit (n : Nat) : Bool := 0xDC00 ≤ n ∧ n ≤ 0xDFFF

/-- A slash may be escaped too. -/
def shortEscape? (letter : Char) : Option Char :=
  if letter = '/' then some '/' else (shortEscapes.find? (·.2 = letter)).map (·.1)

/-- The character that an escape stands for; `text` starts after the escape mark. Two
units that make up one character must stand together. -/
def escaped? (text : List Char) : Option (Char × List Char) :=
  match text with
  | 'u' :: a :: b :: c :: d :: rest => do
    let first ← unit? a b c d
    if isLowUnit first then none
    else if isHighUnit first then
      match rest with
      | '\\' :: 'u' :: a :: b :: c :: d :: rest =>
        let second ← unit? a b c d
        if isLowUnit second then
          some (Char.ofNat (0x10000 + (first - 0xD800) * 0x400 + (second - 0xDC00)), rest)
        else none
      | _ => none
    else some (Char.ofNat first, rest)
  | letter :: rest => (shortEscape? letter).map (·, rest)
  | [] => none

theorem escaped?_length {text rest : List Char} {c : Char}
    (h : escaped? text = some (c, rest)) : rest.length < text.length := by
  unfold escaped? at h
  split at h
  · simp only [Option.bind_eq_bind, Option.bind_eq_some_iff] at h
    obtain ⟨first, -, h⟩ := h
    split at h
    · simp at h
    · split at h
      · split at h
        · simp only [Option.bind_eq_some_iff] at h
          obtain ⟨second, -, h⟩ := h
          split at h
          · simp only [Option.some.injEq, Prod.mk.injEq] at h
            rw [← h.2]
            simp only [List.length_cons]
            omega
          · simp at h
        · simp at h
      · simp only [Option.some.injEq, Prod.mk.injEq] at h
        rw [← h.2]
        simp only [List.length_cons]
        omega
  · simp only [Option.map_eq_some_iff, Prod.mk.injEq] at h
    obtain ⟨-, -, -, rfl⟩ := h
    simp
  · simp at h

/-- The rest of a string after its opening quote. -/
def stringBody? (text : List Char) : Option (List Char × List Char) :=
  match text with
  | [] => none
  | c :: rest =>
    if c = quote then some ([], rest)
    else if c = escapeMark then
      match found : escaped? rest with
      | none => none
      | some (c, rest') =>
        have _shorter := escaped?_length found
        (stringBody? rest').map fun (cs, rest) => (c :: cs, rest)
    else if c.toNat < 32 then none
    else (stringBody? rest).map fun (cs, rest) => (c :: cs, rest)
termination_by text.length

def string? (text : List Char) : Option (String × List Char) :=
  match text with
  | c :: rest =>
    if c = quote then (stringBody? rest).map fun (cs, rest) => (String.ofList cs, rest) else none
  | [] => none

def digitValue (c : Char) : Nat := c.toNat - '0'.toNat

/-- A number as it is written: the digits before and after the point, and the exponent
where there is one. -/
structure Numeral where
  negative : Bool
  whole : List Char
  fraction : Option (List Char)
  exponent : Option Int
  deriving DecidableEq, Repr

def digits? (text : List Char) : Option (List Char × List Char) :=
  let digits := text.takeWhile Char.isDigit
  if digits = [] then none else some (digits, text.dropWhile Char.isDigit)

/-- No zero stands in front of other digits. -/
def whole? (text : List Char) : Option (List Char × List Char) := do
  let (digits, rest) ← digits? text
  if digits.head? = some '0' ∧ 1 < digits.length then none else some (digits, rest)

def fraction? : List Char → Option (Option (List Char) × List Char)
  | '.' :: rest => (digits? rest).map fun (digits, rest) => (some digits, rest)
  | text => some (none, text)

def exponent? : List Char → Option (Option Int × List Char)
  | c :: rest =>
    if c = 'e' ∨ c = 'E' then do
      let (negative, rest) := match rest with
        | '-' :: rest => (true, rest)
        | '+' :: rest => (false, rest)
        | rest => (false, rest)
      let (digits, rest) ← digits? rest
      let size : Int := Nat.ofDigitChars 10 digits 0
      return (some (if negative then -size else size), rest)
    else some (none, c :: rest)
  | [] => some (none, [])

def numeral? (text : List Char) : Option (Numeral × List Char) := do
  let (negative, rest) := match text with
    | '-' :: rest => (true, rest)
    | rest => (false, rest)
  let (whole, rest) ← whole? rest
  let (fraction, rest) ← fraction? rest
  let (exponent, rest) ← exponent? rest
  return ({ negative, whole, fraction, exponent }, rest)

/-- Digits are added to a number as long as it stays below 2 ^ 64; the others are left. -/
def gather (n : Nat) : List Char → Nat × List Char
  | [] => (n, [])
  | c :: rest =>
    let next := n * 10 + digitValue c
    if next ≤ Decimal.maxWord64 then gather next rest else (n, c :: rest)

def tens (n : Nat) : Binary64 := (Binary64.ofQuotient? (Nat.pow 10 n) 1).getD Binary64.zero

/-- The largest power of ten by which a number is multiplied or divided at once. -/
def maxTens : Nat := 308

def shrink (x : Binary64) (power : Nat) : Binary64 :=
  if _large : maxTens < power then
    if x.mantissa = 0 then x
    else shrink ((x.div? (tens maxTens)).getD x) (power - maxTens)
  else (x.div? (tens power)).getD x
termination_by power
decreasing_by simp only [maxTens]; omega

/-- A number times a power of ten, rounded at each step; none if it is too large. -/
def scale? (x : Binary64) (power : Int) : Option Binary64 :=
  if power < 0 then some (shrink x power.natAbs)
  else if power ≤ maxTens then x.mul? (tens power.toNat)
  else if x.mantissa = 0 then some x
  else none

def Numeral.real? (n : Numeral) : Option Binary64 := do
  let (size, left) := gather 0 n.whole
  let fraction := n.fraction.getD []
  let (size, unused) := gather size fraction
  let power := (left.length : Int) - (fraction.length - unused.length) + n.exponent.getD 0
  scale? (← Binary64.ofQuotient? size 1) power

/-- Integers have at most 64 bits, one of them for the sign of those below zero. -/
def maxNegative : Nat := 9223372036854775808

/-- A minus sign before zero makes a real number. -/
def Numeral.integer? (n : Numeral) : Option Int :=
  let size := Nat.ofDigitChars 10 n.whole 0
  if n.fraction.isSome ∨ n.exponent.isSome then none
  else if n.negative then if 0 < size ∧ size ≤ maxNegative then some (-(size : Int)) else none
  else if size ≤ Decimal.maxWord64 then some size
  else none

def Numeral.number? (n : Numeral) : Option Number :=
  match n.integer? with
  | some value => some (.integer value)
  | none => n.real?.map (.real n.negative)

/-- A part of the text that must stand there as it is. -/
def word? : (word : List Char) → (text : List Char) → Option (List Char)
  | [], text => some text
  | w :: word, c :: text => if w = c then word? word text else none
  | _ :: _, [] => none

def scalar? (text : List Char) : Option (Json × List Char) :=
  match text with
  | 'n' :: _ => (word? "null".toList text).map (null, ·)
  | 't' :: _ => (word? "true".toList text).map (boolean true, ·)
  | 'f' :: _ => (word? "false".toList text).map (boolean false, ·)
  | '"' :: _ => (string? text).map fun (s, rest) => (string s, rest)
  | _ => do
    let (numeral, rest) ← numeral? text
    return (number (← numeral.number?), rest)

/-- Parts between commas up to the closing mark, at least one and at most `count`. -/
def parts? (close : Char) (part? : List Char → Option (α × List Char)) :
    (count : Nat) → List Char → Option (List α × List Char)
  | 0, _ => none
  | count + 1, text => do
    let (part, rest) ← part? text
    match skipBlanks rest with
    | ',' :: rest =>
      let (more, rest) ← parts? close part? count rest
      return (part :: more, rest)
    | c :: rest => if c = close then some ([part], rest) else none
    | [] => none

def sequence? (close : Char) (part? : List Char → Option (α × List Char)) (text : List Char) :
    Option (List α × List Char) :=
  match skipBlanks text with
  | c :: rest => if c = close then some ([], rest) else parts? close part? (text.length + 1) text
  | [] => none

def namedValue? (value? : List Char → Option (Json × List Char)) (text : List Char) :
    Option ((String × Json) × List Char) := do
  let (name, rest) ← string? (skipBlanks text)
  match skipBlanks rest with
  | ':' :: rest =>
    let (value, rest) ← value? rest
    return ((name, value), rest)
  | _ => none

/-- A value with containers up to the given depth. -/
def value? : (depth : Nat) → List Char → Option (Json × List Char)
  | 0, text =>
    match skipBlanks text with
    | '[' :: _ | '\x7b' :: _ => none
    | rest => scalar? rest
  | depth + 1, text =>
    match skipBlanks text with
    | '[' :: rest =>
      (sequence? ']' (value? depth) rest).map fun (items, rest) => (array items, rest)
    | '\x7b' :: rest =>
      (sequence? '\x7d' (namedValue? (value? depth)) rest).map
        fun (members, rest) => (object members, rest)
    | rest => scalar? rest

/-- The value that a text consists of. -/
def parse? (text : String) : Option Json := do
  let (value, rest) ← value? maxDepth text.toList
  if skipBlanks rest = [] then some value else none

end TftpReceiver.Json
