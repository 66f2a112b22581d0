import TftpReceiver.Toml.Scalar
import TftpReceiver.Toml.Tree

/-! Reading TOML. Every reader takes what it can from the front of a text and returns
the rest. -/

namespace TftpReceiver.Toml

/-- Arrays and tables in braces may stand in one another up to this depth. -/
def maxDepth : Nat := 80

def isBlank (c : Char) : Bool := c = ' ' ∨ c = '\t'

def skipBlanks (text : List Char) : List Char := text.dropWhile isBlank

/-- What may stand in a line apart from its end. -/
def isLineChar (c : Char) : Bool := (32 ≤ c.toNat ∧ c.toNat ≠ 127) ∨ c = '\t'

/-- Passes over blanks, line ends and comments. -/
def gap? (comment : Bool) : List Char → Option (List Char)
  | [] => some []
  | '\n' :: rest => gap? false rest
  | '\r' :: '\n' :: rest => gap? false rest
  | c :: rest =>
    if comment then if isLineChar c then gap? true rest else none
    else if c = '#' then gap? true rest
    else if isBlank c then gap? false rest
    else some (c :: rest)

/-- The next line, if nothing but blanks and a comment stands before it. -/
def lineEnd? (text : List Char) : Option (List Char) :=
  let rest := match skipBlanks text with
    | '#' :: rest => rest.dropWhile isLineChar
    | rest => rest
  match rest with
  | [] => some []
  | '\n' :: rest => some rest
  | '\r' :: '\n' :: rest => some rest
  | _ => none

/-- The number in the next `count` hexadecimal digits. -/
def code? : (count n : Nat) → List Char → Option (Nat × List Char)
  | 0, n, text => some (n, text)
  | count + 1, n, c :: rest =>
    if isDigitOf 16 c then code? count (n * 16 + digitValue c) rest else none
  | _ + 1, _, [] => none

theorem code?_length {count n m : Nat} {text rest : List Char}
    (h : code? count n text = some (m, rest)) : rest.length ≤ text.length := by
  induction count generalizing n text with
  | zero =>
    simp only [code?, Option.some.injEq, Prod.mk.injEq] at h
    exact Nat.le_of_eq (by rw [h.2])
  | succ count ih =>
    cases text with
    | nil => simp [code?] at h
    | cons c text =>
      simp only [code?] at h
      split at h
      · exact Nat.le_succ_of_le (ih h)
      · simp at h

def codeWidth? (letter : Char) : Option Nat :=
  if letter = 'x' then some 2
  else if letter = 'u' then some 4
  else if letter = 'U' then some 8
  else none

def shortEscape? (letter : Char) : Option Char :=
  if letter = 'e' then some (Char.ofNat 27)
  else (Quoting.shortEscapes.find? (·.2 = letter)).map (·.1)

/-- The character that an escape stands for; `text` starts after the backslash. -/
def escaped? (text : List Char) : Option (Char × List Char) :=
  match text with
  | [] => none
  | letter :: rest =>
    match codeWidth? letter with
    | none => (shortEscape? letter).map (·, rest)
    | some width =>
      match code? width 0 rest with
      | none => none
      | some (n, rest) => if n.isValidChar then some (Char.ofNat n, rest) else none

theorem escaped?_length {text rest : List Char} {c : Char}
    (h : escaped? text = some (c, rest)) : rest.length < text.length := by
  unfold escaped? at h
  split at h
  · simp at h
  · split at h
    · simp only [Option.map_eq_some_iff, Prod.mk.injEq] at h
      obtain ⟨-, -, -, rfl⟩ := h
      simp
    · split at h
      · simp at h
      · next hc =>
        split at h
        · simp only [Option.some.injEq, Prod.mk.injEq] at h
          have := code?_length hc
          rw [← h.2]
          simp only [List.length_cons]
          omega
        · simp at h

/-- Passes over blanks and line ends. -/
def skipLines : List Char → List Char
  | '\r' :: '\n' :: rest => skipLines rest
  | c :: rest => if isBlank c ∨ c = '\n' then skipLines rest else c :: rest
  | [] => []

theorem skipLines_length (text : List Char) : (skipLines text).length ≤ text.length := by
  fun_induction skipLines text <;> simp_all <;> omega

/-- A backslash at the end of a line joins the text to what follows in later lines;
`text` starts after it. -/
def joined? (text : List Char) : Option (List Char) :=
  match skipBlanks text with
  | '\n' :: rest => some (skipLines rest)
  | '\r' :: '\n' :: rest => some (skipLines rest)
  | _ => none

theorem skipBlanks_length (text : List Char) : (skipBlanks text).length ≤ text.length :=
  (List.dropWhile_suffix _).length_le

theorem joined?_length {text rest : List Char} (h : joined? text = some rest) :
    rest.length < text.length := by
  have hb := skipBlanks_length text
  unfold joined? at h
  split at h
  · next r heq =>
    have := skipLines_length r
    simp only [Option.some.injEq] at h
    rw [heq] at hb
    simp only [List.length_cons] at hb
    rw [← h]
    omega
  · next r heq =>
    have := skipLines_length r
    simp only [Option.some.injEq] at h
    rw [heq] at hb
    simp only [List.length_cons] at hb
    rw [← h]
    omega
  · simp at h

/-- The rest of a text in double quotes. -/
def basic? (text : List Char) : Option (List Char × List Char) :=
  match text with
  | [] => none
  | c :: rest =>
    if c = '"' then some ([], rest)
    else if c = '\\' then
      match found : escaped? rest with
      | none => none
      | some (c, rest') =>
        have _shorter := escaped?_length found
        (basic? rest').map fun (cs, rest) => (c :: cs, rest)
    else if isLineChar c then (basic? rest).map fun (cs, rest) => (c :: cs, rest)
    else none
termination_by text.length

/-- The rest of a text in single quotes. -/
def literal? : List Char → Option (List Char × List Char)
  | [] => none
  | c :: rest =>
    if c = '\'' then some ([], rest)
    else if isLineChar c then (literal? rest).map fun (cs, rest) => (c :: cs, rest)
    else none

/-- What follows the closing delimiter of several lines, and the quotes before it, of
which there may be two. -/
def closed? (mark : Char) (text : List Char) : Option (List Char × List Char) :=
  match text with
  | a :: b :: c :: rest =>
    if a = mark ∧ b = mark ∧ c = mark then
      let more := (rest.take 2).takeWhile (· = mark)
      some (more, rest.drop more.length)
    else none
  | _ => none

def basicLines? (text : List Char) : Option (List Char × List Char) :=
  match closed? '"' text with
  | some found => some found
  | none =>
    match text with
    | [] => none
    | '\r' :: '\n' :: rest =>
      (basicLines? rest).map fun (cs, rest) => ('\r' :: '\n' :: cs, rest)
    | c :: rest =>
      if c = '\\' then
        match joining : joined? rest with
        | some rest' =>
          have _shorter := joined?_length joining
          basicLines? rest'
        | none =>
          match found : escaped? rest with
          | none => none
          | some (c, rest') =>
            have _shorter := escaped?_length found
            (basicLines? rest').map fun (cs, rest) => (c :: cs, rest)
      else if isLineChar c ∨ c = '\n' then
        (basicLines? rest).map fun (cs, rest) => (c :: cs, rest)
      else none
termination_by text.length

def literalLines? (text : List Char) : Option (List Char × List Char) :=
  match closed? '\'' text with
  | some found => some found
  | none =>
    match text with
    | [] => none
    | '\r' :: '\n' :: rest =>
      (literalLines? rest).map fun (cs, rest) => ('\r' :: '\n' :: cs, rest)
    | c :: rest =>
      if isLineChar c ∨ c = '\n' then
        (literalLines? rest).map fun (cs, rest) => (c :: cs, rest)
      else none

/-- A line end after the opening delimiter is not part of the text. -/
def afterOpening : List Char → List Char
  | '\n' :: rest => rest
  | '\r' :: '\n' :: rest => rest
  | rest => rest

def line? (text : List Char) : Option (List Char × List Char) :=
  match text with
  | '"' :: rest => basic? rest
  | '\'' :: rest => literal? rest
  | _ => none

def string? (text : List Char) : Option (String × List Char) :=
  (match text with
    | '"' :: '"' :: '"' :: rest => basicLines? (afterOpening rest)
    | '\'' :: '\'' :: '\'' :: rest => literalLines? (afterOpening rest)
    | _ => line? text).map fun (cs, rest) => (String.ofList cs, rest)

def isNameChar (c : Char) : Bool := c.isAlphanum ∨ c = '_' ∨ c = '-'

def name? (text : List Char) : Option (String × List Char) :=
  match text.takeWhile isNameChar with
  | [] => (line? text).map fun (cs, rest) => (String.ofList cs, rest)
  | cs => some (String.ofList cs, text.dropWhile isNameChar)

/-- Names between dots, at most `count` of them. -/
def path? : (count : Nat) → List Char → Option (List String × List Char)
  | 0, _ => none
  | count + 1, text => do
    let (name, rest) ← name? text
    match skipBlanks rest with
    | '.' :: rest =>
      let (more, rest) ← path? count (skipBlanks rest)
      return (name :: more, rest)
    | rest => return ([name], rest)

/-- The path at the front of a text with the blanks around it. -/
def dotted? (text : List Char) : Option (List String × List Char) :=
  path? (text.length + 1) (skipBlanks text)

/-- Parts between commas up to the closing mark; a comma may follow the last one. -/
def parts? (close : Char) (part? : List Char → Option (α × List Char)) :
    (count : Nat) → List Char → Option (List α × List Char)
  | 0, _ => none
  | count + 1, text => do
    let text ← gap? false text
    if text.head? = some close then return ([], text.tail)
    let (part, rest) ← part? text
    match ← gap? false rest with
    | ',' :: rest =>
      let (more, rest) ← parts? close part? count rest
      return (part :: more, rest)
    | c :: rest => if c = close then return ([part], rest) else none
    | [] => none

def pair? (value? : List Char → Option (Value × List Char)) (text : List Char) :
    Option (Statement × List Char) := do
  match ← dotted? text with
  | (path, '=' :: rest) =>
    let (value, rest) ← value? (skipBlanks rest)
    return (.assign path value, rest)
  | _ => none

/-- A value with arrays and tables up to the given depth. -/
def value? : (depth : Nat) → List Char → Option (Value × List Char)
  | _, '"' :: rest => (string? ('"' :: rest)).map fun (s, rest) => (.string s, rest)
  | _, '\'' :: rest => (string? ('\'' :: rest)).map fun (s, rest) => (.string s, rest)
  | 0, text => scalar? text
  | depth + 1, '[' :: rest =>
    (parts? ']' (value? depth) (rest.length + 1) rest).map fun (items, rest) =>
      (.array items, rest)
  | depth + 1, '\x7b' :: rest => do
    let (pairs, rest) ← parts? '\x7d' (pair? (value? depth)) (rest.length + 1) rest
    return (.table (← ofStatements? pairs), rest)
  | _ + 1, text => scalar? text

/-- What stands before the end of a line. -/
def statement? (text : List Char) : Option (Statement × List Char) :=
  match text with
  | '[' :: '[' :: rest => do
    match ← dotted? rest with
    | (path, ']' :: ']' :: rest) => return (.row path, rest)
    | _ => none
  | '[' :: rest => do
    match ← dotted? rest with
    | (path, ']' :: rest) => return (.table path, rest)
    | _ => none
  | _ => pair? (value? maxDepth) text

/-- The statements of at most `count` lines. -/
def statements? : (count : Nat) → List Char → Option (List Statement)
  | 0, _ => none
  | count + 1, text => do
    match ← gap? false text with
    | [] => return []
    | text =>
      let (statement, rest) ← statement? text
      let rest ← lineEnd? rest
      return statement :: (← statements? count rest)

def byteOrderMark : Char := Char.ofNat 0xFEFF

/-- What a text says as a whole. -/
def parse? (text : String) : Option Members := do
  let text := match text.toList with
    | c :: rest => if c = byteOrderMark then rest else c :: rest
    | [] => []
  ofStatements? (← statements? (text.length + 1) text)

end TftpReceiver.Toml
