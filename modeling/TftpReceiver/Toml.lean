import TftpReceiver.Text.Decimal

/-! TOML values, and documents of one level of sections with their written form. -/

namespace TftpReceiver.Toml

/-- Dates and times, and numbers with a fraction or an exponent, are kept as they are
written. -/
inductive Value
  | string (value : String)
  | integer (value : Int)
  | float (text : String)
  | datetime (text : String)
  | boolean (value : Bool)
  | array (items : List Value)
  | table (members : List (String × Value))
  deriving Repr, Inhabited

abbrev Members := List (String × Value)

/-- What a document is written from. -/
inductive Field
  | text (value : String)
  | number (value : Nat)
  | flag (value : Bool)
  | texts (values : List String)
  deriving DecidableEq, Repr, Inhabited

/-- Names consist of letters, digits, dashes and underscores. -/
structure Document where
  pairs : List (String × Field)
  sections : List (String × List (String × Field))
  deriving DecidableEq, Repr, Inhabited

def Field.value : Field → Value
  | text value => .string value
  | number value => .integer value
  | flag value => .boolean value
  | texts values => .array (values.map .string)

inductive Quoting
  | basic
  | literal
  | basicLines
  | literalLines
  deriving DecidableEq, Repr, Inhabited

namespace Quoting

def delimiter : Quoting → List Char
  | basic => ['"']
  | literal => ['\'']
  | basicLines => ['"', '"', '"']
  | literalLines => ['\'', '\'', '\'']

def hasLines : Quoting → Bool
  | basicLines | literalLines => true
  | _ => false

/-- Tabs and line ends stand for themselves; other control characters do not. -/
def needsCode (c : Char) : Bool := (c.toNat < 32 ∨ c.toNat = 127) ∧ c ≠ '\t' ∧ c ≠ '\n'

/-- The length of the longest run of a character, after `run` of them. -/
def longestRun (mark : Char) (run : Nat) : List Char → Nat
  | [] => run
  | c :: rest =>
    if c = mark then longestRun mark (run + 1) rest else max run (longestRun mark 0 rest)

/-- The first way in which a text stands as it is, if there is one. -/
def ofText (text : List Char) : Quoting :=
  let codes := text.any needsCode
  let escapes := text.contains '\\'
  let lines := text.contains '\n'
  let doubles := longestRun '"' 0 text
  let singles := longestRun '\'' 0 text
  if ¬ codes ∧ ¬ escapes ∧ ¬ lines ∧ doubles = 0 then basic
  else if ¬ codes ∧ ¬ lines ∧ singles = 0 then literal
  else if ¬ codes ∧ ¬ escapes ∧ doubles ≤ 2 then basicLines
  else if ¬ codes ∧ singles ≤ 2 then literalLines
  else if lines then basicLines
  else basic

def maxRun : Quoting → Nat
  | basicLines => 2
  | _ => 0

/-- The letter that stands for a character after a backslash. -/
def shortEscapes : List (Char × Char) :=
  [(Char.ofNat 8, 'b'), ('\t', 't'), ('\n', 'n'), (Char.ofNat 12, 'f'), ('\r', 'r'),
    ('\\', '\\'), ('"', '"')]

def upperDigit (n : Nat) : Char := (Nat.digitChar n).toUpper

def code (c : Char) : List Char :=
  ['\\', 'u', '0', '0', upperDigit (c.toNat / 16), upperDigit (c.toNat % 16)]

/-- The written form of a character other than a quote. -/
def escapeChar (quoting : Quoting) (c : Char) : List Char :=
  if c = '\n' ∧ quoting.hasLines then [c]
  else
    match shortEscapes.lookup c with
    | some letter => ['\\', letter]
    | none => if needsCode c then code c else [c]

/-- Within a text of several lines two quotes in a row stand for themselves; `run` of
them have just been written. -/
def escape (quoting : Quoting) (run : Nat) : List Char → List Char
  | [] => []
  | c :: rest =>
    if c = '"' then
      if run < quoting.maxRun then c :: escape quoting (run + 1) rest
      else '\\' :: c :: escape quoting 0 rest
    else quoting.escapeChar c ++ escape quoting 0 rest

/-- A line end after the delimiter is not part of the text. -/
def opening (quoting : Quoting) (text : List Char) : List Char :=
  quoting.delimiter ++ if quoting.hasLines ∧ text.contains '\n' then ['\n'] else []

def write (text : String) : List Char :=
  let cs := text.toList
  let quoting := ofText cs
  quoting.opening cs ++
    (match quoting with
      | literal | literalLines => cs
      | _ => escape quoting 0 cs) ++
    quoting.delimiter

end Quoting

namespace Field

def indent : List Char := "    ".toList

/-- Two texts or more take a line each. -/
def writeTexts : List String → List Char
  | [] => "[]".toList
  | [value] => '[' :: (Quoting.write value ++ [']'])
  | values => '[' :: '\n' ::
      (values.flatMap fun value => indent ++ Quoting.write value ++ [',', '\n']) ++ [']']

def write : Field → List Char
  | text value => Quoting.write value
  | number value => (Decimal.render value).toList
  | flag value => (if value then "true" else "false").toList
  | texts values => writeTexts values

end Field

namespace Document

def writePairs (pairs : List (String × Field)) : List Char :=
  pairs.flatMap fun (name, field) => name.toList ++ " = ".toList ++ field.write ++ ['\n']

def writeSection (name : String) (pairs : List (String × Field)) : List Char :=
  '\n' :: '[' :: (name.toList ++ ']' :: '\n' :: writePairs pairs)

def write (document : Document) : List Char :=
  writePairs document.pairs ++
    document.sections.flatMap fun (name, pairs) => writeSection name pairs

def render (document : Document) : String := String.ofList document.write

/-- What the document says. -/
def members (document : Document) : Members :=
  (document.pairs.map fun (name, field) => (name, field.value)) ++
    document.sections.map fun (name, pairs) =>
      (name, .table (pairs.map fun (name, field) => (name, field.value)))

end Document

end TftpReceiver.Toml
