import TftpReceiver.Text.Decimal

/-! Patterns for file names. `?`, `*` and sets stay within one component of a path;
`**` stands for any number of whole components. -/

namespace TftpReceiver

namespace Glob

inductive Range
  | one (c : Char)
  | between (first last : Char)
  deriving DecidableEq, Repr, Inhabited

inductive Token
  | char (c : Char)
  | anyChar
  | anySequence
  | anyDirectories
  | oneOf (ranges : List Range)
  | noneOf (ranges : List Range)
  deriving DecidableEq, Repr, Inhabited

inductive Fault
  | stars
  | recursion
  | set
  deriving DecidableEq, Repr, Inhabited

/-- What is wrong with a pattern, and near which character. -/
structure PatternError where
  position : Nat
  fault : Fault
  deriving DecidableEq, Repr, Inhabited

def Fault.message : Fault → String
  | stars => "wildcards are either regular `*` or recursive `**`"
  | recursion => "recursive wildcards must form a single path component"
  | set => "invalid range pattern"

def PatternError.message (error : PatternError) : String :=
  "Pattern syntax error near position " ++ Decimal.render error.position ++ ": " ++
    error.fault.message

namespace Range

def holds (c : Char) : Range → Bool
  | one d => c = d
  | between first last => first ≤ c && c ≤ last

/-- The ranges written between brackets; a dash between two characters makes a range. -/
def ofChars : List Char → List Range
  | first :: '-' :: last :: rest => between first last :: ofChars rest
  | c :: rest => one c :: ofChars rest
  | [] => []

end Range

/-- A set up to its closing bracket, which is not looked for at the first place. -/
def set? : List Char → Option (List Range × List Char)
  | [] => none
  | first :: rest =>
    match rest.dropWhile (· != ']') with
    | [] => none
    | _ :: after => some (Range.ofChars (first :: rest.takeWhile (· != ']')), after)

theorem set?_length {cs after : List Char} {ranges : List Range}
    (h : set? cs = some (ranges, after)) : after.length < cs.length := by
  match cs with
  | [] => simp [set?] at h
  | first :: rest =>
    have hd : (rest.dropWhile (· != ']')).length ≤ rest.length :=
      (List.dropWhile_suffix _).length_le
    simp only [set?] at h
    split at h
    · simp at h
    · next heq =>
      simp only [Option.some.injEq, Prod.mk.injEq] at h
      rw [heq] at hd
      simp only [List.length_cons] at hd ⊢
      rw [← h.2]
      omega

/-- Reads the pattern from `position` on; `boundary` tells whether a component starts here. -/
def tokens (position : Nat) (boundary : Bool) (cs : List Char) :
    Except PatternError (List Token) :=
  match cs with
  | [] => .ok []
  | '?' :: rest => (.anyChar :: ·) <$> tokens (position + 1) false rest
  | ['*'] => .ok [.anySequence]
  | '*' :: '*' :: '*' :: _ => .error ⟨position + 2, .stars⟩
  | '*' :: '*' :: rest =>
    if boundary then
      match rest with
      | [] => .ok [.anyDirectories]
      | '/' :: rest => (.anyDirectories :: ·) <$> tokens (position + 3) true rest
      | _ => .error ⟨position + 2, .recursion⟩
    else .error ⟨position - 1, .recursion⟩
  | '*' :: rest => (.anySequence :: ·) <$> tokens (position + 1) false rest
  | '[' :: '!' :: rest =>
    match found : set? rest with
    | none => .error ⟨position, .set⟩
    | some (ranges, after) =>
      have _shorter := set?_length found
      (.noneOf ranges :: ·) <$> tokens (position + 2 + (rest.length - after.length)) false after
  | '[' :: rest =>
    match found : set? rest with
    | none => .error ⟨position, .set⟩
    | some (ranges, after) =>
      have _shorter := set?_length found
      (.oneOf ranges :: ·) <$> tokens (position + 1 + (rest.length - after.length)) false after
  | c :: rest => (.char c :: ·) <$> tokens (position + 1) (c = '/') rest
termination_by cs.length

/-- Any characters of one component, then what `next` wants. -/
def withinComponent (next : List Char → Bool) : List Char → Bool
  | [] => next []
  | c :: rest => next (c :: rest) || (c != '/' && withinComponent next rest)

/-- Characters up to some slash, or all of them, then what `next` wants. -/
def afterSlash (next : List Char → Bool) : List Char → Bool
  | [] => next []
  | c :: rest => (c == '/' && next rest) || afterSlash next rest

def matchesTokens : List Token → List Char → Bool
  | [], cs => cs.isEmpty
  | .anySequence :: rest, cs => withinComponent (matchesTokens rest) cs
  | .anyDirectories :: rest, cs =>
    matchesTokens rest cs || afterSlash (matchesTokens rest) cs
  | .char c :: rest, d :: cs => c == d && matchesTokens rest cs
  | .anyChar :: rest, d :: cs => d != '/' && matchesTokens rest cs
  | .oneOf ranges :: rest, d :: cs =>
    d != '/' && ranges.any (Range.holds d) && matchesTokens rest cs
  | .noneOf ranges :: rest, d :: cs =>
    d != '/' && !ranges.any (Range.holds d) && matchesTokens rest cs
  | _ :: _, [] => false

end Glob

/-- A pattern with the tokens read from it. -/
structure Pattern where
  text : String
  tokens : List Glob.Token
  deriving DecidableEq, Repr, Inhabited

namespace Pattern

def parse (text : String) : Except Glob.PatternError Pattern :=
  (fun tokens => { text, tokens }) <$> Glob.tokens 0 true text.toList

def isMatch (pattern : Pattern) (name : String) : Bool :=
  Glob.matchesTokens pattern.tokens name.toList

end Pattern

end TftpReceiver
