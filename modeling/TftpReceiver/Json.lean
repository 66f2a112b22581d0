import TftpReceiver.Text.Binary64

/-! JSON values and their compact written form. -/

namespace TftpReceiver

namespace Json

/-- `real` is a number that is not written as an integer, or is too large for one. -/
inductive Number
  | integer (value : Int)
  | real (negative : Bool) (size : Binary64)
  deriving DecidableEq, Repr, Inhabited

end Json

/-- Members of an object keep the order in which they stand. -/
inductive Json
  | null
  | boolean (value : Bool)
  | number (value : Json.Number)
  | string (value : String)
  | array (items : List Json)
  | object (members : List (String × Json))
  deriving Repr, Inhabited

namespace Json

mutual

/-- Whether two values are the same, the order of members included. -/
def same : Json → Json → Bool
  | null, null => true
  | boolean a, boolean b => a = b
  | number a, number b => a = b
  | string a, string b => a = b
  | array items, array others => sameItems items others
  | object members, object others => sameMembers members others
  | _, _ => false

def sameItems : List Json → List Json → Bool
  | [], [] => true
  | item :: rest, other :: others => same item other && sameItems rest others
  | _, _ => false

def sameMembers : List (String × Json) → List (String × Json) → Bool
  | [], [] => true
  | (name, value) :: rest, (other, value') :: others =>
    name = other && same value value' && sameMembers rest others
  | _, _ => false

end

mutual

theorem same_iff (a b : Json) : a.same b = true ↔ a = b := by
  cases a with
  | array items => cases b <;> simp [same, sameItems_iff items]
  | object members => cases b <;> simp [same, sameMembers_iff members]
  | null | boolean | number | string => cases b <;> simp [same]

theorem sameItems_iff (items others : List Json) :
    sameItems items others = true ↔ items = others := by
  cases items with
  | nil => cases others <;> simp [sameItems]
  | cons item rest => cases others <;> simp [sameItems, same_iff item, sameItems_iff rest]

theorem sameMembers_iff (members others : List (String × Json)) :
    sameMembers members others = true ↔ members = others := by
  cases members with
  | nil => cases others <;> simp [sameMembers]
  | cons member rest =>
    obtain ⟨name, value⟩ := member
    cases others <;> simp [sameMembers, Prod.ext_iff, same_iff value, sameMembers_iff rest]

end

instance : DecidableEq Json := fun a b => decidable_of_decidable_of_iff (same_iff a b)

def quote : Char := '"'
def escapeMark : Char := '\\'

/-- The letter that stands for a character after the escape mark. -/
def shortEscapes : List (Char × Char) :=
  [('"', '"'), ('\\', '\\'), (Char.ofNat 8, 'b'), (Char.ofNat 12, 'f'), ('\n', 'n'),
    ('\r', 'r'), ('\t', 't')]

def escapeChar (c : Char) : List Char :=
  match shortEscapes.lookup c with
  | some letter => [escapeMark, letter]
  | none =>
    if c.toNat < 32 then
      [escapeMark, 'u', '0', '0', Nat.digitChar (c.toNat / 16), Nat.digitChar (c.toNat % 16)]
    else [c]

def writeString (s : String) : List Char :=
  quote :: (s.toList.flatMap escapeChar ++ [quote])

def writeInteger (value : Int) : List Char :=
  if value < 0 then '-' :: (Decimal.render value.natAbs).toList
  else (Decimal.render value.natAbs).toList

/-- The places before the point up to which a number is written without an exponent,
and the zeros after the point. -/
def maxPlaces : Int := 16
def minPlaces : Int := -5

/-- A number of `digits` with a point after the first `places` of them. -/
def writePositional (digits : List Char) (places : Int) : List Char :=
  if (digits.length : Int) ≤ places then
    digits ++ List.replicate (places.toNat - digits.length) '0' ++ ['.', '0']
  else if 0 < places then digits.take places.toNat ++ '.' :: digits.drop places.toNat
  else '0' :: '.' :: (List.replicate (-places).toNat '0' ++ digits)

def writeScientific (digits : List Char) (places : Int) : List Char :=
  let fraction := digits.drop 1
  digits.take 1 ++ (if fraction = [] then [] else '.' :: fraction) ++
    'e' :: writeInteger (places - 1)

def writeReal (size : Binary64) : List Char :=
  if size.mantissa = 0 then ['0', '.', '0']
  else
    let digits := Nat.toDigits 10 size.shortest.1
    let places := digits.length + size.shortest.2
    if minPlaces < places ∧ places ≤ maxPlaces then writePositional digits places
    else writeScientific digits places

def writeNumber : Number → List Char
  | .integer value => writeInteger value
  | .real negative size => (if negative then ['-'] else []) ++ writeReal size

/-- Puts a comma between parts. -/
def separate : List (List Char) → List Char
  | [] => []
  | [part] => part
  | part :: rest => part ++ ',' :: separate rest

mutual

def write : Json → List Char
  | null => "null".toList
  | boolean value => (if value then "true" else "false").toList
  | number value => writeNumber value
  | string value => writeString value
  | array items => '[' :: (separate (writeItems items) ++ [']'])
  | object members => '\x7b' :: (separate (writeMembers members) ++ ['\x7d'])

def writeItems : List Json → List (List Char)
  | [] => []
  | item :: rest => write item :: writeItems rest

def writeMembers : List (String × Json) → List (List Char)
  | [] => []
  | (name, value) :: rest => (writeString name ++ ':' :: write value) :: writeMembers rest

end

def render (value : Json) : String := String.ofList value.write

/-- Puts a member into its place among members in order of their names; it takes the
place of one with the same name. -/
def putMember (name : String) (value : Json) : List (String × Json) → List (String × Json)
  | [] => [(name, value)]
  | (other, old) :: rest =>
    if name < other then (name, value) :: (other, old) :: rest
    else if name = other then (name, value) :: rest
    else (other, old) :: putMember name value rest

/-- The last of several members with one name counts. -/
def ofMembers (members : List (String × Json)) : Json :=
  object (members.foldl (fun sorted (name, value) => putMember name value sorted) [])

mutual

/-- The value with the members of all objects in order. -/
def ordered : Json → Json
  | array items => array (orderedItems items)
  | object members => ofMembers (orderedMembers members)
  | value => value

def orderedItems : List Json → List Json
  | [] => []
  | item :: rest => ordered item :: orderedItems rest

def orderedMembers : List (String × Json) → List (String × Json)
  | [] => []
  | (name, value) :: rest => (name, ordered value) :: orderedMembers rest

end

/-- What is found under a name. -/
def member? (name : String) (members : List (String × Json)) : Option Json :=
  members.lookup name

end Json

end TftpReceiver
