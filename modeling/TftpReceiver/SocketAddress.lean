import TftpReceiver.Text.Decimal

/-! Addresses of sockets: a host of the fourth or sixth version of the internet
protocol and a port, with their written forms. Every reader takes what it can from the
front of a text and returns the rest. -/

namespace TftpReceiver

structure Ipv4 where
  a : UInt8
  b : UInt8
  c : UInt8
  d : UInt8
  deriving DecidableEq, Repr, Inhabited

structure Ipv6 where
  groups : List UInt16
  length_eq : groups.length = 8
  deriving DecidableEq, Repr

/-- `scope` is 0 where no network interface is named. -/
inductive SocketAddress
  | v4 (host : Ipv4) (port : UInt16)
  | v6 (host : Ipv6) (scope : UInt32) (port : UInt16)
  deriving DecidableEq, Repr

namespace Ipv4

def render (host : Ipv4) : String :=
  ".".intercalate ([host.a, host.b, host.c, host.d].map fun n => Decimal.render n.toNat)

def any : Ipv4 := ⟨0, 0, 0, 0⟩

end Ipv4

namespace Ipv6

def hex (n : Nat) : String := String.ofList (Nat.toDigits 16 n)

def renderGroups (groups : List UInt16) : String :=
  ":".intercalate (groups.map fun n => hex n.toNat)

/-- Where the first of the longest runs of zeros starts, and its length. -/
def zeroRun : List UInt16 → Nat × Nat
  | [] => (0, 0)
  | g :: rest =>
    let here := ((g :: rest).takeWhile (· = 0)).length
    let (start, length) := zeroRun rest
    if here < length then (start + 1, length) else (0, here)

/-- The address of the older version that is carried in the last two groups. -/
def mapped? : List UInt16 → Option Ipv4
  | [0, 0, 0, 0, 0, 0xffff, g, h] =>
    some ⟨UInt8.ofNat (g.toNat / 256), UInt8.ofNat (g.toNat % 256),
      UInt8.ofNat (h.toNat / 256), UInt8.ofNat (h.toNat % 256)⟩
  | _ => none

/-- Two zero groups or more in a row are written as two colons, once. -/
def render (host : Ipv6) : String :=
  match mapped? host.groups with
  | some inner => "::ffff:" ++ inner.render
  | none =>
    let (start, length) := zeroRun host.groups
    if 1 < length then
      renderGroups (host.groups.take start) ++ "::" ++
        renderGroups (host.groups.drop (start + length))
    else renderGroups host.groups

def ofGroups? (groups : List UInt16) : Option Ipv6 :=
  if h : groups.length = 8 then some ⟨groups, h⟩ else none

def any : Ipv6 := ⟨[0, 0, 0, 0, 0, 0, 0, 0], rfl⟩

end Ipv6

namespace SocketAddress

def port : SocketAddress → UInt16
  | v4 _ port | v6 _ _ port => port

def withPort (address : SocketAddress) (port : UInt16) : SocketAddress :=
  match address with
  | v4 host _ => v4 host port
  | v6 host scope _ => v6 host scope port

def render : SocketAddress → String
  | v4 host port => host.render ++ ":" ++ Decimal.render port.toNat
  | v6 host scope port =>
    "[" ++ host.render ++ (if scope = 0 then "" else "%" ++ Decimal.render scope.toNat) ++
      "]:" ++ Decimal.render port.toNat

def digitValue? (radix : Nat) (c : Char) : Option Nat :=
  let value :=
    if '0' ≤ c ∧ c ≤ '9' then c.toNat - '0'.toNat
    else if 'a' ≤ c ∧ c ≤ 'f' then c.toNat - 'a'.toNat + 10
    else if 'A' ≤ c ∧ c ≤ 'F' then c.toNat - 'A'.toNat + 10
    else radix
  if value < radix then some value else none

/-- A number of at most `width` digits and below `bound`. -/
def number? (radix bound : Nat) (width : Option Nat) (leadingZeros : Bool)
    (text : List Char) : Option (Nat × List Char) :=
  let isDigit := fun c => (digitValue? radix c).isSome
  let digits := text.takeWhile isDigit
  let value := digits.foldl (fun n c => n * radix + (digitValue? radix c).getD 0) 0
  if digits = [] ∨ width.any (· < digits.length) ∨ bound ≤ value then none
  else if ¬ leadingZeros ∧ digits.head? = some '0' ∧ 1 < digits.length then none
  else some (value, text.dropWhile isDigit)

def after? (mark : Char) : List Char → Option (List Char)
  | c :: rest => if c = mark then some rest else none
  | [] => none

def octet? (text : List Char) : Option (UInt8 × List Char) := do
  let (n, rest) ← number? 10 256 (some 3) false text
  return (UInt8.ofNat n, rest)

def ipv4? (text : List Char) : Option (Ipv4 × List Char) := do
  let (a, rest) ← octet? text
  let (b, rest) ← octet? (← after? '.' rest)
  let (c, rest) ← octet? (← after? '.' rest)
  let (d, rest) ← octet? (← after? '.' rest)
  return (⟨a, b, c, d⟩, rest)

def pairUp (high low : UInt8) : UInt16 := UInt16.ofNat (high.toNat * 256 + low.toNat)

/-- Groups between colons, at most `room` of them, and whether they end in an address
of the older version, which counts as two. -/
def groups (first : Bool) : (room : Nat) → List Char → List UInt16 × Bool × List Char
  | 0, text => ([], false, text)
  | room + 1, text =>
    let body := if first then some text else after? ':' text
    match if 0 < room then body.bind ipv4? else none with
    | some (host, rest) => ([pairUp host.a host.b, pairUp host.c host.d], true, rest)
    | none =>
      match body.bind (number? 16 65536 (some 4) true) with
      | none => ([], false, text)
      | some (n, rest) =>
        let (more, ends, rest) := groups false room rest
        (UInt16.ofNat n :: more, ends, rest)

/-- Two colons stand for at least one group of zeros. -/
def ipv6? (text : List Char) : Option (Ipv6 × List Char) :=
  let (head, ends, rest) := groups true 8 text
  if head.length = 8 then (Ipv6.ofGroups? head).map (·, rest)
  else if ends then none
  else do
    let rest ← after? ':' (← after? ':' rest)
    let (tail, _, rest) := groups true (7 - head.length) rest
    let zeros := List.replicate (8 - head.length - tail.length) 0
    return (← Ipv6.ofGroups? (head ++ zeros ++ tail), rest)

def scope? (text : List Char) : Option (Nat × List Char) := do
  number? 10 4294967296 none true (← after? '%' text)

def port? (text : List Char) : Option (UInt16 × List Char) := do
  let (n, rest) ← number? 10 65536 none true (← after? ':' text)
  return (UInt16.ofNat n, rest)

def v4? (text : List Char) : Option (SocketAddress × List Char) := do
  let (host, rest) ← ipv4? text
  let (port, rest) ← port? rest
  return (v4 host port, rest)

def v6? (text : List Char) : Option (SocketAddress × List Char) := do
  let (host, rest) ← ipv6? (← after? '[' text)
  let (scope, rest) := (scope? rest).getD (0, rest)
  let (port, rest) ← port? (← after? ']' rest)
  return (v6 host (UInt32.ofNat scope) port, rest)

def parse? (text : String) : Option SocketAddress :=
  match (v4? text.toList).orElse fun _ => v6? text.toList with
  | some (address, []) => some address
  | _ => none

end SocketAddress

end TftpReceiver
