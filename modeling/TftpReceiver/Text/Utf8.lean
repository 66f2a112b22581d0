import TftpReceiver.Bytes

/-! UTF-8. A byte string is read character by character; a malformed part is
skipped up to the longest start of a character that it holds. -/

namespace TftpReceiver.Utf8

def tailByte (n : Nat) : UInt8 := UInt8.ofNat (128 + n % 64)

def encodeChar (c : Char) : Bytes :=
  let n := c.toNat
  if n < 128 then [UInt8.ofNat n]
  else if n < 2048 then [UInt8.ofNat (192 + n / 64), tailByte n]
  else if n < 65536 then [UInt8.ofNat (224 + n / 4096), tailByte (n / 64), tailByte n]
  else [UInt8.ofNat (240 + n / 262144), tailByte (n / 4096), tailByte (n / 64), tailByte n]

def encode (text : String) : Bytes := text.toList.flatMap encodeChar

/-- Takes `need` further bytes of a character, the next one between `low` and
`high`, and tells how many it took. -/
def follow : (need low high value : Nat) → Bytes → Option Nat × Nat
  | 0, _, _, value, _ => (some value, 0)
  | _ + 1, _, _, _, [] => (none, 0)
  | need + 1, low, high, value, b :: rest =>
    if low ≤ b.toNat ∧ b.toNat ≤ high then
      let (found, taken) := follow need 128 191 (value * 64 + (b.toNat - 128)) rest
      (found, taken + 1)
    else (none, 0)

/-- The code point that starts with byte `a`, if there is one, and the number of
bytes after `a` that belong to it. -/
def lead (a : UInt8) (rest : Bytes) : Option Nat × Nat :=
  let n := a.toNat
  if n < 128 then (some n, 0)
  else if n < 194 then (none, 0)
  else if n < 224 then follow 1 128 191 (n - 192) rest
  else if n < 240 then
    follow 2 (if n = 224 then 160 else 128) (if n = 237 then 159 else 191) (n - 224) rest
  else if n < 245 then
    follow 3 (if n = 240 then 144 else 128) (if n = 244 then 143 else 191) (n - 240) rest
  else (none, 0)

/-- Reads characters after skipping `skip` bytes; `none` stands for a malformed part. -/
def scan : (skip : Nat) → Bytes → List (Option Char)
  | _, [] => []
  | skip + 1, _ :: rest => scan skip rest
  | 0, a :: rest => ((lead a rest).1.map Char.ofNat) :: scan (lead a rest).2 rest

/-- The text, unless a part of it is malformed. -/
def decode? (bytes : Bytes) : Option String :=
  let found := scan 0 bytes
  if found.all Option.isSome then some (String.ofList (found.filterMap id)) else none

def replacement : Char := Char.ofNat 0xFFFD

/-- The text, with each malformed part as one replacement character. -/
def decodeLossy (bytes : Bytes) : String :=
  String.ofList ((scan 0 bytes).map (·.getD replacement))

/-- The longest start of the text that takes at most `limit` bytes. -/
def within : (limit : Nat) → List Char → List Char
  | _, [] => []
  | limit, c :: rest =>
    let size := (encodeChar c).length
    if size ≤ limit then c :: within (limit - size) rest else []

end TftpReceiver.Utf8
