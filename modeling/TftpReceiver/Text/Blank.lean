/-! The characters that count as white space in any script. -/

namespace TftpReceiver.Text

def blankRanges : List (Nat × Nat) :=
  [(0x09, 0x0D), (0x20, 0x20), (0x85, 0x85), (0xA0, 0xA0), (0x1680, 0x1680), (0x2000, 0x200A),
    (0x2028, 0x2029), (0x202F, 0x202F), (0x205F, 0x205F), (0x3000, 0x3000)]

def isBlankChar (c : Char) : Bool :=
  blankRanges.any fun (first, last) => first ≤ c.toNat ∧ c.toNat ≤ last

/-- Nothing but white space. -/
def isBlank (text : String) : Bool := text.toList.all isBlankChar

end TftpReceiver.Text
