import TftpReceiver.Packet

/-! Option negotiation: which pairs of a request are granted, with what value, and
the settings of the transfer that follow from them. -/

namespace TftpReceiver

/-- `interval` is in milliseconds; `declaredSize` is 0 when the size is not known. -/
structure TransferOptions where
  blockSize : Nat := Packet.defaultBlockSize
  interval : Nat := 1000
  declaredSize : Nat := 0
  deriving DecidableEq, Repr, Inhabited

structure Negotiation where
  options : TransferOptions
  accepted : List (String × String)
  deriving DecidableEq, Repr, Inhabited

inductive OptionName
  | blockSize
  | blockSizePower
  | transferSize
  | timeoutSeconds
  | timeoutMillis
  deriving DecidableEq, Repr, Inhabited

/-- What one usable pair asks for. -/
inductive Grant
  | blockSize (size : Nat)
  | declaredSize (size : Nat)
  | sizeQuery (known : Nat)
  | seconds (count : Nat)
  | millis (count : Nat)
  deriving DecidableEq, Repr, Inhabited

namespace OptionName

def ofText? (text : String) : Option OptionName :=
  match String.ofList (text.toList.map Char.toLower) with
  | "blksize" => some blockSize
  | "blksize2" => some blockSizePower
  | "tsize" => some transferSize
  | "timeout" => some timeoutSeconds
  | "utimeout" => some timeoutMillis
  | _ => none

end OptionName

/-- The block size granted for a requested one: never more than was asked for, and a
power of two where that is wanted and the request is not above the maximum. -/
def grantedBlockSize? (requested : Nat) (powerOfTwo : Bool) : Option Nat :=
  if requested < Packet.minBlockSize then none
  else if Packet.maxBlockSize < requested then some Packet.maxBlockSize
  else if powerOfTwo then some (Nat.pow 2 requested.log2)
  else some requested

namespace Grant

def ofValue? (knownSize : Nat) (name : OptionName) (value : Nat) : Option Grant :=
  match name with
  | .blockSize => (grantedBlockSize? value false).map blockSize
  | .blockSizePower => (grantedBlockSize? value true).map blockSize
  | .transferSize => some (if value = 0 then sizeQuery knownSize else declaredSize value)
  | .timeoutSeconds => if 1 ≤ value ∧ value ≤ 255 then some (seconds value) else none
  | .timeoutMillis => if 1000 ≤ value ∧ value ≤ 255000 then some (millis value) else none

def ofPair? (knownSize : Nat) (pair : String × String) : Option Grant := do
  let name ← OptionName.ofText? pair.1
  let value ← Decimal.parse? Decimal.maxWord64 pair.2
  ofValue? knownSize name value

def isBlockSize : Grant → Bool
  | blockSize _ => true
  | _ => false

/-- The number told to the peer. -/
def echoed : Grant → Nat
  | blockSize n | declaredSize n | sizeQuery n | seconds n | millis n => n

def apply (options : TransferOptions) : Grant → TransferOptions
  | blockSize n => { options with blockSize := n }
  | declaredSize n => { options with declaredSize := n }
  | sizeQuery _ => options
  | seconds n => { options with interval := n * 1000 }
  | millis n => { options with interval := n }

end Grant

namespace Negotiation

/-- A second block size is ignored once one was granted. -/
def extend (knownSize : Nat) (options : TransferOptions) (sized : Bool) :
    List (String × String) → Negotiation
  | [] => { options, accepted := [] }
  | pair :: rest =>
    match Grant.ofPair? knownSize pair with
    | none => extend knownSize options sized rest
    | some grant =>
      if grant.isBlockSize && sized then extend knownSize options sized rest
      else
        let later := extend knownSize (grant.apply options) (sized || grant.isBlockSize) rest
        { later with accepted := (pair.1, Decimal.render grant.echoed) :: later.accepted }

def ofPairs (defaults : TransferOptions) (knownSize : Nat)
    (requested : List (String × String)) : Negotiation :=
  extend knownSize defaults false requested

/-- The option acknowledgement, unless nothing was granted. -/
def optionAck? (negotiation : Negotiation) : Option Bytes :=
  if negotiation.accepted = [] then none
  else some (Packet.encodeOptionAck negotiation.accepted)

end Negotiation

end TftpReceiver
