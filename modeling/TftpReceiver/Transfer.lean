import TftpReceiver.Failure
import TftpReceiver.Negotiation
import TftpReceiver.Transfer.Progress
import TftpReceiver.Transfer.RetryTimer
import TftpReceiver.Transfer.Sink

/-! The receiving side of one transfer: blocks in order, duplicates answered again,
silence answered by resending, and a hold after the last block in which its
acknowledgement is repeated on demand. -/

namespace TftpReceiver

inductive Phase
  | awaitingStart
  | awaitingData (block : UInt16)
  | holding (block : UInt16)
  | done
  | aborted
  deriving DecidableEq, Repr, Inhabited

/-- A local end is told to the peer; the other two are silent. -/
inductive AbortReason
  | refused (condition : Condition)
  | peer (code : UInt16) (message : String)
  | timedOut (retries : Nat)
  deriving DecidableEq, Repr, Inhabited

/-- What is to be done after an event. Before a `resync` packet goes out, whatever
else has already arrived is dropped. -/
inductive Step
  | send (packet : Bytes)
  | resync (packet : Bytes)
  | hold (packet : Bytes)
  | ignore
  | done
  | abort (reason : AbortReason)
  deriving DecidableEq, Repr, Inhabited

def AbortReason.failure : AbortReason → Failure
  | refused condition => .aborted condition
  | peer code message => .peer code message
  | timedOut retries => .timedOut retries

structure Transfer (σ : Type) where
  phase : Phase := .awaitingStart
  sink : σ
  blockSize : Nat
  firstPacket : Bytes
  lastSent : Bytes
  timer : RetryTimer
  progress : Progress
  bytesWritten : Nat := 0
  blocksWritten : Nat := 0

/-- What can happen to a transfer. -/
inductive TransferEvent
  | start
  | datagram (bytes : Bytes)
  | timeout
  deriving DecidableEq, Repr, Inhabited

namespace Phase

def isFinished : Phase → Bool
  | done | aborted => true
  | _ => false

end Phase

namespace Transfer

variable {σ : Type} [Sink σ]

def create (sink : σ) (options : TransferOptions) (optionAck : Option Bytes)
    (maxRetries : Nat) (observed : Bool) : Transfer σ :=
  let first := optionAck.getD (Packet.encodeAck 0)
  { sink
    blockSize := options.blockSize
    firstPacket := first
    lastSent := first
    timer := { interval := options.interval, maxRetries }
    progress :=
      { declaredSize := options.declaredSize, blockSize := options.blockSize, observed } }

def send (now : Nat) (packet : Bytes) (t : Transfer σ) : Step × Transfer σ :=
  (.send packet, { t with lastSent := packet, timer := t.timer.arm now })

def resync (now : Nat) (t : Transfer σ) : Step × Transfer σ :=
  (.resync t.lastSent, { t with timer := t.timer.arm now })

def hold (now : Nat) (packet : Bytes) (t : Transfer σ) : Step × Transfer σ :=
  (.hold packet, { t with lastSent := packet, timer := t.timer.arm now })

def finish (t : Transfer σ) : Step × Transfer σ :=
  (.done, { t with phase := .done })

/-- The sink is told to drop what it holds, whether it can or not. -/
def abort (reason : AbortReason) (t : Transfer σ) : Step × Transfer σ :=
  (.abort reason,
    { t with phase := .aborted, timer := t.timer.cancel, sink := (Sink.discard t.sink).2 })

def refuse (code : ErrorCode) (t : Transfer σ) : Step × Transfer σ :=
  t.abort (.refused (.protocol code))

def fail (error : HostError) (t : Transfer σ) : Step × Transfer σ :=
  t.abort (.refused (.ofHostError error))

def start (now : Nat) (t : Transfer σ) : Step × Transfer σ :=
  match t.phase with
  | .awaitingStart =>
    send now t.firstPacket
      { t with phase := .awaitingData 1, progress := t.progress.update 0 }
  | _ => (.ignore, t)

/-- Offers the payload to the sink; an empty one is not offered. -/
def store (payload : Bytes) (t : Transfer σ) : Except Condition Unit × Transfer σ :=
  if payload = [] then (.ok (), t)
  else
    match Sink.write t.sink payload with
    | (.ok taken, sink) =>
      (if taken = payload.length then .ok () else .error (.protocol .diskFull),
        { t with sink })
    | (.error e, sink) => (.error (.ofHostError e), { t with sink })

/-- Flushes the sink and publishes what it holds. -/
def commit (t : Transfer σ) : Except HostError Unit × Transfer σ :=
  match Sink.flush t.sink with
  | (.error e, sink) => (.error e, { t with sink })
  | (.ok (), sink) =>
    let (answer, sink) := Sink.publish sink
    (answer, { t with sink })

def count (size : Nat) (t : Transfer σ) : Transfer σ :=
  { t with bytesWritten := t.bytesWritten + size, blocksWritten := t.blocksWritten + 1 }

def report (t : Transfer σ) : Transfer σ :=
  { t with progress := t.progress.update t.blocksWritten }

/-- A block shorter than the block size is the last one. -/
def accept (now : Nat) (block : UInt16) (payload : Bytes) (t : Transfer σ) :
    Step × Transfer σ :=
  if t.blockSize < payload.length then t.refuse .illegalOperation
  else
    match t.store payload with
    | (.error condition, t) => t.abort (.refused condition)
    | (.ok (), t) =>
      let t := t.count payload.length
      if payload.length = t.blockSize then
        send now (Packet.encodeAck block) { t.report with phase := .awaitingData (block + 1) }
      else
        match t.commit with
        | (.error e, t) => t.fail e
        | (.ok (), t) =>
          hold now (Packet.encodeAck block)
            { t.report with phase := .holding block, timer := t.timer.resetRetries }

def onAwaited (now : Nat) (expected : UInt16) (bytes : Bytes) (t : Transfer σ) :
    Step × Transfer σ :=
  match Packet.decode bytes with
  | .error (.tooShort _) => t.refuse .illegalOperation
  | .error (.unknownOpcode _) => t.refuse .unknownTransfer
  | .ok (.data block payload) =>
    if block = expected then t.accept now block payload
    else if block = expected - 1 then t.resync now
    else t.refuse .unknownTransfer
  | .ok (.error code message) => t.abort (.peer code message)
  | .ok _ => t.refuse .unknownTransfer

def onHeld (now : Nat) (final : UInt16) (bytes : Bytes) (t : Transfer σ) : Step × Transfer σ :=
  match Packet.decode bytes with
  | .ok (.data block _) =>
    if block = final then
      match t.timer.recordRetry with
      | (.retry _, timer) => hold now t.lastSent { t with timer }
      | (.exhausted _, timer) => finish { t with timer }
    else (.ignore, t)
  | .ok (.error _ _) => finish { t with timer := t.timer.cancel }
  | _ => (.ignore, t)

def onDatagram (now : Nat) (bytes : Bytes) (t : Transfer σ) : Step × Transfer σ :=
  match t.phase with
  | .awaitingData block => onAwaited now block bytes { t with timer := t.timer.cancel }
  | .holding block => onHeld now block bytes t
  | _ => (.ignore, t)

def onTimeout (now : Nat) (t : Transfer σ) : Step × Transfer σ :=
  match t.phase with
  | .awaitingData _ =>
    match t.timer.recordRetry with
    | (.retry _, timer) => send now t.lastSent { t with timer }
    | (.exhausted count, timer) => abort (.timedOut (count - 1)) { t with timer }
  | .holding _ => finish { t with timer := t.timer.cancel }
  | _ => (.ignore, t)

def apply (now : Nat) (event : TransferEvent) (t : Transfer σ) : Step × Transfer σ :=
  match event with
  | .start => t.start now
  | .datagram bytes => t.onDatagram now bytes
  | .timeout => t.onTimeout now

/-- Applies events, each at its own time, and collects the steps. -/
def run (t : Transfer σ) : List (Nat × TransferEvent) → List Step × Transfer σ
  | [] => ([], t)
  | (now, event) :: rest =>
    let (step, t) := t.apply now event
    let (steps, t) := t.run rest
    (step :: steps, t)

def isFinished (t : Transfer σ) : Bool := t.phase.isFinished

end Transfer

end TftpReceiver
