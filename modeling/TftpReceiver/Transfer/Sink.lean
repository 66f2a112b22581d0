import TftpReceiver.Bytes
import TftpReceiver.HostError

/-! Where the payloads of a transfer go: written block by block, then flushed and
published, or discarded. -/

namespace TftpReceiver

/-- `write` answers with the number of bytes it took; fewer than offered means that
there is no more room. -/
class Sink (σ : Type) where
  write : σ → Bytes → Except HostError Nat × σ
  flush : σ → Except HostError Unit × σ
  publish : σ → Except HostError Unit × σ
  discard : σ → Except HostError Unit × σ

/-- One use of a sink and its answer. -/
inductive SinkCall
  | write (payload : Bytes) (answer : Except HostError Nat)
  | flush (answer : Except HostError Unit)
  | publish (answer : Except HostError Unit)
  | discard (answer : Except HostError Unit)

/-- A sink with the calls made on it, newest first. -/
structure Recorded (σ : Type) where
  sink : σ
  calls : List SinkCall := []

namespace Recorded

variable {σ : Type}

def log (call : α → SinkCall) (recorded : Recorded σ) (result : α × σ) : α × Recorded σ :=
  (result.1, { sink := result.2, calls := call result.1 :: recorded.calls })

instance [Sink σ] : Sink (Recorded σ) where
  write recorded payload := recorded.log (.write payload) (Sink.write recorded.sink payload)
  flush recorded := recorded.log .flush (Sink.flush recorded.sink)
  publish recorded := recorded.log .publish (Sink.publish recorded.sink)
  discard recorded := recorded.log .discard (Sink.discard recorded.sink)

end Recorded

/-- A sink in memory with a limit on its size and failures planned in advance. The
chunks are kept newest first. -/
structure MemorySink where
  capacity : Option Nat := none
  writesBeforeFailure : Nat := 0
  writeFailure : Option HostError := none
  flushFailure : Option HostError := none
  publishFailure : Option HostError := none
  discardFailure : Option HostError := none
  chunks : List Bytes := []
  size : Nat := 0
  writes : Nat := 0
  deriving Repr, Inhabited

namespace MemorySink

def stored (sink : MemorySink) : Bytes := sink.chunks.reverse.flatten

def room (sink : MemorySink) (wanted : Nat) : Nat :=
  match sink.capacity with
  | none => wanted
  | some capacity => min (capacity - sink.size) wanted

def answer (failure : Option HostError) (sink : MemorySink) :
    Except HostError Unit × MemorySink :=
  match failure with
  | none => (.ok (), sink)
  | some e => (.error e, sink)

def write (sink : MemorySink) (payload : Bytes) : Except HostError Nat × MemorySink :=
  let counted := { sink with writes := sink.writes + 1 }
  match sink.writeFailure with
  | some e =>
    if sink.writesBeforeFailure ≤ sink.writes then (.error e, counted) else accept counted
  | none => accept counted
where
  accept (sink : MemorySink) : Except HostError Nat × MemorySink :=
    let size := payload.length
    let taken := sink.room size
    let chunk := if taken = size then payload else payload.take taken
    (.ok taken, { sink with chunks := chunk :: sink.chunks, size := sink.size + taken })

instance : Sink MemorySink where
  write := write
  flush sink := answer sink.flushFailure sink
  publish sink := answer sink.publishFailure sink
  discard sink := answer sink.discardFailure sink

end MemorySink

end TftpReceiver
