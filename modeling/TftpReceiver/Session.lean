import TftpReceiver.Receiver

/-! One run of a receiver: it listens until a write request is accepted, carries out that
transfer from a port of its own, and ends. Times are in milliseconds. -/

namespace TftpReceiver

/-- A completed upload. -/
structure Outcome where
  path : String
  peer : SocketAddress
  size : Nat
  blocks : Nat
  deriving DecidableEq, Repr

/-- Requests come in at one port; the transfer has another one. -/
inductive Port
  | rendezvous
  | transfer
  deriving DecidableEq, Repr, Inhabited

inductive Output
  | send (port : Port) (target : SocketAddress) (packet : Bytes)
  | note (note : Note)
  deriving Repr

/-- A transfer under way and whom it is for. -/
structure Active where
  peer : SocketAddress
  filename : String
  correlation : String
  target : String
  started : Nat
  transfer : Transfer StagedUpload

inductive Stage
  | listening (tree : FileTree)
  | transferring (active : Active)
  | ended (tree : FileTree) (result : Except Failure Outcome)

/-- `deadline` is for the first acceptable request; without one the wait has no end.
`told` is the progress of the transfer as an observer was told it, if there is one. -/
structure Session where
  receiver : Receiver
  deadline : Option Nat
  observed : Bool
  told : List Nat := []
  stage : Stage

namespace Session

/-- Clocks count whole seconds below this. -/
def clockSeconds : Nat := 9223372036854775808

def isRepresentable (time : Nat) : Bool := time / 1000 < clockSeconds

def foreignViolation : String := "packet from unknown transfer ID"

/-- Starts to listen at an address, which is noted first. There is no session if no clock can
show its deadline. -/
def start (receiver : Receiver) (tree : FileTree) (address : SocketAddress) (observed : Bool)
    (now : Nat) : List Note × Option Session :=
  let opened : Note := { detail := .serverStarted address.render receiver.policy.root }
  let idle := receiver.limits.idleSeconds
  let deadline := if idle = 0 then none else some (now + idle * 1000)
  (if receiver.audits then [opened] else [],
    if deadline.any fun time => ¬ isRepresentable time then none
    else some { receiver, deadline, observed, stage := .listening tree })

def notes (session : Session) (entries : List Note) : List Output :=
  if session.receiver.audits then entries.map .note else []

/-- What there is of the file tree now. -/
def tree (session : Session) : FileTree :=
  match session.stage with
  | .listening tree | .ended tree _ => tree
  | .transferring active => active.transfer.sink.tree

def isEnded (session : Session) : Bool :=
  match session.stage with
  | .ended _ _ => true
  | _ => false

/-- Follows a step of the transfer. -/
def follow (session : Session) (now : Nat) (active : Active) (step : Step) :
    List Output × Session :=
  let session := { session with told := active.transfer.progress.reported }
  let send := fun packet => Output.send .transfer active.peer packet
  let tree := active.transfer.sink.tree
  let note := fun detail : Audit.Detail =>
    session.notes [{ transfer := some active.correlation, detail }]
  match step with
  | .send packet | .resync packet | .hold packet =>
    ([send packet], { session with stage := .transferring active })
  | .ignore => ([], { session with stage := .transferring active })
  | .done =>
    let size := active.transfer.bytesWritten
    let blocks := active.transfer.blocksWritten
    let duration := (now - active.started) % (Decimal.maxWord64 + 1)
    (note (.completed active.peer active.filename size blocks duration),
      { session with
        stage := .ended tree (.ok { path := active.target, peer := active.peer, size, blocks }) })
  | .abort reason =>
    let failure := reason.failure
    ((match reason with
        | .refused condition => [send (Packet.encodeError condition)]
        | _ => []) ++
      note (.writeFailed active.peer.render active.filename failure.message
        active.transfer.blocksWritten),
      { session with stage := .ended tree (.error failure) })

/-- Starts the transfer of an accepted request. -/
def begin (session : Session) (now : Nat) (acceptance : Acceptance) : List Output × Session :=
  let options := acceptance.negotiation.options
  let (step, transfer) :=
    (Transfer.create acceptance.upload options acceptance.negotiation.optionAck?
      session.receiver.limits.maxRetries session.observed).start now
  let started : Note :=
    { transfer := some acceptance.correlation
      detail := .writeStarted acceptance.peer.render acceptance.filename options.blockSize
        options.interval options.declaredSize }
  let (outputs, session) := session.follow now
    { peer := acceptance.peer, filename := acceptance.filename
      correlation := acceptance.correlation, target := acceptance.target, started := now
      transfer } step
  (session.notes [started] ++ outputs, session)

/-- A datagram from anyone but the peer is answered and changes nothing. -/
def turnAway (session : Session) (source : SocketAddress) : List Output :=
  session.notes [{ detail := .protocolViolation source.render foreignViolation }] ++
    [.send .transfer source (Packet.encodeError (.protocol .unknownTransfer))]

def isResync : Step → Bool
  | .resync _ => true
  | _ => false

/-- Takes the datagrams that are waiting at the port in use, in order. Those that wait
behind an accepted request, or behind a block that is acknowledged again, are dropped. -/
def receive (now : Nat) : List Arrival → Session → List Output × Session
  | [], session => ([], session)
  | arrival :: rest, session =>
    let arrival := { arrival with bytes := arrival.bytes.take Packet.receiveLimit }
    match session.stage with
    | .ended _ _ => ([], session)
    | .listening tree =>
      match session.receiver.consider tree now arrival with
      | (entries, .error condition) =>
        let (outputs, session') := receive now rest session
        (session.notes entries ++
          .send .rendezvous arrival.source (Packet.encodeError condition) :: outputs, session')
      | (entries, .ok acceptance) =>
        let (outputs, session') := session.begin now acceptance
        (session.notes entries ++ outputs, session')
    | .transferring active =>
      if arrival.source = active.peer then
        let (step, transfer) := active.transfer.onDatagram now arrival.bytes
        let (outputs, session) := session.follow now { active with transfer } step
        if isResync step then (outputs, session)
        else
          let (more, session) := receive now rest session
          (outputs ++ more, session)
      else
        let (outputs, session') := receive now rest session
        (session.turnAway arrival.source ++ outputs, session')

/-- When the session next acts of its own accord. -/
def dueTime (session : Session) (now : Nat) : Option Nat :=
  match session.stage with
  | .listening _ => session.deadline
  | .transferring active => some (active.transfer.timer.deadline.getD now)
  | .ended _ _ => none

/-- The time of the next deadline has come. -/
def onTimeout (now : Nat) (session : Session) : List Output × Session :=
  match session.stage with
  | .listening tree =>
    let failure := Failure.idle session.receiver.limits.idleSeconds
    ([], { session with stage := .ended tree (.error failure) })
  | .transferring active =>
    let (step, transfer) := active.transfer.onTimeout now
    session.follow now { active with transfer } step
  | .ended _ _ => ([], session)

/-- Acts on at most `count` deadlines that have passed. -/
def settleWithin (now : Nat) : (count : Nat) → Session → List Output × Session
  | 0, session => ([], session)
  | count + 1, session =>
    if (session.dueTime now).any (· ≤ now) then
      let (outputs, session) := session.onTimeout now
      let (more, session) := settleWithin now count session
      (outputs ++ more, session)
    else ([], session)

/-- Acts on all deadlines that have passed; the budget of retries bounds their number. -/
def settle (now : Nat) (session : Session) : List Output × Session :=
  settleWithin now (session.receiver.limits.maxRetries + 2) session

/-- The file tree that is left when the session is given up where it stands. -/
def abandon (session : Session) : FileTree :=
  match session.stage with
  | .listening tree | .ended tree _ => tree
  | .transferring active => (StagedUpload.discard active.transfer.sink).2.tree

/-- The port at which the session takes datagrams. -/
def port (session : Session) : Port :=
  match session.stage with
  | .listening _ => .rendezvous
  | _ => .transfer

/-- The session over another file tree. -/
def withTree (tree : FileTree) (session : Session) : Session :=
  let stage :=
    match session.stage with
    | .listening _ => .listening tree
    | .ended _ result => .ended tree result
    | .transferring active =>
      let sink := { active.transfer.sink with tree }
      .transferring { active with transfer := { active.transfer with sink } }
  { session with stage }

/-- The host could not store what came in: the peer is told, and the transfer ends. -/
def onStorageFailure (now : Nat) (error : HostError) (session : Session) :
    List Output × Session :=
  match session.stage with
  | .transferring active =>
    let (step, transfer) := active.transfer.fail error
    session.follow now { active with transfer } step
  | _ => ([], session)

/-- A datagram could not be sent. A transfer goes on without it only when all blocks are
stored, or when it was for someone else. -/
def onSendFailure (target : SocketAddress) (error : HostError) (session : Session) : Session :=
  match session.stage with
  | .transferring active =>
    match active.transfer.phase with
    | .awaitingData _ =>
      if target = active.peer then
        { session with stage := .ended session.abandon (.error (.host error)) }
      else session
    | _ => session
  | _ => session

end Session

end TftpReceiver
