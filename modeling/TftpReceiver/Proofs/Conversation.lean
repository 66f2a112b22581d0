import TftpReceiver.Proofs.Accounts
import TftpReceiver.Session

/-! A conversation at the port of a transfer, and what the session makes of it: the transfer
keeps its ledger until the session ends, and the session ends as the transfer does. -/

namespace TftpReceiver

/-- What happens at the port of a transfer: datagrams have come in, or none for a while. -/
inductive Turn
  | arrivals (arrivals : List Arrival)
  | silence

namespace Session

def turn (now : Nat) (session : Session) : Turn → List Output × Session
  | .arrivals arrivals => session.receive now arrivals
  | .silence => session.settle now

/-- The session after a sequence of turns, each at its own time. -/
def converse (session : Session) : List (Nat × Turn) → Session
  | [] => session
  | (now, turn) :: rest => (session.turn now turn).2.converse rest

/-- The payloads that the transfer under way accepts from the datagrams at its port. -/
def taken (now : Nat) : List Arrival → Session → List Bytes
  | [], _ => []
  | arrival :: rest, session =>
    match session.stage with
    | .transferring active =>
      if arrival.source = active.peer then
        let bytes := arrival.bytes.take Packet.receiveLimit
        let (step, transfer) := active.transfer.onDatagram now bytes
        (active.transfer.newBlock? (.datagram bytes)).toList ++
          if isResync step then []
          else taken now rest (session.follow now { active with transfer } step).2
      else taken now rest session
    | _ => []

def takenIn (now : Nat) (session : Session) : Turn → List Bytes
  | .arrivals arrivals => session.taken now arrivals
  | .silence => []

/-- The payloads that are accepted in a sequence of turns. -/
def accepted (session : Session) : List (Nat × Turn) → List Bytes
  | [] => []
  | (now, turn) :: rest => session.takenIn now turn ++ (session.turn now turn).2.accepted rest

/-- A stage that serves an upload to a target, which has accepted payloads so far. -/
inductive Serves (fresh : StagedUpload) (target : String) : Stage → List Bytes → Prop
  | transferring {active payloads} (ht : active.target = target)
      (h : active.transfer.Ledger fresh payloads) :
      Serves fresh target (.transferring active) payloads
  | completed {transfer : Transfer StagedUpload} {outcome payloads} (hp : transfer.phase = .done)
      (h : transfer.Ledger fresh payloads) (ht : outcome.path = target)
      (hs : outcome.size = transfer.bytesWritten) (hb : outcome.blocks = transfer.blocksWritten) :
      Serves fresh target (.ended transfer.sink.tree (.ok outcome)) payloads
  | failed {transfer : Transfer StagedUpload} {payloads} (hp : transfer.phase = .aborted)
      (h : transfer.Ledger fresh payloads) (failure : Failure) :
      Serves fresh target (.ended transfer.sink.tree (.error failure)) payloads

variable {fresh : StagedUpload} {target : String} {session : Session} {payloads : List Bytes}

theorem serves_follow (session : Session) {active : Active} {event : TransferEvent} {step : Step}
    {transfer : Transfer StagedUpload} {now : Nat} (ht : active.target = target)
    (h : active.transfer.Ledger fresh payloads)
    (hm : active.transfer.Moves now event step transfer) :
    Serves fresh target (session.follow now { active with transfer } step).2.stage
      (payloads ++ (active.transfer.newBlock? event).toList) := by
  have hmoved := h.move hm
  cases step with
  | send | resync | hold | ignore => exact .transferring ht hmoved
  | done =>
    have hp : transfer.phase = .done := by cases hm; rfl
    exact .completed hp hmoved ht rfl rfl
  | abort reason =>
    have hp : transfer.phase = .aborted := by cases hm <;> rfl
    exact .failed hp hmoved reason.failure

theorem serves_receive {now : Nat} {arrivals : List Arrival}
    (h : Serves fresh target session.stage payloads) :
    Serves fresh target (session.receive now arrivals).2.stage
      (payloads ++ session.taken now arrivals) := by
  induction arrivals generalizing session payloads with
  | nil => simpa [receive, taken] using h
  | cons arrival rest ih =>
    cases hs : session.stage with
    | listening tree =>
      rw [hs] at h
      cases h
    | ended tree result => simpa [receive, taken, hs] using h
    | transferring active =>
      have hserves := h
      rw [hs] at h
      cases h with
      | transferring ht hl =>
        by_cases hp : arrival.source = active.peer
        · have hf := serves_follow session ht hl
            (active.transfer.apply_moves now (.datagram (arrival.bytes.take Packet.receiveLimit)))
          rcases hd : active.transfer.onDatagram now (arrival.bytes.take Packet.receiveLimit)
            with ⟨step, transfer⟩
          rw [Transfer.apply, hd] at hf
          by_cases hr : isResync step = true
          · simpa [receive, taken, hs, hp, hd, hr] using hf
          · simpa [receive, taken, hs, hp, hd, hr] using ih hf
        · simpa [receive, taken, hs, hp] using ih hserves

theorem serves_onTimeout {now : Nat} (h : Serves fresh target session.stage payloads) :
    Serves fresh target (session.onTimeout now).2.stage payloads := by
  cases hs : session.stage with
  | listening tree =>
    rw [hs] at h
    cases h
  | ended tree result => simpa [onTimeout, hs] using h
  | transferring active =>
    rw [hs] at h
    cases h with
    | transferring ht hl =>
      have hf := serves_follow session ht hl (active.transfer.apply_moves now .timeout)
      simpa [onTimeout, hs, Transfer.apply] using hf

theorem serves_settle {now : Nat} (h : Serves fresh target session.stage payloads) :
    Serves fresh target (session.settle now).2.stage payloads := by
  unfold settle
  generalize session.receiver.limits.maxRetries + 2 = count
  induction count generalizing session with
  | zero => exact h
  | succ count ih =>
    rw [settleWithin]
    split
    · exact ih (serves_onTimeout h)
    · exact h

theorem serves_turn {now : Nat} (turn : Turn) (h : Serves fresh target session.stage payloads) :
    Serves fresh target (session.turn now turn).2.stage (payloads ++ session.takenIn now turn) := by
  cases turn with
  | arrivals arrivals => exact serves_receive h
  | silence => simpa [Session.turn, takenIn] using serves_settle h

theorem serves_converse (turns : List (Nat × Turn))
    (h : Serves fresh target session.stage payloads) :
    Serves fresh target (session.converse turns).stage (payloads ++ session.accepted turns) := by
  induction turns generalizing session payloads with
  | nil => simpa [converse, accepted] using h
  | cons head rest ih =>
    obtain ⟨now, turn⟩ := head
    rw [converse, accepted, ← List.append_assoc]
    exact ih (serves_turn turn h)

theorem serves_begin (session : Session) (now : Nat) (acceptance : Acceptance) :
    Serves acceptance.upload acceptance.target (session.begin now acceptance).2.stage [] := by
  let created := Transfer.create acceptance.upload acceptance.negotiation.options
    acceptance.negotiation.optionAck? session.receiver.limits.maxRetries session.observed
  let active : Active :=
    { peer := acceptance.peer, filename := acceptance.filename
      correlation := acceptance.correlation, target := acceptance.target, started := now
      transfer := created }
  have hcreated : active.transfer.Ledger acceptance.upload [] := Transfer.ledger_create ..
  exact serves_follow session rfl hcreated (created.apply_moves now .start)

end Session

end TftpReceiver
