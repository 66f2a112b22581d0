import TftpReceiver.Proofs.ForeignPeers
import TftpReceiver.Proofs.ServedUpload

/-! The notes of an accepted request: its transfer is noted when it starts, each datagram from
someone else is noted when it is answered, and the end is noted once, as what it was. -/

namespace TftpReceiver

namespace Output

def note? : Output → Option Note
  | note entry => some entry
  | send _ _ _ => none

/-- Who is sent a packet from the port of the transfer without being its peer. -/
def stranger? (peer : SocketAddress) : Output → Option SocketAddress
  | send .transfer target _ => if target = peer then none else some target
  | _ => none

end Output

/-- The entries that go into the trail, if there is one. -/
def Receiver.kept (receiver : Receiver) (entries : List Note) : List Note :=
  if receiver.audits then entries else []

@[simp]
theorem Receiver.kept_nil (receiver : Receiver) : receiver.kept [] = [] := by
  simp [kept]

theorem Receiver.kept_append (receiver : Receiver) (front back : List Note) :
    receiver.kept (front ++ back) = receiver.kept front ++ receiver.kept back := by
  by_cases ha : receiver.audits = true <;> simp [kept, ha]

def strayNote (source : SocketAddress) : Note :=
  { detail := .protocolViolation source.render "packet from unknown transfer ID" }

namespace Acceptance

variable (acceptance : Acceptance)

def startedNote : Note :=
  { transfer := some acceptance.correlation
    detail := .writeStarted acceptance.peer.render acceptance.filename
      acceptance.negotiation.options.blockSize acceptance.negotiation.options.interval
      acceptance.negotiation.options.declaredSize }

/-- The rate is in bytes per second, and its product is a word of 64 bits. -/
def completedNote (size blocks duration : Nat) : Note :=
  { transfer := some acceptance.correlation
    detail := .writeCompleted acceptance.peer.render acceptance.filename size blocks duration
      (size * 1000 % 18446744073709551616 / duration) }

def failedNote (failure : Failure) (blocks : Nat) : Note :=
  { transfer := some acceptance.correlation
    detail := .writeFailed acceptance.peer.render acceptance.filename failure.message blocks }

/-- The transfer under way is the one of the accepted request. -/
structure Conducts (active : Active) : Prop where
  peer : active.peer = acceptance.peer
  filename : active.filename = acceptance.filename
  correlation : active.correlation = acceptance.correlation
  target : active.target = acceptance.target
  blockSize : active.transfer.blockSize = acceptance.negotiation.options.blockSize

/-- What is noted last when a session has come to a stage, in terms of its transfer. -/
inductive Told : Stage → List Note → Prop
  | transferring {active payloads} (hc : acceptance.Conducts active)
      (hl : active.transfer.Ledger acceptance.upload payloads) : Told (.transferring active) []
  | completed {active payloads} (hc : acceptance.Conducts active)
      (hl : active.transfer.Ledger acceptance.upload payloads) (hp : active.transfer.phase = .done)
      (duration : Nat) :
      Told
        (.ended active.transfer.sink.tree (.ok {
          path := acceptance.target, peer := acceptance.peer, size := active.transfer.bytesWritten
          blocks := active.transfer.blocksWritten }))
        [acceptance.completedNote active.transfer.bytesWritten active.transfer.blocksWritten
          duration]
  | failed {transfer : Transfer StagedUpload} {payloads}
      (hl : transfer.Ledger acceptance.upload payloads) (hp : transfer.phase = .aborted)
      (failure : Failure) :
      Told (.ended transfer.sink.tree (.error failure))
        [acceptance.failedNote failure transfer.blocksWritten]

/-- What is noted last, in terms of the file tree that the request met: the end is told as a
completion where the target holds a new file, whose size it tells, and as a failure where the
target is as it was. -/
inductive Closes (tree : FileTree) : Stage → List Note → Prop
  | pending {active} (hp : active.peer = acceptance.peer)
      (hc : active.correlation = acceptance.correlation) : Closes tree (.transferring active) []
  | completed {tree' bytes blocks} (hr : tree'.read acceptance.target = .ok bytes)
      (hb : blocks = bytes.length / acceptance.negotiation.options.blockSize + 1)
      (duration : Nat) :
      Closes tree
        (.ended tree' (.ok {
          path := acceptance.target, peer := acceptance.peer, size := bytes.length, blocks }))
        [acceptance.completedNote bytes.length blocks duration]
  | failed {tree'}
      (hk : tree'.inspect false acceptance.target = tree.inspect false acceptance.target)
      (failure : Failure) (blocks : Nat) :
      Closes tree (.ended tree' (.error failure)) [acceptance.failedNote failure blocks]

end Acceptance

namespace Session

variable {session : Session} {receiver : Receiver} {acceptance : Acceptance} {active : Active}
  {payloads : List Bytes} {said : List Output}

theorem notes_eq (session : Session) (entries : List Note) :
    session.notes entries = (session.receiver.kept entries).map Output.note := by
  by_cases ha : session.receiver.audits = true <;> simp [notes, Receiver.kept, ha]

theorem note?_notes (session : Session) (entries : List Note) :
    (session.notes entries).filterMap Output.note? = session.receiver.kept entries := by
  rw [notes_eq, List.filterMap_map]
  exact List.filterMap_some

theorem note?_behind_notes (session : Session) (entries : List Note) {outputs : List Output}
    {noted : List Note} (h : outputs.filterMap Output.note? = session.receiver.kept noted) :
    (session.notes entries ++ outputs).filterMap Output.note? =
      session.receiver.kept (entries ++ noted) := by
  rw [List.filterMap_append, note?_notes, h, ← Receiver.kept_append]

theorem stranger?_notes (session : Session) (entries : List Note) (peer : SocketAddress) :
    (session.notes entries).filterMap (Output.stranger? peer) = [] := by
  rw [notes_eq, List.filterMap_map]
  exact List.filterMap_eq_nil_iff.mpr fun _ _ => rfl

theorem told_follow (session : Session) {now : Nat} {event : TransferEvent} {step : Step}
    {transfer : Transfer StagedUpload} (hc : acceptance.Conducts active)
    (hl : active.transfer.Ledger acceptance.upload payloads)
    (hm : active.transfer.Moves now event step transfer) :
    let followed := session.follow now { active with transfer } step
    ∃ closing, acceptance.Told followed.2.stage closing ∧
      followed.1.filterMap Output.note? = session.receiver.kept closing ∧
      followed.1.filterMap (Output.stranger? acceptance.peer) = [] := by
  have hmoved := hl.move hm
  have hconducts : acceptance.Conducts { active with transfer } :=
    ⟨hc.peer, hc.filename, hc.correlation, hc.target, hm.constants.1.trans hc.blockSize⟩
  have hsent : ∀ packet, Output.stranger? acceptance.peer (.send .transfer active.peer packet) =
      none := fun packet => by rw [Output.stranger?, if_pos hc.peer]
  cases step with
  | send packet | resync packet | hold packet =>
    refine ⟨[], .transferring hconducts hmoved, by simp [follow, Output.note?], ?_⟩
    simp [follow, hsent]
  | ignore => exact ⟨[], .transferring hconducts hmoved, by simp [follow], by simp [follow]⟩
  | done =>
    have hp : transfer.phase = .done := by cases hm; rfl
    have hword : Decimal.maxWord64 + 1 = 18446744073709551616 := rfl
    have htold := Acceptance.Told.completed hconducts hmoved hp
      ((now - active.started) % 18446744073709551616)
    refine ⟨_, ?_, note?_notes _ _, stranger?_notes _ _ _⟩
    simpa only [follow, Audit.Detail.completed, Audit.Detail.rate, hword, Acceptance.completedNote,
      hc.peer, hc.filename, hc.correlation, hc.target] using htold
  | abort reason =>
    have hp : transfer.phase = .aborted := by cases hm <;> rfl
    have htold := Acceptance.Told.failed hmoved hp reason.failure
    refine ⟨_, htold, ?_, ?_⟩
    · simp only [follow, List.filterMap_append, note?_notes, hc.peer, hc.filename, hc.correlation]
      cases reason <;> rfl
    · simp only [follow, List.filterMap_append, stranger?_notes, List.append_nil]
      cases reason <;> simp [hsent]

/-- What a session has put out since it started the transfer of an accepted request tells how it
stands. -/
structure Narrates (acceptance : Acceptance) (receiver : Receiver) (session : Session)
    (said : List Output) : Prop where
  attends : Attends receiver acceptance.peer session
  told : ∃ closing, acceptance.Told session.stage closing ∧
    said.filterMap Output.note? = receiver.kept (acceptance.startedNote ::
      (said.filterMap (Output.stranger? acceptance.peer)).map strayNote ++ closing)

theorem Narrates.follow {now : Nat} {event : TransferEvent} {step : Step}
    {transfer : Transfer StagedUpload} (h : Narrates acceptance receiver session said)
    (hs : session.stage = .transferring active)
    (hm : active.transfer.Moves now event step transfer) :
    let followed := session.follow now { active with transfer } step
    Narrates acceptance receiver followed.2 (said ++ followed.1) := by
  intro followed
  obtain ⟨closing, htold, hnotes⟩ := h.told
  rw [hs] at htold
  cases htold with
  | transferring hc hl =>
    obtain ⟨closing, htold', hnoted, hstrangers⟩ := told_follow session hc hl hm
    refine ⟨h.attends.follow { active with transfer } hc.peer now step, closing, htold', ?_⟩
    rw [List.filterMap_append, List.filterMap_append, hnotes, hnoted, hstrangers,
      h.attends.receiver, List.append_nil, List.append_nil, Receiver.kept_append]

theorem Narrates.turnAway (h : Narrates acceptance receiver session said)
    (hs : session.stage = .transferring active) {source : SocketAddress}
    (hf : source ≠ acceptance.peer) :
    Narrates acceptance receiver session (said ++ session.turnAway source) := by
  obtain ⟨closing, htold, hnotes⟩ := h.told
  refine ⟨h.attends, closing, htold, ?_⟩
  rw [hs] at htold
  cases htold with
  | transferring =>
    have hnoted : (session.turnAway source).filterMap Output.note? =
        receiver.kept [strayNote source] := by
      rw [Session.turnAway, List.filterMap_append, note?_notes, h.attends.receiver]
      exact List.append_nil _
    have hstranger : (session.turnAway source).filterMap (Output.stranger? acceptance.peer) =
        [source] := by
      rw [Session.turnAway, List.filterMap_append, stranger?_notes, List.nil_append]
      simp [Output.stranger?, hf]
    rw [List.filterMap_append, List.filterMap_append, hnotes, hnoted, hstranger, ←
      Receiver.kept_append]
    simp

theorem narrates_preserved (acceptance : Acceptance) (receiver : Receiver) :
    Preserves (Narrates acceptance receiver) where
  attends h := ⟨_, _, h.attends⟩
  receive := by
    intro session said h now arrival
    rcases h.attends.cases with hended | ⟨active, hs, hp⟩
    · rw [receive_ended hended, List.append_nil]
      exact h
    · by_cases hown : arrival.source = active.peer
      · have hfollow := h.follow hs (active.transfer.apply_moves now
          (.datagram (arrival.bytes.take Packet.receiveLimit)))
        simpa [receive, hs, hown, Transfer.apply] using hfollow
      · have hforeign : arrival.source ≠ acceptance.peer := hp ▸ hown
        have hlive : session.isEnded = false := by simp [isEnded, hs]
        rw [h.attends.receive_foreign hforeign hlive]
        exact h.turnAway hs hforeign
  onTimeout := by
    intro session said h now
    rcases h.attends.cases with hended | ⟨active, hs, hp⟩
    · obtain ⟨tree, result, hs⟩ := stage_of_isEnded hended
      simpa [Session.onTimeout, hs] using h
    · have hfollow := h.follow hs (active.transfer.apply_moves now .timeout)
      simpa [Session.onTimeout, hs, Transfer.apply] using hfollow

theorem narrates_begin (session : Session) (now : Nat) (acceptance : Acceptance) :
    Narrates acceptance session.receiver (session.begin now acceptance).2
      (session.begin now acceptance).1 := by
  let created := Transfer.create acceptance.upload acceptance.negotiation.options
    acceptance.negotiation.optionAck? session.receiver.limits.maxRetries session.observed
  let active : Active :=
    { peer := acceptance.peer, filename := acceptance.filename
      correlation := acceptance.correlation, target := acceptance.target, started := now
      transfer := created }
  have hconducts : acceptance.Conducts active := ⟨rfl, rfl, rfl, rfl, rfl⟩
  have hcreated : active.transfer.Ledger acceptance.upload [] := Transfer.ledger_create ..
  obtain ⟨closing, htold, hnoted, hstrangers⟩ :=
    told_follow session hconducts hcreated (created.apply_moves now .start)
  refine ⟨⟨rfl, fun tree hs => Stage.noConfusion hs, fun other hs => ?_⟩, closing, htold, ?_⟩
  · obtain rfl := Stage.transferring.inj hs
    rfl
  · have hbegun : (session.begin now acceptance).1 = session.notes [acceptance.startedNote] ++
        (session.follow now { active with transfer := (created.apply now .start).2 }
          (created.apply now .start).1).1 := rfl
    rw [hbegun, List.filterMap_append, List.filterMap_append, note?_notes, stranger?_notes, hnoted,
      hstrangers, ← Receiver.kept_append]
    rfl

/-- A block that the host cannot store ends a transfer like one that the transfer refuses. -/
theorem Narrates.onStorageFailure {block : UInt16} (h : Narrates acceptance receiver session said)
    (hs : session.stage = .transferring active)
    (hp : active.transfer.phase = .awaitingData block) (now : Nat) (error : HostError) :
    Narrates acceptance receiver (session.onStorageFailure now error).2
      (said ++ (session.onStorageFailure now error).1) := by
  have hm : active.transfer.Moves now .timeout (active.transfer.fail error).1
      (active.transfer.fail error).2 := .refused hp rfl (.refused (.ofHostError error))
  have hfollow := h.follow hs hm
  simpa only [Session.onStorageFailure, hs] using hfollow

variable {tree : FileTree} {now : Nat} {arrival : Arrival} {notes closing : List Note}
  {stage : Stage}

/-- What is told last holds of the tree that the request met, which may have had a file at the
staging name. -/
theorem closes_of_told (hc : receiver.consider tree now arrival = (notes, .ok acceptance))
    (h : acceptance.Told stage closing) : acceptance.Closes tree stage closing := by
  obtain ⟨directory, name, hnames, -, hroom, hopen⟩ := Receiver.erased_of_consider hc
  cases h with
  | transferring hconducts => exact .pending hconducts.peer hconducts.correlation
  | completed hconducts hl hp duration =>
    obtain ⟨full, last, rfl, hfull, hlast, hpublished⟩ := hl.stands.of_done hp
    have hreads := ((hopen.published hroom hpublished).completes hroom).reads
    have hblocks := Transfer.length_of_short_last hfull hlast
    rw [← hl.blocks, hconducts.blockSize] at hblocks
    rw [hl.bytes]
    exact .completed hreads hblocks duration
  | failed hl hp failure =>
    have hkept := ((hopen.dropped hroom (hl.stands.of_aborted hp)).undoes hroom).kept
    rw [hroom.names.inspect, FileTree.lookup_erase (by simp),
      if_neg (StagedUpload.staged_ne directory name), ← hnames.inspect] at hkept
    exact .failed hkept failure _

end Session

end TftpReceiver
