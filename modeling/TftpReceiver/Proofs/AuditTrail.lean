import TftpReceiver.Proofs.RejectedRequests
import TftpReceiver.Proofs.TransferNotes

/-! The audit trail of a whole session: its start, a group of notes for each datagram at the
well-known port, and for the accepted one the notes of its transfer, of which the last one tells
what the session came to. -/

namespace TftpReceiver

/-- The notes of the datagrams that are read at the well-known port, of which only the last one may
be accepted. -/
inductive Receiver.Hears (receiver : Receiver) (tree : FileTree) :
    List (Nat × Arrival) → Option Acceptance → List Note → Prop
  | nothing : Hears receiver tree [] none []
  | accepted {now arrival asked acceptance}
      (ha : receiver.Answers tree now arrival [asked] (.ok acceptance)) :
      Hears receiver tree [(now, arrival)] (some acceptance) [asked]
  | refused {now arrival group condition petitions answer noted}
      (hr : receiver.Answers tree now arrival group (.error condition))
      (h : Hears receiver tree petitions answer noted) :
      Hears receiver tree ((now, arrival) :: petitions) answer (group ++ noted)

/-- The trail of a session that has accepted a request: after the notes so far the start of the
transfer, one note for each datagram that was turned away, and how it ended, if it did. -/
def Acceptance.Trail (acceptance : Acceptance) (receiver : Receiver) (tree : FileTree)
    (front : List Note) (outputs : List Output) (stage : Stage) : Prop :=
  ∃ closing, acceptance.Closes tree stage closing ∧
    outputs.filterMap Output.note? = receiver.kept (front ++ acceptance.startedNote ::
      (outputs.filterMap (Output.stranger? acceptance.peer)).map strayNote ++ closing) ∧
    ∀ note ∈ acceptance.startedNote :: closing, ∀ timestamp hostname,
      (Audit.Event.make timestamp hostname note.transfer note.detail).stamp.correlation =
        some acceptance.correlation

theorem Audit.Event.correlation_make {detail : Audit.Detail} (h : detail.isOfTransfer = true)
    (timestamp hostname : String) (transfer : Option String) :
    (make timestamp hostname transfer detail).stamp.correlation = transfer := if_pos h

theorem Acceptance.Closes.correlated {acceptance : Acceptance} {tree : FileTree} {stage : Stage}
    {closing : List Note} (h : acceptance.Closes tree stage closing) :
    ∀ note ∈ acceptance.startedNote :: closing,
      note.transfer = some acceptance.correlation ∧ note.detail.isOfTransfer = true := by
  refine List.forall_mem_cons.mpr ⟨⟨rfl, rfl⟩, ?_⟩
  cases h with
  | pending => simp
  | completed | failed =>
    intro note hn
    rw [List.mem_singleton.mp hn]
    exact ⟨rfl, rfl⟩

namespace Receiver

variable {receiver : Receiver} {tree : FileTree} {petitions later : List (Nat × Arrival)}
  {answer : Option Acceptance} {noted more : List Note} {acceptance : Acceptance}

theorem Hears.append (h : receiver.Hears tree petitions none noted)
    (h' : receiver.Hears tree later answer more) :
    receiver.Hears tree (petitions ++ later) answer (noted ++ more) := by
  induction petitions generalizing noted with
  | nil =>
    cases h
    exact h'
  | cons head rest ih =>
    cases h with
    | refused hr hrest =>
      rw [List.cons_append, List.append_assoc]
      exact .refused hr (ih hrest)

/-- The last note before a transfer starts is that of its request. -/
theorem Hears.asked (h : receiver.Hears tree petitions (some acceptance) noted) :
    ∃ groups asked, noted = groups ++ [asked] ∧ asked.transfer = some acceptance.correlation ∧
      asked.detail.isOfTransfer = true := by
  induction petitions generalizing noted with
  | nil => cases h
  | cons head rest ih =>
    cases h with
    | accepted ha =>
      obtain ⟨asked, hnotes, hasked⟩ := ha.asked
      exact ⟨[], asked, hnotes, hasked⟩
    | @refused _ _ group _ _ _ _ hr hrest =>
      obtain ⟨groups, asked, rfl, hasked⟩ := ih hrest
      exact ⟨group ++ groups, asked, by rw [List.append_assoc], hasked⟩

end Receiver

namespace Session

/-- What is read of each datagram. -/
def readings (turns : List (Nat × Turn)) : List (Nat × Arrival) :=
  (datagrams turns).map fun entry => (entry.1, entry.2.cut)

variable {session : Session} {receiver : Receiver} {tree : FileTree} {now : Nat}

theorem readings_arrivals (now : Nat) (arrivals : List Arrival) (rest : List (Nat × Turn)) :
    readings ((now, .arrivals arrivals) :: rest) =
      arrivals.map (fun arrival => (now, arrival.cut)) ++ readings rest := by
  simp [readings, datagrams]

theorem said_ended (h : session.isEnded = true) (turns : List (Nat × Turn)) :
    session.said turns = [] := by
  induction turns with
  | nil => rfl
  | cons head rest ih =>
    obtain ⟨now, turn⟩ := head
    have hturn : session.turn now turn = ([], session) := by
      cases turn with
      | arrivals arrivals => exact receive_ended h now arrivals
      | silence =>
        obtain ⟨tree, result, hs⟩ := stage_of_isEnded h
        exact settleWithin_ended hs now _
    rw [said, hturn, ih, List.append_nil]

/-- A listening session takes the datagrams that have come in up to one that it accepts. -/
theorem receive_hears (hs : session.stage = .listening tree) (now : Nat)
    (arrivals : List Arrival) : ∃ petitions noted front,
      session.receiver.Hears tree petitions (session.admits now arrivals) noted ∧
      petitions <+: arrivals.map (fun arrival => (now, arrival.cut)) ∧
      front.filterMap Output.note? = session.receiver.kept noted ∧
      (∀ peer, front.filterMap (Output.stranger? peer) = []) ∧
      ((session.admits now arrivals = none ∧ session.receive now arrivals = (front, session) ∧
          petitions = arrivals.map fun arrival => (now, arrival.cut)) ∨
        ∃ acceptance, session.admits now arrivals = some acceptance ∧
          (∃ arrival notes, session.receiver.consider tree now arrival = (notes, .ok acceptance)) ∧
          session.receive now arrivals = (front ++ (session.begin now acceptance).1,
            (session.begin now acceptance).2)) := by
  induction arrivals with
  | nil => exact ⟨[], [], [], .nothing, List.nil_prefix, by simp, by simp, .inl ⟨rfl, rfl, rfl⟩⟩
  | cons arrival rest ih =>
    have hanswers := session.receiver.consider_answers tree now arrival.cut
    rcases hc : session.receiver.consider tree now arrival.cut with ⟨notes, answer⟩
    rw [hc] at hanswers
    have hread := hc
    rw [Arrival.cut] at hread
    cases answer with
    | ok acceptance =>
      have hadmits : session.admits now (arrival :: rest) = some acceptance := by
        simp [admits, hs, hread]
      have hheard : session.receiver.Hears tree [(now, arrival.cut)] (some acceptance) notes := by
        obtain ⟨asked, rfl, -⟩ := hanswers.asked
        exact .accepted hanswers
      rw [hadmits]
      refine ⟨_, notes, session.notes notes, hheard, by simp, note?_notes session notes,
        stranger?_notes session notes, .inr ⟨acceptance, rfl, ⟨_, _, hc⟩, ?_⟩⟩
      simp [receive, hs, hread]
    | error condition =>
      have hrefused : session.refusal? now arrival = some condition := by simp [refusal?, hs, hc]
      have hadmits : session.admits now (arrival :: rest) = session.admits now rest := by
        simp [admits, hs, hread]
      obtain ⟨notes, hanswers, hreceive⟩ := receive_refused hs hrefused
      obtain ⟨petitions, noted, front, hheard, hprefix, hnotes, hstrangers, hends⟩ := ih
      rw [hadmits, hreceive, List.map_cons]
      refine ⟨(now, arrival.cut) :: petitions, notes ++ noted, session.notes notes ++
        .send .rendezvous arrival.source (Packet.encodeError condition) :: front,
        .refused hanswers hheard, (List.prefix_cons_inj _).mpr hprefix, ?_, fun peer => ?_, ?_⟩
      · rw [List.filterMap_append, note?_notes, List.filterMap_cons_none (by rfl), hnotes,
          Receiver.kept_append]
      · rw [List.filterMap_append, stranger?_notes, List.filterMap_cons_none (by rfl), hstrangers]
        rfl
      · rcases hends with ⟨hnone, hreceived, rfl⟩ | ⟨acceptance, hsome, hconsider, hreceived⟩
        · exact .inl ⟨hnone, by rw [hreceived], rfl⟩
        · refine .inr ⟨acceptance, hsome, hconsider, ?_⟩
          rw [hreceived]
          simp only [List.append_assoc, List.cons_append]

/-- A session that listens hears datagrams for as long as it accepts none, and then serves the one
that it accepts. -/
theorem said_hears (hs : session.stage = .listening tree) (turns : List (Nat × Turn)) :
    ∃ petitions noted,
      session.receiver.Hears tree petitions (session.admitted turns) noted ∧
      petitions <+: readings turns ∧
      ((session.admitted turns = none ∧
          (session.said turns).filterMap Output.note? = session.receiver.kept noted ∧
          ((session.converse turns).stage = .listening tree ∧ petitions = readings turns ∨
            (session.converse turns).stage =
              .ended tree (.error (.idle session.receiver.limits.idleSeconds)))) ∨
        ∃ acceptance front served, session.admitted turns = some acceptance ∧
          (∃ now arrival notes,
            session.receiver.consider tree now arrival = (notes, .ok acceptance)) ∧
          session.said turns = front ++ served ∧
          front.filterMap Output.note? = session.receiver.kept noted ∧
          front.filterMap (Output.stranger? acceptance.peer) = [] ∧
          Narrates acceptance session.receiver (session.converse turns) served) := by
  induction turns with
  | nil => exact ⟨[], [], .nothing, List.nil_prefix, .inl ⟨rfl, by simp [said], .inl ⟨hs, rfl⟩⟩⟩
  | cons head rest ih =>
    obtain ⟨now, turn⟩ := head
    obtain ⟨later, noted', hheard', hprefix', hends⟩ := ih
    cases turn with
    | silence =>
      have hadmits : session.admitsIn now .silence = none := rfl
      rw [admitted, said, converse, Session.turn, hadmits]
      rcases settle_listening hs now with hsame | ⟨idle, hidle, hstage⟩
      · rw [hsame]
        exact ⟨later, noted', hheard', hprefix', hends⟩
      · obtain ⟨hconverse, hnone⟩ := converse_ended hstage rest
        have hsaid := said_ended (by rw [isEnded, hstage]) rest
        rw [hidle, hconverse, hnone, hsaid]
        exact ⟨[], [], .nothing, List.nil_prefix, .inl ⟨rfl, by simp, .inr hstage⟩⟩
    | arrivals arrivals =>
      obtain ⟨petitions, noted, front, hheard, hprefix, hnotes, hstrangers, hreceived⟩ :=
        receive_hears hs now arrivals
      rw [admitted, said, converse, Session.turn, admitsIn, readings_arrivals]
      rcases hreceived with ⟨hnone, hreceived, rfl⟩ | ⟨acceptance, hsome, ⟨_, _, hc⟩, hreceived⟩
      · rw [hnone] at hheard ⊢
        rw [hreceived, Option.none_or]
        refine ⟨_, noted ++ noted', hheard.append hheard',
          (List.prefix_append_right_inj _).mpr hprefix', ?_⟩
        rcases hends with ⟨hrefused, hnotes', hstage⟩ |
          ⟨acceptance, front', served, hsome, hconsider, hsaid, hnotes', hstrangers', hnarrates⟩
        · refine .inl ⟨hrefused, ?_, hstage.imp_left (And.imp_right fun hall => by rw [hall])⟩
          rw [List.filterMap_append, hnotes, hnotes', Receiver.kept_append]
        · refine .inr ⟨acceptance, front ++ front', served, hsome, hconsider, ?_, ?_, ?_, hnarrates⟩
          · rw [hsaid, List.append_assoc]
          · rw [List.filterMap_append, hnotes, hnotes', Receiver.kept_append]
          · rw [List.filterMap_append, hstrangers, hstrangers', List.append_nil]
      · have hbegun := narrates_begin session now acceptance
        rw [hsome] at hheard ⊢
        rw [hreceived, Option.some_or]
        refine ⟨petitions, noted, hheard, hprefix.trans (List.prefix_append _ _),
          .inr ⟨acceptance, front, _, rfl, ⟨_, _, _, hc⟩, List.append_assoc _ _ _, hnotes,
            hstrangers _, ?_⟩⟩
        exact (narrates_preserved acceptance session.receiver).said hbegun rest

theorem Narrates.trail {acceptance : Acceptance} {served front : List Output} {noted : List Note}
    {arrival : Arrival} {notes : List Note} (h : Narrates acceptance receiver session served)
    (hc : receiver.consider tree now arrival = (notes, .ok acceptance))
    (hn : front.filterMap Output.note? = receiver.kept noted)
    (hs : front.filterMap (Output.stranger? acceptance.peer) = []) :
    acceptance.Trail receiver tree noted (front ++ served) session.stage := by
  obtain ⟨closing, htold, hserved⟩ := h.told
  have hcloses := closes_of_told hc htold
  refine ⟨closing, hcloses, ?_, fun note hnote timestamp hostname => ?_⟩
  · rw [List.filterMap_append, List.filterMap_append, hn, hs, hserved, ← Receiver.kept_append,
      List.nil_append, List.append_assoc]
  · obtain ⟨htransfer, hkind⟩ := hcloses.correlated note hnote
    rw [Audit.Event.correlation_make hkind, htransfer]

theorem stage_of_start {address : SocketAddress} {observed : Bool}
    (h : (start receiver tree address observed now).2 = some session) :
    session.receiver = receiver ∧ session.stage = .listening tree := by
  obtain ⟨-, h⟩ := Option.ite_none_left_eq_some.mp h
  obtain rfl := Option.some.inj h
  exact ⟨rfl, rfl⟩

/-- The trail of a run, if one is kept. It begins with the start, and ends there where no clock can
show the deadline. Otherwise the notes of the datagrams at the well-known port follow, and nothing
more unless one of them is accepted. Then the transfer follows up to its end, also where that comes
because the host cannot store a block. -/
theorem said_tells_trail (receiver : Receiver) (tree : FileTree) (address : SocketAddress)
    (observed : Bool) (began : Nat) (turns : List (Nat × Turn)) :
    let started := start receiver tree address observed began
    let opened : Note := { detail := .serverStarted address.render receiver.policy.root }
    match started.2 with
    | none => started.1 = receiver.kept [opened]
    | some session =>
      let outputs := started.1.map Output.note ++ session.said turns
      let ended := session.converse turns
      ∃ petitions noted, receiver.Hears tree petitions (session.admitted turns) noted ∧
        petitions <+: readings turns ∧
        match session.admitted turns with
        | none =>
          outputs.filterMap Output.note? = receiver.kept (opened :: noted) ∧
            (ended.stage = .listening tree ∧ petitions = readings turns ∨
              ended.stage = .ended tree (.error (.idle receiver.limits.idleSeconds)))
        | some acceptance =>
          (∃ groups asked, noted = groups ++ [asked] ∧ ∀ timestamp hostname,
            (Audit.Event.make timestamp hostname asked.transfer asked.detail).stamp.correlation =
              some acceptance.correlation) ∧
          acceptance.Trail receiver tree (opened :: noted) outputs ended.stage ∧
          ∀ active block now error, ended.stage = .transferring active →
            active.transfer.phase = .awaitingData block →
              let failed := ended.onStorageFailure now error
              acceptance.Trail receiver tree (opened :: noted) (outputs ++ failed.1)
                failed.2.stage := by
  intro started opened
  have hopened : started.1 = receiver.kept [opened] := rfl
  cases hstart : started.2 with
  | none => exact hopened
  | some session =>
    dsimp -zeta only
    intro outputs ended
    obtain ⟨rfl, hs⟩ := stage_of_start hstart
    have houtputs : outputs = session.notes [opened] ++ session.said turns := by
      rw [notes_eq, ← hopened]
    obtain ⟨petitions, noted, hheard, hprefix, hends⟩ := said_hears hs turns
    refine ⟨petitions, noted, hheard, hprefix, ?_⟩
    rcases hends with ⟨hnone, hnotes, hstage⟩ |
      ⟨acceptance, front, served, hsome, ⟨_, _, _, hc⟩, hsaid, hnotes, hstrangers, hnarrates⟩
    · rw [hnone]
      refine ⟨?_, hstage⟩
      rw [houtputs]
      exact note?_behind_notes session [opened] hnotes
    · rw [hsome] at hheard ⊢
      obtain ⟨groups, asked, hnoted, htransfer, hkind⟩ := hheard.asked
      have hfront := note?_behind_notes session [opened] hnotes
      have hstrange : (session.notes [opened] ++ front).filterMap
          (Output.stranger? acceptance.peer) = [] := by
        rw [List.filterMap_append, stranger?_notes, hstrangers, List.append_nil]
      rw [houtputs, hsaid, ← List.append_assoc]
      refine ⟨⟨groups, asked, hnoted, fun timestamp hostname => ?_⟩,
        hnarrates.trail hc hfront hstrange, fun active block now error hstage hp => ?_⟩
      · rw [Audit.Event.correlation_make hkind, htransfer]
      · have hfailed := (hnarrates.onStorageFailure hstage hp now error).trail hc hfront hstrange
        rwa [← List.append_assoc] at hfailed

def auditedReceiver : Receiver := { inboxSession.receiver with audits := true }

/-- Three refused datagrams, the request, and one datagram from someone else in its transfer. -/
def auditedTurns : List (Nat × Turn) :=
  refusedTurns ++ (3, .arrivals [inboxRequest]) :: (4, .arrivals [strayArrival]) :: inboxTurns

def auditedSession : Session := { inboxSession with receiver := auditedReceiver }

def wellKnown : SocketAddress := .v4 ⟨10, 0, 0, 1⟩ 69

theorem said_tells_inbox_trail :
    let started := start auditedReceiver inboxTree wellKnown false 0
    let outputs := started.1.map Output.note ++ auditedSession.said auditedTurns
    started.2 = some auditedSession ∧
      (outputs.filterMap Output.note?).map (·.detail) =
        [.serverStarted "10.0.0.1:69" "/srv",
          .protocolViolation "10.0.0.7:4000" "Unknown transfer ID",
          .requestRejected "10.0.0.7:4000" none 5 "Unknown transfer ID",
          .requestRejected "10.0.0.8:5000" (some "a") 4 "only uploads are served",
          .writeRequest "10.0.0.7:4000" "../a" "octet" (.object []),
          .pathTraversalAttempt "10.0.0.7:4000" "../a" "directory_traversal",
          .requestRejected "10.0.0.7:4000" (some "../a") 2 "directory_traversal",
          .writeRequest "10.0.0.7:4000" "a" "octet" (.object []),
          .writeStarted "10.0.0.7:4000" "a" 512 1000 0,
          .protocolViolation "10.0.0.8:4000" "packet from unknown transfer ID",
          .writeCompleted "10.0.0.7:4000" "a" 2 1 1997 1] ∧
      ∃ acceptance noted, auditedSession.admitted auditedTurns = some acceptance ∧
        acceptance.Trail auditedReceiver inboxTree noted outputs
          (auditedSession.converse auditedTurns).stage := by
  intro started outputs
  have hstart : (start auditedReceiver inboxTree wellKnown false 0).2 = some auditedSession := rfl
  have hadmitted : (auditedSession.admitted auditedTurns).isSome = true := by decide +kernel
  obtain ⟨acceptance, hacceptance⟩ := Option.isSome_iff_exists.mp hadmitted
  have htells := said_tells_trail auditedReceiver inboxTree wellKnown false 0 auditedTurns
  simp only [hstart, hacceptance] at htells
  obtain ⟨-, noted, -, -, -, htrail, -⟩ := htells
  exact ⟨hstart, by decide +kernel, acceptance, _, hacceptance, htrail⟩

end Session

end TftpReceiver
