import TftpReceiver.Proofs.KeptFiles
import TftpReceiver.Proofs.PeerSessions
import TftpReceiver.Proofs.RequestAnswers

/-! Refused datagrams: each is answered with one error packet and leaves no trace in the session,
so that the request that is accepted in the end might as well have come first. -/

namespace TftpReceiver

/-- The part of a datagram that is read. -/
def Arrival.cut (arrival : Arrival) : Arrival :=
  { arrival with bytes := arrival.bytes.take Packet.receiveLimit }

def Output.packet? : Output → Option (Port × SocketAddress × Bytes)
  | send port target packet => some (port, target, packet)
  | note _ => none

namespace Session

/-- Why a listening session refuses a datagram, if it does. -/
def refusal? (session : Session) (now : Nat) (arrival : Arrival) : Option Condition :=
  match session.stage with
  | .listening tree =>
    match (session.receiver.consider tree now arrival.cut).2 with
    | .error condition => some condition
    | .ok _ => none
  | _ => none

def refusalPacket? (session : Session) (now : Nat) (arrival : Arrival) :
    Option (Port × SocketAddress × Bytes) :=
  (session.refusal? now arrival).map fun condition =>
    (.rendezvous, arrival.source, Packet.encodeError condition)

/-- The datagrams of a sequence of turns, each with its time. -/
def datagrams : List (Nat × Turn) → List (Nat × Arrival)
  | [] => []
  | (now, .arrivals arrivals) :: rest => arrivals.map (now, ·) ++ datagrams rest
  | (_, .silence) :: rest => datagrams rest

variable {session : Session} {tree : FileTree} {now : Nat} {arrival : Arrival}
  {condition : Condition} {front : List Arrival} {turns : List (Nat × Turn)}

theorem packets_notes (session : Session) (entries : List Note) :
    (session.notes entries).filterMap Output.packet? = [] := by
  by_cases ha : session.receiver.audits = true
  · simp [notes, ha, List.filterMap_map, Function.comp_def, Output.packet?]
  · simp [notes, ha]

theorem consider_of_refusal? (hs : session.stage = .listening tree)
    (hr : session.refusal? now arrival = some condition) :
    ∃ notes, session.receiver.consider tree now arrival.cut = (notes, .error condition) := by
  unfold refusal? at hr
  simp only [hs] at hr
  split at hr
  · next found hc =>
    obtain rfl := Option.some.inj hr
    exact ⟨_, Prod.ext rfl hc⟩
  · cases hr

theorem receive_refused (hs : session.stage = .listening tree)
    (hr : session.refusal? now arrival = some condition) : ∃ notes,
      session.receiver.Answers tree now arrival.cut notes (.error condition) ∧
      ∀ rest, session.receive now (arrival :: rest) =
        (session.notes notes ++ .send .rendezvous arrival.source (Packet.encodeError condition) ::
          (session.receive now rest).1, (session.receive now rest).2) := by
  obtain ⟨notes, hc⟩ := consider_of_refusal? hs hr
  have hanswers := session.receiver.consider_answers tree now arrival.cut
  rw [hc] at hanswers
  rw [Arrival.cut] at hc
  exact ⟨notes, hanswers, fun rest => by simp only [receive, hs, hc]⟩

/-- Refused datagrams in front of others are answered, and the others are met as if they came
alone. -/
theorem receive_behind_refused (hs : session.stage = .listening tree)
    (hr : ∀ arrival ∈ front, session.refusal? now arrival ≠ none) : ∃ outputs,
      outputs.filterMap Output.packet? = front.filterMap (session.refusalPacket? now) ∧
      ∀ rest, session.receive now (front ++ rest) =
        (outputs ++ (session.receive now rest).1, (session.receive now rest).2) := by
  induction front with
  | nil => exact ⟨[], rfl, fun rest => rfl⟩
  | cons arrival front ih =>
    obtain ⟨hfirst, hfront⟩ := List.forall_mem_cons.mp hr
    obtain ⟨condition, hcondition⟩ := Option.ne_none_iff_exists'.mp hfirst
    obtain ⟨notes, -, hreceive⟩ := receive_refused hs hcondition
    obtain ⟨outputs, hpackets, hbehind⟩ := ih hfront
    have hpacket : session.refusalPacket? now arrival =
        some (.rendezvous, arrival.source, Packet.encodeError condition) := by
      rw [refusalPacket?, hcondition, Option.map_some]
    refine ⟨session.notes notes ++
      .send .rendezvous arrival.source (Packet.encodeError condition) :: outputs, ?_,
      fun rest => ?_⟩
    · rw [List.filterMap_append, packets_notes, List.nil_append,
        List.filterMap_cons_some (by rfl), hpackets, List.filterMap_cons_some hpacket]
    · rw [List.cons_append, hreceive, hbehind]
      simp only [List.append_assoc, List.cons_append]

theorem settle_before_deadline (hs : session.stage = .listening tree)
    (hd : session.deadline.all (now < ·) = true) : session.settle now = ([], session) := by
  have hdue : (session.dueTime now).any (· ≤ now) = false := by
    rw [dueTime, hs]
    cases hdeadline : session.deadline with
    | none => rfl
    | some deadline =>
      rw [hdeadline] at hd
      simpa using hd
  rw [settle, settleWithin, hdue]
  rfl

theorem turn_refused {turn : Turn} (hs : session.stage = .listening tree)
    (hr : ∀ entry ∈ datagrams [(now, turn)], session.refusal? entry.1 entry.2 ≠ none)
    (hd : session.deadline.all (now < ·) = true) :
    (session.turn now turn).2 = session ∧ (session.turn now turn).1.filterMap Output.packet? =
      (datagrams [(now, turn)]).filterMap fun entry => session.refusalPacket? entry.1 entry.2 := by
  cases turn with
  | silence => simp [Session.turn, settle_before_deadline hs hd, datagrams]
  | arrivals arrivals =>
    have hrefused : ∀ arrival ∈ arrivals, session.refusal? now arrival ≠ none :=
      fun arrival ha => hr (now, arrival) (by simpa [datagrams] using ha)
    obtain ⟨outputs, hpackets, hbehind⟩ := receive_behind_refused hs hrefused
    have hreceive := hbehind []
    rw [List.append_nil] at hreceive
    rw [Session.turn, hreceive, receive, List.append_nil]
    simp only [datagrams, hpackets, List.append_nil, List.filterMap_map]
    exact ⟨trivial, rfl⟩

theorem datagrams_cons (head : Nat × Turn) (rest : List (Nat × Turn)) :
    datagrams (head :: rest) = datagrams [head] ++ datagrams rest := by
  obtain ⟨now, turn⟩ := head
  cases turn <;> simp [datagrams]

theorem converse_refused (hs : session.stage = .listening tree)
    (hr : ∀ entry ∈ datagrams turns, session.refusal? entry.1 entry.2 ≠ none)
    (hd : ∀ entry ∈ turns, session.deadline.all (entry.1 < ·) = true) :
    session.converse turns = session ∧ (session.said turns).filterMap Output.packet? =
      (datagrams turns).filterMap fun entry => session.refusalPacket? entry.1 entry.2 := by
  induction turns with
  | nil => exact ⟨rfl, rfl⟩
  | cons head rest ih =>
    obtain ⟨now, turn⟩ := head
    obtain ⟨hbefore, hdeadline⟩ := List.forall_mem_cons.mp hd
    rw [datagrams_cons] at hr ⊢
    obtain ⟨hfirst, hrest⟩ := List.forall_mem_append.mp hr
    obtain ⟨hsame, hpackets⟩ := turn_refused hs hfirst hbefore
    obtain ⟨hconverse, hsaid⟩ := ih hrest hdeadline
    refine ⟨by rw [converse, hsame, hconverse], ?_⟩
    rw [said, hsame, List.filterMap_append, hpackets, hsaid, List.filterMap_append]

/-- A refused datagram costs one error packet, which goes to its sender and names the reason, and
leaves the session as it was, with its tree and its deadline. So whatever was refused before, and
whenever, the session does on the next datagrams what it would have done on them alone. -/
theorem converse_forgets_refused (hs : session.stage = .listening tree) :
    (∀ now arrival condition, session.refusal? now arrival = some condition →
      (∃ notes, session.receiver.Answers tree now arrival.cut notes (.error condition) ∧
        session.receive now [arrival] = (session.notes notes ++
          [.send .rendezvous arrival.source (Packet.encodeError condition)], session)) ∧
      (Packet.encodeError condition).length ≤ 516 ∧
      match condition with
      | .protocol code =>
        Packet.decode (Packet.encodeError condition) = .ok (.error code.word code.message)
      | .host _ text => Packet.decode (Packet.encodeError condition) = .ok (.error 0 text)) ∧
    ∀ turns now front, (∀ entry ∈ datagrams turns, session.refusal? entry.1 entry.2 ≠ none) →
      (∀ arrival ∈ front, session.refusal? now arrival ≠ none) →
      (∀ entry ∈ turns, session.deadline.all (entry.1 < ·) = true) →
      session.converse turns = session ∧
      ∃ outputs, outputs.filterMap Output.packet? =
          ((datagrams turns).filterMap fun entry => session.refusalPacket? entry.1 entry.2) ++
            front.filterMap (session.refusalPacket? now) ∧
        ∀ arrivals later,
          let script := turns ++ (now, .arrivals (front ++ arrivals)) :: later
          let direct := (now, Turn.arrivals arrivals) :: later
          session.converse script = session.converse direct ∧
            session.said script = outputs ++ session.said direct := by
  refine ⟨fun now arrival condition hr => ?_, fun turns now front hr hfront hd => ?_⟩
  · obtain ⟨notes, hanswers, hreceive⟩ := receive_refused hs hr
    have hread := Condition.decode_plain hanswers.isPlain
    refine ⟨⟨notes, hanswers, hreceive []⟩, Packet.length_encodeError_le condition, ?_⟩
    cases condition with
    | protocol code => exact hread
    | host number text => exact hread
  · obtain ⟨hconverse, hsaid⟩ := converse_refused hs hr hd
    obtain ⟨outputs, hpackets, hbehind⟩ := receive_behind_refused hs hfront
    refine ⟨hconverse, session.said turns ++ outputs, ?_, fun arrivals later => ⟨?_, ?_⟩⟩
    · rw [List.filterMap_append, hsaid, hpackets]
    · rw [converse_append, hconverse, converse, converse, Session.turn, Session.turn, hbehind]
    · rw [said_append, hconverse, said, said, Session.turn, Session.turn, hbehind]
      simp only [List.append_assoc]

/-- A malformed datagram, a read request, and a name outside the root. -/
def refusedTurns : List (Nat × Turn) :=
  [(0, .arrivals [{ source := inboxPeer, bytes := [0, 9, 0, 0] },
      { source := .v4 ⟨10, 0, 0, 8⟩ 5000, bytes := [0, 1, 97, 0, 111, 99, 116, 101, 116, 0] }]),
    (1, .silence),
    (2, .arrivals
      [{ source := inboxPeer, bytes := [0, 2, 46, 46, 47, 97, 0, 111, 99, 116, 101, 116, 0] }])]

theorem converse_forgets_refused_turns :
    inboxSession.stage = .listening inboxTree ∧
      ((datagrams refusedTurns).map fun entry => inboxSession.refusal? entry.1 entry.2) =
        [some (.protocol .unknownTransfer), some (.protocol .illegalOperation),
          some (.protocol .accessViolation)] ∧
      ((inboxSession.said refusedTurns).filterMap Output.packet?).head? =
        some (.rendezvous, inboxPeer,
          [0, 5, 0, 5, 85, 110, 107, 110, 111, 119, 110, 32, 116, 114, 97, 110, 115, 102, 101, 114,
            32, 73, 68, 0]) ∧
      Packet.decode (Packet.encodeError (.protocol .unknownTransfer)) =
        .ok (.error 5 "Unknown transfer ID") ∧
      inboxSession.converse refusedTurns = inboxSession ∧
      inboxSession.converse (refusedTurns ++ (3, .arrivals [inboxRequest]) :: inboxTurns) =
        inboxSession.converse ((3, .arrivals [inboxRequest]) :: inboxTurns) := by
  have hstage : inboxSession.stage = .listening inboxTree := rfl
  have hrefusals : ((datagrams refusedTurns).map fun entry =>
      inboxSession.refusal? entry.1 entry.2) =
      [some (.protocol .unknownTransfer), some (.protocol .illegalOperation),
        some (.protocol .accessViolation)] := by decide +kernel
  have hrefused : ∀ entry ∈ datagrams refusedTurns,
      inboxSession.refusal? entry.1 entry.2 ≠ none := by
    intro entry he hnone
    have hmem := List.mem_map_of_mem (f := fun entry => inboxSession.refusal? entry.1 entry.2) he
    rw [hrefusals, hnone] at hmem
    simp at hmem
  obtain ⟨hanswers, hforgets⟩ := converse_forgets_refused hstage
  obtain ⟨-, -, hread⟩ := hanswers 0 { source := inboxPeer, bytes := [0, 9, 0, 0] }
    (.protocol .unknownTransfer) (by decide +kernel)
  obtain ⟨hsame, outputs, -, hdirect⟩ := hforgets refusedTurns 3 [] hrefused (by simp)
    (by simp [inboxSession])
  exact ⟨hstage, hrefusals, by decide +kernel, hread, hsame,
    (hdirect [inboxRequest] inboxTurns).1⟩

end Session

end TftpReceiver
