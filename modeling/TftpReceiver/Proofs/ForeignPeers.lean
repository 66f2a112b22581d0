import TftpReceiver.Proofs.PeerSessions
import TftpReceiver.Proofs.ServedUpload

/-! Datagrams from others than the peer have no effect on a transfer. Each of them is turned away
by itself, unless the session drops what waits behind a block that is acknowledged again. -/

namespace TftpReceiver

/-- The packet, if it goes to a target. -/
def Output.packetTo? (target : SocketAddress) : Output → Option Bytes
  | .send _ other packet => if other = target then some packet else none
  | .note _ => none

namespace Session

def Moment.isOwn (peer : SocketAddress) (moment : Moment) : Bool := moment.source.all (· = peer)

/-- The turns without the datagrams from others than the peer. -/
def heard (peer : SocketAddress) : List (Nat × Turn) → List (Nat × Turn)
  | [] => []
  | (now, .silence) :: rest => (now, .silence) :: heard peer rest
  | (now, .arrivals arrivals) :: rest =>
    match arrivals.filter (·.source = peer) with
    | [] => heard peer rest
    | own => (now, .arrivals own) :: heard peer rest

variable {session : Session} {receiver : Receiver} {peer : SocketAddress} {now : Nat}

theorem Attends.receive_foreign (h : Attends receiver peer session) {arrival : Arrival}
    (hf : arrival.source ≠ peer) (hn : session.isEnded = false) :
    session.receive now [arrival] = (session.turnAway arrival.source, session) := by
  rcases h.cases with hended | ⟨active, hs, rfl⟩
  · rw [hn] at hended
    cases hended
  · simp [Session.receive, hs, hf]

theorem Attends.after_foreign (h : Attends receiver peer session) {arrival : Arrival}
    (hf : arrival.source ≠ peer) : (session.receive now [arrival]).2 = session := by
  cases hn : session.isEnded with
  | true => rw [receive_ended hn]
  | false => rw [h.receive_foreign hf hn]

theorem Attends.drainsAt_foreign (h : Attends receiver peer session) {arrival : Arrival}
    (hf : arrival.source ≠ peer) : session.drainsAt arrival = false := by
  rcases h.cases with hended | ⟨active, hs, rfl⟩
  · exact drainsAt_ended hended arrival
  · simp [drainsAt, hs, hf]

theorem Attends.receive_filter (h : Attends receiver peer session) (now : Nat)
    (arrivals : List Arrival) :
    (session.receive now (arrivals.filter (·.source = peer))).2 =
      (session.receive now arrivals).2 := by
  induction arrivals generalizing session with
  | nil => rfl
  | cons arrival rest ih =>
    by_cases hown : arrival.source = peer
    · rw [List.filter_cons_of_pos (by simpa using hown), h.receive_cons,
        h.receive_cons now arrival rest]
      split
      · rfl
      · exact ih (h.receive_one now arrival)
    · rw [List.filter_cons_of_neg (by simpa using hown), h.receive_cons now arrival rest,
        h.drainsAt_foreign hown, h.after_foreign hown]
      exact ih h

theorem Attends.moments_filter (h : Attends receiver peer session) (now : Nat)
    (arrivals : List Arrival) :
    (session.moments now arrivals).filter (Moment.isOwn peer) =
      session.moments now (arrivals.filter (·.source = peer)) := by
  induction arrivals generalizing session with
  | nil => rfl
  | cons arrival rest ih =>
    cases hn : session.isEnded with
    | true => rw [moments_ended hn, moments_ended hn, List.filter_nil]
    | false =>
      by_cases hown : arrival.source = peer
      · have hkept : (Moment.of arrival.source (session.receive now [arrival])).isOwn peer := by
          simpa [Moment.of, Moment.isOwn] using hown
        rw [List.filter_cons_of_pos (by simpa using hown), moments_cons hn, moments_cons hn,
          List.filter_cons_of_pos hkept]
        split
        · rfl
        · rw [ih (h.receive_one now arrival)]
      · have hdropped :
            ¬ (Moment.of arrival.source (session.receive now [arrival])).isOwn peer := by
          simpa [Moment.of, Moment.isOwn] using hown
        rw [List.filter_cons_of_neg (by simpa using hown), moments_cons hn,
          List.filter_cons_of_neg hdropped, h.drainsAt_foreign hown, if_neg Bool.false_ne_true,
          h.after_foreign hown]
        exact ih h

theorem deadlines_filter (peer : SocketAddress) (now count : Nat) (session : Session) :
    (session.deadlines now count).filter (Moment.isOwn peer) = session.deadlines now count := by
  induction count generalizing session with
  | zero => rfl
  | succ count ih =>
    rw [deadlines]
    split
    · rw [List.filter_cons_of_pos rfl, ih]
    · rfl

theorem heard_arrivals {arrivals own : List Arrival} (now : Nat) (rest : List (Nat × Turn))
    (h : arrivals.filter (·.source = peer) = own) :
    heard peer ((now, .arrivals arrivals) :: rest) = heard peer rest ∧ own = [] ∨
      heard peer ((now, .arrivals arrivals) :: rest) = (now, .arrivals own) :: heard peer rest := by
  subst h
  rw [heard]
  split
  · next hnone => exact .inl ⟨rfl, hnone⟩
  · exact .inr rfl

/-- The datagrams from others leave the session as it is, and nothing else happens later. -/
theorem Attends.history_heard (h : Attends receiver peer session) (turns : List (Nat × Turn)) :
    session.converse (heard peer turns) = session.converse turns ∧
      session.history (heard peer turns) = (session.history turns).filter (Moment.isOwn peer) := by
  induction turns generalizing session with
  | nil => exact ⟨rfl, rfl⟩
  | cons head rest ih =>
    obtain ⟨now, turn⟩ := head
    obtain ⟨hconverse, hhistory⟩ := ih (h.turn now turn)
    rw [Session.converse, history, List.filter_append, ← hconverse, ← hhistory]
    cases turn with
    | silence =>
      rw [heard, Session.converse, history, momentsIn, deadlines_filter]
      exact ⟨rfl, rfl⟩
    | arrivals arrivals =>
      have hafter := h.receive_filter now arrivals
      have hmoments := h.moments_filter now arrivals
      rw [momentsIn, hmoments]
      simp only [Session.turn, ← hafter]
      obtain ⟨heq, hnone⟩ | heq := heard_arrivals now rest rfl
      · rw [heq, hnone]
        exact ⟨rfl, rfl⟩
      · rw [heq]
        exact ⟨rfl, rfl⟩

theorem packetTo?_turnAway {source : SocketAddress} (h : source ≠ peer) :
    (session.turnAway source).filterMap (Output.packetTo? peer) = [] := by
  unfold turnAway notes
  split <;> simp [Output.packetTo?, h]

theorem Attends.packetTo?_moments (h : Attends receiver peer session) (now : Nat)
    (arrivals : List Arrival) : ∀ moment ∈ session.moments now arrivals,
      moment.isOwn peer = false → moment.outputs.filterMap (Output.packetTo? peer) = [] := by
  induction arrivals generalizing session with
  | nil => simp [moments]
  | cons arrival rest ih =>
    cases hn : session.isEnded with
    | true => simp [moments_ended hn]
    | false =>
      rw [moments_cons hn]
      refine List.forall_mem_cons.mpr ⟨fun hf => ?_, ?_⟩
      · have hforeign : arrival.source ≠ peer := by simpa [Moment.of, Moment.isOwn] using hf
        rw [Moment.of, h.receive_foreign hforeign hn]
        exact packetTo?_turnAway hforeign
      · split
        · simp
        · exact ih (h.receive_one now arrival)

theorem Attends.packetTo?_history (h : Attends receiver peer session) (turns : List (Nat × Turn)) :
    ∀ moment ∈ session.history turns,
      moment.isOwn peer = false → moment.outputs.filterMap (Output.packetTo? peer) = [] := by
  induction turns generalizing session with
  | nil => simp [history]
  | cons head rest ih =>
    obtain ⟨now, turn⟩ := head
    rw [history]
    refine List.forall_mem_append.mpr ⟨?_, ih (h.turn now turn)⟩
    cases turn with
    | arrivals arrivals => exact h.packetTo?_moments now arrivals
    | silence =>
      intro moment hm hf
      rw [momentsIn, ← deadlines_filter peer, List.mem_filter, hf] at hm
      cases hm.2

theorem filterMap_outputs {send? : Output → Option Bytes} {own : Moment → Bool}
    {moments : List Moment}
    (h : ∀ moment ∈ moments, own moment = false → moment.outputs.filterMap send? = []) :
    ((moments.filter own).flatMap (·.outputs)).filterMap send? =
      (moments.flatMap (·.outputs)).filterMap send? := by
  induction moments with
  | nil => rfl
  | cons moment rest ih =>
    obtain ⟨hmoment, hrest⟩ := List.forall_mem_cons.mp h
    cases ho : own moment with
    | true =>
      rw [List.filter_cons_of_pos ho, List.flatMap_cons, List.flatMap_cons, List.filterMap_append,
        List.filterMap_append, ih hrest]
    | false =>
      rw [List.filter_cons_of_neg (by simp [ho]), List.flatMap_cons, List.filterMap_append,
        hmoment ho, List.nil_append, ih hrest]

theorem Attends.packets_heard (h : Attends receiver peer session) (turns : List (Nat × Turn)) :
    (session.said (heard peer turns)).filterMap (Output.packetTo? peer) =
      (session.said turns).filterMap (Output.packetTo? peer) := by
  rw [(h.history_complete _).1, (h.history_complete turns).1, (h.history_heard turns).2]
  exact filterMap_outputs (h.packetTo?_history turns)

/-- How a datagram from someone else is answered that stands behind others in a queue. -/
def answerBehind (session : Session) (now : Nat) (front : List Arrival) (source : SocketAddress) :
    List Output :=
  if session.drains now front ∨ (session.receive now front).2.isEnded then []
  else
    session.notes [{ detail := .protocolViolation source.render foreignViolation }] ++
      [.send .transfer source (Packet.encodeError (.protocol .unknownTransfer))]

theorem Attends.receive_answers (h : Attends receiver peer session) (now : Nat)
    (front back : List Arrival) {foreign : Arrival} (hf : foreign.source ≠ peer) :
    ∃ rest, session.receive now (front ++ foreign :: back) =
        ((session.receive now front).1 ++ session.answerBehind now front foreign.source ++ rest,
          (session.receive now (front ++ back)).2) ∧
      (session.receive now (front ++ back)).1 = (session.receive now front).1 ++ rest := by
  have hthere := h.receive now front
  rw [h.receive_append, h.receive_append now front back]
  unfold answerBehind
  by_cases hd : session.drains now front = true
  · exact ⟨[], by simp [hd], by simp [hd]⟩
  · simp only [hd, Bool.false_eq_true, if_false, false_or]
    refine ⟨((session.receive now front).2.receive now back).1, ?_, rfl⟩
    cases hn : (session.receive now front).2.isEnded with
    | true => simp [receive_ended hn]
    | false =>
      have hnotes : (session.receive now front).2.notes = session.notes := by
        funext entries
        rw [notes, notes, hthere.receiver, h.receiver]
      rw [hthere.receive_cons, hthere.drainsAt_foreign hf, if_neg Bool.false_ne_true,
        hthere.receive_foreign hf hn, turnAway, hnotes]
      simp

theorem Attends.onSendFailure (h : Attends receiver peer session) {target : SocketAddress}
    (ht : target ≠ peer) (error : HostError) : session.onSendFailure target error = session := by
  rcases h.cases with hended | ⟨active, hs, rfl⟩
  · obtain ⟨tree, result, hs⟩ := stage_of_isEnded hended
    simp [Session.onSendFailure, hs]
  · cases hp : active.transfer.phase <;> simp [Session.onSendFailure, hs, hp, ht]

/-- One datagram from someone else adds its answer, where it has one, and nothing else. -/
theorem Attends.said_answer (h : Attends receiver peer session) (earlier later : List (Nat × Turn))
    (now : Nat) (front back : List Arrival) {foreign : Arrival} (hf : foreign.source ≠ peer) :
    let reached := session.converse earlier
    let before := session.said earlier ++ (reached.receive now front).1
    let without := earlier ++ (now, .arrivals (front ++ back)) :: later
    let turns := earlier ++ (now, .arrivals (front ++ foreign :: back)) :: later
    ∃ after, session.said without = before ++ after ∧
      session.said turns = before ++ reached.answerBehind now front foreign.source ++ after ∧
      session.converse turns = session.converse without := by
  intro reached before without turns
  obtain ⟨rest, hthere, hwithout⟩ := (h.converse earlier).receive_answers now front back hf
  refine ⟨rest ++ ((reached.receive now (front ++ back)).2).said later, ?_, ?_, ?_⟩
  · rw [said_append, said, Session.turn, hwithout]
    simp only [before, reached, List.append_assoc]
  · rw [said_append, said, Session.turn, hthere]
    simp only [before, reached, List.append_assoc]
  · rw [converse_append, converse_append, Session.converse, Session.converse, Session.turn,
      Session.turn, hthere]

/-- Whatever others than the peer send to the port of a transfer, the peer is sent the same packets
and the session goes through the same states. Each of their datagrams that is read while the
transfer goes on is answered once, and has no other effect. -/
theorem converse_ignores_foreign (h : session.peer? = some peer) (turns : List (Nat × Turn)) :
    (session.said turns = (session.history turns).flatMap (·.outputs) ∧
      session.converse turns = session.reached (session.history turns)) ∧
    (∀ turns', heard peer turns' = heard peer turns →
      (session.history turns').filter (Moment.isOwn peer) =
        (session.history turns).filter (Moment.isOwn peer) ∧
      (session.said turns').filterMap (Output.packetTo? peer) =
        (session.said turns).filterMap (Output.packetTo? peer) ∧
      session.converse turns' = session.converse turns) ∧
    (∀ earlier now front foreign back later,
      turns = earlier ++ (now, .arrivals (front ++ foreign :: back)) :: later →
      foreign.source ≠ peer →
      let reached := session.converse earlier
      let before := session.said earlier ++ (reached.receive now front).1
      let without := earlier ++ (now, .arrivals (front ++ back)) :: later
      ∃ after, session.said without = before ++ after ∧
        session.said turns = before ++ reached.answerBehind now front foreign.source ++ after ∧
        session.converse turns = session.converse without) ∧
    ∀ target error, target ≠ peer →
      (session.converse turns).onSendFailure target error = session.converse turns := by
  have hattends := attends_of_peer? h
  refine ⟨hattends.history_complete turns, fun turns' heq => ⟨?_, ?_, ?_⟩, ?_, ?_⟩
  · rw [← (hattends.history_heard turns').2, ← (hattends.history_heard turns).2, heq]
  · rw [← hattends.packets_heard turns', ← hattends.packets_heard turns, heq]
  · rw [← (hattends.history_heard turns').1, ← (hattends.history_heard turns).1, heq]
  · rintro earlier now front foreign back later rfl hf
    exact hattends.said_answer earlier later now front back hf
  · intro target error ht
    exact (hattends.converse turns).onSendFailure ht error

def strayArrival : Arrival :=
  { source := .v4 ⟨10, 0, 0, 8⟩ 4000, bytes := [0, 3, 0, 1, 9] }

/-- The block of the peer comes between two datagrams from another port, and one came before. -/
def strayTurns : List (Nat × Turn) :=
  [(1, .arrivals [strayArrival]), (1, .silence),
    (2, .arrivals
      [strayArrival, { source := inboxPeer, bytes := [0, 3, 0, 1, 7, 8] }, strayArrival]),
    (2000, .silence)]

theorem converse_ignores_stray_datagrams :
    let begun := (inboxSession.receive 0 [inboxRequest]).2
    let answer := [Output.send .transfer strayArrival.source
      (Packet.encodeError (.protocol .unknownTransfer))]
    begun.peer? = some inboxPeer ∧ heard inboxPeer strayTurns = heard inboxPeer inboxTurns ∧
      begun.converse strayTurns = begun.converse inboxTurns ∧
      (begun.said strayTurns).filterMap (Output.packetTo? inboxPeer) =
        [Packet.encodeAck 1] ∧
      ∃ after, begun.said strayTurns = answer ++ after := by
  intro begun answer
  have hpeer : begun.peer? = some inboxPeer := by decide +kernel
  have hheard : heard inboxPeer strayTurns = heard inboxPeer inboxTurns := rfl
  obtain ⟨-, -, hanswered, -⟩ := converse_ignores_foreign hpeer strayTurns
  obtain ⟨-, hsame, -, -⟩ := converse_ignores_foreign hpeer inboxTurns
  obtain ⟨-, hpackets, hconverse⟩ := hsame strayTurns hheard
  have hsent : (begun.said inboxTurns).filterMap (Output.packetTo? inboxPeer) =
      [Packet.encodeAck 1] := by decide +kernel
  obtain ⟨after, -, hsaid, -⟩ := hanswered [] 1 [] strayArrival [] _ rfl (by decide)
  have hopen : begun.isEnded = false := by decide +kernel
  have haudits : begun.receiver.audits = false := by decide +kernel
  have hanswer : begun.answerBehind 1 [] strayArrival.source = answer := by
    simp [answerBehind, drains, receive, hopen, notes, haudits, answer]
  refine ⟨hpeer, hheard, hconverse, hpackets.trans hsent, after, ?_⟩
  simpa [said, receive, converse, hanswer] using hsaid

end Session

end TftpReceiver
