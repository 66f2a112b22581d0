import TftpReceiver.Proofs.Conversation

/-! A session that serves one peer takes datagrams and deadlines one at a time, and ignores only
what waits behind a block that the peer sent before. The moments in which it does so tell all that
it puts out and what it comes to. -/

namespace TftpReceiver

namespace Transfer

variable {σ : Type} [Sink σ]

/-- A datagram that holds the block before the awaited one. -/
def repeats (t : Transfer σ) (bytes : Bytes) : Bool :=
  match t.phase, Packet.decode bytes with
  | .awaitingData expected, .ok (.data block _) => block = expected - 1
  | _, _ => false

theorem isResync_accept (now : Nat) (block : UInt16) (payload : Bytes) (t : Transfer σ) :
    Session.isResync (t.accept now block payload).1 = false := by
  unfold accept
  split
  · rfl
  split
  · rfl
  dsimp only
  split
  · rfl
  split <;> rfl

omit [Sink σ] in
theorem isResync_onHeld (now : Nat) (final : UInt16) (bytes : Bytes) (t : Transfer σ) :
    Session.isResync (t.onHeld now final bytes).1 = false := by
  unfold onHeld
  split
  · split
    · split <;> rfl
    · rfl
  · rfl
  · rfl

theorem isResync_onDatagram (now : Nat) (bytes : Bytes) (t : Transfer σ) :
    Session.isResync (t.onDatagram now bytes).1 = t.repeats bytes := by
  unfold onDatagram repeats
  cases hp : t.phase with
  | holding block => exact isResync_onHeld now block bytes t
  | awaitingStart | done | aborted => rfl
  | awaitingData expected =>
    cases hd : Packet.decode bytes with
    | error e => cases e <;> simp [onAwaited, hd, refuse, abort, Session.isResync]
    | ok packet =>
      cases packet with
      | request | ack | error | optionAck =>
        simp [onAwaited, hd, refuse, abort, Session.isResync]
      | data block payload =>
        by_cases he : block = expected
        · have hne := (sub_one_ne expected).symm
          simp [onAwaited, hd, he, hne, isResync_accept]
        by_cases hl : block = expected - 1
        · simp only [onAwaited, hd, if_neg he, if_pos hl, resync, Session.isResync,
            decide_eq_true hl]
        · simp [onAwaited, hd, he, hl, refuse, abort, Session.isResync]

end Transfer

namespace Session

def peer? (session : Session) : Option SocketAddress :=
  match session.stage with
  | .transferring active => some active.peer
  | _ => none

/-- Whether a datagram is a block that the peer sent before. What waits behind it is dropped. -/
def drainsAt (session : Session) (arrival : Arrival) : Bool :=
  match session.stage with
  | .transferring active =>
    arrival.source = active.peer ∧
      active.transfer.repeats (arrival.bytes.take Packet.receiveLimit)
  | _ => false

def drains (now : Nat) : List Arrival → Session → Bool
  | [], _ => false
  | arrival :: rest, session =>
    session.drainsAt arrival || drains now rest (session.receive now [arrival]).2

/-- One thing that happens to a session: a datagram from a source, or a deadline without one. -/
structure Moment where
  source : Option SocketAddress
  outputs : List Output
  after : Session

def Moment.of (source : Option SocketAddress) (result : List Output × Session) : Moment :=
  { source, outputs := result.1, after := result.2 }

/-- The datagrams that are read, each with what it leads to. -/
def moments (now : Nat) : List Arrival → Session → List Moment
  | [], _ => []
  | arrival :: rest, session =>
    if session.isEnded then []
    else
      let result := session.receive now [arrival]
      Moment.of arrival.source result ::
        if session.drainsAt arrival then [] else moments now rest result.2

def deadlines (now : Nat) : (count : Nat) → Session → List Moment
  | 0, _ => []
  | count + 1, session =>
    if (session.dueTime now).any (· ≤ now) then
      Moment.of none (session.onTimeout now) :: deadlines now count (session.onTimeout now).2
    else []

def momentsIn (now : Nat) (session : Session) : Turn → List Moment
  | .arrivals arrivals => session.moments now arrivals
  | .silence => session.deadlines now (session.receiver.limits.maxRetries + 2)

/-- All that happens in a sequence of turns. -/
def history (session : Session) : List (Nat × Turn) → List Moment
  | [] => []
  | (now, turn) :: rest => session.momentsIn now turn ++ (session.turn now turn).2.history rest

/-- What the session puts out in a sequence of turns. -/
def said (session : Session) : List (Nat × Turn) → List Output
  | [] => []
  | (now, turn) :: rest => (session.turn now turn).1 ++ (session.turn now turn).2.said rest

/-- A session that carries out a transfer for a peer, or has ended. -/
structure Attends (receiver : Receiver) (peer : SocketAddress) (session : Session) : Prop where
  receiver : session.receiver = receiver
  started : ∀ tree, session.stage ≠ .listening tree
  peer : ∀ active, session.stage = .transferring active → active.peer = peer

variable {session : Session} {receiver : Receiver} {peer : SocketAddress} {now : Nat}

theorem attends_of_peer? (h : session.peer? = some peer) :
    Attends session.receiver peer session := by
  unfold peer? at h
  refine ⟨rfl, fun tree hs => ?_, fun active hs => ?_⟩
  · simp [hs] at h
  · simpa [hs] using h

theorem Attends.follow (h : Attends receiver peer session) (active : Active)
    (hp : active.peer = peer) (now : Nat) (step : Step) :
    Attends receiver peer (session.follow now active step).2 := by
  cases step with
  | send | resync | hold | ignore =>
    refine ⟨h.receiver, fun tree hs => Stage.noConfusion hs, fun other hs => ?_⟩
    obtain rfl := Stage.transferring.inj hs
    exact hp
  | done | abort =>
    exact ⟨h.receiver, fun tree hs => Stage.noConfusion hs, fun other hs => Stage.noConfusion hs⟩

theorem stage_of_isEnded (h : session.isEnded = true) :
    ∃ tree result, session.stage = .ended tree result := by
  unfold isEnded at h
  split at h
  · next tree result hs => exact ⟨tree, result, hs⟩
  · cases h

theorem receive_ended (h : session.isEnded = true) (now : Nat) (arrivals : List Arrival) :
    session.receive now arrivals = ([], session) := by
  obtain ⟨tree, result, hs⟩ := stage_of_isEnded h
  cases arrivals with
  | nil => rfl
  | cons arrival rest => simp [receive, hs]

theorem drainsAt_ended (h : session.isEnded = true) (arrival : Arrival) :
    session.drainsAt arrival = false := by
  obtain ⟨tree, result, hs⟩ := stage_of_isEnded h
  simp [drainsAt, hs]

theorem Attends.cases (h : Attends receiver peer session) :
    session.isEnded = true ∨
      ∃ active, session.stage = .transferring active ∧ active.peer = peer := by
  unfold isEnded
  cases hs : session.stage with
  | listening tree => exact absurd hs (h.started tree)
  | transferring active => exact .inr ⟨active, rfl, h.peer active hs⟩
  | ended tree result => exact .inl rfl

/-- Datagrams are taken one by one, up to one behind which the others are dropped. -/
theorem Attends.receive_cons (h : Attends receiver peer session) (now : Nat) (arrival : Arrival)
    (rest : List Arrival) :
    session.receive now (arrival :: rest) =
      if session.drainsAt arrival then session.receive now [arrival]
      else
        ((session.receive now [arrival]).1 ++
            ((session.receive now [arrival]).2.receive now rest).1,
          ((session.receive now [arrival]).2.receive now rest).2) := by
  rcases h.cases with hended | ⟨active, hs, hp⟩
  · simp [receive_ended hended, drainsAt_ended hended]
  · by_cases hown : arrival.source = active.peer
    · have hresync := active.transfer.isResync_onDatagram now
        (arrival.bytes.take Packet.receiveLimit)
      cases hr : active.transfer.repeats (arrival.bytes.take Packet.receiveLimit) <;>
        simp [receive, drainsAt, hs, hown, hresync, hr]
    · simp [receive, drainsAt, hs, hown]

theorem Attends.receive_one (h : Attends receiver peer session) (now : Nat) (arrival : Arrival) :
    Attends receiver peer (session.receive now [arrival]).2 := by
  rcases h.cases with hended | ⟨active, hs, hp⟩
  · rw [receive_ended hended]
    exact h
  · by_cases hown : arrival.source = active.peer
    · have hfollow := h.follow { active with
        transfer := (active.transfer.onDatagram now (arrival.bytes.take Packet.receiveLimit)).2 }
        hp now (active.transfer.onDatagram now (arrival.bytes.take Packet.receiveLimit)).1
      simpa [receive, hs, hown] using hfollow
    · simpa [receive, hs, hown] using h

theorem Attends.receive (h : Attends receiver peer session) (now : Nat) (arrivals : List Arrival) :
    Attends receiver peer (session.receive now arrivals).2 := by
  induction arrivals generalizing session with
  | nil => exact h
  | cons arrival rest ih =>
    rw [h.receive_cons]
    split
    · exact h.receive_one now arrival
    · exact ih (h.receive_one now arrival)

theorem Attends.settleWithin (h : Attends receiver peer session) (now count : Nat) :
    Attends receiver peer (session.settleWithin now count).2 := by
  induction count generalizing session with
  | zero => exact h
  | succ count ih =>
    rw [Session.settleWithin]
    split
    · refine ih ?_
      rcases h.cases with hended | ⟨active, hs, hp⟩
      · obtain ⟨tree, result, hs⟩ := stage_of_isEnded hended
        simpa [onTimeout, hs] using h
      · have hfollow := h.follow { active with
          transfer := (active.transfer.onTimeout now).2 } hp now (active.transfer.onTimeout now).1
        simpa [onTimeout, hs] using hfollow
    · exact h

theorem Attends.turn (h : Attends receiver peer session) (now : Nat) (turn : Turn) :
    Attends receiver peer (session.turn now turn).2 := by
  cases turn with
  | arrivals arrivals => exact h.receive now arrivals
  | silence => exact h.settleWithin now _

theorem Attends.converse (h : Attends receiver peer session) (turns : List (Nat × Turn)) :
    Attends receiver peer (session.converse turns) := by
  induction turns generalizing session with
  | nil => exact h
  | cons head rest ih => exact ih (h.turn head.1 head.2)

theorem Attends.receive_append (h : Attends receiver peer session) (now : Nat)
    (front back : List Arrival) :
    session.receive now (front ++ back) =
      if session.drains now front then session.receive now front
      else
        ((session.receive now front).1 ++ ((session.receive now front).2.receive now back).1,
          ((session.receive now front).2.receive now back).2) := by
  induction front generalizing session with
  | nil => rfl
  | cons arrival rest ih =>
    rw [List.cons_append, h.receive_cons, h.receive_cons now arrival rest, drains]
    by_cases hd : session.drainsAt arrival = true
    · simp [hd]
    · simp only [hd, Bool.false_eq_true, if_false, Bool.false_or, ih (h.receive_one now arrival)]
      split
      · rfl
      · simp only [List.append_assoc]

theorem moments_ended (h : session.isEnded = true) (now : Nat) (arrivals : List Arrival) :
    session.moments now arrivals = [] := by
  cases arrivals with
  | nil => rfl
  | cons arrival rest => rw [moments, if_pos h]

theorem moments_cons (h : session.isEnded = false) (now : Nat) (arrival : Arrival)
    (rest : List Arrival) :
    session.moments now (arrival :: rest) =
      Moment.of arrival.source (session.receive now [arrival]) ::
        if session.drainsAt arrival then []
        else (session.receive now [arrival]).2.moments now rest := by
  rw [moments, h, if_neg Bool.false_ne_true]

/-- The session that moments lead to. -/
def reached (session : Session) (moments : List Moment) : Session :=
  moments.foldl (fun _ moment => moment.after) session

theorem Attends.receive_moments (h : Attends receiver peer session) (now : Nat)
    (arrivals : List Arrival) :
    session.receive now arrivals = ((session.moments now arrivals).flatMap (·.outputs),
      session.reached (session.moments now arrivals)) := by
  induction arrivals generalizing session with
  | nil => rfl
  | cons arrival rest ih =>
    cases hn : session.isEnded with
    | true =>
      rw [receive_ended hn, moments_ended hn]
      rfl
    | false =>
      rw [h.receive_cons, moments_cons hn]
      by_cases hd : session.drainsAt arrival = true
      · simp [hd, reached, Moment.of]
      · simp [hd, reached, Moment.of, ih (h.receive_one now arrival)]

theorem settleWithin_deadlines (session : Session) (now count : Nat) :
    session.settleWithin now count = ((session.deadlines now count).flatMap (·.outputs),
      session.reached (session.deadlines now count)) := by
  induction count generalizing session with
  | zero => rfl
  | succ count ih =>
    rw [Session.settleWithin, deadlines]
    split
    · simp [reached, Moment.of, ih]
    · rfl

theorem Attends.turn_moments (h : Attends receiver peer session) (now : Nat) (turn : Turn) :
    session.turn now turn = ((session.momentsIn now turn).flatMap (·.outputs),
      session.reached (session.momentsIn now turn)) := by
  cases turn with
  | arrivals arrivals => exact h.receive_moments now arrivals
  | silence => exact settleWithin_deadlines session now _

/-- The history tells all that is put out and what the session comes to. -/
theorem Attends.history_complete (h : Attends receiver peer session) (turns : List (Nat × Turn)) :
    session.said turns = (session.history turns).flatMap (·.outputs) ∧
      session.converse turns = session.reached (session.history turns) := by
  induction turns generalizing session with
  | nil => exact ⟨rfl, rfl⟩
  | cons head rest ih =>
    obtain ⟨now, turn⟩ := head
    obtain ⟨hsaid, hreached⟩ := ih (h.turn now turn)
    have hturn := h.turn_moments now turn
    rw [said, Session.converse, history, List.flatMap_append, hsaid, hreached]
    constructor
    · rw [hturn]
    · rw [reached, reached, List.foldl_append, hturn]
      rfl

theorem said_append (session : Session) (front back : List (Nat × Turn)) :
    session.said (front ++ back) = session.said front ++ (session.converse front).said back := by
  induction front generalizing session with
  | nil => rfl
  | cons head rest ih =>
    rw [List.cons_append, said, said, converse, ih, List.append_assoc]

theorem converse_append (session : Session) (front back : List (Nat × Turn)) :
    session.converse (front ++ back) = (session.converse front).converse back := by
  induction front generalizing session with
  | nil => rfl
  | cons head rest ih => exact ih _

/-- What every datagram and every deadline preserve, together with all that was put out before. -/
structure Preserves (P : Session → List Output → Prop) : Prop where
  attends : ∀ {session said}, P session said → ∃ receiver peer, Attends receiver peer session
  receive : ∀ {session said}, P session said → ∀ now arrival,
    P (session.receive now [arrival]).2 (said ++ (session.receive now [arrival]).1)
  onTimeout : ∀ {session said}, P session said → ∀ now,
    P (session.onTimeout now).2 (said ++ (session.onTimeout now).1)

variable {P : Session → List Output → Prop} {front : List Output}

theorem Preserves.arrivals (hk : Preserves P) (h : P session front) (now : Nat)
    (arrivals : List Arrival) :
    P (session.receive now arrivals).2 (front ++ (session.receive now arrivals).1) := by
  induction arrivals generalizing session front with
  | nil => simpa [Session.receive] using h
  | cons arrival rest ih =>
    obtain ⟨receiver, peer, hattends⟩ := hk.attends h
    have hfirst := hk.receive h now arrival
    rw [hattends.receive_cons]
    by_cases hd : session.drainsAt arrival = true
    · simpa only [if_pos hd] using hfirst
    · simpa only [if_neg hd, List.append_assoc] using ih hfirst

theorem Preserves.settleWithin (hk : Preserves P) (h : P session front) (now count : Nat) :
    P (session.settleWithin now count).2 (front ++ (session.settleWithin now count).1) := by
  induction count generalizing session front with
  | zero => simpa [Session.settleWithin] using h
  | succ count ih =>
    rw [Session.settleWithin]
    split
    · simpa only [List.append_assoc] using ih (hk.onTimeout h now)
    · simpa using h

theorem Preserves.said (hk : Preserves P) (h : P session front) (turns : List (Nat × Turn)) :
    P (session.converse turns) (front ++ session.said turns) := by
  induction turns generalizing session front with
  | nil => simpa [converse, Session.said] using h
  | cons head rest ih =>
    obtain ⟨now, turn⟩ := head
    have hturn : P (session.turn now turn).2 (front ++ (session.turn now turn).1) := by
      cases turn with
      | arrivals arrivals => exact hk.arrivals h now arrivals
      | silence => exact hk.settleWithin h now _
    rw [converse, Session.said, ← List.append_assoc]
    exact ih hturn

end Session

end TftpReceiver
