import TftpReceiver.Proofs.KeptFiles

/-! What every datagram and every deadline preserve of a session that may still listen, and where
the transfer of a session comes from: it is a run of the one that was created for a request. -/

namespace TftpReceiver

namespace Session

variable {session : Session}

/-- A property that stays true when a transfer begins, when a step of it is followed, and when the
wait for a request is given up. -/
structure Invariant (P : Session → Prop) : Prop where
  begin : ∀ {session tree now arrival notes acceptance}, P session →
    session.stage = .listening tree →
    session.receiver.consider tree now arrival = (notes, .ok acceptance) →
    P (session.begin now acceptance).2
  follow : ∀ {session active}, P session → session.stage = .transferring active →
    ∀ now event, P (session.follow now
      { active with transfer := (active.transfer.apply now event).2 }
      (active.transfer.apply now event).1).2
  idle : ∀ {session tree}, P session → session.stage = .listening tree →
    ∀ failure, P { session with stage := .ended tree (.error failure) }

/-- The same as long as the clock shows only times that are allowed. -/
structure InvariantAt (allowed : Nat → Prop) (P : Session → Prop) : Prop where
  begin : ∀ {session tree now arrival notes acceptance}, allowed now → P session →
    session.stage = .listening tree →
    session.receiver.consider tree now arrival = (notes, .ok acceptance) →
    P (session.begin now acceptance).2
  follow : ∀ {session active now}, allowed now → P session →
    session.stage = .transferring active →
    ∀ event, P (session.follow now
      { active with transfer := (active.transfer.apply now event).2 }
      (active.transfer.apply now event).1).2
  idle : ∀ {session tree}, P session → session.stage = .listening tree →
    ∀ failure, P { session with stage := .ended tree (.error failure) }

section

variable {allowed : Nat → Prop} {P : Session → Prop} {now : Nat}

theorem InvariantAt.receive (hk : InvariantAt allowed P) (hnow : allowed now) (h : P session)
    (arrivals : List Arrival) : P (session.receive now arrivals).2 := by
  induction arrivals generalizing session with
  | nil => exact h
  | cons arrival rest ih =>
    cases hs : session.stage with
    | ended tree result => simpa [Session.receive, hs] using h
    | listening tree =>
      rcases receive_listening hs now (arrival :: rest) with
        ⟨-, hsame⟩ | ⟨_, _, acceptance, -, hc, hbegun⟩
      · rwa [hsame]
      · rw [hbegun]
        exact hk.begin hnow h hs hc
    | transferring active =>
      by_cases hp : arrival.source = active.peer
      · have hfollow := hk.follow hnow h hs (.datagram (arrival.bytes.take Packet.receiveLimit))
        rw [Transfer.apply] at hfollow
        by_cases hr : isResync
            (active.transfer.onDatagram now (arrival.bytes.take Packet.receiveLimit)).1 = true
        · simpa [Session.receive, hs, hp, hr] using hfollow
        · simpa [Session.receive, hs, hp, hr] using ih hfollow
      · simpa [Session.receive, hs, hp] using ih h

theorem InvariantAt.onTimeout (hk : InvariantAt allowed P) (hnow : allowed now) (h : P session) :
    P (session.onTimeout now).2 := by
  cases hs : session.stage with
  | ended tree result => simpa [Session.onTimeout, hs] using h
  | listening tree =>
    simpa [Session.onTimeout, hs] using
      hk.idle h hs (.idle session.receiver.limits.idleSeconds)
  | transferring active =>
    simpa [Session.onTimeout, hs, Transfer.apply] using hk.follow hnow h hs .timeout

theorem InvariantAt.settleWithin (hk : InvariantAt allowed P) (hnow : allowed now) (h : P session)
    (count : Nat) : P (session.settleWithin now count).2 := by
  induction count generalizing session with
  | zero => exact h
  | succ count ih =>
    rw [Session.settleWithin]
    split
    · exact ih (hk.onTimeout hnow h)
    · exact h

theorem InvariantAt.converse (hk : InvariantAt allowed P) (h : P session)
    {turns : List (Nat × Turn)} (hturns : ∀ turn ∈ turns, allowed turn.1) :
    P (session.converse turns) := by
  induction turns generalizing session with
  | nil => exact h
  | cons head rest ih =>
    obtain ⟨now, turn⟩ := head
    obtain ⟨hnow, hrest⟩ := List.forall_mem_cons.mp hturns
    refine ih ?_ hrest
    cases turn with
    | arrivals arrivals => exact hk.receive hnow h arrivals
    | silence => exact hk.settleWithin hnow h _

theorem Invariant.converse (hk : Invariant P) (h : P session) (turns : List (Nat × Turn)) :
    P (session.converse turns) := by
  have hall : InvariantAt (fun _ => True) P :=
    { begin := fun _ => hk.begin
      follow := fun _ hp hs event => hk.follow hp hs _ event
      idle := hk.idle }
  exact hall.converse h fun _ _ => trivial

end

theorem stage_of_port (hp : session.port = .transfer) (he : session.isEnded = false) :
    ∃ active, session.stage = .transferring active := by
  cases hs : session.stage with
  | transferring active => exact ⟨active, rfl⟩
  | listening tree => simp [port, hs] at hp
  | ended tree result => simp [isEnded, hs] at he

/-- A transfer that a receiver created for a request it accepted, after some events. -/
inductive Runs (receiver : Receiver) (observed : Bool) : Transfer StagedUpload → Prop
  | created {tree now arrival notes acceptance}
      (hc : receiver.consider tree now arrival = (notes, .ok acceptance))
      (events : List (Nat × TransferEvent)) :
      Runs receiver observed ((Transfer.create acceptance.upload
        acceptance.negotiation.options acceptance.negotiation.optionAck?
        receiver.limits.maxRetries observed).run events).2

variable {receiver : Receiver} {observed : Bool} {transfer : Transfer StagedUpload}

theorem Runs.apply (h : Runs receiver observed transfer) (now : Nat) (event : TransferEvent) :
    Runs receiver observed (transfer.apply now event).2 := by
  cases h with
  | created hc events =>
    have hrun : Runs receiver observed _ := .created hc (events ++ [(now, event)])
    rwa [Transfer.run_append] at hrun

/-- The transfer under way is one of a receiver, which the session is with. -/
structure Employs (receiver : Receiver) (observed : Bool) (session : Session) : Prop where
  same : session.receiver = receiver ∧ session.observed = observed
  runs : ∀ active, session.stage = .transferring active → Runs receiver observed active.transfer

theorem employs_invariant (receiver : Receiver) (observed : Bool) :
    Invariant (Employs receiver observed) where
  begin := by
    rintro session tree now arrival notes acceptance ⟨⟨rfl, rfl⟩, -⟩ - hc
    refine ⟨⟨rfl, rfl⟩, fun active hs => ?_⟩
    obtain rfl := Stage.transferring.inj hs
    exact .created hc [(now, .start)]
  follow := by
    rintro session active ⟨⟨rfl, rfl⟩, hruns⟩ hs now event
    have happly := (hruns active hs).apply now event
    cases hstep : (active.transfer.apply now event).1 with
    | send | resync | hold | ignore =>
      refine ⟨⟨rfl, rfl⟩, fun other ho => ?_⟩
      obtain rfl := Stage.transferring.inj ho
      exact happly
    | done | abort => exact ⟨⟨rfl, rfl⟩, fun other ho => Stage.noConfusion ho⟩
  idle := by
    rintro session tree ⟨⟨rfl, rfl⟩, -⟩ - failure
    exact ⟨⟨rfl, rfl⟩, fun other ho => Stage.noConfusion ho⟩

/-- What is true of every run of a transfer is true of the transfers of a session. -/
theorem runs_of_converse {tree : FileTree} {active : Active} {turns : List (Nat × Turn)}
    (hs : session.stage = .listening tree)
    (ht : (session.converse turns).stage = .transferring active) :
    Runs session.receiver session.observed active.transfer := by
  have hlistening : Employs session.receiver session.observed session :=
    ⟨⟨rfl, rfl⟩, fun other ho => nomatch hs.symm.trans ho⟩
  exact ((employs_invariant _ _).converse hlistening turns).runs active ht

end Session

end TftpReceiver
