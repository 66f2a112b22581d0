import TftpReceiver.Proofs.SessionTransfers

/-! A transfer has a deadline exactly as long as it waits for its peer, what it answers fits the
phase it comes to, and an end is answered once, with nothing behind it. -/

namespace TftpReceiver

/-- The peer is to send something. -/
def Phase.isWaiting : Phase → Bool
  | awaitingData _ | holding _ => true
  | awaitingStart | done | aborted => false

namespace Step

def isFinal : Step → Bool
  | done | abort _ => true
  | send _ | resync _ | hold _ | ignore => false

/-- A step leads from one phase to another. -/
def Leads (before after : Phase) : Step → Prop
  | send _ | resync _ => ∃ block, after = .awaitingData block
  | hold _ => ∃ block, after = .holding block
  | ignore => after = before
  | done => before ≠ .done ∧ after = .done
  | abort _ => before ≠ .aborted ∧ after = .aborted

variable {before after : Phase} {step : Step}

theorem Leads.isFinished (h : step.Leads before after) (hf : step.isFinal = true) :
    after.isFinished = true := by
  cases step with
  | send | resync | hold | ignore => cases hf
  | done | abort =>
    rw [h.2]
    rfl

theorem Leads.isWaiting (h : step.Leads before after) (hw : before.isWaiting = true)
    (hf : step.isFinal = false) : after.isWaiting = true := by
  cases step with
  | send | resync | hold =>
    obtain ⟨block, rfl⟩ := h
    rfl
  | ignore =>
    have hsame : after = before := h
    rwa [hsame]
  | done | abort => cases hf

end Step

theorem Phase.isWaiting_iff {phase : Phase} : phase.isWaiting = true ↔
    (∃ block, phase = .awaitingData block) ∨ ∃ block, phase = .holding block := by
  cases phase <;> simp [isWaiting]

theorem Phase.isFinished_iff {phase : Phase} :
    phase.isFinished = true ↔ phase = .done ∨ phase = .aborted := by
  cases phase <;> simp [isFinished]

namespace Transfer

variable {σ : Type} [Sink σ] {t t' : Transfer σ} {now : Nat} {event : TransferEvent} {step : Step}
  {block : UInt16}

theorem Moves.leads (hm : t.Moves now event step t') : step.Leads t.phase t'.phase := by
  cases hm with
  | began => exact ⟨1, rfl⟩
  | ignored => rfl
  | resent hp | resynced hp => exact ⟨_, hp⟩
  | advanced => exact ⟨_, rfl⟩
  | committed => exact ⟨_, rfl⟩
  | repeated hp => exact ⟨_, hp⟩
  | finished hp => exact ⟨by simp [hp], rfl⟩
  | expired hp | refused hp | unstored hp | uncommitted hp => exact ⟨by simp [hp], rfl⟩

theorem Moves.not_ignored (hm : t.Moves now event step t') (hp : t.phase = .awaitingData block)
    (he : event ≠ .start) : step ≠ .ignore := by
  cases hm with
  | ignored _ hstart => exact absurd (hstart block hp) he
  | began | resent | expired | resynced | refused | unstored | advanced | uncommitted | committed
  | repeated | finished => simp

/-- There is a deadline as long as the transfer waits, and only then. -/
def Timed (t : Transfer σ) : Prop := t.timer.deadline.isSome = t.phase.isWaiting

theorem Moves.timed (hm : t.Moves now event step t') (h : t.Timed) : t'.Timed := by
  cases hm with
  | ignored => exact h
  | began | advanced | committed => rfl
  | resent hp | resynced hp | repeated hp =>
    have hwaiting : t.phase.isWaiting = true := by rw [hp]; rfl
    exact hwaiting.symm
  | expired | refused | unstored | uncommitted => rfl
  | finished _ timer hd =>
    have hnone : timer.deadline.isSome = false := by rw [hd]; rfl
    exact hnone

omit [Sink σ] in
theorem timed_create (sink : σ) (options : TransferOptions) (optionAck : Option Bytes)
    (maxRetries : Nat) (observed : Bool) :
    (create sink options optionAck maxRetries observed).Timed := rfl

theorem Timed.run (h : t.Timed) (events : List (Nat × TransferEvent)) : (t.run events).2.Timed := by
  induction events generalizing t with
  | nil => exact h
  | cons head rest ih => exact ih ((t.apply_moves head.1 head.2).timed h)

/-- Before the end of a transfer nothing ends it, and behind it everything is ignored. -/
theorem run_final {events : List (Nat × TransferEvent)} {front back : List Step}
    (h : (t.run events).1 = front ++ step :: back) (hf : step.isFinal = true) :
    (∀ other ∈ front, other.isFinal = false) ∧ ∀ other ∈ back, other = .ignore := by
  induction events generalizing t front with
  | nil =>
    have hnil : [] = front ++ step :: back := h
    simp at hnil
  | cons head rest ih =>
    obtain ⟨now, event⟩ := head
    rw [run_cons] at h
    have hleads := (t.apply_moves now event).leads
    have hended : (t.apply now event).1.isFinal = true →
        ((t.apply now event).2.run rest).1 = List.replicate rest.length .ignore := fun hfinal =>
      congrArg Prod.fst (run_finished (hleads.isFinished hfinal) rest)
    cases front with
    | nil =>
      obtain ⟨hstep, hback⟩ := List.cons.inj h
      rw [hended (hstep ▸ hf)] at hback
      refine ⟨by simp, fun other hm => ?_⟩
      rw [← hback] at hm
      exact List.eq_of_mem_replicate hm
    | cons first front =>
      obtain ⟨hfirst, hrest⟩ := List.cons.inj h
      obtain ⟨hfront, hback⟩ := ih hrest
      refine ⟨List.forall_mem_cons.mpr ⟨?_, hfront⟩, hback⟩
      rw [← hfirst, Bool.eq_false_iff]
      intro hfinal
      have hmem : step ∈ ((t.apply now event).2.run rest).1 := by
        rw [hrest]
        exact List.mem_append_right _ List.mem_cons_self
      rw [hended hfinal] at hmem
      rw [List.eq_of_mem_replicate hmem] at hf
      cases hf

/-- A transfer that waits for its peer up to a deadline. -/
structure Waits (t : Transfer σ) : Prop where
  timed : t.Timed
  waiting : t.phase.isWaiting = true

theorem Waits.apply (h : t.Waits) (now : Nat) (event : TransferEvent)
    (hf : (t.apply now event).1.isFinal = false) : (t.apply now event).2.Waits := by
  have hm := t.apply_moves now event
  exact ⟨hm.timed h.timed, hm.leads.isWaiting h.waiting hf⟩

omit [Sink σ] in
theorem Waits.undone (h : t.Waits) : t.phase ≠ .done := by
  intro hp
  have hwaiting := h.waiting
  rw [hp] at hwaiting
  cases hwaiting

end Transfer

namespace Session

variable {session : Session} {active : Active} {now : Nat}

/-- The transfer under way, if there is one, waits for its peer. -/
def Paced (session : Session) : Prop :=
  ∀ active, session.stage = .transferring active → active.transfer.Waits

theorem paced_follow (session : Session) (h : active.transfer.Waits) (now : Nat)
    (event : TransferEvent) :
    let answer := active.transfer.apply now event
    (session.follow now { active with transfer := answer.2 } answer.1).2.Paced := by
  intro answer other hs
  cases hstep : answer.1 with
  | send | resync | hold | ignore =>
    have hunfinal : answer.1.isFinal = false := by rw [hstep]; rfl
    rw [hstep] at hs
    obtain rfl := Stage.transferring.inj hs
    exact h.apply now event hunfinal
  | done | abort =>
    rw [hstep] at hs
    cases hs

theorem paced_invariant : Invariant Paced where
  begin := by
    rintro session tree now arrival notes acceptance - - - other hs
    obtain rfl := Stage.transferring.inj hs
    constructor <;> rfl
  follow h hs now event := paced_follow _ (h _ hs) now event
  idle _ _ _ := fun other ho => Stage.noConfusion ho

theorem Paced.converse (h : session.Paced) (turns : List (Nat × Turn)) :
    (session.converse turns).Paced :=
  paced_invariant.converse h turns

theorem waits_of_converse {tree : FileTree} {turns : List (Nat × Turn)}
    (hs : session.stage = .listening tree)
    (ht : (session.converse turns).stage = .transferring active) : active.transfer.Waits := by
  have hlistening : session.Paced := fun other ho => nomatch hs.symm.trans ho
  exact hlistening.converse turns active ht

/-- Nothing is done of a session's own accord before the deadline of its transfer. -/
theorem settle_of_waits (hs : session.stage = .transferring active) (h : active.transfer.Waits) :
    ∃ deadline, active.transfer.timer.deadline = some deadline ∧
      ∀ now, now < deadline → session.settle now = ([], session) := by
  have hsome : active.transfer.timer.deadline.isSome = true := h.timed.trans h.waiting
  obtain ⟨deadline, hdeadline⟩ := Option.isSome_iff_exists.mp hsome
  refine ⟨deadline, hdeadline, fun now hnow => ?_⟩
  have hdue : session.dueTime now = some deadline := by simp [dueTime, hs, hdeadline]
  have hearly : ¬ deadline ≤ now := Nat.not_le.mpr hnow
  rw [settle, Session.settleWithin, hdue]
  simp [hearly]

end Session

namespace Transfer

/-- In every run there is a deadline exactly while the transfer waits for its peer, each answer fits
the phase that it leads to, and no datagram and no timeout is ignored while a block is awaited. A
run has one final answer at most, and ignores all that comes behind it. So a session acts on no
timeout but at a deadline of its transfer. -/
theorem run_waits_with_deadline {σ : Type} [Sink σ] (sink : σ) (options : TransferOptions)
    (optionAck : Option Bytes) (maxRetries : Nat) (observed : Bool)
    (events : List (Nat × TransferEvent)) :
    let begun := create sink options optionAck maxRetries observed
    let t := (begun.run events).2
    (t.timer.deadline.isSome = true ↔
      (∃ block, t.phase = .awaitingData block) ∨ ∃ block, t.phase = .holding block) ∧
    (t.isFinished = true ↔ t.phase = .done ∨ t.phase = .aborted) ∧
    (t.isFinished = true → ∀ later, t.run later = (List.replicate later.length .ignore, t)) ∧
    (∀ now event, (t.apply now event).1.Leads t.phase (t.apply now event).2.phase) ∧
    (∀ block now event, t.phase = .awaitingData block → event ≠ .start →
      (t.apply now event).1 ≠ .ignore) ∧
    (∀ front step back, (begun.run events).1 = front ++ step :: back → step.isFinal = true →
      (∀ other ∈ front, other.isFinal = false) ∧ ∀ other ∈ back, other = .ignore) ∧
    ∀ (session : Session) tree turns active, session.stage = .listening tree →
      (session.converse turns).stage = .transferring active →
        ∃ deadline, active.transfer.timer.deadline = some deadline ∧
          ∀ now, now < deadline →
            (session.converse turns).settle now = ([], session.converse turns) := by
  intro begun t
  have htimed : t.Timed := (timed_create sink options optionAck maxRetries observed).run events
  refine ⟨?_, Phase.isFinished_iff, run_finished, fun now event => (t.apply_moves now event).leads,
    fun block now event hp => (t.apply_moves now event).not_ignored hp,
    fun front step back h => run_final h, fun session tree turns active hs hreached => ?_⟩
  · rw [htimed, Phase.isWaiting_iff]
  · exact Session.settle_of_waits hreached (Session.waits_of_converse hs hreached)

/-- Two blocks, the end of the hold, and a datagram that comes too late. -/
def endedRun : List (Nat × TransferEvent) :=
  [(0, .start), (1, .datagram [0, 3, 0, 1, 7, 8]), (2, .datagram [0, 3, 0, 2, 9]),
    (1002, .timeout), (1003, .datagram [0, 3, 0, 2, 9])]

theorem run_waits_with_deadline_to_end :
    let begun := create ({} : MemorySink) { blockSize := 2, interval := 1000 } none 2 false
    let t := (begun.run endedRun).2
    let session := Session.guardedSession.converse [(0, .arrivals [Session.inboxRequest])]
    t.phase = .done ∧ t.isFinished = true ∧ t.timer.deadline.isSome = false ∧
      t.run [(1004, .timeout)] = ([.ignore], t) ∧
      Session.guardedSession.stage = .listening Session.guardedTree ∧
      ∃ active deadline, session.stage = .transferring active ∧
        active.transfer.timer.deadline = some deadline ∧
        ∀ now, now < deadline → session.settle now = ([], session) := by
  intro begun t session
  have hphase : t.phase = .done := rfl
  have hlistening : Session.guardedSession.stage = .listening Session.guardedTree := rfl
  obtain ⟨active, hactive⟩ : ∃ active, session.stage = .transferring active := by
    have hport : session.port = .transfer := by decide +kernel
    have hended : session.isEnded = false := by decide +kernel
    exact Session.stage_of_port hport hended
  obtain ⟨hdeadline, hfinished, hover, -, -, -, hsession⟩ := run_waits_with_deadline
    ({} : MemorySink) { blockSize := 2, interval := 1000 } none 2 false endedRun
  have hended : t.isFinished = true := hfinished.mpr (.inl hphase)
  have hnone : t.timer.deadline.isSome = false := by
    refine Bool.eq_false_iff.mpr fun hsome => ?_
    rcases hdeadline.mp hsome with ⟨block, hp⟩ | ⟨block, hp⟩ <;> exact nomatch hphase.symm.trans hp
  obtain ⟨deadline, hsome, hquiet⟩ := hsession _ _ _ active hlistening hactive
  exact ⟨hphase, hended, hnone, hover hended [(1004, .timeout)], hlistening, active, deadline,
    hactive, hsome, hquiet⟩

end Transfer

end TftpReceiver
