import TftpReceiver.Proofs.SinkCalls
import TftpReceiver.Session

/-! The budget of retries while blocks are awaited: every timeout is counted against it, blocks
and repeats leave it alone, and a peer that falls silent ends the transfer within it. -/

namespace TftpReceiver

namespace Transfer

def timeouts (events : List (Nat × TransferEvent)) : Nat :=
  events.countP fun entry => entry.2 = .timeout

variable {σ : Type} [Sink σ] {t t' : Transfer σ} {now count : Nat} {event : TransferEvent}
  {step : Step} {block : UInt16} {events silence : List (Nat × TransferEvent)}

theorem timeouts_cons (now : Nat) (event : TransferEvent) (rest : List (Nat × TransferEvent)) :
    timeouts ((now, event) :: rest) = timeouts rest + if event = .timeout then 1 else 0 := by
  by_cases he : event = .timeout <;> simp [timeouts, he]

theorem apply_timeout_awaiting (hp : t.phase = .awaitingData block) (now : Nat) :
    t.apply now .timeout =
      let retries := min (t.timer.retries + 1) RetryTimer.maxCount
      if t.timer.maxRetries < retries then
        (.abort (.timedOut (retries - 1)),
          { t with
            phase := .aborted, timer := { t.timer with deadline := none, retries }
            sink := (Sink.discard t.sink).2 })
      else
        (.send t.lastSent,
          { t with
            timer := { t.timer with deadline := some (now + t.timer.interval), retries } }) := by
  by_cases hb : t.timer.maxRetries < min (t.timer.retries + 1) RetryTimer.maxCount
  · simp [apply, onTimeout, hp, RetryTimer.recordRetry, hb, abort, RetryTimer.cancel]
  · simp [apply, onTimeout, hp, RetryTimer.recordRetry, hb, send, RetryTimer.arm]

theorem apply_timeout_within (hp : t.phase = .awaitingData block)
    (hm : t.timer.maxRetries < RetryTimer.maxCount) (hl : t.timer.retries < t.timer.maxRetries)
    (now : Nat) :
    t.apply now .timeout = (.send t.lastSent,
      { t with
        timer := { t.timer with
          deadline := some (now + t.timer.interval), retries := t.timer.retries + 1 } }) := by
  have hnext : min (t.timer.retries + 1) RetryTimer.maxCount = t.timer.retries + 1 := by omega
  have hleft : ¬ t.timer.maxRetries < t.timer.retries + 1 := by omega
  simp only [apply_timeout_awaiting hp, hnext, if_neg hleft]

theorem apply_timeout_spent (hp : t.phase = .awaitingData block)
    (hm : t.timer.maxRetries < RetryTimer.maxCount) (hl : t.timer.retries = t.timer.maxRetries)
    (now : Nat) :
    (t.apply now .timeout).1 = .abort (.timedOut t.timer.maxRetries) ∧
      (t.apply now .timeout).2.phase = .aborted := by
  have hspent : t.timer.maxRetries < min (t.timer.retries + 1) RetryTimer.maxCount := by omega
  have htold : min (t.timer.retries + 1) RetryTimer.maxCount - 1 = t.timer.maxRetries := by omega
  simp only [apply_timeout_awaiting hp, if_pos hspent, htold, and_self]

theorem apply_timeout_holding (hp : t.phase = .holding block) (now : Nat) :
    (t.apply now .timeout).1 = .done ∧ (t.apply now .timeout).2.phase = .done := by
  simp [apply, onTimeout, hp, finish]

/-- Only the entry into the hold changes the count of retries without a timeout. -/
theorem Moves.retries_kept (hm : t.Moves now event step t') (he : event ≠ .timeout)
    (hp : t'.phase = .awaitingData block) : t'.timer.retries = t.timer.retries := by
  cases hm with
  | began | ignored | resynced | advanced => rfl
  | resent _ hevent | expired _ hevent => exact absurd hevent he
  | refused | unstored | uncommitted | committed | finished => cases hp
  | repeated hp' => simp [hp'] at hp

theorem Moves.awaited_before (hm : t.Moves now event step t') (hs : t.phase ≠ .awaitingStart)
    (hp : t'.phase = .awaitingData block) : ∃ previous, t.phase = .awaitingData previous := by
  cases hm with
  | began hp' => exact absurd hp' hs
  | ignored => exact ⟨block, hp⟩
  | resent hp' | resynced hp' | advanced hp' => exact ⟨_, hp'⟩
  | expired | refused | unstored | uncommitted | committed | finished => cases hp
  | repeated hp' => simp [hp'] at hp

theorem Moves.started (hm : t.Moves now event step t') (hs : t.phase ≠ .awaitingStart) :
    t'.phase ≠ .awaitingStart := by
  cases hm with
  | ignored | resent | resynced | repeated => exact hs
  | began | expired | refused | unstored | advanced | uncommitted | committed | finished => simp

theorem Moves.limits (hm : t.Moves now event step t') (hd : t'.phase ≠ .done) :
    t.phase ≠ .done ∧ t'.timer.interval = t.timer.interval ∧
      t'.timer.maxRetries = t.timer.maxRetries := by
  cases hm with
  | ignored => exact ⟨hd, rfl, rfl⟩
  | finished => exact absurd rfl hd
  | resent hp _ hr | expired hp _ hr | repeated hp hr =>
    obtain ⟨-, rfl⟩ := Prod.mk.inj hr
    exact ⟨by simp [hp], rfl, rfl⟩
  | began hp | resynced hp | refused hp | unstored hp | advanced hp | uncommitted hp
  | committed hp => exact ⟨by simp [hp], rfl, rfl⟩

theorem run_limits (hd : (t.run events).2.phase ≠ .done) :
    t.phase ≠ .done ∧ (t.run events).2.timer.interval = t.timer.interval ∧
      (t.run events).2.timer.maxRetries = t.timer.maxRetries := by
  induction events generalizing t with
  | nil => exact ⟨hd, rfl, rfl⟩
  | cons head rest ih =>
    obtain ⟨now, event⟩ := head
    obtain ⟨hd', hinterval', hretries'⟩ := ih hd
    obtain ⟨hundone, hinterval, hretries⟩ := (t.apply_moves now event).limits hd'
    exact ⟨hundone, hinterval'.trans hinterval, hretries'.trans hretries⟩

/-- A transfer that was started and has met so many timeouts. -/
structure Spent (count : Nat) (t : Transfer σ) : Prop where
  started : t.phase ≠ .awaitingStart
  retries : ∀ block, t.phase = .awaitingData block →
    t.timer.retries = min count RetryTimer.maxCount
  budget : ∀ block, t.phase = .awaitingData block → t.timer.retries ≤ t.timer.maxRetries

theorem Spent.timeout (h : t.Spent count) (now : Nat) :
    (t.apply now .timeout).2.Spent (count + 1) := by
  have hm := t.apply_moves now .timeout
  by_cases ha : ∃ block, t.phase = .awaitingData block
  · obtain ⟨block, hp⟩ := ha
    have hcount := h.retries block hp
    refine ⟨hm.started h.started, ?_, ?_⟩
    all_goals
      intro block' hp'
      rw [apply_timeout_awaiting hp] at hp' ⊢
      by_cases hb : t.timer.maxRetries < min (t.timer.retries + 1) RetryTimer.maxCount
      · simp [hb] at hp'
      · simp only [if_neg hb]
        omega
  · have hunmet : ∀ block, (t.apply now .timeout).2.phase ≠ .awaitingData block :=
      fun block hp => ha (hm.awaited_before h.started hp)
    exact ⟨hm.started h.started, fun block hp => absurd hp (hunmet block),
      fun block hp => absurd hp (hunmet block)⟩

theorem Spent.apply (h : t.Spent count) (now : Nat) (event : TransferEvent) :
    (t.apply now event).2.Spent (count + if event = .timeout then 1 else 0) := by
  by_cases he : event = .timeout
  · subst he
    exact h.timeout now
  · have hm := t.apply_moves now event
    rw [if_neg he]
    refine ⟨hm.started h.started, fun block hp => ?_, fun block hp => ?_⟩
    · obtain ⟨previous, hprevious⟩ := hm.awaited_before h.started hp
      rw [hm.retries_kept he hp, h.retries previous hprevious, Nat.add_zero]
    · obtain ⟨previous, hprevious⟩ := hm.awaited_before h.started hp
      have hlimits := hm.limits (by simp [hp])
      rw [hm.retries_kept he hp, hlimits.2.2]
      exact h.budget previous hprevious

theorem Spent.run (h : t.Spent count) (events : List (Nat × TransferEvent)) :
    (t.run events).2.Spent (count + timeouts events) := by
  induction events generalizing t count with
  | nil => exact h
  | cons head rest ih =>
    obtain ⟨now, event⟩ := head
    have hrest := ih (h.apply now event)
    rw [Nat.add_assoc, Nat.add_comm (if event = .timeout then 1 else 0), ← timeouts_cons now]
      at hrest
    exact hrest

theorem spent_start (sink : σ) (options : TransferOptions) (optionAck : Option Bytes)
    (maxRetries : Nat) (observed : Bool) (now : Nat) :
    ((create sink options optionAck maxRetries observed).apply now .start).2.Spent 0 := by
  refine ⟨?_, ?_, ?_⟩ <;> simp [apply, start, create, send, RetryTimer.arm]

theorem run_silence_awaiting (hp : t.phase = .awaitingData block)
    (hs : ∀ entry ∈ silence, entry.2 = .timeout) (hm : t.timer.maxRetries < RetryTimer.maxCount)
    (hl : t.timer.maxRetries < t.timer.retries + silence.length)
    (hb : t.timer.retries ≤ t.timer.maxRetries) : (t.run silence).2.phase = .aborted := by
  induction silence generalizing t with
  | nil =>
    rw [List.length_nil] at hl
    omega
  | cons head rest ih =>
    obtain ⟨now, event⟩ := head
    obtain ⟨rfl, hrest⟩ := List.forall_mem_cons.mp hs
    rw [run_cons]
    by_cases hspent : t.timer.retries = t.timer.maxRetries
    · have haborted := (apply_timeout_spent hp hm hspent now).2
      rw [run_aborted haborted]
      exact haborted
    · rw [List.length_cons] at hl
      rw [apply_timeout_within hp hm (by omega) now]
      refine ih hp hrest hm ?_ ?_ <;> dsimp only <;> omega

theorem run_silence_unbounded (hp : t.phase = .awaitingData block)
    (hs : ∀ entry ∈ silence, entry.2 = .timeout) (hm : RetryTimer.maxCount ≤ t.timer.maxRetries) :
    (t.run silence).1 = List.replicate silence.length (.send t.lastSent) ∧
      (t.run silence).2.phase = .awaitingData block := by
  induction silence generalizing t with
  | nil => exact ⟨rfl, hp⟩
  | cons head rest ih =>
    obtain ⟨now, event⟩ := head
    obtain ⟨rfl, hrest⟩ := List.forall_mem_cons.mp hs
    have hnever : ¬ t.timer.maxRetries < min (t.timer.retries + 1) RetryTimer.maxCount := by omega
    rw [run_cons, apply_timeout_awaiting hp]
    simp only [if_neg hnever, List.length_cons, List.replicate_succ]
    obtain ⟨hsteps, hphase⟩ := ih (t := { t with timer := { t.timer with
      deadline := some (now + t.timer.interval)
      retries := min (t.timer.retries + 1) RetryTimer.maxCount } }) hp hrest hm
    exact ⟨by rw [hsteps], hphase⟩

theorem run_silence_holding (hp : t.phase = .holding block)
    (hs : ∀ entry ∈ silence, entry.2 = .timeout) (hl : 0 < silence.length) :
    (t.run silence).2.phase = .done := by
  cases silence with
  | nil => cases hl
  | cons head rest =>
    obtain ⟨now, event⟩ := head
    obtain ⟨rfl, -⟩ := List.forall_mem_cons.mp hs
    have hdone := (apply_timeout_holding hp now).2
    have hfinished : (t.apply now .timeout).2.isFinished = true := by
      rw [isFinished, hdone]
      rfl
    rw [run_cons, run_finished hfinished, hdone]

theorem send_notMem_expiry (session : Session) (now retries : Nat) (active : Active) (port : Port)
    (target : SocketAddress) (packet : Bytes) :
    Output.send port target packet ∉
      (session.follow now active (.abort (.timedOut retries))).1 := by
  unfold Session.follow Session.notes
  by_cases ha : session.receiver.audits = true <;> simp [ha]

/-- Once it was started, a transfer counts the timeouts while it waits for blocks, whatever comes
in between. It answers as many as its budget allows by sending the last packet again, and the next
one ends it without a word to the peer. So silence ends every transfer, unless the budget is the
greatest count there is. -/
theorem run_spends_budget (sink : σ) (options : TransferOptions) (optionAck : Option Bytes)
    (maxRetries : Nat) (observed : Bool) (began : Nat) (events : List (Nat × TransferEvent)) :
    let begun := create ({ sink } : Recorded σ) options optionAck maxRetries observed
    let t := (begun.run ((began, .start) :: events)).2
    (maxRetries < RetryTimer.maxCount →
      (∀ block, t.phase = .awaitingData block →
        t.timer.retries = timeouts events ∧ timeouts events ≤ maxRetries ∧
        ∀ now, let answered := t.apply now .timeout
          (timeouts events < maxRetries → answered.1 = .send t.lastSent ∧
            answered.2.phase = .awaitingData block ∧ answered.2.lastSent = t.lastSent) ∧
          (timeouts events = maxRetries → answered.1 = .abort (.timedOut maxRetries) ∧
            answered.2.phase = .aborted)) ∧
      (t.isFinished = false → ∀ silence, (∀ entry ∈ silence, entry.2 = .timeout) →
        maxRetries < silence.length →
          (.publish (.ok ()) ∈ t.sink.calls → (t.run silence).2.phase = .done) ∧
          (.publish (.ok ()) ∉ t.sink.calls → (t.run silence).2.phase = .aborted))) ∧
    (maxRetries = RetryTimer.maxCount → ∀ block, t.phase = .awaitingData block →
      t.timer.retries = min (timeouts events) RetryTimer.maxCount ∧
      ∀ silence, (∀ entry ∈ silence, entry.2 = .timeout) →
        (t.run silence).1 = List.replicate silence.length (.send t.lastSent) ∧
          (t.run silence).2.phase = .awaitingData block) ∧
    ∀ (session : Session) now active port target packet, Output.send port target packet ∉
      (session.follow now active (.abort (.timedOut maxRetries))).1 := by
  intro begun t
  have hspent : t.Spent (timeouts events) := by
    have hstart := spent_start ({ sink } : Recorded σ) options optionAck maxRetries observed began
    have hrun := hstart.run events
    rwa [Nat.zero_add] at hrun
  have hlimit : ∀ block, t.phase = .awaitingData block → t.timer.maxRetries = maxRetries := by
    intro block hp
    have hd : t.phase ≠ .done := by simp [hp]
    exact (run_limits hd).2.2
  refine ⟨fun hm => ⟨fun block hp => ?_, fun hlive silence hs hl => ?_⟩, fun hm block hp => ?_,
    fun session now => send_notMem_expiry session now maxRetries⟩
  · have hcount := hspent.retries block hp
    have hbudget := hspent.budget block hp
    have hown := hlimit block hp
    have hretries : t.timer.retries = timeouts events := by omega
    refine ⟨hretries, by omega, fun now => ⟨fun hleft => ?_, fun hused => ?_⟩⟩
    · rw [apply_timeout_within hp (by omega) (by omega)]
      exact ⟨rfl, hp, rfl⟩
    · have hexpired := apply_timeout_spent hp (by omega) (by omega) now
      rwa [hown] at hexpired
  · -- The file was published exactly where the last block is held, and there silence means done.
    have hcreated : begun.Ledger { sink } [] :=
      ledger_create _ options optionAck maxRetries observed
    have hcloses : t.ClosesOnce := (hcreated.run ((began, .start) :: events)).closesOnce
    have hpublished := hcloses.published
    cases hp : t.phase with
    | awaitingStart => exact absurd hp hspent.started
    | done | aborted => simp [isFinished, Phase.isFinished, hp] at hlive
    | awaitingData block =>
      have hbudget := hspent.budget block hp
      rw [← hlimit block hp] at hm hl
      refine ⟨fun hc => ?_, fun _ => run_silence_awaiting hp hs hm (by omega) hbudget⟩
      simp only [hp, reduceCtorEq, exists_false, or_self, iff_false] at hpublished
      exact absurd hc hpublished
    | holding block =>
      refine ⟨fun _ => run_silence_holding hp hs (by omega), fun hc => ?_⟩
      exact absurd (hpublished.mpr (.inl ⟨block, hp⟩)) hc
  · rw [← hlimit block hp] at hm
    exact ⟨hspent.retries block hp,
      fun silence hs => run_silence_unbounded hp hs (Nat.le_of_eq hm.symm)⟩

/-- A block, its repeat and a timeout, of which only the last one counts. -/
def oneSilence : List (Nat × TransferEvent) :=
  [(1, .datagram [0, 3, 0, 1, 7, 8]), (2, .datagram [0, 3, 0, 1, 7, 8]), (1002, .timeout)]

theorem run_spends_budget_of_one :
    let begun := create ({ sink := {} } : Recorded MemorySink)
      { blockSize := 2, interval := 1000 } none 1 false
    let t := (begun.run ((0, .start) :: oneSilence)).2
    t.phase = .awaitingData 2 ∧ t.timer.retries = 1 ∧
      (t.apply 2002 .timeout).1 = .abort (.timedOut 1) ∧
      (t.run [(2002, .timeout), (3002, .timeout)]).2.phase = .aborted := by
  intro begun t
  have hphase : t.phase = .awaitingData 2 := rfl
  have hpublished : .publish (.ok ()) ∉ t.sink.calls := by
    have hcalls : t.sink.calls = [.write [7, 8] (.ok 2)] := rfl
    simp [hcalls]
  obtain ⟨hbudget, -, -⟩ := run_spends_budget ({} : MemorySink) { blockSize := 2, interval := 1000 }
    none 1 false 0 oneSilence
  obtain ⟨hawaiting, hsilence⟩ := hbudget (by decide)
  obtain ⟨hretries, -, hexpires⟩ := hawaiting 2 hphase
  have hcount : timeouts oneSilence = 1 := rfl
  have hends := hsilence rfl [(2002, .timeout), (3002, .timeout)] (by simp) (by decide)
  exact ⟨hphase, hretries.trans hcount, ((hexpires 2002).2 hcount).1, hends.2 hpublished⟩

end Transfer

end TftpReceiver
