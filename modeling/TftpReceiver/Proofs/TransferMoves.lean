import TftpReceiver.Proofs.SinkLife

/-! What one event can do to a transfer, said once. -/

namespace TftpReceiver

/-- The packet that a step puts on the wire, other than one that ends the transfer. -/
def Step.packet? : Step → Option Bytes
  | send packet | resync packet | hold packet => some packet
  | _ => none

namespace RetryTimer

@[simp]
theorem cancel_cancel (timer : RetryTimer) : timer.cancel.cancel = timer.cancel := rfl

@[simp]
theorem arm_cancel (now : Nat) (timer : RetryTimer) : timer.cancel.arm now = timer.arm now := rfl

@[simp]
theorem resetRetries_cancel (timer : RetryTimer) :
    timer.cancel.resetRetries = timer.resetRetries.cancel := rfl

end RetryTimer

namespace Transfer

variable {σ : Type} [Sink σ]

/-- The payload of an event that brings the awaited block, which fits and is stored. -/
def newBlock? (t : Transfer σ) : TransferEvent → Option Bytes
  | .datagram bytes =>
    match t.phase, Packet.decode bytes with
    | .awaitingData expected, .ok (.data block payload) =>
      if block = expected ∧ payload.length ≤ t.blockSize ∧ (t.store payload).1.isOk then
        some payload
      else none
    | _, _ => none
  | _ => none

/-- The payloads that a transfer accepts as new blocks from a sequence of events. -/
def accepted (t : Transfer σ) : List (Nat × TransferEvent) → List Bytes
  | [] => []
  | (now, event) :: rest => (t.newBlock? event).toList ++ (t.apply now event).2.accepted rest

/-- What an event at a time does to a transfer, with the answer to it. -/
inductive Moves (now : Nat) (t : Transfer σ) (event : TransferEvent) : Step → Transfer σ → Prop
  | began (hp : t.phase = .awaitingStart) (he : event = .start) :
      Moves now t event (.send t.firstPacket)
        { t with
          phase := .awaitingData 1, progress := t.progress.update 0
          lastSent := t.firstPacket, timer := t.timer.arm now }
  | ignored (hp : t.phase = .awaitingStart → event ≠ .start)
      (hd : ∀ block, t.phase = .awaitingData block → event = .start)
      (hn : t.newBlock? event = none) : Moves now t event .ignore t
  | resent {block} (hp : t.phase = .awaitingData block) (he : event = .timeout) {count timer}
      (hr : t.timer.recordRetry = (.retry count, timer)) :
      Moves now t event (.send t.lastSent) { t with timer := timer.arm now }
  | expired {block} (hp : t.phase = .awaitingData block) (he : event = .timeout) {count timer}
      (hr : t.timer.recordRetry = (.exhausted count, timer)) :
      Moves now t event (.abort (.timedOut (count - 1)))
        { t with
          phase := .aborted, timer := timer.cancel, sink := (Sink.discard t.sink).2 }
  | resynced {block} (hp : t.phase = .awaitingData block) (hn : t.newBlock? event = none) :
      Moves now t event (.resync t.lastSent) { t with timer := t.timer.arm now }
  | refused {block} (hp : t.phase = .awaitingData block) (hn : t.newBlock? event = none)
      (reason : AbortReason) :
      Moves now t event (.abort reason)
        { t with
          phase := .aborted, timer := t.timer.cancel, sink := (Sink.discard t.sink).2 }
  | unstored {block} (hp : t.phase = .awaitingData block) (hn : t.newBlock? event = none)
      {payload condition sink} (hs : Sink.Stores t.sink payload (.error condition) sink) :
      Moves now t event (.abort (.refused condition))
        { t with
          phase := .aborted, timer := t.timer.cancel, sink := (Sink.discard sink).2 }
  | advanced {block} (hp : t.phase = .awaitingData block) {payload}
      (hn : t.newBlock? event = some payload) (hl : payload.length = t.blockSize)
      {sink} (hs : Sink.Stores t.sink payload (.ok ()) sink) :
      Moves now t event (.send (Packet.encodeAck block))
        { t with
          phase := .awaitingData (block + 1), sink, lastSent := Packet.encodeAck block
          timer := t.timer.arm now, progress := t.progress.update (t.blocksWritten + 1)
          bytesWritten := t.bytesWritten + payload.length
          blocksWritten := t.blocksWritten + 1 }
  | uncommitted {block} (hp : t.phase = .awaitingData block) {payload}
      (hn : t.newBlock? event = some payload) (hl : payload.length < t.blockSize)
      {filled error sink} (hs : Sink.Stores t.sink payload (.ok ()) filled)
      (hc : Sink.Commits filled (.error error) sink) :
      Moves now t event (.abort (.refused (.ofHostError error)))
        { t with
          phase := .aborted, sink := (Sink.discard sink).2, timer := t.timer.cancel
          bytesWritten := t.bytesWritten + payload.length
          blocksWritten := t.blocksWritten + 1 }
  | committed {block} (hp : t.phase = .awaitingData block) {payload}
      (hn : t.newBlock? event = some payload) (hl : payload.length < t.blockSize)
      {filled sink} (hs : Sink.Stores t.sink payload (.ok ()) filled)
      (hc : Sink.Commits filled (.ok ()) sink) :
      Moves now t event (.hold (Packet.encodeAck block))
        { t with
          phase := .holding block, sink, lastSent := Packet.encodeAck block
          timer := t.timer.resetRetries.arm now
          progress := t.progress.update (t.blocksWritten + 1)
          bytesWritten := t.bytesWritten + payload.length
          blocksWritten := t.blocksWritten + 1 }
  | repeated {block} (hp : t.phase = .holding block) {count timer}
      (hr : t.timer.recordRetry = (.retry count, timer)) :
      Moves now t event (.hold t.lastSent) { t with timer := timer.arm now }
  | finished {block} (hp : t.phase = .holding block) (timer : RetryTimer)
      (hd : timer.deadline = none) :
      Moves now t event .done { t with phase := .done, timer }

@[simp]
theorem newBlock?_start (t : Transfer σ) : t.newBlock? .start = none := rfl

@[simp]
theorem newBlock?_timeout (t : Transfer σ) : t.newBlock? .timeout = none := rfl

theorem newBlock?_of_phase {t : Transfer σ} (event : TransferEvent)
    (h : ∀ block, t.phase ≠ .awaitingData block) : t.newBlock? event = none := by
  cases event with
  | start => rfl
  | timeout => rfl
  | datagram bytes =>
    cases hp : t.phase with
    | awaitingData block => exact absurd hp (h block)
    | awaitingStart | holding | done | aborted => simp [newBlock?, hp]

theorem newBlock?_of_awaiting {t : Transfer σ} {expected : UInt16} {bytes : Bytes}
    (hp : t.phase = .awaitingData expected)
    (h : ∀ payload, Packet.decode bytes = .ok (.data expected payload) →
      t.blockSize < payload.length ∨ (t.store payload).1.isOk = false) :
    t.newBlock? (.datagram bytes) = none := by
  simp only [newBlock?, hp]
  split
  · next expected' block payload he hd =>
    obtain rfl := Phase.awaitingData.inj he
    rw [if_neg]
    rintro ⟨rfl, hl, hs⟩
    rcases h payload hd with hh | hh
    · omega
    · simp [hh] at hs
  · rfl

theorem newBlock?_eq_some {t : Transfer σ} {event : TransferEvent} {payload : Bytes}
    (h : t.newBlock? event = some payload) : ∃ expected bytes, t.phase = .awaitingData expected ∧
      event = .datagram bytes ∧ Packet.decode bytes = .ok (.data expected payload) ∧
      payload.length ≤ t.blockSize := by
  cases event with
  | start => cases h
  | timeout => cases h
  | datagram bytes =>
    simp only [newBlock?] at h
    split at h
    · next expected block payload' hp hd =>
      split at h
      · next hc =>
        obtain rfl := Option.some.inj h
        obtain ⟨rfl, hl, -⟩ := hc
        exact ⟨block, bytes, hp, rfl, hd, hl⟩
      · cases h
    · cases h

/-- Storing reads nothing of a transfer but its sink. -/
theorem store_stores (t : Transfer σ) (payload : Bytes) : ∃ answer sink,
    Sink.Stores t.sink payload answer sink ∧
      ∀ timer, { t with timer }.store payload = (answer, { t with timer, sink }) := by
  by_cases hp : payload = []
  · subst hp
    exact ⟨.ok (), t.sink, .empty, fun timer => by simp [store]⟩
  · rcases hw : Sink.write t.sink payload with ⟨answer, sink⟩
    cases answer with
    | error e => exact ⟨_, sink, .failed hp hw, fun timer => by simp [store, hp, hw]⟩
    | ok taken =>
      by_cases hn : taken = payload.length
      · exact ⟨.ok (), sink, .full hp (hn ▸ hw), fun timer => by simp [store, hp, hw, hn]⟩
      · exact ⟨_, sink, .short hp hn hw, fun timer => by simp [store, hp, hw, hn]⟩

theorem commit_commits (t : Transfer σ) : ∃ answer sink,
    t.commit = (answer, { t with sink }) ∧ Sink.Commits t.sink answer sink := by
  rcases hf : Sink.flush t.sink with ⟨answer, flushed⟩
  cases answer with
  | error e => exact ⟨.error e, flushed, by simp [commit, hf], .unflushed hf⟩
  | ok _ =>
    rcases hp : Sink.publish flushed with ⟨answer, sink⟩
    exact ⟨answer, sink, by simp [commit, hf, hp], .flushed hf hp⟩

theorem accept_moves {t : Transfer σ} {block : UInt16} {bytes payload : Bytes} (now : Nat)
    (hp : t.phase = .awaitingData block) (hd : Packet.decode bytes = .ok (.data block payload)) :
    let answer := { t with timer := t.timer.cancel }.accept now block payload
    Moves now t (.datagram bytes) answer.1 answer.2 := by
  have hdata : ∀ payload', Packet.decode bytes = .ok (.data block payload') →
      payload = payload' := by
    intro payload' h
    rw [hd] at h
    exact (Packet.data.inj (Except.ok.inj h)).2
  obtain ⟨answer, sink, hs, hstore⟩ := store_stores t payload
  by_cases hlong : t.blockSize < payload.length
  · have hn : t.newBlock? (.datagram bytes) = none :=
      newBlock?_of_awaiting hp fun payload' h => .inl (hdata payload' h ▸ hlong)
    simpa [accept, hlong, refuse, abort] using Moves.refused hp hn _
  · cases answer with
    | error condition =>
      have hn : t.newBlock? (.datagram bytes) = none :=
        newBlock?_of_awaiting hp fun payload' h => .inr (by
          rw [← hdata payload' h]
          exact congrArg (fun r => r.1.isOk) (hstore t.timer))
      simpa [accept, hlong, hstore, abort] using Moves.unstored hp hn hs
    | ok _ =>
      have hn : t.newBlock? (.datagram bytes) = some payload := by
        have h : (t.store payload).1.isOk = true :=
          congrArg (fun r => r.1.isOk) (hstore t.timer)
        simp [newBlock?, hp, hd, Nat.le_of_not_lt hlong, h]
      by_cases hfull : payload.length = t.blockSize
      · simpa [accept, hfull, hstore, send, report, count] using Moves.advanced hp hn hfull hs
      · have hl : payload.length < t.blockSize := by omega
        obtain ⟨answer, sink', hcommit, hc⟩ := commit_commits
          ({ t with timer := t.timer.cancel, sink }.count payload.length)
        simp only [count] at hcommit
        cases answer with
        | error e =>
          simpa [accept, hlong, hfull, hstore, hcommit, fail, abort, count] using
            Moves.uncommitted hp hn hl hs hc
        | ok _ =>
          simpa [accept, hlong, hfull, hstore, hcommit, hold, report, count] using
            Moves.committed hp hn hl hs hc

theorem onAwaited_moves {t : Transfer σ} {expected : UInt16} (now : Nat) (bytes : Bytes)
    (hp : t.phase = .awaitingData expected) :
    let answer := { t with timer := t.timer.cancel }.onAwaited now expected bytes
    Moves now t (.datagram bytes) answer.1 answer.2 := by
  have hrefused (reason : AbortReason)
      (h : ∀ payload, Packet.decode bytes ≠ .ok (.data expected payload)) :
      Moves now t (.datagram bytes) (.abort reason)
        { t with
          phase := .aborted, timer := t.timer.cancel, sink := (Sink.discard t.sink).2 } :=
    .refused hp (newBlock?_of_awaiting hp fun payload hd => absurd hd (h payload)) reason
  cases hd : Packet.decode bytes with
  | error e =>
    cases e with
    | tooShort size => simpa [onAwaited, hd, refuse, abort] using hrefused _ (by simp [hd])
    | unknownOpcode value => simpa [onAwaited, hd, refuse, abort] using hrefused _ (by simp [hd])
  | ok packet =>
    cases packet with
    | data block payload =>
      by_cases he : block = expected
      · subst he
        simpa [onAwaited, hd] using accept_moves now hp hd
      · have hn : ∀ payload, Packet.decode bytes ≠ .ok (.data expected payload) := by
          simp [hd, he]
        by_cases hl : block = expected - 1
        · subst hl
          have h : t.newBlock? (.datagram bytes) = none :=
            newBlock?_of_awaiting hp fun payload h => absurd h (hn payload)
          simpa [onAwaited, hd, he, resync] using Moves.resynced hp h
        · simpa [onAwaited, hd, he, hl, refuse, abort] using hrefused _ hn
    | request | ack | error | optionAck =>
      simpa [onAwaited, hd, refuse, abort] using hrefused _ (by simp [hd])

theorem onHeld_moves {t : Transfer σ} {final : UInt16} (now : Nat) (bytes : Bytes)
    (hp : t.phase = .holding final) :
    Moves now t (.datagram bytes) (t.onHeld now final bytes).1 (t.onHeld now final bytes).2 := by
  have hignored : Moves now t (.datagram bytes) .ignore t :=
    .ignored (by simp) (by simp [hp]) (newBlock?_of_phase _ (by simp [hp]))
  cases hd : Packet.decode bytes with
  | error e => simpa [onHeld, hd] using hignored
  | ok packet =>
    cases packet with
    | data block payload =>
      by_cases he : block = final
      · rcases hr : t.timer.recordRetry with ⟨expiry, timer⟩
        cases expiry with
        | retry count => simpa [onHeld, hd, he, hr, hold] using Moves.repeated hp hr
        | exhausted count =>
          have hdisarmed : timer.deadline = none := (Prod.mk.inj hr).2 ▸ rfl
          simpa [onHeld, hd, he, hr, finish] using Moves.finished hp timer hdisarmed
      · simpa [onHeld, hd, he] using hignored
    | error code message => simpa [onHeld, hd, finish] using Moves.finished hp t.timer.cancel rfl
    | request | ack | optionAck => simpa [onHeld, hd] using hignored

theorem onTimeout_moves (t : Transfer σ) (now : Nat) :
    Moves now t .timeout (t.onTimeout now).1 (t.onTimeout now).2 := by
  cases hp : t.phase with
  | awaitingData block =>
    rcases hr : t.timer.recordRetry with ⟨expiry, timer⟩
    cases expiry with
    | retry count => simpa [onTimeout, hp, hr, send] using Moves.resent hp rfl hr
    | exhausted count => simpa [onTimeout, hp, hr, abort] using Moves.expired hp rfl hr
  | holding block => simpa [onTimeout, hp, finish] using Moves.finished hp t.timer.cancel rfl
  | awaitingStart | done | aborted =>
    simpa [onTimeout, hp] using Moves.ignored (by simp) (by simp [hp]) rfl

theorem start_moves (t : Transfer σ) (now : Nat) :
    Moves now t .start (t.start now).1 (t.start now).2 := by
  cases hp : t.phase with
  | awaitingStart => simpa [start, hp, send] using Moves.began hp rfl
  | awaitingData | holding | done | aborted =>
    simpa [start, hp] using Moves.ignored (by simp [hp]) (by simp) rfl

theorem apply_awaiting {t : Transfer σ} {expected : UInt16} (hp : t.phase = .awaitingData expected)
    (now : Nat) (bytes : Bytes) : t.apply now (.datagram bytes) =
      { t with timer := t.timer.cancel }.onAwaited now expected bytes := by
  simp only [apply, onDatagram, hp]

theorem apply_holding {t : Transfer σ} {final : UInt16} (hp : t.phase = .holding final) (now : Nat)
    (bytes : Bytes) : t.apply now (.datagram bytes) = t.onHeld now final bytes := by
  simp only [apply, onDatagram, hp]

theorem apply_moves (t : Transfer σ) (now : Nat) (event : TransferEvent) :
    Moves now t event (t.apply now event).1 (t.apply now event).2 := by
  cases event with
  | start => exact t.start_moves now
  | timeout => exact t.onTimeout_moves now
  | datagram bytes =>
    cases hp : t.phase with
    | awaitingData block =>
      rw [apply_awaiting hp]
      exact onAwaited_moves now bytes hp
    | holding block =>
      rw [apply_holding hp]
      exact onHeld_moves now bytes hp
    | awaitingStart | done | aborted =>
      simpa [apply, onDatagram, hp] using
        Moves.ignored (by simp) (by simp [hp]) (newBlock?_of_phase _ (by simp [hp]))

theorem run_cons (t : Transfer σ) (now : Nat) (event : TransferEvent)
    (rest : List (Nat × TransferEvent)) :
    t.run ((now, event) :: rest) =
      ((t.apply now event).1 :: ((t.apply now event).2.run rest).1,
        ((t.apply now event).2.run rest).2) := rfl

theorem run_append (t : Transfer σ) (front back : List (Nat × TransferEvent)) :
    t.run (front ++ back) =
      ((t.run front).1 ++ ((t.run front).2.run back).1, ((t.run front).2.run back).2) := by
  induction front generalizing t with
  | nil => rfl
  | cons head rest ih =>
    obtain ⟨now, event⟩ := head
    simp only [List.cons_append, run_cons, ih]

theorem Moves.phase_of_abort {t t' : Transfer σ} {now : Nat} {event : TransferEvent}
    {reason : AbortReason} (hm : t.Moves now event (.abort reason) t') : t'.phase = .aborted := by
  cases hm <;> rfl

theorem apply_finished {t : Transfer σ} (h : t.isFinished = true) (now : Nat)
    (event : TransferEvent) : t.apply now event = (.ignore, t) := by
  have hp : t.phase.isFinished = true := h
  cases hphase : t.phase with
  | done | aborted => cases event <;> simp [apply, start, onDatagram, onTimeout, hphase]
  | awaitingStart | awaitingData | holding => simp [hphase, Phase.isFinished] at hp

theorem run_finished {t : Transfer σ} (h : t.isFinished = true)
    (events : List (Nat × TransferEvent)) :
    t.run events = (List.replicate events.length .ignore, t) := by
  induction events with
  | nil => rfl
  | cons head rest ih =>
    obtain ⟨now, event⟩ := head
    have happly := apply_finished h now event
    simp only [run_cons, happly, ih, List.length_cons, List.replicate_succ]

/-- An aborted transfer stays as it is. -/
theorem run_aborted {t : Transfer σ} (hp : t.phase = .aborted)
    (events : List (Nat × TransferEvent)) :
    t.run events = (List.replicate events.length .ignore, t) :=
  run_finished (by simp [isFinished, hp, Phase.isFinished]) events

theorem run_abort {t : Transfer σ} {events : List (Nat × TransferEvent)} {reason : AbortReason}
    (h : .abort reason ∈ (t.run events).1) : (t.run events).2.phase = .aborted := by
  induction events generalizing t with
  | nil => cases h
  | cons head rest ih =>
    obtain ⟨now, event⟩ := head
    simp only [run_cons, List.mem_cons] at h
    rcases h with h | h
    · have hm := t.apply_moves now event
      rw [← h] at hm
      have hp := hm.phase_of_abort
      simp only [run_cons, run_aborted hp, hp]
    · exact ih h

end Transfer

end TftpReceiver
