import TftpReceiver.Proofs.RetryBudget

/-! The hold after the last block: the upload is published and stays as it is. Only repeats of the
last block prolong the hold, and there is a fresh budget for them. -/

namespace TftpReceiver

namespace Transfer

variable {σ : Type} [Sink σ] {t t' : Transfer σ} {now count : Nat} {event : TransferEvent}
  {step : Step} {block : UInt16} {bytes payload : Bytes}

/-- Whether an event brings the last block once more to a transfer that holds it. -/
def holdsAgain (t : Transfer σ) : TransferEvent → Bool
  | .datagram bytes =>
    match t.phase, Packet.decode bytes with
    | .holding final, .ok (.data block _) => block = final
    | _, _ => false
  | _ => false

/-- How often the last block comes again while it is held. -/
def heldRepeats (t : Transfer σ) : List (Nat × TransferEvent) → Nat
  | [] => 0
  | (now, event) :: rest =>
    (if t.holdsAgain event then 1 else 0) + (t.apply now event).2.heldRepeats rest

omit [Sink σ] in
theorem holdsAgain_iff (hp : t.phase = .holding block) : t.holdsAgain (.datagram bytes) = true ↔
    ∃ payload, Packet.decode bytes = .ok (.data block payload) := by
  simp only [holdsAgain, hp]
  split
  · next final block' payload hphase hd =>
    obtain rfl := Phase.holding.inj hphase
    simp [hd, eq_comm]
  · next hnot =>
    simp only [Bool.false_eq_true, false_iff, not_exists]
    exact fun payload hd => hnot block block payload rfl hd

omit [Sink σ] in
theorem holdsAgain_of_phase (hp : ∀ block, t.phase ≠ .holding block) (event : TransferEvent) :
    t.holdsAgain event = false := by
  cases event with
  | start | timeout => rfl
  | datagram bytes =>
    cases hphase : t.phase with
    | holding block => exact absurd hphase (hp block)
    | awaitingStart | awaitingData | done | aborted => simp [holdsAgain, hphase]

theorem apply_held_again (hp : t.phase = .holding block)
    (hd : Packet.decode bytes = .ok (.data block payload)) (now : Nat) :
    t.apply now (.datagram bytes) =
      let retries := min (t.timer.retries + 1) RetryTimer.maxCount
      if t.timer.maxRetries < retries then
        (.done, { t with phase := .done, timer := { t.timer with deadline := none, retries } })
      else
        (.hold t.lastSent,
          { t with
            timer := { t.timer with deadline := some (now + t.timer.interval), retries } }) := by
  by_cases hb : t.timer.maxRetries < min (t.timer.retries + 1) RetryTimer.maxCount
  · simp [apply, onDatagram, hp, onHeld, hd, RetryTimer.recordRetry, hb, finish]
  · simp [apply, onDatagram, hp, onHeld, hd, RetryTimer.recordRetry, hb, hold, RetryTimer.arm]

theorem apply_held_within (hp : t.phase = .holding block)
    (hd : Packet.decode bytes = .ok (.data block payload))
    (hm : t.timer.maxRetries < RetryTimer.maxCount) (hl : t.timer.retries < t.timer.maxRetries)
    (now : Nat) :
    t.apply now (.datagram bytes) = (.hold t.lastSent,
      { t with
        timer := { t.timer with
          deadline := some (now + t.timer.interval), retries := t.timer.retries + 1 } }) := by
  have hnext : min (t.timer.retries + 1) RetryTimer.maxCount = t.timer.retries + 1 := by omega
  have hleft : ¬ t.timer.maxRetries < t.timer.retries + 1 := by omega
  simp only [apply_held_again hp hd, hnext, if_neg hleft]

theorem apply_held_spent (hp : t.phase = .holding block)
    (hd : Packet.decode bytes = .ok (.data block payload))
    (hm : t.timer.maxRetries < RetryTimer.maxCount) (hl : t.timer.retries = t.timer.maxRetries)
    (now : Nat) :
    (t.apply now (.datagram bytes)).1 = .done ∧
      (t.apply now (.datagram bytes)).2.phase = .done := by
  have hspent : t.timer.maxRetries < min (t.timer.retries + 1) RetryTimer.maxCount := by omega
  simp only [apply_held_again hp hd, if_pos hspent, and_self]

theorem apply_held_error (hp : t.phase = .holding block) {code : UInt16} {message : String}
    (hd : Packet.decode bytes = .ok (.error code message)) (now : Nat) :
    (t.apply now (.datagram bytes)).1 = .done ∧
      (t.apply now (.datagram bytes)).2.phase = .done := by
  simp [apply, onDatagram, hp, onHeld, hd, finish]

theorem apply_held_other (hp : t.phase = .holding block)
    (hdata : ∀ payload, Packet.decode bytes ≠ .ok (.data block payload))
    (herror : ∀ code message, Packet.decode bytes ≠ .ok (.error code message)) (now : Nat) :
    t.apply now (.datagram bytes) = (.ignore, t) := by
  cases hd : Packet.decode bytes with
  | error malformed => simp [apply, onDatagram, hp, onHeld, hd]
  | ok packet =>
    cases packet with
    | error code message => exact absurd hd (herror code message)
    | request | ack | optionAck => simp [apply, onDatagram, hp, onHeld, hd]
    | data other payload =>
      have hother : other ≠ block := by
        rintro rfl
        exact hdata payload hd
      simp [apply, onDatagram, hp, onHeld, hd, hother]

theorem apply_held_besides (hp : t.phase = .holding block) (hn : t.holdsAgain event = false)
    (now : Nat) : t.apply now event = (.ignore, t) ∨ (t.apply now event).2.phase = .done := by
  cases event with
  | start => exact .inl (by simp [apply, start, hp])
  | timeout => exact .inr (apply_timeout_holding hp now).2
  | datagram bytes =>
    by_cases he : ∃ code message, Packet.decode bytes = .ok (.error code message)
    · obtain ⟨code, message, hd⟩ := he
      exact .inr (apply_held_error hp hd now).2
    · have hdata : ∀ payload, Packet.decode bytes ≠ .ok (.data block payload) := by
        intro payload hd
        rw [(holdsAgain_iff hp).mpr ⟨payload, hd⟩] at hn
        cases hn
      exact .inl (apply_held_other hp hdata (fun code message hd => he ⟨code, message, hd⟩) now)

/-- What no event changes once the last block is stored. -/
structure Stored (block : UInt16) (t t' : Transfer σ) : Prop where
  phase : t'.phase = .holding block ∨ t'.phase = .done
  sink : t'.sink = t.sink
  bytesWritten : t'.bytesWritten = t.bytesWritten
  blocksWritten : t'.blocksWritten = t.blocksWritten
  progress : t'.progress = t.progress
  lastSent : t'.lastSent = t.lastSent

omit [Sink σ] in
theorem Stored.refl (hp : t.phase = .holding block ∨ t.phase = .done) : Stored block t t :=
  ⟨hp, rfl, rfl, rfl, rfl, rfl⟩

omit [Sink σ] in
theorem Stored.trans {t'' : Transfer σ} (h : Stored block t t') (h' : Stored block t' t'') :
    Stored block t t'' :=
  ⟨h'.phase, h'.sink.trans h.sink, h'.bytesWritten.trans h.bytesWritten,
    h'.blocksWritten.trans h.blocksWritten, h'.progress.trans h.progress,
    h'.lastSent.trans h.lastSent⟩

theorem Moves.stored (hm : t.Moves now event step t')
    (hp : t.phase = .holding block ∨ t.phase = .done) :
    Stored block t t' ∧ (step = .hold t.lastSent ∨ step = .ignore ∨ step = .done) := by
  cases hm with
  | ignored => exact ⟨.refl hp, .inr (.inl rfl)⟩
  | repeated => exact ⟨⟨hp, rfl, rfl, rfl, rfl, rfl⟩, .inl rfl⟩
  | finished => exact ⟨⟨.inr rfl, rfl, rfl, rfl, rfl, rfl⟩, .inr (.inr rfl)⟩
  | began hp' | resent hp' | expired hp' | resynced hp' | refused hp' | unstored hp' | advanced hp'
  | uncommitted hp' | committed hp' => simp [hp'] at hp

theorem run_stored (hp : t.phase = .holding block ∨ t.phase = .done)
    (events : List (Nat × TransferEvent)) :
    Stored block t (t.run events).2 ∧
      ∀ step ∈ (t.run events).1, step = .hold t.lastSent ∨ step = .ignore ∨ step = .done := by
  induction events generalizing t with
  | nil => exact ⟨.refl hp, by simp [run]⟩
  | cons head rest ih =>
    obtain ⟨now, event⟩ := head
    obtain ⟨hstored, hstep⟩ := (t.apply_moves now event).stored hp
    obtain ⟨hrest, hsteps⟩ := ih hstored.phase
    rw [hstored.lastSent] at hsteps
    exact ⟨hstored.trans hrest, List.forall_mem_cons.mpr ⟨hstep, hsteps⟩⟩

/-- The hold is entered in one way only, and with no retry counted. -/
theorem Moves.entered (hm : t.Moves now event step t') (hn : ∀ block, t.phase ≠ .holding block)
    (hp : t'.phase = .holding block) : (∃ awaited, t.phase = .awaitingData awaited) ∧
      t'.lastSent = Packet.encodeAck block ∧ t'.timer.retries = 0 := by
  cases hm with
  | committed hp' =>
    obtain rfl := Phase.holding.inj hp
    exact ⟨⟨_, hp'⟩, rfl, rfl⟩
  | ignored | resent | resynced => exact absurd hp (hn block)
  | repeated hp' | finished hp' => exact absurd hp' (hn _)
  | began | expired | refused | unstored | advanced | uncommitted => cases hp

/-- A transfer to which the last block has come so many times since it is held. -/
structure Reheld (count : Nat) (t : Transfer σ) : Prop where
  unheld : (∀ block, t.phase ≠ .holding block) → t.phase ≠ .done → count = 0
  lastSent : ∀ block, t.phase = .holding block → t.lastSent = Packet.encodeAck block
  retries : ∀ block, t.phase = .holding block → t.timer.retries = min count RetryTimer.maxCount
  budget : ∀ block, t.phase = .holding block → t.timer.retries ≤ t.timer.maxRetries

omit [Sink σ] in
theorem reheld_create (sink : σ) (options : TransferOptions) (optionAck : Option Bytes)
    (maxRetries : Nat) (observed : Bool) :
    (create sink options optionAck maxRetries observed).Reheld 0 := by
  refine ⟨fun _ _ => rfl, ?_, ?_, ?_⟩ <;> simp [create]

theorem Reheld.again (h : t.Reheld count) (hp : t.phase = .holding block)
    (hd : Packet.decode bytes = .ok (.data block payload)) (now : Nat) :
    (t.apply now (.datagram bytes)).2.Reheld (count + 1) := by
  have hretries := h.retries block hp
  rw [apply_held_again hp hd]
  by_cases hb : t.timer.maxRetries < min (t.timer.retries + 1) RetryTimer.maxCount
  · simp only [if_pos hb]
    refine ⟨fun _ hundone => absurd rfl hundone, ?_, ?_, ?_⟩ <;> intro block' hp' <;> cases hp'
  · simp only [if_neg hb]
    refine ⟨fun hn => absurd hp (hn block), h.lastSent, fun block' _ => ?_, fun block' _ => ?_⟩
    · dsimp only
      omega
    · dsimp only
      omega

theorem Reheld.besides (h : t.Reheld count) (hn : t.holdsAgain event = false) (now : Nat) :
    (t.apply now event).2.Reheld count := by
  have hm := t.apply_moves now event
  have hstay : (∀ block, t.phase ≠ .holding block) → (t.apply now event).2.phase ≠ .done →
      count = 0 := fun hunheld hundone => h.unheld hunheld (hm.limits hundone).1
  by_cases hheld : ∃ block, t.phase = .holding block
  · obtain ⟨block, hp⟩ := hheld
    rcases apply_held_besides hp hn now with hsame | hdone
    · rw [hsame]
      exact h
    · refine ⟨fun _ hundone => absurd hdone hundone, ?_, ?_, ?_⟩
      all_goals
        intro block' hp'
        rw [hdone] at hp'
        cases hp'
  · -- A hold that begins here is the first one, since none comes after the end of another.
    have hunheld : ∀ block, t.phase ≠ .holding block := fun block hp => hheld ⟨block, hp⟩
    refine ⟨fun _ hundone => hstay hunheld hundone, fun block hp => ?_, fun block hp => ?_,
      fun block hp => ?_⟩
    · exact (hm.entered hunheld hp).2.1
    · obtain ⟨⟨awaited, hawaited⟩, -, hretries⟩ := hm.entered hunheld hp
      have hcount := h.unheld hunheld (by simp [hawaited])
      rw [hretries, hcount, Nat.zero_min]
    · obtain ⟨-, -, hretries⟩ := hm.entered hunheld hp
      rw [hretries]
      exact Nat.zero_le _

theorem Reheld.apply (h : t.Reheld count) (now : Nat) (event : TransferEvent) :
    (t.apply now event).2.Reheld (count + if t.holdsAgain event then 1 else 0) := by
  by_cases ha : t.holdsAgain event = true
  · rw [if_pos ha]
    by_cases hheld : ∃ block, t.phase = .holding block
    · obtain ⟨block, hp⟩ := hheld
      cases event with
      | start | timeout => cases ha
      | datagram bytes =>
        obtain ⟨payload, hd⟩ := (holdsAgain_iff hp).mp ha
        exact h.again hp hd now
    · rw [holdsAgain_of_phase (fun block hp => hheld ⟨block, hp⟩) event] at ha
      cases ha
  · rw [if_neg ha]
    exact h.besides (Bool.not_eq_true _ ▸ ha) now

theorem Reheld.run (h : t.Reheld count) (events : List (Nat × TransferEvent)) :
    (t.run events).2.Reheld (count + t.heldRepeats events) := by
  induction events generalizing t count with
  | nil => exact h
  | cons head rest ih =>
    obtain ⟨now, event⟩ := head
    have hrest := ih (h.apply now event)
    rw [Nat.add_assoc] at hrest
    exact hrest

/-- While the last block is held, nothing that comes in reaches the upload any more, and the
transfer can only end as done. As many repeats of the block as the budget allows are acknowledged
again, counted from the start of the hold, and the next one ends it. So does silence, or an error
from the peer. Anything else leaves the hold as it was. -/
theorem run_holds_open (sink : σ) (options : TransferOptions) (optionAck : Option Bytes)
    (maxRetries : Nat) (observed : Bool) (events : List (Nat × TransferEvent)) :
    let begun := create ({ sink } : Recorded σ) options optionAck maxRetries observed
    let t := (begun.run events).2
    ∀ block, t.phase = .holding block →
      (∀ later, let t' := (t.run later).2
        (∀ reason, .abort reason ∉ (t.run later).1) ∧
        (t'.phase = .holding block ∨ t'.phase = .done) ∧ t'.sink = t.sink ∧
        t'.bytesWritten = t.bytesWritten ∧ t'.blocksWritten = t.blocksWritten ∧
        t'.progress = t.progress) ∧
      (maxRetries < RetryTimer.maxCount →
        begun.heldRepeats events ≤ maxRetries ∧ t.timer.retries = begun.heldRepeats events ∧
        ∀ now bytes payload, Packet.decode bytes = .ok (.data block payload) →
          let answered := t.apply now (.datagram bytes)
          (begun.heldRepeats events < maxRetries →
            answered = (.hold (Packet.encodeAck block),
              { t with
                timer := { t.timer with
                  deadline := some (now + options.interval), retries := t.timer.retries + 1 } })) ∧
          (begun.heldRepeats events = maxRetries →
            answered.1 = .done ∧ answered.2.phase = .done)) ∧
      ∀ now, ((t.apply now .timeout).1 = .done ∧ (t.apply now .timeout).2.phase = .done) ∧
        ∀ bytes, let answered := t.apply now (.datagram bytes)
          (∀ code message, Packet.decode bytes = .ok (.error code message) →
            answered.1 = .done ∧ answered.2.phase = .done) ∧
          ((∀ payload, Packet.decode bytes ≠ .ok (.data block payload)) →
            (∀ code message, Packet.decode bytes ≠ .ok (.error code message)) →
              answered = (.ignore, t)) := by
  intro begun t block hp
  have hreheld : t.Reheld (begun.heldRepeats events) := by
    have hrun := (reheld_create ({ sink } : Recorded σ) options optionAck maxRetries observed).run
      events
    rwa [Nat.zero_add] at hrun
  have hundone : t.phase ≠ .done := by simp [hp]
  obtain ⟨-, hinterval, hlimit⟩ := run_limits (t := begun) hundone
  have hinterval : t.timer.interval = options.interval := hinterval
  have hlimit : t.timer.maxRetries = maxRetries := hlimit
  refine ⟨fun later => ?_, fun hm => ?_, fun now => ⟨apply_timeout_holding hp now, fun bytes =>
    ⟨fun code message hd => apply_held_error hp hd now,
      fun hdata herror => apply_held_other hp hdata herror now⟩⟩⟩
  · obtain ⟨hstored, hsteps⟩ := run_stored (.inl hp) later
    refine ⟨fun reason habort => ?_, hstored.phase, hstored.sink, hstored.bytesWritten,
      hstored.blocksWritten, hstored.progress⟩
    simpa using hsteps _ habort
  · have hretries := hreheld.retries block hp
    have hbudget := hreheld.budget block hp
    rw [hlimit] at hbudget
    have hcount : t.timer.retries = begun.heldRepeats events := by omega
    refine ⟨hcount ▸ hbudget, hcount,
      fun now bytes payload hd => ⟨fun hleft => ?_, fun hspent => ?_⟩⟩
    · rw [apply_held_within hp hd (hlimit ▸ hm) (by rwa [hcount, hlimit]), hinterval,
        ← hreheld.lastSent block hp]
    · exact apply_held_spent hp hd (hlimit ▸ hm) (by rwa [hcount, hlimit]) now

/-- A timeout, the last block, and the same block again. -/
def repeatedEnd : List (Nat × TransferEvent) :=
  [(0, .start), (1000, .timeout), (1001, .datagram [0, 3, 0, 1, 7]),
    (1002, .datagram [0, 3, 0, 1, 7])]

theorem run_holds_open_for_one :
    let begun := create ({ sink := {} } : Recorded MemorySink)
      { blockSize := 2, interval := 1000 } none 2 false
    let t := (begun.run repeatedEnd).2
    t.phase = .holding 1 ∧ begun.heldRepeats repeatedEnd = 1 ∧
      (t.apply 1003 (.datagram [0, 3, 0, 1])).1 = .hold (Packet.encodeAck 1) ∧
      t.apply 1003 (.datagram [0, 4, 0, 1]) = (.ignore, t) ∧
      (t.apply 1003 (.datagram [0, 5, 0, 0, 0])).2.phase = .done := by
  intro begun t
  have hphase : t.phase = .holding 1 := rfl
  have hcount : begun.heldRepeats repeatedEnd = 1 := rfl
  have hdata : Packet.decode [0, 3, 0, 1] = .ok (.data 1 []) := rfl
  have hack : Packet.decode [0, 4, 0, 1] = .ok (.ack 1) := rfl
  have herror : Packet.decode [0, 5, 0, 0, 0] = .ok (.error 0 "") := rfl
  obtain ⟨-, hrepeats, hends⟩ := run_holds_open ({} : MemorySink)
    { blockSize := 2, interval := 1000 } none 2 false repeatedEnd 1 hphase
  obtain ⟨-, -, hagain⟩ := hrepeats (by decide)
  have hheld := (hagain 1003 _ _ hdata).1 (by rw [hcount]; decide)
  have hignored := ((hends 1003).2 [0, 4, 0, 1]).2 (by simp [hack]) (by simp [hack])
  exact ⟨hphase, hcount, congrArg Prod.fst hheld, hignored, (((hends 1003).2 _).1 _ _ herror).2⟩

end Transfer

end TftpReceiver
