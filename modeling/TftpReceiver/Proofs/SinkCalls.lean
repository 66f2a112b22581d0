import TftpReceiver.Proofs.Accounts

/-! The calls that a transfer makes on its sink, whatever the sink answers: blocks are written,
and then the sink is published or discarded, once. -/

namespace TftpReceiver

namespace SinkCall

def isWrite : SinkCall → Bool
  | write _ _ => true
  | _ => false

/-- Why a block is not stored after a call. Whether a discard fails does not matter. -/
def fault? : SinkCall → Option Condition
  | write payload (.ok taken) =>
    if taken = payload.length then none else some (.protocol .diskFull)
  | write _ (.error e) | flush (.error e) | publish (.error e) => some (.ofHostError e)
  | _ => none

@[simp]
theorem fault?_flush (answer : Except HostError Unit) :
    (flush answer).fault? = match answer with
      | .ok () => none
      | .error e => some (.ofHostError e) := by
  cases answer <;> rfl

@[simp]
theorem fault?_publish (answer : Except HostError Unit) :
    (publish answer).fault? = match answer with
      | .ok () => none
      | .error e => some (.ofHostError e) := by
  cases answer <;> rfl

@[simp]
theorem fault?_discard (answer : Except HostError Unit) : (discard answer).fault? = none := rfl

/-- The calls that follow the last block that is written. -/
inductive Closing : List SinkCall → Prop
  | pending : Closing []
  | discarded (answer : Except HostError Unit) : Closing [.discard answer]
  | published : Closing [.flush (.ok ()), .publish (.ok ())]
  | unflushed (error : HostError) (answer : Except HostError Unit) :
      Closing [.flush (.error error), .discard answer]
  | unpublished (error : HostError) (answer : Except HostError Unit) :
      Closing [.flush (.ok ()), .publish (.error error), .discard answer]

end SinkCall

namespace Recorded

variable {σ : Type} [Sink σ] {before after : Recorded σ} {payload : Bytes}

theorem calls_stored (hs : Sink.Stores before payload (.ok ()) after) :
    ∃ made, after.calls = made ++ before.calls ∧
      ∀ call ∈ made, call.isWrite = true ∧ call.fault? = none := by
  cases hs with
  | empty => exact ⟨[], rfl, by simp⟩
  | full hp hw =>
    obtain ⟨hanswer, rfl⟩ := Prod.mk.inj hw
    refine ⟨[.write payload (.ok payload.length)], by simp [hanswer], ?_⟩
    simp [SinkCall.isWrite, SinkCall.fault?]

theorem calls_unstored {condition : Condition}
    (hs : Sink.Stores before payload (.error condition) after) :
    ∃ call, after.calls = call :: before.calls ∧ call.isWrite = true ∧
      call.fault? = some condition := by
  cases hs with
  | short hp hn hw =>
    obtain ⟨hanswer, rfl⟩ := Prod.mk.inj hw
    exact ⟨_, rfl, rfl, by simp [hanswer, SinkCall.fault?, hn]⟩
  | failed hp hw =>
    obtain ⟨hanswer, rfl⟩ := Prod.mk.inj hw
    exact ⟨_, rfl, rfl, by simp [hanswer, SinkCall.fault?]⟩

theorem calls_committed (hc : Sink.Commits before (.ok ()) after) :
    after.calls = .publish (.ok ()) :: .flush (.ok ()) :: before.calls := by
  cases hc with
  | flushed hf hp =>
    obtain ⟨hflush, rfl⟩ := Prod.mk.inj hf
    obtain ⟨hpublish, rfl⟩ := Prod.mk.inj hp
    simp [hflush, hpublish]

theorem calls_uncommitted {error : HostError} (hc : Sink.Commits before (.error error) after) :
    after.calls = .flush (.error error) :: before.calls ∨
      after.calls = .publish (.error error) :: .flush (.ok ()) :: before.calls := by
  cases hc with
  | unflushed hf =>
    obtain ⟨hflush, rfl⟩ := Prod.mk.inj hf
    exact .inl (by simp [hflush])
  | flushed hf hp =>
    obtain ⟨hflush, rfl⟩ := Prod.mk.inj hf
    obtain ⟨hpublish, rfl⟩ := Prod.mk.inj hp
    exact .inr (by simp [hflush, hpublish])

theorem calls_discard (sink : Recorded σ) :
    ∃ answer, (Sink.discard sink).2.calls = .discard answer :: sink.calls :=
  ⟨_, rfl⟩

theorem calls_filled {sink : σ} {payloads : List Bytes} {filled : Recorded σ}
    (h : Sink.Filled { sink } payloads filled) : ∀ call ∈ filled.calls, call.isWrite = true := by
  induction h with
  | fresh => simp
  | stored _ hs ih =>
    obtain ⟨made, hcalls, hmade⟩ := calls_stored hs
    intro call hc
    rw [hcalls] at hc
    rcases List.mem_append.mp hc with hc | hc
    · exact (hmade call hc).1
    · exact ih call hc

/-- A sink that was dropped was told so by the last call, and nothing was published. -/
theorem calls_dropped {sink : σ} {payloads : List Bytes} {dropped : Recorded σ}
    (h : Sink.Dropped { sink } payloads dropped) : ∃ writes closing,
      dropped.calls = closing.reverse ++ writes ∧ (∀ call ∈ writes, call.isWrite = true) ∧
      SinkCall.Closing closing ∧ (∃ answer, .discard answer ∈ closing) ∧
      .publish (.ok ()) ∉ closing := by
  cases h with
  | @filled filled hf =>
    obtain ⟨answer, hdiscard⟩ := calls_discard filled
    exact ⟨filled.calls, [.discard answer], hdiscard, calls_filled hf, .discarded answer,
      ⟨answer, by simp⟩, by simp⟩
  | @unstored filled payload condition failed hf hs =>
    obtain ⟨call, hcalls, hwrite, -⟩ := calls_unstored hs
    obtain ⟨answer, hdiscard⟩ := calls_discard failed
    rw [hcalls] at hdiscard
    refine ⟨call :: filled.calls, [.discard answer], hdiscard, ?_, .discarded answer,
      ⟨answer, by simp⟩, by simp⟩
    exact List.forall_mem_cons.mpr ⟨hwrite, calls_filled hf⟩
  | @uncommitted filled error failed hf hc =>
    obtain ⟨answer, hdiscard⟩ := calls_discard failed
    rcases calls_uncommitted hc with hcalls | hcalls
    · rw [hcalls] at hdiscard
      exact ⟨filled.calls, [.flush (.error error), .discard answer], hdiscard, calls_filled hf,
        .unflushed error answer, ⟨answer, by simp⟩, by simp⟩
    · rw [hcalls] at hdiscard
      exact ⟨filled.calls, [.flush (.ok ()), .publish (.error error), .discard answer], hdiscard,
        calls_filled hf, .unpublished error answer, ⟨answer, by simp⟩, by simp⟩

end Recorded

namespace Transfer

/-- The calls on the sink of a transfer are writes with at most one ending, and the ending is
the one that the phase tells. -/
structure ClosesOnce {σ : Type} (t : Transfer (Recorded σ)) : Prop where
  shape : ∃ writes closing, t.sink.calls.reverse = writes ++ closing ∧
    (∀ call ∈ writes, call.isWrite = true) ∧ SinkCall.Closing closing
  discarded : (∃ answer, .discard answer ∈ t.sink.calls) ↔ t.phase = .aborted
  published : .publish (.ok ()) ∈ t.sink.calls ↔
    (∃ block, t.phase = .holding block) ∨ t.phase = .done

variable {σ : Type} [Sink σ] {t t' : Transfer (Recorded σ)} {taken : List Bytes} {now : Nat}
  {event : TransferEvent} {step : Step}

omit [Sink σ] in
/-- What the calls made so far, newest first, say about the phase of a transfer. -/
theorem closesOnce_of_calls {writes closing : List SinkCall}
    (hcalls : t.sink.calls = closing.reverse ++ writes)
    (hwrites : ∀ call ∈ writes, call.isWrite = true) (hclosing : SinkCall.Closing closing)
    (hd : (∃ answer, .discard answer ∈ closing) ↔ t.phase = .aborted)
    (hp : .publish (.ok ()) ∈ closing ↔
      (∃ block, t.phase = .holding block) ∨ t.phase = .done) : t.ClosesOnce := by
  have hother : ∀ call, call.isWrite = false → (call ∈ t.sink.calls ↔ call ∈ closing) := by
    intro call hc
    have hn : call ∉ writes := by
      intro hm
      have := hwrites call hm
      simp [hc] at this
    simp [hcalls, hn]
  refine ⟨⟨writes.reverse, closing, ?_, ?_, hclosing⟩, ?_, ?_⟩
  · rw [hcalls, List.reverse_append, List.reverse_reverse]
  · simpa using hwrites
  · rw [← hd]
    exact exists_congr fun answer => hother (.discard answer) rfl
  · rw [← hp]
    exact hother _ rfl

theorem Ledger.closesOnce {sink : σ} (h : t.Ledger { sink } taken) : t.ClosesOnce := by
  have hs := h.stands
  cases hs with
  | waiting hp hs =>
    have hcalls : t.sink.calls = [].reverse ++ [] := by rw [hs]; rfl
    exact closesOnce_of_calls hcalls (by simp) .pending (by simp [hp]) (by simp [hp])
  | awaiting hp _ hs =>
    have hcalls : t.sink.calls = [].reverse ++ t.sink.calls := rfl
    exact closesOnce_of_calls hcalls (Recorded.calls_filled hs) .pending (by simp [hp])
      (by simp [hp])
  | holding hp _ _ hs | done hp _ _ hs =>
    obtain ⟨hf, hc⟩ := hs
    have hcalls : t.sink.calls = [.flush (.ok ()), .publish (.ok ())].reverse ++ _ :=
      Recorded.calls_committed hc
    exact closesOnce_of_calls hcalls (Recorded.calls_filled hf) .published (by simp [hp])
      (by simp [hp])
  | aborted _ _ hp _ _ hs =>
    obtain ⟨writes, closing, hcalls, hwrites, hclosing, hdiscard, hpublish⟩ :=
      Recorded.calls_dropped hs
    exact closesOnce_of_calls hcalls hwrites hclosing (by simp [hp, hdiscard])
      (by simp [hp, hpublish])

/-- The calls that an event brings about: one that does not store a block makes the answer an
end of the transfer, for the reason that the call gives. -/
theorem Moves.made (hm : t.Moves now event step t') : ∃ made,
    t'.sink.calls = made ++ t.sink.calls ∧ ∀ call ∈ made, ∀ condition,
      call.fault? = some condition → step = .abort (.refused condition) ∧ t.phase ≠ .aborted := by
  cases hm with
  | began | ignored | resent | resynced | repeated | finished => exact ⟨[], rfl, by simp⟩
  | expired | refused =>
    obtain ⟨answer, hdiscard⟩ := Recorded.calls_discard t.sink
    exact ⟨[.discard answer], hdiscard, by simp⟩
  | @unstored block hp _ payload condition sink hs =>
    obtain ⟨call, hcalls, -, hfault⟩ := Recorded.calls_unstored hs
    obtain ⟨answer, hdiscard⟩ := Recorded.calls_discard sink
    rw [hcalls] at hdiscard
    exact ⟨[.discard answer, call], hdiscard, by simp [hfault, hp]⟩
  | advanced hp _ _ hs =>
    obtain ⟨made, hcalls, hmade⟩ := Recorded.calls_stored hs
    refine ⟨made, hcalls, ?_⟩
    intro call hc condition hf
    simp [(hmade call hc).2] at hf
  | @uncommitted block hp payload _ _ filled error sink hs hc =>
    obtain ⟨made, hcalls, hmade⟩ := Recorded.calls_stored hs
    obtain ⟨answer, hdiscard⟩ := Recorded.calls_discard sink
    have hstored : ∀ call ∈ made, call.fault? = none := fun call hm => (hmade call hm).2
    rcases Recorded.calls_uncommitted hc with hended | hended
    · rw [hended, hcalls] at hdiscard
      refine ⟨.discard answer :: .flush (.error error) :: made, hdiscard, ?_⟩
      simp +contextual [hp, hstored]
    · rw [hended, hcalls] at hdiscard
      refine ⟨.discard answer :: .publish (.error error) :: .flush (.ok ()) :: made, hdiscard, ?_⟩
      simp +contextual [hp, hstored]
  | committed hp _ _ hs hc =>
    obtain ⟨made, hcalls, hmade⟩ := Recorded.calls_stored hs
    have hended := Recorded.calls_committed hc
    have hstored : ∀ call ∈ made, call.fault? = none := fun call hm => (hmade call hm).2
    rw [hcalls] at hended
    refine ⟨.publish (.ok ()) :: .flush (.ok ()) :: made, hended, ?_⟩
    simp +contextual [hstored]

/-- Whatever the sink answers and the peer sends, blocks are written to the sink and then it is
closed once, by publishing or by discarding it. An event that meets a block that cannot be
stored, flushed or published is answered by the one end of the transfer, after which every
event is ignored. -/
theorem run_closes_sink_once (sink : σ) (options : TransferOptions) (optionAck : Option Bytes)
    (maxRetries : Nat) (observed : Bool) (events : List (Nat × TransferEvent)) :
    let begun := create ({ sink } : Recorded σ) options optionAck maxRetries observed
    (begun.run events).2.ClosesOnce ∧
    ∀ before now event after, events = before ++ (now, event) :: after →
      let t := (begun.run before).2
      ∃ made, (t.apply now event).2.sink.calls = made ++ t.sink.calls ∧
        ∀ call ∈ made, ∀ condition, call.fault? = some condition →
          (begun.run events).1 = (begun.run before).1 ++
            .abort (.refused condition) :: List.replicate after.length .ignore ∧
          ∀ reason, .abort reason ∉ (begun.run before).1 := by
  intro begun
  have hcreated : begun.Ledger { sink } [] := ledger_create _ options optionAck maxRetries observed
  refine ⟨(hcreated.run events).closesOnce, ?_⟩
  intro before now event after hevents t
  have hm := t.apply_moves now event
  obtain ⟨made, hcalls, hmade⟩ := hm.made
  refine ⟨made, hcalls, ?_⟩
  intro call hc condition hf
  obtain ⟨hstep, hphase⟩ := hmade call hc condition hf
  rw [hstep] at hm
  refine ⟨?_, fun reason habort => hphase (run_abort habort)⟩
  rw [hevents, run_append, run_cons, hstep, run_aborted hm.phase_of_abort]

def firstBlockEvents : List (Nat × TransferEvent) :=
  [(0, .start), (1, .datagram [0, 3, 0, 1, 7, 8])]

theorem run_closes_full_sink_once :
    let begun := create ({ sink := { capacity := some 3 } } : Recorded MemorySink)
      { blockSize := 2, interval := 1000 } none 5 false
    let t := (begun.run firstBlockEvents).2
    let last := (2, TransferEvent.datagram [0, 3, 0, 2, 9, 10])
    let overfull := SinkCall.write [9, 10] (.ok 1)
    overfull.fault? = some (.protocol .diskFull) ∧
    (t.apply last.1 last.2).2.sink.calls = [.discard (.ok ()), overfull] ++ t.sink.calls ∧
    (begun.run (firstBlockEvents ++ [last, (1002, .timeout)])).1 =
      [.send (Packet.encodeAck 0), .send (Packet.encodeAck 1),
        .abort (.refused (.protocol .diskFull)), .ignore] := by
  intro begun t last overfull
  have hfull : overfull.fault? = some (.protocol .diskFull) := rfl
  have hcalls : (t.apply last.1 last.2).2.sink.calls =
      [.discard (.ok ()), overfull] ++ t.sink.calls := rfl
  obtain ⟨-, hends⟩ := run_closes_sink_once ({ capacity := some 3 } : MemorySink)
    { blockSize := 2, interval := 1000 } none 5 false (firstBlockEvents ++ [last, (1002, .timeout)])
  obtain ⟨made, hmade, hfault⟩ := hends firstBlockEvents last.1 last.2 [(1002, .timeout)] rfl
  obtain rfl := List.append_cancel_right (hcalls.symm.trans hmade)
  obtain ⟨hsteps, -⟩ := hfault overfull (by simp) _ hfull
  exact ⟨hfull, hcalls, hsteps⟩

end Transfer

end TftpReceiver
