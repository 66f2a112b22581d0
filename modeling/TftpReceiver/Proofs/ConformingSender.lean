import TftpReceiver.Proofs.FileDelivery
import TftpReceiver.Proofs.SinkCalls

/-! A sender that keeps to the protocol, and how a transfer with a sound sink answers it. -/

namespace TftpReceiver

namespace Sink

variable {σ : Type} [Sink σ] {good : σ → Prop} {sink sink' : σ}

/-- In these states, and from them on, a sink takes whatever it is offered and does not fail. -/
structure Reliable (good : σ → Prop) : Prop where
  write : ∀ {sink}, good sink → ∀ payload,
    (Sink.write sink payload).1 = .ok payload.length ∧ good (Sink.write sink payload).2
  flush : ∀ {sink}, good sink → (Sink.flush sink).1 = .ok () ∧ good (Sink.flush sink).2
  publish : ∀ {sink}, good sink → (Sink.publish sink).1 = .ok () ∧ good (Sink.publish sink).2

theorem Reliable.stores (hr : Reliable good) (hg : good sink) {payload : Bytes}
    {answer : Except Condition Unit} (hs : Stores sink payload answer sink') :
    answer = .ok () ∧ good sink' := by
  obtain ⟨htaken, hgood⟩ := hr.write hg payload
  cases hs with
  | empty => exact ⟨rfl, hg⟩
  | full _ hw =>
    rw [hw] at hgood
    exact ⟨rfl, hgood⟩
  | short _ hn hw =>
    rw [hw] at htaken
    exact absurd (Except.ok.inj htaken) hn
  | failed _ hw =>
    rw [hw] at htaken
    cases htaken

theorem Reliable.commits (hr : Reliable good) (hg : good sink) {answer : Except HostError Unit}
    (hc : Commits sink answer sink') : answer = .ok () ∧ good sink' := by
  obtain ⟨hflush, hflushed⟩ := hr.flush hg
  cases hc with
  | unflushed hf =>
    rw [hf] at hflush
    cases hflush
  | flushed hf hp =>
    rw [hf] at hflushed
    have hpublish := hr.publish hflushed
    rwa [hp] at hpublish

theorem Reliable.recorded (hr : Reliable good) :
    Reliable fun recorded : Recorded σ => good recorded.sink where
  write hg payload := hr.write hg payload
  flush hg := hr.flush hg
  publish hg := hr.publish hg

end Sink

theorem MemorySink.reliable : Sink.Reliable fun sink : MemorySink =>
    sink.capacity = none ∧ sink.writeFailure = none ∧ sink.flushFailure = none ∧
      sink.publishFailure = none where
  write := by
    rintro sink ⟨hc, hw, hf, hp⟩ payload
    simp [Sink.write, write, write.accept, room, hc, hw, hf, hp]
  flush := by
    rintro sink ⟨hc, hw, hf, hp⟩
    simp [Sink.flush, answer, hc, hw, hf, hp]
  publish := by
    rintro sink ⟨hc, hw, hf, hp⟩
    simp [Sink.publish, answer, hc, hw, hf, hp]

namespace Delivery

def isSilence : Delivery → Bool
  | silence => true
  | _ => false

def silences (deliveries : List (Nat × Delivery)) : Nat :=
  deliveries.countP fun delivery => delivery.2.isSilence

/-- After so many chunks a sender falls silent, sends the next chunk, or repeats the latest
one, until the last chunk has arrived. -/
inductive Conforms (total : Nat) : Nat → List (Nat × Delivery) → Nat → Prop
  | stop (count : Nat) : Conforms total count [] count
  | silence {count now rest reached} (h : count < total)
      (hr : Conforms total count rest reached) :
      Conforms total count ((now, .silence) :: rest) reached
  | next {count now rest reached} (h : count < total)
      (hr : Conforms total (count + 1) rest reached) :
      Conforms total count ((now, .chunk count) :: rest) reached
  | again {count now rest reached} (h : count + 1 < total)
      (hr : Conforms total (count + 1) rest reached) :
      Conforms total (count + 1) ((now, .chunk count) :: rest) reached

/-- What a sender gets for its deliveries: the acknowledgement of each new chunk, and for
everything else the packet that it got last. -/
def replies (total count : Nat) (last : Bytes) : List (Nat × Delivery) → List Step
  | [] => []
  | (_, .chunk index) :: rest =>
    if index = count then
      let ack := Packet.encodeAck (UInt16.ofNat (count + 1))
      (if count + 1 = total then .hold ack else .send ack) :: replies total (count + 1) ack rest
    else .resync last :: replies total count last rest
  | (_, _) :: rest => .send last :: replies total count last rest

variable {total count index now : Nat} {last : Bytes} {rest : List (Nat × Delivery)}

theorem silences_silence : silences ((now, silence) :: rest) = silences rest + 1 := by
  simp [silences, isSilence]

theorem silences_chunk : silences ((now, chunk index) :: rest) = silences rest := by
  simp [silences, isSilence]

theorem replies_silence : replies total count last ((now, silence) :: rest) =
    .send last :: replies total count last rest := by
  simp [replies]

theorem replies_next : replies total count last ((now, chunk count) :: rest) =
    (if count + 1 = total then .hold (Packet.encodeAck (UInt16.ofNat (count + 1)))
      else .send (Packet.encodeAck (UInt16.ofNat (count + 1)))) ::
      replies total (count + 1) (Packet.encodeAck (UInt16.ofNat (count + 1))) rest := by
  simp [replies]

theorem replies_again (h : index ≠ count) :
    replies total count last ((now, chunk index) :: rest) =
      .resync last :: replies total count last rest := by
  simp [replies, h]

theorem Conforms.reached_le {reached : Nat} {deliveries : List (Nat × Delivery)}
    (h : Conforms total count deliveries reached) (hc : count ≤ total) : reached ≤ total := by
  induction h with
  | stop => exact hc
  | silence _ _ ih => exact ih hc
  | next h _ ih => exact ih h
  | again _ _ ih => exact ih hc

end Delivery

namespace Transfer

variable {σ : Type} [Sink σ] {good : σ → Prop} {fresh : σ} {t t' : Transfer σ} {file : Bytes}
  {size count spare now : Nat} {chunk : Bytes}

/-- A transfer that has the first chunks of a file, and may stay without an answer so often. -/
structure InStep (good : σ → Prop) (fresh : σ) (size : Nat) (file : Bytes) (count spare : Nat)
    (t : Transfer σ) : Prop where
  blockSize : t.blockSize = size
  ledger : t.Ledger fresh ((Bytes.chunks size file).take count)
  sound : good t.sink
  budget : t.timer.retries + spare ≤ t.timer.maxRetries
  awaiting : count < (Bytes.chunks size file).length →
    t.phase = .awaitingData (UInt16.ofNat (count + 1))
  holding : count = (Bytes.chunks size file).length → t.phase = .holding (UInt16.ofNat count)

theorem newBlock?_of_awaited (hr : Sink.Reliable good) (hg : good t.sink) {block : UInt16}
    (hp : t.phase = .awaitingData block) (hl : chunk.length ≤ t.blockSize) :
    t.newBlock? (.datagram (Packet.encodeData block chunk)) = some chunk := by
  obtain ⟨answer, sink, hs, hstore⟩ := t.store_stores chunk
  obtain ⟨rfl, -⟩ := hr.stores hg hs
  have hok : (t.store chunk).1.isOk = true :=
    congrArg (fun result => result.1.isOk) (hstore t.timer)
  simp [newBlock?, hp, Packet.decode_encodeData, hl, hok]

theorem InStep.silence (h : InStep good fresh size file count (spare + 1) t)
    (hc : count < (Bytes.chunks size file).length) (now : Nat) : ∃ t',
    t.apply now .timeout = (.send t.lastSent, t') ∧ t'.lastSent = t.lastSent ∧
      InStep good fresh size file count spare t' := by
  have hp := h.awaiting hc
  have hbudget := h.budget
  have hstep : (t.apply now .timeout).1 = .send t.lastSent :=
    resent_of_budget hp (by omega) now
  have hm := t.apply_moves now .timeout
  have hledger := h.ledger.move hm
  rw [newBlock?_timeout, Option.toList_none, List.append_nil] at hledger
  refine ⟨(t.apply now .timeout).2, Prod.ext hstep rfl, ?_⟩
  generalize (t.apply now .timeout).1 = step, (t.apply now .timeout).2 = t' at hm hstep hledger ⊢
  cases hm with
  | @resent _ _ _ retries timer hr =>
    obtain ⟨-, rfl⟩ := Prod.mk.inj hr
    refine ⟨rfl, h.blockSize, hledger, h.sound, ?_, h.awaiting, h.holding⟩
    have hcount : min (t.timer.retries + 1) RetryTimer.maxCount ≤ t.timer.retries + 1 :=
      Nat.min_le_left _ _
    simp only [RetryTimer.arm]
    omega
  | began hp' => simp [hp] at hp'
  | advanced _ hn => simp at hn
  | ignored | expired | resynced | refused | unstored | uncommitted | committed | repeated
  | finished => cases hstep

theorem InStep.again (h : InStep good fresh size file (count + 1) spare t)
    (hc : count + 1 < (Bytes.chunks size file).length) (now : Nat) : ∃ t',
    t.apply now ((Delivery.chunk count).event (Bytes.chunks size file)) =
      (.resync t.lastSent, t') ∧ t'.lastSent = t.lastSent ∧
      InStep good fresh size file (count + 1) spare t' := by
  have hprevious : UInt16.ofNat (count + 1 + 1) - 1 = UInt16.ofNat (count + 1) := by
    rw [UInt16.ofNat_add (count + 1) 1]
    exact UInt16.add_sub_cancel _ 1
  have hdecode := Packet.decode_encodeData (UInt16.ofNat (count + 1))
    ((Bytes.chunks size file).getD count [])
  simp only [Delivery.event]
  generalize Packet.encodeData (UInt16.ofNat (count + 1)) _ = bytes at hdecode ⊢
  rw [← hprevious] at hdecode
  have hstep := resynced_of_duplicate (h.awaiting hc) hdecode now
  have hm := t.apply_moves now (.datagram bytes)
  have hledger := h.ledger.move hm
  refine ⟨(t.apply now (.datagram bytes)).2, Prod.ext hstep rfl, ?_⟩
  generalize (t.apply now (.datagram bytes)).1 = step,
    (t.apply now (.datagram bytes)).2 = t' at hm hstep hledger ⊢
  cases hm with
  | resynced _ hn =>
    rw [hn, Option.toList_none, List.append_nil] at hledger
    exact ⟨rfl, h.blockSize, hledger, h.sound, h.budget, h.awaiting, h.holding⟩
  | began | ignored | resent | expired | refused | unstored | advanced | uncommitted | committed
  | repeated | finished => cases hstep

theorem InStep.next (hr : Sink.Reliable good) (hsize : 1 ≤ size)
    (h : InStep good fresh size file count spare t)
    (hlt : count < (Bytes.chunks size file).length) (now : Nat) : ∃ t',
    t.apply now ((Delivery.chunk count).event (Bytes.chunks size file)) =
      (if count + 1 = (Bytes.chunks size file).length then
          .hold (Packet.encodeAck (UInt16.ofNat (count + 1)))
        else .send (Packet.encodeAck (UInt16.ofNat (count + 1))), t') ∧
      t'.lastSent = Packet.encodeAck (UInt16.ofNat (count + 1)) ∧
      InStep good fresh size file (count + 1) spare t' := by
  obtain ⟨chunk, hc⟩ : ∃ chunk, (Bytes.chunks size file)[count]? = some chunk :=
    ⟨_, List.getElem?_eq_getElem hlt⟩
  have hlast := Bytes.length_chunk_lt_iff hsize hc
  have hfits : chunk.length ≤ size := by
    obtain ⟨-, rfl⟩ := Bytes.chunks_getElem? hc
    exact List.length_take_le _ _
  have hp := h.awaiting hlt
  have hn := newBlock?_of_awaited hr h.sound hp (h.blockSize ▸ hfits)
  have htaken : (Bytes.chunks size file).take (count + 1) =
      (Bytes.chunks size file).take count ++ [chunk] := by
    rw [List.take_add_one, hc, Option.toList_some]
  simp only [Delivery.event, List.getD_eq_getElem?_getD, hc, Option.getD_some]
  generalize Packet.encodeData (UInt16.ofNat (count + 1)) chunk = bytes at hn ⊢
  have hm := t.apply_moves now (.datagram bytes)
  have hledger := h.ledger.move hm
  rw [hn, Option.toList_some, ← htaken] at hledger
  generalize t.apply now (.datagram bytes) = answer at hm hledger ⊢
  obtain ⟨step, t'⟩ := answer
  refine ⟨t', ?_⟩
  have hbudget := h.budget
  cases hm with
  | advanced hp' hn' hfull hs =>
    obtain rfl := Option.some.inj (hn.symm.trans hn')
    obtain rfl := Phase.awaitingData.inj (hp.symm.trans hp')
    rw [h.blockSize] at hfull
    have hmore : ¬count + 1 = (Bytes.chunks size file).length := by omega
    refine ⟨by rw [if_neg hmore], rfl, h.blockSize, hledger, (hr.stores h.sound hs).2, hbudget,
      ?_, ?_⟩
    · intro _
      simp [UInt16.ofNat_add]
    · intro hall
      exact absurd hall hmore
  | committed hp' hn' hshort hs hcommit =>
    obtain rfl := Option.some.inj (hn.symm.trans hn')
    obtain rfl := Phase.awaitingData.inj (hp.symm.trans hp')
    rw [h.blockSize] at hshort
    have hall := hlast.mp hshort
    have hfilled := (hr.stores h.sound hs).2
    refine ⟨by rw [if_pos hall], rfl, h.blockSize, hledger, (hr.commits hfilled hcommit).2, ?_,
      ?_, ?_⟩
    · simp only [RetryTimer.arm, RetryTimer.resetRetries]
      omega
    · intro hmore
      omega
    · intro _
      rfl
  | uncommitted _ _ _ hs hcommit =>
    obtain ⟨hanswer, -⟩ := hr.commits (hr.stores h.sound hs).2 hcommit
    cases hanswer
  | began | resent | expired => contradiction
  | repeated hp' | finished hp' => simp [hp] at hp'
  | ignored _ _ hn' | resynced _ hn' | refused _ hn' | unstored _ hn' => simp [hn] at hn'

theorem run_deliver {chunks : List Bytes} {delivery : Delivery} {step : Step}
    (h : t.apply now (delivery.event chunks) = (step, t')) (rest : List (Nat × Delivery)) :
    t.run (deliveryEvents chunks ((now, delivery) :: rest)) =
      (step :: (t'.run (deliveryEvents chunks rest)).1,
        (t'.run (deliveryEvents chunks rest)).2) := by
  have hevents : deliveryEvents chunks ((now, delivery) :: rest) =
      (now, delivery.event chunks) :: deliveryEvents chunks rest := rfl
  rw [hevents, run_cons, h]

theorem InStep.run (hr : Sink.Reliable good) (hsize : 1 ≤ size)
    {deliveries : List (Nat × Delivery)} {reached : Nat}
    (hd : Delivery.Conforms (Bytes.chunks size file).length count deliveries reached)
    (h : InStep good fresh size file count spare t) (hs : Delivery.silences deliveries ≤ spare) :
    let result := t.run (deliveryEvents (Bytes.chunks size file) deliveries)
    result.1 =
        Delivery.replies (Bytes.chunks size file).length count t.lastSent deliveries ∧
      ∃ left, InStep good fresh size file reached left result.2 := by
  induction hd generalizing t spare with
  | stop => exact ⟨rfl, spare, h⟩
  | @silence count now rest reached hc _ ih =>
    obtain ⟨left, rfl, hleft⟩ : ∃ left, spare = left + 1 ∧ Delivery.silences rest ≤ left := by
      rw [Delivery.silences_silence] at hs
      exact ⟨spare - 1, by omega, by omega⟩
    obtain ⟨t', happly, hlast, h'⟩ := h.silence hc now
    obtain ⟨hsteps, hend⟩ := ih h' hleft
    rw [run_deliver happly rest]
    exact ⟨by rw [Delivery.replies_silence, hsteps, hlast], hend⟩
  | @next count now rest reached hc _ ih =>
    obtain ⟨t', happly, hlast, h'⟩ := h.next hr hsize hc now
    obtain ⟨hsteps, hend⟩ := ih h' (by rwa [Delivery.silences_chunk] at hs)
    rw [run_deliver happly rest]
    exact ⟨by rw [Delivery.replies_next, hsteps, hlast], hend⟩
  | @again count now rest reached hc _ ih =>
    obtain ⟨t', happly, hlast, h'⟩ := h.again hc now
    obtain ⟨hsteps, hend⟩ := ih h' (by rwa [Delivery.silences_chunk] at hs)
    have hold : count ≠ count + 1 := by omega
    rw [run_deliver happly rest]
    exact ⟨by rw [Delivery.replies_again hold, hsteps, hlast], hend⟩

theorem InStep.not_aborted (h : InStep good fresh size file count spare t)
    (hc : count ≤ (Bytes.chunks size file).length) : t.phase ≠ .aborted := by
  rcases Nat.lt_or_eq_of_le hc with hlt | he
  · simp [h.awaiting hlt]
  · simp [h.holding he]

theorem inStep_start (good : σ → Prop) (sink : σ) (hsink : good sink) (options : TransferOptions)
    (optionAck : Option Bytes) (maxRetries : Nat) (observed : Bool) (file : Bytes)
    (started : Nat) :
    InStep good sink options.blockSize file 0 maxRetries
      ((create sink options optionAck maxRetries observed).apply started .start).2 := by
  have hm := (create sink options optionAck maxRetries observed).apply_moves started .start
  have hledger := (ledger_create sink options optionAck maxRetries observed).move hm
  refine ⟨rfl, hledger, hsink, Nat.le_of_eq (Nat.zero_add _), fun _ => rfl, ?_⟩
  intro hnone
  have hsome : 0 ≠ (Bytes.chunks options.blockSize file).length := by
    rw [Bytes.length_chunks]
    exact (Nat.succ_ne_zero _).symm
  exact absurd hnone hsome

/-- A sender that keeps to the protocol, and falls silent no more often than may be, is served
until the whole file has arrived. -/
theorem run_serves_conforming_sender (hr : Sink.Reliable good) (sink : σ) (hsink : good sink)
    (options : TransferOptions) (hsize : 1 ≤ options.blockSize) (optionAck : Option Bytes)
    (maxRetries : Nat) (observed : Bool) (file : Bytes) (started : Nat)
    (deliveries : List (Nat × Delivery)) (reached : Nat) :
    let chunks := Bytes.chunks options.blockSize file
    let first := optionAck.getD (Packet.encodeAck 0)
    let begun := create ({ sink } : Recorded σ) options optionAck maxRetries observed
    let events := (started, .start) :: deliveryEvents chunks deliveries
    let t := (begun.run events).2
    Delivery.Conforms chunks.length 0 deliveries reached →
    Delivery.silences deliveries ≤ maxRetries →
    (begun.run events).1 = .send first :: Delivery.replies chunks.length 0 first deliveries ∧
    (∀ before after, events = before ++ after → (begun.run before).2.phase ≠ .aborted) ∧
    reached ≤ chunks.length ∧ t.blocksWritten = reached ∧
    t.sink.stored = (chunks.take reached).flatten ∧
    (reached < chunks.length → t.phase = .awaitingData (UInt16.ofNat (reached + 1))) ∧
    (reached = chunks.length →
      t.phase = .holding (UInt16.ofNat chunks.length) ∧ t.sink.stored = file ∧
      (∀ contents : Sink.Contents σ,
        contents.holds t.sink.sink = contents.holds sink ++ file) ∧
      ∃ writes, t.sink.calls = .publish (.ok ()) :: .flush (.ok ()) :: writes ∧
        ∀ call ∈ writes, call.isWrite = true) := by
  intro chunks first begun events t hd hsilences
  have hbegun := inStep_start (fun recorded : Recorded σ => good recorded.sink) { sink } hsink
    options optionAck maxRetries observed file started
  obtain ⟨hsteps, left, h⟩ := hbegun.run hr.recorded hsize hd hsilences
  have hreached : reached ≤ chunks.length := hd.reached_le (Nat.zero_le _)
  have hphase : t.phase ≠ .aborted := h.not_aborted hreached
  have hstored : t.sink.stored = (chunks.take reached).flatten :=
    h.ledger.holds hphase Recorded.contents
  have hblocks : t.blocksWritten = reached :=
    h.ledger.blocks.trans (List.length_take_of_le hreached)
  refine ⟨?_, ?_, hreached, hblocks, hstored, h.awaiting, ?_⟩
  · rw [run_cons]
    exact congrArg (Step.send first :: ·) hsteps
  · intro before after hevents haborted
    apply hphase
    have hrest := run_aborted haborted after
    simp only [t, hevents, run_append, hrest, haborted]
  · intro hall
    have hfile : (chunks.take reached).flatten = file := by
      rw [hall, List.take_length, Bytes.flatten_chunks hsize]
    have hheld : t.phase = .holding (UInt16.ofNat reached) := h.holding hall
    obtain ⟨full, last, -, -, hpublished⟩ := h.ledger.ended (.inl ⟨_, hheld⟩)
    obtain ⟨hfilled, hc⟩ := hpublished
    refine ⟨hall ▸ hheld, hstored.trans hfile, ?_, _, Recorded.calls_committed hc,
      Recorded.calls_filled hfilled⟩
    intro contents
    rw [← hfile]
    exact h.ledger.holds hphase (contentsRecorded contents)

/-- Two chunks with silence before each of them, and the first one twice. -/
def slowDeliveries : List (Nat × Delivery) :=
  [(1000, .silence), (1001, .chunk 0), (1002, .chunk 0), (2002, .silence), (2003, .chunk 1)]

theorem run_serves_slow_sender :
    let begun := create ({ sink := {} } : Recorded MemorySink)
      { blockSize := 2, interval := 1000 } none 2 false
    let chunks := Bytes.chunks 2 [7, 8, 9]
    let events := (0, .start) :: deliveryEvents chunks slowDeliveries
    Delivery.Conforms chunks.length 0 slowDeliveries 2 ∧
    Delivery.silences slowDeliveries ≤ 2 ∧
    (begun.run events).1 = [.send (Packet.encodeAck 0), .send (Packet.encodeAck 0),
      .send (Packet.encodeAck 1), .resync (Packet.encodeAck 1), .send (Packet.encodeAck 1),
      .hold (Packet.encodeAck 2)] ∧
    (begun.run events).2.phase = .holding 2 ∧ (begun.run events).2.sink.stored = [7, 8, 9] := by
  intro begun chunks events
  have hlength : chunks.length = 2 := rfl
  have hconforms : Delivery.Conforms chunks.length 0 slowDeliveries 2 := by
    rw [hlength]
    exact .silence (by decide) (.next (by decide) (.again (by decide) (.silence (by decide)
      (.next (by decide) (.stop 2)))))
  have hsilences : Delivery.silences slowDeliveries ≤ 2 := by decide
  obtain ⟨hsteps, -, -, -, -, -, hall⟩ := run_serves_conforming_sender MemorySink.reliable {}
    ⟨rfl, rfl, rfl, rfl⟩ { blockSize := 2, interval := 1000 } (by decide) none 2 false [7, 8, 9] 0
    slowDeliveries 2 hconforms hsilences
  obtain ⟨hphase, hstored, -⟩ := hall rfl
  exact ⟨hconforms, hsilences, hsteps, hphase, hstored⟩

end Transfer

end TftpReceiver
