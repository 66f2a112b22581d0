import Mathlib.Data.List.Forall2
import TftpReceiver.Proofs.Accounts
import TftpReceiver.Proofs.Packets

/-! Datagrams are cut to the room that a receiver has for them. A transfer does with the part what
it would have done with the whole: the room is one byte more than the largest block, so that an
oversized block is still too long when it was cut. -/

namespace TftpReceiver

namespace Packet

/-- How a datagram is read, and how it is read with `room` bytes left behind the header. -/
inductive Cut (room : Nat) : Except Malformed Packet → Except Malformed Packet → Prop
  | unchanged (reading : Except Malformed Packet) : Cut room reading reading
  | payload (block : UInt16) (payload : Bytes) :
    Cut room (.ok (.data block payload)) (.ok (.data block (payload.take room)))
  | text (code : UInt16) (whole part : String) :
    Cut room (.ok (.error code whole)) (.ok (.error code part))

section Take

variable (value block : UInt16) (rest payload : Bytes) (room : Nat)

theorem take_ofWord_append :
    (Bytes.ofWord value ++ rest).take (2 + room) = Bytes.ofWord value ++ rest.take room :=
  @List.take_length_add_append _ (Bytes.ofWord value) rest room

theorem take_encodeAck_append :
    (encodeAck block ++ rest).take (headerSize + room) = encodeAck block ++ rest.take room :=
  @List.take_length_add_append _ (encodeAck block) rest room

theorem take_encodeData :
    (encodeData block payload).take (headerSize + room) =
      encodeData block (payload.take room) :=
  @List.take_length_add_append _ (Bytes.ofWord Opcode.data.word ++ Bytes.ofWord block) payload room

end Take

theorem decode_take (bytes : Bytes) (room : Nat) :
    Cut room (decode bytes) (decode (bytes.take (headerSize + room))) := by
  have hroom : headerSize + room = 2 + (2 + room) := Nat.add_assoc 2 2 room
  have hwhole : bytes.length ≤ headerSize + room →
      Cut room (decode bytes) (decode (bytes.take (headerSize + room))) := by
    intro h
    rw [List.take_of_length_le h]
    exact .unchanged _
  have hreads := decode_reads bytes
  generalize decode bytes = reading at hreads hwhole
  cases hreads with
  | short h => exact hwhole (by omega)
  | unnumbered _ h => exact hwhole (by rw [length_ofWord_append]; omega)
  | unknown h body =>
    rw [hroom, take_ofWord_append, decode_of_unknown h]
    exact .unchanged _
  | request direction body =>
    rw [hroom, take_ofWord_append, decode_request_append]
    exact .unchanged _
  | optionAck body =>
    rw [hroom, take_ofWord_append, decode_optionAck_append]
    exact .unchanged _
  | data block payload =>
    rw [take_encodeData, decode_encodeData]
    exact .payload block payload
  | ack block rest =>
    rw [take_encodeAck_append, decode_encodeAck_append]
    exact .unchanged _
  | error code text =>
    rw [hroom, take_ofWord_append, take_ofWord_append, decode_error_append]
    exact .text code _ _

/-- The header, a block of the largest size and one byte more. -/
theorem receiveLimit_eq : receiveLimit = headerSize + (maxBlockSize + 1) := rfl

end Packet

/-- Steps that differ at most in the text of an error that the peer sent. -/
inductive Step.SameButText : Step → Step → Prop
  | same (step : Step) : SameButText step step
  | text (code : UInt16) (whole part : String) :
    SameButText (.abort (.peer code whole)) (.abort (.peer code part))

theorem Step.SameButText.eq_of_refused {condition : Condition} {step : Step}
    (h : Step.SameButText (.abort (.refused condition)) step) :
    step = .abort (.refused condition) := by
  cases h
  rfl

/-- The event as it arrives when a datagram is cut to the room that there is for one. -/
def TransferEvent.cut : TransferEvent → TransferEvent
  | datagram bytes => .datagram (bytes.take Packet.receiveLimit)
  | start => .start
  | timeout => .timeout

namespace Transfer

variable {σ : Type} [Sink σ] {t : Transfer σ} {room : Nat} {bytes part : Bytes}

theorem accept_long {payload : Bytes} (h : t.blockSize < payload.length) (now : Nat)
    (block : UInt16) : t.accept now block payload = t.refuse .illegalOperation := by
  rw [accept, if_pos h]

theorem accept_take (hsize : t.blockSize < room) (now : Nat) (block : UInt16) (payload : Bytes) :
    t.accept now block (payload.take room) = t.accept now block payload := by
  by_cases hfits : payload.length ≤ room
  · rw [List.take_of_length_le hfits]
  · -- What is left is longer than a block still, so both are refused.
    have hpart : (payload.take room).length = room := List.length_take_of_le (by omega)
    rw [accept_long (by omega), accept_long (by omega)]

theorem onAwaited_cut (hsize : t.blockSize < room)
    (h : Packet.Cut room (Packet.decode bytes) (Packet.decode part)) (now : Nat)
    (expected : UInt16) :
    (t.onAwaited now expected bytes).1.SameButText (t.onAwaited now expected part).1 ∧
      (t.onAwaited now expected part).2 = (t.onAwaited now expected bytes).2 := by
  simp only [onAwaited]
  generalize Packet.decode bytes = whole at h
  generalize Packet.decode part = reading at h
  cases h with
  | unchanged => exact ⟨.same _, rfl⟩
  | payload block payload =>
    simp only [accept_take hsize, and_true]
    exact .same _
  | text code whole part => exact ⟨.text code whole part, rfl⟩

omit [Sink σ] in
/-- A held transfer reads no payload and no text. -/
theorem onHeld_cut (h : Packet.Cut room (Packet.decode bytes) (Packet.decode part)) (now : Nat)
    (final : UInt16) : t.onHeld now final part = t.onHeld now final bytes := by
  simp only [onHeld]
  generalize Packet.decode bytes = whole at h
  generalize Packet.decode part = reading at h
  cases h <;> rfl

theorem apply_cut (hsize : t.blockSize ≤ Packet.maxBlockSize) (now : Nat) (event : TransferEvent) :
    (t.apply now event).1.SameButText (t.apply now event.cut).1 ∧
      (t.apply now event.cut).2 = (t.apply now event).2 := by
  cases event with
  | start | timeout => exact ⟨.same _, rfl⟩
  | datagram bytes =>
    have hcut := Packet.decode_take bytes (Packet.maxBlockSize + 1)
    rw [← Packet.receiveLimit_eq] at hcut
    cases hp : t.phase with
    | awaitingData block =>
      have hsize' : { t with timer := t.timer.cancel }.blockSize < Packet.maxBlockSize + 1 :=
        Nat.lt_succ_of_le hsize
      rw [TransferEvent.cut, apply_awaiting hp, apply_awaiting hp]
      exact onAwaited_cut hsize' hcut now block
    | holding block =>
      rw [TransferEvent.cut, apply_holding hp, apply_holding hp, onHeld_cut hcut]
      exact ⟨.same _, rfl⟩
    | awaitingStart | done | aborted =>
      simp only [TransferEvent.cut, apply, onDatagram, hp, and_true]
      exact .same _

theorem run_cut (hsize : t.blockSize ≤ Packet.maxBlockSize) (events : List (Nat × TransferEvent)) :
    List.Forall₂ Step.SameButText (t.run events).1
        (t.run (events.map (Prod.map id TransferEvent.cut))).1 ∧
      (t.run (events.map (Prod.map id TransferEvent.cut))).2 = (t.run events).2 := by
  induction events generalizing t with
  | nil => exact ⟨.nil, rfl⟩
  | cons head rest ih =>
    obtain ⟨now, event⟩ := head
    obtain ⟨hstep, hnext⟩ := apply_cut hsize now event
    have hkept : (t.apply now event).2.blockSize ≤ Packet.maxBlockSize := by
      rwa [(t.apply_moves now event).constants.1]
    obtain ⟨hsteps, hlast⟩ := ih hkept
    simp only [List.map_cons, Prod.map, id_eq, run_cons, hnext]
    exact ⟨.cons hstep hsteps, hlast⟩

theorem apply_oversized {block : UInt16} {payload : Bytes} (hp : t.phase = .awaitingData block)
    (hd : Packet.decode bytes = .ok (.data block payload)) (hlong : t.blockSize < payload.length)
    (now : Nat) :
    (t.apply now (.datagram bytes)).1 = .abort (.refused (.protocol .illegalOperation)) := by
  have hlong' : { t with timer := t.timer.cancel }.blockSize < payload.length := hlong
  rw [apply_awaiting hp, onAwaited, hd]
  simp only [if_true, accept_long hlong', refuse, abort]

/-- Of a block that is not awaited nothing but the number is read. -/
theorem apply_other_block {block : UInt16} (hp : t.phase ≠ .awaitingData block) (now : Nat)
    (payload other : Bytes) :
    t.apply now (.datagram (Packet.encodeData block payload)) =
      t.apply now (.datagram (Packet.encodeData block other)) := by
  cases hphase : t.phase with
  | awaitingData expected =>
    have hne : block ≠ expected := by
      rintro rfl
      exact hp hphase
    simp only [apply_awaiting hphase, onAwaited, Packet.decode_encodeData, if_neg hne]
  | holding final => simp only [apply_holding hphase, onHeld, Packet.decode_encodeData]
  | awaitingStart | done | aborted => simp only [apply, onDatagram, hphase]

/-- What a transfer makes of a datagram, whether all of it arrives or the part that there is room
for. -/
structure ReadsCut (t : Transfer σ) (now : Nat) (bytes : Bytes) : Prop where
  steps : (t.apply now (.datagram bytes)).1.SameButText
    (t.apply now (.datagram (bytes.take Packet.receiveLimit))).1
  after : (t.apply now (.datagram (bytes.take Packet.receiveLimit))).2 =
    (t.apply now (.datagram bytes)).2
  uncut : ∀ block payload, Packet.decode bytes = .ok (.data block payload) →
    payload.length ≤ t.blockSize → bytes.take Packet.receiveLimit = bytes
  oversized : ∀ block payload, Packet.decode bytes = .ok (.data block payload) →
    t.phase = .awaitingData block → t.blockSize < payload.length →
      (t.apply now (.datagram bytes)).1 = .abort (.refused (.protocol .illegalOperation)) ∧
        (t.apply now (.datagram (bytes.take Packet.receiveLimit))).1 =
          .abort (.refused (.protocol .illegalOperation))
  /-- A block that is not awaited is answered by its number alone. -/
  byNumber : ∀ block payload other, Packet.decode bytes = .ok (.data block payload) →
    t.phase ≠ .awaitingData block →
      t.apply now (.datagram bytes) = t.apply now (.datagram (Packet.encodeData block other)) ∧
        t.apply now (.datagram (bytes.take Packet.receiveLimit)) = t.apply now (.datagram bytes)

theorem readsCut_of_blockSize (hsize : t.blockSize ≤ Packet.maxBlockSize) (now : Nat)
    (bytes : Bytes) : t.ReadsCut now bytes := by
  obtain ⟨hsteps, hafter⟩ := apply_cut hsize now (.datagram bytes)
  refine ⟨hsteps, hafter, ?_, ?_, ?_⟩
  · intro block payload hd hfits
    obtain rfl := Packet.decode_eq_data_iff.mp hd
    have hroom : payload.length ≤ Packet.maxBlockSize + 1 := by omega
    rw [Packet.receiveLimit_eq, Packet.take_encodeData, List.take_of_length_le hroom]
  · intro block payload hd hp hlong
    have hwhole := apply_oversized hp hd hlong now
    rw [hwhole] at hsteps
    exact ⟨hwhole, hsteps.eq_of_refused⟩
  · intro block payload other hd hp
    obtain rfl := Packet.decode_eq_data_iff.mp hd
    rw [Packet.receiveLimit_eq, Packet.take_encodeData]
    exact ⟨apply_other_block hp now _ _, apply_other_block hp now _ _⟩

/-- A transfer does with a datagram that was cut what it does with the whole one, at any time and
for the rest of its life. A block that is awaited and too long is refused either way, and a block
that fits is never cut. -/
theorem run_reads_cut (sink : σ) (options : TransferOptions) (hsize : options.blockSize ≤ 65464)
    (optionAck : Option Bytes) (maxRetries : Nat) (observed : Bool)
    (events : List (Nat × TransferEvent)) :
    let t := ((create ({ sink } : Recorded σ) options optionAck maxRetries observed).run events).2
    Packet.receiveLimit = 65469 ∧ t.blockSize = options.blockSize ∧
      (∀ now bytes, t.ReadsCut now bytes) ∧
      ∀ later, List.Forall₂ Step.SameButText (t.run later).1
          (t.run (later.map (Prod.map id TransferEvent.cut))).1 ∧
        (t.run (later.map (Prod.map id TransferEvent.cut))).2 = (t.run later).2 := by
  intro t
  have hblock : t.blockSize = options.blockSize := (run_constants _ events).1
  have ht : t.blockSize ≤ Packet.maxBlockSize := hblock ▸ hsize
  exact ⟨rfl, hblock, readsCut_of_blockSize ht, run_cut ht⟩

/-- There is no room for the end of a block of 70000 bytes. -/
theorem run_reads_cut_oversized :
    let t := ((create ({ sink := {} } : Recorded MemorySink) { blockSize := 8, interval := 1000 }
      none 5 false).run [(0, .start)]).2
    let bytes := Packet.encodeData 1 (List.replicate 70000 7)
    (8 ≤ 65464 ∧ t.phase = .awaitingData 1) ∧ bytes.length = 70004 ∧ t.ReadsCut 1 bytes ∧
      (t.apply 1 (.datagram bytes)).1 = .abort (.refused (.protocol .illegalOperation)) ∧
      (t.apply 1 (.datagram (bytes.take 65469))).1 =
        .abort (.refused (.protocol .illegalOperation)) := by
  intro t bytes
  have hsize : 8 ≤ 65464 := by decide
  have hrun := run_reads_cut ({} : MemorySink) { blockSize := 8, interval := 1000 } hsize none 5
    false [(0, .start)]
  have hcut := hrun.2.2.1 1 bytes
  have hd : Packet.decode bytes = .ok (.data 1 (List.replicate 70000 7)) :=
    Packet.decode_encodeData 1 _
  have hpayload : (List.replicate 70000 (7 : UInt8)).length = 70000 := List.length_replicate
  have hlength : bytes.length = 70004 := by
    rw [Packet.length_encodeData, hpayload]
    rfl
  have hlong : t.blockSize < (List.replicate 70000 (7 : UInt8)).length := by
    rw [hpayload]
    exact (by decide : 8 < 70000)
  exact ⟨⟨hsize, rfl⟩, hlength, hcut, hcut.oversized 1 _ hd rfl hlong⟩

def fullBlockEvents : List (Nat × TransferEvent) :=
  [(0, .start), (1, .datagram (Packet.encodeData 1 [1, 2, 3, 4, 5, 6, 7, 8]))]

/-- A packet that is too long is not refused when it repeats the last block. -/
theorem run_resyncs_oversized_duplicate :
    let t := ((create ({ sink := {} } : Recorded MemorySink) { blockSize := 8, interval := 1000 }
      none 5 false).run fullBlockEvents).2
    (t.apply 2 (.datagram (Packet.encodeData 1 (List.replicate 9 7)))).1 =
        .resync (Packet.encodeAck 1) ∧
      ¬∀ now bytes block payload, Packet.decode bytes = .ok (.data block payload) →
        t.blockSize < payload.length →
          (t.apply now (.datagram bytes)).1 = .abort (.refused (.protocol .illegalOperation)) := by
  intro t
  have hresync : (t.apply 2 (.datagram (Packet.encodeData 1 (List.replicate 9 7)))).1 =
      .resync (Packet.encodeAck 1) := by decide +kernel
  refine ⟨hresync, fun h => ?_⟩
  have hrefused := h 2 _ 1 _ (Packet.decode_encodeData 1 (List.replicate 9 7)) (by decide +kernel)
  rw [hresync] at hrefused
  cases hrefused

end Transfer

end TftpReceiver
