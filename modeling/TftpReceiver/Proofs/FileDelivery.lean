import TftpReceiver.Proofs.Accounts
import TftpReceiver.Proofs.Packets

/-! A file that is sent in chunks over a network which loses, repeats and reorders them. -/

namespace TftpReceiver

/-- A file in chunks of one size, with a shorter one at the end, which may be empty. -/
def Bytes.chunks (size : Nat) (file : Bytes) : List Bytes :=
  (List.range (file.length / size + 1)).map fun index => (file.drop (index * size)).take size

namespace Bytes

variable {size : Nat} {file : Bytes}

theorem length_chunks : (chunks size file).length = file.length / size + 1 := by
  simp [chunks]

theorem flatten_take_chunks {count : Nat} (h : count ≤ (chunks size file).length) :
    ((chunks size file).take count).flatten = file.take (count * size) := by
  induction count with
  | zero => simp
  | succ count ih =>
    rw [List.take_add_one, List.flatten_append, ih (by omega)]
    have hc : count < file.length / size + 1 := by rw [length_chunks] at h; omega
    simp [chunks, hc, Nat.succ_mul, List.take_add]

theorem flatten_chunks (hsize : 1 ≤ size) : (chunks size file).flatten = file := by
  have h := @flatten_take_chunks size file _ (Nat.le_refl _)
  have hlt := Nat.lt_div_mul_add (a := file.length) (b := size) (by omega)
  rw [List.take_length, length_chunks, Nat.succ_mul, List.take_of_length_le (by omega)] at h
  exact h

theorem chunks_getElem? {index : Nat} {chunk : Bytes}
    (h : (chunks size file)[index]? = some chunk) :
    index ≤ file.length / size ∧ chunk = (file.drop (index * size)).take size := by
  obtain ⟨hlt, he⟩ := List.getElem?_eq_some_iff.mp h
  rw [length_chunks] at hlt
  simp only [chunks, List.getElem_map, List.getElem_range] at he
  exact ⟨by omega, he.symm⟩

theorem length_chunk_lt_iff (hsize : 1 ≤ size) {index : Nat} {chunk : Bytes}
    (h : (chunks size file)[index]? = some chunk) :
    chunk.length < size ↔ index + 1 = (chunks size file).length := by
  obtain ⟨hle, rfl⟩ := chunks_getElem? h
  rw [length_chunks, List.length_take, List.length_drop]
  have hlt := Nat.lt_div_mul_add (a := file.length) (b := size) (by omega)
  rcases Nat.lt_or_eq_of_le hle with hl | rfl
  · have hnext : (index + 1) * size ≤ file.length :=
      Nat.le_trans (Nat.mul_le_mul_right size hl) (Nat.div_mul_le_self file.length size)
    rw [Nat.succ_mul] at hnext
    omega
  · omega

end Bytes

/-- What an unreliable network brings to a receiver: nothing for a while, something that is
no block, or a chunk of a file, which goes by its number, counted from one. -/
inductive Delivery
  | silence
  | noise (bytes : Bytes)
  | chunk (index : Nat)

namespace Delivery

def event (chunks : List Bytes) : Delivery → TransferEvent
  | silence => .timeout
  | noise bytes => .datagram bytes
  | chunk index =>
    .datagram (Packet.encodeData (UInt16.ofNat (index + 1)) (chunks.getD index []))

def Possible (chunks : List Bytes) : Delivery → Prop
  | silence => True
  | noise bytes => ∀ block payload, Packet.decode bytes ≠ .ok (.data block payload)
  | chunk index => index < chunks.length

/-- While a chunk is awaited, none comes a whole round of block numbers before or after it. -/
def Near {σ : Type} (t : Transfer σ) : Delivery → Prop
  | chunk index => ∀ block, t.phase = .awaitingData block →
    index ≤ t.blocksWritten + 65535 ∧ t.blocksWritten ≤ index + 65535
  | _ => True

variable {σ : Type} [Sink σ]

def AllNear (chunks : List Bytes) : Transfer σ → List (Nat × Delivery) → Prop
  | _, [] => True
  | t, (now, delivery) :: rest =>
    delivery.Near t ∧ AllNear chunks (t.apply now (delivery.event chunks)).2 rest

end Delivery

namespace Transfer

variable {σ : Type} [Sink σ] {fresh : σ} {t : Transfer σ} {taken : List Bytes}

/-- The accepted payloads are the first chunks of a file, in order. -/
def InOrder (chunks taken : List Bytes) : Prop := taken = chunks.take taken.length

theorem InOrder.length_le {chunks : List Bytes} (h : InOrder chunks taken) :
    taken.length ≤ chunks.length := by
  have hl := congrArg List.length h
  rw [List.length_take] at hl
  omega

theorem InOrder.last {chunks full : List Bytes} {last : Bytes}
    (h : InOrder chunks (full ++ [last])) : chunks[full.length]? = some last := by
  have hl := congrArg (·[full.length]?) h
  simpa using hl.symm

theorem InOrder.snoc {chunks : List Bytes} {chunk : Bytes} (h : InOrder chunks taken)
    (hc : chunks[taken.length]? = some chunk) : InOrder chunks (taken ++ [chunk]) := by
  unfold InOrder
  rw [List.length_append, List.length_singleton, List.take_add_one, hc, ← h]
  rfl

theorem InOrder.length_lt {file : Bytes} {size : Nat} (hsize : 1 ≤ size)
    (h : InOrder (Bytes.chunks size file) taken)
    (hfull : ∀ payload ∈ taken, payload.length = size) :
    taken.length < (Bytes.chunks size file).length := by
  rcases Nat.lt_or_eq_of_le h.length_le with hlt | he
  · exact hlt
  · have hall : taken = Bytes.chunks size file := by
      have ho := h
      unfold InOrder at ho
      rwa [he, List.take_length] at ho
    have hlast := List.getElem?_eq_getElem (l := Bytes.chunks size file)
      (i := file.length / size) (by rw [Bytes.length_chunks]; omega)
    have hshort := (Bytes.length_chunk_lt_iff hsize hlast).mpr Bytes.length_chunks.symm
    rw [hall] at hfull
    have hlong := hfull _ (List.mem_of_getElem? hlast)
    omega

variable {file : Bytes}

/-- A delivery that is accepted as a new block brings the chunk that is next in the file. -/
theorem Ledger.next_chunk {delivery : Delivery} {payload : Bytes} (hsize : 1 ≤ t.blockSize)
    (h : t.Ledger fresh taken) (ho : InOrder (Bytes.chunks t.blockSize file) taken)
    (hd : delivery.Possible (Bytes.chunks t.blockSize file))
    (hnear : (Bytes.chunks t.blockSize file).length ≤ 65536 ∨ delivery.Near t)
    (hn : t.newBlock? (delivery.event (Bytes.chunks t.blockSize file)) = some payload) :
    InOrder (Bytes.chunks t.blockSize file) (taken ++ [payload]) := by
  obtain ⟨expected, bytes, hp, he, hdecode, -⟩ := newBlock?_eq_some hn
  cases delivery with
  | silence => cases he
  | noise noise =>
    obtain rfl := TransferEvent.datagram.inj he
    exact absurd hdecode (hd expected payload)
  | chunk index =>
    obtain rfl := TransferEvent.datagram.inj he
    rw [Packet.decode_encodeData] at hdecode
    obtain ⟨rfl, rfl⟩ := Packet.data.inj (Except.ok.inj hdecode)
    obtain ⟨hblock, hfull, -⟩ := h.stands.of_awaitingData hp
    have hlt : taken.length < _ := ho.length_lt hsize hfull
    have hindex : index < (Bytes.chunks t.blockSize file).length := hd
    have hround : index ≤ taken.length + 65535 ∧ taken.length ≤ index + 65535 := by
      rcases hnear with hfew | hnear
      · omega
      · have := hnear _ hp
        rwa [h.blocks] at this
    have hnumber : (index + 1) % 65536 = (taken.length + 1) % 65536 := by
      simpa [UInt16.toNat_ofNat'] using congrArg UInt16.toNat hblock
    obtain rfl : index = taken.length := by omega
    exact ho.snoc (by simp [hindex])

def deliveryEvents (chunks : List Bytes) (deliveries : List (Nat × Delivery)) :
    List (Nat × TransferEvent) :=
  deliveries.map fun (now, delivery) => (now, delivery.event chunks)

theorem Ledger.deliver {size : Nat} (hsize : 1 ≤ size) (deliveries : List (Nat × Delivery))
    (hb : t.blockSize = size) (h : t.Ledger fresh taken)
    (ho : InOrder (Bytes.chunks size file) taken)
    (hd : ∀ delivery ∈ deliveries, delivery.2.Possible (Bytes.chunks size file))
    (hnear : (Bytes.chunks size file).length ≤ 65536 ∨
      Delivery.AllNear (Bytes.chunks size file) t deliveries) :
    ∃ taken', (t.run (deliveryEvents (Bytes.chunks size file) deliveries)).2.Ledger fresh taken' ∧
      InOrder (Bytes.chunks size file) taken' := by
  induction deliveries generalizing t taken with
  | nil => exact ⟨taken, h, ho⟩
  | cons head rest ih =>
    obtain ⟨now, delivery⟩ := head
    have hm := t.apply_moves now (delivery.event (Bytes.chunks size file))
    have ho' : InOrder (Bytes.chunks size file)
        (taken ++ (t.newBlock? (delivery.event (Bytes.chunks size file))).toList) := by
      cases hn : t.newBlock? (delivery.event (Bytes.chunks size file)) with
      | none => simpa using ho
      | some payload =>
        subst hb
        exact h.next_chunk hsize ho (hd _ List.mem_cons_self) (hnear.imp_right And.left) hn
    exact ih (hm.constants.1.trans hb) (h.move hm) ho'
      (fun d hmem => hd d (List.mem_cons_of_mem _ hmem)) (hnear.imp_right And.right)

/-- What a view shows of a sink, it shows of a recorded one. -/
def contentsRecorded (contents : Sink.Contents σ) : Sink.Contents (Recorded σ) where
  holds recorded := contents.holds recorded.sink
  holds_write h := by
    obtain ⟨hanswer, rfl⟩ := Prod.mk.inj h
    exact contents.holds_write (Prod.ext hanswer rfl)
  holds_flush h := by
    obtain ⟨hanswer, rfl⟩ := Prod.mk.inj h
    exact contents.holds_flush (Prod.ext hanswer rfl)
  holds_publish h := by
    obtain ⟨hanswer, rfl⟩ := Prod.mk.inj h
    exact contents.holds_publish (Prod.ext hanswer rfl)

/-- A transfer that was not aborted has its sink hold the accepted payloads, and no more. -/
theorem Ledger.holds (h : t.Ledger fresh taken) (hp : t.phase ≠ .aborted)
    (contents : Sink.Contents σ) :
    contents.holds t.sink = contents.holds fresh ++ taken.flatten := by
  have hs := h.stands
  cases hs with
  | waiting _ hs => simp [hs]
  | awaiting _ _ hs => exact hs.holds contents
  | holding _ _ _ hs | done _ _ _ hs => exact hs.holds contents
  | aborted _ _ hp' => exact absurd hp' hp

theorem Ledger.ended (h : t.Ledger fresh taken)
    (hp : (∃ block, t.phase = .holding block) ∨ t.phase = .done) :
    ∃ full last, taken = full ++ [last] ∧ last.length < t.blockSize ∧
      Sink.Published fresh (full ++ [last]) t.sink := by
  rcases hp with ⟨block, hp⟩ | hp
  · obtain ⟨full, last, rfl, -, -, hlast, hs, -⟩ := h.stands.of_holding hp
    exact ⟨full, last, rfl, hlast, hs⟩
  · obtain ⟨full, last, rfl, -, hlast, hs⟩ := h.stands.of_done hp
    exact ⟨full, last, rfl, hlast, hs⟩

theorem InOrder.flatten_length_le {size : Nat} (hsize : 1 ≤ size)
    (h : InOrder (Bytes.chunks size file) taken) : taken.flatten.length ≤ file.length := by
  have hf : taken.flatten <+: (Bytes.chunks size file).flatten := by
    rw [h]
    conv => rhs; rw [← List.take_append_drop taken.length (Bytes.chunks size file)]
    rw [List.flatten_append]
    exact List.prefix_append _ _
  rw [Bytes.flatten_chunks hsize] at hf
  exact hf.length_le

/-- Over a network that loses, repeats and reorders its chunks a file arrives as it is, or not
at all. No delivery may be a whole round of block numbers away from the awaited one, which
is never so in a file of at most one round. -/
theorem run_delivers_file (sink : σ) (options : TransferOptions) (hsize : 1 ≤ options.blockSize)
    (optionAck : Option Bytes) (maxRetries : Nat) (observed : Bool) (file : Bytes)
    (started : Nat) (deliveries : List (Nat × Delivery)) :
    let chunks := Bytes.chunks options.blockSize file
    let begun := ((create ({ sink } : Recorded σ) options optionAck maxRetries observed).apply
      started .start).2
    let t := (begun.run (deliveryEvents chunks deliveries)).2
    (∀ delivery ∈ deliveries, delivery.2.Possible chunks) →
    (chunks.length ≤ 65536 ∨ Delivery.AllNear chunks begun deliveries) →
    (t.phase ≠ .aborted → t.sink.stored = (chunks.take t.blocksWritten).flatten ∧
      ∀ contents : Sink.Contents σ,
        contents.holds t.sink.sink = contents.holds sink ++ t.sink.stored) ∧
    ((∃ block, t.phase = .holding block) ∨ t.phase = .done →
      t.blocksWritten = chunks.length ∧ t.sink.stored = file ∧
        t.sink.calls.head? = some (.publish (.ok ()))) ∧
    t.blocksWritten ≤ chunks.length ∧ t.bytesWritten ≤ file.length := by
  intro chunks begun t hd hnear
  have hbegun : begun.Ledger { sink } [] :=
    (ledger_create _ options optionAck maxRetries observed).move (apply_moves _ started .start)
  have hb : begun.blockSize = options.blockSize := (apply_moves _ started .start).constants.1
  obtain ⟨taken, h, ho⟩ := hbegun.deliver hsize deliveries hb (by rfl) hd hnear
  have hb' : t.blockSize = options.blockSize := (begun.run_constants _).1.trans hb
  have hstored (hp : t.phase ≠ .aborted) : t.sink.stored = taken.flatten :=
    h.holds hp Recorded.contents
  refine ⟨fun hp => ⟨?_, fun contents => ?_⟩, fun hp => ?_, ?_, ?_⟩
  · rw [hstored hp, h.blocks, ← ho]
  · rw [hstored hp]
    exact h.holds hp (contentsRecorded contents)
  · obtain ⟨full, last, rfl, hlast, hs⟩ := h.ended hp
    have hcount : full.length + 1 = chunks.length :=
      (Bytes.length_chunk_lt_iff hsize ho.last).mp (hb' ▸ hlast)
    have hall : full ++ [last] = chunks := by
      rw [ho, List.length_append, List.length_singleton, hcount, List.take_length]
    have hp' : t.phase ≠ .aborted := by
      rcases hp with ⟨block, hp⟩ | hp <;> simp [hp]
    refine ⟨?_, ?_, Recorded.calls_published hs⟩
    · rw [h.blocks, hall]
    · rw [hstored hp', hall, Bytes.flatten_chunks hsize]
  · rw [h.blocks]
    exact ho.length_le
  · rw [h.bytes]
    exact ho.flatten_length_le hsize

/-- A file in two chunks, with both of them repeated, a silence, and a stray datagram. -/
def lossyDeliveries : List (Nat × Delivery) :=
  [(1, .chunk 0), (2, .chunk 0), (1002, .silence), (1003, .chunk 1), (1004, .chunk 0),
    (1005, .noise [0, 4, 0, 9]), (1006, .chunk 1), (2006, .silence)]

theorem run_delivers_file_in_two_chunks :
    let chunks := Bytes.chunks 2 [7, 8, 9]
    let begun := ((create ({ sink := {} } : Recorded MemorySink)
      { blockSize := 2, interval := 1000 } none 5 false).apply 0 .start).2
    let t := (begun.run (deliveryEvents chunks lossyDeliveries)).2
    (∀ delivery ∈ lossyDeliveries, delivery.2.Possible chunks) ∧
      (chunks.length ≤ 65536 ∨ Delivery.AllNear chunks begun lossyDeliveries) ∧
      t.phase = .done ∧ t.blocksWritten = 2 ∧ t.sink.stored = [7, 8, 9] := by
  intro chunks begun t
  have hpossible : ∀ delivery ∈ lossyDeliveries, delivery.2.Possible chunks := by
    have hchunks : chunks.length = 2 := rfl
    have hnoise : Packet.decode [0, 4, 0, 9] = .ok (.ack 9) := rfl
    simp [lossyDeliveries, Delivery.Possible, hchunks, hnoise]
  have hfew : chunks.length ≤ 65536 ∨ Delivery.AllNear chunks begun lossyDeliveries :=
    .inl (by decide)
  have hphase : t.phase = .done := rfl
  obtain ⟨-, hended, -⟩ := run_delivers_file ({} : MemorySink)
    { blockSize := 2, interval := 1000 } (by decide) none 5 false [7, 8, 9] 0 lossyDeliveries
    hpossible hfew
  obtain ⟨hblocks, hstored, -⟩ := hended (.inr hphase)
  exact ⟨hpossible, hfew, hphase, hblocks, hstored⟩

end Transfer

end TftpReceiver
