import TftpReceiver.Proofs.TransferMoves

/-! The accounts of a transfer: how its phase, its counters, the packet it sent last and
its sink follow from the blocks it has accepted, whatever the peer and the sink do. -/

namespace TftpReceiver

namespace Transfer

variable {σ : Type} [Sink σ]

/-- The packet that answers for a number of stored blocks. -/
def answer (t : Transfer σ) (blocks : Nat) : Bytes :=
  if blocks = 0 then t.firstPacket else Packet.encodeAck (UInt16.ofNat blocks)

/-- Where a transfer stands after the payloads it has accepted. -/
inductive Stands (fresh : σ) (t : Transfer σ) : List Bytes → Prop
  | waiting (hp : t.phase = .awaitingStart) (hs : t.sink = fresh)
      (hl : t.lastSent = t.answer 0) : Stands fresh t []
  | awaiting {taken : List Bytes} (hp : t.phase = .awaitingData (UInt16.ofNat (taken.length + 1)))
      (hfull : ∀ payload ∈ taken, payload.length = t.blockSize)
      (hs : Sink.Filled fresh taken t.sink) (hl : t.lastSent = t.answer taken.length) :
      Stands fresh t taken
  | holding {full : List Bytes} {last : Bytes}
      (hp : t.phase = .holding (UInt16.ofNat (full.length + 1)))
      (hfull : ∀ payload ∈ full, payload.length = t.blockSize)
      (hlast : last.length < t.blockSize) (hs : Sink.Published fresh (full ++ [last]) t.sink)
      (hl : t.lastSent = t.answer (full.length + 1)) : Stands fresh t (full ++ [last])
  | done {full : List Bytes} {last : Bytes} (hp : t.phase = .done)
      (hfull : ∀ payload ∈ full, payload.length = t.blockSize)
      (hlast : last.length < t.blockSize) (hs : Sink.Published fresh (full ++ [last]) t.sink) :
      Stands fresh t (full ++ [last])
  | aborted (full : List Bytes) (last : Option Bytes) (hp : t.phase = .aborted)
      (hfull : ∀ payload ∈ full, payload.length = t.blockSize)
      (hlast : ∀ payload ∈ last.toList, payload.length < t.blockSize)
      (hs : Sink.Dropped fresh (full ++ last.toList) t.sink) :
      Stands fresh t (full ++ last.toList)

/-- The counters agree with the payloads accepted so far, and so does the rest. -/
structure Ledger (fresh : σ) (t : Transfer σ) (taken : List Bytes) : Prop where
  blocks : t.blocksWritten = taken.length
  bytes : t.bytesWritten = taken.flatten.length
  stands : t.Stands fresh taken

variable {fresh : σ} {t t' : Transfer σ} {taken : List Bytes}

theorem ledger_create (sink : σ) (options : TransferOptions) (optionAck : Option Bytes)
    (maxRetries : Nat) (observed : Bool) :
    (create sink options optionAck maxRetries observed).Ledger sink [] :=
  ⟨rfl, rfl, .waiting rfl rfl rfl⟩

theorem Stands.of_awaitingData {block : UInt16} (h : t.Stands fresh taken)
    (hp : t.phase = .awaitingData block) : block = UInt16.ofNat (taken.length + 1) ∧
      (∀ payload ∈ taken, payload.length = t.blockSize) ∧
      Sink.Filled fresh taken t.sink ∧ t.lastSent = t.answer taken.length := by
  cases h with
  | awaiting hp' hfull hs hl =>
    rw [hp] at hp'
    exact ⟨Phase.awaitingData.inj hp', hfull, hs, hl⟩
  | waiting hp' | holding hp' | done hp' | aborted _ _ hp' => simp [hp] at hp'

theorem Stands.of_holding {block : UInt16} (h : t.Stands fresh taken)
    (hp : t.phase = .holding block) : ∃ full last, taken = full ++ [last] ∧
      block = UInt16.ofNat (full.length + 1) ∧
      (∀ payload ∈ full, payload.length = t.blockSize) ∧ last.length < t.blockSize ∧
      Sink.Published fresh (full ++ [last]) t.sink ∧
      t.lastSent = t.answer (full.length + 1) := by
  cases h with
  | holding hp' hfull hlast hs hl =>
    rw [hp] at hp'
    exact ⟨_, _, rfl, Phase.holding.inj hp', hfull, hlast, hs, hl⟩
  | waiting hp' | awaiting hp' | done hp' | aborted _ _ hp' => simp [hp] at hp'

theorem Stands.of_done (h : t.Stands fresh taken) (hp : t.phase = .done) :
    ∃ full last, taken = full ++ [last] ∧
      (∀ payload ∈ full, payload.length = t.blockSize) ∧ last.length < t.blockSize ∧
      Sink.Published fresh (full ++ [last]) t.sink := by
  cases h with
  | done _ hfull hlast hs => exact ⟨_, _, rfl, hfull, hlast, hs⟩
  | waiting hp' | awaiting hp' | holding hp' | aborted _ _ hp' => simp [hp] at hp'

theorem Stands.of_aborted (h : t.Stands fresh taken) (hp : t.phase = .aborted) :
    Sink.Dropped fresh taken t.sink := by
  cases h with
  | aborted _ _ _ _ _ hs => exact hs
  | waiting hp' | awaiting hp' | holding hp' | done hp' => simp [hp] at hp'

theorem Stands.of_awaitingStart (h : t.Stands fresh taken) (hp : t.phase = .awaitingStart) :
    taken = [] ∧ t.sink = fresh ∧ t.lastSent = t.answer 0 := by
  cases h with
  | waiting _ hs hl => exact ⟨rfl, hs, hl⟩
  | awaiting hp' | holding hp' | done hp' | aborted _ _ hp' => simp [hp] at hp'

/-- One event adds to the ledger the payload that it brings, if it brings one. -/
theorem Ledger.move {now : Nat} {event : TransferEvent} {step : Step}
    (h : t.Ledger fresh taken) (hm : t.Moves now event step t') :
    t'.Ledger fresh (taken ++ (t.newBlock? event).toList) := by
  obtain ⟨hblocks, hbytes, hstands⟩ := h
  cases hm with
  | began hp he =>
    subst he
    obtain ⟨rfl, rfl, -⟩ := hstands.of_awaitingStart hp
    exact ⟨hblocks, hbytes, .awaiting rfl (by simp) .fresh rfl⟩
  | ignored _ _ hn =>
    simp only [hn, Option.toList_none, List.append_nil]
    exact ⟨hblocks, hbytes, hstands⟩
  | resent hp he hr =>
    subst he
    obtain ⟨rfl, hfull, hs, hl⟩ := hstands.of_awaitingData hp
    simp only [newBlock?_timeout, Option.toList_none, List.append_nil]
    exact ⟨hblocks, hbytes, .awaiting hp hfull hs hl⟩
  | expired hp he hr =>
    subst he
    obtain ⟨rfl, hfull, hs, hl⟩ := hstands.of_awaitingData hp
    exact ⟨by simpa using hblocks, by simpa using hbytes,
      .aborted taken none rfl hfull (by simp) (by simpa using .filled hs)⟩
  | resynced hp hn =>
    obtain ⟨rfl, hfull, hs, hl⟩ := hstands.of_awaitingData hp
    simp only [hn, Option.toList_none, List.append_nil]
    exact ⟨hblocks, hbytes, .awaiting hp hfull hs hl⟩
  | refused hp hn reason =>
    obtain ⟨rfl, hfull, hs, hl⟩ := hstands.of_awaitingData hp
    rw [hn]
    exact ⟨by simpa using hblocks, by simpa using hbytes,
      .aborted taken none rfl hfull (by simp) (by simpa using .filled hs)⟩
  | unstored hp hn hs' =>
    obtain ⟨rfl, hfull, hs, hl⟩ := hstands.of_awaitingData hp
    rw [hn]
    exact ⟨by simpa using hblocks, by simpa using hbytes,
      .aborted taken none rfl hfull (by simp) (by simpa using .unstored hs hs')⟩
  | advanced hp hn hsize hs' =>
    obtain ⟨rfl, hfull, hs, hl⟩ := hstands.of_awaitingData hp
    rw [hn]
    refine ⟨by simp [hblocks], by simp [hbytes], .awaiting ?_ ?_ (.stored hs hs') ?_⟩
    · simp
    · simpa [or_imp, forall_and, hsize] using hfull
    · simp [answer]
  | uncommitted hp hn hsize hs' hc =>
    obtain ⟨rfl, hfull, hs, hl⟩ := hstands.of_awaitingData hp
    rw [hn]
    exact ⟨by simp [hblocks], by simp [hbytes],
      .aborted taken (some _) rfl hfull (by simpa using hsize) (.uncommitted (.stored hs hs') hc)⟩
  | committed hp hn hsize hs' hc =>
    obtain ⟨rfl, hfull, hs, hl⟩ := hstands.of_awaitingData hp
    rw [hn]
    exact ⟨by simp [hblocks], by simp [hbytes],
      .holding rfl hfull hsize (.published (.stored hs hs') hc) rfl⟩
  | repeated hp hr =>
    obtain ⟨full, last, rfl, rfl, hfull, hlast, hs, hl⟩ := hstands.of_holding hp
    rw [newBlock?_of_phase _ (by simp [hp])]
    exact ⟨by simpa using hblocks, by simpa using hbytes,
      by simpa using .holding hp hfull hlast hs hl⟩
  | finished hp timer =>
    obtain ⟨full, last, rfl, rfl, hfull, hlast, hs, hl⟩ := hstands.of_holding hp
    rw [newBlock?_of_phase _ (by simp [hp])]
    exact ⟨by simpa using hblocks, by simpa using hbytes, by simpa using .done rfl hfull hlast hs⟩

theorem Ledger.run (h : t.Ledger fresh taken) (events : List (Nat × TransferEvent)) :
    (t.run events).2.Ledger fresh (taken ++ t.accepted events) := by
  induction events generalizing t taken with
  | nil => simpa [Transfer.run, accepted] using h
  | cons head rest ih =>
    obtain ⟨now, event⟩ := head
    simpa [Transfer.run, accepted] using ih (h.move (t.apply_moves now event))

theorem flatten_length_of_full {full : List Bytes} {size : Nat}
    (h : ∀ payload ∈ full, payload.length = size) : full.flatten.length = full.length * size := by
  induction full with
  | nil => simp
  | cons payload rest ih =>
    have hr := ih fun payload hm => h payload (List.mem_cons_of_mem _ hm)
    rw [List.flatten_cons, List.length_append, h payload List.mem_cons_self, hr,
      List.length_cons, Nat.succ_mul, Nat.add_comm]

theorem length_of_short_last {full : List Bytes} {last : Bytes} {size : Nat}
    (hf : ∀ payload ∈ full, payload.length = size) (hl : last.length < size) :
    (full ++ [last]).length = (full ++ [last]).flatten.length / size + 1 := by
  have hbytes : (full ++ [last]).flatten.length = last.length + size * full.length := by
    rw [List.flatten_append, List.length_append, flatten_length_of_full hf]
    simp [Nat.mul_comm, Nat.add_comm]
  rw [hbytes, Nat.add_mul_div_left _ _ (Nat.zero_lt_of_lt hl), Nat.div_eq_of_lt hl]
  simp

theorem Stands.split (h : t.Stands fresh taken) : ∃ (full : List Bytes) (last : Option Bytes),
    taken = full ++ last.toList ∧ (∀ payload ∈ full, payload.length = t.blockSize) ∧
      ∀ payload ∈ last, payload.length < t.blockSize := by
  cases h with
  | waiting => exact ⟨[], none, rfl, by simp, by simp⟩
  | awaiting _ hfull => exact ⟨taken, none, by simp, hfull, by simp⟩
  | holding _ hfull hlast => exact ⟨_, some _, rfl, hfull, by simpa using hlast⟩
  | done _ hfull hlast => exact ⟨_, some _, rfl, hfull, by simpa using hlast⟩
  | aborted full last _ hfull hlast => exact ⟨full, last, rfl, hfull, by simpa using hlast⟩

theorem Ledger.fits (h : t.Ledger fresh taken) : ∀ payload ∈ taken,
    payload.length ≤ t.blockSize := by
  obtain ⟨full, last, rfl, hfull, hlast⟩ := h.stands.split
  intro payload hm
  rcases List.mem_append.mp hm with hm | hm
  · exact Nat.le_of_eq (hfull payload hm)
  · exact Nat.le_of_lt (hlast payload (Option.mem_toList.mp hm))

theorem Ledger.blocks_le (h : t.Ledger fresh taken) (hsize : 1 ≤ t.blockSize) :
    t.blocksWritten ≤ t.bytesWritten + 1 := by
  obtain ⟨full, last, rfl, hfull, -⟩ := h.stands.split
  have hlast : last.toList.length ≤ 1 := by cases last <;> simp
  have hle : full.length * 1 ≤ full.length * t.blockSize := Nat.mul_le_mul_left _ hsize
  rw [h.blocks, h.bytes, List.flatten_append, List.length_append, List.length_append,
    flatten_length_of_full hfull]
  omega

theorem Ledger.latest (h : t.Ledger fresh taken)
    (hp : t.phase = .awaitingStart ∨ (∃ block, t.phase = .awaitingData block) ∨
      ∃ block, t.phase = .holding block) : t.lastSent = t.answer taken.length := by
  rcases hp with hp | ⟨block, hp⟩ | ⟨block, hp⟩
  · obtain ⟨rfl, -, hl⟩ := h.stands.of_awaitingStart hp
    exact hl
  · exact (h.stands.of_awaitingData hp).2.2.2
  · obtain ⟨full, last, rfl, -, -, -, -, hl⟩ := h.stands.of_holding hp
    simpa using hl

/-- An event that brings no new block makes a transfer send again what it sent last. -/
theorem Ledger.repeats {now : Nat} {event : TransferEvent} {step : Step} {packet : Bytes}
    (h : t.Ledger fresh taken) (hm : t.Moves now event step t') (hn : t.newBlock? event = none)
    (hs : step.packet? = some packet) : packet = t.lastSent ∧ t'.lastSent = t.lastSent := by
  cases hm with
  | began hp =>
    obtain ⟨rfl, -, hl⟩ := h.stands.of_awaitingStart hp
    obtain rfl := Option.some.inj hs
    exact ⟨hl.symm, hl.symm⟩
  | resent | resynced | repeated =>
    obtain rfl := Option.some.inj hs
    exact ⟨rfl, rfl⟩
  | advanced _ hn' | committed _ hn' => simp [hn] at hn'
  | ignored | expired | refused | unstored | uncommitted | finished => cases hs

theorem Ledger.sent {now : Nat} {event : TransferEvent} {step : Step} {packet : Bytes}
    (h : t.Ledger fresh taken) (hm : t.Moves now event step t')
    (hs : step.packet? = some packet) : packet = t'.answer t'.blocksWritten := by
  cases hn : t.newBlock? event with
  | none =>
    have hm' := h.move hm
    rw [hn, Option.toList_none, List.append_nil] at hm'
    obtain ⟨rfl, hl⟩ := h.repeats hm hn hs
    rw [← hl, hm'.blocks]
    apply hm'.latest
    cases hm with
    | began => exact .inr (.inl ⟨_, rfl⟩)
    | resent hp | resynced hp => exact .inr (.inl ⟨_, hp⟩)
    | repeated hp => exact .inr (.inr ⟨_, hp⟩)
    | advanced _ hn' | committed _ hn' => simp [hn] at hn'
    | ignored | expired | refused | unstored | uncommitted | finished => cases hs
  | some payload =>
    cases hm with
    | advanced hp | committed hp =>
      obtain ⟨rfl, -⟩ := h.stands.of_awaitingData hp
      obtain rfl := Option.some.inj hs
      simp [answer, h.blocks]
    | began _ he | resent _ he => simp [he] at hn
    | resynced _ hn' => simp [hn] at hn'
    | repeated hp =>
      rw [newBlock?_of_phase event (by simp [hp])] at hn
      cases hn
    | ignored | expired | refused | unstored | uncommitted | finished => cases hs

theorem resent_of_budget {block : UInt16} (hp : t.phase = .awaitingData block)
    (hb : t.timer.retries < t.timer.maxRetries) (now : Nat) :
    (t.apply now .timeout).1 = .send t.lastSent := by
  have h : ¬ t.timer.maxRetries < min (t.timer.retries + 1) RetryTimer.maxCount := by omega
  simp [apply, onTimeout, hp, RetryTimer.recordRetry, h, send]

theorem sub_one_ne (block : UInt16) : block - 1 ≠ block := by
  intro he
  have he' := congrArg UInt16.toNat he
  rw [UInt16.toNat_sub] at he'
  have hlt := block.toNat_lt
  have hone : (1 : UInt16).toNat = 1 := rfl
  omega

theorem resynced_of_duplicate {block : UInt16} (hp : t.phase = .awaitingData block)
    {bytes payload : Bytes} (hd : Packet.decode bytes = .ok (.data (block - 1) payload))
    (now : Nat) : (t.apply now (.datagram bytes)).1 = .resync t.lastSent := by
  simp only [apply, onDatagram, hp, onAwaited, hd, if_neg (sub_one_ne block), if_true, resync]

theorem Moves.constants {now : Nat} {event : TransferEvent} {step : Step}
    (hm : t.Moves now event step t') :
    t'.blockSize = t.blockSize ∧ t'.firstPacket = t.firstPacket := by
  cases hm <;> exact ⟨rfl, rfl⟩

theorem run_constants (t : Transfer σ) (events : List (Nat × TransferEvent)) :
    (t.run events).2.blockSize = t.blockSize ∧ (t.run events).2.firstPacket = t.firstPacket := by
  induction events generalizing t with
  | nil => exact ⟨rfl, rfl⟩
  | cons head rest ih =>
    obtain ⟨now, event⟩ := head
    obtain ⟨hsize, hfirst⟩ := (t.apply_moves now event).constants
    obtain ⟨hsize', hfirst'⟩ := ih (t.apply now event).2
    exact ⟨hsize'.trans hsize, hfirst'.trans hfirst⟩

/-- The accounts of a transfer over a recorded sink that took all it was offered. -/
structure Accounts (t : Transfer (Recorded σ)) (taken : List Bytes) : Prop where
  /-- An empty payload is not passed on; all others are, each once. -/
  offered : t.sink.offered = taken.filter (· ≠ [])
  written : t.sink.offered.flatten = taken.flatten
  fits : ∀ payload ∈ taken, payload.length ≤ t.blockSize
  bytes : t.bytesWritten = taken.flatten.length
  blocks : t.blocksWritten = taken.length
  bounded : t.blocksWritten ≤ t.bytesWritten + 1
  awaiting : ∀ block, t.phase = .awaitingData block →
    block.toNat = (taken.length + 1) % 65536 ∧ t.bytesWritten = taken.length * t.blockSize ∧
      t.lastSent = t.answer taken.length
  holding : ∀ block, t.phase = .holding block →
    block.toNat = taken.length % 65536 ∧ taken.length = t.bytesWritten / t.blockSize + 1 ∧
      t.lastSent = Packet.encodeAck block
  resent : ∀ block now, t.phase = .awaitingData block → t.timer.retries < t.timer.maxRetries →
    (t.apply now .timeout).1 = .send t.lastSent
  resynced : ∀ block now bytes payload, t.phase = .awaitingData block →
    Packet.decode bytes = .ok (.data (block - 1) payload) →
      (t.apply now (.datagram bytes)).1 = .resync t.lastSent
  /-- Nothing but a new block brings out another packet. -/
  repeats : ∀ now event packet, t.newBlock? event = none →
    (t.apply now event).1.packet? = some packet → packet = t.lastSent
  /-- A packet that goes out answers for the blocks that are stored by then. -/
  sent : ∀ now event packet, (t.apply now event).1.packet? = some packet →
    packet = t.answer (t.apply now event).2.blocksWritten

theorem Ledger.offered {sink : σ} {t : Transfer (Recorded σ)} (h : t.Ledger { sink } taken)
    (hall : t.sink.TookAll) : t.sink.offered = taken.filter (· ≠ []) := by
  have hfresh : ({ sink } : Recorded σ).offered = [] := rfl
  have hs := h.stands
  cases hs with
  | waiting _ hs => rw [hs, hfresh]; rfl
  | awaiting _ _ hs => rw [Recorded.offered_filled hs, hfresh, List.nil_append]
  | holding _ _ _ hs | done _ _ _ hs =>
    rw [Recorded.offered_published hs, hfresh, List.nil_append]
  | aborted _ _ _ _ _ hs => rw [Recorded.offered_dropped hs hall, hfresh, List.nil_append]

theorem Ledger.accounts {sink : σ} {t : Transfer (Recorded σ)} (h : t.Ledger { sink } taken)
    (hsize : 1 ≤ t.blockSize) (hall : t.sink.TookAll) : t.Accounts taken where
  offered := h.offered hall
  written := by rw [h.offered hall, List.flatten_filter_ne_nil]
  fits := h.fits
  bytes := h.bytes
  blocks := h.blocks
  bounded := h.blocks_le hsize
  awaiting block hp := by
    obtain ⟨rfl, hfull, -, hl⟩ := h.stands.of_awaitingData hp
    exact ⟨UInt16.toNat_ofNat', h.bytes.trans (flatten_length_of_full hfull), hl⟩
  holding block hp := by
    obtain ⟨full, last, rfl, rfl, hfull, hlast, -, hl⟩ := h.stands.of_holding hp
    refine ⟨by simp [UInt16.toNat_ofNat'], ?_, hl⟩
    rw [h.bytes, length_of_short_last hfull hlast]
  resent _ now hp hb := resent_of_budget hp hb now
  resynced _ now _ _ hp hd := resynced_of_duplicate hp hd now
  repeats now event _ hn hs := (h.repeats (t.apply_moves now event) hn hs).1
  sent now event _ hs := by
    rw [h.sent (t.apply_moves now event) hs]
    simp only [answer, (t.apply_moves now event).constants.2]

/-- Whatever a peer sends, and whenever it falls silent, a transfer keeps its accounts of
the blocks it accepted. -/
theorem run_keeps_accounts (sink : σ) (options : TransferOptions) (hsize : 1 ≤ options.blockSize)
    (optionAck : Option Bytes) (maxRetries : Nat) (observed : Bool)
    (events : List (Nat × TransferEvent)) :
    let begun := create ({ sink } : Recorded σ) options optionAck maxRetries observed
    let t := (begun.run events).2
    t.sink.TookAll → t.Accounts (begun.accepted events) ∧ t.blockSize = options.blockSize ∧
      t.firstPacket = optionAck.getD (Packet.encodeAck 0) := by
  intro begun t hall
  obtain ⟨hblock, hfirst⟩ := begun.run_constants events
  have h : t.Ledger { sink } (begun.accepted events) := by
    simpa using (ledger_create ({ sink } : Recorded σ) options optionAck maxRetries
      observed).run events
  exact ⟨h.accounts (hblock ▸ hsize) hall, hblock, hfirst⟩

def twoBlockEvents : List (Nat × TransferEvent) :=
  [(0, .start), (1, .datagram [0, 3, 0, 1, 7, 8]), (2, .datagram [0, 3, 0, 1, 7, 8]),
    (1002, .timeout), (1003, .datagram [0, 3, 0, 2, 9])]

theorem run_keeps_accounts_two_blocks :
    let begun := create ({ sink := {} } : Recorded MemorySink)
      { blockSize := 2, interval := 1000 } none 5 false
    let t := (begun.run twoBlockEvents).2
    t.sink.TookAll ∧ t.phase = .holding 2 ∧ begun.accepted twoBlockEvents = [[7, 8], [9]] ∧
      t.Accounts [[7, 8], [9]] := by
  intro begun t
  have htook : t.sink.TookAll := by
    intro payload answer hcall
    have hcalls : t.sink.calls = [.publish (.ok ()), .flush (.ok ()), .write [9] (.ok 1),
      .write [7, 8] (.ok 2)] := rfl
    rw [hcalls] at hcall
    simp only [List.mem_cons, List.not_mem_nil, reduceCtorEq, or_false, false_or,
      SinkCall.write.injEq] at hcall
    obtain ⟨rfl, rfl⟩ | ⟨rfl, rfl⟩ := hcall <;> rfl
  have hrun := run_keeps_accounts ({} : MemorySink) { blockSize := 2, interval := 1000 }
    (by decide) none 5 false twoBlockEvents htook
  exact ⟨htook, rfl, rfl, hrun.1⟩

end Transfer

end TftpReceiver
