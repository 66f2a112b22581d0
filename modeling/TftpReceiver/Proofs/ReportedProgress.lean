import TftpReceiver.Proofs.SinkCalls

/-! What an observer is told over a whole transfer: percents of the declared size that only rise,
each told once, and the last one is the whole when all of it was published. -/

namespace TftpReceiver

namespace Progress

variable {progress : Progress} {before blocks : Nat}

/-- The percents of the declared size that a number of full blocks makes up. -/
def share (progress : Progress) (blocks : Nat) : Nat :=
  min 100 (100 * blocks * progress.blockSize / progress.declaredSize)

theorem share_le (progress : Progress) (blocks : Nat) : progress.share blocks ≤ 100 :=
  Nat.min_le_left _ _

theorem share_zero (progress : Progress) : progress.share 0 = 0 := by
  simp [share]

theorem share_mono (progress : Progress) (h : before ≤ blocks) :
    progress.share before ≤ progress.share blocks := by
  have hbytes : 100 * before * progress.blockSize ≤ 100 * blocks * progress.blockSize :=
    Nat.mul_le_mul_right _ (Nat.mul_le_mul_left _ h)
  have hdiv := Nat.div_le_div_right (c := progress.declaredSize) hbytes
  unfold share
  omega

theorem share_of_complete (hd : progress.declaredSize ≠ 0)
    (h : progress.declaredSize ≤ blocks * progress.blockSize) : progress.share blocks = 100 := by
  have hbytes : 100 * progress.declaredSize ≤ 100 * blocks * progress.blockSize := by
    rw [Nat.mul_assoc]
    exact Nat.mul_le_mul_left 100 h
  have hdiv := (Nat.le_div_iff_mul_le (Nat.pos_of_ne_zero hd)).mpr hbytes
  exact Nat.min_eq_left hdiv

theorem percent?_of_declared (hd : progress.declaredSize ≠ 0) (blocks : Nat) :
    progress.percent? blocks = some (progress.share blocks) := by
  have hbytes : blocks * progress.blockSize * 100 = 100 * blocks * progress.blockSize := by
    rw [Nat.mul_comm, Nat.mul_assoc]
  rw [percent?, if_neg hd, hbytes, share]

theorem update_undeclared (hd : progress.declaredSize = 0) (blocks : Nat) :
    progress.update blocks = progress := by
  simp only [update, percent?, if_pos hd]

theorem update_told (hd : progress.declaredSize ≠ 0)
    (h : progress.last = some (progress.share blocks)) : progress.update blocks = progress := by
  simp only [update, percent?_of_declared hd, if_pos h]

theorem update_new (hd : progress.declaredSize ≠ 0) (ho : progress.observed = true)
    (h : progress.last ≠ some (progress.share blocks)) :
    progress.update blocks =
      { progress with
        last := some (progress.share blocks)
        reported := progress.reported ++ [progress.share blocks] } := by
  simp only [update, percent?_of_declared hd, if_neg h, ho, if_true]

@[simp]
theorem update_constants (progress : Progress) (blocks : Nat) :
    (progress.update blocks).declaredSize = progress.declaredSize ∧
      (progress.update blocks).blockSize = progress.blockSize ∧
      (progress.update blocks).observed = progress.observed := by
  unfold update
  split
  · exact ⟨rfl, rfl, rfl⟩
  · split <;> exact ⟨rfl, rfl, rfl⟩

theorem percent_fits {blocks size : Nat} (hblocks : blocks < Nat.pow 2 64) (hsize : size ≤ 65464) :
    blocks * size * 100 < Nat.pow 2 128 := by
  have hbytes : blocks * size ≤ Nat.pow 2 64 * 65464 := Nat.mul_le_mul (Nat.le_of_lt hblocks) hsize
  have hpow : Nat.pow 2 64 * 65464 * 100 < Nat.pow 2 128 := by decide
  omega

/-- The observer of a transfer with a declared size knows where it stands. -/
structure HasTold (progress : Progress) (blocks : Nat) : Prop where
  declared : progress.declaredSize ≠ 0
  latest : progress.last = some (progress.share blocks)
  newest : progress.reported.getLast? = some (progress.share blocks)
  oldest : progress.reported.head? = some 0
  rising : progress.reported.Pairwise (· < ·)
  below : ∀ percent ∈ progress.reported, percent ≤ progress.share blocks

theorem HasTold.bounded (h : progress.HasTold blocks) :
    ∀ percent ∈ progress.reported, percent ≤ 100 :=
  fun percent hm => Nat.le_trans (h.below percent hm) (progress.share_le blocks)

theorem HasTold.reported_ne_nil (h : progress.HasTold blocks) : progress.reported ≠ [] := by
  intro hr
  simpa [hr] using h.oldest

theorem hasTold_update_zero (hd : progress.declaredSize ≠ 0) (ho : progress.observed = true)
    (hl : progress.last = none) (hr : progress.reported = []) :
    (progress.update 0).HasTold 0 := by
  have hfirst : progress.last ≠ some (progress.share 0) := by simp [hl]
  rw [update_new hd ho hfirst, hr, share_zero]
  exact ⟨hd, by simp [share], by simp [share], rfl, by simp, by simp⟩

theorem HasTold.update (h : progress.HasTold before) (ho : progress.observed = true)
    (hle : before ≤ blocks) : (progress.update blocks).HasTold blocks := by
  by_cases hs : progress.share before = progress.share blocks
  · have hsame := update_told h.declared (h.latest.trans (congrArg some hs))
    rw [hsame]
    exact ⟨h.declared, hs ▸ h.latest, hs ▸ h.newest, h.oldest, h.rising, hs ▸ h.below⟩
  · have hnew : progress.last ≠ some (progress.share blocks) := by
      rw [h.latest]
      exact fun he => hs (Option.some.inj he)
    have hlt : progress.share before < progress.share blocks :=
      Nat.lt_of_le_of_ne (share_mono progress hle) hs
    have hbelow : ∀ percent ∈ progress.reported, percent < progress.share blocks :=
      fun percent hm => Nat.lt_of_le_of_lt (h.below percent hm) hlt
    rw [update_new h.declared ho hnew]
    refine ⟨h.declared, rfl, List.getLast?_concat, ?_, ?_, ?_⟩
    · rw [List.head?_append, h.oldest]
      rfl
    · exact List.pairwise_append.mpr ⟨h.rising, List.pairwise_singleton _ _, by simpa using hbelow⟩
    · intro percent hm
      rcases List.mem_append.mp hm with hm | hm
      · exact Nat.le_of_lt (hbelow percent hm)
      · exact Nat.le_of_eq (List.mem_singleton.mp hm)

/-- An update tells at most one percent, and that is the one that the blocks make up. -/
theorem update_reported (progress : Progress) (blocks : Nat) : ∃ fired,
    (progress.update blocks).reported = progress.reported ++ fired ∧ fired.length ≤ 1 ∧
      ∀ percent ∈ fired, percent = progress.share blocks := by
  have hsilent : progress.update blocks = progress → ∃ fired,
      (progress.update blocks).reported = progress.reported ++ fired ∧ fired.length ≤ 1 ∧
        ∀ percent ∈ fired, percent = progress.share blocks := by
    intro h
    exact ⟨[], by simp [h], by simp, by simp⟩
  by_cases hd : progress.declaredSize = 0
  · exact hsilent (update_undeclared hd blocks)
  by_cases hl : progress.last = some (progress.share blocks)
  · exact hsilent (update_told hd hl)
  cases ho : progress.observed with
  | true => exact ⟨[progress.share blocks], by rw [update_new hd ho hl], by simp, by simp⟩
  | false => exact ⟨[], by simp [update, percent?_of_declared hd, hl, ho], by simp, by simp⟩

end Progress

namespace Transfer

variable {σ : Type} [Sink σ] {fresh : σ} {t t' : Transfer σ} {taken : List Bytes} {now : Nat}
  {event : TransferEvent} {step : Step}

/-- How far an observer has been told of a transfer. -/
inductive Reports (t : Transfer σ) : Prop
  | undeclared (hd : t.progress.declaredSize = 0) (hr : t.progress.reported = [])
  | waiting (hp : t.phase = .awaitingStart) (hd : t.progress.declaredSize ≠ 0)
      (hl : t.progress.last = none) (hr : t.progress.reported = [])
  | told (hp : t.phase ≠ .awaitingStart) (h : t.progress.HasTold t.blocksWritten)
  | aborted {blocks : Nat} (hp : t.phase = .aborted) (h : t.progress.HasTold blocks)

/-- Only the start and a stored block update the progress. -/
theorem Reports.move (h : t.Reports) (hl : t.Ledger fresh taken)
    (ho : t.progress.observed = true) (hm : t.Moves now event step t') : t'.Reports := by
  cases h with
  | undeclared hd hr =>
    have hsame : t'.progress = t.progress := by
      cases hm <;> first | rfl | exact Progress.update_undeclared hd _
    exact .undeclared (hsame ▸ hd) (hsame ▸ hr)
  | waiting hp hd hlast hr =>
    cases hm with
    | began =>
      obtain ⟨rfl, -, -⟩ := hl.stands.of_awaitingStart hp
      have hblocks : t.blocksWritten = 0 := hl.blocks
      refine .told (by simp) ?_
      rw [hblocks]
      exact Progress.hasTold_update_zero hd ho hlast hr
    | ignored => exact .waiting hp hd hlast hr
    | resent hp' | expired hp' | resynced hp' | refused hp' | unstored hp' | advanced hp'
    | uncommitted hp' | committed hp' | repeated hp' | finished hp' => simp [hp] at hp'
  | told hp h =>
    cases hm with
    | began hp' => exact absurd hp' hp
    | ignored | resent | resynced | repeated => exact .told hp h
    | finished => exact .told (by simp) h
    | expired | refused | unstored | uncommitted => exact .aborted rfl h
    | advanced | committed => exact .told (by simp) (h.update ho (Nat.le_succ _))
  | aborted hp h =>
    cases hm with
    | ignored => exact .aborted hp h
    | began hp' | resent hp' | expired hp' | resynced hp' | refused hp' | unstored hp'
    | advanced hp' | uncommitted hp' | committed hp' | repeated hp' | finished hp' =>
      simp [hp] at hp'

/-- The observer of a transfer with these options, and how far it has been told. -/
structure Observes (options : TransferOptions) (t : Transfer σ) : Prop where
  observed : t.progress.observed = true
  declaredSize : t.progress.declaredSize = options.declaredSize
  blockSize : t.progress.blockSize = options.blockSize
  reports : t.Reports

/-- What an event adds to what the observer was told. -/
structure Announces (options : TransferOptions) (t : Transfer σ) (event : TransferEvent)
    (step : Step) (t' : Transfer σ) (fired : List Nat) : Prop where
  added : t'.progress.reported = t.progress.reported ++ fired
  once : fired.length ≤ 1
  share : ∀ percent ∈ fired, percent =
    min 100 (100 * t'.blocksWritten * options.blockSize / options.declaredSize)
  occasion : fired ≠ [] →
    (t.newBlock? event).isSome ∨ t.phase = .awaitingStart ∧ event = .start
  onTimeout : event = .timeout → fired = []
  onDuplicate : ∀ packet, step = .resync packet → fired = []
  onHeld : ∀ block, t.phase = .holding block → fired = []
  onAbort : ∀ reason, step = .abort reason → fired = []

variable {options : TransferOptions}

omit [Sink σ] in
theorem observes_create (sink : σ) (options : TransferOptions) (optionAck : Option Bytes)
    (maxRetries : Nat) : (create sink options optionAck maxRetries true).Observes options := by
  refine ⟨rfl, rfl, rfl, ?_⟩
  by_cases hd : options.declaredSize = 0
  · exact .undeclared hd rfl
  · exact .waiting rfl hd rfl rfl

theorem Moves.progress_constants (hm : t.Moves now event step t') :
    t'.progress.declaredSize = t.progress.declaredSize ∧
      t'.progress.blockSize = t.progress.blockSize ∧
      t'.progress.observed = t.progress.observed := by
  cases hm <;> first | exact ⟨rfl, rfl, rfl⟩ | exact t.progress.update_constants _

theorem Observes.move (h : t.Observes options) (hl : t.Ledger fresh taken)
    (hm : t.Moves now event step t') : t'.Observes options := by
  obtain ⟨hdeclared, hblock, hobserved⟩ := hm.progress_constants
  exact ⟨hobserved.trans h.observed, hdeclared.trans h.declaredSize, hblock.trans h.blockSize,
    h.reports.move hl h.observed hm⟩

theorem Observes.run (h : t.Observes options) (hl : t.Ledger fresh taken)
    (events : List (Nat × TransferEvent)) : (t.run events).2.Observes options := by
  induction events generalizing t taken with
  | nil => exact h
  | cons head rest ih =>
    obtain ⟨now, event⟩ := head
    have hm := t.apply_moves now event
    exact ih (h.move hl hm) (hl.move hm)

omit [Sink σ] in
theorem Observes.share_eq (h : t.Observes options) (blocks : Nat) : t.progress.share blocks =
    min 100 (100 * blocks * options.blockSize / options.declaredSize) := by
  rw [Progress.share, h.declaredSize, h.blockSize]

theorem Observes.announces_update (h : t.Observes options)
    (hprogress : t'.progress = t.progress.update t'.blocksWritten)
    (ho : (t.newBlock? event).isSome ∨ t.phase = .awaitingStart ∧ event = .start)
    (hs : ∃ packet, step = .send packet ∨ step = .hold packet) :
    ∃ fired, t.Announces options event step t' fired := by
  obtain ⟨fired, hreported, honce, hshare⟩ := t.progress.update_reported t'.blocksWritten
  refine ⟨fired, hprogress ▸ hreported, honce, ?_, fun _ => ho, ?_, ?_, ?_, ?_⟩
  · intro percent hm
    rw [hshare percent hm, h.share_eq]
  · rintro rfl
    simp at ho
  · rintro packet rfl
    simp at hs
  · intro block hp
    rw [newBlock?_of_phase event (by simp [hp])] at ho
    simp [hp] at ho
  · rintro reason rfl
    simp at hs

theorem Observes.announces (h : t.Observes options) (hl : t.Ledger fresh taken)
    (hm : t.Moves now event step t') : ∃ fired, t.Announces options event step t' fired := by
  have hquiet : t'.progress = t.progress → ∃ fired, t.Announces options event step t' fired := by
    intro hsame
    exact ⟨[], by simp [hsame], by simp, by simp, by simp, by simp, by simp, by simp, by simp⟩
  cases hm with
  | began hp he =>
    obtain ⟨rfl, -, -⟩ := hl.stands.of_awaitingStart hp
    have hblocks : t.blocksWritten = 0 := hl.blocks
    refine h.announces_update ?_ (.inr ⟨hp, he⟩) ⟨_, .inl rfl⟩
    simp only [hblocks]
  | advanced hp hn => exact h.announces_update rfl (.inl (by simp [hn])) ⟨_, .inl rfl⟩
  | committed hp hn => exact h.announces_update rfl (.inl (by simp [hn])) ⟨_, .inr rfl⟩
  | ignored | resent | expired | resynced | refused | unstored | uncommitted | repeated
  | finished => exact hquiet rfl

theorem flatten_length_le {payloads : List Bytes} {size : Nat}
    (h : ∀ payload ∈ payloads, payload.length ≤ size) :
    payloads.flatten.length ≤ payloads.length * size := by
  induction payloads with
  | nil => simp
  | cons payload rest ih =>
    have hrest := ih fun payload hm => h payload (List.mem_cons_of_mem _ hm)
    have hfirst := h payload List.mem_cons_self
    rw [List.flatten_cons, List.length_append, List.length_cons, Nat.succ_mul]
    omega

/-- Every block counts as a full one, so the blocks make up no less than the bytes. -/
theorem Ledger.bytes_le (h : t.Ledger fresh taken) :
    t.bytesWritten ≤ t.blocksWritten * t.blockSize := by
  rw [h.bytes, h.blocks]
  exact flatten_length_le h.fits

theorem Ledger.blocks_lt (h : t.Ledger fresh taken) (hsize : 1 ≤ t.blockSize)
    (hbytes : t.bytesWritten < Nat.pow 2 63) : t.blocksWritten < Nat.pow 2 64 := by
  have hblocks := h.blocks_le hsize
  have hpow : Nat.pow 2 63 < Nat.pow 2 64 := by decide
  omega

/-- What an observer was told by the time a transfer has come here, and what it will be told
next. -/
structure ReportsProgress (options : TransferOptions) (t : Transfer (Recorded σ)) : Prop where
  undeclared : options.declaredSize = 0 → t.progress.reported = []
  begun : options.declaredSize ≠ 0 → (t.progress.reported = [] ↔ t.phase = .awaitingStart)
  fromZero : t.progress.reported = [] ∨ t.progress.reported.head? = some 0
  rising : t.progress.reported.Pairwise (· < ·)
  bounded : ∀ percent ∈ t.progress.reported, percent ≤ 100
  each : ∀ now event, ∃ fired,
    t.Announces options event (t.apply now event).1 (t.apply now event).2 fired
  complete : options.declaredSize ≠ 0 → .publish (.ok ()) ∈ t.sink.calls →
    options.declaredSize ≤ t.bytesWritten → t.progress.reported.getLast? = some 100
  counted : t.bytesWritten < Nat.pow 2 63 → t.blocksWritten < Nat.pow 2 64
  /-- The count of blocks is a word of 64 bits and the percent is taken in one of 128. -/
  fits : ∀ blocks < Nat.pow 2 64, blocks * options.blockSize * 100 < Nat.pow 2 128

theorem Observes.reportsProgress {sink : σ} {t : Transfer (Recorded σ)} (h : t.Observes options)
    (hl : t.Ledger { sink } taken) (hblock : t.blockSize = options.blockSize)
    (hleast : 8 ≤ options.blockSize) (hmost : options.blockSize ≤ 65464) :
    t.ReportsProgress options := by
  have heach (now : Nat) (event : TransferEvent) := h.announces hl (t.apply_moves now event)
  have hcounted := hl.blocks_lt (by omega)
  have hfits : ∀ blocks < Nat.pow 2 64, blocks * options.blockSize * 100 < Nat.pow 2 128 :=
    fun blocks hb => Progress.percent_fits hb hmost
  cases h.reports with
  | undeclared hd hr =>
    have hd' : options.declaredSize = 0 := h.declaredSize ▸ hd
    exact ⟨fun _ => hr, fun hne => absurd hd' hne, .inl hr, by simp [hr], by simp [hr], heach,
      fun hne => absurd hd' hne, hcounted, hfits⟩
  | waiting hp hd _ hr =>
    refine ⟨fun _ => hr, fun _ => by simp [hp, hr], .inl hr, by simp [hr], by simp [hr], heach, ?_,
      hcounted, hfits⟩
    intro _ hpublished
    simp [hl.closesOnce.published, hp] at hpublished
  | told hp ht =>
    refine ⟨fun hz => absurd (h.declaredSize.trans hz) ht.declared,
      fun _ => by simp [hp, ht.reported_ne_nil], .inr ht.oldest, ht.rising, ht.bounded, heach, ?_,
      hcounted, hfits⟩
    intro _ _ hbytes
    have hfull : t.progress.declaredSize ≤ t.blocksWritten * t.progress.blockSize := by
      rw [h.declaredSize, h.blockSize, ← hblock]
      exact Nat.le_trans hbytes hl.bytes_le
    rw [ht.newest, Progress.share_of_complete ht.declared hfull]
  | aborted hp ht =>
    refine ⟨fun hz => absurd (h.declaredSize.trans hz) ht.declared,
      fun _ => by simp [hp, ht.reported_ne_nil], .inr ht.oldest, ht.rising, ht.bounded, heach, ?_,
      hcounted, hfits⟩
    intro _ hpublished
    simp [hl.closesOnce.published, hp] at hpublished

/-- Over a whole run an observer is told nothing without a declared size. With one it is told
percents that begin with 0 and only rise, each when a new block is stored, and 100 in the end if
as much as was declared is published. -/
theorem run_reports_progress (sink : σ) (options : TransferOptions) (hleast : 8 ≤ options.blockSize)
    (hmost : options.blockSize ≤ 65464) (optionAck : Option Bytes) (maxRetries : Nat)
    (events : List (Nat × TransferEvent)) :
    ((create ({ sink } : Recorded σ) options optionAck maxRetries true).run
      events).2.ReportsProgress options := by
  have hl := ledger_create ({ sink } : Recorded σ) options optionAck maxRetries true
  have ho := observes_create ({ sink } : Recorded σ) options optionAck maxRetries
  exact (ho.run hl events).reportsProgress (hl.run events) (run_constants _ events).1 hleast hmost

def twoBlockUpload : List (Nat × TransferEvent) :=
  [(0, .start), (1, .datagram (Packet.encodeData 1 [1, 2, 3, 4, 5, 6, 7, 8])),
    (2, .datagram (Packet.encodeData 2 [9, 10, 11, 12]))]

theorem run_reports_progress_of_two_blocks :
    let options : TransferOptions := { blockSize := 8, interval := 1000, declaredSize := 12 }
    let t := ((create ({ sink := {} } : Recorded MemorySink) options none 5 true).run
      twoBlockUpload).2
    (8 ≤ options.blockSize ∧ options.blockSize ≤ 65464) ∧ t.progress.reported = [0, 66, 100] ∧
      t.ReportsProgress options := by
  intro options t
  have hleast : 8 ≤ options.blockSize := by decide
  have hmost : options.blockSize ≤ 65464 := by decide
  exact ⟨⟨hleast, hmost⟩, by decide +kernel,
    run_reports_progress ({} : MemorySink) options hleast hmost none 5 twoBlockUpload⟩

end Transfer

end TftpReceiver
