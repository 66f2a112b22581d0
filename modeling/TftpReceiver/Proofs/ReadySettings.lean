import TftpReceiver.Proofs.Deadlines
import TftpReceiver.Proofs.RenewedOptions
import TftpReceiver.Proofs.RequestAnswers
import TftpReceiver.Proofs.RetryBudget

/-! Settings that pass the check make a receiver, and whatever options are asked for, its transfers
stay within the bounds of the protocol. -/

namespace TftpReceiver

/-- Bounds that the settings and the peer keep each on their own. -/
structure TransferOptions.InRange (options : TransferOptions) : Prop where
  blockSize : 8 ≤ options.blockSize ∧ options.blockSize ≤ 65464
  interval : 1000 ≤ options.interval ∧ options.interval ≤ 255000

namespace Asked

variable {asked : Asked} {options : TransferOptions}

theorem inRange_grant (h : asked.name.permits asked.value = true) (ho : options.InRange)
    (knownSize : Nat) : ((asked.grant knownSize).apply options).InRange := by
  rcases asked with ⟨spelled, name, value⟩
  cases name with
  | blockSize =>
    have hvalue : 8 ≤ value := of_decide_eq_true h
    exact ⟨⟨Nat.le_min.mpr ⟨hvalue, by decide⟩, Nat.min_le_right _ _⟩, ho.interval⟩
  | blockSizePower =>
    have hvalue : 8 ≤ value := of_decide_eq_true h
    exact ⟨⟨eight_le_powerSize hvalue, powerSize_le_maximum value⟩, ho.interval⟩
  | transferSize =>
    simp only [grant]
    split <;> exact ⟨ho.blockSize, ho.interval⟩
  | timeoutSeconds =>
    have hvalue : 1 ≤ value ∧ value ≤ 255 := of_decide_eq_true h
    have hmillis : 1000 ≤ value * 1000 ∧ value * 1000 ≤ 255000 := by omega
    exact ⟨ho.blockSize, hmillis⟩
  | timeoutMillis => exact ⟨ho.blockSize, of_decide_eq_true h⟩

end Asked

namespace Negotiation

variable {options : TransferOptions}

theorem inRange_extend (ho : options.InRange) (knownSize : Nat) (sized : Bool)
    (requested : List (String × String)) :
    (extend knownSize options sized requested).options.InRange := by
  induction requested generalizing options sized with
  | nil => exact ho
  | cons pair rest ih =>
    rw [extend, Asked.grant_of_pair]
    cases hasked : Asked.ofPair? pair with
    | none => exact ih ho sized
    | some asked =>
      obtain ⟨-, -, -, hpermits⟩ := Asked.of_pair hasked
      simp only [Option.map_some]
      split
      · exact ih ho sized
      · exact ih (Asked.inRange_grant hpermits ho knownSize) _

theorem inRange_ofPairs (ho : options.InRange) (knownSize : Nat)
    (requested : List (String × String)) : (ofPairs options knownSize requested).options.InRange :=
  inRange_extend ho knownSize false requested

end Negotiation

namespace Settings

variable {s : Settings} {tree : FileTree} {taken : Option HostError} {texts : List String}

theorem of_checkRoot (h : s.checkRoot tree = .ok ()) :
    ∃ place, tree.inspect true s.root = .ok (place, .directory) := by
  unfold checkRoot at h
  split at h
  · cases h
  · split at h
    · next place hinspect => exact ⟨place, hinspect⟩
    · cases h
    · split at h <;> cases h

theorem of_checkTransfer (h : s.checkTransfer = .ok ()) :
    (1000 ≤ s.transfer.interval ∧ s.transfer.interval ≤ 255000) ∧ 1 ≤ s.transfer.maxRetries := by
  have hmin : minInterval = 1000 := rfl
  have hmax : maxInterval = 255000 := rfl
  unfold checkTransfer at h
  split at h
  · cases h
  · split at h
    · cases h
    · omega

theorem of_checkPattern {text : String} (h : checkPattern text = .ok ()) :
    ∃ pattern, WritePolicy.parsePattern text = .ok pattern := by
  unfold checkPattern at h
  split at h
  · cases h
  · cases hp : Pattern.parse text with
    | ok pattern => exact ⟨pattern, by rw [WritePolicy.parsePattern, hp]⟩
    | error e =>
      rw [hp] at h
      cases h

theorem parse_of_checkPattern (h : texts.forM checkPattern = .ok ()) :
    ∃ patterns, texts.mapM WritePolicy.parsePattern = .ok patterns := by
  induction texts with
  | nil => exact ⟨[], rfl⟩
  | cons text rest ih =>
    obtain ⟨⟨⟩, hfirst, hrest⟩ := of_bind_ok h
    obtain ⟨pattern, hpattern⟩ := of_checkPattern hfirst
    obtain ⟨patterns, hpatterns⟩ := ih hrest
    exact ⟨pattern :: patterns, by rw [List.mapM_cons, hpattern, hpatterns]; rfl⟩

/-- What the check has found when it finds no fault. -/
structure Checked (s : Settings) (tree : FileTree) : Prop where
  root : ∃ place, tree.inspect true s.root = .ok (place, .directory)
  interval : 1000 ≤ s.transfer.interval ∧ s.transfer.interval ≤ 255000
  retries : 1 ≤ s.transfer.maxRetries
  patterns : ∃ patterns, s.writing.allowedPatterns.mapM WritePolicy.parsePattern = .ok patterns

theorem checked_of_check (h : s.check tree taken = .ok ()) : s.Checked tree := by
  obtain ⟨⟨⟩, hroot, h⟩ := of_bind_ok h
  obtain ⟨⟨⟩, -, h⟩ := of_bind_ok h
  obtain ⟨⟨⟩, -, h⟩ := of_bind_ok h
  obtain ⟨⟨⟩, htransfer, hpatterns⟩ := of_bind_ok h
  obtain ⟨hinterval, hretries⟩ := of_checkTransfer htransfer
  exact ⟨of_checkRoot hroot, hinterval, hretries, parse_of_checkPattern hpatterns⟩

end Settings

namespace Transfer

/-- The bounds of a transfer, and what follows from them for an empty block and for the size of a
legal one. -/
structure InRange {σ : Type} [Sink σ] (t : Transfer σ) : Prop where
  blockSize : 8 ≤ t.blockSize ∧ t.blockSize ≤ 65464
  interval : 1000 ≤ t.timer.interval ∧ t.timer.interval ≤ 255000
  retries : 1 ≤ t.timer.maxRetries
  /-- An empty block is the last one, whether or not the sink can be published then. -/
  final : ∀ block bytes, t.phase = .awaitingData block →
    Packet.decode bytes = .ok (.data block []) → ∀ now,
      (t.apply now (.datagram bytes)).2.phase = .holding block ∨
        ∃ error, (t.apply now (.datagram bytes)).1 = .abort (.refused (.ofHostError error))
  fits : ∀ block payload, payload.length ≤ t.blockSize →
    (Packet.encodeData block payload).length < Packet.receiveLimit

variable {σ : Type} [Sink σ] {t : Transfer σ}

theorem apply_empty (hsize : 1 ≤ t.blockSize) {block : UInt16} {bytes : Bytes}
    (hp : t.phase = .awaitingData block) (hd : Packet.decode bytes = .ok (.data block []))
    (now : Nat) : (t.apply now (.datagram bytes)).2.phase = .holding block ∨
      ∃ error, (t.apply now (.datagram bytes)).1 = .abort (.refused (.ofHostError error)) := by
  have hn : t.newBlock? (.datagram bytes) = some [] := by
    simp [newBlock?, hp, hd, store, Except.isOk, Except.toBool]
  have hm := t.apply_moves now (.datagram bytes)
  generalize (t.apply now (.datagram bytes)).1 = step at hm
  generalize (t.apply now (.datagram bytes)).2 = t' at hm
  cases hm with
  | committed hp' =>
    obtain rfl := Phase.awaitingData.inj (hp'.symm.trans hp)
    exact .inl rfl
  | uncommitted => exact .inr ⟨_, rfl⟩
  | advanced _ hn' hl =>
    obtain rfl := Option.some.inj (hn'.symm.trans hn)
    have hzero : 0 = t.blockSize := hl
    omega
  | ignored _ _ hn' | resynced _ hn' | refused _ hn' | unstored _ hn' => simp [hn] at hn'
  | began hp' | repeated hp' | finished hp' => simp [hp] at hp'
  | resent _ he | expired _ he => cases he

theorem inRange_of_bounds (hsize : 8 ≤ t.blockSize ∧ t.blockSize ≤ 65464)
    (hinterval : 1000 ≤ t.timer.interval ∧ t.timer.interval ≤ 255000)
    (hretries : 1 ≤ t.timer.maxRetries) : t.InRange where
  blockSize := hsize
  interval := hinterval
  retries := hretries
  final _ _ hp hd := apply_empty (by omega) hp hd
  fits block payload h := by
    have hlimit : Packet.receiveLimit = 65464 + Packet.headerSize + 1 := rfl
    rw [Packet.length_encodeData]
    omega

theorem inRange_create {options : TransferOptions} {maxRetries : Nat} (ho : options.InRange)
    (hretries : 1 ≤ maxRetries) (sink : σ) (optionAck : Option Bytes) (observed : Bool) :
    (create sink options optionAck maxRetries observed).InRange :=
  inRange_of_bounds ho.blockSize ho.interval hretries

theorem InRange.run (h : t.InRange) {events : List (Nat × TransferEvent)}
    (hd : (t.run events).2.phase ≠ .done) : (t.run events).2.InRange := by
  obtain ⟨hblock, -⟩ := t.run_constants events
  obtain ⟨-, hinterval, hretries⟩ := run_limits hd
  exact inRange_of_bounds (hblock ▸ h.blockSize) (hinterval ▸ h.interval) (hretries ▸ h.retries)

end Transfer

namespace Receiver

variable {receiver : Receiver} {observed : Bool}

theorem negotiation_of_consider {tree : FileTree} {now : Nat} {arrival : Arrival}
    {notes : List Note} {acceptance : Acceptance}
    (hc : receiver.consider tree now arrival = (notes, .ok acceptance)) :
    ∃ requested, acceptance.negotiation = Negotiation.ofPairs receiver.defaults 0 requested := by
  have hanswers := receiver.consider_answers tree now arrival
  rw [hc] at hanswers
  cases hanswers
  exact ⟨_, rfl⟩

/-- The limits of a receiver are within the bounds that a peer may ask for. -/
structure InRange (receiver : Receiver) : Prop where
  interval : 1000 ≤ receiver.limits.interval ∧ receiver.limits.interval ≤ 255000
  retries : 1 ≤ receiver.limits.maxRetries

theorem InRange.create (h : receiver.InRange) (requested : List (String × String))
    (upload : StagedUpload) (observed : Bool) :
    let negotiation := Negotiation.ofPairs receiver.defaults 0 requested
    (Transfer.create upload negotiation.options negotiation.optionAck? receiver.limits.maxRetries
      observed).InRange := by
  have hsize : 8 ≤ Packet.defaultBlockSize ∧ Packet.defaultBlockSize ≤ 65464 := by decide
  have hdefaults : receiver.defaults.InRange := ⟨hsize, h.interval⟩
  exact Transfer.inRange_create (Negotiation.inRange_ofPairs hdefaults 0 requested) h.retries
    upload _ observed

theorem InRange.runs {transfer : Transfer StagedUpload} (h : receiver.InRange)
    (hr : Session.Runs receiver observed transfer) (hd : transfer.phase ≠ .done) :
    transfer.InRange := by
  cases hr with
  | created hc events =>
    obtain ⟨requested, hnegotiation⟩ := negotiation_of_consider hc
    rw [hnegotiation] at hd ⊢
    exact (h.create requested _ observed).run hd

theorem InRange.of_converse {session : Session} {tree : FileTree} {turns : List (Nat × Turn)}
    {active : Active} (h : session.receiver.InRange) (hs : session.stage = .listening tree)
    (ht : (session.converse turns).stage = .transferring active) : active.transfer.InRange :=
  h.runs (Session.runs_of_converse hs ht) (Session.waits_of_converse hs ht).undone

end Receiver

namespace Settings

variable {s : Settings} {tree : FileTree} {taken : Option HostError}

theorem Checked.creates (h : s.Checked tree) :
    ∃ receiver, Receiver.create tree s = .ok receiver ∧ receiver.InRange := by
  obtain ⟨place, hplace⟩ := h.root
  obtain ⟨patterns, hpatterns⟩ := h.patterns
  have hroot : tree.canonical s.root = .ok place := by rw [FileTree.canonical, hplace]; rfl
  let policy : WritePolicy :=
    { root := s.root, canonicalRoot := place, allowOverwrite := s.writing.allowOverwrite, patterns }
  have hpolicy : WritePolicy.create tree s.root s.writing.allowOverwrite
      s.writing.allowedPatterns = .ok policy := by
    rw [WritePolicy.create, hroot, hpatterns]
    rfl
  refine ⟨{ policy, limits := s.transfer, audits := s.logging.audit }, ?_, h.interval, h.retries⟩
  rw [Receiver.create, hpolicy]
  rfl

/-- Settings without a fault make a receiver on the same tree. Whatever options a request brings,
the transfer that it starts is within bounds, and so is every transfer under way in a session of
the receiver, over any tree. -/
theorem check_readies (h : s.check tree taken = .ok ()) :
    ∃ receiver, Receiver.create tree s = .ok receiver ∧
      (∀ requested (upload : StagedUpload) observed,
        let negotiation := Negotiation.ofPairs receiver.defaults 0 requested
        (Transfer.create upload negotiation.options negotiation.optionAck?
          receiver.limits.maxRetries observed).InRange) ∧
      ∀ (session : Session) tree' turns active, session.receiver = receiver →
        session.stage = .listening tree' →
        (session.converse turns).stage = .transferring active → active.transfer.InRange := by
  obtain ⟨receiver, hcreate, hrange⟩ := (checked_of_check h).creates
  refine ⟨receiver, hcreate, hrange.create, ?_⟩
  rintro session tree' turns active rfl hs ht
  exact hrange.of_converse hs ht

def starSettings : Settings :=
  { root := "/srv", writing := { allowedPatterns := ["a*"] } }

def starSession : Session :=
  { receiver :=
      { policy :=
          { root := "/srv", canonicalRoot := ["srv"], allowOverwrite := true
            patterns := [{ text := "a*", tokens := [.char 'a', .anySequence] }] }
        limits := {}, audits := true }
    deadline := none, observed := false, stage := .listening Session.inboxTree }

theorem check_readies_for_star :
    let served := starSession.converse [(0, .arrivals [Session.inboxRequest])]
    starSettings.check Session.inboxTree none = .ok () ∧
      Receiver.create Session.inboxTree starSettings = .ok starSession.receiver ∧
      ∃ active, served.stage = .transferring active ∧ active.transfer.InRange := by
  intro served
  have hport : served.port = .transfer := by decide +kernel
  have hended : served.isEnded = false := by decide +kernel
  have hcheck : starSettings.check Session.inboxTree none = .ok () :=
    ok_of_toOption (by decide +kernel)
  have hcreate : Receiver.create Session.inboxTree starSettings = .ok starSession.receiver :=
    ok_of_toOption (by decide +kernel)
  obtain ⟨receiver, hcreated, -, hsessions⟩ := check_readies hcheck
  obtain rfl := Except.ok.inj (hcreate.symm.trans hcreated)
  obtain ⟨active, hactive⟩ := Session.stage_of_port hport hended
  exact ⟨hcheck, hcreate, active, hactive, hsessions _ _ _ active rfl rfl hactive⟩

end Settings

end TftpReceiver
