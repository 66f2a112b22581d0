import TftpReceiver.Proofs.ReadySettings
import TftpReceiver.Proofs.SavedSettings

/-! Which deadlines a clock can show: all those of transfers, and the one of the wait for a request
if the idle time leaves room for it. -/

namespace TftpReceiver

namespace Transfer

variable {σ : Type} [Sink σ] {t t' : Transfer σ} {now latest : Nat} {event : TransferEvent}
  {step : Step}

/-- A deadline was there before, or is set an interval ahead. -/
theorem Moves.deadline (hm : t.Moves now event step t') {deadline : Nat}
    (hd : t'.timer.deadline = some deadline) : t'.timer.interval = t.timer.interval ∧
      (deadline = now + t.timer.interval ∨ t.timer.deadline = some deadline) := by
  cases hm with
  | ignored => exact ⟨rfl, .inr hd⟩
  | began | resynced | advanced | committed => exact ⟨rfl, .inl (Option.some.inj hd).symm⟩
  | resent _ _ hr | repeated _ hr =>
    obtain ⟨-, rfl⟩ := Prod.mk.inj hr
    exact ⟨rfl, .inl (Option.some.inj hd).symm⟩
  | expired | refused | unstored | uncommitted => cases hd
  | finished _ timer hnone => cases hnone.symm.trans hd

/-- The deadline is no more than an interval behind a time. -/
def DueBy (latest : Nat) (t : Transfer σ) : Prop :=
  ∀ deadline, t.timer.deadline = some deadline → deadline ≤ latest + t.timer.interval

theorem DueBy.apply (h : t.DueBy latest) (hnow : now ≤ latest) (event : TransferEvent) :
    (t.apply now event).2.DueBy latest := by
  intro deadline hd
  obtain ⟨hinterval, hset⟩ := (t.apply_moves now event).deadline hd
  rw [hinterval]
  rcases hset with rfl | hbefore
  · omega
  · exact h deadline hbefore

omit [Sink σ] in
theorem dueBy_create (latest : Nat) (sink : σ) (options : TransferOptions)
    (optionAck : Option Bytes) (maxRetries : Nat) (observed : Bool) :
    (create sink options optionAck maxRetries observed).DueBy latest :=
  fun _ hd => nomatch hd

end Transfer

namespace Session

variable {session : Session} {latest now : Nat}

def DueBy (latest : Nat) (session : Session) : Prop :=
  ∀ active, session.stage = .transferring active → active.transfer.DueBy latest

theorem dueBy_invariant (latest : Nat) : InvariantAt (· ≤ latest) (DueBy latest) where
  begin := by
    rintro session tree now arrival notes acceptance hnow - - - active hs
    obtain rfl := Stage.transferring.inj hs
    exact (Transfer.dueBy_create latest _ _ _ _ _).apply hnow .start
  follow := by
    intro session active now hnow h hs event
    have happly := (h active hs).apply hnow event
    cases hstep : (active.transfer.apply now event).1 with
    | send | resync | hold | ignore =>
      intro other ho
      obtain rfl := Stage.transferring.inj ho
      exact happly
    | done | abort => exact fun other ho => Stage.noConfusion ho
  idle _ _ _ := fun other ho => Stage.noConfusion ho

/-- Up to half of what a clock can show there is room for any interval. -/
theorem isRepresentable_of_le {deadline interval : Nat} (hinterval : interval ≤ 255000)
    (hnow : now / 1000 ≤ clockSeconds / 2) (hd : deadline ≤ now + interval) :
    isRepresentable deadline = true := by
  have hclock : clockSeconds = 9223372036854775808 := rfl
  refine decide_eq_true ?_
  omega

theorem representable_of_converse {tree : FileTree} {turns : List (Nat × Turn)} {active : Active}
    (hrange : session.receiver.InRange) (hs : session.stage = .listening tree)
    (hturns : ∀ turn ∈ turns, turn.1 / 1000 ≤ clockSeconds / 2)
    (ht : (session.converse turns).stage = .transferring active) {deadline : Nat}
    (hd : active.transfer.timer.deadline = some deadline) : isRepresentable deadline = true := by
  let latest := clockSeconds / 2 * 1000 + 999
  have hlatest : latest / 1000 ≤ clockSeconds / 2 := by decide
  have hallowed : ∀ turn ∈ turns, turn.1 ≤ latest := by
    intro turn hm
    have hsecond := hturns turn hm
    omega
  have hlistening : session.DueBy latest := fun other ho => nomatch hs.symm.trans ho
  have hdue := (dueBy_invariant latest).converse hlistening hallowed active ht deadline hd
  have hinterval := (hrange.of_converse hs ht).interval
  exact isRepresentable_of_le hinterval.2 hlatest hdue

theorem start_isSome_iff (receiver : Receiver) (tree : FileTree) (address : SocketAddress)
    (observed : Bool) (now : Nat) : (start receiver tree address observed now).2.isSome = true ↔
      receiver.limits.idleSeconds = 0 ∨
        now / 1000 + receiver.limits.idleSeconds < clockSeconds := by
  by_cases hidle : receiver.limits.idleSeconds = 0
  · simp [start, hidle]
  · have hdeadline : (now + receiver.limits.idleSeconds * 1000) / 1000 =
        now / 1000 + receiver.limits.idleSeconds := by omega
    simp [start, hidle, isRepresentable, hdeadline]

end Session

theorem Receiver.limits_of_create {tree : FileTree} {s : Settings} {receiver : Receiver}
    (h : Receiver.create tree s = .ok receiver) : receiver.limits = s.transfer := by
  unfold Receiver.create at h
  cases hpolicy : WritePolicy.create tree s.root s.writing.allowOverwrite
      s.writing.allowedPatterns with
  | error fault =>
    rw [hpolicy] at h
    cases h
  | ok policy =>
    rw [hpolicy] at h
    obtain rfl := Except.ok.inj h
    rfl

namespace Settings

variable {s : Settings} {tree : FileTree} {taken : Option HostError}

/-- With settings without a fault, a receiver can wait for a request exactly if a clock can show
where its idle time ends, and without an idle time always. In the first half of what a clock can
show, every deadline of a transfer can be shown too, whatever options are asked for. -/
theorem check_bounds_deadlines (h : s.check tree taken = .ok ()) :
    ∃ receiver, Receiver.create tree s = .ok receiver ∧
      (∀ served address observed now,
        (Session.start receiver served address observed now).2.isSome = true ↔
          s.transfer.idleSeconds = 0 ∨
            now / 1000 + s.transfer.idleSeconds < Session.clockSeconds) ∧
      (∀ requested now, now / 1000 ≤ Session.clockSeconds / 2 →
        let options := (Negotiation.ofPairs receiver.defaults 0 requested).options
        Session.isRepresentable (now + options.interval) = true) ∧
      ∀ (session : Session) tree' turns active, session.receiver = receiver →
        session.stage = .listening tree' →
        (∀ turn ∈ turns, turn.1 / 1000 ≤ Session.clockSeconds / 2) →
        (session.converse turns).stage = .transferring active →
        ∀ deadline, active.transfer.timer.deadline = some deadline →
          Session.isRepresentable deadline = true := by
  obtain ⟨receiver, hcreate, hrange⟩ := (checked_of_check h).creates
  have hlimits := Receiver.limits_of_create hcreate
  have hsize : 8 ≤ Packet.defaultBlockSize ∧ Packet.defaultBlockSize ≤ 65464 := by decide
  have hdefaults : receiver.defaults.InRange := ⟨hsize, hrange.interval⟩
  refine ⟨receiver, hcreate, fun served address observed now => ?_,
    fun requested now hnow => ?_, ?_⟩
  · rw [Session.start_isSome_iff, hlimits]
  · have hinterval := (Negotiation.inRange_ofPairs hdefaults 0 requested).interval
    exact Session.isRepresentable_of_le hinterval.2 hnow (Nat.le_refl _)
  · rintro session tree' turns active rfl hs hturns ht deadline hd
    exact Session.representable_of_converse hrange hs hturns ht hd

def hurriedSettings : Settings := { root := "/srv", transfer := { idleSeconds := 60 } }

def hurriedSession : Session :=
  { receiver :=
      { policy :=
          { root := "/srv", canonicalRoot := ["srv"], allowOverwrite := true, patterns := [] }
        limits := { idleSeconds := 60 }, audits := true }
    deadline := some 4611686018427387964000, observed := false
    stage := .listening Session.inboxTree }

/-- At the latest time that is allowed. -/
theorem check_bounds_deadlines_at_last :
    let latest := 4611686018427387904000
    let served := hurriedSession.converse [(latest, .arrivals [Session.inboxRequest])]
    hurriedSettings.check Session.inboxTree none = .ok () ∧
      Receiver.create Session.inboxTree hurriedSettings = .ok hurriedSession.receiver ∧
      (Session.start hurriedSession.receiver Session.inboxTree Session.inboxPeer false
        latest).2.isSome = true ∧
      ∃ active deadline, served.stage = .transferring active ∧
        active.transfer.timer.deadline = some deadline ∧
        Session.isRepresentable deadline = true := by
  intro latest served
  have hport : served.port = .transfer := by decide +kernel
  have hended : served.isEnded = false := by decide +kernel
  have hcheck : hurriedSettings.check Session.inboxTree none = .ok () :=
    ok_of_toOption (by decide +kernel)
  have hcreate : Receiver.create Session.inboxTree hurriedSettings = .ok hurriedSession.receiver :=
    ok_of_toOption (by decide +kernel)
  obtain ⟨receiver, hcreated, hstart, -, hsessions⟩ := check_bounds_deadlines hcheck
  obtain rfl := Except.ok.inj (hcreate.symm.trans hcreated)
  obtain ⟨active, hactive⟩ := Session.stage_of_port hport hended
  have hwaits : active.transfer.Waits := Session.waits_of_converse rfl hactive
  obtain ⟨deadline, hdeadline, -⟩ := Session.settle_of_waits hactive hwaits
  have hroom : latest / 1000 + hurriedSettings.transfer.idleSeconds < Session.clockSeconds := by
    decide
  have hturns : ∀ turn ∈ [(latest, Turn.arrivals [Session.inboxRequest])],
      turn.1 / 1000 ≤ Session.clockSeconds / 2 := by
    intro turn hm
    obtain rfl := List.mem_singleton.mp hm
    decide
  exact ⟨hcheck, hcreate, (hstart _ _ _ _).mpr (.inr hroom), active, deadline, hactive, hdeadline,
    hsessions _ _ _ active rfl rfl hturns hactive deadline hdeadline⟩

/-- Their idle time ends when no clock can show it. -/
def endlessSettings : Settings :=
  { root := "/srv", transfer := { idleSeconds := 9223372036854775808 } }

def endlessTree : FileTree :=
  { entries :=
      [(["srv"], .directory), (["upload.toml"], .file (Utf8.encode endlessSettings.render))] }

def endlessReceiver : Receiver :=
  { policy := { root := "/srv", canonicalRoot := ["srv"], allowOverwrite := true, patterns := [] }
    limits := endlessSettings.transfer, audits := true }

/-- The start is noted, and then the run breaks off. -/
theorem check_passes_endless_idle :
    load endlessTree "/upload.toml" = .ok endlessSettings ∧
      endlessSettings.check endlessTree none = .ok () ∧
      Receiver.create endlessTree endlessSettings = .ok endlessReceiver ∧
      ∀ now, Session.start endlessReceiver endlessTree endlessSettings.bind false now =
        ([{ detail := .serverStarted "0.0.0.0:69" "/srv" }], none) := by
  have hfits : endlessSettings.Fits := ⟨by decide, by decide, by decide⟩
  have hread : endlessTree.read "/upload.toml" = .ok (Utf8.encode endlessSettings.render) := rfl
  have hcheck : endlessSettings.check endlessTree none = .ok () :=
    ok_of_toOption (by decide +kernel)
  have hcreate : Receiver.create endlessTree endlessSettings = .ok endlessReceiver :=
    ok_of_toOption (by decide +kernel)
  have haddress : endlessSettings.bind.render = "0.0.0.0:69" := by decide +kernel
  have hidle : endlessReceiver.limits.idleSeconds = Session.clockSeconds := rfl
  have hclock : Session.clockSeconds ≠ 0 := by decide
  refine ⟨load_of_read hfits hread, hcheck, hcreate, fun now => Prod.ext ?_ ?_⟩
  · rw [← haddress]
    rfl
  · rw [← Option.not_isSome_iff_eq_none, Session.start_isSome_iff, hidle]
    omega

end Settings

end TftpReceiver
