import TftpReceiver.Proofs.HandledUploads
import TftpReceiver.Proofs.ServedUpload

/-! A session from its first datagram on, where files may not be overwritten: it works on the tree
only for the one request that it accepts, and leaves all files but one that has the name of the
staging file. -/

namespace TftpReceiver

namespace Session

/-- The request that a listening session accepts from the datagrams at its port. -/
def admits (now : Nat) : List Arrival → Session → Option Acceptance
  | [], _ => none
  | arrival :: rest, session =>
    match session.stage with
    | .listening tree =>
      match session.receiver.consider tree now
          { arrival with bytes := arrival.bytes.take Packet.receiveLimit } with
      | (_, .ok acceptance) => some acceptance
      | (_, .error _) => admits now rest session
    | _ => none

def admitsIn (now : Nat) (session : Session) : Turn → Option Acceptance
  | .arrivals arrivals => session.admits now arrivals
  | .silence => none

/-- The request that is accepted in a sequence of turns. -/
def admitted (session : Session) : List (Nat × Turn) → Option Acceptance
  | [] => none
  | (now, turn) :: rest =>
    (session.admitsIn now turn).or ((session.turn now turn).2.admitted rest)

variable {session : Session} {tree : FileTree} {result : Except Failure Outcome}

theorem settleWithin_ended (hs : session.stage = .ended tree result) (now count : Nat) :
    session.settleWithin now count = ([], session) := by
  cases count <;> simp [settleWithin, dueTime, hs]

theorem turn_ended (hs : session.stage = .ended tree result) (now : Nat) (turn : Turn) :
    (session.turn now turn).2 = session ∧ session.admitsIn now turn = none := by
  cases turn with
  | silence => exact ⟨congrArg Prod.snd (settleWithin_ended hs now _), rfl⟩
  | arrivals arrivals =>
    cases arrivals with
    | nil => exact ⟨rfl, rfl⟩
    | cons arrival rest => simp [Session.turn, receive, admitsIn, admits, hs]

theorem converse_ended (hs : session.stage = .ended tree result) (turns : List (Nat × Turn)) :
    session.converse turns = session ∧ session.admitted turns = none := by
  induction turns with
  | nil => exact ⟨rfl, rfl⟩
  | cons head rest ih =>
    obtain ⟨now, turn⟩ := head
    obtain ⟨hturn, hnone⟩ := turn_ended hs now turn
    rw [converse, admitted, hturn, hnone]
    exact ih

theorem settle_listening (hs : session.stage = .listening tree) (now : Nat) :
    session.settle now = ([], session) ∨ ∃ idle, session.settle now = ([], idle) ∧
      idle.stage = .ended tree (.error (.idle session.receiver.limits.idleSeconds)) := by
  rw [settle, settleWithin]
  split
  · have hended : session.onTimeout now = ([], { session with
        stage := .ended tree (.error (.idle session.receiver.limits.idleSeconds)) }) := by
      simp only [onTimeout, hs]
    rw [hended]
    dsimp only
    rw [settleWithin_ended rfl]
    exact .inr ⟨_, rfl, rfl⟩
  · exact .inl rfl

theorem receive_listening (hs : session.stage = .listening tree) (now : Nat)
    (arrivals : List Arrival) :
    (session.admits now arrivals = none ∧ (session.receive now arrivals).2 = session) ∨
    ∃ arrival notes acceptance, session.admits now arrivals = some acceptance ∧
      session.receiver.consider tree now arrival = (notes, .ok acceptance) ∧
      (session.receive now arrivals).2 = (session.begin now acceptance).2 := by
  induction arrivals with
  | nil => exact .inl ⟨rfl, rfl⟩
  | cons arrival rest ih =>
    rcases hc : session.receiver.consider tree now
      { arrival with bytes := arrival.bytes.take Packet.receiveLimit } with ⟨notes, answer⟩
    cases answer with
    | error condition => simpa [admits, receive, hs, hc] using ih
    | ok acceptance =>
      exact .inr ⟨_, notes, acceptance, by simp [admits, hs, hc], hc, receive_accepted hs hc rest⟩

theorem turn_listening (hs : session.stage = .listening tree) (now : Nat) (turn : Turn) :
    (session.admitsIn now turn = none ∧ ((session.turn now turn).2 = session ∨
      ∃ result, (session.turn now turn).2.stage = .ended tree result)) ∨
    ∃ arrival notes acceptance, session.admitsIn now turn = some acceptance ∧
      session.receiver.consider tree now arrival = (notes, .ok acceptance) ∧
      (session.turn now turn).2 = (session.begin now acceptance).2 := by
  cases turn with
  | silence =>
    refine .inl ⟨rfl, ?_⟩
    rw [Session.turn]
    rcases settle_listening hs now with hsame | ⟨idle, hidle, hstage⟩
    · exact .inl (congrArg Prod.snd hsame)
    · rw [hidle]
      exact .inr ⟨_, hstage⟩
  | arrivals arrivals =>
    rcases receive_listening hs now arrivals with ⟨hnone, hsame⟩ | haccepted
    · exact .inl ⟨hnone, .inl hsame⟩
    · exact .inr haccepted

/-- A session does nothing to the tree before it accepts a request, and serves that one then. -/
theorem converse_listening (hs : session.stage = .listening tree) (turns : List (Nat × Turn)) :
    (session.admitted turns = none ∧ (session.converse turns).tree = tree ∧
      (session.converse turns).abandon = tree) ∨
    ∃ now arrival notes acceptance payloads, session.admitted turns = some acceptance ∧
      session.receiver.consider tree now arrival = (notes, .ok acceptance) ∧
      Serves acceptance.upload acceptance.target (session.converse turns).stage payloads := by
  induction turns with
  | nil => exact .inl ⟨rfl, by simp [converse, Session.tree, hs], by simp [converse, abandon, hs]⟩
  | cons head rest ih =>
    obtain ⟨now, turn⟩ := head
    rw [converse, admitted]
    rcases turn_listening hs now turn with
      ⟨hnone, hsame | ⟨result, hended⟩⟩ | ⟨arrival, notes, acceptance, hsome, hc, hbegun⟩
    · rw [hnone, hsame]
      exact ih
    · obtain ⟨hconverse, hadmitted⟩ := converse_ended hended rest
      rw [hnone, hconverse, hadmitted]
      exact .inl ⟨rfl, by simp [Session.tree, hended], by simp [abandon, hended]⟩
    · rw [hsome, hbegun]
      have hserves := serves_converse rest (serves_begin session now acceptance)
      exact .inr ⟨now, arrival, notes, acceptance, _, rfl, hc, hserves⟩

theorem Serves.leaves {fresh : StagedUpload} {target : String} {payloads : List Bytes}
    {P : StagedUpload → Prop} (h : Serves fresh target session.stage payloads)
    (hk : Sink.Preserves P) (hf : P fresh) :
    (∃ upload, P upload ∧ session.tree = upload.tree) ∧
      ∃ upload, P upload ∧ session.abandon = upload.tree := by
  unfold Session.tree abandon
  cases hs : session.stage with
  | listening tree =>
    rw [hs] at h
    cases h
  | transferring active =>
    rw [hs] at h
    cases h with
    | transferring ht hl =>
      have hsink := hk.ledger hf hl
      exact ⟨⟨_, hsink, rfl⟩, _, hk.discard hsink, rfl⟩
  | ended tree result =>
    rw [hs] at h
    cases h with
    | completed hp hl | failed hp hl =>
      have hsink := hk.ledger hf hl
      exact ⟨⟨_, hsink, rfl⟩, _, hsink, rfl⟩

/-- Where no file may be overwritten, every file is still there after any requests and any
conversation, and also when the session is given up then. The one exception is a file that has
the name of the staging file of the accepted request. -/
theorem converse_keeps_files (hs : session.stage = .listening tree)
    (hp : session.receiver.policy.allowOverwrite = false) (turns : List (Nat × Turn)) :
    let ended := session.converse turns
    match session.admitted turns with
    | none => ended.tree = tree ∧ ended.abandon = tree
    | some acceptance => ∀ place data, tree.lookup place = some (.file data) →
      tree.inspect false (StagedUpload.stagingPath acceptance.target) ≠ .ok (place, .file data) →
        ended.tree.lookup place = some (.file data) ∧
        ended.abandon.lookup place = some (.file data) := by
  intro ended
  rcases converse_listening hs turns with
    ⟨hnone, hkept⟩ | ⟨now, arrival, notes, acceptance, payloads, hsome, hc, hserves⟩
  · rw [hnone]
    exact hkept
  · rw [hsome]
    intro place data hl hplace
    obtain ⟨filename, path, hr, ht, hcreate⟩ := Receiver.resolve_of_consider hc
    have hstaging := (WritePolicy.clears_of_resolve hr).staging
    rw [ht, ← hstaging] at hplace
    have hfresh := StagedUpload.handled_create hstaging hcreate
    obtain ⟨⟨upload, hupload, htree⟩, given, hgiven, habandon⟩ :=
      hserves.leaves (StagedUpload.handled_preserved path tree) hfresh
    rw [htree, habandon]
    exact ⟨WritePolicy.file_kept hp hr hupload hl hplace,
      WritePolicy.file_kept hp hr hgiven hl hplace⟩

/-- A file that has the name of the staging file of another one. -/
def guardedTree : FileTree :=
  { entries :=
      [(["srv"], .directory), (["srv", "a.upload"], .file [9]), (["srv", "b"], .file [1])] }

def guardedSession : Session :=
  { receiver :=
      { policy :=
          { root := "/srv", canonicalRoot := ["srv"], allowOverwrite := false, patterns := [] }
        limits := {}, audits := false }
    deadline := none, observed := false, stage := .listening guardedTree }

def guardedTurns : List (Nat × Turn) := (0, .arrivals [inboxRequest]) :: inboxTurns

theorem converse_keeps_guarded_file :
    guardedSession.stage = .listening guardedTree ∧
      guardedSession.receiver.policy.allowOverwrite = false ∧
      (guardedSession.admitted guardedTurns).map (·.target) = some "/srv/a" ∧
      (guardedSession.converse guardedTurns).tree.lookup ["srv", "a"] = some (.file [7, 8]) ∧
      guardedTree.lookup ["srv", "b"] = some (.file [1]) ∧
      (guardedSession.converse guardedTurns).tree.lookup ["srv", "b"] = some (.file [1]) := by
  have htarget : (guardedSession.admitted guardedTurns).map (·.target) = some "/srv/a" := by
    decide +kernel
  have hdelivered : (guardedSession.converse guardedTurns).tree.lookup ["srv", "a"] =
      some (.file [7, 8]) := by decide +kernel
  have hfile : guardedTree.lookup ["srv", "b"] = some (.file [1]) := by decide
  have hother : (guardedTree.inspect false (StagedUpload.stagingPath "/srv/a")).toOption =
      some (["srv", "a.upload"], .file [9]) := by decide +kernel
  have hstage : guardedSession.stage = .listening guardedTree := rfl
  have hpolicy : guardedSession.receiver.policy.allowOverwrite = false := rfl
  have hkept := converse_keeps_files hstage hpolicy guardedTurns
  obtain ⟨acceptance, hadmitted, ht⟩ := Option.map_eq_some_iff.mp htarget
  rw [hadmitted] at hkept
  have hstaging : guardedTree.inspect false (StagedUpload.stagingPath acceptance.target) ≠
      .ok (["srv", "b"], .file [1]) := by
    rw [ht, ok_of_toOption hother]
    simp
  obtain ⟨hb, -⟩ := hkept _ _ hfile hstaging
  exact ⟨hstage, hpolicy, htarget, hdelivered, hfile, hb⟩

theorem converse_takes_staging_name :
    guardedSession.receiver.policy.allowOverwrite = false ∧
      guardedSession.tree.lookup ["srv", "a.upload"] = some (.file [9]) ∧
      (guardedSession.converse guardedTurns).tree.lookup ["srv", "a.upload"] = none := by
  refine ⟨rfl, ?_, ?_⟩ <;> decide +kernel

end Session

end TftpReceiver
