import TftpReceiver.Proofs.Conversation
import TftpReceiver.Proofs.RequestAnswers
import TftpReceiver.Proofs.StagedFiles
import TftpReceiver.Proofs.UploadPlace

/-! A whole session on the file tree: a completed upload leaves the target with what was
accepted, and a failed one leaves the tree as it was, except for a partial upload that is kept. -/

namespace TftpReceiver

/-- A tree that differs from the one before in what the target holds, and in nothing else. -/
structure FileTree.Completes (tree now : FileTree) (target staging : String) (bytes : Bytes) :
    Prop where
  stored : ∃ place, now.inspect false target = .ok (place, .file bytes) ∧
    ∀ other, other ≠ place → now.lookup other = tree.lookup other
  reads : now.read target = .ok bytes
  unstaged : now.inspect false staging = .error .notFound
  working : now.working = tree.working

/-- A tree that differs from the one before, if at all, in a staging file that is left. -/
structure FileTree.Undoes (tree now : FileTree) (target staging : String) (left : Option Bytes) :
    Prop where
  kept : now.inspect false target = tree.inspect false target
  rest : match left with
    | none => now.inspect false staging = .error .notFound ∧ now.lookup = tree.lookup
    | some bytes => ∃ place, now.inspect false staging = .ok (place, .file bytes) ∧
      ∀ other, other ≠ place → now.lookup other = tree.lookup other
  working : now.working = tree.working

namespace StagedUpload

variable {tree now : FileTree} {target : String} {directory : Location} {name : String}
  {bytes : Bytes} {left : Option Bytes}

theorem Delivered.way (hroom : Room tree target directory name)
    (h : Delivered tree now directory name bytes) : now.way = tree.way := by
  funext other
  by_cases ht : other = directory ++ [name]
  · rw [ht, hroom.free, FileTree.way_eq_none]
    exact .inr ⟨bytes, h.target⟩
  · by_cases hs : other = directory ++ [stagingPath name]
    · rw [hs, FileTree.way, FileTree.way, h.staging, hroom.fresh]
    · rw [FileTree.way, FileTree.way, h.elsewhere other ht hs]

theorem Delivered.completes (hroom : Room tree target directory name)
    (h : Delivered tree now directory name bytes) :
    tree.Completes now target (stagingPath target) bytes := by
  have hnames := hroom.names.congr (h.way hroom) h.working
  have hlink : ∀ link, now.lookup (directory ++ [name]) ≠ some (.link link) := by
    rw [h.target]
    simp
  refine ⟨⟨directory ++ [name], ?_, fun other ho => ?_⟩, ?_, ?_, h.working⟩
  · rw [hnames.inspect, h.target]
  · by_cases hs : other = directory ++ [stagingPath name]
    · rw [hs, h.staging, hroom.fresh]
    · exact h.elsewhere other ho hs
  · rw [FileTree.read, FileTree.inspect, hnames.find (.inr hlink), FileTree.foundAt, h.target]
  · rw [(hroom.beside.congr (h.way hroom) h.working).inspect, h.staging]

theorem Restored.undoes (hroom : Room tree target directory name)
    (h : Restored tree now (directory ++ [stagingPath name]) left) :
    tree.Undoes now target (stagingPath target) left := by
  have hway := h.way hroom.vacant
  have hbeside := hroom.beside.congr hway h.working
  refine ⟨?_, ?_, h.working⟩
  · rw [(hroom.names.congr hway h.working).inspect, hroom.names.inspect,
      h.elsewhere _ (staged_ne directory name)]
  · cases left with
    | none =>
      refine ⟨by rw [hbeside.inspect, h.staging]; rfl, funext fun other => ?_⟩
      by_cases hs : other = directory ++ [stagingPath name]
      · rw [hs, h.staging, hroom.fresh]
        rfl
      · exact h.elsewhere other hs
    | some bytes => exact ⟨_, by rw [hbeside.inspect, h.staging]; rfl, h.elsewhere⟩

end StagedUpload

namespace Receiver

variable {receiver : Receiver} {tree : FileTree} {now : Nat} {arrival : Arrival}
  {notes : List Note} {acceptance : Acceptance}

theorem resolve_of_consider (h : receiver.consider tree now arrival = (notes, .ok acceptance)) :
    ∃ filename path, receiver.policy.resolve tree filename = .ok path ∧
      acceptance.target = path.target ∧
      StagedUpload.create tree path.target receiver.limits.keepPartial = .ok acceptance.upload := by
  have hanswers := receiver.consider_answers tree now arrival
  rw [h] at hanswers
  cases hanswers with
  | accepted _ _ hr hc => exact ⟨_, _, hr, rfl, hc⟩

/-- An accepted request has room for its upload, which is open, in the tree without the file that
the staging file takes the place of. -/
theorem erased_of_consider (h : receiver.consider tree now arrival = (notes, .ok acceptance)) :
    ∃ directory name, let place := directory ++ [StagedUpload.stagingPath name]
      tree.Names acceptance.target directory name ∧
      tree.Names acceptance.upload.staging directory (StagedUpload.stagingPath name) ∧
      StagedUpload.Room (tree.erase place) acceptance.target directory name ∧
      StagedUpload.Open (tree.erase place) place acceptance.target receiver.limits.keepPartial
        acceptance.upload [] := by
  obtain ⟨filename, path, hr, ht, hc⟩ := resolve_of_consider h
  have hstaging := (WritePolicy.clears_of_resolve hr).staging
  obtain ⟨hupload, place, opened, hopen⟩ := StagedUpload.opened_of_create hc
  obtain ⟨found, hf⟩ := FileTree.find_of_create hopen
  rw [← hstaging] at hf
  obtain ⟨directory, name, hw⟩ := WritePolicy.within_of_resolve hr hf
  have hbeside := hw.staging
  rw [hstaging] at hbeside
  have hway := (hbeside.of_create hw.unlinked hopen).2.2
  have hroom := StagedUpload.Room.of_erase hw.target hbeside hw.free hway
  rw [← StagedUpload.create_erase hbeside hway] at hc
  rw [StagedUpload.staging, hupload, ht]
  exact ⟨directory, name, hw.target, hbeside, hroom, hroom.create hc⟩

/-- An accepted request whose staging file is new has room for its upload, which is open. -/
theorem room_of_consider (h : receiver.consider tree now arrival = (notes, .ok acceptance))
    (hfresh : ∀ found, tree.inspect false acceptance.upload.staging ≠ .ok found) :
    ∃ directory name, StagedUpload.Room tree acceptance.target directory name ∧
      StagedUpload.Open tree (directory ++ [StagedUpload.stagingPath name]) acceptance.target
        receiver.limits.keepPartial acceptance.upload [] := by
  obtain ⟨directory, name, -, hbeside, hroom, hopen⟩ := erased_of_consider h
  have hlacks : tree.lookup (directory ++ [StagedUpload.stagingPath name]) = none := by
    rw [hbeside.inspect] at hfresh
    cases hl : tree.lookup (directory ++ [StagedUpload.stagingPath name]) with
    | none => rfl
    | some entry => exact absurd (by rw [hl]) (hfresh (_, entry))
  rw [FileTree.erase_of_missing (by simp) hlacks] at hroom hopen
  exact ⟨directory, name, hroom, hopen⟩

end Receiver

namespace Session

variable {session : Session} {tree tree' : FileTree} {now : Nat} {arrival : Arrival}
  {notes : List Note} {acceptance : Acceptance}

theorem receive_accepted (hs : session.stage = .listening tree)
    (h : session.receiver.consider tree now
      { arrival with bytes := arrival.bytes.take Packet.receiveLimit } = (notes, .ok acceptance))
    (rest : List Arrival) :
    (session.receive now (arrival :: rest)).2 = (session.begin now acceptance).2 := by
  simp [receive, hs, h]

/-- Whatever is sent to a session that has accepted a request, and whenever, if there was no
staging file before it can only end with the accepted payloads in the target, or with a failure
and the tree as it was. A partial upload stays only where that is asked for. -/
theorem converse_completes_or_undoes (hs : session.stage = .listening tree)
    (h : session.receiver.consider tree now
      { arrival with bytes := arrival.bytes.take Packet.receiveLimit } = (notes, .ok acceptance))
    (hfresh : ∀ found, tree.inspect false acceptance.upload.staging ≠ .ok found)
    (rest : List Arrival) (turns : List (Nat × Turn)) {result : Except Failure Outcome} :
    let begun := (session.receive now (arrival :: rest)).2
    let payloads := begun.accepted turns
    (begun.converse turns).stage = .ended tree' result →
      match result with
      | .ok outcome =>
        tree.Completes tree' acceptance.target acceptance.upload.staging payloads.flatten ∧
          outcome.path = acceptance.target ∧ outcome.size = payloads.flatten.length ∧
          outcome.blocks = payloads.length
      | .error _ =>
        tree.Undoes tree' acceptance.target acceptance.upload.staging
          (if session.receiver.limits.keepPartial then some payloads.flatten else none) := by
  intro begun payloads hended
  obtain ⟨directory, name, hroom, hopen⟩ := Receiver.room_of_consider h hfresh
  have hbegun : Serves acceptance.upload acceptance.target begun.stage [] := by
    simpa only [begun, receive_accepted hs h] using serves_begin session now acceptance
  have hserves := serves_converse turns hbegun
  rw [List.nil_append, hended] at hserves
  rw [StagedUpload.staging, hopen.target]
  cases hserves with
  | completed hp hl ht hsize hb =>
    obtain ⟨full, last, he, -, -, hpublished⟩ := hl.stands.of_done hp
    rw [← he] at hpublished
    exact ⟨(hopen.published hroom hpublished).completes hroom, ht, hsize.trans hl.bytes,
      hb.trans hl.blocks⟩
  | failed hp hl failure =>
    exact (hopen.dropped hroom (hl.stands.of_aborted hp)).undoes hroom

def completed? (session : Session) : Option (FileTree × Outcome) :=
  match session.stage with
  | .ended tree (.ok outcome) => some (tree, outcome)
  | _ => none

theorem stage_of_completed? {outcome : Outcome} (h : session.completed? = some (tree, outcome)) :
    session.stage = .ended tree (.ok outcome) := by
  unfold completed? at h
  split at h
  · next hs =>
    obtain ⟨rfl, rfl⟩ := Prod.mk.inj (Option.some.inj h)
    exact hs
  · cases h

def inboxTree : FileTree := { entries := [(["srv"], .directory), (["srv", "a"], .file [1])] }

def inboxSession : Session :=
  { receiver :=
      { policy :=
          { root := "/srv", canonicalRoot := ["srv"], allowOverwrite := true, patterns := [] }
        limits := {}, audits := false }
    deadline := none, observed := false, stage := .listening inboxTree }

def inboxPeer : SocketAddress := .v4 ⟨10, 0, 0, 7⟩ 4000

/-- A request to write the file in octet mode. -/
def inboxRequest : Arrival :=
  { source := inboxPeer, bytes := [0, 2, 97, 0, 111, 99, 116, 101, 116, 0] }

def inboxTurns : List (Nat × Turn) :=
  [(1, .silence), (2, .arrivals [{ source := inboxPeer, bytes := [0, 3, 0, 1, 7, 8] }]),
    (2000, .silence)]

def inboxAcceptance : Acceptance :=
  { peer := inboxPeer, filename := "a", correlation := Audit.correlation 0 inboxPeer "a"
    target := "/srv/a", negotiation := Negotiation.ofPairs { interval := 1000 } 0 []
    upload := {
      tree := inboxTree.put ["srv", "a.upload"] (.file []), target := "/srv/a"
      keepPartial := false, opened := some ["srv", "a.upload"] } }

theorem converse_completes_inbox_upload :
    let begun := (inboxSession.receive 0 [inboxRequest]).2
    begun.accepted inboxTurns = [[7, 8]] ∧
      ∃ tree' outcome, (begun.converse inboxTurns).stage = .ended tree' (.ok outcome) ∧
        inboxTree.Completes tree' "/srv/a" "/srv/a.upload" [7, 8] ∧ outcome.size = 2 := by
  intro begun
  have hok : (inboxSession.receiver.consider inboxTree 0
      { inboxRequest with bytes := inboxRequest.bytes.take Packet.receiveLimit }).2 =
        .ok inboxAcceptance := ok_of_toOption (by decide +kernel)
  have hnew : (inboxTree.inspect false inboxAcceptance.upload.staging).toOption = none := by
    decide +kernel
  have hfresh : ∀ found, inboxTree.inspect false inboxAcceptance.upload.staging ≠ .ok found := by
    intro found hf
    rw [hf] at hnew
    cases hnew
  have hpayloads : begun.accepted inboxTurns = [[7, 8]] := by decide +kernel
  have hended : (begun.converse inboxTurns).completed?.isSome = true := by decide +kernel
  obtain ⟨⟨tree', outcome⟩, hcompleted⟩ := Option.isSome_iff_exists.mp hended
  have hstage := stage_of_completed? hcompleted
  obtain ⟨hcompletes, -, hsize, -⟩ := converse_completes_or_undoes rfl (Prod.ext rfl hok) hfresh []
    inboxTurns hstage
  rw [hpayloads] at hcompletes hsize
  exact ⟨hpayloads, tree', outcome, hstage, hcompletes, hsize⟩

end Session

end TftpReceiver
