import TftpReceiver.Proofs.ErrorPackets
import TftpReceiver.Proofs.Walks
import TftpReceiver.Receiver

/-! What a receiver can make of a datagram at its well-known port, said once: four ways to refuse
it and one to accept it, each with its notes. -/

namespace TftpReceiver

namespace FileTree

variable {tree : FileTree} {follow : Bool} {error : HostError}

/-- The failures of a path that leads nowhere or to no file. -/
def pathFaults : List HostError :=
  [.zeroInPath, .notFound, .nameTooLong, .notADirectory, .isADirectory, .tooManyLinks]

theorem walkWith_fault {onLink : Location → List String → Except HostError Found}
    (ho : ∀ here steps error, onLink here steps = .error error → error ∈ pathFaults)
    {here : Location} {steps : List String}
    (h : walkWith onLink tree follow here steps = .error error) : error ∈ pathFaults := by
  have hfault : ∀ fault : HostError, fault ∈ pathFaults →
      (.error fault : Except HostError Found) = .error error → error ∈ pathFaults := by
    rintro fault hf he
    exact Except.error.inj he ▸ hf
  induction steps generalizing here with
  | nil =>
    rw [walkWith] at h
    cases h
  | cons step rest ih =>
    rw [walkWith] at h
    split at h
    · exact ih h
    split at h
    · exact ih h
    split at h
    · exact hfault _ (by decide) h
    dsimp only at h
    split at h
    · split at h
      · cases h
      · split at h
        · cases h
        · exact hfault _ (by decide) h
    · exact ih h
    · split at h
      · cases h
      · exact hfault _ (by decide) h
    · split at h
      · cases h
      · exact ho _ _ _ h

theorem walk_fault {links : Nat} {here : Location} {steps : List String}
    (h : tree.walk follow links here steps = .error error) : error ∈ pathFaults := by
  induction links generalizing here steps error with
  | zero =>
    refine walkWith_fault (fun _ _ fault hf => ?_) h
    obtain rfl := Except.error.inj hf
    decide
  | succ links ih => exact walkWith_fault (fun _ _ _ hf => ih hf) h

theorem find_fault {path : String} (h : tree.find follow path = .error error) :
    error ∈ pathFaults := by
  unfold find at h
  split at h
  · obtain rfl := Except.error.inj h
    decide
  split at h
  · obtain rfl := Except.error.inj h
    decide
  split at h
  · obtain rfl := Except.error.inj h
    decide
  · exact walk_fault h

theorem create_fault {path : String} (h : tree.create path = .error error) :
    error ∈ pathFaults := by
  unfold create at h
  split at h
  · split at h
    · obtain rfl := Except.error.inj h
      decide
    · next hf =>
      obtain rfl := Except.error.inj h
      exact find_fault hf
  · split at h
    · cases h
    · obtain rfl := Except.error.inj h
      decide
    · obtain rfl := Except.error.inj h
      decide
    · cases h
    · next hf =>
      obtain rfl := Except.error.inj h
      exact find_fault hf

end FileTree

theorem Condition.isPlain_pathFault :
    ∀ error ∈ FileTree.pathFaults, (ofHostError error).isPlain = true := by
  decide +kernel

/-- How a condition is reported: by its code, where failures of the host start at 100, and its
text. -/
def Condition.report : Condition → Nat × String
  | protocol code => (code.word.toNat, code.message)
  | host number text => (100 + (number.getD 0).toNat, text)

theorem Condition.report_eq (condition : Condition) :
    condition.report = (condition.reportCode, condition.message) := by
  cases condition <;> rfl

theorem StagedUpload.create_fault {tree : FileTree} {target : String} {keepPartial : Bool}
    {error : HostError} (h : create tree target keepPartial = .error error) :
    error ∈ FileTree.pathFaults := by
  unfold create at h
  split at h
  · cases h
  · next hc =>
    obtain rfl := Except.error.inj h
    exact FileTree.create_fault hc

namespace Receiver

/-- The note of a write request, which bears the correlation of the transfer that it asks for. -/
def asked (now : Nat) (client : SocketAddress) (request : Request) : Note :=
  { transfer := some (Audit.correlation now client request.filename)
    detail := .writeRequest client.render request.filename request.mode.name
      (Audit.Detail.optionMembers request.options) }

/-- What becomes of a datagram, with its notes. -/
inductive Answers (receiver : Receiver) (tree : FileTree) (now : Nat) (arrival : Arrival) :
    List Note → Except Condition Acceptance → Prop
  | malformed {code} (hd : Request.decode arrival.bytes = .error code) :
      Answers receiver tree now arrival
        [{ detail := .protocolViolation arrival.source.render code.message },
          { detail := .requestRejected arrival.source.render none code.word.toNat code.message }]
        (.error (.protocol code))
  | read {request} (hd : Request.decode arrival.bytes = .ok request)
      (hk : request.direction = .read) :
      Answers receiver tree now arrival
        [{ detail := .requestRejected arrival.source.render (some request.filename) 4
            "only uploads are served" }]
        (.error (.protocol .illegalOperation))
  | refused {request violation} (hd : Request.decode arrival.bytes = .ok request)
      (hk : request.direction = .write)
      (hr : receiver.policy.resolve tree request.filename = .error violation) :
      Answers receiver tree now arrival
        ([asked now arrival.source request] ++
          (if violation.isEscape then
            [{ detail := .pathTraversalAttempt arrival.source.render request.filename
                violation.name }]
          else []) ++
          [{ detail := .requestRejected arrival.source.render (some request.filename)
              violation.code.word.toNat violation.name }])
        (.error (.protocol violation.code))
  | uncreated {request path error} (hd : Request.decode arrival.bytes = .ok request)
      (hk : request.direction = .write)
      (hr : receiver.policy.resolve tree request.filename = .ok path)
      (hc : StagedUpload.create tree path.target receiver.limits.keepPartial = .error error) :
      Answers receiver tree now arrival
        [asked now arrival.source request,
          { detail := .requestRejected arrival.source.render (some request.filename)
              (Condition.ofHostError error).report.1 (Condition.ofHostError error).report.2 }]
        (.error (.ofHostError error))
  | accepted {request path upload} (hd : Request.decode arrival.bytes = .ok request)
      (hk : request.direction = .write)
      (hr : receiver.policy.resolve tree request.filename = .ok path)
      (hc : StagedUpload.create tree path.target receiver.limits.keepPartial = .ok upload) :
      Answers receiver tree now arrival [asked now arrival.source request]
        (.ok {
          peer := arrival.source, filename := request.filename
          correlation := Audit.correlation now arrival.source request.filename
          target := path.target, upload
          negotiation := Negotiation.ofPairs receiver.defaults 0 request.options })

variable {receiver : Receiver} {tree : FileTree} {now : Nat} {arrival : Arrival}
  {notes : List Note} {condition : Condition} {acceptance : Acceptance}

theorem consider_answers (receiver : Receiver) (tree : FileTree) (now : Nat) (arrival : Arrival) :
    receiver.Answers tree now arrival (receiver.consider tree now arrival).1
      (receiver.consider tree now arrival).2 := by
  cases hd : Request.decode arrival.bytes with
  | error code =>
    simp only [consider, hd]
    exact .malformed hd
  | ok request =>
    cases hk : request.direction with
    | read =>
      simp only [consider, hd, hk]
      exact .read hd hk
    | write =>
      cases hr : receiver.policy.resolve tree request.filename with
      | error violation =>
        simp only [consider, hd, hk, considerWrite, hr]
        exact .refused hd hk hr
      | ok path =>
        cases hc : StagedUpload.create tree path.target receiver.limits.keepPartial with
        | error error =>
          have hanswers := @Answers.uncreated receiver tree now _ _ _ _ hd hk hr hc
          rw [Condition.report_eq] at hanswers
          simp only [consider, hd, hk, considerWrite, hr, hc]
          exact hanswers
        | ok upload =>
          simp only [consider, hd, hk, considerWrite, hr, hc]
          exact .accepted hd hk hr hc

theorem Answers.asked (h : receiver.Answers tree now arrival notes (.ok acceptance)) :
    ∃ note, notes = [note] ∧ note.transfer = some acceptance.correlation ∧
      note.detail.isOfTransfer = true := by
  cases h with
  | accepted => exact ⟨_, rfl, rfl, rfl⟩

/-- The text of a refusal arrives whole. -/
theorem Answers.isPlain (h : receiver.Answers tree now arrival notes (.error condition)) :
    condition.isPlain = true := by
  cases h with
  | malformed | read | refused => exact Condition.isPlain_protocol _
  | uncreated _ _ _ hc => exact Condition.isPlain_pathFault _ (StagedUpload.create_fault hc)

end Receiver

end TftpReceiver
