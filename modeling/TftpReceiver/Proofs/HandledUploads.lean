import TftpReceiver.Proofs.Accounts
import TftpReceiver.Proofs.Confinement

/-! What every use of a sink preserves, a whole transfer preserves. A staged upload works on its
own two paths only, and so it leaves every file but the one at its staging path. -/

namespace TftpReceiver

namespace Sink

variable {σ : Type} [Sink σ] {P : σ → Prop} {fresh sink sink' : σ} {payloads : List Bytes}

structure Preserves (P : σ → Prop) : Prop where
  write : ∀ {sink}, P sink → ∀ payload, P (Sink.write sink payload).2
  flush : ∀ {sink}, P sink → P (Sink.flush sink).2
  publish : ∀ {sink}, P sink → P (Sink.publish sink).2
  discard : ∀ {sink}, P sink → P (Sink.discard sink).2

theorem Preserves.stores (hk : Preserves P) (h : P sink) {payload : Bytes}
    {answer : Except Condition Unit} (hs : Stores sink payload answer sink') : P sink' := by
  have hwritten := hk.write h payload
  cases hs with
  | empty => exact h
  | full _ hw | short _ _ hw | failed _ hw => rwa [hw] at hwritten

theorem Preserves.commits (hk : Preserves P) (h : P sink) {answer : Except HostError Unit}
    (hc : Commits sink answer sink') : P sink' := by
  have hflushed := hk.flush h
  cases hc with
  | unflushed hf => rwa [hf] at hflushed
  | flushed hf hp =>
    rw [hf] at hflushed
    have hpublished := hk.publish hflushed
    rwa [hp] at hpublished

theorem Preserves.filled (hk : Preserves P) (h : P fresh) (hf : Filled fresh payloads sink) :
    P sink := by
  induction hf with
  | fresh => exact h
  | stored _ hs ih => exact hk.stores ih hs

theorem Preserves.dropped (hk : Preserves P) (h : P fresh) (hd : Dropped fresh payloads sink) :
    P sink := by
  cases hd with
  | filled hf => exact hk.discard (hk.filled h hf)
  | unstored hf hs => exact hk.discard (hk.stores (hk.filled h hf) hs)
  | uncommitted hf hc => exact hk.discard (hk.commits (hk.filled h hf) hc)

theorem Preserves.ledger {t : Transfer σ} (hk : Preserves P) (h : P fresh)
    (hl : t.Ledger fresh payloads) : P t.sink := by
  have hs := hl.stands
  cases hs with
  | waiting _ hs => exact hs ▸ h
  | awaiting _ _ hs => exact hk.filled h hs
  | holding _ _ _ hs | done _ _ _ hs =>
    obtain ⟨hf, hc⟩ := hs
    exact hk.commits (hk.filled h hf) hc
  | aborted _ _ _ _ _ hs => exact hk.dropped h hs

end Sink

namespace StagedUpload

variable {tree : FileTree} {path : UploadPath} {upload : StagedUpload}

/-- An upload that has used the paths of its target, and nothing else, on a tree. -/
structure Handled (path : UploadPath) (tree : FileTree) (upload : StagedUpload) : Prop where
  staging : path.staging = stagingPath path.target
  target : upload.target = path.target
  handles : path.Handles tree upload.tree upload.opened

theorem handled_create {keepPartial : Bool} (hp : path.staging = stagingPath path.target)
    (hc : create tree path.target keepPartial = .ok upload) : Handled path tree upload := by
  unfold create at hc
  rw [← hp] at hc
  cases hopen : tree.create path.staging with
  | error e => simp [hopen] at hc
  | ok opened =>
    obtain ⟨place, next⟩ := opened
    rw [hopen] at hc
    obtain rfl := Except.ok.inj hc
    exact ⟨hp, rfl, .opened .untouched hopen⟩

theorem Handled.settle (h : Handled path tree upload) : Handled path tree upload.settle := by
  unfold StagedUpload.settle
  split
  · exact h
  · next place hopen =>
    refine ⟨h.staging, h.target, ?_⟩
    have hhandles := h.handles
    rw [hopen] at hhandles
    simpa [hopen] using hhandles.written upload.pending

theorem Handled.pend (h : Handled path tree upload) (pending : Bytes) :
    Handled path tree { upload with pending } :=
  ⟨h.staging, h.target, h.handles⟩

theorem Handled.hand (h : Handled path tree upload) (payload : Bytes) :
    Handled path tree (upload.hand payload) := by
  unfold StagedUpload.hand
  dsimp only
  split
  · exact h.pend _
  · have hmade : Handled path tree (if bufferSize - upload.pending.length < payload.length then
        upload.settle else upload) := by
      split
      · exact h.settle
      · exact h
    split
    · exact (hmade.pend payload).settle
    · exact hmade.pend _

theorem Handled.close (h : Handled path tree upload) : Handled path tree upload.close :=
  ⟨h.staging, h.settle.target, .closed h.settle.handles⟩

theorem Handled.publish (h : Handled path tree upload) :
    Handled path tree upload.publish.2 := by
  unfold StagedUpload.publish
  split
  · exact h
  · have hclosed := h.close
    dsimp only
    split
    · next renamed hr =>
      rw [StagedUpload.staging, hclosed.target, ← h.staging] at hr
      have hhandles : path.Handles tree renamed none := .renamed hclosed.handles hr
      exact ⟨h.staging, hclosed.target, hhandles⟩
    · exact hclosed

theorem Handled.discard (h : Handled path tree upload) :
    Handled path tree upload.discard.2 := by
  unfold StagedUpload.discard
  have hclosed := h.close
  split
  · exact h
  · dsimp only
    split
    · exact ⟨h.staging, hclosed.target, hclosed.handles⟩
    · split
      · next removed hr =>
        rw [StagedUpload.staging, hclosed.target, ← h.staging] at hr
        have hhandles : path.Handles tree removed none := .removed hclosed.handles hr
        exact ⟨h.staging, hclosed.target, hhandles⟩
      · exact ⟨h.staging, hclosed.target, hclosed.handles⟩

theorem handled_preserved (path : UploadPath) (tree : FileTree) :
    Sink.Preserves (Handled path tree) where
  write := by
    intro upload h payload
    simp only [Sink.write, StagedUpload.write]
    split
    · exact h
    · exact h.hand payload
  flush := by
    intro upload h
    simp only [Sink.flush, StagedUpload.flush]
    split
    · exact h
    · exact h.settle
  publish h := h.publish
  discard h := h.discard

end StagedUpload

namespace WritePolicy

variable {policy : WritePolicy} {tree : FileTree} {filename target name : String}
  {path : UploadPath} {directory place : Location} {data : Bytes} {upload : StagedUpload}

theorem missing_of_checkTarget (hp : policy.allowOverwrite = false)
    (h : policy.checkTarget tree target = .ok ()) (hn : tree.Names target directory name) :
    tree.lookup (directory ++ [name]) = none := by
  rcases FileTree.way_eq_none.mp (way_of_checkTarget h hn) with he | ⟨data, he⟩
  · exact he
  · rw [checkTarget, hn.inspect, he, hp] at h
    cases h

/-- Where no file may be overwritten, an upload leaves all files but one that was at its staging
path. -/
theorem file_kept (hp : policy.allowOverwrite = false)
    (hr : policy.resolve tree filename = .ok path) (hh : StagedUpload.Handled path tree upload)
    (hl : tree.lookup place = some (.file data))
    (hs : tree.inspect false path.staging ≠ .ok (place, .file data)) :
    upload.tree.lookup place = some (.file data) := by
  by_cases hf : ∃ follow found, tree.find follow path.staging = .ok found
  · obtain ⟨follow, found, hf⟩ := hf
    obtain ⟨directory, name, hw⟩ := within_of_resolve hr hf
    have hmissing := missing_of_checkTarget hp (clears_of_resolve hr).free hw.target
    have htarget : place ≠ directory ++ [name] := by
      rintro rfl
      rw [hmissing] at hl
      cases hl
    have hstaging : place ≠ directory ++ [StagedUpload.stagingPath name] := by
      rintro rfl
      rw [hw.staging.inspect, hl] at hs
      exact hs rfl
    rw [(hw.keeps hh.handles).elsewhere place hstaging htarget, hl]
  · have hf' : ∀ follow found, tree.find follow path.staging ≠ .ok found :=
      fun follow found he => hf ⟨follow, found, he⟩
    rw [(hh.handles.untouched_of_unfound hf').1, hl]

end WritePolicy

end TftpReceiver
