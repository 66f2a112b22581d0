import TftpReceiver.Proofs.NamedPlaces
import TftpReceiver.Proofs.SinkLife
import TftpReceiver.Upload.Staged

/-! A staged upload from its first byte to its end: while it is open only its staging file
differs from the tree before, and in the end either the target is new or nothing is. -/

namespace TftpReceiver.StagedUpload

/-- A target with room for an upload: it is missing or a file, and nothing has the name of its
staging file. -/
structure Room (tree : FileTree) (target : String) (directory : Location) (name : String) :
    Prop where
  names : tree.Names target directory name
  beside : tree.Names (stagingPath target) directory (stagingPath name)
  free : tree.way (directory ++ [name]) = none
  fresh : tree.lookup (directory ++ [stagingPath name]) = none

/-- An upload that is open and has taken some bytes: they are in the staging file or pending. -/
structure Open (tree : FileTree) (place : Location) (target : String) (keepPartial : Bool)
    (upload : StagedUpload) (bytes : Bytes) : Prop where
  target : upload.target = target
  keepPartial : upload.keepPartial = keepPartial
  opened : upload.opened = some place
  unfinished : upload.finished = false
  working : upload.tree.working = tree.working
  elsewhere : ∀ other, other ≠ place → upload.tree.lookup other = tree.lookup other
  stored : ∃ data, upload.tree.lookup place = some (.file data) ∧ data ++ upload.pending = bytes

/-- A tree in which the target holds an upload. -/
structure Delivered (tree now : FileTree) (directory : Location) (name : String) (bytes : Bytes) :
    Prop where
  working : now.working = tree.working
  target : now.lookup (directory ++ [name]) = some (.file bytes)
  staging : now.lookup (directory ++ [stagingPath name]) = none
  elsewhere : ∀ other, other ≠ directory ++ [name] → other ≠ directory ++ [stagingPath name] →
    now.lookup other = tree.lookup other

/-- A tree in which at most a partial upload is left at a place. -/
structure Restored (tree now : FileTree) (place : Location) (left : Option Bytes) : Prop where
  working : now.working = tree.working
  staging : now.lookup place = left.map .file
  elsewhere : ∀ other, other ≠ place → now.lookup other = tree.lookup other

variable {tree : FileTree} {target : String} {directory place : Location} {name : String}
  {keepPartial : Bool} {upload upload' : StagedUpload} {bytes payload : Bytes}

theorem staged_ne (directory : Location) (name : String) :
    directory ++ [name] ≠ directory ++ [stagingPath name] := by
  intro he
  have hname : name = stagingPath name := by simpa using he
  have hlength := congrArg String.utf8ByteSize hname
  have hsuffix : suffix.utf8ByteSize = 7 := by decide
  rw [stagingPath, String.utf8ByteSize_append] at hlength
  omega

theorem opened_of_create (hc : create tree target keepPartial = .ok upload) :
    upload.target = target ∧
      ∃ place tree', tree.create (stagingPath target) = .ok (place, tree') := by
  unfold StagedUpload.create at hc
  cases hopen : tree.create (stagingPath target) with
  | error e => simp [hopen] at hc
  | ok opened =>
    simp only [hopen, Except.ok.injEq] at hc
    subst hc
    exact ⟨rfl, opened.1, opened.2, rfl⟩

/-- The name of the staging file may be that of a file, which is emptied then. -/
theorem Open.created {staged : String} (hb : tree.Names (stagingPath target) directory staged)
    (hw : tree.way (directory ++ [staged]) = none)
    (hc : create tree target keepPartial = .ok upload) :
    Open tree (directory ++ [staged]) target keepPartial upload [] := by
  rw [StagedUpload.create, hb.create hw] at hc
  obtain rfl := Except.ok.inj hc
  refine ⟨rfl, rfl, rfl, rfl, rfl, fun other ho => ?_, [], ?_, rfl⟩
  · rw [FileTree.lookup_put (by simp), if_neg ho]
  · rw [FileTree.lookup_put (by simp), if_pos rfl]

theorem Room.vacant (h : Room tree target directory name) :
    tree.way (directory ++ [stagingPath name]) = none :=
  FileTree.way_eq_none.mpr (.inl h.fresh)

theorem Room.create (h : Room tree target directory name)
    (hc : create tree target keepPartial = .ok upload) :
    Open tree (directory ++ [stagingPath name]) target keepPartial upload [] :=
  Open.created h.beside h.vacant hc

/-- A file that has the name of the staging file is gone once the upload is opened, as if it had
never been there. -/
theorem Room.of_erase (hn : tree.Names target directory name)
    (hb : tree.Names (stagingPath target) directory (stagingPath name))
    (hf : tree.way (directory ++ [name]) = none)
    (hw : tree.way (directory ++ [stagingPath name]) = none) :
    Room (tree.erase (directory ++ [stagingPath name])) target directory name := by
  have hway := FileTree.way_erase (by simp) hw
  refine ⟨hn.congr hway rfl, hb.congr hway rfl, by rw [hway, hf], ?_⟩
  rw [FileTree.lookup_erase (by simp), if_pos rfl]

theorem create_erase (hb : tree.Names (stagingPath target) directory (stagingPath name))
    (hw : tree.way (directory ++ [stagingPath name]) = none) :
    create (tree.erase (directory ++ [stagingPath name])) target keepPartial =
      create tree target keepPartial := by
  have hway := FileTree.way_erase (by simp) hw
  have hbeside : (tree.erase (directory ++ [stagingPath name])).Names (stagingPath target) directory
      (stagingPath name) := hb.congr hway rfl
  rw [create, create, hbeside.create (by rw [hway, hw]), hb.create hw, FileTree.put_erase]

theorem Open.settle (h : Open tree place target keepPartial upload bytes) :
    Open tree place target keepPartial upload.settle bytes ∧ upload.settle.pending = [] := by
  obtain ⟨data, hl, hd⟩ := h.stored
  have hne := FileTree.ne_root_of_file hl
  have hs : upload.settle = { upload with
      tree := upload.tree.put place (.file (data ++ upload.pending)), pending := [] } := by
    rw [StagedUpload.settle, h.opened, ← FileTree.append_file hl]
  rw [hs]
  refine ⟨⟨h.target, h.keepPartial, h.opened, h.unfinished, h.working, fun other ho => ?_,
    data ++ upload.pending, ?_, ?_⟩, rfl⟩
  · rw [FileTree.lookup_put hne, if_neg ho, h.elsewhere other ho]
  · rw [FileTree.lookup_put hne, if_pos rfl]
  · rw [List.append_nil, hd]

theorem Open.take (h : Open tree place target keepPartial upload bytes) (payload : Bytes) :
    Open tree place target keepPartial { upload with pending := upload.pending ++ payload }
      (bytes ++ payload) := by
  obtain ⟨data, hl, hd⟩ := h.stored
  exact ⟨h.target, h.keepPartial, h.opened, h.unfinished, h.working, h.elsewhere, data, hl,
    by rw [← hd, List.append_assoc]⟩

theorem Open.hand (h : Open tree place target keepPartial upload bytes) (payload : Bytes) :
    Open tree place target keepPartial (upload.hand payload) (bytes ++ payload) := by
  unfold StagedUpload.hand
  dsimp only
  split
  · exact h.take payload
  · next hfull =>
    have hmade : ∃ made, (if bufferSize - upload.pending.length < payload.length then upload.settle
        else upload) = made ∧ Open tree place target keepPartial made bytes ∧
          (bufferSize ≤ payload.length → made.pending = []) := by
      by_cases hover : bufferSize - upload.pending.length < payload.length
      · exact ⟨upload.settle, if_pos hover, h.settle.1, fun _ => h.settle.2⟩
      · refine ⟨upload, if_neg hover, h, fun hlarge => List.length_eq_zero_iff.mp ?_⟩
        have hsize : 0 < bufferSize := by decide
        omega
    obtain ⟨made, hmade, hopen, hempty⟩ := hmade
    rw [hmade]
    split
    · next hlarge =>
      have htaken := hopen.take payload
      rw [hempty hlarge, List.nil_append] at htaken
      exact htaken.settle.1
    · exact hopen.take payload

theorem Open.write {answer : Except HostError Nat}
    (h : Open tree place target keepPartial upload bytes)
    (hw : Sink.write upload payload = (answer, upload')) :
    answer = .ok payload.length ∧
      Open tree place target keepPartial upload' (bytes ++ payload) := by
  have hw' : (.ok payload.length, upload.hand payload) = (answer, upload') := by
    rw [← hw]
    simp [Sink.write, StagedUpload.write, h.opened]
  obtain ⟨rfl, rfl⟩ := Prod.mk.inj hw'
  exact ⟨rfl, h.hand payload⟩

theorem Open.stores {answer : Except Condition Unit}
    (h : Open tree place target keepPartial upload bytes)
    (hs : Sink.Stores upload payload answer upload') :
    answer = .ok () ∧ Open tree place target keepPartial upload' (bytes ++ payload) := by
  cases hs with
  | empty => exact ⟨rfl, by rwa [List.append_nil]⟩
  | full _ hw => exact ⟨rfl, (h.write hw).2⟩
  | short _ hn hw => exact absurd (Except.ok.inj (h.write hw).1) hn
  | failed _ hw => exact nomatch (h.write hw).1

theorem Open.filled {payloads : List Bytes} (h : Open tree place target keepPartial upload [])
    (hf : Sink.Filled upload payloads upload') :
    Open tree place target keepPartial upload' payloads.flatten := by
  induction hf with
  | fresh => exact h
  | stored _ hs ih => simpa using (ih.stores hs).2

theorem close_constants (upload : StagedUpload) :
    upload.close.target = upload.target ∧ upload.close.keepPartial = upload.keepPartial ∧
      upload.close.finished = upload.finished := by
  unfold close settle
  split <;> exact ⟨rfl, rfl, rfl⟩

theorem Open.close (h : Open tree place target keepPartial upload bytes) :
    Restored tree upload.close.tree place (some bytes) := by
  obtain ⟨hsettled, hempty⟩ := h.settle
  obtain ⟨data, hl, hd⟩ := hsettled.stored
  rw [hempty, List.append_nil] at hd
  exact ⟨hsettled.working, hd ▸ hl, hsettled.elsewhere⟩

theorem Open.flush (h : Open tree place target keepPartial upload bytes) :
    Sink.flush upload = (.ok (), upload.settle) := by
  simp [Sink.flush, StagedUpload.flush, h.opened]

theorem Open.publish (h : Open tree place target keepPartial upload bytes) :
    Sink.publish upload = match upload.close.tree.rename (stagingPath target) target with
      | .ok renamed => (.ok (), { upload.close with tree := renamed, finished := true })
      | .error e => (.error e, upload.close) := by
  have htarget := (close_constants upload).1.trans h.target
  cases hr : upload.close.tree.rename (stagingPath target) target <;>
    simp [Sink.publish, StagedUpload.publish, h.opened, staging, htarget, hr]

theorem Restored.way {now : FileTree} {left : Option Bytes} (h : Restored tree now place left)
    (hw : tree.way place = none) : now.way = tree.way := by
  apply FileTree.way_eq_of_elsewhere h.elsewhere hw
  rw [FileTree.way_eq_none, h.staging]
  cases left with
  | none => exact .inl rfl
  | some data => exact .inr ⟨data, rfl⟩

theorem Restored.delivered {now : FileTree} {left : Option Bytes}
    (h : Restored tree now (directory ++ [stagingPath name]) left) :
    Delivered tree
      ((now.erase (directory ++ [stagingPath name])).put (directory ++ [name]) (.file bytes))
      directory name bytes := by
  have hne := staged_ne directory name
  refine ⟨h.working, ?_, ?_, fun other ht hs => ?_⟩
  · rw [FileTree.lookup_put (by simp), if_pos rfl]
  · rw [FileTree.lookup_put (by simp), if_neg (Ne.symm hne), FileTree.lookup_erase (by simp),
      if_pos rfl]
  · rw [FileTree.lookup_put (by simp), if_neg ht, FileTree.lookup_erase (by simp), if_neg hs,
      h.elsewhere other hs]

theorem Room.rename {now : FileTree} (hroom : Room tree target directory name)
    (h : Restored tree now (directory ++ [stagingPath name]) (some bytes)) :
    ∃ renamed, now.rename (stagingPath target) target = .ok renamed ∧
      Delivered tree renamed directory name bytes := by
  have hway := h.way hroom.vacant
  have hkept : now.lookup (directory ++ [name]) ≠ some .directory := by
    rw [h.elsewhere _ (staged_ne directory name)]
    intro he
    exact nomatch hroom.free.symm.trans (FileTree.way_eq_some.mpr ⟨he, rfl⟩)
  exact ⟨_, (hroom.beside.congr hway h.working).rename (hroom.names.congr hway h.working)
    h.staging (by simp) hkept, h.delivered⟩

theorem Restored.remove {now : FileTree} {staged : String}
    (h : Restored tree now (directory ++ [staged]) (some bytes))
    (hb : tree.Names (stagingPath target) directory staged)
    (hw : tree.way (directory ++ [staged]) = none) :
    ∃ removed, now.remove (stagingPath target) = .ok removed ∧
      Restored tree removed (directory ++ [staged]) none := by
  have hremove := (hb.congr (h.way hw) h.working).remove
  rw [h.staging] at hremove
  refine ⟨_, hremove, h.working, ?_, fun other ho => ?_⟩
  · rw [FileTree.lookup_erase (by simp), if_pos rfl]
    rfl
  · rw [FileTree.lookup_erase (by simp), if_neg ho, h.elsewhere other ho]

/-- What is closed is kept or removed when it is discarded, as the upload was told. -/
theorem Restored.discard {staged : String}
    (h : Restored tree upload.close.tree (directory ++ [staged]) (some bytes))
    (hb : tree.Names (stagingPath upload.target) directory staged)
    (hw : tree.way (directory ++ [staged]) = none) (hf : upload.finished = false) :
    ∃ left, Sink.discard upload = (.ok (), { upload.close with tree := left, finished := true }) ∧
      Restored tree left (directory ++ [staged])
        (if upload.keepPartial then some bytes else none) := by
  obtain ⟨htarget, hkeep, -⟩ := close_constants upload
  cases hk : upload.keepPartial with
  | true =>
    refine ⟨upload.close.tree, ?_, h⟩
    simp [Sink.discard, StagedUpload.discard, hf, hkeep, hk]
  | false =>
    obtain ⟨removed, hr, hrestored⟩ := h.remove hb hw
    refine ⟨removed, ?_, hrestored⟩
    simp [Sink.discard, StagedUpload.discard, hf, hkeep, hk, StagedUpload.staging, htarget, hr]

theorem Open.commits {answer : Except HostError Unit} (hroom : Room tree target directory name)
    (h : Open tree (directory ++ [stagingPath name]) target keepPartial upload bytes)
    (hc : Sink.Commits upload answer upload') :
    answer = .ok () ∧ Delivered tree upload'.tree directory name bytes := by
  cases hc with
  | unflushed hf => exact nomatch (Prod.mk.inj (h.flush.symm.trans hf)).1
  | flushed hf hp =>
    obtain ⟨-, rfl⟩ := Prod.mk.inj (h.flush.symm.trans hf)
    have hsettled := h.settle.1
    obtain ⟨renamed, hr, hdelivered⟩ := hroom.rename hsettled.close
    have hpublish := hsettled.publish
    rw [hr] at hpublish
    obtain ⟨rfl, rfl⟩ := Prod.mk.inj (hpublish.symm.trans hp)
    exact ⟨rfl, hdelivered⟩

theorem Open.discard (hroom : Room tree target directory name)
    (h : Open tree (directory ++ [stagingPath name]) target keepPartial upload bytes) :
    Restored tree (Sink.discard upload).2.tree (directory ++ [stagingPath name])
      (if keepPartial then some bytes else none) := by
  obtain ⟨left, hd, hrestored⟩ :=
    h.close.discard (h.target.symm ▸ hroom.beside) hroom.vacant h.unfinished
  rw [hd]
  exact h.keepPartial ▸ hrestored

theorem Open.published {payloads : List Bytes} (hroom : Room tree target directory name)
    (h : Open tree (directory ++ [stagingPath name]) target keepPartial upload [])
    (hp : Sink.Published upload payloads upload') :
    Delivered tree upload'.tree directory name payloads.flatten := by
  obtain ⟨hf, hc⟩ := hp
  exact ((h.filled hf).commits hroom hc).2

theorem Open.dropped {payloads : List Bytes} (hroom : Room tree target directory name)
    (h : Open tree (directory ++ [stagingPath name]) target keepPartial upload [])
    (hd : Sink.Dropped upload payloads upload') :
    Restored tree upload'.tree (directory ++ [stagingPath name])
      (if keepPartial then some payloads.flatten else none) := by
  cases hd with
  | filled hf => exact (h.filled hf).discard hroom
  | unstored hf hs => exact nomatch ((h.filled hf).stores hs).1
  | uncommitted hf hc => exact nomatch ((h.filled hf).commits hroom hc).1

end TftpReceiver.StagedUpload
