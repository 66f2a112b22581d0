import TftpReceiver.Proofs.StagedFiles
import TftpReceiver.Proofs.UploadPlace

/-! A staged upload in any hands: whatever is asked of it, and in whatever order, its target
changes when it is published and at no other time, and what it took is never lost in between. -/

namespace TftpReceiver

namespace Sink

/-- What can be asked of a sink. -/
inductive Use
  | write (payload : Bytes)
  | flush
  | publish
  | discard

variable {σ : Type} [Sink σ]

/-- A use of a sink, as the call that is made with its answer, and the sink after it. -/
def ask (sink : σ) : Use → SinkCall × σ
  | .write payload => (.write payload (Sink.write sink payload).1, (Sink.write sink payload).2)
  | .flush => (.flush (Sink.flush sink).1, (Sink.flush sink).2)
  | .publish => (.publish (Sink.publish sink).1, (Sink.publish sink).2)
  | .discard => (.discard (Sink.discard sink).1, (Sink.discard sink).2)

def use (sink : σ) (use : Use) : σ := (ask sink use).2

def useAll (sink : σ) (uses : List Use) : σ := uses.foldl use sink

theorem use_recorded (recorded : Recorded σ) (use : Use) :
    Sink.use recorded use =
      { sink := (ask recorded.sink use).2
        calls := (ask recorded.sink use).1 :: recorded.calls } := by
  cases use <;> rfl

end Sink

namespace SinkCall

def accepted? : SinkCall → Option Bytes
  | write payload (.ok _) => some payload
  | _ => none

/-- A call that closes a staged upload, whatever the answer. -/
def ends : SinkCall → Bool
  | publish _ | discard _ => true
  | _ => false

def publishes : SinkCall → Bool
  | publish (.ok ()) => true
  | _ => false

end SinkCall

namespace Recorded

variable {σ : Type}

/-- What was passed to the writes that were answered with success, oldest first. -/
def accepted (recorded : Recorded σ) : Bytes :=
  (recorded.calls.reverse.filterMap SinkCall.accepted?).flatten

def ended (recorded : Recorded σ) : Bool := recorded.calls.any SinkCall.ends

def published (recorded : Recorded σ) : Bool := recorded.calls.any SinkCall.publishes

variable (recorded : Recorded σ) (sink : σ) (call : SinkCall)

@[simp]
theorem accepted_cons : accepted { sink, calls := call :: recorded.calls } =
    recorded.accepted ++ call.accepted?.getD [] := by
  cases hc : call.accepted? <;> simp [accepted, hc]

@[simp]
theorem ended_cons : ended { sink, calls := call :: recorded.calls } =
    (call.ends || recorded.ended) := by
  simp [ended]

@[simp]
theorem published_cons : published { sink, calls := call :: recorded.calls } =
    (call.publishes || recorded.published) := by
  simp [published]

end Recorded

/-- Where an entry is, or would be. -/
def Found.place : Found → Location
  | entry place _ => place
  | missing directory name | noDirectory directory name => directory ++ [name]

namespace FileTree

variable {tree tree' : FileTree} {source target : String} {directory : Location} {name : String}

theorem Names.find_place (h : tree.Names target directory name) :
    ∃ found, tree.find false target = .ok found ∧ found.place = directory ++ [name] := by
  refine ⟨_, h.find (.inl rfl), ?_⟩
  rw [foundAt]
  cases tree.lookup (directory ++ [name]) <;> rfl

/-- Nothing takes the name of a directory. -/
theorem target_of_rename (h : tree.rename source target = .ok tree') :
    ∃ found, tree.find false target = .ok found ∧ ∀ taken, found ≠ .entry taken .directory := by
  unfold rename at h
  split at h
  · cases h
  · cases h
  split at h
  · cases h
  next found hf =>
    split at h
    · cases h
    split at h
    · cases h
    next hslash =>
      have hne : target ≠ "" := by
        rintro rfl
        cases hf
      rw [unslashed_of_not_slash (by simpa using hslash) hne] at hf
      refine ⟨found, hf, ?_⟩
      rintro taken rfl
      cases h

end FileTree

namespace StagedUpload

/-- What is to be said of a staged upload that was used, and of the tree it works on: `staged` is
the place of its staging file, and `tree` is the tree before. -/
structure Lawful (tree : FileTree) (target : String) (keepPartial : Bool) (staged : Location)
    (used : Recorded StagedUpload) : Prop where
  unpublished : used.published = false →
    used.sink.tree.inspect false target = tree.inspect false target ∧
      ∀ other, other ≠ staged → used.sink.tree.lookup other = tree.lookup other
  published : used.published = true → ∃ found, tree.find false target = .ok found ∧
    used.sink.tree.lookup found.place = some (.file used.accepted) ∧
    used.sink.tree.lookup staged = none ∧
    ∀ other, other ≠ found.place → other ≠ staged →
      used.sink.tree.lookup other = tree.lookup other
  taking : used.ended = false → ∀ payload, (Sink.write used.sink payload).1 = .ok payload.length
  closed : used.ended = true →
    (∀ payload, Sink.write used.sink payload = (.error closed, used.sink)) ∧
      Sink.flush used.sink = (.error closed, used.sink) ∧
      Sink.publish used.sink = (.error closed, used.sink)
  final : used.published = true → Sink.discard used.sink = (.ok (), used.sink)
  dropped : (Sink.discard used.sink).2.tree.lookup staged =
    if keepPartial && !used.published then some (.file used.accepted) else none

variable {tree now renamed : FileTree} {target staged : String} {directory : Location}
  {keepPartial : Bool} {used : Recorded StagedUpload} {bytes : Bytes} {left : Option Bytes}

/-- A target that ends in no name leads to a directory, or nowhere, whatever files there are. -/
theorem named_or_bare (hb : tree.Names (stagingPath target) directory staged) :
    (∃ name, staged = stagingPath name ∧ tree.Names target directory name) ∨
      ∃ answer, (∀ found, answer = .ok found → ∃ home, found = .entry home .directory) ∧
        ∀ now : FileTree, now.way = tree.way → now.working = tree.working →
          now.find false target = answer := by
  obtain ⟨front, last, hp⟩ := Path.exists_pieces target
  obtain ⟨rfl, -⟩ := WritePolicy.reaches_of_staging hb hp
  obtain ⟨hzero, hfits, -⟩ := WritePolicy.fits_of_staging hb
  by_cases hup : last = ".."
  · subst hup
    refine .inr ⟨.ok (.entry directory.dropLast .directory), by simp, fun now hw hd => ?_⟩
    obtain ⟨-, left, hr⟩ := WritePolicy.reaches_of_staging (hb.congr hw hd) hp
    exact FileTree.find_of_dots_end hzero hfits hp hr
  by_cases hempty : target = ""
  · refine .inr ⟨.error .notFound, by simp, fun now _ _ => ?_⟩
    rw [hempty]
    rfl
  cases hidle : Path.isIdle last with
  | false => exact .inl ⟨last, rfl, WritePolicy.names_of_staging hb hp hidle hup⟩
  | true =>
    refine .inr ⟨.ok (.entry directory .directory), by simp, fun now hw hd => ?_⟩
    obtain ⟨-, left, hr⟩ := WritePolicy.reaches_of_staging (hb.congr hw hd) hp
    exact FileTree.find_of_idle_end hzero hfits hempty hp hidle hr

theorem Restored.inspect (hb : tree.Names (stagingPath target) directory staged)
    (hw : tree.way (directory ++ [staged]) = none)
    (h : Restored tree now (directory ++ [staged]) left) :
    now.inspect false target = tree.inspect false target := by
  rcases named_or_bare hb with ⟨name, rfl, hn⟩ | ⟨answer, -, hfind⟩
  · have hn' := hn.congr (h.way hw) h.working
    rw [hn.inspect, hn'.inspect, h.elsewhere _ (staged_ne directory name)]
  · rw [FileTree.inspect, FileTree.inspect, hfind now (h.way hw) h.working, hfind tree rfl rfl]

/-- A rename of the staging file does nothing, or it takes the place of the target. -/
theorem Restored.rename (hb : tree.Names (stagingPath target) directory staged)
    (hw : tree.way (directory ++ [staged]) = none)
    (h : Restored tree now (directory ++ [staged]) (some bytes))
    (hr : now.rename (stagingPath target) target = .ok renamed) :
    ∃ name, staged = stagingPath name ∧ tree.Names target directory name ∧
      Delivered tree renamed directory name bytes := by
  have hway := h.way hw
  rcases named_or_bare hb with ⟨name, rfl, hn⟩ | ⟨answer, hbare, hfind⟩
  · obtain ⟨entry, he, -, rfl⟩ :=
      (hb.congr hway h.working).of_rename (hn.congr hway h.working) hr
    obtain rfl := Option.some.inj (he.symm.trans h.staging)
    exact ⟨name, rfl, hn, h.delivered⟩
  · obtain ⟨found, hf, hnone⟩ := FileTree.target_of_rename hr
    obtain ⟨home, rfl⟩ := hbare found ((hfind now hway h.working).symm.trans hf)
    exact absurd rfl (hnone home)

/-- Where a staged upload stands: it takes bytes, or it is closed and what it took is in the staging
file unless that was removed, or it is published. -/
inductive Stands (tree : FileTree) (target : String) (keepPartial : Bool) (directory : Location)
    (staged : String) (used : Recorded StagedUpload) : Prop
  | taking (ho : Open tree (directory ++ [staged]) target keepPartial used.sink used.accepted)
      (he : used.ended = false) (hp : used.published = false)
  | closed (ho : used.sink.opened = none) (ht : used.sink.target = target)
      (hk : used.sink.keepPartial = keepPartial)
      (hr : Restored tree used.sink.tree (directory ++ [staged])
        (if used.sink.finished && !keepPartial then none else some used.accepted))
      (he : used.ended = true) (hp : used.published = false)
  | published {name} (ho : used.sink.opened = none) (hf : used.sink.finished = true)
      (hs : staged = stagingPath name) (hn : tree.Names target directory name)
      (hd : Delivered tree used.sink.tree directory name used.accepted)
      (he : used.ended = true) (hp : used.published = true)

theorem refuses_of_closed {upload : StagedUpload} (ho : upload.opened = none) :
    (∀ payload, Sink.write upload payload = (.error closed, upload)) ∧
      Sink.flush upload = (.error closed, upload) ∧
      Sink.publish upload = (.error closed, upload) := by
  simp [Sink.write, StagedUpload.write, Sink.flush, StagedUpload.flush, Sink.publish,
    StagedUpload.publish, ho]

theorem discard_of_finished {upload : StagedUpload} (hf : upload.finished = true) :
    Sink.discard upload = (.ok (), upload) := by
  simp [Sink.discard, StagedUpload.discard, hf]

theorem close_of_closed {upload : StagedUpload} (ho : upload.opened = none) :
    upload.close = upload := by
  obtain ⟨tree, target, keepPartial, opened, pending, finished⟩ := upload
  obtain rfl : opened = none := ho
  rfl

theorem Stands.opened_of_ended (h : Stands tree target keepPartial directory staged used)
    (he : used.ended = true) : used.sink.opened = none := by
  cases h with
  | taking _ hopen _ => simp [he] at hopen
  | closed ho | published ho => exact ho

/-- A call that changes nothing and stores nothing leaves a closed upload where it stands. -/
theorem Stands.called {call : SinkCall} (h : Stands tree target keepPartial directory staged used)
    (he : used.ended = true) (ha : call.accepted? = none) (hp : call.publishes = false) :
    Stands tree target keepPartial directory staged
      { sink := used.sink, calls := call :: used.calls } := by
  cases h with
  | taking _ hopen _ => exact absurd (hopen.symm.trans he) (by decide)
  | closed ho ht hk hr _ hunpublished =>
    exact .closed ho ht hk (by simpa [ha] using hr) (by simp [he]) (by simp [hp, hunpublished])
  | published ho hf hs hn hd _ hpublished =>
    exact .published ho hf hs hn (by simpa [ha] using hd) (by simp [he]) (by simp [hpublished])

/-- What a discard leaves behind, also after a publish that failed. -/
theorem Stands.discarded {left : FileTree} {answer : Except HostError Unit}
    (ht : used.sink.target = target) (hk : used.sink.keepPartial = keepPartial)
    (hp : used.published = false)
    (hr : Restored tree left (directory ++ [staged])
      (if keepPartial then some used.accepted else none)) :
    Stands tree target keepPartial directory staged
      { sink := { used.sink.close with tree := left, finished := true }
        calls := .discard answer :: used.calls } := by
  obtain ⟨htarget, hkeep, -⟩ := close_constants used.sink
  refine .closed rfl (htarget.trans ht) (hkeep.trans hk) ?_ ?_ ?_
  · cases keepPartial <;> simpa [SinkCall.accepted?] using hr
  · simp [SinkCall.ends]
  · simpa [SinkCall.publishes] using hp

theorem Stands.restored (h : Stands tree target keepPartial directory staged used)
    (hp : used.published = false) :
    ∃ left, Restored tree used.sink.tree (directory ++ [staged]) left := by
  cases h with
  | taking ho =>
    obtain ⟨data, hl, -⟩ := ho.stored
    exact ⟨some data, ho.working, hl, ho.elsewhere⟩
  | closed _ _ _ hr => exact ⟨_, hr⟩
  | published _ _ _ _ _ _ hpublished => simp [hp] at hpublished

theorem Stands.kept (h : Stands tree target keepPartial directory staged used)
    (hf : used.sink.finished = true) : used.sink.tree.lookup (directory ++ [staged]) =
      if keepPartial && !used.published then some (.file used.accepted) else none := by
  cases h with
  | taking ho => simp [ho.unfinished] at hf
  | closed _ _ _ hr _ hp =>
    rw [hr.staging, hf, hp]
    cases keepPartial <;> rfl
  | published _ _ hs _ hd _ hp =>
    subst hs
    rw [hd.staging, hp]
    simp

theorem finished_discard (upload : StagedUpload) : (Sink.discard upload).2.finished = true := by
  change (StagedUpload.discard upload).2.finished = true
  unfold StagedUpload.discard
  split
  · next hf => exact hf
  · dsimp only
    split
    · rfl
    · split <;> rfl

variable (hb : tree.Names (stagingPath target) directory staged)
  (hw : tree.way (directory ++ [staged]) = none)

include hb hw

theorem Open.stands
    (ho : Open tree (directory ++ [staged]) target keepPartial used.sink used.accepted)
    (he : used.ended = false) (hp : used.published = false) (use : Sink.Use) :
    Stands tree target keepPartial directory staged (Sink.use used use) := by
  rw [Sink.use_recorded]
  obtain ⟨htarget, hkeep, hfinished⟩ := close_constants used.sink
  cases use with
  | write payload =>
    rcases hwrite : Sink.write used.sink payload with ⟨answer, upload⟩
    obtain ⟨rfl, hopen⟩ := ho.write hwrite
    simp only [Sink.ask, hwrite]
    refine .taking ?_ ?_ ?_
    · simpa [SinkCall.accepted?] using hopen
    · simpa [SinkCall.ends] using he
    · simpa [SinkCall.publishes] using hp
  | flush =>
    simp only [Sink.ask, ho.flush]
    refine .taking ?_ ?_ ?_
    · simpa [SinkCall.accepted?] using ho.settle.1
    · simpa [SinkCall.ends] using he
    · simpa [SinkCall.publishes] using hp
  | publish =>
    cases hr : used.sink.close.tree.rename (stagingPath target) target with
    | error e =>
      simp only [Sink.ask, ho.publish, hr]
      refine .closed rfl (htarget.trans ho.target) (hkeep.trans ho.keepPartial) ?_ ?_ ?_
      · simpa [SinkCall.accepted?, hfinished, ho.unfinished] using ho.close
      · simp [SinkCall.ends]
      · simpa [SinkCall.publishes] using hp
    | ok renamed =>
      simp only [Sink.ask, ho.publish, hr]
      obtain ⟨name, hs, hn, hd⟩ := ho.close.rename hb hw hr
      refine .published rfl rfl hs hn ?_ ?_ ?_
      · simpa [SinkCall.accepted?] using hd
      · simp [SinkCall.ends]
      · simp [SinkCall.publishes]
  | discard =>
    obtain ⟨left, hd, hr⟩ := ho.close.discard (ho.target.symm ▸ hb) hw ho.unfinished
    simp only [Sink.ask, hd]
    exact .discarded ho.target ho.keepPartial hp (ho.keepPartial ▸ hr)

theorem Stands.use (h : Stands tree target keepPartial directory staged used) (use : Sink.Use) :
    Stands tree target keepPartial directory staged (Sink.use used use) := by
  cases he : used.ended with
  | false =>
    cases h with
    | taking ho _ hp => exact ho.stands hb hw he hp use
    | closed _ _ _ _ hended | published _ _ _ _ _ hended => simp [he] at hended
  | true =>
    have ho := h.opened_of_ended he
    obtain ⟨hwrite, hflush, hpublish⟩ := refuses_of_closed ho
    rw [Sink.use_recorded]
    cases use with
    | write payload =>
      simp only [Sink.ask, hwrite]
      exact h.called he rfl rfl
    | flush =>
      simp only [Sink.ask, hflush]
      exact h.called he rfl rfl
    | publish =>
      simp only [Sink.ask, hpublish]
      exact h.called he rfl rfl
    | discard =>
      cases hf : used.sink.finished with
      | true =>
        simp only [Sink.ask, discard_of_finished hf]
        exact h.called he rfl rfl
      | false =>
        cases h with
        | taking _ hopen _ => simp [he] at hopen
        | published _ hfinished => simp [hf] at hfinished
        | closed _ ht hk hr _ hp =>
          have hrestored : Restored tree used.sink.close.tree (directory ++ [staged])
              (some used.accepted) := by
            rw [close_of_closed ho]
            simpa [hf] using hr
          obtain ⟨left, hd, hleft⟩ := hrestored.discard (ht.symm ▸ hb) hw hf
          simp only [Sink.ask, hd]
          exact .discarded ht hk hp (hk ▸ hleft)

theorem Stands.useAll (uses : List Sink.Use)
    (h : Stands tree target keepPartial directory staged used) :
    Stands tree target keepPartial directory staged (Sink.useAll used uses) := by
  induction uses generalizing used with
  | nil => exact h
  | cons use rest ih => exact ih (h.use hb hw use)

theorem Stands.lawful (h : Stands tree target keepPartial directory staged used) :
    Lawful tree target keepPartial (directory ++ [staged]) used where
  unpublished hp := by
    obtain ⟨left, hr⟩ := h.restored hp
    exact ⟨hr.inspect hb hw, hr.elsewhere⟩
  published hp := by
    cases h with
    | taking _ _ hnot | closed _ _ _ _ _ hnot => simp [hp] at hnot
    | published _ _ hs hn hd =>
      subst hs
      obtain ⟨found, hfind, hplace⟩ := hn.find_place
      exact ⟨found, hfind, hplace ▸ hd.target, hd.staging, hplace ▸ hd.elsewhere⟩
  taking he payload := by
    cases h with
    | taking ho => exact (ho.write rfl).1
    | closed _ _ _ _ hended | published _ _ _ _ _ hended => simp [he] at hended
  closed he := refuses_of_closed (h.opened_of_ended he)
  final hp := by
    cases h with
    | taking _ _ hnot | closed _ _ _ _ _ hnot => simp [hp] at hnot
    | published _ hf => exact discard_of_finished hf
  dropped := by
    have hkept := (h.use hb hw .discard).kept (finished_discard used.sink)
    rw [Sink.use_recorded] at hkept
    simpa [Sink.ask, SinkCall.accepted?, SinkCall.publishes] using hkept

omit hb hw

theorem stands_of_create {upload : StagedUpload}
    (hc : create tree target keepPartial = .ok upload)
    (hl : ∀ place link, tree.inspect false (stagingPath target) ≠ .ok (place, .link link)) :
    ∃ directory staged, tree.Names (stagingPath target) directory staged ∧
      tree.way (directory ++ [staged]) = none ∧
      Stands tree target keepPartial directory staged { sink := upload } := by
  obtain ⟨-, place, tree', hopen⟩ := opened_of_create hc
  obtain ⟨found, hfind⟩ := FileTree.find_of_create hopen
  obtain ⟨front, last, hp⟩ := Path.exists_pieces target
  obtain ⟨directory, hb⟩ := WritePolicy.names_of_find_staging hp hfind
  have hlink : ∀ link, tree.lookup (directory ++ [stagingPath last]) ≠ some (.link link) := by
    intro link hlookup
    exact hl _ link (by rw [hb.inspect, hlookup])
  have hw := (hb.of_create hlink hopen).2.2
  exact ⟨directory, stagingPath last, hb, hw, .taking (Open.created hb hw hc) rfl rfl⟩

/-- However a staged upload is used, its target is as it was until a publish succeeds, and holds
what was taken from then on. Once a publish was tried or the upload was discarded nothing more is
taken, and a staging file stays only with a partial upload that is to be kept. -/
theorem useAll_lawful {upload : StagedUpload} (hc : create tree target keepPartial = .ok upload)
    (hl : ∀ place link, tree.inspect false (stagingPath target) ≠ .ok (place, .link link))
    (uses : List Sink.Use) : ∃ found, tree.find false (stagingPath target) = .ok found ∧
      Lawful tree target keepPartial found.place (Sink.useAll { sink := upload } uses) := by
  obtain ⟨directory, staged, hb, hw, hfresh⟩ := stands_of_create hc hl
  obtain ⟨found, hfind, hplace⟩ := hb.find_place
  exact ⟨found, hfind, hplace ▸ (hfresh.useAll hb hw uses).lawful hb hw⟩

def shelfTree : FileTree := { entries := [(["a"], .file [1])] }

def shelfUpload : StagedUpload :=
  { tree := { entries := [(["a.upload"], .file []), (["a"], .file [1])] }
    target := "/a", keepPartial := true, opened := some ["a.upload"] }

def shelfUses : List Sink.Use :=
  [.write [7], .flush, .write [8], .publish, .write [9], .publish, .discard]

theorem useAll_lawful_shelf :
    let used : Recorded StagedUpload := Sink.useAll { sink := shelfUpload } shelfUses
    create shelfTree "/a" true = .ok shelfUpload ∧
      (∀ place link, shelfTree.inspect false (stagingPath "/a") ≠ .ok (place, .link link)) ∧
      ∃ found, shelfTree.find false (stagingPath "/a") = .ok found ∧
        Lawful shelfTree "/a" true found.place used ∧ used.accepted = [7, 8] ∧
        used.published = true := by
  intro used
  have hc : create shelfTree "/a" true = .ok shelfUpload := ok_of_toOption (by decide +kernel)
  have hl : ∀ place link,
      shelfTree.inspect false (stagingPath "/a") ≠ .ok (place, .link link) := by
    intro place link h
    have hfree : (shelfTree.inspect false (stagingPath "/a")).toOption = none := by decide +kernel
    rw [h] at hfree
    cases hfree
  obtain ⟨found, hfind, hlawful⟩ := useAll_lawful hc hl shelfUses
  exact ⟨hc, hl, found, hfind, hlawful, by decide +kernel, by decide +kernel⟩

/-- A staging name that leads back to the target. -/
def linkedTree : FileTree :=
  { entries := [(["a"], .file [1]), (["a.upload"], .link "a")] }

def linkedUpload : StagedUpload :=
  { tree := { entries := [(["a"], .file []), (["a.upload"], .link "a")] }
    target := "/a", keepPartial := false, opened := some ["a"] }

/-- A link that has the name of the staging file is followed, so that its file is emptied before
anything is published. -/
theorem create_through_link_not_lawful : ¬ ∀ tree target keepPartial upload uses,
    create tree target keepPartial = .ok upload →
      ∃ found, tree.find false (stagingPath target) = .ok found ∧
        Lawful tree target keepPartial found.place (Sink.useAll { sink := upload } uses) := by
  intro h
  have hc : create linkedTree "/a" false = .ok linkedUpload := ok_of_toOption (by decide +kernel)
  obtain ⟨found, -, hlawful⟩ := h linkedTree "/a" false linkedUpload [.discard] hc
  have hkept := (hlawful.unpublished (by decide +kernel)).1
  have hbefore : (linkedTree.inspect false "/a").toOption = some (["a"], .file [1]) := by
    decide +kernel
  rw [← hkept] at hbefore
  revert hbefore
  decide +kernel

end StagedUpload

end TftpReceiver
