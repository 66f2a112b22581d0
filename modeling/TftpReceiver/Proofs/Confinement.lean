import TftpReceiver.Proofs.UploadPlace

/-! Whoever holds the paths of an allowed upload cannot touch anything outside the root, in
whatever order the files are opened, written, renamed and removed. -/

namespace TftpReceiver

/-- An entry of a directory that is the root or lies below it. -/
def FileTree.EntryBelow (tree : FileTree) (root place : Location) : Prop :=
  ∃ written directory name, place = directory ++ [name] ∧
    tree.inspect true written = .ok (directory, .directory) ∧ root <+: directory

namespace UploadPath

/-- What becomes of a tree that an uploader works on, and where the file is that is open. Uses
that fail change nothing. A file that was renamed may still be open under its new name. -/
inductive Handles (path : UploadPath) (tree : FileTree) : FileTree → Option Location → Prop
  | untouched : Handles path tree tree none
  | opened {now next handle place} (h : Handles path tree now handle)
      (hc : now.create path.staging = .ok (place, next)) : Handles path tree next (some place)
  | written {now place} (h : Handles path tree now (some place)) (data : Bytes) :
      Handles path tree (now.append place data) (some place)
  | closed {now handle} (h : Handles path tree now handle) : Handles path tree now none
  | renamed {now next handle} (h : Handles path tree now handle)
      (hr : now.rename path.staging path.target = .ok next) : Handles path tree next none
  | followed {now next handle place entry} (h : Handles path tree now handle)
      (hr : now.rename path.staging path.target = .ok next)
      (hi : next.inspect false path.target = .ok (place, entry)) :
      Handles path tree next (some place)
  | removed {now next handle} (h : Handles path tree now handle)
      (hr : now.remove path.staging = .ok next) : Handles path tree next none

/-- Only files were changed, and only the target and its staging file. -/
structure Keeps (tree now : FileTree) (staging target : Location) (handle : Option Location) :
    Prop where
  working : now.working = tree.working
  way : now.way = tree.way
  elsewhere : ∀ place, place ≠ staging → place ≠ target → now.lookup place = tree.lookup place
  handle : ∀ place ∈ handle, place = staging ∨ place = target

end UploadPath

namespace UploadPath

variable {path : UploadPath} {tree now next : FileTree} {root directory place : Location}
  {name : String} {handle : Option Location}

theorem Within.staging_now (h : path.Within tree root directory name) (hw : now.way = tree.way)
    (hd : now.working = tree.working) :
    now.Names path.staging directory (StagedUpload.stagingPath name) ∧
      ∀ link, now.lookup (directory ++ [StagedUpload.stagingPath name]) ≠ some (.link link) := by
  refine ⟨h.staging.congr hw hd, fun link hl => h.unlinked link ?_⟩
  have hway : now.way (directory ++ [StagedUpload.stagingPath name]) = some (.link link) :=
    FileTree.way_eq_some.mpr ⟨hl, rfl⟩
  rw [hw] at hway
  exact (FileTree.way_eq_some.mp hway).1

theorem file_of_entry {entry : Entry} (hl : now.lookup place = some entry)
    (hd : entry ≠ .directory) (hn : ∀ link, now.lookup place ≠ some (.link link)) :
    ∃ data, entry = .file data := by
  cases entry with
  | file data => exact ⟨data, rfl⟩
  | directory => exact absurd rfl hd
  | link target => exact absurd hl (hn target)

theorem Keeps.removed {staging target : Location} {data : Bytes}
    (hk : Keeps tree now staging target handle) (hl : now.lookup staging = some (.file data)) :
    Keeps tree (now.erase staging) staging target none := by
  have hne := FileTree.ne_root_of_file hl
  have hw := FileTree.way_eq_none.mpr (.inr ⟨data, hl⟩)
  refine ⟨hk.working, (FileTree.way_erase hne hw).trans hk.way, ?_, by simp⟩
  intro place hs ht
  rw [FileTree.lookup_erase hne, if_neg hs, hk.elsewhere place hs ht]

theorem Within.keeps_renamed (h : path.Within tree root directory name)
    (hk : Keeps tree now (directory ++ [StagedUpload.stagingPath name]) (directory ++ [name])
      handle)
    (hr : now.rename path.staging path.target = .ok next) :
    Keeps tree next (directory ++ [StagedUpload.stagingPath name]) (directory ++ [name]) none := by
  obtain ⟨hstaging, hlink⟩ := h.staging_now hk.way hk.working
  obtain ⟨entry, hl, hd, rfl⟩ := hstaging.of_rename (h.target.congr hk.way hk.working) hr
  obtain ⟨data, rfl⟩ := file_of_entry hl hd hlink
  have hremoved := hk.removed hl
  have hfree : (now.erase (directory ++ [StagedUpload.stagingPath name])).way
      (directory ++ [name]) = none := by rw [hremoved.way, h.free]
  refine ⟨hremoved.working, (FileTree.way_put_file (by simp) hfree _).trans hremoved.way, ?_,
    by simp⟩
  intro place hs ht
  rw [FileTree.lookup_put (by simp), if_neg ht, hremoved.elsewhere place hs ht]

theorem Within.keeps (h : path.Within tree root directory name)
    (hh : path.Handles tree now handle) :
    Keeps tree now (directory ++ [StagedUpload.stagingPath name]) (directory ++ [name]) handle := by
  induction hh with
  | untouched => exact ⟨rfl, rfl, fun _ _ _ => rfl, by simp⟩
  | opened _ hc ih =>
    obtain ⟨hstaging, hlink⟩ := h.staging_now ih.way ih.working
    obtain ⟨rfl, rfl, hw⟩ := hstaging.of_create hlink hc
    refine ⟨ih.working, (FileTree.way_put_file (by simp) hw _).trans ih.way, ?_, by simp⟩
    intro place hs ht
    rw [FileTree.lookup_put (by simp), if_neg hs, ih.elsewhere place hs ht]
  | @written now place _ data ih =>
    have hplace := ih.handle place rfl
    refine ⟨(FileTree.working_append data).trans ih.working,
      (FileTree.way_append data).trans ih.way, ?_, ih.handle⟩
    intro other hs ht
    have hne : other ≠ place := by
      rintro rfl
      exact hplace.elim hs ht
    rw [FileTree.lookup_append_of_ne hne, ih.elsewhere other hs ht]
  | closed _ ih => exact ⟨ih.working, ih.way, ih.elsewhere, by simp⟩
  | renamed _ hr ih => exact h.keeps_renamed ih hr
  | followed _ hr hi ih =>
    have hk := h.keeps_renamed ih hr
    refine ⟨hk.working, hk.way, hk.elsewhere, ?_⟩
    rw [(h.target.congr hk.way hk.working).inspect] at hi
    split at hi
    · cases hi
    · obtain ⟨rfl, -⟩ := Prod.mk.inj (Except.ok.inj hi)
      simp
  | removed _ hr ih =>
    obtain ⟨hstaging, hlink⟩ := h.staging_now ih.way ih.working
    rw [hstaging.remove] at hr
    split at hr
    · cases hr
    · cases hr
    · next entry hd hl =>
      obtain rfl := Except.ok.inj hr
      obtain ⟨data, rfl⟩ := file_of_entry hl hd hlink
      exact ih.removed hl

theorem Handles.untouched_of_unfound (hh : path.Handles tree now handle)
    (hf : ∀ follow found, tree.find follow path.staging ≠ .ok found) :
    now = tree ∧ handle = none := by
  induction hh with
  | untouched => exact ⟨rfl, rfl⟩
  | opened _ hc ih =>
    obtain ⟨rfl, -⟩ := ih
    obtain ⟨found, hfound⟩ := FileTree.find_of_create hc
    exact absurd hfound (hf true found)
  | written _ _ ih => exact nomatch ih.2
  | closed _ ih => exact ⟨ih.1, rfl⟩
  | renamed _ hr ih | followed _ hr _ ih =>
    obtain ⟨rfl, -⟩ := ih
    obtain ⟨found, hfound⟩ := FileTree.find_of_rename hr
    exact absurd hfound (hf false found)
  | removed _ hr ih =>
    obtain ⟨rfl, -⟩ := ih
    obtain ⟨found, hfound⟩ := FileTree.find_of_remove hr
    exact absurd hfound (hf false found)

end UploadPath

namespace WritePolicy

variable {earlier : FileTree} {root : String} {allowOverwrite : Bool} {patterns : List String}
  {policy : WritePolicy}

/-- A policy is made of what it is given: the root, which must be there, and patterns that can
be read. -/
theorem of_create (h : create earlier root allowOverwrite patterns = .ok policy) :
    earlier.canonical root = .ok policy.canonicalRoot ∧
      patterns.mapM parsePattern = .ok policy.patterns ∧ policy.root = root ∧
      policy.allowOverwrite = allowOverwrite := by
  unfold create at h
  cases hc : earlier.canonical root with
  | error e =>
    rw [hc] at h
    cases h
  | ok canonicalRoot =>
    rw [hc] at h
    cases hp : patterns.mapM parsePattern with
    | error e =>
      rw [hp] at h
      cases h
    | ok parsed =>
      rw [hp] at h
      obtain rfl := Except.ok.inj h
      exact ⟨rfl, rfl, rfl, rfl⟩

theorem canonical_of_create (h : create earlier root allowOverwrite patterns = .ok policy) :
    earlier.canonical root = .ok policy.canonicalRoot := (of_create h).1

/-- An allowed upload stays below the root: whatever is done with its paths, no directory and no
link changes, and each entry that does, or is held open, is in a directory that is the root or
lies below it. -/
theorem resolve_confines {earlier tree now : FileTree} {root filename : String}
    {allowOverwrite : Bool} {patterns : List String} {policy : WritePolicy} {path : UploadPath}
    {handle : Option Location} (hc : create earlier root allowOverwrite patterns = .ok policy)
    (hr : policy.resolve tree filename = .ok path) (hh : path.Handles tree now handle) :
    ∃ canonicalRoot, earlier.canonical root = .ok canonicalRoot ∧ now.way = tree.way ∧
      ∀ place, now.lookup place ≠ tree.lookup place ∨ place ∈ handle →
        tree.EntryBelow canonicalRoot place := by
  refine ⟨policy.canonicalRoot, canonical_of_create hc, ?_⟩
  by_cases hf : ∃ follow found, tree.find follow path.staging = .ok found
  · obtain ⟨follow, found, hf⟩ := hf
    obtain ⟨directory, name, h⟩ := within_of_resolve hr hf
    have hk := h.keeps hh
    refine ⟨hk.way, fun place hp => ?_⟩
    obtain ⟨written, hparent⟩ := h.parent
    have hplace : place = directory ++ [StagedUpload.stagingPath name] ∨
        place = directory ++ [name] := by
      rcases hp with hp | hp
      · by_cases hs : place = directory ++ [StagedUpload.stagingPath name]
        · exact .inl hs
        · by_cases ht : place = directory ++ [name]
          · exact .inr ht
          · exact absurd (hk.elsewhere place hs ht) hp
      · exact hk.handle place hp
    rcases hplace with rfl | rfl
    · exact ⟨written, directory, _, rfl, hparent, h.inside⟩
    · exact ⟨written, directory, _, rfl, hparent, h.inside⟩
  · have hf' : ∀ follow found, tree.find follow path.staging ≠ .ok found :=
      fun follow found he => hf ⟨follow, found, he⟩
    obtain ⟨rfl, rfl⟩ := hh.untouched_of_unfound hf'
    exact ⟨rfl, fun place hp => hp.elim (fun hne => absurd rfl hne) (fun hmem => nomatch hmem)⟩

/-- A root with a box in it, a link to the box, and a link that leads out. -/
def boxTree : FileTree :=
  { entries := [(["srv"], .directory), (["srv", "box"], .directory), (["srv", "in"], .link "box"),
      (["srv", "out"], .link "/etc"), (["etc"], .directory), (["srv", "box", "a"], .file [1])] }

def boxPolicy : WritePolicy :=
  { root := "/srv", canonicalRoot := ["srv"], allowOverwrite := true, patterns := [] }

def boxPath : UploadPath :=
  { relative := "in/a", target := "/srv/in/a", staging := "/srv/in/a.upload" }

def boxTreeAfter : FileTree :=
  ((boxTree.put ["srv", "box", "a.upload"] (.file [5, 6])).erase ["srv", "box", "a.upload"]).put
    ["srv", "box", "a"] (.file [5, 6])

theorem resolve_confines_to_box :
    create boxTree "/srv" true [] = .ok boxPolicy ∧
      boxPolicy.resolve boxTree "\\in\\a" = .ok boxPath ∧
      boxPath.Handles boxTree boxTreeAfter none ∧
      boxTreeAfter.lookup ["srv", "box", "a"] ≠ boxTree.lookup ["srv", "box", "a"] ∧
      ∃ canonicalRoot, boxTree.canonical "/srv" = .ok canonicalRoot ∧
        boxTree.EntryBelow canonicalRoot ["srv", "box", "a"] := by
  have hc : create boxTree "/srv" true [] = .ok boxPolicy := ok_of_toOption (by decide +kernel)
  have hr : boxPolicy.resolve boxTree "\\in\\a" = .ok boxPath :=
    ok_of_toOption (by decide +kernel)
  have hopen : boxTree.create boxPath.staging =
      .ok (["srv", "box", "a.upload"], boxTree.put ["srv", "box", "a.upload"] (.file [])) :=
    ok_of_toOption (by decide +kernel)
  have hrename : ((boxTree.put ["srv", "box", "a.upload"] (.file [])).append
      ["srv", "box", "a.upload"] [5, 6]).rename boxPath.staging boxPath.target =
        .ok boxTreeAfter := ok_of_toOption (by decide +kernel)
  have hh : boxPath.Handles boxTree boxTreeAfter none :=
    ((UploadPath.Handles.untouched.opened hopen).written [5, 6]).renamed hrename
  have hchanged : boxTreeAfter.lookup ["srv", "box", "a"] ≠ boxTree.lookup ["srv", "box", "a"] := by
    decide +kernel
  obtain ⟨canonicalRoot, hroot, -, hbelow⟩ := resolve_confines hc hr hh
  exact ⟨hc, hr, hh, hchanged, canonicalRoot, hroot, hbelow _ (.inl hchanged)⟩

end WritePolicy

end TftpReceiver
