import TftpReceiver.Proofs.NamedPlaces
import TftpReceiver.Upload.Policy

/-! Where the paths of an allowed upload lead: the target and its staging file lie side by side
in one directory below the root. -/

namespace TftpReceiver

theorem of_bind_ok {ε α β : Type} {x : Except ε α} {f : α → Except ε β} {b : β}
    (h : x >>= f = .ok b) : ∃ a, x = .ok a ∧ f a = .ok b := by
  cases x with
  | error e => cases h
  | ok a => exact ⟨a, rfl, h⟩

theorem ok_of_toOption {ε α : Type} {x : Except ε α} {a : α} (h : x.toOption = some a) :
    x = .ok a := by
  cases x with
  | error e => cases h
  | ok b => exact congrArg Except.ok (Option.some.inj h)

/-- The target has a name in a directory below the root, and the staging file lies beside it.
The target may be missing or a file; the staging name is no link. -/
structure UploadPath.Within (path : UploadPath) (tree : FileTree) (root : Location)
    (directory : Location) (name : String) : Prop where
  target : tree.Names path.target directory name
  staging : tree.Names path.staging directory (StagedUpload.stagingPath name)
  free : tree.way (directory ++ [name]) = none
  unlinked : ∀ link, tree.lookup (directory ++ [StagedUpload.stagingPath name]) ≠ some (.link link)
  parent : ∃ parent, tree.inspect true parent = .ok (directory, .directory)
  inside : root <+: directory

namespace WritePolicy

/-- All that is checked before an upload is allowed. -/
structure Clears (policy : WritePolicy) (tree : FileTree) (path : UploadPath) : Prop where
  straight : Path.ascends path.relative = false
  target : path.target = Path.join policy.root path.relative
  staging : path.staging = StagedUpload.stagingPath path.target
  free : policy.checkTarget tree path.target = .ok ()
  parent : policy.checkParent tree path.target = .ok ()
  unlinked : checkStaging tree path.staging = .ok ()

variable {policy : WritePolicy} {tree : FileTree} {filename : String} {path : UploadPath}

theorem of_resolve (h : policy.resolve tree filename = .ok path) :
    path.relative = relativeName filename ∧ policy.Clears tree path ∧
      policy.allows path.relative = true := by
  unfold resolve at h
  dsimp only at h
  split at h
  · cases h
  split at h
  · cases h
  next ha =>
    obtain ⟨⟨⟩, hfree, h⟩ := of_bind_ok h
    obtain ⟨⟨⟩, hparent, h⟩ := of_bind_ok h
    split at h
    · cases h
    next hallowed =>
      obtain ⟨⟨⟩, hunlinked, h⟩ := of_bind_ok h
      obtain rfl := Except.ok.inj h
      refine ⟨rfl, ?_, by simpa using hallowed⟩
      constructor <;> dsimp only
      · exact Bool.eq_false_iff.mpr ha
      · exact hfree
      · exact hparent
      · exact hunlinked

theorem clears_of_resolve (h : policy.resolve tree filename = .ok path) :
    policy.Clears tree path := (of_resolve h).2.1

/-- What passes every check is allowed. -/
theorem resolve_of_clears (hn : relativeName filename ≠ "")
    (hr : path.relative = relativeName filename) (hc : policy.Clears tree path)
    (ha : policy.allows path.relative = true) : policy.resolve tree filename = .ok path := by
  have hstraight : ¬ Path.ascends path.relative = true := by simp [hc.straight]
  unfold resolve
  dsimp only
  rw [← hr] at hn ⊢
  rw [if_neg hn, if_neg hstraight, ← hc.target, ← hc.staging, hc.free, hc.parent, hc.unlinked, ha]
  rfl

theorem inspect_of_canonical {written : String} {place : Location}
    (h : tree.canonical written = .ok place) :
    ∃ entry, tree.inspect true written = .ok (place, entry) := by
  unfold FileTree.canonical at h
  cases hi : tree.inspect true written with
  | error e =>
    rw [hi] at h
    cases h
  | ok found =>
    rw [hi] at h
    obtain rfl := Except.ok.inj h
    exact ⟨found.2, rfl⟩

theorem inspect_of_checkParent {target : String} (h : policy.checkParent tree target = .ok ()) :
    ∃ parent place entry, Path.parent? target = some parent ∧
      tree.inspect true parent = .ok (place, entry) ∧ policy.canonicalRoot <+: place := by
  unfold checkParent at h
  cases hp : Path.parent? target with
  | none => simp [hp] at h
  | some parent =>
    cases hc : tree.canonical parent with
    | error e => simp [hp, hc] at h
    | ok place =>
      obtain ⟨entry, hi⟩ := inspect_of_canonical hc
      by_cases hinside : policy.canonicalRoot <+: place
      · exact ⟨parent, place, entry, rfl, hi, hinside⟩
      · simp [hp, hc, hinside] at h

theorem inspect_empty (follow : Bool) : tree.inspect follow "" = .error .notFound := rfl

/-- The check of the parent walks along the steps before the last name, except for dots at their
end. -/
theorem walk_of_checkParent {target last : String} {front : List String}
    (h : policy.checkParent tree target = .ok ()) (hp : Path.pieces target = front ++ [last])
    (hl : Path.isIdle last = false) : ∃ parent place entry dots,
      Path.parent? target = some parent ∧ tree.inspect true parent = .ok (place, entry) ∧
      policy.canonicalRoot <+: place ∧ (∀ dot ∈ dots, dot = ".") ∧
      front.filter (· ≠ "") = Path.steps parent ++ dots ∧
      tree.walk true FileTree.maxLinks (tree.start target) (Path.steps parent) =
        .ok (.entry place entry) := by
  obtain ⟨parent, place, entry, hparent, hi, hinside⟩ := inspect_of_checkParent h
  obtain ⟨parent', hparent', hempty | ⟨habs, dots, hdots, hfront⟩⟩ := Path.parent?_of_name hp hl
  · obtain rfl := Option.some.inj (hparent.symm.trans hparent')
    rw [hempty, inspect_empty] at hi
    cases hi
  · obtain rfl := Option.some.inj (hparent.symm.trans hparent')
    have hstart : tree.start parent = tree.start target := by
      rw [FileTree.start, FileTree.start, habs]
    have hfind := FileTree.find_of_inspect hi
    obtain ⟨hzero, hfits, hne⟩ := FileTree.legal_of_find hfind
    rw [FileTree.find_of_legal hzero hfits hne, hstart] at hfind
    exact ⟨parent, place, entry, dots, hparent, hi, hinside, hdots, hfront, hfind⟩

/-- The parent of a target that ends in a name is the directory that the name is looked up in. -/
theorem parent_of_checkParent {target last : String} {front : List String} {left : Nat}
    {directory : Location} (h : policy.checkParent tree target = .ok ())
    (hp : Path.pieces target = front ++ [last]) (hl : Path.isIdle last = false)
    (hr : tree.Reaches FileTree.maxLinks (tree.start target) (front.filter (· ≠ "")) left
      directory) :
    (∃ parent, tree.inspect true parent = .ok (directory, .directory)) ∧
      policy.canonicalRoot <+: directory := by
  obtain ⟨parent, place, entry, dots, -, hi, hinside, hdots, hfront, hwalk⟩ :=
    walk_of_checkParent h hp hl
  rw [hfront] at hr
  obtain ⟨between, mid, hsteps, hrest⟩ := hr.split
  obtain ⟨-, rfl⟩ := hrest.idle_end fun step hs => .inr (hdots step hs)
  have hreached : tree.walk true FileTree.maxLinks (tree.start target) (Path.steps parent ++ []) =
      tree.walk true between directory [] := hsteps.walk (.inr rfl)
  rw [List.append_nil, hwalk, FileTree.walk_nil] at hreached
  obtain ⟨rfl, rfl⟩ := Found.entry.inj (Except.ok.inj hreached)
  exact ⟨⟨parent, hi⟩, hinside⟩

theorem way_of_checkTarget {target name : String} {directory : Location}
    (h : policy.checkTarget tree target = .ok ()) (hn : tree.Names target directory name) :
    tree.way (directory ++ [name]) = none := by
  rw [checkTarget, hn.inspect] at h
  rw [FileTree.way_eq_none]
  cases he : tree.lookup (directory ++ [name]) with
  | none => exact .inl rfl
  | some entry =>
    rw [he] at h
    cases entry with
    | file data => exact .inr ⟨data, rfl⟩
    | link target => cases h
    | directory => cases h

theorem unlinked_of_checkStaging {staging name : String} {directory : Location}
    (h : checkStaging tree staging = .ok ()) (hn : tree.Names staging directory name)
    (link : String) : tree.lookup (directory ++ [name]) ≠ some (.link link) := by
  intro hl
  rw [checkStaging, hn.inspect, hl] at h
  cases h

/-- A target that ends in a slash or a dot, if it leads anywhere, is a directory. -/
theorem not_idle_of_checkTarget {target last : String} {front : List String} {left : Nat}
    {directory : Location} (h : policy.checkTarget tree target = .ok ())
    (hzero : target.toList.contains (Char.ofNat 0) = false)
    (hfits : target.utf8ByteSize ≤ FileTree.maxPath) (hne : target ≠ "")
    (hp : Path.pieces target = front ++ [last])
    (hr : tree.Reaches FileTree.maxLinks (tree.start target) (front.filter (· ≠ "")) left
      directory) :
    Path.isIdle last = false := by
  rw [Bool.eq_false_iff]
  intro hl
  rw [checkTarget, FileTree.inspect, FileTree.find_of_idle_end hzero hfits hne hp hl hr] at h
  cases h

theorem pieces_stagingPath {target last : String} {front : List String}
    (h : Path.pieces target = front ++ [last]) :
    Path.pieces (StagedUpload.stagingPath target) = front ++ [StagedUpload.stagingPath last] :=
  Path.pieces_suffixed h (by decide)

theorem stagingPath_is_name (last : String) :
    Path.isIdle (StagedUpload.stagingPath last) = false ∧ StagedUpload.stagingPath last ≠ ".." := by
  have hlength : (StagedUpload.stagingPath last).toList.length = last.toList.length + 7 := by
    simp [StagedUpload.stagingPath, StagedUpload.suffix]
  constructor
  · rw [Bool.eq_false_iff]
    intro hi
    rcases (by simpa [Path.isIdle] using hi : _ ∨ _) with he | he <;> rw [he] at hlength <;>
      simp at hlength
  · intro he
    rw [he] at hlength
    simp at hlength

theorem names_of_find_staging {target last : String} {front : List String} {follow : Bool}
    {found : Found} (hp : Path.pieces target = front ++ [last])
    (hf : tree.find follow (StagedUpload.stagingPath target) = .ok found) :
    ∃ directory, tree.Names (StagedUpload.stagingPath target) directory
      (StagedUpload.stagingPath last) := by
  obtain ⟨hidle, hup⟩ := stagingPath_is_name last
  exact FileTree.names_of_find hf (pieces_stagingPath hp) hidle hup

/-- What fits with a suffix fits without it. -/
theorem fits_of_staging {target last : String} {directory : Location}
    (h : tree.Names (StagedUpload.stagingPath target) directory (StagedUpload.stagingPath last)) :
    target.toList.contains (Char.ofNat 0) = false ∧ target.utf8ByteSize ≤ FileTree.maxPath ∧
      last.utf8ByteSize ≤ FileTree.maxName := by
  have hzero := h.unbroken
  have hpath := h.fits
  have hname := h.isName.fits
  rw [StagedUpload.stagingPath, String.toList_append, List.contains_append] at hzero
  rw [StagedUpload.stagingPath, String.utf8ByteSize_append] at hpath hname
  exact ⟨(Bool.or_eq_false_iff.mp hzero).1, by omega, by omega⟩

theorem ne_empty_of_checkParent {target : String} (h : policy.checkParent tree target = .ok ()) :
    target ≠ "" := by
  rintro rfl
  obtain ⟨parent, -, -, hparent, -⟩ := inspect_of_checkParent h
  cases hparent

theorem pieces_join_relative (h : Path.ascends path.relative = false)
    (ht : path.target = Path.join policy.root path.relative) :
    ∃ front last, Path.pieces path.target = front ++ [last] ∧
      (Path.pieces path.relative).getLast? = some last ∧ last ≠ ".." := by
  obtain ⟨above, habove⟩ := Path.pieces_join policy.root path.relative
  obtain ⟨front, last, hp⟩ := Path.exists_pieces path.relative
  refine ⟨above ++ front, last, by rw [ht, habove, hp, List.append_assoc], by simp [hp], ?_⟩
  rintro rfl
  simp [Path.ascends, hp] at h

theorem start_staging {target staging last last' : String} {front : List String}
    (hp : Path.pieces target = front ++ [last]) (hp' : Path.pieces staging = front ++ [last']) :
    tree.start staging = tree.start target := by
  have habs : Path.isAbsolute staging = Path.isAbsolute target := by
    rw [Bool.eq_iff_iff, Path.isAbsolute_iff_head hp, Path.isAbsolute_iff_head hp']
  rw [FileTree.start, FileTree.start, habs]

/-- The last piece of a target is looked up in the directory that the staging file lies in. -/
theorem reaches_of_staging {target last staged : String} {front : List String}
    {directory : Location} (h : tree.Names (StagedUpload.stagingPath target) directory staged)
    (hp : Path.pieces target = front ++ [last]) : staged = StagedUpload.stagingPath last ∧
      ∃ left, tree.Reaches FileTree.maxLinks (tree.start target) (front.filter (· ≠ "")) left
        directory := by
  have hp' := pieces_stagingPath hp
  obtain ⟨front', left, hwalked, hr⟩ := h.walked
  obtain ⟨rfl, rfl⟩ := List.append_singleton_inj.mp (hwalked.symm.trans hp')
  rw [start_staging hp hp'] at hr
  exact ⟨rfl, left, hr⟩

theorem names_of_staging {target last staged : String} {front : List String} {directory : Location}
    (h : tree.Names (StagedUpload.stagingPath target) directory staged)
    (hp : Path.pieces target = front ++ [last]) (hi : Path.isIdle last = false)
    (hu : last ≠ "..") : tree.Names target directory last := by
  obtain ⟨rfl, left, hr⟩ := reaches_of_staging h hp
  obtain ⟨hzero, hfits, hshort⟩ := fits_of_staging h
  obtain ⟨hempty, hdot⟩ : last ≠ "" ∧ last ≠ "." := by simpa [Path.isIdle] using hi
  exact ⟨hzero, hfits, ⟨hempty, hdot, hu, hshort⟩, front, left, hp, hr⟩

/-- The paths of an allowed upload, if anything can be found along the staging path, are names in
one directory below the root. The checks are made on the target, from which the staging path
differs in the last piece only. -/
theorem within_of_resolve {follow : Bool} {found : Found}
    (h : policy.resolve tree filename = .ok path)
    (hf : tree.find follow path.staging = .ok found) :
    ∃ directory name, path.Within tree policy.canonicalRoot directory name := by
  have hc := clears_of_resolve h
  obtain ⟨front, last, hp, -, hup⟩ := pieces_join_relative hc.straight hc.target
  rw [hc.staging] at hf
  obtain ⟨directory, hstaging⟩ := names_of_find_staging hp hf
  obtain ⟨-, left, hr⟩ := reaches_of_staging hstaging hp
  obtain ⟨hzero, hfits, -⟩ := fits_of_staging hstaging
  have hidle :=
    not_idle_of_checkTarget hc.free hzero hfits (ne_empty_of_checkParent hc.parent) hp hr
  have htarget := names_of_staging hstaging hp hidle hup
  obtain ⟨hparent, hinside⟩ := parent_of_checkParent hc.parent hp hidle hr
  rw [← hc.staging] at hstaging
  exact ⟨directory, last, htarget, hstaging, way_of_checkTarget hc.free htarget,
    unlinked_of_checkStaging hc.unlinked hstaging, hparent, hinside⟩

end WritePolicy

end TftpReceiver
