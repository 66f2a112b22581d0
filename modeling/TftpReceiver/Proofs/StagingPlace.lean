import TftpReceiver.Proofs.CleanedPaths
import TftpReceiver.Proofs.Confinement
import TftpReceiver.Proofs.StagedFiles

/-! The staging file of an allowed upload lies beside its target: in the directory that was checked,
under the name of the target and a suffix. So it can be made there. -/

namespace TftpReceiver

/-- A path that ends in a slash or in a dot. -/
def Path.endsIdle (path : String) : Bool := (Path.pieces path).getLast?.any Path.isIdle

/-- The target and the staging file have one parent, a directory below the root, and the name of the
one is the name of the other with a suffix. -/
structure UploadPath.Beside (path : UploadPath) (tree : FileTree) (root : Location)
    (directory : Location) (last : String) : Prop where
  name : Path.fileName? path.target = some last
  stagingName : Path.fileName? path.staging = some (last ++ StagedUpload.suffix)
  parents : Path.parent? path.staging = Path.parent? path.target
  parent : ∃ parent, Path.parent? path.target = some parent ∧
    tree.inspect true parent = .ok (directory, .directory)
  inside : root <+: directory

namespace WritePolicy

variable {policy : WritePolicy} {tree : FileTree} {filename target last : String}
  {path : UploadPath} {front : List String} {directory : Location}

theorem notFound_of_checkTarget {e : HostError} (h : policy.checkTarget tree target = .ok ())
    (hf : tree.find false target = .error e) : e.isNotFound = true := by
  by_cases hn : e.isNotFound = true
  · exact hn
  · simp [checkTarget, FileTree.inspect, hf, hn] at h

theorem legal_of_checkTarget (h : policy.checkTarget tree target = .ok ()) (hne : target ≠ "") :
    target.toList.contains (Char.ofNat 0) = false ∧ target.utf8ByteSize ≤ FileTree.maxPath := by
  by_cases hu : target.toList.contains (Char.ofNat 0) = true
  · have hf : tree.find false target = .error .zeroInPath := by rw [FileTree.find, if_pos hu]
    exact absurd (notFound_of_checkTarget h hf) (by decide)
  · refine ⟨by simpa using hu, ?_⟩
    by_cases hl : FileTree.maxPath < target.utf8ByteSize
    · have hf : tree.find false target = .error .nameTooLong := by
        rw [FileTree.find, if_neg hu, if_neg hne, if_pos hl]
      exact absurd (notFound_of_checkTarget h hf) (by decide)
    · omega

/-- The checks of a target that ends in a name walk to the directory of that name. -/
theorem names_of_checks (ht : policy.checkTarget tree target = .ok ())
    (hc : policy.checkParent tree target = .ok ()) (hp : Path.pieces target = front ++ [last])
    (hi : Path.isIdle last = false) (hu : last ≠ "..") : ∃ parent directory,
      Path.parent? target = some parent ∧ tree.inspect true parent = .ok (directory, .directory) ∧
      policy.canonicalRoot <+: directory ∧ tree.Names target directory last := by
  have hne := ne_empty_of_checkParent hc
  obtain ⟨hzero, hfits⟩ := legal_of_checkTarget ht hne
  obtain ⟨parent, place, entry, dots, hparent, hinspect, hinside, hdots, hfront, hwalk⟩ :=
    walk_of_checkParent hc hp hi
  have hname : last ≠ "" ∧ last ≠ "." := by simpa [Path.isIdle] using hi
  have hsteps : Path.steps target = Path.steps parent ++ (dots ++ [last]) := by
    rw [Path.steps_of_pieces hp hname.1, hp, List.filter_append, hfront, List.append_assoc]
    simp [hname.1]
  have htarget : tree.find false target = tree.walk false FileTree.maxLinks (tree.start target)
      (Path.steps parent ++ (dots ++ [last])) := by
    rw [FileTree.find_of_legal hzero hfits hne, hsteps]
  rcases FileTree.walk_ends hwalk with ⟨rfl, left, hr⟩ | hfile
  · have hidle : tree.Reaches left place dots left place := by
      have hdot : ∀ step ∈ dots, Path.isIdle step = true := fun step hs => by
        rw [hdots step hs]
        rfl
      simpa using FileTree.Reaches.idles hdot .here
    have hr' := hr.append hidle
    rw [← List.append_assoc, hr'.walk (.inl (by simp))] at htarget
    have hshort : last.utf8ByteSize ≤ FileTree.maxName := by
      by_cases hl : FileTree.maxName < last.utf8ByteSize
      · rw [FileTree.walk_long hl] at htarget
        exact absurd (notFound_of_checkTarget ht htarget) (by decide)
      · omega
    exact ⟨parent, place, hparent, hinspect, hinside, hzero, hfits,
      ⟨hname.1, hname.2, hu, hshort⟩, front, left, hp, hfront ▸ hr'⟩
  · -- Where the parent is a file, the target could not be looked up.
    rw [hfile _ (by simp)] at htarget
    exact absurd (notFound_of_checkTarget ht htarget) (by decide)

theorem names_staging (h : tree.Names target directory last)
    (hf : (StagedUpload.stagingPath target).utf8ByteSize ≤ FileTree.maxPath)
    (hs : (StagedUpload.stagingPath last).utf8ByteSize ≤ FileTree.maxName) :
    tree.Names (StagedUpload.stagingPath target) directory (StagedUpload.stagingPath last) := by
  obtain ⟨front, left, hp, hr⟩ := h.walked
  have hp' := pieces_stagingPath hp
  obtain ⟨hidle, hup⟩ := stagingPath_is_name last
  have hname : StagedUpload.stagingPath last ≠ "" ∧ StagedUpload.stagingPath last ≠ "." := by
    simpa [Path.isIdle] using hidle
  have hzero : (StagedUpload.stagingPath target).toList.contains (Char.ofNat 0) = false := by
    rw [StagedUpload.stagingPath, String.toList_append, List.contains_append, h.unbroken]
    decide
  refine ⟨hzero, hf, ⟨hname.1, hname.2, hup, hs⟩, front, left, hp', ?_⟩
  rwa [start_staging hp hp']

/-- The staging file of an allowed upload lies beside the target, and it can be made there unless
its path or its name is too long or a directory has that name. -/
theorem resolve_stages_beside (h : policy.resolve tree filename = .ok path)
    (hn : Path.endsIdle (relativeName filename) = false) : ∃ directory last,
      path.Beside tree policy.canonicalRoot directory last ∧
      (path.staging.utf8ByteSize ≤ FileTree.maxPath →
        (last ++ StagedUpload.suffix).utf8ByteSize ≤ FileTree.maxName →
        tree.lookup (directory ++ [last ++ StagedUpload.suffix]) ≠ some .directory →
        ∀ keepPartial, ∃ upload, StagedUpload.create tree path.target keepPartial = .ok upload ∧
          upload.opened = some (directory ++ [last ++ StagedUpload.suffix])) := by
  obtain ⟨hrelative, hc, -⟩ := of_resolve h
  obtain ⟨front, last, hp, hlast, hup⟩ := pieces_join_relative hc.straight hc.target
  have hidle : Path.isIdle last = false := by
    rw [← hrelative, Path.endsIdle, hlast] at hn
    simpa using hn
  obtain ⟨parent, directory, hparent, hinspect, hinside, hnames⟩ :=
    names_of_checks hc.free hc.parent hp hidle hup
  have hp' : Path.pieces path.staging = front ++ [StagedUpload.stagingPath last] := by
    rw [hc.staging, pieces_stagingPath hp]
  obtain ⟨hidle', hup'⟩ := stagingPath_is_name last
  refine ⟨directory, last, ⟨?_, ?_, ?_, ⟨parent, hparent, hinspect⟩, hinside⟩, ?_⟩
  · exact Path.fileName?_of_name hp hidle hup
  · exact Path.fileName?_of_name hp' hidle' hup'
  · exact Path.parent?_eq_of_front hp hp' hidle hidle'
  · intro hfits hshort hdirectory keepPartial
    have hstaging := names_staging hnames (hc.staging ▸ hfits) hshort
    have hlink := unlinked_of_checkStaging hc.unlinked (hc.staging ▸ hstaging)
    have hway := FileTree.way_eq_none_of_ne hlink hdirectory
    rw [StagedUpload.create, hstaging.create hway]
    exact ⟨_, rfl, rfl⟩

theorem resolve_stages_beside_through_link :
    boxPolicy.resolve boxTree "\\in\\a" = .ok boxPath ∧
      Path.endsIdle (relativeName "\\in\\a") = false ∧
      boxPath.Beside boxTree ["srv"] ["srv", "box"] "a" ∧
      boxPath.staging.utf8ByteSize ≤ FileTree.maxPath ∧
      ("a" ++ StagedUpload.suffix).utf8ByteSize ≤ FileTree.maxName ∧
      boxTree.lookup (["srv", "box"] ++ ["a" ++ StagedUpload.suffix]) ≠ some .directory ∧
      ∃ upload, StagedUpload.create boxTree "/srv/in/a" false = .ok upload ∧
        upload.opened = some ["srv", "box", "a.upload"] := by
  have hr : boxPolicy.resolve boxTree "\\in\\a" = .ok boxPath :=
    ok_of_toOption (by decide +kernel)
  have hn : Path.endsIdle (relativeName "\\in\\a") = false := by decide +kernel
  have hfits : boxPath.staging.utf8ByteSize ≤ FileTree.maxPath := by decide +kernel
  have hshort : ("a" ++ StagedUpload.suffix).utf8ByteSize ≤ FileTree.maxName := by decide +kernel
  have hfree : boxTree.lookup (["srv", "box"] ++ ["a" ++ StagedUpload.suffix]) ≠
      some .directory := by decide +kernel
  obtain ⟨directory, last, hbeside, hcreate⟩ := resolve_stages_beside hr hn
  have hname : Path.fileName? boxPath.target = some "a" := by decide +kernel
  obtain rfl := Option.some.inj (hbeside.name.symm.trans hname)
  obtain ⟨parent, hparent, hinspect⟩ := hbeside.parent
  have hparent' : Path.parent? boxPath.target = some "/srv/in" := by decide +kernel
  obtain rfl := Option.some.inj (hparent.symm.trans hparent')
  have hinspect' : boxTree.inspect true "/srv/in" = .ok (["srv", "box"], .directory) :=
    ok_of_toOption (by decide +kernel)
  obtain ⟨rfl, -⟩ := Prod.mk.inj (Except.ok.inj (hinspect.symm.trans hinspect'))
  exact ⟨hr, hn, hbeside, hfits, hshort, hfree, hcreate hfits hshort hfree false⟩

def slashPath : UploadPath :=
  { relative := "new/", target := "/srv/new/", staging := "/srv/new/.upload" }

/-- A name with more slashes before its last component than it needs. -/
def stretchedName (gap : Nat) : String :=
  "box" ++ "/" ++ (String.ofList (List.replicate gap '/') ++ "b")

def stretchedTarget (gap : Nat) : String := "/srv" ++ "/" ++ stretchedName gap

def stretchedPath (gap : Nat) : UploadPath :=
  { relative := stretchedName gap, target := stretchedTarget gap
    staging := StagedUpload.stagingPath (stretchedTarget gap) }

theorem pieces_slashes (gap : Nat) {last : String} (h : '/' ∉ last.toList) :
    Path.pieces (String.ofList (List.replicate gap '/') ++ last) =
      List.replicate gap "" ++ [last] := by
  induction gap with
  | zero => simpa using Path.pieces_of_no_slash h
  | succ gap ih =>
    simp only [Path.pieces, String.toList_append, String.toList_ofList, List.replicate_succ,
      List.cons_append, Path.splitSlash, if_true, List.map_cons] at ih ⊢
    rw [ih]

theorem pieces_stretchedName (gap : Nat) :
    Path.pieces (stretchedName gap) = "box" :: List.replicate gap "" ++ ["b"] := by
  have hb : '/' ∉ "b".toList := by decide
  have hbox : Path.pieces "box" = ["box"] := Path.pieces_of_no_slash (by decide)
  rw [stretchedName, Path.pieces_append_slash, hbox, pieces_slashes gap hb]
  rfl

theorem pieces_stretchedTarget (gap : Nat) : Path.pieces (stretchedTarget gap) =
    ("" :: "srv" :: "box" :: List.replicate gap "") ++ ["b"] := by
  have hroot : Path.pieces "/srv" = ["", "srv"] := by decide
  rw [stretchedTarget, Path.pieces_append_slash, hroot, pieces_stretchedName]
  rfl

theorem size_slashes (gap : Nat) :
    (String.ofList (List.replicate gap '/')).utf8ByteSize = gap := by
  induction gap with
  | zero => rfl
  | succ gap ih =>
    have hslash : (String.singleton '/').utf8ByteSize = 1 := by decide
    rw [List.replicate_succ, String.ofList_cons, String.utf8ByteSize_append, ih, hslash]
    omega

theorem size_stretchedTarget (gap : Nat) : (stretchedTarget gap).utf8ByteSize = gap + 10 := by
  have hroot : "/srv".utf8ByteSize = 4 := by decide
  have hslash : "/".utf8ByteSize = 1 := by decide
  have hbox : "box".utf8ByteSize = 3 := by decide
  have hb : "b".utf8ByteSize = 1 := by decide
  simp only [stretchedTarget, stretchedName, String.utf8ByteSize_append, size_slashes, hroot,
    hslash, hbox, hb]
  omega

theorem names_stretchedTarget {gap : Nat} (hu : gap ≤ 4085) :
    boxTree.Names (stretchedTarget gap) ["srv", "box"] "b" := by
  have hp := pieces_stretchedTarget gap
  have hfits : (stretchedTarget gap).utf8ByteSize ≤ FileTree.maxPath := by
    rw [size_stretchedTarget, FileTree.maxPath]
    omega
  have hstart : boxTree.start (stretchedTarget gap) = [] := by
    rw [FileTree.start, if_pos ((Path.isAbsolute_iff_head hp).mpr rfl)]
  have hsrv : FileTree.IsName "srv" := ⟨by decide, by decide, by decide, by decide⟩
  have hbox : FileTree.IsName "box" := ⟨by decide, by decide, by decide, by decide⟩
  have hb : FileTree.IsName "b" := ⟨by decide, by decide, by decide, by decide⟩
  refine ⟨?_, hfits, hb, _, FileTree.maxLinks, hp, ?_⟩
  · simp [stretchedTarget, stretchedName]
  · have hfront : ("" :: "srv" :: "box" :: List.replicate gap "").filter (· ≠ "") =
        ["srv", "box"] := by simp
    rw [hstart, hfront]
    exact .enter hsrv (by decide) (.enter hbox (by decide) .here)

theorem parent?_stretchedTarget (gap : Nat) :
    Path.parent? (stretchedTarget gap) = some "/srv/box" := by
  have hanchored : Path.anchored (stretchedTarget gap) =
      (.root, ("srv" :: "box" :: List.replicate gap "") ++ ["b"]) := by
    rw [Path.anchored, pieces_stretchedTarget]
    rfl
  have hidle : ∀ piece ∈ List.replicate gap "", Path.isIdle piece = true := by
    intro piece hpiece
    rw [List.eq_of_mem_replicate hpiece]
    rfl
  have htrim : Path.trimIdle ("srv" :: "box" :: List.replicate gap "") = ["srv", "box"] := by
    have hreverse : ("srv" :: "box" :: List.replicate gap "").reverse =
        List.replicate gap "" ++ ["box", "srv"] := by simp
    rw [Path.trimIdle, hreverse, List.dropWhile_append_of_pos hidle]
    rfl
  rw [Path.parent?, hanchored]
  dsimp only
  rw [Path.trimIdle_concat (by decide), if_neg (by simp), List.dropLast_concat, htrim]
  rfl

theorem relativeName_stretchedName (gap : Nat) :
    relativeName (stretchedName gap) = stretchedName gap := by
  apply String.toList_injective
  simp [relativeName, stretchedName]

theorem unfound_of_long {follow : Bool} {found : Found} {written : String}
    (h : FileTree.maxPath < written.utf8ByteSize) : tree.find follow written ≠ .ok found := by
  intro hf
  have hfits := (FileTree.legal_of_find hf).2.1
  omega

theorem long_staging {gap : Nat} (hl : 4078 < gap) :
    FileTree.maxPath < (StagedUpload.stagingPath (stretchedTarget gap)).utf8ByteSize := by
  have hsuffix : StagedUpload.suffix.utf8ByteSize = 7 := by decide
  rw [StagedUpload.stagingPath, String.utf8ByteSize_append, size_stretchedTarget, hsuffix,
    FileTree.maxPath]
  omega

theorem resolve_stretchedName {gap : Nat} (hl : 4078 < gap) (hu : gap ≤ 4085) :
    boxPolicy.resolve boxTree (stretchedName gap) = .ok (stretchedPath gap) := by
  have hne : stretchedName gap ≠ "" := by simp [stretchedName]
  have hstraight : Path.ascends (stretchedName gap) = false := by
    simp [Path.ascends, pieces_stretchedName]
  have htarget : Path.join boxPolicy.root (stretchedName gap) = stretchedTarget gap := by
    have hname : Path.isAbsolute (stretchedName gap) = false := by
      simp [Path.isAbsolute, stretchedName]
    have hroot : Path.endsInSlash "/srv" = false := by decide
    simp [Path.join, boxPolicy, hname, hroot, stretchedTarget]
  have hfree : boxPolicy.checkTarget boxTree (stretchedTarget gap) = .ok () := by
    have hlookup : boxTree.lookup (["srv", "box"] ++ ["b"]) = none := by decide
    rw [checkTarget, (names_stretchedTarget hu).inspect, hlookup]
    rfl
  have hparent : boxPolicy.checkParent boxTree (stretchedTarget gap) = .ok () := by
    have hcanonical : boxTree.canonical "/srv/box" = .ok ["srv", "box"] :=
      ok_of_toOption (by decide +kernel)
    rw [checkParent, parent?_stretchedTarget]
    simp [hcanonical, boxPolicy]
  have hunlinked : checkStaging boxTree (StagedUpload.stagingPath (stretchedTarget gap)) =
      .ok () := by
    cases hi : boxTree.inspect false (StagedUpload.stagingPath (stretchedTarget gap)) with
    | error e => rw [checkStaging, hi]
    | ok found => exact absurd (FileTree.find_of_inspect hi) (unfound_of_long (long_staging hl))
  have hallowed : boxPolicy.allows (stretchedName gap) = true := rfl
  have hrelative := relativeName_stretchedName gap
  exact resolve_of_clears (hrelative.symm ▸ hne) hrelative.symm
    ⟨hstraight, htarget.symm, rfl, hfree, hparent, hunlinked⟩ hallowed

theorem uncreated_of_long {keepPartial : Bool} {upload : StagedUpload}
    (h : FileTree.maxPath < (StagedUpload.stagingPath target).utf8ByteSize) :
    StagedUpload.create tree target keepPartial ≠ .ok upload := by
  intro hc
  obtain ⟨-, place, opened, hopen⟩ := StagedUpload.opened_of_create hc
  obtain ⟨found, hf⟩ := FileTree.find_of_create hopen
  exact unfound_of_long h hf

/-- With a slash at the end of the name the staging path leads elsewhere, and a path that fits may
be too long with the suffix. -/
theorem resolve_stages_apart :
    (boxPolicy.resolve boxTree "new/" = .ok slashPath ∧
      ¬ ∃ directory last, slashPath.Beside boxTree ["srv"] directory last) ∧
    ∃ filename path, boxPolicy.resolve boxTree filename = .ok path ∧
      path.Beside boxTree ["srv"] ["srv", "box"] "b" ∧
      ("b" ++ StagedUpload.suffix).utf8ByteSize ≤ FileTree.maxName ∧
      boxTree.lookup (["srv", "box"] ++ ["b" ++ StagedUpload.suffix]) ≠ some .directory ∧
      ∀ keepPartial upload, StagedUpload.create boxTree path.target keepPartial ≠ .ok upload := by
  constructor
  · refine ⟨ok_of_toOption (by decide +kernel), ?_⟩
    rintro ⟨directory, last, hbeside⟩
    exact absurd hbeside.parents (by decide +kernel)
  · have hp := pieces_stretchedTarget 4080
    have hp' := pieces_stagingPath hp
    have hinspect : boxTree.inspect true "/srv/box" = .ok (["srv", "box"], .directory) :=
      ok_of_toOption (by decide +kernel)
    refine ⟨stretchedName 4080, stretchedPath 4080,
      resolve_stretchedName (by decide) (by decide), ⟨?_, ?_, ?_, ?_, by decide⟩,
      by decide, by decide, fun keepPartial upload => ?_⟩
    · exact Path.fileName?_of_name hp (by decide) (by decide)
    · exact Path.fileName?_of_name hp' (by decide) (by decide)
    · exact Path.parent?_eq_of_front hp hp' (by decide) (by decide)
    · exact ⟨"/srv/box", parent?_stretchedTarget 4080, hinspect⟩
    · exact uncreated_of_long (long_staging (by decide))

end WritePolicy

end TftpReceiver
