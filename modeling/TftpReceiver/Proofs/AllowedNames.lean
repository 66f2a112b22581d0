import TftpReceiver.Proofs.CleanedPaths
import TftpReceiver.Proofs.Confinement
import TftpReceiver.Proofs.GlobMatching

/-! The patterns of a write policy judge a name as it was requested. What is written has that
name without empty pieces and dots. -/

namespace TftpReceiver

namespace WritePolicy

variable {earlier tree : FileTree} {root filename : String} {allowOverwrite : Bool}
  {patterns : List String} {parsed : List Pattern} {policy : WritePolicy} {path : UploadPath}

/-- One of the patterns stands for the name. -/
def Listed (patterns : List String) (name : String) : Prop :=
  ∃ text ∈ patterns, ∃ pattern, Pattern.parse text = .ok pattern ∧
    Glob.Matches pattern.tokens name.toList

theorem parse_of_parsePattern {text : String} {pattern : Pattern}
    (h : parsePattern text = .ok pattern) : Pattern.parse text = .ok pattern := by
  unfold parsePattern at h
  split at h
  · next hp =>
    obtain rfl := Except.ok.inj h
    exact hp
  · cases h

theorem parsed_of_mapM (h : patterns.mapM parsePattern = .ok parsed) :
    parsed.length = patterns.length ∧
      ∀ pattern ∈ parsed, ∃ text ∈ patterns, Pattern.parse text = .ok pattern := by
  induction patterns generalizing parsed with
  | nil =>
    obtain rfl := Except.ok.inj h
    exact ⟨rfl, by simp⟩
  | cons text rest ih =>
    rw [List.mapM_cons] at h
    obtain ⟨pattern, hp, h⟩ := of_bind_ok h
    obtain ⟨more, hm, h⟩ := of_bind_ok h
    obtain rfl := Except.ok.inj h
    obtain ⟨hlength, hall⟩ := ih hm
    refine ⟨by simp [hlength], ?_⟩
    intro pattern' hmem
    rcases List.mem_cons.mp hmem with rfl | hmem
    · exact ⟨text, List.mem_cons_self, parse_of_parsePattern hp⟩
    · obtain ⟨text', ht, hparse⟩ := hall pattern' hmem
      exact ⟨text', List.mem_cons_of_mem _ ht, hparse⟩

theorem listed_of_allows (hc : create earlier root allowOverwrite patterns = .ok policy)
    (hne : patterns ≠ []) {name : String} (ha : policy.allows name = true) :
    Listed patterns name := by
  obtain ⟨hlength, hall⟩ := parsed_of_mapM (of_create hc).2.1
  have hsome : policy.patterns.isEmpty = false := by
    rw [Bool.eq_false_iff, ne_eq, List.isEmpty_iff_length_eq_zero, hlength]
    simpa using hne
  rw [allows, hsome, Bool.false_or, List.any_eq_true] at ha
  obtain ⟨pattern, hmem, hmatch⟩ := ha
  obtain ⟨text, ht, hparse⟩ := hall pattern hmem
  exact ⟨text, ht, pattern, hparse, Glob.matchesTokens_iff.mp hmatch⟩

theorem isAbsolute_relativeName (filename : String) :
    Path.isAbsolute (relativeName filename) = false := by
  have h := List.head?_dropWhile_not (fun c : Char => decide (c = '/'))
    (filename.toList.map fun c => if c = '\\' then '/' else c)
  rw [Path.isAbsolute, relativeName, String.toList_ofList]
  split at h
  · next c hc =>
    rw [hc]
    simpa using h
  · next hc =>
    rw [hc]
    rfl

/-- An allowed name is one that a pattern stands for, as it was requested. The entry that is
written is the one that the name leads to without its empty pieces and dots, and if it has none,
a pattern stands for the name of that entry. -/
theorem resolve_matches_pattern (hc : create earlier root allowOverwrite patterns = .ok policy)
    (hne : patterns ≠ []) (hr : policy.resolve tree filename = .ok path) :
    path.relative = relativeName filename ∧ path.target = Path.join root path.relative ∧
    Listed patterns path.relative ∧
    (∀ follow found, tree.find follow path.staging = .ok found → ∃ directory name,
      tree.Names path.target directory name ∧
        tree.Names (Path.join root (Path.cleaned path.relative)) directory name) ∧
    ((∀ piece ∈ Path.pieces path.relative, Path.isIdle piece = false) →
      Listed patterns (Path.cleaned path.relative)) := by
  obtain ⟨hrelative, hclears, hallows⟩ := of_resolve hr
  obtain ⟨-, -, hroot, -⟩ := of_create hc
  have htarget : path.target = Path.join root path.relative := hroot ▸ hclears.target
  have hlisted := listed_of_allows hc hne hallows
  refine ⟨hrelative, htarget, hlisted, ?_, ?_⟩
  · intro follow found hf
    obtain ⟨directory, name, hw⟩ := within_of_resolve hr hf
    have hnames := hw.target
    rw [htarget] at hnames
    exact ⟨directory, name, hw.target,
      hnames.cleaned (hrelative ▸ isAbsolute_relativeName filename)⟩
  · intro hplain
    rwa [Path.cleaned_of_plain hplain]

def folderTree : FileTree :=
  { entries := [(["srv"], .directory), (["srv", "cfg"], .directory)] }

def folderPattern : Pattern :=
  { text := "*/a", tokens := [.anySequence, .char '/', .char 'a'] }

def folderPolicy : WritePolicy :=
  { root := "/srv", canonicalRoot := ["srv"], allowOverwrite := true, patterns := [folderPattern] }

def folderPath : UploadPath :=
  { relative := "cfg/a", target := "/srv/cfg/a", staging := "/srv/cfg/a.upload" }

/-- A dot that stands for a folder in the request, but not in the tree. -/
def dottedPath : UploadPath :=
  { relative := "./a", target := "/srv/./a", staging := "/srv/./a.upload" }

theorem resolve_matches_folder_pattern :
    create folderTree "/srv" true ["*/a"] = .ok folderPolicy ∧ ["*/a"] ≠ [] ∧
      folderPolicy.resolve folderTree "\\cfg\\a" = .ok folderPath ∧
      folderTree.find false folderPath.staging = .ok (.missing ["srv", "cfg"] "a.upload") ∧
      Listed ["*/a"] "cfg/a" ∧ Listed ["*/a"] (Path.cleaned "cfg/a") ∧
      ∃ directory name, folderTree.Names "/srv/cfg/a" directory name := by
  have hc : create folderTree "/srv" true ["*/a"] = .ok folderPolicy :=
    ok_of_toOption (by decide +kernel)
  have hne : ["*/a"] ≠ [] := by decide
  have hr : folderPolicy.resolve folderTree "\\cfg\\a" = .ok folderPath :=
    ok_of_toOption (by decide +kernel)
  have hf : folderTree.find false folderPath.staging = .ok (.missing ["srv", "cfg"] "a.upload") :=
    ok_of_toOption (by decide +kernel)
  have hplain : ∀ piece ∈ Path.pieces folderPath.relative, Path.isIdle piece = false := by
    decide +kernel
  obtain ⟨-, -, hlisted, hplace, hclean⟩ := resolve_matches_pattern hc hne hr
  obtain ⟨directory, name, hnames, -⟩ := hplace false _ hf
  exact ⟨hc, hne, hr, hf, hlisted, hclean hplain, directory, name, hnames⟩

theorem dotted_name_escapes_pattern :
    create folderTree "/srv" true ["*/a"] = .ok folderPolicy ∧
      folderPolicy.resolve folderTree "./a" = .ok dottedPath ∧
      (·.1) <$> folderTree.create dottedPath.staging = .ok ["srv", "a.upload"] ∧
      Path.cleaned dottedPath.relative = "a" ∧
      ¬Listed ["*/a"] (Path.cleaned dottedPath.relative) := by
  have hclean : Path.cleaned dottedPath.relative = "a" := by decide +kernel
  refine ⟨ok_of_toOption (by decide +kernel), ok_of_toOption (by decide +kernel),
    ok_of_toOption (by decide +kernel), hclean, ?_⟩
  rw [hclean]
  rintro ⟨text, ht, pattern, hp, hm⟩
  obtain rfl := List.mem_singleton.mp ht
  have hparse : Pattern.parse "*/a" = .ok folderPattern := ok_of_toOption (by decide +kernel)
  obtain rfl := Except.ok.inj (hparse.symm.trans hp)
  have hmatch := Glob.matchesTokens_iff.mpr hm
  simp [folderPattern, Glob.matchesTokens, Glob.withinComponent] at hmatch

end WritePolicy

end TftpReceiver
