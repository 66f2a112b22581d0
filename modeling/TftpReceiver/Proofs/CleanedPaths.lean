import TftpReceiver.Proofs.NamedPlaces

/-! A path without its empty pieces and dots: what is left of it, and that it leads where the
path leads. -/

namespace TftpReceiver

namespace Path

/-- The steps that lead anywhere: all but empty ones and dots. -/
def names (steps : List String) : List String := steps.filter fun step => !isIdle step

def cleaned (path : String) : String := render .name (names (pieces path))

theorem isIdle_iff {step : String} : isIdle step = true ↔ step = "" ∨ step = "." := by
  simp [isIdle]

theorem names_cons_of_idle {step : String} (h : isIdle step = true) (rest : List String) :
    names (step :: rest) = names rest := by
  simp [names, h]

theorem names_append (front back : List String) :
    names (front ++ back) = names front ++ names back := List.filter_append ..

theorem names_filter_nonempty (steps : List String) :
    names (steps.filter (· ≠ "")) = names steps := by
  simp only [names, List.filter_filter]
  apply List.filter_congr
  intro step _
  by_cases he : step = "" <;> simp [isIdle, he]

theorem names_eq_nil {steps : List String} (h : names steps = []) :
    ∀ step ∈ steps, isIdle step = true := by
  simpa [names] using h

theorem names_eq_cons {steps rest : List String} {step : String}
    (h : names steps = names (step :: rest)) (hs : isIdle step = false) :
    ∃ front back, steps = front ++ step :: back ∧ (∀ idle ∈ front, isIdle idle = true) ∧
      names back = names rest := by
  have hcons : names (step :: rest) = step :: names rest := by simp [names, hs]
  obtain ⟨front, back, hsteps, hfront, -, hback⟩ := List.filter_eq_cons_iff.mp (h.trans hcons)
  exact ⟨front, back, hsteps, by simpa using hfront, hback⟩

theorem intercalate_splitSlash (cs : List Char) : ['/'].intercalate (splitSlash cs) = cs := by
  induction cs with
  | nil => rfl
  | cons c rest ih =>
    rw [splitSlash]
    cases hs : splitSlash rest with
    | nil => exact absurd hs (splitSlash_ne_nil rest)
    | cons piece pieces =>
      rw [hs] at ih
      by_cases hc : c = '/'
      · rw [if_pos hc, List.intercalate_cons_cons, ih, hc]
        rfl
      · rw [if_neg hc]
        cases pieces with
        | nil => simpa using ih
        | cons next more =>
          rw [List.intercalate_cons_cons] at ih ⊢
          rw [List.cons_append, List.cons_append, ih]

theorem intercalate_pieces (path : String) : "/".intercalate (pieces path) = path := by
  apply String.toList_injective
  have hlists : (pieces path).map String.toList = splitSlash path.toList := by
    simp [pieces, Function.comp_def]
  rw [String.toList_intercalate, hlists]
  exact intercalate_splitSlash path.toList

theorem sublist_intercalate {some all : List String} (h : some.Sublist all) :
    ("/".intercalate some).toList.Sublist ("/".intercalate all).toList := by
  induction h with
  | slnil => simp
  | @cons some all piece _ ih =>
    cases all with
    | nil => exact ih.trans (by simp)
    | cons next more =>
      rw [String.intercalate_cons_cons, String.toList_append]
      exact ih.trans (List.sublist_append_right _ _)
  | @cons_cons some all piece hs ih =>
    cases some with
    | nil =>
      cases all with
      | nil => simp
      | cons next more => simp [String.intercalate_cons_cons]
    | cons first rest =>
      cases all with
      | nil => cases hs
      | cons next more =>
        simp only [String.intercalate_cons_cons, String.toList_append]
        exact ih.append_left _

theorem size_le_of_sublist {some all : List Char} (h : some.Sublist all) :
    (String.ofList some).utf8ByteSize ≤ (String.ofList all).utf8ByteSize := by
  induction h with
  | slnil => exact Nat.le_refl _
  | cons c _ ih =>
    rw [String.ofList_cons, String.utf8ByteSize_append]
    omega
  | cons_cons c _ ih =>
    rw [String.ofList_cons, String.ofList_cons, String.utf8ByteSize_append,
      String.utf8ByteSize_append]
    omega

theorem cleaned_sublist (path : String) : (cleaned path).toList.Sublist path.toList := by
  have h : (names (pieces path)).Sublist (pieces path) := List.filter_sublist
  have hs := sublist_intercalate h
  rwa [intercalate_pieces] at hs

theorem cleaned_of_plain {path : String} (h : ∀ piece ∈ pieces path, isIdle piece = false) :
    cleaned path = path := by
  have hall : names (pieces path) = pieces path :=
    List.filter_eq_self.mpr fun piece hp => by simp [h piece hp]
  rw [cleaned, hall]
  exact intercalate_pieces path

theorem pieces_cleaned {path : String} (h : names (pieces path) ≠ []) :
    pieces (cleaned path) = names (pieces path) := by
  apply pieces_render .name h
  intro piece hp
  exact pieces_no_slash (List.mem_filter.mp hp).1

theorem isAbsolute_cleaned {path : String} (h : names (pieces path) ≠ []) :
    isAbsolute (cleaned path) = false := by
  rw [Bool.eq_false_iff, ne_eq, isAbsolute_iff, pieces_cleaned h]
  rintro ⟨piece, rest, he⟩
  have hmem : "" ∈ names (pieces path) := by simp [he]
  simp [names, isIdle] at hmem

theorem isAbsolute_join {base path : String} (hp : isAbsolute path = false) :
    isAbsolute (join base path) = isAbsolute base := by
  by_cases hb : base = ""
  · subst hb
    simp only [join, hp, Bool.false_eq_true, if_false, true_or, if_true, String.empty_append]
    rfl
  · cases hc : base.toList with
    | nil => exact absurd (String.toList_eq_nil_iff.mp hc) hb
    | cons c rest =>
      simp only [join, hp, Bool.false_eq_true, if_false]
      split <;> simp [isAbsolute, hc]

theorem join_sublist {base path path' : String} (hp : isAbsolute path = false)
    (hp' : isAbsolute path' = false) (h : path'.toList.Sublist path.toList) :
    (join base path').toList.Sublist (join base path).toList := by
  simp only [join, hp, hp', Bool.false_eq_true, if_false]
  split
  · rw [String.toList_append, String.toList_append]
    exact h.append_left _
  · rw [String.toList_append, String.toList_append (s := base ++ "/")]
    exact h.append_left _

end Path

namespace FileTree

variable {tree : FileTree} {links left : Nat} {here there directory : Location}
  {xs ys : List String} {root relative name : String}

theorem Reaches.idles (hi : ∀ step ∈ xs, Path.isIdle step = true)
    (h : tree.Reaches links here ys left there) :
    tree.Reaches links here (xs ++ ys) left there := by
  induction xs with
  | nil => exact h
  | cons step rest ih =>
    obtain ⟨hs, hrest⟩ := List.forall_mem_cons.mp hi
    exact .idle (Path.isIdle_iff.mp hs) (ih hrest)

theorem IsName.not_idle (h : IsName name) : Path.isIdle name = false := by
  simp [Path.isIdle, h.nonempty, h.nodot]

/-- Walks along the same names lead to the same directory. -/
theorem Reaches.of_same_names (h : tree.Reaches links here xs left there)
    (hn : Path.names ys = Path.names xs) : tree.Reaches links here ys left there := by
  induction h generalizing ys with
  | here =>
    rw [← List.append_nil ys]
    exact .idles (Path.names_eq_nil hn) .here
  | idle hs _ ih =>
    rw [Path.names_cons_of_idle (Path.isIdle_iff.mpr hs)] at hn
    exact ih hn
  | up _ ih =>
    obtain ⟨front, back, rfl, hfront, hback⟩ := Path.names_eq_cons hn (by simp [Path.isIdle])
    exact .idles hfront (.up (ih hback))
  | enter hs hd _ ih =>
    obtain ⟨front, back, rfl, hfront, hback⟩ := Path.names_eq_cons hn hs.not_idle
    exact .idles hfront (.enter hs hd (ih hback))
  | jump hs hl _ ih =>
    obtain ⟨front, back, rfl, hfront, hback⟩ := Path.names_eq_cons hn hs.not_idle
    refine .idles hfront (.jump hs hl (ih ?_))
    rw [Path.names_append, Path.names_append, hback]

/-- Below a root, a path and what is left of it without empty pieces and dots name one entry. -/
theorem Names.cleaned (h : tree.Names (Path.join root relative) directory name)
    (hr : Path.isAbsolute relative = false) :
    tree.Names (Path.join root (Path.cleaned relative)) directory name := by
  obtain ⟨above, habove⟩ := Path.pieces_join_below root
  obtain ⟨front, last, hp⟩ := Path.exists_pieces relative
  have hpath := habove relative hr
  rw [hp, ← List.append_assoc] at hpath
  obtain ⟨left, hreach⟩ : ∃ left, last = name ∧
      tree.Reaches maxLinks (tree.start (Path.join root relative))
        ((above ++ front).filter (· ≠ "")) left directory := by
    obtain ⟨front', left, hp', hreach⟩ := h.walked
    obtain ⟨rfl, rfl⟩ := List.append_singleton_inj.mp (hpath.symm.trans hp')
    exact ⟨left, rfl, hreach⟩
  obtain ⟨rfl, hreach⟩ := hreach
  have hnames : Path.names (Path.pieces relative) = Path.names front ++ [last] := by
    simp [hp, Path.names, h.isName.not_idle]
  have hne : Path.names (Path.pieces relative) ≠ [] := by simp [hnames]
  have hr' := Path.isAbsolute_cleaned hne
  have hshorter : (Path.join root (Path.cleaned relative)).toList.Sublist
      (Path.join root relative).toList :=
    Path.join_sublist hr hr' (Path.cleaned_sublist relative)
  refine ⟨?_, ?_, h.isName, above ++ Path.names front, left, ?_, ?_⟩
  · have hzero := h.unbroken
    rw [← Bool.not_eq_true, List.contains_iff_mem] at hzero ⊢
    exact fun hm => hzero (hshorter.subset hm)
  · have hsize := Path.size_le_of_sublist hshorter
    rw [String.ofList_toList, String.ofList_toList] at hsize
    exact Nat.le_trans hsize h.fits
  · rw [habove _ hr', Path.pieces_cleaned hne, hnames, List.append_assoc]
  · have hstart : tree.start (Path.join root (Path.cleaned relative)) =
        tree.start (Path.join root relative) := by
      rw [start, start, Path.isAbsolute_join hr, Path.isAbsolute_join hr']
    rw [hstart]
    apply hreach.of_same_names
    have htwice : Path.names (Path.names front) = Path.names front := by simp [Path.names]
    rw [Path.names_filter_nonempty, Path.names_filter_nonempty, Path.names_append,
      Path.names_append, htwice]

end FileTree

end TftpReceiver
