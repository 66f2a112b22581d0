import TftpReceiver.Path

/-! The steps of a path follow from its pieces: what a suffix, a join and the parent of a
path do to them. -/

namespace TftpReceiver.Path

theorem splitSlash_ne_nil (cs : List Char) : splitSlash cs ≠ [] := by
  cases cs with
  | nil => simp [splitSlash]
  | cons c rest =>
    unfold splitSlash
    split
    · simp
    · split <;> simp

theorem splitSlash_of_no_slash {cs : List Char} (h : '/' ∉ cs) : splitSlash cs = [cs] := by
  induction cs with
  | nil => rfl
  | cons c rest ih =>
    simp only [List.mem_cons, not_or] at h
    rw [splitSlash, if_neg (Ne.symm h.1), ih h.2]

theorem splitSlash_append_slash (front back : List Char) :
    splitSlash (front ++ '/' :: back) = splitSlash front ++ splitSlash back := by
  induction front with
  | nil => simp [splitSlash]
  | cons c rest ih =>
    rw [List.cons_append, splitSlash, splitSlash]
    by_cases hc : c = '/'
    · rw [if_pos hc, if_pos hc, ih, List.cons_append]
    · rw [if_neg hc, if_neg hc, ih]
      cases hs : splitSlash rest with
      | nil => exact absurd hs (splitSlash_ne_nil rest)
      | cons piece pieces => rfl

theorem splitSlash_no_slash (cs : List Char) : ∀ piece ∈ splitSlash cs, '/' ∉ piece := by
  induction cs with
  | nil => simp [splitSlash]
  | cons c rest ih =>
    rw [splitSlash]
    by_cases hc : c = '/'
    · rw [if_pos hc]
      simpa using ih
    · rw [if_neg hc]
      cases hs : splitSlash rest with
      | nil => exact absurd hs (splitSlash_ne_nil rest)
      | cons piece pieces =>
        rw [hs] at ih
        obtain ⟨hpiece, hpieces⟩ := List.forall_mem_cons.mp ih
        exact List.forall_mem_cons.mpr
          ⟨List.not_mem_cons_of_ne_of_not_mem (Ne.symm hc) hpiece, hpieces⟩

theorem last_slash (cs : List Char) :
    ∃ last, '/' ∉ last ∧ (cs = last ∨ ∃ front, cs = front ++ '/' :: last) := by
  induction cs with
  | nil => exact ⟨[], by simp, .inl rfl⟩
  | cons c rest ih =>
    obtain ⟨last, hlast, rfl | ⟨front, rfl⟩⟩ := ih
    · by_cases hc : c = '/'
      · exact ⟨rest, hlast, .inr ⟨[], by simp [hc]⟩⟩
      · exact ⟨c :: rest, List.not_mem_cons_of_ne_of_not_mem (Ne.symm hc) hlast, .inl rfl⟩
    · exact ⟨last, hlast, .inr ⟨c :: front, rfl⟩⟩

theorem pieces_of_no_slash {path : String} (h : '/' ∉ path.toList) : pieces path = [path] := by
  simp [pieces, splitSlash_of_no_slash h]

theorem pieces_append_slash (front back : String) :
    pieces (front ++ "/" ++ back) = pieces front ++ pieces back := by
  simp [pieces, splitSlash_append_slash]

theorem pieces_no_slash {path piece : String} (h : piece ∈ pieces path) : '/' ∉ piece.toList := by
  obtain ⟨cs, hcs, rfl⟩ := List.mem_map.mp h
  rw [String.toList_ofList]
  exact splitSlash_no_slash _ cs hcs

/-- A path is one piece, or it comes apart at its last slash. -/
theorem pieces_cases (path : String) : ('/' ∉ path.toList ∧ pieces path = [path]) ∨
    ∃ front last, path = front ++ "/" ++ last ∧ '/' ∉ last.toList ∧
      pieces path = pieces front ++ [last] := by
  obtain ⟨last, hlast, he | ⟨front, he⟩⟩ := last_slash path.toList
  · rw [← he] at hlast
    exact .inl ⟨hlast, pieces_of_no_slash hlast⟩
  · have hpath : path = String.ofList front ++ "/" ++ String.ofList last := by
      apply String.toList_injective
      simp [he]
    have hlast' : '/' ∉ (String.ofList last).toList := by rwa [String.toList_ofList]
    refine .inr ⟨String.ofList front, String.ofList last, hpath, hlast', ?_⟩
    conv => lhs; rw [hpath]
    rw [pieces_append_slash, pieces_of_no_slash hlast']

theorem exists_pieces (path : String) : ∃ front last, pieces path = front ++ [last] := by
  rcases pieces_cases path with ⟨-, h⟩ | ⟨front, last, -, -, h⟩
  · exact ⟨[], path, h⟩
  · exact ⟨pieces front, last, h⟩

variable {path suffix last : String} {front : List String}

theorem pieces_suffixed (h : pieces path = front ++ [last]) (hs : '/' ∉ suffix.toList) :
    pieces (path ++ suffix) = front ++ [last ++ suffix] := by
  rcases pieces_cases path with ⟨hno, hp⟩ | ⟨front', last', rfl, hno, hp⟩
  · obtain ⟨rfl, rfl⟩ := List.append_singleton_inj.mp
      (h.symm.trans hp : front ++ [last] = [] ++ [path])
    exact pieces_of_no_slash (by simp [hno, hs])
  · obtain ⟨rfl, rfl⟩ := List.append_singleton_inj.mp (h.symm.trans hp)
    have hno' : '/' ∉ (last ++ suffix).toList := by simp [hno, hs]
    rw [String.append_assoc, pieces_append_slash, pieces_of_no_slash hno']

theorem endsInSlash_iff (h : pieces path = front ++ [last]) :
    endsInSlash path = true ↔ last = "" ∧ front ≠ [] := by
  rcases pieces_cases path with ⟨hno, hp⟩ | ⟨front', last', rfl, hno, hp⟩
  · obtain ⟨rfl, rfl⟩ := List.append_singleton_inj.mp
      (h.symm.trans hp : front ++ [last] = [] ++ [path])
    have hlast : last.toList.getLast? ≠ some '/' := fun he => hno (List.mem_of_getLast? he)
    simp [endsInSlash, hlast]
  · obtain ⟨rfl, rfl⟩ := List.append_singleton_inj.mp (h.symm.trans hp)
    have hfront : pieces front' ≠ [] := by simp [pieces, splitSlash_ne_nil]
    have hlast : last.toList.getLast? ≠ some '/' := fun he => hno (List.mem_of_getLast? he)
    by_cases hl : last = ""
    · simp [endsInSlash, hl, hfront]
    · obtain ⟨c, hc⟩ : ∃ c, last.toList.getLast? = some c :=
        Option.ne_none_iff_exists'.mp (by simpa using hl)
      rw [hc] at hlast
      simpa [endsInSlash, List.getLast?_cons, hl, hc] using hlast

theorem steps_of_pieces (h : pieces path = front ++ [last]) (hl : last ≠ "") :
    steps path = (pieces path).filter (· ≠ "") := by
  have hslash : endsInSlash path ≠ true := by simp [endsInSlash_iff h, hl]
  simp [steps, hslash]

/-- A path that ends in a slash or a dot leads, if anywhere, to a directory. -/
theorem steps_of_idle_end (h : pieces path = front ++ [last]) (hl : isIdle last = true) :
    ∃ idle, (∀ step ∈ idle, step = "" ∨ step = ".") ∧
      (idle ≠ [] ∨ front.filter (· ≠ "") = []) ∧ steps path = front.filter (· ≠ "") ++ idle := by
  by_cases he : last = ""
  · subst he
    have hnamed : (pieces path).filter (· ≠ "") = front.filter (· ≠ "") := by simp [h]
    by_cases hempty : front.filter (· ≠ "") = []
    · refine ⟨[], by simp, .inr hempty, ?_⟩
      rw [steps, hnamed, if_neg fun hs => hs.1 hempty, List.append_nil]
    · have hfront : front ≠ [] := by
        rintro rfl
        exact hempty rfl
      refine ⟨[""], by simp, .inl (by simp), ?_⟩
      rw [steps, hnamed, if_pos ⟨hempty, (endsInSlash_iff h).mpr ⟨rfl, hfront⟩⟩]
  · refine ⟨[last], by simpa [isIdle, he] using hl, .inl (by simp), ?_⟩
    rw [steps_of_pieces h he, h]
    simp [he]

theorem isAbsolute_iff :
    isAbsolute path = true ↔ ∃ piece rest, pieces path = "" :: piece :: rest := by
  cases hpath : path.toList with
  | nil => simp [isAbsolute, pieces, hpath, splitSlash]
  | cons c cs =>
    by_cases hc : c = '/'
    · subst hc
      have hne := splitSlash_ne_nil cs
      cases hs : splitSlash cs with
      | nil => exact absurd hs hne
      | cons piece rest => simp [isAbsolute, pieces, hpath, splitSlash, hs]
    · cases hs : splitSlash cs with
      | nil => exact absurd hs (splitSlash_ne_nil cs)
      | cons piece rest => simp [isAbsolute, pieces, hpath, splitSlash, hs, hc]

/-- Whether a path starts at the root does not depend on its last piece. -/
theorem isAbsolute_iff_head (h : pieces path = front ++ [last]) :
    isAbsolute path = true ↔ front.head? = some "" := by
  rw [isAbsolute_iff, h]
  cases front with
  | nil => simp
  | cons piece rest =>
    cases hr : rest ++ [last] with
    | nil => simp at hr
    | cons next more => simp [hr]

/-- What a base puts before the pieces of a path does not depend on the path. -/
theorem pieces_join_below (base : String) : ∃ above, ∀ path, isAbsolute path = false →
    pieces (join base path) = above ++ pieces path := by
  by_cases hb : base = "" ∨ endsInSlash base = true
  · rcases hb with rfl | hb
    · exact ⟨[], fun path hp => by simp [join, hp]⟩
    · rcases pieces_cases base with ⟨hno, hone⟩ | ⟨front, last, rfl, -, hfront⟩
      · have hone : pieces base = [] ++ [base] := hone
        simp [endsInSlash_iff hone] at hb
      · obtain ⟨rfl, -⟩ := (endsInSlash_iff hfront).mp hb
        rw [String.append_empty] at hb ⊢
        refine ⟨pieces front, fun path hp => ?_⟩
        simp only [join, hp, hb, or_true, if_true, Bool.false_eq_true, if_false]
        exact pieces_append_slash front path
  · refine ⟨pieces base, fun path hp => ?_⟩
    simp only [join, hp, hb, if_false, Bool.false_eq_true]
    exact pieces_append_slash base path

theorem pieces_join (base path : String) :
    ∃ front, pieces (join base path) = front ++ pieces path := by
  by_cases hp : isAbsolute path = true
  · exact ⟨[], by simp [join, hp]⟩
  · obtain ⟨above, habove⟩ := pieces_join_below base
    exact ⟨above, habove path (Bool.eq_false_iff.mpr hp)⟩

theorem pieces_intercalate {body : List String} (hne : body ≠ [])
    (h : ∀ piece ∈ body, '/' ∉ piece.toList) : pieces ("/".intercalate body) = body := by
  induction body with
  | nil => exact absurd rfl hne
  | cons piece rest ih =>
    obtain ⟨hpiece, hrest⟩ := List.forall_mem_cons.mp h
    cases rest with
    | nil => simpa using pieces_of_no_slash hpiece
    | cons next more =>
      rw [String.intercalate_cons_cons, pieces_append_slash, pieces_of_no_slash hpiece,
        ih (by simp) hrest, List.singleton_append]

theorem trimIdle_concat {body : List String} (hl : isIdle last = false) :
    trimIdle (body ++ [last]) = body ++ [last] := by
  simp [trimIdle, hl]

theorem trimIdle_tail (body : List String) :
    ∃ tail, (∀ piece ∈ tail, isIdle piece = true) ∧ body = trimIdle body ++ tail := by
  refine ⟨(body.reverse.takeWhile isIdle).reverse, ?_, ?_⟩
  · intro piece hp
    exact List.all_eq_true.mp List.all_takeWhile piece (List.mem_reverse.mp hp)
  · rw [trimIdle, ← List.reverse_append, List.takeWhile_append_dropWhile, List.reverse_reverse]

theorem trimIdle_cases (body : List String) :
    trimIdle body = [] ∨ ∃ init last, trimIdle body = init ++ [last] ∧ isIdle last = false := by
  cases h : body.reverse.dropWhile isIdle with
  | nil => exact .inl (by simp [trimIdle, h])
  | cons last init =>
    refine .inr ⟨init.reverse, last, by simp [trimIdle, h], ?_⟩
    have := List.head?_dropWhile_not isIdle body.reverse
    simpa [h] using this

theorem idle_ne_empty {tail : List String} (h : ∀ piece ∈ tail, isIdle piece = true) :
    ∀ piece ∈ tail.filter (· ≠ ""), piece = "." := by
  intro piece hp
  obtain ⟨hmem, hne⟩ := List.mem_filter.mp hp
  have hi := h piece hmem
  simp only [isIdle, Bool.decide_or, Bool.or_eq_true, decide_eq_true_eq] at hi hne
  exact hi.resolve_left hne

/-- The text that an anchored path starts with, as pieces. -/
def Anchor.lead : Anchor → List String
  | .root => [""]
  | .dot => ["."]
  | .name => []

theorem pieces_render (anchor : Anchor) {body : List String} (hne : body ≠ [])
    (h : ∀ piece ∈ body, '/' ∉ piece.toList) :
    pieces (render anchor body) = anchor.lead ++ body := by
  cases anchor with
  | name => exact pieces_intercalate hne h
  | root =>
    have hroot : "/" = "" ++ "/" := rfl
    rw [render, hroot, pieces_append_slash, ← hroot, pieces_intercalate hne h]
    rfl
  | dot =>
    cases body with
    | nil => exact absurd rfl hne
    | cons piece rest =>
      have hdot : "./" = "." ++ "/" := rfl
      rw [render, hdot, pieces_append_slash, pieces_intercalate hne h]
      · rfl
      · simp

theorem isAbsolute_render {anchor : Anchor} {body : List String}
    (h : ∀ piece ∈ body, '/' ∉ piece.toList) (hname : anchor = .name → body.head? ≠ some "") :
    isAbsolute (render anchor body) = true ↔ anchor = .root := by
  cases anchor with
  | root => simp [isAbsolute, render]
  | dot => cases body <;> simp [isAbsolute, render]
  | name =>
    cases body with
    | nil => simp [isAbsolute, render]
    | cons piece rest =>
      rw [isAbsolute_iff, pieces_render .name (by simp) h]
      simp only [Anchor.lead, List.nil_append, reduceCtorEq, iff_false, not_exists]
      rintro next more he
      obtain ⟨rfl, -⟩ := List.cons.inj he
      exact hname rfl rfl

theorem steps_render {anchor : Anchor} {body : List String}
    (h : ∀ piece ∈ body, '/' ∉ piece.toList) (hne : render anchor (trimIdle body) ≠ "") :
    steps (render anchor (trimIdle body)) = (anchor.lead ++ trimIdle body).filter (· ≠ "") := by
  rcases trimIdle_cases body with ht | ⟨init, last, ht, hl⟩
  · rw [ht] at hne ⊢
    cases anchor with
    | root | dot => rfl
    | name => exact absurd rfl hne
  · obtain ⟨tail, -, hbody⟩ := trimIdle_tail body
    have hslash : ∀ piece ∈ trimIdle body, '/' ∉ piece.toList := fun piece hp =>
      h piece (hbody ▸ List.mem_append_left tail hp)
    have hpieces := pieces_render anchor (by simp [ht]) hslash
    rw [ht, ← List.append_assoc] at hpieces
    have hlast : last ≠ "" := by
      rintro rfl
      simp [isIdle] at hl
    rw [ht, steps_of_pieces hpieces hlast, hpieces, List.append_assoc]

/-- How a path that ends in a name is anchored follows from the pieces before that name. -/
theorem anchored_concat (front : List String) : ∃ anchor body, front = anchor.lead ++ body ∧
    (anchor = .name → body.head? ≠ some "") ∧
    ∀ path last, pieces path = front ++ [last] → isIdle last = false →
      anchored path = (anchor, body ++ [last]) := by
  cases front with
  | nil =>
    refine ⟨.name, [], rfl, by simp, fun path last h hl => ?_⟩
    have hlast : last ≠ "." := by
      rintro rfl
      simp [isIdle] at hl
    simp [anchored, h, hlast]
  | cons piece rest =>
    by_cases hroot : piece = ""
    · refine ⟨.root, rest, by simp [Anchor.lead, hroot], by simp, fun path last h _ => ?_⟩
      cases hr : rest ++ [last] with
      | nil => simp at hr
      | cons next more => simp [anchored, h, hroot, hr]
    · by_cases hdot : piece = "."
      · refine ⟨.dot, rest, by simp [Anchor.lead, hdot], by simp, fun path last h _ => ?_⟩
        simp [anchored, h, hdot]
      · refine ⟨.name, piece :: rest, rfl, by simp [hroot], fun path last h _ => ?_⟩
        simp [anchored, h, hroot, hdot]

theorem fileName?_of_name (h : pieces path = front ++ [last]) (hl : isIdle last = false)
    (hu : last ≠ "..") : fileName? path = some last := by
  obtain ⟨anchor, body, -, -, hanchored⟩ := anchored_concat front
  simp [fileName?, hanchored path last h hl, trimIdle_concat hl, hu]

/-- Paths that differ in a last name only have one parent. -/
theorem parent?_eq_of_front {path' last' : String} (h : pieces path = front ++ [last])
    (h' : pieces path' = front ++ [last']) (hl : isIdle last = false) (hl' : isIdle last' = false) :
    parent? path' = parent? path := by
  obtain ⟨anchor, body, -, -, hanchored⟩ := anchored_concat front
  simp [parent?, hanchored path last h hl, hanchored path' last' h' hl', trimIdle_concat hl,
    trimIdle_concat hl']

/-- The parent of a path that ends in a name has the steps before that name, except for dots
at their end, and starts where the path does. -/
theorem parent?_of_name (h : pieces path = front ++ [last]) (hl : isIdle last = false) :
    ∃ parent, parent? path = some parent ∧ (parent = "" ∨
      isAbsolute parent = isAbsolute path ∧
        ∃ dots, (∀ dot ∈ dots, dot = ".") ∧ front.filter (· ≠ "") = steps parent ++ dots) := by
  obtain ⟨anchor, body, rfl, hname, hanchored⟩ := anchored_concat front
  have ha := hanchored path last h hl
  refine ⟨render anchor (trimIdle body), by simp [parent?, ha, trimIdle_concat hl], ?_⟩
  by_cases hempty : render anchor (trimIdle body) = ""
  · exact .inl hempty
  obtain ⟨tail, htail, hbody⟩ := trimIdle_tail body
  have hslash : ∀ piece ∈ body, '/' ∉ piece.toList := by
    intro piece hp
    have hmem : piece ∈ pieces path := by simp [h, hp]
    exact pieces_no_slash hmem
  have hslash' : ∀ piece ∈ trimIdle body, '/' ∉ piece.toList := fun piece hp =>
    hslash piece (hbody ▸ List.mem_append_left tail hp)
  refine .inr ⟨Bool.eq_iff_iff.mpr ?_, tail.filter (· ≠ ""), idle_ne_empty htail, ?_⟩
  · have hname' : anchor = .name → (trimIdle body).head? ≠ some "" := by
      intro hn he
      apply hname hn
      rw [hbody, List.head?_append, he]
      rfl
    rw [isAbsolute_render hslash' hname', isAbsolute_iff_head h]
    cases anchor with
    | root | dot => simp [Anchor.lead]
    | name => simpa [Anchor.lead] using hname rfl
  · rw [steps_render hslash hempty, ← List.filter_append, List.append_assoc, ← hbody]

end TftpReceiver.Path
