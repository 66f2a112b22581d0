import TftpReceiver.Proofs.TreeEntries

/-! Walks through a file tree. Which directory a walk reaches depends on the directories and
links of the tree alone, not on its files. -/

namespace TftpReceiver.FileTree

/-- A step that looks up an entry. -/
structure IsName (step : String) : Prop where
  nonempty : step ≠ ""
  nodot : step ≠ "."
  nodots : step ≠ ".."
  fits : step.utf8ByteSize ≤ maxName

/-- A walk along steps that reaches a directory, with links left to pass. -/
inductive Reaches (tree : FileTree) :
    (links : Nat) → Location → List String → (left : Nat) → Location → Prop
  | here {links here} : Reaches tree links here [] links here
  | idle {links here step rest left there} (hs : step = "" ∨ step = ".")
      (h : Reaches tree links here rest left there) :
      Reaches tree links here (step :: rest) left there
  | up {links here rest left there} (h : Reaches tree links here.dropLast rest left there) :
      Reaches tree links here (".." :: rest) left there
  | enter {links here step rest left there} (hs : IsName step)
      (hd : tree.way (here ++ [step]) = some .directory)
      (h : Reaches tree links (here ++ [step]) rest left there) :
      Reaches tree links here (step :: rest) left there
  | jump {links here step target rest left there} (hs : IsName step)
      (hl : tree.way (here ++ [step]) = some (.link target))
      (h : Reaches tree links (if Path.isAbsolute target then [] else here)
        (Path.steps target ++ rest) left there) :
      Reaches tree (links + 1) here (step :: rest) left there

variable {tree tree' : FileTree} {links left : Nat} {here there : Location} {xs ys : List String}
  {name : String} {follow : Bool}

theorem Reaches.congr (h : tree.Reaches links here xs left there) (hw : tree'.way = tree.way) :
    tree'.Reaches links here xs left there := by
  induction h with
  | here => exact .here
  | idle hs _ ih => exact .idle hs ih
  | up _ ih => exact .up ih
  | enter hs hd _ ih => exact .enter hs (hw ▸ hd) ih
  | jump hs hl _ ih => exact .jump hs (hw ▸ hl) ih

theorem Reaches.split (h : tree.Reaches links here (xs ++ ys) left there) :
    ∃ between mid, tree.Reaches links here xs between mid ∧
      tree.Reaches between mid ys left there := by
  generalize hz : xs ++ ys = zs at h
  induction h generalizing xs with
  | here =>
    obtain ⟨rfl, rfl⟩ := List.append_eq_nil_iff.mp hz
    exact ⟨_, _, .here, .here⟩
  | idle hs h ih =>
    cases xs with
    | nil =>
      obtain rfl : ys = _ := hz
      exact ⟨_, _, .here, .idle hs h⟩
    | cons x xs =>
      obtain ⟨rfl, hr⟩ := List.cons.inj hz
      obtain ⟨between, mid, h₁, h₂⟩ := ih hr
      exact ⟨between, mid, .idle hs h₁, h₂⟩
  | up h ih =>
    cases xs with
    | nil =>
      obtain rfl : ys = _ := hz
      exact ⟨_, _, .here, .up h⟩
    | cons x xs =>
      obtain ⟨rfl, hr⟩ := List.cons.inj hz
      obtain ⟨between, mid, h₁, h₂⟩ := ih hr
      exact ⟨between, mid, .up h₁, h₂⟩
  | enter hs hd h ih =>
    cases xs with
    | nil =>
      obtain rfl : ys = _ := hz
      exact ⟨_, _, .here, .enter hs hd h⟩
    | cons x xs =>
      obtain ⟨rfl, hr⟩ := List.cons.inj hz
      obtain ⟨between, mid, h₁, h₂⟩ := ih hr
      exact ⟨between, mid, .enter hs hd h₁, h₂⟩
  | jump hs hl h ih =>
    cases xs with
    | nil =>
      obtain rfl : ys = _ := hz
      exact ⟨_, _, .here, .jump hs hl h⟩
    | cons x xs =>
      obtain ⟨rfl, rfl⟩ := List.cons.inj hz
      obtain ⟨between, mid, h₁, h₂⟩ := ih (List.append_assoc ..)
      exact ⟨between, mid, .jump hs hl h₁, h₂⟩

theorem Reaches.append {between : Nat} {mid : Location} (h : tree.Reaches links here xs between mid)
    (h' : tree.Reaches between mid ys left there) :
    tree.Reaches links here (xs ++ ys) left there := by
  induction h with
  | here => exact h'
  | idle hs _ ih => exact .idle hs (ih h')
  | up _ ih => exact .up (ih h')
  | enter hs hd _ ih => exact .enter hs hd (ih h')
  | jump hs hl _ ih =>
    have hr := ih h'
    rw [List.append_assoc] at hr
    exact .jump hs hl hr

theorem Reaches.idle_end (h : tree.Reaches links here xs left there)
    (hi : ∀ step ∈ xs, step = "" ∨ step = ".") : left = links ∧ there = here := by
  induction h with
  | here => exact ⟨rfl, rfl⟩
  | idle _ _ ih => exact ih fun step hs => hi step (List.mem_cons_of_mem _ hs)
  | up _ _ => simpa using hi ".." List.mem_cons_self
  | enter hs _ _ _ | jump hs _ _ _ =>
    exact absurd (hi _ List.mem_cons_self) (not_or.mpr ⟨hs.nonempty, hs.nodot⟩)

/-- How a walk goes on behind a link that it may not be able to pass. -/
def behind (tree : FileTree) (follow : Bool) :
    (links : Nat) → Location → List String → Except HostError Found
  | 0 => fun _ _ => .error .tooManyLinks
  | links + 1 => tree.walk follow links

theorem walk_eq (tree : FileTree) (follow : Bool) (links : Nat) :
    tree.walk follow links = walkWith (tree.behind follow links) tree follow := by
  cases links <;> rfl

theorem walk_nil : tree.walk follow links here [] = .ok (.entry here .directory) := by
  rw [walk_eq, walkWith]

theorem walk_idle {step : String} (hs : step = "" ∨ step = ".") (rest : List String) :
    tree.walk follow links here (step :: rest) = tree.walk follow links here rest := by
  rw [walk_eq, walkWith, if_pos hs]

theorem walk_idles (hi : ∀ step ∈ xs, step = "" ∨ step = ".") :
    tree.walk follow links here xs = .ok (.entry here .directory) := by
  induction xs with
  | nil => exact walk_nil
  | cons step rest ih =>
    obtain ⟨hs, hrest⟩ := List.forall_mem_cons.mp hi
    rw [walk_idle hs, ih hrest]

theorem walk_up (rest : List String) : tree.walk follow links here (".." :: rest) =
    tree.walk follow links here.dropLast rest := by
  rw [walk_eq, walkWith, if_neg (by simp), if_pos rfl]

theorem walk_name {step : String} (hs : IsName step) (rest : List String) :
    tree.walk follow links here (step :: rest) =
      match tree.lookup (here ++ [step]) with
      | none =>
        if rest = [] then .ok (.missing here step)
        else if rest.all (· = "") then .ok (.noDirectory here step)
        else .error .notFound
      | some .directory => tree.walk follow links (here ++ [step]) rest
      | some (.file data) =>
        if rest = [] then .ok (.entry (here ++ [step]) (.file data)) else .error .notADirectory
      | some (.link target) =>
        if rest = [] ∧ ¬ follow then .ok (.entry (here ++ [step]) (.link target))
        else
          tree.behind follow links (if Path.isAbsolute target then [] else here)
            (Path.steps target ++ rest) := by
  have hlong : ¬ maxName < step.utf8ByteSize := Nat.not_lt.mpr hs.fits
  have hidle : ¬ (step = "" ∨ step = ".") := not_or.mpr ⟨hs.nonempty, hs.nodot⟩
  rw [walk_eq]
  exact (if_neg hidle).trans ((if_neg hs.nodots).trans (if_neg hlong))

theorem Reaches.walk (h : tree.Reaches links here xs left there) (hy : ys ≠ [] ∨ follow = true) :
    tree.walk follow links here (xs ++ ys) = tree.walk follow left there ys := by
  induction h with
  | here => rfl
  | idle hs _ ih => rw [List.cons_append, walk_idle hs, ih]
  | up _ ih => rw [List.cons_append, walk_up, ih]
  | enter hs hd _ ih =>
    rw [List.cons_append, walk_name hs, (way_eq_some.mp hd).1]
    exact ih
  | @jump _ _ _ _ rest _ _ hs hl _ ih =>
    have hgo : ¬ (rest ++ ys = [] ∧ ¬ follow = true) := fun ⟨hn, hf⟩ =>
      hy.elim (fun hy => hy (List.append_eq_nil_iff.mp hn).2) hf
    rw [List.cons_append, walk_name hs, (way_eq_some.mp hl).1]
    simp only [if_neg hgo, behind]
    rw [← List.append_assoc, ih]

theorem step_cases (step : String) :
    (step = "" ∨ step = ".") ∨ step = ".." ∨ IsName step ∨ maxName < step.utf8ByteSize := by
  by_cases hi : step = "" ∨ step = "."
  · exact .inl hi
  · by_cases hu : step = ".."
    · exact .inr (.inl hu)
    · obtain ⟨hempty, hdot⟩ := not_or.mp hi
      rcases Nat.lt_or_ge maxName step.utf8ByteSize with hl | hf
      · exact .inr (.inr (.inr hl))
      · exact .inr (.inr (.inl ⟨hempty, hdot, hu, hf⟩))

theorem walk_long {step : String} (hl : maxName < step.utf8ByteSize) (rest : List String) :
    tree.walk follow links here (step :: rest) = .error .nameTooLong := by
  have hi : ¬ (step = "" ∨ step = ".") := by
    rintro (rfl | rfl) <;> exact absurd hl (by decide)
  have hu : step ≠ ".." := by
    rintro rfl
    exact absurd hl (by decide)
  rw [walk_eq, walkWith, if_neg hi, if_neg hu, if_pos hl]

theorem reaches_of_walk_behind {found : Found} (hn : name ≠ "")
    (hbehind : ∀ {base zs}, tree.behind follow links base (zs ++ [name]) = .ok found →
      ∃ below left there, links = below + 1 ∧ tree.Reaches below base zs left there ∧
        tree.walk follow left there [name] = .ok found)
    (h : tree.walk follow links here (xs ++ [name]) = .ok found) :
    ∃ left there, tree.Reaches links here xs left there ∧
      tree.walk follow left there [name] = .ok found := by
  induction xs generalizing here with
  | nil => exact ⟨links, here, .here, h⟩
  | cons step rest ih =>
    rw [List.cons_append] at h
    rcases step_cases step with hi | rfl | hs | hl
    · rw [walk_idle hi] at h
      obtain ⟨left, there, hr, hw⟩ := ih h
      exact ⟨left, there, .idle hi hr, hw⟩
    · rw [walk_up] at h
      obtain ⟨left, there, hr, hw⟩ := ih h
      exact ⟨left, there, .up hr, hw⟩
    · rw [walk_name hs] at h
      cases he : tree.lookup (here ++ [step]) with
      | none => simp [he, hn] at h
      | some entry =>
        cases entry with
        | file data => simp [he] at h
        | directory =>
          simp only [he] at h
          obtain ⟨left, there, hr, hw⟩ := ih h
          exact ⟨left, there, .enter hs (way_eq_some.mpr ⟨he, rfl⟩) hr, hw⟩
        | link target =>
          simp only [he, List.append_eq_nil_iff, List.cons_ne_self, and_false,
            false_and, if_false, ← List.append_assoc] at h
          obtain ⟨below, left, there, rfl, hr, hw⟩ := hbehind h
          exact ⟨left, there, .jump hs (way_eq_some.mpr ⟨he, rfl⟩) hr, hw⟩
    · rw [walk_long hl] at h
      cases h

/-- A walk to a name, if it comes to an end, reaches the directory that the name is looked up
in. The induction is on the links, since each puts other steps before the rest. -/
theorem reaches_of_walk {found : Found} (hn : name ≠ "")
    (h : tree.walk follow links here (xs ++ [name]) = .ok found) :
    ∃ left there, tree.Reaches links here xs left there ∧
      tree.walk follow left there [name] = .ok found := by
  induction links generalizing here xs with
  | zero => exact reaches_of_walk_behind hn (fun hb => nomatch hb) h
  | succ links ih =>
    refine reaches_of_walk_behind hn (fun hb => ?_) h
    obtain ⟨left, there, hr, hw⟩ := ih hb
    exact ⟨links, left, there, rfl, hr, hw⟩

theorem walk_ends_behind {place : Location} {entry : Entry}
    (hbehind : ∀ {base zs}, tree.behind true links base zs = .ok (.entry place entry) →
      (entry = .directory ∧ ∃ below left, links = below + 1 ∧
        tree.Reaches below base zs left place) ∨
      ∀ ys, ys ≠ [] → tree.behind follow links base (zs ++ ys) = .error .notADirectory)
    (h : tree.walk true links here xs = .ok (.entry place entry)) :
    (entry = .directory ∧ ∃ left, tree.Reaches links here xs left place) ∨
      ∀ ys, ys ≠ [] → tree.walk follow links here (xs ++ ys) = .error .notADirectory := by
  induction xs generalizing here with
  | nil =>
    rw [walk_nil] at h
    obtain ⟨rfl, rfl⟩ := Found.entry.inj (Except.ok.inj h)
    exact .inl ⟨rfl, links, .here⟩
  | cons step rest ih =>
    rcases step_cases step with hi | rfl | hs | hl
    · rw [walk_idle hi] at h
      rcases ih h with ⟨he, left, hr⟩ | hfile
      · exact .inl ⟨he, left, .idle hi hr⟩
      · exact .inr fun ys hy => by rw [List.cons_append, walk_idle hi, hfile ys hy]
    · rw [walk_up] at h
      rcases ih h with ⟨he, left, hr⟩ | hfile
      · exact .inl ⟨he, left, .up hr⟩
      · exact .inr fun ys hy => by rw [List.cons_append, walk_up, hfile ys hy]
    · rw [walk_name hs] at h
      cases hlookup : tree.lookup (here ++ [step]) with
      | none =>
        rw [hlookup] at h
        dsimp only at h
        split at h
        · cases h
        · split at h <;> cases h
      | some met =>
        cases met with
        | file data =>
          refine .inr fun ys hy => ?_
          rw [List.cons_append, walk_name hs, hlookup]
          simp [hy]
        | directory =>
          simp only [hlookup] at h
          have hd : tree.way (here ++ [step]) = some .directory := way_eq_some.mpr ⟨hlookup, rfl⟩
          rcases ih h with ⟨he, left, hr⟩ | hfile
          · exact .inl ⟨he, left, .enter hs hd hr⟩
          · refine .inr fun ys hy => ?_
            rw [List.cons_append, walk_name hs, hlookup]
            exact hfile ys hy
        | link target =>
          simp only [hlookup, not_true_eq_false, and_false, if_false] at h
          have hl : tree.way (here ++ [step]) = some (.link target) :=
            way_eq_some.mpr ⟨hlookup, rfl⟩
          rcases hbehind h with ⟨he, below, left, rfl, hr⟩ | hfile
          · exact .inl ⟨he, left, .jump hs hl hr⟩
          · refine .inr fun ys hy => ?_
            have hgo : ¬ (rest ++ ys = [] ∧ ¬ follow = true) := by simp [hy]
            rw [List.cons_append, walk_name hs, hlookup]
            simp only [if_neg hgo]
            rw [← List.append_assoc, hfile ys hy]
    · rw [walk_long hl] at h
      cases h

/-- A walk that follows links to an entry reaches it as a directory, or no walk goes further. -/
theorem walk_ends {place : Location} {entry : Entry}
    (h : tree.walk true links here xs = .ok (.entry place entry)) :
    (entry = .directory ∧ ∃ left, tree.Reaches links here xs left place) ∨
      ∀ ys, ys ≠ [] → tree.walk follow links here (xs ++ ys) = .error .notADirectory := by
  induction links generalizing here xs with
  | zero => exact walk_ends_behind (fun hb => nomatch hb) h
  | succ links ih =>
    refine walk_ends_behind (fun hb => ?_) h
    rcases ih hb with ⟨he, left, hr⟩ | hfile
    · exact .inl ⟨he, links, left, rfl, hr⟩
    · exact .inr hfile

/-- Where a file was found or can be made. -/
def fileAt? : Found → Option Location
  | .entry place (.file _) => some place
  | .missing directory name => some (directory ++ [name])
  | _ => none

/-- Every tree with the same ways and a file at a place is walked to that file. -/
structure LeadsTo (tree : FileTree) (place : Location)
    (walk : FileTree → Except HostError Found) : Prop where
  below : place ≠ []
  free : tree.way place = none
  leads : ∀ (now : FileTree) (data : Bytes), now.way = tree.way → now.working = tree.working →
    now.lookup place = some (.file data) → walk now = .ok (.entry place (.file data))

theorem LeadsTo.congr {place : Location} {walk walk' : FileTree → Except HostError Found}
    (h : tree.LeadsTo place walk)
    (hw : ∀ now : FileTree, now.way = tree.way → walk' now = walk now) :
    tree.LeadsTo place walk' :=
  ⟨h.below, h.free,
    fun now data hway hwork hl => (hw now hway).trans (h.leads now data hway hwork hl)⟩

theorem leadsTo_name {step : String} (hs : IsName step)
    (hfree : tree.way (here ++ [step]) = none) :
    tree.LeadsTo (here ++ [step]) fun now => now.walk true links here [step] := by
  refine ⟨by simp, hfree, fun now data _ _ hl => ?_⟩
  rw [walk_name hs, hl]
  rfl

theorem leadsTo_of_walk_behind {found : Found} {place : Location}
    (hf : fileAt? found = some place)
    (hbehind : ∀ {base zs}, tree.behind true links base zs = .ok found →
      tree.LeadsTo place fun now => now.behind true links base zs)
    (h : tree.walk true links here xs = .ok found) :
    tree.LeadsTo place fun now => now.walk true links here xs := by
  induction xs generalizing here with
  | nil =>
    rw [walk_nil] at h
    obtain rfl := Except.ok.inj h
    cases hf
  | cons step rest ih =>
    rcases step_cases step with hi | rfl | hs | hl
    · rw [walk_idle hi] at h
      exact (ih h).congr fun now _ => walk_idle hi rest
    · rw [walk_up] at h
      exact (ih h).congr fun now _ => walk_up rest
    · rw [walk_name hs] at h
      cases hlookup : tree.lookup (here ++ [step]) with
      | none =>
        have hfree := way_eq_none.mpr (.inl hlookup)
        simp only [hlookup] at h
        by_cases hrest : rest = []
        · rw [if_pos hrest] at h
          obtain rfl := Except.ok.inj h
          obtain rfl := Option.some.inj hf
          rw [hrest]
          exact leadsTo_name hs hfree
        · rw [if_neg hrest] at h
          split at h
          · obtain rfl := Except.ok.inj h
            cases hf
          · cases h
      | some met =>
        cases met with
        | file old =>
          have hfree := way_eq_none.mpr (.inr ⟨old, hlookup⟩)
          simp only [hlookup] at h
          by_cases hrest : rest = []
          · rw [if_pos hrest] at h
            obtain rfl := Except.ok.inj h
            obtain rfl := Option.some.inj hf
            rw [hrest]
            exact leadsTo_name hs hfree
          · rw [if_neg hrest] at h
            cases h
        | directory =>
          simp only [hlookup] at h
          refine (ih h).congr fun now hway => ?_
          have hd : now.way (here ++ [step]) = some .directory := by
            rw [hway]
            exact way_eq_some.mpr ⟨hlookup, rfl⟩
          rw [walk_name hs, (way_eq_some.mp hd).1]
        | link target =>
          simp only [hlookup, not_true_eq_false, and_false, if_false] at h
          refine (hbehind h).congr fun now hway => ?_
          have hl : now.way (here ++ [step]) = some (.link target) := by
            rw [hway]
            exact way_eq_some.mpr ⟨hlookup, rfl⟩
          rw [walk_name hs, (way_eq_some.mp hl).1]
          simp only [not_true_eq_false, and_false, if_false]
    · rw [walk_long hl] at h
      cases h

/-- What lies behind the end of a walk is its file alone, so the file can change. -/
theorem leadsTo_of_walk {found : Found} {place : Location} (hf : fileAt? found = some place)
    (h : tree.walk true links here xs = .ok found) :
    tree.LeadsTo place fun now => now.walk true links here xs := by
  induction links generalizing here xs with
  | zero => exact leadsTo_of_walk_behind hf (fun hb => nomatch hb) h
  | succ links ih => exact leadsTo_of_walk_behind hf (fun hb => ih hb) h

end TftpReceiver.FileTree
