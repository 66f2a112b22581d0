import TftpReceiver.Proofs.PathSteps
import TftpReceiver.Proofs.Walks

/-! Paths that end in a name: the directory they lead to, and what the operations on a file
tree do to the entry of that name there. -/

namespace TftpReceiver

namespace FileTree

/-- A path that leads to a directory and ends in a name to look up in it. -/
structure Names (tree : FileTree) (path : String) (directory : Location) (name : String) :
    Prop where
  unbroken : path.toList.contains (Char.ofNat 0) = false
  fits : path.utf8ByteSize ≤ maxPath
  isName : IsName name
  walked : ∃ front left, Path.pieces path = front ++ [name] ∧
    tree.Reaches maxLinks (tree.start path) (front.filter (· ≠ "")) left directory

/-- What a name leads to in a directory, unless it is a link to follow. -/
def foundAt (tree : FileTree) (directory : Location) (name : String) : Found :=
  match tree.lookup (directory ++ [name]) with
  | none => .missing directory name
  | some entry => .entry (directory ++ [name]) entry

variable {tree tree' : FileTree} {path source target name : String} {front : List String}
  {directory place : Location} {follow : Bool} {found : Found}

theorem find_of_legal (hu : path.toList.contains (Char.ofNat 0) = false)
    (hf : path.utf8ByteSize ≤ maxPath) (hp : path ≠ "") :
    tree.find follow path = tree.walk follow maxLinks (tree.start path) (Path.steps path) := by
  rw [find, hu, if_neg (by simp), if_neg hp, if_neg (Nat.not_lt.mpr hf)]

theorem legal_of_find (h : tree.find follow path = .ok found) :
    path.toList.contains (Char.ofNat 0) = false ∧ path.utf8ByteSize ≤ maxPath ∧ path ≠ "" := by
  unfold find at h
  split at h
  · cases h
  · next hu =>
    split at h
    · cases h
    · next hp =>
      split at h
      · cases h
      · next hf => exact ⟨by simpa using hu, Nat.not_lt.mp hf, hp⟩

theorem find_of_inspect {entry : Entry} (h : tree.inspect follow path = .ok (place, entry)) :
    tree.find follow path = .ok (.entry place entry) := by
  unfold inspect at h
  split at h
  · next hf =>
    obtain ⟨rfl, rfl⟩ := Prod.mk.inj (Except.ok.inj h)
    exact hf
  · cases h
  · cases h
  · cases h

theorem find_of_create (h : tree.create path = .ok (place, tree')) :
    ∃ found, tree.find true path = .ok found := by
  unfold create at h
  split at h
  · split at h <;> cases h
  · cases hf : tree.find true path with
    | error e => simp [hf] at h
    | ok found => exact ⟨found, rfl⟩

theorem leadsTo_of_find (hf : fileAt? found = some place) (h : tree.find true path = .ok found) :
    tree.LeadsTo place fun now => now.find true path := by
  obtain ⟨hzero, hfits, hempty⟩ := legal_of_find h
  rw [find_of_legal hzero hfits hempty] at h
  obtain ⟨hbelow, hfree, hleads⟩ := leadsTo_of_walk hf h
  refine ⟨hbelow, hfree, fun now data hway hwork hl => ?_⟩
  have hstart : now.start path = tree.start path := by rw [start, start, hwork]
  rw [find_of_legal hzero hfits hempty, hstart]
  exact hleads now data hway hwork hl

theorem leadsTo_of_create (h : tree.create path = .ok (place, tree')) :
    tree' = tree.put place (.file []) ∧ tree.LeadsTo place fun now => now.find true path := by
  unfold create at h
  split at h
  · split at h <;> cases h
  · split at h
    · next hf =>
      obtain ⟨rfl, rfl⟩ := Prod.mk.inj (Except.ok.inj h)
      exact ⟨rfl, leadsTo_of_find rfl hf⟩
    · cases h
    · cases h
    · next hf =>
      obtain ⟨rfl, rfl⟩ := Prod.mk.inj (Except.ok.inj h)
      exact ⟨rfl, leadsTo_of_find rfl hf⟩
    · cases h

/-- What was written to a path is read from it, through whatever links it leads. -/
theorem read_of_write {data : Bytes} (h : tree.write path data = .ok tree') :
    tree'.read path = .ok data := by
  unfold write at h
  cases hcreate : tree.create path with
  | error e =>
    rw [hcreate] at h
    cases h
  | ok made =>
    obtain ⟨place, made⟩ := made
    rw [hcreate] at h
    obtain rfl := Except.ok.inj h
    obtain ⟨rfl, hbelow, hfree, hleads⟩ := leadsTo_of_create hcreate
    have hempty := way_put_file hbelow hfree []
    have hway : ((tree.put place (.file [])).put place (.file data)).way = tree.way := by
      rw [way_put_file hbelow (by rw [hempty, hfree]), hempty]
    have hlookup : ((tree.put place (.file [])).put place (.file data)).lookup place =
        some (.file data) := by
      rw [lookup_put hbelow, if_pos rfl]
    have hfind := hleads _ data hway rfl hlookup
    rw [read, inspect, hfind]

theorem find_of_remove (h : tree.remove path = .ok tree') :
    ∃ found, tree.find false path = .ok found := by
  unfold remove at h
  cases hi : tree.inspect false path with
  | error e => simp [hi] at h
  | ok found => exact ⟨_, find_of_inspect hi⟩

theorem find_of_rename (h : tree.rename source target = .ok tree') :
    ∃ found, tree.find false source = .ok found := by
  unfold rename at h
  cases hi : tree.inspect false source with
  | error e => simp [hi] at h
  | ok found => exact ⟨_, find_of_inspect hi⟩

theorem Names.ne_empty (h : tree.Names path directory name) : path ≠ "" := by
  rintro rfl
  obtain ⟨front, -, hp, -⟩ := h.walked
  have he : Path.pieces "" = [] ++ [""] := rfl
  obtain ⟨-, rfl⟩ := List.append_singleton_inj.mp (he.symm.trans hp)
  exact h.isName.nonempty rfl

theorem Names.find (h : tree.Names path directory name)
    (hl : follow = false ∨ ∀ target, tree.lookup (directory ++ [name]) ≠ some (.link target)) :
    tree.find follow path = .ok (tree.foundAt directory name) := by
  obtain ⟨front, left, hp, hr⟩ := h.walked
  have hsteps : Path.steps path = front.filter (· ≠ "") ++ [name] := by
    rw [Path.steps_of_pieces hp h.isName.nonempty, hp]
    simp [h.isName.nonempty]
  rw [find_of_legal h.unbroken h.fits h.ne_empty, hsteps, hr.walk (.inl (by simp)),
    walk_name h.isName, foundAt]
  cases he : tree.lookup (directory ++ [name]) with
  | none => rfl
  | some entry =>
    cases entry with
    | file data => rfl
    | directory => exact walk_nil
    | link target =>
      rcases hl with rfl | hl
      · rfl
      · exact absurd he (hl target)

theorem names_of_find (h : tree.find follow path = .ok found)
    (hp : Path.pieces path = front ++ [name]) (hi : Path.isIdle name = false) (hu : name ≠ "..") :
    ∃ directory, tree.Names path directory name := by
  obtain ⟨hzero, hfits, hempty⟩ := legal_of_find h
  obtain ⟨hne, hdot⟩ : name ≠ "" ∧ name ≠ "." := by simpa [Path.isIdle] using hi
  have hsteps : Path.steps path = front.filter (· ≠ "") ++ [name] := by
    rw [Path.steps_of_pieces hp hne, hp]
    simp [hne]
  rw [find_of_legal hzero hfits hempty, hsteps] at h
  obtain ⟨left, directory, hr, hw⟩ := reaches_of_walk hne h
  refine ⟨directory, hzero, hfits, ⟨hne, hdot, hu, ?_⟩, front, left, hp, hr⟩
  rcases Nat.lt_or_ge maxName name.utf8ByteSize with hl | hle
  · rw [walk_long hl] at hw
    cases hw
  · exact hle

/-- A path that ends in a slash or a dot leads to the directory before that end. -/
theorem find_of_idle_end {left : Nat} (hu : path.toList.contains (Char.ofNat 0) = false)
    (hf : path.utf8ByteSize ≤ maxPath) (hne : path ≠ "") (hp : Path.pieces path = front ++ [name])
    (hi : Path.isIdle name = true)
    (hr : tree.Reaches maxLinks (tree.start path) (front.filter (· ≠ "")) left directory) :
    tree.find follow path = .ok (.entry directory .directory) := by
  obtain ⟨idle, hidle, hsome, hsteps⟩ := Path.steps_of_idle_end hp hi
  rw [find_of_legal hu hf hne, hsteps]
  rcases hsome with hsome | hfront
  · rw [hr.walk (.inl hsome), walk_idles hidle]
  · rw [hfront] at hr ⊢
    obtain ⟨-, rfl⟩ := hr.idle_end (by simp)
    exact walk_idles hidle

theorem find_of_dots_end {left : Nat} (hu : path.toList.contains (Char.ofNat 0) = false)
    (hf : path.utf8ByteSize ≤ maxPath) (hp : Path.pieces path = front ++ [".."])
    (hr : tree.Reaches maxLinks (tree.start path) (front.filter (· ≠ "")) left directory) :
    tree.find follow path = .ok (.entry directory.dropLast .directory) := by
  have hne : path ≠ "" := by
    rintro rfl
    have he : Path.pieces "" = [] ++ [""] := rfl
    obtain ⟨-, hdots⟩ := List.append_singleton_inj.mp (he.symm.trans hp)
    exact absurd hdots (by decide)
  have hsteps : Path.steps path = front.filter (· ≠ "") ++ [".."] := by
    rw [Path.steps_of_pieces hp (by decide), hp]
    simp
  rw [find_of_legal hu hf hne, hsteps, hr.walk (.inl (by simp)), walk_up, walk_nil]

theorem Names.congr (h : tree.Names path directory name) (hw : tree'.way = tree.way)
    (hd : tree'.working = tree.working) : tree'.Names path directory name := by
  obtain ⟨front, left, hp, hr⟩ := h.walked
  refine ⟨h.unbroken, h.fits, h.isName, front, left, hp, ?_⟩
  have hs : tree'.start path = tree.start path := by rw [start, start, hd]
  exact hs ▸ hr.congr hw

theorem Names.endsInSlash (h : tree.Names path directory name) : Path.endsInSlash path = false := by
  obtain ⟨front, -, hp, -⟩ := h.walked
  rw [Bool.eq_false_iff]
  exact fun hs => h.isName.nonempty ((Path.endsInSlash_iff hp).mp hs).1

theorem unslashed_of_not_slash (hs : Path.endsInSlash path = false) (hp : path ≠ "") :
    Path.unslashed path = path := by
  cases hr : path.toList.reverse with
  | nil => exact absurd (by simpa using hr) hp
  | cons c rest =>
    have hlast : path.toList.getLast? = some c := by rw [← List.head?_reverse, hr]; rfl
    have hc : c ≠ '/' := by
      rintro rfl
      simp [Path.endsInSlash, hlast] at hs
    rw [Path.unslashed, hr, List.dropWhile_cons_of_neg (by simpa using hc)]
    change String.ofList (c :: rest).reverse = path
    rw [← hr, List.reverse_reverse, String.ofList_toList]

theorem Names.unslashed (h : tree.Names path directory name) : Path.unslashed path = path :=
  unslashed_of_not_slash h.endsInSlash h.ne_empty

theorem Names.endsInDots (h : tree.Names path directory name) : endsInDots path = false := by
  obtain ⟨front, -, hp, -⟩ := h.walked
  have hlast : (Path.steps (Path.unslashed path)).getLast? = some name := by
    rw [h.unslashed, Path.steps_of_pieces hp h.isName.nonempty, hp]
    simp [h.isName.nonempty]
  rw [FileTree.endsInDots, hlast]
  simp [h.isName.nodot, h.isName.nodots]

theorem Names.inspect (h : tree.Names path directory name) :
    tree.inspect false path =
      match tree.lookup (directory ++ [name]) with
      | none => .error .notFound
      | some entry => .ok (directory ++ [name], entry) := by
  rw [FileTree.inspect, h.find (.inl rfl), foundAt]
  cases tree.lookup (directory ++ [name]) <;> rfl

theorem Names.remove (h : tree.Names path directory name) :
    tree.remove path =
      match tree.lookup (directory ++ [name]) with
      | none => .error .notFound
      | some .directory => .error .isADirectory
      | some _ => .ok (tree.erase (directory ++ [name])) := by
  rw [FileTree.remove, h.inspect]
  rcases tree.lookup (directory ++ [name]) with _ | data | target | _ <;> rfl

theorem Names.create (h : tree.Names path directory name)
    (hw : tree.way (directory ++ [name]) = none) :
    tree.create path =
      .ok (directory ++ [name], tree.put (directory ++ [name]) (.file [])) := by
  have hl : ∀ target, tree.lookup (directory ++ [name]) ≠ some (.link target) := fun target he =>
    nomatch hw.symm.trans (way_eq_some.mpr ⟨he, rfl⟩)
  rw [FileTree.create, h.endsInSlash, if_neg (by simp), h.find (.inr hl), foundAt]
  rcases way_eq_none.mp hw with he | ⟨data, he⟩ <;> simp [he]

theorem Names.of_create (h : tree.Names path directory name)
    (hl : ∀ target, tree.lookup (directory ++ [name]) ≠ some (.link target))
    (hc : tree.create path = .ok (place, tree')) : place = directory ++ [name] ∧
      tree' = tree.put (directory ++ [name]) (.file []) ∧
      tree.way (directory ++ [name]) = none := by
  have hw : tree.way (directory ++ [name]) = none := by
    refine way_eq_none_of_ne hl fun hd => ?_
    rw [FileTree.create, h.endsInSlash, if_neg (by simp), h.find (.inr hl), foundAt, hd] at hc
    cases hc
  rw [h.create hw] at hc
  obtain ⟨rfl, rfl⟩ := Prod.mk.inj (Except.ok.inj hc)
  exact ⟨rfl, rfl, hw⟩

theorem Names.rename {home : Location} {newName : String} {entry : Entry}
    (h : tree.Names source directory name) (ht : tree.Names target home newName)
    (he : tree.lookup (directory ++ [name]) = some entry) (hd : entry ≠ .directory)
    (hn : tree.lookup (home ++ [newName]) ≠ some .directory) :
    tree.rename source target =
      .ok ((tree.erase (directory ++ [name])).put (home ++ [newName]) entry) := by
  rw [FileTree.rename, h.inspect, he, ht.unslashed, ht.find (.inl rfl), ht.endsInDots,
    ht.endsInSlash, foundAt]
  cases entry with
  | directory => exact absurd rfl hd
  | file data | link data =>
    rcases htaken : tree.lookup (home ++ [newName]) with _ | taken | taken | _
    · rfl
    · rfl
    · rfl
    · exact absurd htaken hn

theorem Names.of_rename {home : Location} {newName : String}
    (h : tree.Names source directory name) (ht : tree.Names target home newName)
    (hr : tree.rename source target = .ok tree') : ∃ entry,
      tree.lookup (directory ++ [name]) = some entry ∧ entry ≠ .directory ∧
        tree' = (tree.erase (directory ++ [name])).put (home ++ [newName]) entry := by
  have hr' := hr
  rw [FileTree.rename, h.inspect] at hr'
  cases he : tree.lookup (directory ++ [name]) with
  | none => simp [he] at hr'
  | some entry =>
    by_cases hd : entry = .directory
    · simp [he, hd] at hr'
    · refine ⟨entry, rfl, hd, ?_⟩
      by_cases hn : tree.lookup (home ++ [newName]) = some .directory
      · rw [he, ht.unslashed, ht.find (.inl rfl), ht.endsInDots, ht.endsInSlash, foundAt, hn] at hr'
        cases entry <;> simp at hr'
      · rw [h.rename ht he hd hn] at hr
        exact (Except.ok.inj hr).symm

end FileTree

end TftpReceiver
