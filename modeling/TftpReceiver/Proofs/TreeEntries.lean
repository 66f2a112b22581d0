import TftpReceiver.FileTree.Change

/-! What a change to a file tree does to its entries, and that changes to files leave the ways
through it as they are. -/

namespace TftpReceiver

def Entry.leadsOn : Entry → Bool
  | .file _ => false
  | _ => true

namespace FileTree

/-- The directory or link at a location. -/
def way (tree : FileTree) (place : Location) : Option Entry :=
  (tree.lookup place).filter Entry.leadsOn

variable {tree tree' : FileTree} {place : Location} {entry : Entry}

theorem find?_filter_ne (entries : List (Location × Entry)) {other : Location} (h : other ≠ place) :
    (entries.filter (·.1 ≠ place)).find? (·.1 = other) = entries.find? (·.1 = other) := by
  rw [List.find?_filter]
  congr 1
  funext found
  by_cases hf : found.1 = other <;> simp [hf, h]

theorem lookup_put (hp : place ≠ []) (other : Location) :
    (tree.put place entry).lookup other =
      if other = place then some entry else tree.lookup other := by
  by_cases ho : other = place
  · simp [lookup, put, ho, hp]
  · simp only [lookup, put, if_neg ho, List.find?_cons, Ne.symm ho, decide_false,
      find?_filter_ne _ ho]

theorem lookup_erase (hp : place ≠ []) (other : Location) :
    (tree.erase place).lookup other = if other = place then none else tree.lookup other := by
  by_cases ho : other = place
  · simp [lookup, erase, ho, hp]
  · simp only [lookup, erase, if_neg ho, find?_filter_ne _ ho]

theorem erase_of_missing (hp : place ≠ []) (hl : tree.lookup place = none) :
    tree.erase place = tree := by
  rw [lookup, if_neg hp, Option.map_eq_none_iff, List.find?_eq_none] at hl
  have hkept : tree.entries.filter (·.1 ≠ place) = tree.entries :=
    List.filter_eq_self.mpr fun found hf => by simpa using hl found hf
  rw [erase, hkept]

theorem put_erase (tree : FileTree) (place : Location) (entry : Entry) :
    (tree.erase place).put place entry = tree.put place entry := by
  simp only [put, erase, List.filter_filter, Bool.and_self]

theorem way_eq_none : tree.way place = none ↔
    tree.lookup place = none ∨ ∃ data, tree.lookup place = some (.file data) := by
  unfold way
  rcases tree.lookup place with _ | data | target | _ <;> simp [Entry.leadsOn]

theorem way_eq_none_of_ne (hl : ∀ target, tree.lookup place ≠ some (.link target))
    (hd : tree.lookup place ≠ some .directory) : tree.way place = none := by
  rw [way_eq_none]
  cases he : tree.lookup place with
  | none => exact .inl rfl
  | some entry =>
    cases entry with
    | file data => exact .inr ⟨data, rfl⟩
    | link target => exact absurd he (hl target)
    | directory => exact absurd he hd

theorem way_eq_some : tree.way place = some entry ↔
    tree.lookup place = some entry ∧ entry.leadsOn = true := by
  unfold way
  rw [Option.filter_eq_some_iff]

theorem way_eq_of_elsewhere
    (h : ∀ other, other ≠ place → tree'.lookup other = tree.lookup other)
    (hw : tree.way place = none) (hw' : tree'.way place = none) : tree'.way = tree.way := by
  funext other
  by_cases ho : other = place
  · rw [ho, hw, hw']
  · rw [way, way, h other ho]

/-- A file that is made, changed or removed changes no way. -/
theorem way_put_file (hp : place ≠ []) (hw : tree.way place = none) (data : Bytes) :
    (tree.put place (.file data)).way = tree.way := by
  apply way_eq_of_elsewhere (fun other ho => by rw [lookup_put hp, if_neg ho]) hw
  rw [way_eq_none, lookup_put hp, if_pos rfl]
  exact .inr ⟨data, rfl⟩

theorem way_erase (hp : place ≠ []) (hw : tree.way place = none) :
    (tree.erase place).way = tree.way := by
  apply way_eq_of_elsewhere (fun other ho => by rw [lookup_erase hp, if_neg ho]) hw
  rw [way_eq_none, lookup_erase hp, if_pos rfl]
  exact .inl rfl

theorem append_file {old : Bytes} (h : tree.lookup place = some (.file old)) (data : Bytes) :
    tree.append place data = tree.put place (.file (old ++ data)) := by
  rw [append, h]

theorem ne_root_of_file {data : Bytes} (h : tree.lookup place = some (.file data)) :
    place ≠ [] := by
  rintro rfl
  cases h

theorem lookup_append_of_ne {other : Location} (h : other ≠ place) (data : Bytes) :
    (tree.append place data).lookup other = tree.lookup other := by
  unfold append
  split
  · next hl => rw [lookup_put (ne_root_of_file hl), if_neg h]
  · rfl

theorem way_append (data : Bytes) : (tree.append place data).way = tree.way := by
  unfold append
  split
  · next old hl => exact way_put_file (ne_root_of_file hl) (way_eq_none.mpr (.inr ⟨old, hl⟩)) _
  · rfl

theorem working_append (data : Bytes) : (tree.append place data).working = tree.working := by
  unfold append
  split <;> rfl

end FileTree

end TftpReceiver
