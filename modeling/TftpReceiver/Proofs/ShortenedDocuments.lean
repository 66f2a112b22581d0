import TftpReceiver.Proofs.WrittenDocuments

/-! Documents from which pairs and whole sections were deleted. -/

namespace TftpReceiver.Toml

/-- What is left, by name: pairs before the sections, sections, and pairs within a section. -/
structure Kept where
  pair : String → Bool
  part : String → Bool
  inner : String → String → Bool

def Document.keep (kept : Kept) (document : Document) : Document where
  pairs := document.pairs.filter fun pair => kept.pair pair.1
  sections := (document.sections.filter fun part => kept.part part.1).map fun part =>
    (part.1, part.2.filter fun pair => kept.inner part.1 pair.1)

variable {kept : Kept}

theorem Pairs.filter {pairs : List (String × Field)} (h : Pairs pairs)
    (keep : String × Field → Bool) : Pairs (pairs.filter keep) where
  names pair hm := h.names pair (List.mem_filter.mp hm).1
  fits pair hm := h.fits pair (List.mem_filter.mp hm).1
  apart := h.apart.sublist (List.filter_sublist.map _)

theorem Document.WellFormed.keep {document : Document} (h : document.WellFormed) (kept : Kept) :
    (document.keep kept).WellFormed where
  pairs := h.pairs.filter _
  sections := by
    intro part hm
    obtain ⟨whole, hwhole, rfl⟩ := List.mem_map.mp hm
    obtain ⟨hname, hpairs⟩ := h.sections whole (List.mem_filter.mp hwhole).1
    exact ⟨hname, hpairs.filter _⟩
  apart := by
    refine h.apart.sublist (List.Sublist.append (List.filter_sublist.map _) ?_)
    rw [Document.keep, List.map_map]
    exact List.filter_sublist.map _

/-- What a piece of the text is about. -/
inductive Place
  | pair (name : String)
  | header (part : String)
  | inner (part name : String)

/-- Without its section nothing is left of a pair. -/
def Kept.holds (kept : Kept) : Place → Bool
  | .pair name => kept.pair name
  | .header part => kept.part part
  | .inner part name => kept.part part && kept.inner part name

def Document.sectionPieces (part : String × List (String × Field)) : List (Place × List Char) :=
  (.header part.1, writeSection part.1 []) ::
    part.2.map fun pair => (.inner part.1 pair.1, writePairs [pair])

/-- The written pairs and the headers of the sections, in order. -/
def Document.pieces (document : Document) : List (Place × List Char) :=
  document.pairs.map (fun pair => (.pair pair.1, writePairs [pair])) ++
    document.sections.flatMap sectionPieces

def textOf (pieces : List (Place × List Char)) : String := String.ofList (pieces.flatMap (·.2))

theorem writePairs_eq (pairs : List (String × Field)) :
    Document.writePairs pairs = pairs.flatMap fun pair => Document.writePairs [pair] := by
  induction pairs with
  | nil => rfl
  | cons pair pairs ih =>
    rw [List.flatMap_cons, ← ih, ← List.singleton_append, Document.writePairs,
      List.flatMap_append]
    rfl

theorem render_eq_textOf (document : Document) : document.render = textOf document.pieces := by
  have hsection : ∀ part : String × List (String × Field),
      (Document.sectionPieces part).flatMap (·.2) = Document.writeSection part.1 part.2 := by
    intro part
    have hinner := writePairs_eq part.2
    rw [Document.sectionPieces, List.flatMap_cons, List.flatMap_map, ← hinner]
    simp [Document.writeSection, Document.writePairs]
  have hpairs := writePairs_eq document.pairs
  rw [Document.render, textOf, Document.pieces, List.flatMap_append, List.flatMap_map, ← hpairs,
    List.flatMap_assoc, Document.write]
  simp only [hsection]

theorem sectionPieces_filter (part : String × List (String × Field)) :
    (Document.sectionPieces part).filter (fun piece => kept.holds piece.1) =
      if kept.part part.1 = true then
        Document.sectionPieces (part.1, part.2.filter fun pair => kept.inner part.1 pair.1)
      else [] := by
  by_cases hpart : kept.part part.1 = true
  · have hheader : kept.holds (.header part.1) = true := hpart
    have hinner : ∀ pair : String × Field,
        kept.holds (.inner part.1 pair.1) = kept.inner part.1 pair.1 := by
      intro pair
      rw [Kept.holds, hpart, Bool.true_and]
    rw [if_pos hpart, Document.sectionPieces, List.filter_cons, if_pos hheader, List.filter_map,
      Document.sectionPieces]
    simp only [Function.comp_def, hinner]
  · rw [if_neg hpart, List.filter_eq_nil_iff]
    intro piece hm
    rcases List.mem_cons.mp hm with rfl | hm
    · exact hpart
    · obtain ⟨pair, -, rfl⟩ := List.mem_map.mp hm
      exact fun hholds => hpart (Bool.and_eq_true_iff.mp hholds).1

/-- Of a document that was shortened the pieces are left that are about what was kept. -/
theorem pieces_keep (document : Document) : (document.keep kept).pieces =
    document.pieces.filter fun piece => kept.holds piece.1 := by
  have hsections : (document.keep kept).sections.flatMap Document.sectionPieces =
      (document.sections.flatMap Document.sectionPieces).filter fun piece =>
        kept.holds piece.1 := by
    rw [Document.keep]
    dsimp only
    induction document.sections with
    | nil => rfl
    | cons part sections ih =>
      rw [List.flatMap_cons, List.filter_append, ← ih, sectionPieces_filter]
      by_cases hpart : kept.part part.1 = true
      · rw [List.filter_cons, if_pos hpart, if_pos hpart, List.map_cons, List.flatMap_cons]
      · rw [List.filter_cons, if_neg hpart, if_neg hpart, List.nil_append]
  rw [Document.pieces, hsections, Document.pieces, List.filter_append, List.filter_map]
  rfl

variable {α β : Type}

theorem lookup_map (name : String) (f : String → α → β) (pairs : List (String × α)) :
    (pairs.map fun pair => (pair.1, f pair.1 pair.2)).lookup name =
      (pairs.lookup name).map (f name) := by
  induction pairs with
  | nil => rfl
  | cons pair pairs ih =>
    rw [List.map_cons, List.lookup_cons, List.lookup_cons]
    by_cases hname : name = pair.1
    · subst hname
      rw [beq_self_eq_true]
      rfl
    · rw [beq_eq_false_iff_ne.mpr hname]
      exact ih

variable {name : String}

theorem lookup_filter (keep : String → Bool) (pairs : List (String × α)) :
    (pairs.filter fun pair => keep pair.1).lookup name =
      if keep name = true then pairs.lookup name else none := by
  induction pairs with
  | nil => rw [List.filter_nil, List.lookup_nil, ite_self]
  | cons pair pairs ih =>
    by_cases hname : name = pair.1
    · subst hname
      by_cases hkeep : keep pair.1 = true
      · rw [List.filter_cons, if_pos hkeep, if_pos hkeep, List.lookup_cons_self,
          List.lookup_cons_self]
      · rw [List.filter_cons, if_neg hkeep, ih, if_neg hkeep, if_neg hkeep]
    · have hother : (name == pair.1) = false := beq_eq_false_iff_ne.mpr hname
      by_cases hkeep : keep pair.1 = true
      · rw [List.filter_cons, if_pos hkeep, List.lookup_cons, List.lookup_cons, hother]
        exact ih
      · rw [List.filter_cons, if_neg hkeep, List.lookup_cons, hother]
        exact ih

/-- What pairs still say. -/
def left (keep : String → Bool) (pairs : List (String × Field)) : Members :=
  (pairs.filter fun pair => keep pair.1).map fun pair => (pair.1, pair.2.value)

theorem lookup_left (keep : String → Bool) (pairs : List (String × Field)) :
    (left keep pairs).lookup name =
      if keep name = true then (pairs.lookup name).map Field.value else none := by
  have hmap := lookup_map name (fun _ field => Field.value field)
    (pairs.filter fun pair => keep pair.1)
  rw [left, hmap, lookup_filter]
  split <;> rfl

def leftSections (kept : Kept) (sections : List (String × List (String × Field))) : Members :=
  (sections.filter fun part => kept.part part.1).map fun part =>
    (part.1, .table (left (kept.inner part.1) part.2))

theorem lookup_leftSections (sections : List (String × List (String × Field))) :
    (leftSections kept sections).lookup name =
      if kept.part name = true then
        (sections.lookup name).map fun pairs => Value.table (left (kept.inner name) pairs)
      else none := by
  have hmap := lookup_map name
    (fun part pairs => Value.table (left (kept.inner part) pairs))
    (sections.filter fun part => kept.part part.1)
  rw [leftSections, hmap, lookup_filter]
  split <;> rfl

theorem members_keep (document : Document) : (document.keep kept).members =
    left kept.pair document.pairs ++ leftSections kept document.sections := by
  rw [Document.members, Document.keep, List.map_map]
  rfl

variable {document : Document}

theorem mem_names_of_lookup {pairs : List (String × α)} {a : α} (h : pairs.lookup name = some a) :
    name ∈ pairs.map (·.1) := by
  obtain ⟨front, back, rfl, -⟩ := List.lookup_eq_some_iff.mp h
  simp

theorem lookup_pair (h : document.WellFormed) {field : Field}
    (hl : document.pairs.lookup name = some field) :
    (document.keep kept).members.lookup name =
      if kept.pair name = true then some field.value else none := by
  have hsections : document.sections.lookup name = none := by
    cases hpart : document.sections.lookup name with
    | none => rfl
    | some pairs =>
      exact absurd rfl ((List.nodup_append.mp h.apart).2.2 name (mem_names_of_lookup hl) name
        (mem_names_of_lookup hpart))
  rw [members_keep, List.lookup_append, lookup_left, hl, lookup_leftSections, hsections,
    Option.map_none, ite_self, Option.or_none]
  rfl

theorem lookup_section (h : document.WellFormed) {pairs : List (String × Field)}
    (hl : document.sections.lookup name = some pairs) :
    (document.keep kept).members.lookup name =
      if kept.part name = true then some (.table (left (kept.inner name) pairs)) else none := by
  have hpairs : document.pairs.lookup name = none := by
    cases hpair : document.pairs.lookup name with
    | none => rfl
    | some field =>
      exact absurd rfl ((List.nodup_append.mp h.apart).2.2 name (mem_names_of_lookup hpair) name
        (mem_names_of_lookup hl))
  rw [members_keep, List.lookup_append, lookup_left, hpairs, Option.map_none, ite_self,
    Option.none_or, lookup_leftSections, hl]
  rfl

end TftpReceiver.Toml
