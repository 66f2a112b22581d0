import TftpReceiver.Proofs.QuotedText

/-! A document reads back as what it says: line by line a statement each, and the tables that the
statements make up. -/

namespace TftpReceiver.Toml

open Text (Stops stops_nil stops_cons takeWhile_run dropWhile_run)

def Field.Fits : Field → Prop
  | .number value => (value : Int) ≤ maxInteger
  | _ => True

/-- A name that stands without quotes. -/
def IsName (name : String) : Prop := name ≠ "" ∧ ∀ c ∈ name.toList, isNameChar c = true

/-- Pairs with a name each, no two of them alike. -/
structure Pairs (pairs : List (String × Field)) : Prop where
  names : ∀ pair ∈ pairs, IsName pair.1
  fits : ∀ pair ∈ pairs, pair.2.Fits
  apart : (pairs.map (·.1)).Nodup

structure Document.WellFormed (document : Document) : Prop where
  pairs : Pairs document.pairs
  sections : ∀ part ∈ document.sections, IsName part.1 ∧ Pairs part.2
  apart : (document.pairs.map (·.1) ++ document.sections.map (·.1)).Nodup

theorem digitValue_digitChar {d : Nat} (h : d < 10) :
    (Nat.digitChar d).isDigit = true ∧ isDigitOf 10 (Nat.digitChar d) = true ∧
      digitValue (Nat.digitChar d) = d := by
  have hall : ∀ d < 10, (Nat.digitChar d).isDigit = true ∧
      isDigitOf 10 (Nat.digitChar d) = true ∧ digitValue (Nat.digitChar d) = d := by decide
  exact hall d h

theorem isDigitOf_of_mem {n : Nat} {c : Char} (h : c ∈ Nat.toDigits 10 n) :
    isDigitOf 10 c = true := by
  obtain ⟨d, hd, rfl⟩ := Decimal.mem_toDigits (by decide) h
  exact (digitValue_digitChar hd).2.1

theorem digits?_of_digits {digits : List Char} (hne : digits ≠ [])
    (h : ∀ c ∈ digits, isDigitOf 10 c = true) : digits? 10 digits = some digits := by
  induction digits with
  | nil => exact absurd rfl hne
  | cons c digits ih =>
    obtain ⟨hc, hdigits⟩ := List.forall_mem_cons.mp h
    rw [digits?.eq_def]
    split
    · next heq => cases heq
    · next heq =>
      obtain ⟨rfl, rfl⟩ := List.cons.inj heq
      exact if_pos hc
    · next heq =>
      obtain ⟨rfl, rfl⟩ := List.cons.inj heq
      exact absurd (hdigits _ List.mem_cons_self) (by decide)
    · next hnil _ heq =>
      obtain ⟨rfl, rfl⟩ := List.cons.inj heq
      have hmore := ih hnil hdigits
      rw [if_pos hc, hmore]
      rfl

theorem decimal?_toDigits (n : Nat) : decimal? (Nat.toDigits 10 n) = some (Nat.toDigits 10 n) := by
  have hzero : (Nat.toDigits 10 n).head? ≠ some '0' ∨ (Nat.toDigits 10 n).length = 1 := by
    by_cases hhead : (Nat.toDigits 10 n).head? = some '0'
    · exact .inr (Decimal.no_leading_zero (by decide) n hhead)
    · exact .inl hhead
  rw [decimal?, digits?_of_digits Nat.toDigits_ne_nil fun c hc => isDigitOf_of_mem hc]
  exact Option.filter_some_pos (decide_eq_true hzero)

theorem number_toDigits (n : Nat) : number 10 (Nat.toDigits 10 n) = n :=
  Decimal.foldl_toDigits (by decide) (fun _ hd => (digitValue_digitChar hd).2.2) n

theorem signed_of_digits {text : List Char} (h : ∀ c ∈ text, isDigitOf 10 c = true) :
    signed text = (false, text) := by
  unfold signed
  split
  · exact absurd (h _ List.mem_cons_self) (by decide)
  · exact absurd (h _ List.mem_cons_self) (by decide)
  · rfl

theorem integer?_toDigits {n : Nat} (h : (n : Int) ≤ maxInteger) :
    integer? (Nat.toDigits 10 n) = some (n : Int) := by
  have hdigits : ∀ c ∈ Nat.toDigits 10 n, isDigitOf 10 c = true := fun c hc =>
    isDigitOf_of_mem hc
  have hletter : ∀ {first c : Char} {rest : List Char}, isDigitOf 10 c = false →
      Nat.toDigits 10 n ≠ first :: c :: rest := by
    intro first c rest hc heq
    have hm := hdigits c (by rw [heq]; simp)
    cases hc.symm.trans hm
  have hrange : minInteger ≤ (n : Int) ∧ (n : Int) ≤ maxInteger := by
    refine ⟨?_, h⟩
    have hmin : minInteger ≤ 0 := by decide
    omega
  unfold integer?
  split
  · next heq => exact absurd heq (hletter rfl)
  · next heq => exact absurd heq (hletter rfl)
  · next heq => exact absurd heq (hletter rfl)
  · rw [signed_of_digits hdigits]
    simp only [decimal?_toDigits, Option.map_some, Bool.false_eq_true, if_false, number_toDigits]
    exact Option.filter_some_pos (decide_eq_true hrange)

theorem word_run {run : List Char} (hrun : ∀ c ∈ run, isScalarChar c = true) (rest : List Char) :
    word (run ++ '\n' :: rest) = (run, '\n' :: rest) := by
  have hstop : Stops isScalarChar ('\n' :: rest) := stops_cons rfl
  rw [word, takeWhile_run hrun hstop, dropWhile_run hrun hstop]
  split
  · next heq => cases (List.cons.inj heq).1
  · rfl

theorem scalar?_toDigits {n : Nat} (h : (n : Int) ≤ maxInteger) (rest : List Char) :
    scalar? (Nat.toDigits 10 n ++ '\n' :: rest) = some (.integer n, '\n' :: rest) := by
  have hrun : ∀ c ∈ Nat.toDigits 10 n, isScalarChar c = true := by
    intro c hc
    obtain ⟨d, hd, rfl⟩ := Decimal.mem_toDigits (by decide) hc
    have hall : ∀ d < 10, isScalarChar (Nat.digitChar d) = true := by decide
    exact hall d hd
  have hletter : ∀ {c : Char} {word : List Char}, isDigitOf 10 c = false →
      Nat.toDigits 10 n ≠ c :: word := by
    intro c word hc heq
    have hm := isDigitOf_of_mem (n := n) (c := c) (by rw [heq]; exact List.mem_cons_self)
    cases hc.symm.trans hm
  have htrue : Nat.toDigits 10 n ≠ "true".toList := hletter rfl
  have hfalse : Nat.toDigits 10 n ≠ "false".toList := hletter rfl
  simp only [scalar?, word_run hrun, ofWord?, if_neg htrue, if_neg hfalse, integer?_toDigits h,
    Option.map_some]

theorem scalar?_flag (value : Bool) (rest : List Char) :
    scalar? ((Field.flag value).write ++ '\n' :: rest) = some (.boolean value, '\n' :: rest) := by
  have hrun : ∀ c ∈ (Field.flag value).write, isScalarChar c = true := by
    cases value <;> exact List.all_eq_true.mp rfl
  rw [scalar?, word_run hrun]
  cases value <;> rfl

theorem value?_scalar {c : Char} (h : c ≠ '"' ∧ c ≠ '\'' ∧ c ≠ '[' ∧ c ≠ '\x7b') (depth : Nat)
    (rest : List Char) : value? depth (c :: rest) = scalar? (c :: rest) := by
  unfold value?
  split
  · next heq => exact absurd (List.cons.inj heq).1 h.1
  · next heq => exact absurd (List.cons.inj heq).1 h.2.1
  · rfl
  · next heq => exact absurd (List.cons.inj heq).1 h.2.2.1
  · next heq => exact absurd (List.cons.inj heq).1 h.2.2.2
  · rfl

theorem value?_text (text : String) (depth : Nat) {rest : List Char}
    (hrest : rest.head? ≠ some '"' ∧ rest.head? ≠ some '\'') :
    value? depth (Quoting.write text ++ rest) = some (.string text, rest) := by
  have hread := string?_write text hrest
  obtain ⟨c, cs, hwrite, hc⟩ := exists_write text
  rw [hwrite, List.cons_append] at hread ⊢
  rcases hc with rfl | rfl
  · rw [value?, hread]
    rfl
  · rw [value?, hread]
    rfl

/-- Texts that take a line each. -/
def lines (values : List String) : List Char :=
  values.flatMap fun value => Field.indent ++ Quoting.write value ++ [',', '\n']

theorem gap?_of_head {c : Char} (h : isBlank c = false ∧ c ≠ '\n' ∧ c ≠ '\r' ∧ c ≠ '#')
    (rest : List Char) : gap? false (c :: rest) = some (c :: rest) := by
  unfold gap?
  split
  · next heq => cases heq
  · next heq => exact absurd (List.cons.inj heq).1 h.2.1
  · next heq => exact absurd (List.cons.inj heq).1 h.2.2.1
  · next heq =>
    obtain ⟨rfl, rfl⟩ := List.cons.inj heq
    rw [if_neg Bool.false_ne_true, if_neg h.2.2.2, if_neg (by rw [h.1]; exact Bool.false_ne_true)]

theorem gap?_line (rest : List Char) : gap? false ('\n' :: rest) = gap? false rest := rfl

theorem gap?_indent (rest : List Char) : gap? false (Field.indent ++ rest) = gap? false rest := rfl

section

variable {depth count : Nat} {rest : List Char}

/-- A part in quotes and what can follow it within brackets. -/
theorem value?_part (text : String) {c : Char} (hc : c = ',' ∨ c = ']') (rest : List Char) :
    value? depth (Quoting.write text ++ c :: rest) = some (.string text, c :: rest) := by
  refine value?_text text depth ?_
  rcases hc with rfl | rfl <;> exact ⟨by simp, by simp⟩

theorem gap?_write (text : String) (rest : List Char) :
    gap? false (Quoting.write text ++ rest) = some (Quoting.write text ++ rest) ∧
      (Quoting.write text ++ rest).head? ≠ some ']' := by
  obtain ⟨c, cs, hwrite, hc⟩ := exists_write text
  rw [hwrite, List.cons_append]
  rcases hc with rfl | rfl
  · exact ⟨gap?_of_head (by decide) _, by simp⟩
  · exact ⟨gap?_of_head (by decide) _, by simp⟩

theorem parts?_lines (values : List String) (hcount : values.length < count) :
    parts? ']' (value? depth) count ('\n' :: (lines values ++ ']' :: rest)) =
      some (values.map .string, rest) := by
  induction values generalizing count with
  | nil =>
    obtain ⟨count, rfl⟩ := Nat.exists_eq_succ_of_ne_zero (Nat.ne_zero_of_lt hcount)
    rfl
  | cons value values ih =>
    obtain ⟨count, rfl⟩ := Nat.exists_eq_succ_of_ne_zero (Nat.ne_zero_of_lt hcount)
    have hmore := ih (Nat.lt_of_succ_lt_succ hcount)
    have htext : lines (value :: values) ++ ']' :: rest = Field.indent ++
        (Quoting.write value ++ ',' :: '\n' :: (lines values ++ ']' :: rest)) := by
      simp [lines]
    obtain ⟨hgap, hhead⟩ := gap?_write value (',' :: '\n' :: (lines values ++ ']' :: rest))
    have hcomma : ∀ more, gap? false (',' :: more) = some (',' :: more) :=
      gap?_of_head (by decide)
    rw [htext, parts?, gap?_line, gap?_indent, hgap]
    simp only [Option.bind_eq_bind, Option.bind_some, if_neg hhead, value?_part value (.inl rfl),
      hcomma, hmore, Option.pure_def, List.map_cons]

theorem length_le_lines (values : List String) : values.length ≤ (lines values).length := by
  induction values with
  | nil => exact Nat.le_refl 0
  | cons value values ih =>
    have hsplit : lines (value :: values) =
        (Field.indent ++ Quoting.write value ++ [',', '\n']) ++ lines values := List.flatMap_cons
    rw [hsplit, List.length_append, List.length_append, List.length_cons]
    simp only [List.length_cons, List.length_nil]
    omega

theorem value?_bracket (text : List Char) : value? (depth + 1) ('[' :: text) =
    (parts? ']' (value? depth) (text.length + 1) text).map fun (items, rest) =>
      (.array items, rest) := by
  rw [value?]

theorem value?_texts (values : List String) (rest : List Char) :
    value? (depth + 1) (Field.writeTexts values ++ rest) =
      some ((Field.texts values).value, rest) := by
  match values with
  | [] => rfl
  | [value] =>
    have htext : Field.writeTexts [value] ++ rest =
        '[' :: (Quoting.write value ++ ']' :: rest) := by
      simp [Field.writeTexts]
    obtain ⟨hgap, hhead⟩ := gap?_write value (']' :: rest)
    have hbracket : gap? false (']' :: rest) = some (']' :: rest) := gap?_of_head (by decide) rest
    rw [htext, value?_bracket, parts?, hgap]
    simp only [Option.bind_eq_bind, Option.bind_some, if_neg hhead, value?_part value (.inr rfl),
      hbracket]
    rfl
  | first :: second :: values =>
    have htext : Field.writeTexts (first :: second :: values) ++ rest =
        '[' :: '\n' :: (lines (first :: second :: values) ++ ']' :: rest) := by
      simp [Field.writeTexts, lines]
    have hlength := length_le_lines (first :: second :: values)
    rw [htext, value?_bracket, parts?_lines]
    · rfl
    · simp only [List.length_cons, List.length_append] at hlength ⊢
      omega

/-- A field reads back with the line end behind it. -/
theorem value?_field {field : Field} (h : field.Fits) (rest : List Char) :
    value? (depth + 1) (field.write ++ '\n' :: rest) = some (field.value, '\n' :: rest) := by
  cases field with
  | text value => exact value?_text value _ ⟨by simp, by simp⟩
  | number value =>
    have hread := scalar?_toDigits h rest
    obtain ⟨d, hd, digits, hdigits⟩ := Decimal.exists_first_digit value
    have hother : ∀ other, isDigitOf 10 other = false → Nat.digitChar d ≠ other := by
      rintro other hnone rfl
      cases hnone.symm.trans (digitValue_digitChar hd).2.1
    rw [hdigits, List.cons_append] at hread
    rw [Field.write, Decimal.render, String.toList_ofList, hdigits, List.cons_append]
    exact (value?_scalar ⟨hother _ rfl, hother _ rfl, hother _ rfl, hother _ rfl⟩ _ _).trans hread
  | flag value =>
    have hread := scalar?_flag value rest
    cases value <;> exact (value?_scalar (by decide) _ _).trans hread
  | texts values => exact value?_texts values _

end

theorem exists_name {name : String} (h : IsName name) :
    ∃ c cs, name.toList = c :: cs ∧ isNameChar c = true := by
  cases hname : name.toList with
  | nil => exact absurd (String.toList_eq_nil_iff.mp hname) h.1
  | cons c cs => exact ⟨c, cs, rfl, h.2 c (by rw [hname]; exact List.mem_cons_self)⟩

theorem plain_of_isNameChar {c : Char} (h : isNameChar c = true) :
    c ≠ '[' ∧ isBlank c = false ∧ c ≠ '\n' ∧ c ≠ '\r' ∧ c ≠ '#' := by
  have hother : ∀ other, isNameChar other = false → c ≠ other := by
    rintro other hnone rfl
    cases hnone.symm.trans h
  have hblank : ¬ (c = ' ' ∨ c = '\t') := fun hor => hor.elim (hother _ rfl) (hother _ rfl)
  exact ⟨hother _ rfl, decide_eq_false hblank, hother _ rfl, hother _ rfl, hother _ rfl⟩

theorem name?_append {name : String} (h : IsName name) {text : List Char}
    (hstop : Stops isNameChar text) : name? (name.toList ++ text) = some (name, text) := by
  obtain ⟨c, cs, hname, -⟩ := exists_name h
  rw [name?, takeWhile_run h.2 hstop, dropWhile_run h.2 hstop]
  split
  · next hnil => cases hname.symm.trans hnil
  · rw [String.ofList_toList]

/-- A name up to a mark that does not go on with it. -/
theorem dotted?_name {name : String} (h : IsName name) {text after : List Char} {mark : Char}
    (hstop : Stops isNameChar text) (hmark : skipBlanks text = mark :: after) (hdot : mark ≠ '.') :
    dotted? (name.toList ++ text) = some ([name], mark :: after) := by
  have hskip : skipBlanks (name.toList ++ text) = name.toList ++ text := by
    obtain ⟨c, cs, hname, hc⟩ := exists_name h
    rw [hname, List.cons_append]
    exact skipBlanks_of_head (plain_of_isNameChar hc).2.1 _
  rw [dotted?, hskip, path?, name?_append h hstop]
  simp only [Option.bind_eq_bind, Option.bind_some, Option.pure_def, hmark]
  split
  · next heq => exact absurd (List.cons.inj heq).1 hdot
  · rfl

theorem exists_field (field : Field) : ∃ c cs, field.write = c :: cs ∧ isBlank c = false := by
  cases field with
  | text value =>
    obtain ⟨c, cs, hwrite, hc⟩ := exists_write value
    refine ⟨c, cs, hwrite, ?_⟩
    rcases hc with rfl | rfl <;> rfl
  | number value =>
    obtain ⟨d, hd, digits, hdigits⟩ := Decimal.exists_first_digit value
    have hblank : ∀ d < 10, isBlank (Nat.digitChar d) = false := by decide
    refine ⟨_, digits, ?_, hblank d hd⟩
    rw [Field.write, Decimal.render, String.toList_ofList, hdigits]
  | flag value => cases value <;> exact ⟨_, _, rfl, rfl⟩
  | texts values =>
    cases values with
    | nil => exact ⟨_, _, rfl, rfl⟩
    | cons first values => cases values <;> exact ⟨_, _, rfl, rfl⟩

theorem statement?_pair {name : String} (hname : IsName name) {field : Field}
    (hfits : field.Fits) (rest : List Char) :
    statement? (name.toList ++ " = ".toList ++ field.write ++ '\n' :: rest) =
      some (.assign [name] field.value, '\n' :: rest) := by
  obtain ⟨c, cs, hcs, hc⟩ := exists_name hname
  obtain ⟨first, more, hfirst, hblank⟩ := exists_field field
  have htext : name.toList ++ " = ".toList ++ field.write ++ '\n' :: rest =
      name.toList ++ ' ' :: '=' :: ' ' :: (field.write ++ '\n' :: rest) := by
    simp
  have hpath : dotted? (name.toList ++ ' ' :: '=' :: ' ' :: (field.write ++ '\n' :: rest)) =
      some ([name], '=' :: ' ' :: (field.write ++ '\n' :: rest)) :=
    dotted?_name hname (stops_cons rfl) rfl (by decide)
  have hvalue : value? maxDepth (skipBlanks (' ' :: (field.write ++ '\n' :: rest))) =
      some (field.value, '\n' :: rest) := by
    have hskip : skipBlanks (' ' :: (field.write ++ '\n' :: rest)) =
        field.write ++ '\n' :: rest := by
      rw [hfirst]
      exact skipBlanks_of_head hblank _
    rw [hskip]
    exact value?_field hfits rest
  have hpair : pair? (value? maxDepth)
      (name.toList ++ ' ' :: '=' :: ' ' :: (field.write ++ '\n' :: rest)) =
        some (.assign [name] field.value, '\n' :: rest) := by
    rw [pair?, hpath]
    simp only [Option.bind_eq_bind, Option.bind_some, hvalue, Option.pure_def]
  have hbracket : c ≠ '[' := (plain_of_isNameChar hc).1
  rw [htext]
  rw [hcs] at hpair ⊢
  unfold statement?
  split
  · next heq => exact absurd (List.cons.inj heq).1 hbracket
  · next heq => exact absurd (List.cons.inj heq).1 hbracket
  · exact hpair

theorem statement?_header {name : String} (h : IsName name) (rest : List Char) :
    statement? ('[' :: (name.toList ++ ']' :: rest)) = some (.table [name], rest) := by
  obtain ⟨c, cs, hcs, hc⟩ := exists_name h
  have hpath : dotted? (name.toList ++ ']' :: rest) = some ([name], ']' :: rest) :=
    dotted?_name h (stops_cons rfl) rfl (by decide)
  have hbracket : c ≠ '[' := (plain_of_isNameChar hc).1
  unfold statement?
  split
  · next heq =>
    rw [hcs] at heq
    exact absurd (List.cons.inj (List.cons.inj heq).2).1 hbracket
  · next heq =>
    rw [← (List.cons.inj heq).2, hpath]
    rfl
  · next hnone => exact absurd rfl (hnone _)

theorem lineEnd?_line (rest : List Char) : lineEnd? ('\n' :: rest) = some rest := rfl

/-- Lines that make statements, whatever lines follow. -/
structure Tells (text : List Char) (said : List Statement) : Prop where
  short : said.length ≤ text.length
  reads : ∀ count rest, statements? (said.length + count) (text ++ rest) =
    (statements? count rest).map (said ++ ·)

theorem Tells.nil : Tells [] [] := by
  refine ⟨Nat.le_refl 0, fun count rest => ?_⟩
  simp

theorem Tells.append {text text' : List Char} {said said' : List Statement}
    (h : Tells text said) (h' : Tells text' said') : Tells (text ++ text') (said ++ said') := by
  refine ⟨?_, fun count rest => ?_⟩
  · rw [List.length_append, List.length_append]
    exact Nat.add_le_add h.short h'.short
  · rw [List.length_append, Nat.add_assoc, List.append_assoc, h.reads, h'.reads, Option.map_map]
    simp [Function.comp_def]

theorem Tells.flatMap {α : Type} {items : List α} {write : α → List Char}
    {told : α → List Statement} (h : ∀ item ∈ items, Tells (write item) (told item)) :
    Tells (items.flatMap write) (items.flatMap told) := by
  induction items with
  | nil => exact Tells.nil
  | cons item items ih =>
    rw [List.flatMap_cons, List.flatMap_cons]
    exact (h item List.mem_cons_self).append
      (ih fun other hm => h other (List.mem_cons_of_mem _ hm))

theorem Tells.single {c : Char} {cs : List Char} {statement : Statement}
    (hc : isBlank c = false ∧ c ≠ '\n' ∧ c ≠ '\r' ∧ c ≠ '#')
    (hread : ∀ rest, statement? (c :: cs ++ '\n' :: rest) = some (statement, '\n' :: rest)) :
    Tells (c :: cs ++ ['\n']) [statement] := by
  refine ⟨?_, fun count rest => ?_⟩
  · rw [List.length_append, List.length_singleton, List.length_singleton]
    omega
  · have hgap : gap? false (c :: cs ++ '\n' :: rest) = some (c :: cs ++ '\n' :: rest) :=
      gap?_of_head hc _
    have hfirst := hread rest
    rw [List.append_assoc, List.singleton_append, List.length_singleton, Nat.add_comm, statements?,
      hgap]
    rw [List.cons_append] at hfirst ⊢
    simp only [Option.bind_eq_bind, Option.bind_some, hfirst, lineEnd?_line, Option.pure_def]
    cases statements? count rest <;> rfl

/-- An empty line stands before statements without changing them. -/
theorem Tells.line {text : List Char} {said : List Statement} (h : Tells text said)
    (hsaid : said ≠ []) : Tells ('\n' :: text) said := by
  obtain ⟨first, more, rfl⟩ := List.exists_cons_of_ne_nil hsaid
  refine ⟨Nat.le_succ_of_le h.short, fun count rest => ?_⟩
  have hread := h.reads count rest
  rw [List.length_cons, Nat.add_right_comm, statements?] at hread ⊢
  rwa [List.cons_append, gap?_line]

def assignments (pairs : List (String × Field)) : List Statement :=
  pairs.map fun pair => .assign [pair.1] pair.2.value

def sectionStatements (part : String × List (String × Field)) : List Statement :=
  .table [part.1] :: assignments part.2

theorem tells_pairs {pairs : List (String × Field)} (h : Pairs pairs) :
    Tells (Document.writePairs pairs) (assignments pairs) := by
  rw [assignments, List.map_eq_flatMap]
  refine Tells.flatMap fun pair hm => ?_
  obtain ⟨c, cs, hcs, hc⟩ := exists_name (h.names pair hm)
  have hread := statement?_pair (h.names pair hm) (h.fits pair hm)
  rw [hcs] at hread
  dsimp only
  rw [hcs]
  exact Tells.single (plain_of_isNameChar hc).2 hread

theorem tells_section {part : String × List (String × Field)} (hname : IsName part.1)
    (h : Pairs part.2) : Tells (Document.writeSection part.1 part.2) (sectionStatements part) := by
  have hheader : Tells ('[' :: (part.1.toList ++ [']']) ++ ['\n']) [.table [part.1]] := by
    refine Tells.single (by decide) fun rest => ?_
    have hread := statement?_header hname ('\n' :: rest)
    simpa using hread
  have hall := (hheader.append (tells_pairs h)).line (List.cons_ne_nil _ _)
  simpa [Document.writeSection, sectionStatements] using hall

def Document.statements (document : Document) : List Statement :=
  assignments document.pairs ++ document.sections.flatMap sectionStatements

theorem tells_write {document : Document} (h : document.WellFormed) :
    Tells document.write document.statements := by
  refine (tells_pairs h.pairs).append (Tells.flatMap fun part hm => ?_)
  obtain ⟨hname, hpairs⟩ := h.sections part hm
  exact tells_section hname hpairs

theorem statements?_write {document : Document} (h : document.WellFormed) :
    statements? (document.write.length + 1) document.write = some document.statements := by
  have htells := tells_write h
  have hcount : document.write.length + 1 =
      document.statements.length + (document.write.length - document.statements.length + 1) := by
    have hshort := htells.short
    omega
  have hread := htells.reads (document.write.length - document.statements.length + 1) []
  rw [List.append_nil] at hread
  rw [hcount, hread]
  simp [statements?, gap?]

/-- The branches of pairs that have been read. -/
def leaves (pairs : List (String × Field)) : Branches :=
  pairs.map fun pair => (pair.1, .value pair.2.value)

namespace Branches

variable {name : String} {branches : Branches}

theorem lookup_eq_none (h : name ∉ branches.map (·.1)) : branches.lookup name = none := by
  rw [List.lookup_eq_none_iff]
  intro branch hm
  rw [bne_iff_ne]
  rintro rfl
  exact h (List.mem_map_of_mem hm)

theorem put_of_fresh (h : name ∉ branches.map (·.1)) (tree : Tree) :
    branches.put name tree = branches ++ [(name, tree)] := by
  induction branches with
  | nil => rfl
  | cons branch rest ih =>
    have hne : branch.1 ≠ name := fun heq => h (heq ▸ List.mem_cons_self)
    rw [put, if_neg hne, ih fun hm => h (List.mem_cons_of_mem _ hm), List.cons_append]

theorem put_last (h : name ∉ branches.map (·.1)) (old tree : Tree) :
    put name tree (branches ++ [(name, old)]) = branches ++ [(name, tree)] := by
  induction branches with
  | nil => exact if_pos rfl
  | cons branch rest ih =>
    have hne : branch.1 ≠ name := fun heq => h (heq ▸ List.mem_cons_self)
    rw [List.cons_append, put, if_neg hne, ih fun hm => h (List.mem_cons_of_mem _ hm),
      List.cons_append]

theorem lookup_last (h : name ∉ branches.map (·.1)) (tree : Tree) :
    List.lookup name (branches ++ [(name, tree)]) = some tree := by
  induction branches with
  | nil => exact List.lookup_cons_self
  | cons branch rest ih =>
    have hne : name ≠ branch.1 := fun heq => h (heq ▸ List.mem_cons_self)
    rw [List.cons_append, List.lookup_cons, beq_eq_false_iff_ne.mpr hne]
    exact ih fun hm => h (List.mem_cons_of_mem _ hm)

theorem assign?_fresh (h : name ∉ branches.map (·.1)) (value : Value) :
    branches.assign? [name] value = some (branches ++ [(name, .value value)]) := by
  have hnone := lookup_eq_none h
  simp [assign?, change?, hnone, put_of_fresh h]

theorem addTable?_fresh (h : name ∉ branches.map (·.1)) :
    branches.addTable? [name] = some (branches ++ [(name, .table .header [])]) := by
  have hnone := lookup_eq_none h
  simp [addTable?, change?, hnone, put_of_fresh h]

/-- Assignments make leaves in the table at a place, which stands in `context`. -/
theorem perform?_assignments {place : List String} {context : Branches → Branches}
    (hplace : ∀ f inner, change? false (fun _ => f) place .header (context inner) =
      (f inner).map context)
    {inner : Branches} {pairs : List (String × Field)}
    (h : (inner.map (·.1) ++ pairs.map (·.1)).Nodup) (rest : List Statement) :
    perform? place (context inner) (assignments pairs ++ rest) =
      perform? place (context (inner ++ leaves pairs)) rest := by
  induction pairs generalizing inner with
  | nil => rw [assignments, List.map_nil, List.nil_append, leaves, List.map_nil, List.append_nil]
  | cons pair pairs ih =>
    have hfresh : pair.1 ∉ inner.map (·.1) := by
      intro hm
      exact (List.nodup_append.mp h).2.2 _ hm _ List.mem_cons_self rfl
    have hnext : ((inner ++ [(pair.1, Tree.value pair.2.value)]).map (·.1) ++
        pairs.map (·.1)).Nodup := by
      rw [List.map_append, List.append_assoc]
      exact h
    have hmore := ih hnext
    have hsplit : assignments (pair :: pairs) ++ rest =
        .assign [pair.1] pair.2.value :: (assignments pairs ++ rest) := rfl
    rw [hsplit, perform?]
    simp only [hplace, assign?_fresh hfresh, Option.map_some, Option.bind_eq_bind,
      Option.bind_some, hmore, List.append_assoc]
    rfl

theorem change?_root (f : Branches → Option Branches) (inner : Branches) :
    change? false (fun _ => f) [] .header inner = (f inner).map id := by
  rw [Option.map_id]
  rfl

theorem change?_last (hname : name ∉ branches.map (·.1)) (f : Branches → Option Branches)
    (inner : Branches) :
    change? false (fun _ => f) [name] .header (branches ++ [(name, .table .header inner)]) =
      (f inner).map fun inner => branches ++ [(name, .table .header inner)] := by
  rw [change?, lookup_last hname]
  simp only [Bool.false_eq_true, false_and, if_false, change?, put_last hname]

def ofSection (part : String × List (String × Field)) : String × Tree :=
  (part.1, .table .header (leaves part.2))

theorem perform?_sections {sections : List (String × List (String × Field))}
    (hnames : (branches.map (·.1) ++ sections.map (·.1)).Nodup)
    (hpairs : ∀ part ∈ sections, (part.2.map (·.1)).Nodup) (place : List String) :
    perform? place branches (sections.flatMap sectionStatements) =
      some (branches ++ sections.map ofSection) := by
  induction sections generalizing branches place with
  | nil => rw [List.flatMap_nil, List.map_nil, List.append_nil, perform?]
  | cons part sections ih =>
    have hfresh : part.1 ∉ branches.map (·.1) := by
      intro hm
      exact (List.nodup_append.mp hnames).2.2 _ hm _ List.mem_cons_self rfl
    have hnext : ((branches ++ [ofSection part]).map (·.1) ++ sections.map (·.1)).Nodup := by
      rw [List.map_append, List.append_assoc]
      exact hnames
    obtain ⟨hpart, hmore⟩ := List.forall_mem_cons.mp hpairs
    have hinner : (List.map (·.1) ([] : Branches) ++ part.2.map (·.1)).Nodup := hpart
    have hsplit : (part :: sections).flatMap sectionStatements =
        .table [part.1] :: (assignments part.2 ++ sections.flatMap sectionStatements) := rfl
    rw [hsplit, perform?, addTable?_fresh hfresh, Option.bind_eq_bind, Option.bind_some,
      perform?_assignments (change?_last hfresh) hinner, List.nil_append]
    have hlast := ih hnext hmore [part.1]
    rw [List.append_assoc] at hlast
    exact hlast

theorem toMembers_eq (branches : Branches) :
    branches.toMembers = branches.map fun branch => (branch.1, branch.2.toValue) := by
  induction branches with
  | nil => rfl
  | cons branch branches ih => rw [toMembers, ih, List.map_cons]

theorem toMembers_leaves (pairs : List (String × Field)) :
    toMembers (leaves pairs) = pairs.map fun pair => (pair.1, pair.2.value) := by
  rw [toMembers_eq, leaves, List.map_map]
  exact List.map_congr_left fun pair _ => rfl

end Branches

theorem ofStatements?_statements {document : Document} (h : document.WellFormed) :
    ofStatements? document.statements = some document.members := by
  have hpairs : (List.map (·.1) ([] : Branches) ++ document.pairs.map (·.1)).Nodup :=
    h.pairs.apart
  have hleaves : (leaves document.pairs).map (·.1) = document.pairs.map (·.1) := by
    rw [leaves, List.map_map]
    rfl
  have hnames : ((leaves document.pairs).map (·.1) ++ document.sections.map (·.1)).Nodup := by
    rw [hleaves]
    exact h.apart
  have hsections :=
    Branches.perform?_sections hnames (fun part hm => (h.sections part hm).2.apart) []
  have hperform : Branches.perform? [] [] document.statements =
      some (leaves document.pairs ++ document.sections.map Branches.ofSection) :=
    (Branches.perform?_assignments Branches.change?_root hpairs _).trans hsections
  have hsection : ∀ part ∈ document.sections,
      ((Branches.ofSection part).1, (Branches.ofSection part).2.toValue) =
        (part.1, Value.table (part.2.map fun pair => (pair.1, pair.2.value))) := by
    intro part _
    rw [Branches.ofSection, Tree.toValue, Branches.toMembers_leaves]
  have hmembers : Branches.toMembers (leaves document.pairs ++
      document.sections.map Branches.ofSection) = document.members := by
    rw [Branches.toMembers_eq, List.map_append, ← Branches.toMembers_eq,
      Branches.toMembers_leaves, List.map_map]
    exact congrArg (_ ++ ·) (List.map_congr_left hsection)
  rw [ofStatements?, hperform, Option.map_some, hmembers]

theorem head_write {document : Document} (h : document.WellFormed) :
    document.write.head? ≠ some byteOrderMark := by
  rw [Document.write]
  cases hpairs : document.pairs with
  | nil =>
    cases document.sections with
    | nil => simp [Document.writePairs]
    | cons part sections => exact fun heq => absurd (Option.some.inj heq) (by decide)
  | cons pair pairs =>
    have hname := h.pairs.names pair (by rw [hpairs]; exact List.mem_cons_self)
    obtain ⟨c, cs, hcs, hc⟩ := exists_name hname
    rw [Document.writePairs, List.flatMap_cons]
    dsimp only
    rw [hcs]
    intro heq
    rw [Option.some.inj heq] at hc
    exact absurd hc (by decide)

/-- A document without repeated names is read as what it says. -/
theorem parse?_render {document : Document} (h : document.WellFormed) :
    parse? document.render = some document.members := by
  have hhead := head_write h
  have hread := statements?_write h
  rw [parse?, Document.render, String.toList_ofList]
  cases hwrite : document.write with
  | nil =>
    rw [hwrite] at hread
    simp only [hread, Option.bind_eq_bind, Option.bind_some, ofStatements?_statements h]
  | cons c cs =>
    rw [hwrite] at hread hhead
    have hmark : c ≠ byteOrderMark := fun heq => hhead (congrArg some heq)
    simp only [if_neg hmark, hread, Option.bind_eq_bind, Option.bind_some,
      ofStatements?_statements h]

end TftpReceiver.Toml
