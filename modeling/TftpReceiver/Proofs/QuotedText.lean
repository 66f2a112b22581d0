import TftpReceiver.Proofs.Numerals
import TftpReceiver.Toml.Reader

/-! A text in quotes reads back as the text, in whichever way it is quoted. Within several lines
the closing delimiter is told from quotes of the text by the length of a run alone. -/

namespace TftpReceiver.Toml

open Text (of_lookup)

namespace Quoting

theorem le_longestRun (mark : Char) (run : Nat) (text : List Char) :
    run ≤ longestRun mark run text := by
  induction text generalizing run with
  | nil => exact Nat.le_refl run
  | cons c rest ih =>
    rw [longestRun]
    by_cases hc : c = mark
    · rw [if_pos hc]
      exact Nat.le_trans (Nat.le_succ run) (ih (run + 1))
    · rw [if_neg hc]
      exact Nat.le_max_left _ _

theorem longestRun_mono (mark : Char) {run run' : Nat} (h : run ≤ run') (text : List Char) :
    longestRun mark run text ≤ longestRun mark run' text := by
  induction text generalizing run run' with
  | nil => exact h
  | cons c rest ih =>
    rw [longestRun, longestRun]
    by_cases hc : c = mark
    · rw [if_pos hc, if_pos hc]
      exact ih (Nat.succ_le_succ h)
    · rw [if_neg hc, if_neg hc]
      omega

theorem longestRun_tail (mark c : Char) (rest : List Char) :
    longestRun mark 0 rest ≤ longestRun mark 0 (c :: rest) := by
  rw [longestRun]
  by_cases hc : c = mark
  · rw [if_pos hc]
    exact longestRun_mono mark (Nat.zero_le 1) rest
  · rw [if_neg hc]
    exact Nat.le_max_right _ _

theorem not_mem_of_longestRun {mark : Char} {text : List Char} (h : longestRun mark 0 text = 0) :
    mark ∉ text := by
  induction text with
  | nil => exact List.not_mem_nil
  | cons c rest ih =>
    have htail := longestRun_tail mark c rest
    have hne : c ≠ mark := by
      intro heq
      have hone := le_longestRun mark 1 rest
      rw [longestRun, if_pos heq, Nat.zero_add] at h
      omega
    intro hm
    rcases List.mem_cons.mp hm with rfl | hm
    · exact hne rfl
    · exact ih (by omega) hm

theorem longestRun_cons_mark (mark : Char) (run : Nat) (rest : List Char) :
    longestRun mark run (mark :: rest) = longestRun mark (run + 1) rest := if_pos rfl

end Quoting

theorem isLineChar_of_plain {c : Char} (h : Quoting.needsCode c = false) (hline : c ≠ '\n') :
    isLineChar c = true := by
  simp only [Quoting.needsCode, decide_eq_false_iff_not, hline, ne_eq, not_false_eq_true,
    and_true, not_and, Decidable.not_not] at h
  by_cases htab : c = '\t'
  · exact decide_eq_true (.inr htab)
  · have hcode : ¬ (c.toNat < 32 ∨ c.toNat = 127) := fun hor => htab (h hor)
    exact decide_eq_true (.inl (by omega))

/-- What follows a backslash stands for a character and does not end the line. -/
structure Escapes (text : List Char) (c : Char) : Prop where
  escaped : ∀ rest, escaped? (text ++ rest) = some (c, rest)
  inLine : ∀ rest, joined? (text ++ rest) = none

theorem skipBlanks_of_head {c : Char} (h : isBlank c = false) (rest : List Char) :
    skipBlanks (c :: rest) = c :: rest := by
  rw [skipBlanks, List.dropWhile_cons, h, if_neg Bool.false_ne_true]

theorem joined?_cons {c : Char} (h : isBlank c = false ∧ c ≠ '\n' ∧ c ≠ '\r')
    (rest : List Char) : joined? (c :: rest) = none := by
  rw [joined?, skipBlanks_of_head h.1]
  split
  · next heq => exact absurd (List.cons.inj heq).1 h.2.1
  · next heq => exact absurd (List.cons.inj heq).1 h.2.2
  · rfl

theorem escapes_letter {c letter : Char} (h : Quoting.shortEscapes.lookup c = some letter) :
    Escapes [letter] c := by
  have hall : Quoting.shortEscapes.all (fun pair =>
      (codeWidth? pair.2 = none ∧ shortEscape? pair.2 = some pair.1) ∧
        isBlank pair.2 = false ∧ pair.2 ≠ '\n' ∧ pair.2 ≠ '\r') = true := by decide
  obtain ⟨⟨hwidth, hshort⟩, hline⟩ := of_decide_eq_true (of_lookup hall h)
  refine ⟨fun rest => ?_, joined?_cons hline⟩
  simp only [List.singleton_append, escaped?, hwidth, hshort, Option.map_some]

theorem escapes_quote : Escapes ['"'] '"' := escapes_letter rfl

/-- A character below 128 is written with its number in two digits. -/
theorem escapes_code {c : Char} (h : c.toNat < 128) : Escapes (Quoting.code c).tail c := by
  refine ⟨fun rest => ?_, fun rest => joined?_cons (by decide) _⟩
  have hdigit : ∀ d < 16, isDigitOf 16 (Quoting.upperDigit d) = true ∧
      digitValue (Quoting.upperDigit d) = d := by decide
  obtain ⟨hhigh, hhighValue⟩ := hdigit (c.toNat / 16) (by omega)
  obtain ⟨hlow, hlowValue⟩ := hdigit (c.toNat % 16) (by omega)
  have hzero : isDigitOf 16 '0' = true ∧ digitValue '0' = 0 := by decide
  have hnumber : c.toNat / 16 * 16 + c.toNat % 16 = c.toNat := by omega
  have hcode : code? 4 0 ('0' :: '0' :: Quoting.upperDigit (c.toNat / 16) ::
      Quoting.upperDigit (c.toNat % 16) :: rest) = some (c.toNat, rest) := by
    simp only [code?, hzero.1, hzero.2, hhigh, hhighValue, hlow, hlowValue, if_pos, Nat.zero_mul,
      Nat.zero_add, hnumber]
  have hwidth : codeWidth? 'u' = some 4 := rfl
  have hvalid : c.toNat.isValidChar := c.valid
  simp only [Quoting.code, List.tail_cons, List.cons_append, List.nil_append, escaped?, hwidth,
    hcode, if_pos hvalid, Char.ofNat_toNat]

/-- A character that can stand for itself between quotes of a kind. -/
structure Plain (quoting : Quoting) (c : Char) : Prop where
  quote : c ≠ '"'
  backslash : c ≠ '\\'
  carriage : c ≠ '\r'
  line : isLineChar c = true ∨ c = '\n' ∧ quoting.hasLines = true

theorem escapeChar_cases (quoting : Quoting) {c : Char} (hc : c ≠ '"') :
    (∃ text, quoting.escapeChar c = '\\' :: text ∧ Escapes text c) ∨
      quoting.escapeChar c = [c] ∧ Plain quoting c := by
  unfold Quoting.escapeChar
  by_cases hline : c = '\n' ∧ quoting.hasLines = true
  · rw [if_pos hline]
    obtain ⟨rfl, hlines⟩ := hline
    exact .inr ⟨rfl, by decide, by decide, by decide, .inr ⟨rfl, hlines⟩⟩
  · rw [if_neg hline]
    cases hletter : Quoting.shortEscapes.lookup c with
    | some letter => exact .inl ⟨[letter], rfl, escapes_letter hletter⟩
    | none =>
      cases hcode : Quoting.needsCode c with
      | true =>
        have hlt : c.toNat < 128 := by
          have hcodes := (of_decide_eq_true hcode).1
          omega
        exact .inl ⟨_, rfl, escapes_code hlt⟩
      | false =>
        have hother : ∀ other, Quoting.shortEscapes.lookup other ≠ none → c ≠ other := by
          rintro other hsome rfl
          exact hsome hletter
        exact .inr ⟨rfl, hc, hother _ (by decide), hother _ (by decide),
          .inl (isLineChar_of_plain hcode (hother _ (by decide)))⟩

section

variable {quoting : Quoting} {run : Nat} {c : Char} (cs : List Char)

theorem escape_free_quote (h : run < quoting.maxRun) :
    quoting.escape run ('"' :: cs) = '"' :: quoting.escape (run + 1) cs := by
  rw [Quoting.escape, if_pos rfl, if_pos h]

theorem escape_quote (h : ¬ run < quoting.maxRun) :
    quoting.escape run ('"' :: cs) = '\\' :: (['"'] ++ quoting.escape 0 cs) := by
  rw [Quoting.escape, if_pos rfl, if_neg h, List.singleton_append]

theorem escape_other (h : c ≠ '"') :
    quoting.escape run (c :: cs) = quoting.escapeChar c ++ quoting.escape 0 cs := by
  rw [Quoting.escape, if_neg h]

end

/-- A quote stands for itself behind so many others only. -/
theorem escape_eq_quote {quoting : Quoting} {run : Nat} {cs text : List Char}
    (h : quoting.escape run cs = '"' :: text) :
    run < quoting.maxRun ∧ ∃ more, cs = '"' :: more ∧ text = quoting.escape (run + 1) more := by
  cases cs with
  | nil => cases h
  | cons c cs =>
    by_cases hc : c = '"'
    · subst hc
      by_cases hrun : run < quoting.maxRun
      · rw [escape_free_quote cs hrun] at h
        exact ⟨hrun, cs, rfl, (List.cons.inj h).2.symm⟩
      · rw [escape_quote cs hrun] at h
        cases (List.cons.inj h).1
    · rw [escape_other cs hc] at h
      rcases escapeChar_cases quoting hc with ⟨text', htext, -⟩ | ⟨hself, -⟩
      · rw [htext] at h
        cases (List.cons.inj h).1
      · rw [hself] at h
        exact absurd (List.cons.inj h).1 hc

theorem closed?_of_head {mark : Char} {text : List Char} (h : text.head? ≠ some mark) :
    closed? mark text = none := by
  unfold closed?
  split
  · next a b c rest =>
    refine if_neg fun hmarks => h ?_
    rw [List.head?_cons, hmarks.1]
  · rfl

/-- A text of a quote or two is closed by the last three of a run of quotes. -/
theorem closed?_append {mark : Char} {text rest : List Char}
    (h : ∀ more, text ≠ mark :: mark :: mark :: more) (hrest : rest.head? ≠ some mark) :
    closed? mark (text ++ mark :: mark :: mark :: rest) =
      if text.all (· = mark) then some (text, rest) else none := by
  have htake : ∀ n, (rest.take n).takeWhile (· = mark) = [] := by
    intro n
    cases n with
    | zero => rfl
    | succ n =>
      cases rest with
      | nil => rfl
      | cons c rest =>
        rw [List.take_succ_cons, List.takeWhile_cons_of_neg]
        rw [List.head?_cons, Ne, Option.some.injEq] at hrest
        simpa using hrest
  match text with
  | [] => simp [closed?, htake]
  | [a] =>
    by_cases ha : a = mark
    · simp [closed?, ha, htake]
    · simp [closed?, ha]
  | [a, b] =>
    by_cases hmarks : a = mark ∧ b = mark
    · simp [closed?, hmarks]
    · simp [closed?, hmarks]
  | a :: b :: c :: text =>
    have hmarks : ¬ (a = mark ∧ b = mark ∧ c = mark) := by
      rintro ⟨rfl, rfl, rfl⟩
      exact h text rfl
    have hall : ¬ ((a :: b :: c :: text).all (· = mark) = true) := by
      intro hall
      simp only [List.all_cons, Bool.and_eq_true, decide_eq_true_eq] at hall
      exact hmarks ⟨hall.1, hall.2.1, hall.2.2.1⟩
    rw [if_neg hall]
    simp only [List.cons_append, closed?, if_neg hmarks]

theorem ne_marks_of_longestRun {mark : Char} {text : List Char}
    (h : Quoting.longestRun mark 0 text ≤ 2) (more : List Char) :
    text ≠ mark :: mark :: mark :: more := by
  rintro rfl
  have hrun := Quoting.le_longestRun mark 3 more
  simp only [Quoting.longestRun_cons_mark, Nat.zero_add, Nat.reduceAdd] at h
  omega

theorem basic?_escaped {text rest : List Char} {c : Char} (h : escaped? text = some (c, rest)) :
    basic? ('\\' :: text) = (basic? rest).map fun (cs, rest) => (c :: cs, rest) := by
  rw [basic?, if_neg (by decide), if_pos rfl]
  split
  · next hnone => cases hnone.symm.trans h
  · next c' rest' hsome =>
    obtain ⟨rfl, rfl⟩ := Prod.mk.inj (Option.some.inj (hsome.symm.trans h))
    rfl

theorem basic?_escape (cs rest : List Char) :
    basic? (Quoting.basic.escape 0 cs ++ '"' :: rest) = some (cs, rest) := by
  induction cs with
  | nil => rw [Quoting.escape, List.nil_append, basic?, if_pos rfl]
  | cons c cs ih =>
    by_cases hc : c = '"'
    · rw [hc, escape_quote cs (by decide), List.cons_append, List.append_assoc,
        basic?_escaped (escapes_quote.escaped _), ih]
      rfl
    · rw [escape_other cs hc, List.append_assoc]
      rcases escapeChar_cases .basic hc with ⟨text, htext, hescapes⟩ | ⟨hself, hplain⟩
      · rw [htext, List.cons_append, basic?_escaped (hescapes.escaped _), ih]
        rfl
      · have hline : isLineChar c = true := by
          rcases hplain.line with hline | ⟨-, hlines⟩
          · exact hline
          · cases hlines
        rw [hself, List.singleton_append, basic?, if_neg hplain.quote, if_neg hplain.backslash,
          if_pos hline, ih]
        rfl

theorem literal?_append {cs : List Char} (hmark : '\'' ∉ cs)
    (hline : ∀ c ∈ cs, isLineChar c = true) (rest : List Char) :
    literal? (cs ++ '\'' :: rest) = some (cs, rest) := by
  induction cs with
  | nil => rw [List.nil_append, literal?, if_pos rfl]
  | cons c cs ih =>
    have hne : c ≠ '\'' := fun heq => hmark (heq ▸ List.mem_cons_self)
    have hmark : '\'' ∉ cs := fun hm => hmark (List.mem_cons_of_mem c hm)
    obtain ⟨hc, hline⟩ := List.forall_mem_cons.mp hline
    rw [List.cons_append, literal?, if_neg hne, if_pos hc, ih hmark hline]
    rfl

theorem literalLines?_append {cs rest : List Char} (hrun : Quoting.longestRun '\'' 0 cs ≤ 2)
    (hplain : ∀ c ∈ cs, isLineChar c = true ∨ c = '\n') (hrest : rest.head? ≠ some '\'') :
    literalLines? (cs ++ '\'' :: '\'' :: '\'' :: rest) = some (cs, rest) := by
  induction cs with
  | nil =>
    have hclosed := closed?_append (ne_marks_of_longestRun hrun) hrest
    rw [literalLines?.eq_def, hclosed]
    rfl
  | cons c cs ih =>
    have hclosed := closed?_append (ne_marks_of_longestRun hrun) hrest
    have htail := Quoting.longestRun_tail '\'' c cs
    obtain ⟨hc, hcs⟩ := List.forall_mem_cons.mp hplain
    have hmore := ih (Nat.le_trans htail hrun) hcs
    rw [literalLines?.eq_def, hclosed]
    by_cases hall : (c :: cs).all (· = '\'') = true
    · rw [if_pos hall]
    · simp only [if_neg hall, List.cons_append]
      split
      · next heq => cases heq
      · next heq =>
        obtain ⟨rfl, -⟩ := List.cons.inj heq
        exact absurd hc (by decide)
      · next heq =>
        obtain ⟨rfl, rfl⟩ := List.cons.inj heq
        rw [if_pos hc, hmore]
        rfl

theorem basicLines?_escaped {text rest : List Char} {c : Char} (h : Escapes text c) :
    basicLines? ('\\' :: (text ++ rest)) =
      (basicLines? rest).map fun (cs, rest) => (c :: cs, rest) := by
  have hclosed : closed? '"' ('\\' :: (text ++ rest)) = none := closed?_of_head (by simp)
  rw [basicLines?.eq_def, hclosed]
  dsimp only
  split
  · next heq => cases heq
  · next heq => exact absurd (List.cons.inj heq).1 (by decide)
  · next heq =>
    obtain ⟨rfl, rfl⟩ := List.cons.inj heq
    rw [if_pos rfl]
    split
    · next hjoined => cases (h.inLine rest).symm.trans hjoined
    · split
      · next hnone => cases hnone.symm.trans (h.escaped rest)
      · next hsome =>
        obtain ⟨rfl, rfl⟩ := Prod.mk.inj (Option.some.inj (hsome.symm.trans (h.escaped rest)))
        rfl

theorem basicLines?_plain {c : Char} {text : List Char}
    (hclosed : closed? '"' (c :: text) = none) (hbackslash : c ≠ '\\') (hcarriage : c ≠ '\r')
    (hline : isLineChar c = true ∨ c = '\n') :
    basicLines? (c :: text) = (basicLines? text).map fun (cs, rest) => (c :: cs, rest) := by
  rw [basicLines?.eq_def, hclosed]
  dsimp only
  split
  · next heq => cases heq
  · next heq => exact absurd (List.cons.inj heq).1 hcarriage
  · next heq =>
    obtain ⟨rfl, rfl⟩ := List.cons.inj heq
    rw [if_neg hbackslash, if_pos hline]

theorem escape_ne_quotes (run : Nat) (cs more : List Char) :
    Quoting.basicLines.escape run cs ≠ '"' :: '"' :: '"' :: more := by
  intro h
  obtain ⟨-, _, -, hsecond⟩ := escape_eq_quote h
  obtain ⟨-, _, -, hthird⟩ := escape_eq_quote hsecond.symm
  obtain ⟨hrun, -⟩ := escape_eq_quote hthird.symm
  have hmax : Quoting.basicLines.maxRun = 2 := rfl
  omega

theorem escape_of_all {run : Nat} {cs : List Char}
    (h : (Quoting.basicLines.escape run cs).all (· = '"') = true) :
    Quoting.basicLines.escape run cs = cs := by
  induction cs generalizing run with
  | nil => rfl
  | cons c cs ih =>
    by_cases hc : c = '"'
    · subst hc
      by_cases hrun : run < Quoting.basicLines.maxRun
      · rw [escape_free_quote cs hrun] at h ⊢
        rw [ih (Bool.and_eq_true _ _ |>.mp h).2]
      · rw [escape_quote cs hrun] at h
        cases (Bool.and_eq_true _ _ |>.mp h).1
    · rw [escape_other cs hc] at h
      rcases escapeChar_cases .basicLines hc with ⟨text, htext, -⟩ | ⟨hself, -⟩
      · rw [htext] at h
        cases (Bool.and_eq_true _ _ |>.mp h).1
      · rw [hself] at h
        exact absurd (of_decide_eq_true (Bool.and_eq_true _ _ |>.mp h).1) hc

theorem basicLines?_escape (run : Nat) (cs : List Char) {rest : List Char}
    (hrest : rest.head? ≠ some '"') :
    basicLines? (Quoting.basicLines.escape run cs ++ '"' :: '"' :: '"' :: rest) =
      some (cs, rest) := by
  induction cs generalizing run with
  | nil =>
    have hclosed := closed?_append (escape_ne_quotes run []) hrest
    rw [basicLines?.eq_def, hclosed]
    rfl
  | cons c cs ih =>
    have hclosed := closed?_append (escape_ne_quotes run (c :: cs)) hrest
    by_cases hall : (Quoting.basicLines.escape run (c :: cs)).all (· = '"') = true
    · rw [basicLines?.eq_def, hclosed, if_pos hall, escape_of_all hall]
    · rw [if_neg hall] at hclosed
      by_cases hc : c = '"'
      · subst hc
        by_cases hrun : run < Quoting.basicLines.maxRun
        · have hline : isLineChar '"' = true := rfl
          rw [escape_free_quote cs hrun, List.cons_append] at hclosed ⊢
          rw [basicLines?_plain hclosed (by decide) (by decide) (.inl hline), ih]
          rfl
        · rw [escape_quote cs hrun, List.cons_append, List.append_assoc,
            basicLines?_escaped escapes_quote, ih]
          rfl
      · rw [escape_other cs hc, List.append_assoc] at hclosed ⊢
        rcases escapeChar_cases .basicLines hc with ⟨text, htext, hescapes⟩ | ⟨hself, hplain⟩
        · rw [htext, List.cons_append, basicLines?_escaped hescapes, ih]
          rfl
        · have hline : isLineChar c = true ∨ c = '\n' := hplain.line.imp_right (·.1)
          rw [hself, List.singleton_append] at hclosed ⊢
          rw [basicLines?_plain hclosed hplain.backslash hplain.carriage hline, ih]
          rfl

theorem not_needsCode_of_any {cs : List Char} (h : ¬ cs.any Quoting.needsCode = true) :
    ∀ c ∈ cs, Quoting.needsCode c = false := by
  rw [Bool.not_eq_true] at h
  exact fun c hc => Bool.eq_false_iff.mpr (List.any_eq_false.mp h c hc)

/-- Between single quotes a text stands as it is, so all of it must be able to. -/
theorem ofText_cases (cs : List Char) :
    Quoting.ofText cs = .basic ∨ Quoting.ofText cs = .basicLines ∨
      (Quoting.ofText cs = .literal ∧ '\'' ∉ cs ∧ ∀ c ∈ cs, isLineChar c = true) ∨
      (Quoting.ofText cs = .literalLines ∧ Quoting.longestRun '\'' 0 cs ≤ 2 ∧
        ∀ c ∈ cs, isLineChar c = true ∨ c = '\n') := by
  simp only [Quoting.ofText]
  split
  · exact .inl rfl
  split
  · next h =>
    obtain ⟨hcodes, hlines, hsingles⟩ := h
    refine .inr (.inr (.inl ⟨rfl, Quoting.not_mem_of_longestRun hsingles, fun c hc => ?_⟩))
    have hne : c ≠ '\n' := by
      rintro rfl
      exact hlines (List.contains_iff_mem.mpr hc)
    exact isLineChar_of_plain (not_needsCode_of_any hcodes c hc) hne
  split
  · exact .inr (.inl rfl)
  split
  · next h =>
    refine .inr (.inr (.inr ⟨rfl, h.2, fun c hc => ?_⟩))
    by_cases hne : c = '\n'
    · exact .inr hne
    · exact .inl (isLineChar_of_plain (not_needsCode_of_any h.1 c hc) hne)
  split
  · exact .inr (.inl rfl)
  · exact .inl rfl

theorem afterOpening_of_head {text : List Char}
    (h : text.head? ≠ some '\n' ∧ text.head? ≠ some '\r') : afterOpening text = text := by
  unfold afterOpening
  split
  · exact absurd rfl h.1
  · exact absurd rfl h.2
  · rfl

theorem string?_of_line {text : List Char} (hdouble : ∀ more, text ≠ '"' :: '"' :: '"' :: more)
    (hsingle : ∀ more, text ≠ '\'' :: '\'' :: '\'' :: more) :
    string? text = (line? text).map fun (cs, rest) => (String.ofList cs, rest) := by
  unfold string?
  split
  · exact absurd rfl (hdouble _)
  · exact absurd rfl (hsingle _)
  · rfl

/-- A line end is put behind the opening delimiter where the text has one, and passed over. -/
theorem afterOpening_line {cs body : List Char} (hcarriage : body.head? ≠ some '\r')
    (hline : '\n' ∉ cs → body.head? ≠ some '\n') :
    afterOpening ((if cs.contains '\n' = true then ['\n'] else []) ++ body) = body := by
  by_cases hcontains : cs.contains '\n' = true
  · rw [if_pos hcontains]
    rfl
  · rw [if_neg hcontains, List.nil_append]
    have hnot : '\n' ∉ cs := fun hm => hcontains (List.contains_iff_mem.mpr hm)
    exact afterOpening_of_head ⟨hline hnot, hcarriage⟩

theorem head_escape (run : Nat) (cs rest : List Char) :
    (Quoting.basicLines.escape run cs ++ '"' :: rest).head? ≠ some '\r' ∧
      ('\n' ∉ cs → (Quoting.basicLines.escape run cs ++ '"' :: rest).head? ≠ some '\n') := by
  cases cs with
  | nil => exact ⟨by simp [Quoting.escape], by simp [Quoting.escape]⟩
  | cons c cs =>
    by_cases hc : c = '"'
    · subst hc
      by_cases hrun : run < Quoting.basicLines.maxRun
      · rw [escape_free_quote cs hrun]
        exact ⟨by simp, by simp⟩
      · rw [escape_quote cs hrun]
        exact ⟨by simp, by simp⟩
    · rw [escape_other cs hc]
      rcases escapeChar_cases .basicLines hc with ⟨text, htext, -⟩ | ⟨hself, hplain⟩
      · rw [htext]
        exact ⟨by simp, by simp⟩
      · rw [hself]
        refine ⟨fun heq => hplain.carriage (Option.some.inj heq), fun hnot heq => hnot ?_⟩
        rw [← Option.some.inj heq]
        exact List.mem_cons_self

theorem head_plain {cs : List Char} (h : ∀ c ∈ cs, isLineChar c = true ∨ c = '\n')
    (rest : List Char) : (cs ++ '\'' :: rest).head? ≠ some '\r' ∧
      ('\n' ∉ cs → (cs ++ '\'' :: rest).head? ≠ some '\n') := by
  cases cs with
  | nil => exact ⟨by simp, by simp⟩
  | cons c cs =>
    have hc := h c List.mem_cons_self
    refine ⟨fun heq => ?_, fun hnot heq => hnot ?_⟩
    · rw [Option.some.inj heq] at hc
      exact absurd hc (by decide)
    · rw [← Option.some.inj heq]
      exact List.mem_cons_self

section

variable {rest : List Char}

theorem string?_basic (cs : List Char) (hrest : rest.head? ≠ some '"') :
    string? ('"' :: (Quoting.basic.escape 0 cs ++ '"' :: rest)) =
      some (String.ofList cs, rest) := by
  rw [string?_of_line, line?, basic?_escape]
  · rfl
  · intro more heq
    have hbody := (List.cons.inj heq).2
    cases htext : Quoting.basic.escape 0 cs with
    | nil =>
      rw [htext] at hbody
      exact hrest (congrArg List.head? (List.cons.inj hbody).2)
    | cons c text =>
      rw [htext] at hbody
      obtain ⟨rfl, -⟩ := List.cons.inj hbody
      exact absurd (escape_eq_quote htext).1 (by decide)
  · intro more heq
    cases (List.cons.inj heq).1

theorem string?_literal {cs : List Char} (hmark : '\'' ∉ cs) (hline : ∀ c ∈ cs, isLineChar c = true)
    (hrest : rest.head? ≠ some '\'') :
    string? ('\'' :: (cs ++ '\'' :: rest)) = some (String.ofList cs, rest) := by
  rw [string?_of_line, line?, literal?_append hmark hline]
  · rfl
  · intro more heq
    cases (List.cons.inj heq).1
  · intro more heq
    have hbody := (List.cons.inj heq).2
    cases cs with
    | nil => exact hrest (congrArg List.head? (List.cons.inj hbody).2)
    | cons c cs =>
      obtain ⟨rfl, -⟩ := List.cons.inj hbody
      exact hmark List.mem_cons_self

theorem string?_basicLines (cs : List Char) (hrest : rest.head? ≠ some '"') :
    string? ('"' :: '"' :: '"' :: ((if cs.contains '\n' = true then ['\n'] else []) ++
      (Quoting.basicLines.escape 0 cs ++ '"' :: '"' :: '"' :: rest))) =
        some (String.ofList cs, rest) := by
  obtain ⟨hcarriage, hend⟩ := head_escape 0 cs ('"' :: '"' :: rest)
  rw [string?, afterOpening_line hcarriage hend, basicLines?_escape 0 cs hrest]
  rfl

theorem string?_literalLines {cs : List Char} (hrun : Quoting.longestRun '\'' 0 cs ≤ 2)
    (hline : ∀ c ∈ cs, isLineChar c = true ∨ c = '\n') (hrest : rest.head? ≠ some '\'') :
    string? ('\'' :: '\'' :: '\'' :: ((if cs.contains '\n' = true then ['\n'] else []) ++
      (cs ++ '\'' :: '\'' :: '\'' :: rest))) = some (String.ofList cs, rest) := by
  obtain ⟨hcarriage, hend⟩ := head_plain hline ('\'' :: '\'' :: rest)
  rw [string?, afterOpening_line hcarriage hend, literalLines?_append hrun hline hrest]
  rfl

end

/-- Every text is quoted in such a way that it reads back, unless another quote follows. -/
theorem string?_write (text : String) {rest : List Char}
    (hrest : rest.head? ≠ some '"' ∧ rest.head? ≠ some '\'') :
    string? (Quoting.write text ++ rest) = some (text, rest) := by
  have htext : String.ofList text.toList = text := String.ofList_toList
  unfold Quoting.write
  rcases ofText_cases text.toList with h | h | ⟨h, hmark, hline⟩ | ⟨h, hrun, hline⟩
  · have hread := string?_basic text.toList hrest.1
    rw [htext] at hread
    simpa [h, Quoting.opening, Quoting.delimiter, Quoting.hasLines] using hread
  · have hread := string?_basicLines text.toList hrest.1
    rw [htext] at hread
    simpa [h, Quoting.opening, Quoting.delimiter, Quoting.hasLines] using hread
  · have hread := string?_literal hmark hline hrest.2
    rw [htext] at hread
    simpa [h, Quoting.opening, Quoting.delimiter, Quoting.hasLines] using hread
  · have hread := string?_literalLines hrun hline hrest.2
    rw [htext] at hread
    simpa [h, Quoting.opening, Quoting.delimiter, Quoting.hasLines] using hread

/-- What a quoted text begins with. -/
theorem exists_write (text : String) :
    ∃ c cs, Quoting.write text = c :: cs ∧ (c = '"' ∨ c = '\'') := by
  have hdelimiter : ∀ quoting : Quoting,
      ∃ c cs, quoting.delimiter = c :: cs ∧ (c = '"' ∨ c = '\'') := by
    rintro (_ | _ | _ | _)
    · exact ⟨'"', _, rfl, .inl rfl⟩
    · exact ⟨'\'', _, rfl, .inr rfl⟩
    · exact ⟨'"', _, rfl, .inl rfl⟩
    · exact ⟨'\'', _, rfl, .inr rfl⟩
  obtain ⟨c, cs, hopen, hc⟩ := hdelimiter (Quoting.ofText text.toList)
  have hwrite : ∃ more, Quoting.write text = c :: more := by
    simp only [Quoting.write, Quoting.opening, hopen, List.cons_append]
    exact ⟨_, rfl⟩
  obtain ⟨more, hwrite⟩ := hwrite
  exact ⟨c, more, hwrite, hc⟩

end TftpReceiver.Toml
