import TftpReceiver.Json.Reader
import TftpReceiver.Proofs.Numerals

/-! Reading JSON leads back to the value that was written, whatever texts it holds, and what is
written holds no control character. -/

namespace TftpReceiver.Json

open Text (Stops stops_nil stops_cons takeWhile_run dropWhile_run of_lookup)

theorem hexValue?_digitChar {d : Nat} (h : d < 16) : hexValue? (Nat.digitChar d) = some d := by
  have hall : ∀ d < 16, hexValue? (Nat.digitChar d) = some d := by decide
  exact hall d h

/-- A character below 32 is written with its number in two digits. -/
theorem escaped?_code {c : Char} (h : c.toNat < 32) (rest : List Char) :
    escaped? ('u' :: '0' :: '0' :: Nat.digitChar (c.toNat / 16) ::
      Nat.digitChar (c.toNat % 16) :: rest) = some (c, rest) := by
  have hhigh := hexValue?_digitChar (show c.toNat / 16 < 16 by omega)
  have hlow := hexValue?_digitChar (show c.toNat % 16 < 16 by omega)
  have hzero : hexValue? '0' = some 0 := rfl
  have hunit : unit? '0' '0' (Nat.digitChar (c.toNat / 16)) (Nat.digitChar (c.toNat % 16)) =
      some c.toNat := by
    simp only [unit?, hzero, hhigh, hlow, Option.pure_def, Option.bind_eq_bind, Option.bind_some,
      Option.some.injEq]
    omega
  have hplain : isLowUnit c.toNat = false ∧ isHighUnit c.toNat = false := by
    constructor <;> simp only [isLowUnit, isHighUnit, decide_eq_false_iff_not] <;> omega
  simp [escaped?, hunit, hplain.1, hplain.2, Char.ofNat_toNat]

theorem escaped?_letter {c letter : Char} (h : shortEscapes.lookup c = some letter)
    (rest : List Char) : escaped? (letter :: rest) = some (c, rest) := by
  have hall : shortEscapes.all (fun pair =>
      pair.2 ≠ 'u' ∧ shortEscape? pair.2 = some pair.1) = true := by decide
  obtain ⟨hne, hshort⟩ := of_decide_eq_true (of_lookup hall h)
  unfold escaped?
  split
  · next heq => exact absurd (List.cons.inj heq).1 hne
  · next heq =>
    obtain ⟨rfl, rfl⟩ := List.cons.inj heq
    rw [hshort]
    rfl
  · next heq => cases heq

theorem stringBody?_escaped {text rest : List Char} {c : Char}
    (h : escaped? text = some (c, rest)) : stringBody? (escapeMark :: text) =
      (stringBody? rest).map fun (cs, rest) => (c :: cs, rest) := by
  have hquote : escapeMark ≠ quote := by decide
  rw [stringBody?, if_neg hquote, if_pos rfl]
  split
  · next hnone => cases hnone.symm.trans h
  · next c' rest' hsome =>
    obtain ⟨rfl, rfl⟩ := Prod.mk.inj (Option.some.inj (hsome.symm.trans h))
    rfl

theorem stringBody?_plain {c : Char} (hquote : c ≠ quote) (hmark : c ≠ escapeMark)
    (hcode : ¬ c.toNat < 32) (text : List Char) : stringBody? (c :: text) =
      (stringBody? text).map fun (cs, rest) => (c :: cs, rest) := by
  rw [stringBody?, if_neg hquote, if_neg hmark, if_neg hcode]

theorem stringBody?_escapeChar (c : Char) (text : List Char) :
    stringBody? (escapeChar c ++ text) =
      (stringBody? text).map fun (cs, rest) => (c :: cs, rest) := by
  unfold escapeChar
  split
  · next letter hletter => exact stringBody?_escaped (escaped?_letter hletter text)
  · next hnone =>
    by_cases hcode : c.toNat < 32
    · rw [if_pos hcode]
      exact stringBody?_escaped (escaped?_code hcode text)
    · rw [if_neg hcode]
      have hquote : c ≠ quote := by
        rintro rfl
        cases hnone
      have hmark : c ≠ escapeMark := by
        rintro rfl
        cases hnone
      exact stringBody?_plain hquote hmark hcode text

theorem string?_writeString (s : String) (rest : List Char) :
    string? (writeString s ++ rest) = some (s, rest) := by
  have hbody : ∀ cs : List Char,
      stringBody? (cs.flatMap escapeChar ++ quote :: rest) = some (cs, rest) := by
    intro cs
    induction cs with
    | nil =>
      rw [List.flatMap_nil, List.nil_append, stringBody?, if_pos rfl]
    | cons c cs ih =>
      rw [List.flatMap_cons, List.append_assoc, stringBody?_escapeChar, ih]
      rfl
  have hwritten : writeString s ++ rest =
      quote :: (s.toList.flatMap escapeChar ++ quote :: rest) := by
    simp [writeString]
  rw [hwritten, string?, if_pos rfl, hbody]
  simp

/-- What can follow a number: no further digit, no point and no exponent. -/
def goesOn (c : Char) : Bool := c.isDigit ∨ c = '.' ∨ c = 'e' ∨ c = 'E'

theorem whole?_toDigits (n : Nat) {rest : List Char} (h : Stops goesOn rest) :
    whole? (Nat.toDigits 10 n ++ rest) = some (Nat.toDigits 10 n, rest) := by
  have hdigits : ∀ c ∈ Nat.toDigits 10 n, c.isDigit = true := fun c hc =>
    Nat.isDigit_of_mem_toDigits (by decide) (by decide) hc
  have hstop : Stops Char.isDigit rest := by
    intro c hc
    have hgoes := h c hc
    simp only [goesOn, decide_eq_false_iff_not, not_or] at hgoes
    exact Bool.eq_false_iff.mpr hgoes.1
  have hread : digits? (Nat.toDigits 10 n ++ rest) = some (Nat.toDigits 10 n, rest) := by
    rw [digits?, takeWhile_run hdigits hstop, dropWhile_run hdigits hstop,
      if_neg Nat.toDigits_ne_nil]
  have hzero : ¬ ((Nat.toDigits 10 n).head? = some '0' ∧ 1 < (Nat.toDigits 10 n).length) := by
    rintro ⟨hhead, hlong⟩
    have hone := Decimal.no_leading_zero (by decide) n hhead
    omega
  simp only [whole?, hread, Option.bind_eq_bind, Option.bind_some, if_neg hzero]

theorem fraction?_of_stops {rest : List Char} (h : Stops goesOn rest) :
    fraction? rest = some (none, rest) := by
  unfold fraction?
  split
  · next rest' => cases h '.' rfl
  · rfl

theorem exponent?_of_stops {rest : List Char} (h : Stops goesOn rest) :
    exponent? rest = some (none, rest) := by
  cases rest with
  | nil => rfl
  | cons c rest =>
    have hc := h c rfl
    simp only [goesOn, decide_eq_false_iff_not, not_or] at hc
    have hne : ¬ (c = 'e' ∨ c = 'E') := fun hor => hor.elim hc.2.2.1 hc.2.2.2
    unfold exponent?
    exact if_neg hne

theorem head_writeInteger (value : Int) :
    ∃ c cs, writeInteger value = c :: cs ∧ (c = '-' ∧ value < 0 ∨ c.isDigit = true) := by
  unfold writeInteger
  by_cases hneg : value < 0
  · rw [if_pos hneg]
    exact ⟨_, _, rfl, .inl ⟨rfl, hneg⟩⟩
  · rw [if_neg hneg, Decimal.render, String.toList_ofList]
    obtain ⟨d, hd, digits, hdigits⟩ := Decimal.exists_first_digit value.natAbs
    have hdigit : ∀ d < 10, (Nat.digitChar d).isDigit = true := by decide
    exact ⟨_, digits, hdigits, .inr (hdigit d hd)⟩

theorem numeral?_writeInteger (value : Int) {rest : List Char} (h : Stops goesOn rest) :
    numeral? (writeInteger value ++ rest) =
      some ({ negative := value < 0, whole := Nat.toDigits 10 value.natAbs, fraction := none,
              exponent := none }, rest) := by
  have hwhole := whole?_toDigits value.natAbs h
  unfold numeral?
  split
  next negative text hsign =>
  have hread : negative = decide (value < 0) ∧ text = Nat.toDigits 10 value.natAbs ++ rest := by
    by_cases hneg : value < 0
    · simp only [writeInteger, if_pos hneg, Decimal.render, String.toList_ofList,
        List.cons_append] at hsign
      obtain ⟨rfl, rfl⟩ := Prod.mk.inj hsign
      exact ⟨(decide_eq_true hneg).symm, rfl⟩
    · have hwritten : writeInteger value = Nat.toDigits 10 value.natAbs := by
        rw [writeInteger, if_neg hneg, Decimal.render, String.toList_ofList]
      obtain ⟨c, cs, hc, hhead⟩ := head_writeInteger value
      have hne : c ≠ '-' := by
        rintro rfl
        rcases hhead with ⟨-, hlt⟩ | hdigit
        · exact hneg hlt
        · exact absurd hdigit (by decide)
      split at hsign
      · next heq =>
        rw [hc, List.cons_append] at heq
        exact absurd (List.cons.inj heq).1 hne
      · obtain ⟨rfl, rfl⟩ := Prod.mk.inj hsign
        exact ⟨(decide_eq_false hneg).symm, by rw [hwritten]⟩
  obtain ⟨rfl, rfl⟩ := hread
  simp only [hwhole, fraction?_of_stops h, exponent?_of_stops h, Option.bind_eq_bind,
    Option.bind_some, Option.pure_def]

/-- The integers that are read as such. -/
def inWord (value : Int) : Bool := -maxNegative ≤ value ∧ value ≤ Decimal.maxWord64

theorem number?_of_inWord {value : Int} (h : inWord value = true) :
    Numeral.number? { negative := value < 0, whole := Nat.toDigits 10 value.natAbs
                      fraction := none, exponent := none } = some (.integer value) := by
  obtain ⟨hlow, hhigh⟩ := of_decide_eq_true h
  have hsize : Nat.ofDigitChars 10 (Nat.toDigits 10 value.natAbs) 0 = value.natAbs :=
    Nat.ofDigitChars_ten_toDigits
  have hinteger : Numeral.integer? { negative := value < 0, whole := Nat.toDigits 10 value.natAbs
                                     fraction := none, exponent := none } = some value := by
    simp only [Numeral.integer?, hsize, Option.isSome_none, Bool.false_eq_true, or_self, if_false]
    by_cases hneg : value < 0
    · have hfits : 0 < value.natAbs ∧ value.natAbs ≤ maxNegative := by omega
      rw [if_pos (decide_eq_true hneg), if_pos hfits, Option.some.injEq]
      omega
    · have hfits : value.natAbs ≤ Decimal.maxWord64 := by omega
      rw [if_neg (by simpa using hneg), if_pos hfits, Option.some.injEq]
      omega
  rw [Numeral.number?, hinteger]

theorem scalar?_writeInteger {value : Int} (h : inWord value = true) {rest : List Char}
    (hr : Stops goesOn rest) :
    scalar? (writeInteger value ++ rest) = some (.number (.integer value), rest) := by
  have hread := numeral?_writeInteger value hr
  obtain ⟨c, cs, hc, hhead⟩ := head_writeInteger value
  have hother : ∀ other : Char, other.isDigit = false → other ≠ '-' → c ≠ other := by
    rintro other hnone hminus rfl
    rcases hhead with ⟨rfl, -⟩ | hdigit
    · exact hminus rfl
    · cases hnone.symm.trans hdigit
  rw [hc, List.cons_append] at hread ⊢
  unfold scalar?
  split
  · next heq => exact absurd (List.cons.inj heq).1 (hother 'n' rfl (by decide))
  · next heq => exact absurd (List.cons.inj heq).1 (hother 't' rfl (by decide))
  · next heq => exact absurd (List.cons.inj heq).1 (hother 'f' rfl (by decide))
  · next heq => exact absurd (List.cons.inj heq).1 (hother '"' rfl (by decide))
  · simp only [hread, number?_of_inWord h, Option.bind_eq_bind, Option.bind_some, Option.pure_def]

/-- A part that starts with neither a blank nor the closing mark. -/
def Opens (close : Char) (part : List Char) : Prop :=
  ∃ c cs, part = c :: cs ∧ isBlank c = false ∧ c ≠ close

theorem skipBlanks_cons {c : Char} (h : isBlank c = false) (rest : List Char) :
    skipBlanks (c :: rest) = c :: rest := by
  rw [skipBlanks, List.dropWhile_cons, h, if_neg Bool.false_ne_true]

/-- An integer begins like no other value, and with no mark. -/
theorem opens_writeInteger (value : Int) : ∃ c cs, writeInteger value = c :: cs ∧
    isBlank c = false ∧ c ≠ ']' ∧ c ≠ '[' ∧ c ≠ '\x7b' := by
  obtain ⟨c, cs, hc, hhead⟩ := head_writeInteger value
  refine ⟨c, cs, hc, ?_⟩
  rcases hhead with ⟨rfl, -⟩ | hdigit
  · decide
  · have hother : ∀ other : Char, other.isDigit = false → c ≠ other := by
      rintro other hnone rfl
      cases hnone.symm.trans hdigit
    have hblank : ¬ (c = ' ' ∨ c = '\n' ∨ c = '\t' ∨ c = '\r') := by
      rintro (rfl | rfl | rfl | rfl) <;> cases hdigit
    exact ⟨decide_eq_false hblank, hother _ rfl, hother _ rfl, hother _ rfl⟩

theorem exists_separate_cons (part : List Char) (parts : List (List Char)) :
    ∃ tail, separate (part :: parts) = part ++ tail := by
  cases parts with
  | nil => exact ⟨[], (List.append_nil part).symm⟩
  | cons other more => exact ⟨',' :: separate (other :: more), rfl⟩

theorem length_le_separate {parts : List (List Char)} (h : ∀ part ∈ parts, part ≠ []) :
    parts.length ≤ (separate parts).length := by
  induction parts with
  | nil => exact Nat.le_refl _
  | cons part parts ih =>
    have hpart : 0 < part.length := List.length_pos_iff.mpr (h part List.mem_cons_self)
    cases parts with
    | nil => exact hpart
    | cons other more =>
      have hmore := ih fun part hm => h part (List.mem_cons_of_mem _ hm)
      simp only [separate, List.length_append, List.length_cons] at hmore ⊢
      omega

section

variable {α : Type} {close : Char} {part? : List Char → Option (α × List Char)}
  {write : α → List Char} {items : List α}

/-- Each part reads back what was written, as long as a comma or the closing mark follows. -/
def ReadsBack (close : Char) (part? : List Char → Option (α × List Char))
    (write : α → List Char) (items : List α) : Prop :=
  ∀ item ∈ items, ∀ mark rest, mark = ',' ∨ mark = close →
    part? (write item ++ mark :: rest) = some (item, mark :: rest)

theorem parts?_separate (hclose : isBlank close = false ∧ close ≠ ',')
    (hread : ReadsBack close part? write items) (hne : items ≠ []) {count : Nat}
    (hcount : items.length ≤ count) (rest : List Char) :
    parts? close part? count (separate (items.map write) ++ close :: rest) =
      some (items, rest) := by
  induction items generalizing count with
  | nil => exact absurd rfl hne
  | cons item items ih =>
    obtain ⟨count, rfl⟩ : ∃ n, count = n + 1 := by
      cases count with
      | zero => cases hcount
      | succ n => exact ⟨n, rfl⟩
    have hfirst := hread item List.mem_cons_self
    cases items with
    | nil =>
      simp [separate, parts?, hfirst close rest (.inr rfl), skipBlanks_cons hclose.1, hclose.2]
    | cons other more =>
      have hmore := ih (fun item hm => hread item (List.mem_cons_of_mem _ hm)) (by simp)
        (Nat.le_of_succ_le_succ hcount)
      have hcomma : isBlank ',' = false := rfl
      simp only [List.map_cons, separate, List.append_assoc, List.cons_append, parts?,
        hfirst ',' _ (.inl rfl), Option.bind_eq_bind, Option.bind_some, skipBlanks_cons hcomma]
      rw [← List.map_cons, hmore]
      rfl

theorem sequence?_separate (hclose : isBlank close = false ∧ close ≠ ',')
    (hread : ReadsBack close part? write items) (hopens : ∀ item ∈ items, Opens close (write item))
    (rest : List Char) :
    sequence? close part? (separate (items.map write) ++ close :: rest) = some (items, rest) := by
  cases items with
  | nil =>
    rw [List.map_nil, separate, List.nil_append, sequence?, skipBlanks_cons hclose.1]
    simp
  | cons item items =>
    obtain ⟨c, cs, hc, hblank, hne⟩ := hopens item List.mem_cons_self
    obtain ⟨tail, htail⟩ := exists_separate_cons (write item) (items.map write)
    have hstart : separate ((item :: items).map write) ++ close :: rest =
        c :: (cs ++ tail ++ close :: rest) := by
      rw [List.map_cons, htail, hc]
      rfl
    have hlong : (item :: items).length ≤
        (separate ((item :: items).map write) ++ close :: rest).length + 1 := by
      have hparts : ∀ part ∈ (item :: items).map write, part ≠ [] := by
        intro part hm
        obtain ⟨other, hother, rfl⟩ := List.mem_map.mp hm
        obtain ⟨c, cs, hc, -⟩ := hopens other hother
        rw [hc]
        exact List.cons_ne_nil c cs
      have hle := length_le_separate hparts
      rw [List.length_map] at hle
      rw [List.length_append]
      omega
    have hparts := parts?_separate hclose hread (List.cons_ne_nil _ _) hlong rest
    rw [hstart] at hparts ⊢
    rw [sequence?, skipBlanks_cons hblank]
    simp only [if_neg hne, hparts]

end

/-- A value whose numbers are integers of a word, with containers up to a depth. -/
inductive Exact : Nat → Json → Prop
  | null {depth} : Exact depth .null
  | boolean {depth} (value : Bool) : Exact depth (.boolean value)
  | integer {depth value} (h : inWord value = true) : Exact depth (.number (.integer value))
  | string {depth} (text : String) : Exact depth (.string text)
  | array {depth items} (h : ∀ item ∈ items, Exact depth item) : Exact (depth + 1) (.array items)
  | object {depth members} (h : ∀ member ∈ members, Exact depth member.2) :
      Exact (depth + 1) (.object members)

def writeMember (member : String × Json) : List Char :=
  writeString member.1 ++ ':' :: member.2.write

theorem writeItems_eq (items : List Json) : writeItems items = items.map write := by
  induction items with
  | nil => rfl
  | cons item items ih => rw [writeItems, ih, List.map_cons]

theorem writeMembers_eq (members : List (String × Json)) :
    writeMembers members = members.map writeMember := by
  induction members with
  | nil => rfl
  | cons member members ih => rw [writeMembers, ih, List.map_cons, writeMember]

theorem Exact.opens {depth : Nat} {value : Json} (h : Exact depth value) :
    Opens ']' value.write := by
  cases h with
  | null => exact ⟨_, _, rfl, rfl, by decide⟩
  | boolean value => cases value <;> exact ⟨_, _, rfl, rfl, by decide⟩
  | string text => exact ⟨_, _, rfl, rfl, by decide⟩
  | array => exact ⟨_, _, rfl, rfl, by decide⟩
  | object => exact ⟨_, _, rfl, rfl, by decide⟩
  | @integer _ value =>
    obtain ⟨c, cs, hc, hblank, hclose, -⟩ := opens_writeInteger value
    exact ⟨c, cs, hc, hblank, hclose⟩

theorem opens_writeMember (member : String × Json) : Opens '\x7d' (writeMember member) :=
  ⟨_, _, rfl, rfl, by decide⟩

theorem value?_scalar {c : Char} (hblank : isBlank c = false) (h : c ≠ '[' ∧ c ≠ '\x7b')
    (depth : Nat) (rest : List Char) : value? depth (c :: rest) = scalar? (c :: rest) := by
  cases depth with
  | zero =>
    rw [value?, skipBlanks_cons hblank]
    simp [h.1, h.2]
  | succ depth =>
    rw [value?, skipBlanks_cons hblank]
    simp [h.1, h.2]

theorem namedValue?_writeMember {value? : List Char → Option (Json × List Char)}
    {member : String × Json} {rest : List Char}
    (h : value? (member.2.write ++ rest) = some (member.2, rest)) :
    namedValue? value? (writeMember member ++ rest) = some (member, rest) := by
  have hquote : ∃ cs, writeMember member ++ rest = '"' :: cs := ⟨_, rfl⟩
  obtain ⟨cs, hcs⟩ := hquote
  have hblank : isBlank '"' = false ∧ isBlank ':' = false := ⟨rfl, rfl⟩
  have hname := string?_writeString member.1 (':' :: member.2.write ++ rest)
  have htext : writeMember member ++ rest =
      writeString member.1 ++ (':' :: member.2.write ++ rest) := by
    rw [writeMember, List.append_assoc]
  rw [namedValue?, hcs, skipBlanks_cons hblank.1, ← hcs, htext, hname]
  simp only [Option.bind_eq_bind, Option.bind_some, List.cons_append, skipBlanks_cons hblank.2, h,
    Option.pure_def]

theorem Exact.value?_write {depth : Nat} {value : Json} (h : Exact depth value)
    {rest : List Char} (hr : Stops goesOn rest) :
    value? depth (value.write ++ rest) = some (value, rest) := by
  have hmark : ∀ close mark : Char, close = ']' ∨ close = '\x7d' → mark = ',' ∨ mark = close →
      ∀ rest, Stops goesOn (mark :: rest) := by
    rintro close mark (rfl | rfl) (rfl | rfl) rest <;> exact stops_cons rfl
  induction h generalizing rest with
  | null => exact value?_scalar rfl (by decide) _ _
  | boolean value =>
    cases value with
    | false => exact value?_scalar rfl (by decide) _ _
    | true => exact value?_scalar rfl (by decide) _ _
  | @integer depth value hword =>
    have hscalar := scalar?_writeInteger hword hr
    obtain ⟨c, cs, hc, hblank, -, hopening⟩ := opens_writeInteger value
    rw [write, writeNumber, hc, List.cons_append, value?_scalar hblank hopening,
      ← List.cons_append, ← hc, hscalar]
  | string text =>
    have hread : scalar? (writeString text ++ rest) = some (.string text, rest) := by
      have hstring := string?_writeString text rest
      rw [writeString, List.cons_append] at hstring ⊢
      simp only [quote] at hstring ⊢
      rw [scalar?, hstring]
      rfl
    exact (value?_scalar rfl (by decide) _ _).trans hread
  | @array depth items hitems ih =>
    have hread : ReadsBack ']' (value? depth) write items := fun item hm mark rest hmark' =>
      ih item hm (hmark _ _ (.inl rfl) hmark' rest)
    have hparts := sequence?_separate (by decide) hread (fun item hm => (hitems item hm).opens) rest
    have hblank : isBlank '[' = false := rfl
    rw [write, writeItems_eq, List.cons_append, List.append_assoc, value?, skipBlanks_cons hblank]
    simp only [List.singleton_append, hparts, Option.map_some]
  | @object depth members hmembers ih =>
    have hread : ReadsBack '\x7d' (namedValue? (value? depth)) writeMember members :=
      fun member hm mark rest hmark' =>
        namedValue?_writeMember (ih member hm (hmark _ _ (.inr rfl) hmark' rest))
    have hparts := sequence?_separate (by decide) hread
      (fun member _ => opens_writeMember member) rest
    have hblank : isBlank '\x7b' = false := rfl
    rw [write, writeMembers_eq, List.cons_append, List.append_assoc, value?, skipBlanks_cons hblank]
    simp only [List.singleton_append, hparts, Option.map_some]

theorem parse?_render {value : Json} (h : Exact maxDepth value) :
    parse? value.render = some value := by
  have hread := h.value?_write stops_nil
  rw [List.append_nil] at hread
  rw [parse?, render, String.toList_ofList, hread]
  rfl

def NoCodes (text : List Char) : Prop := ∀ c ∈ text, 32 ≤ c.toNat

theorem noCodes_of_all {text : List Char} (h : text.all (fun c => 32 ≤ c.toNat) = true) :
    NoCodes text := fun c hc => of_decide_eq_true (List.all_eq_true.mp h c hc)

theorem noCodes_append {front back : List Char} (hf : NoCodes front) (hb : NoCodes back) :
    NoCodes (front ++ back) := fun c hc => (List.mem_append.mp hc).elim (hf c) (hb c)

theorem noCodes_cons {c : Char} {text : List Char} (hc : 32 ≤ c.toNat) (h : NoCodes text) :
    NoCodes (c :: text) := List.forall_mem_cons.mpr ⟨hc, h⟩

theorem noCodes_separate {parts : List (List Char)} (h : ∀ part ∈ parts, NoCodes part) :
    NoCodes (separate parts) := by
  induction parts with
  | nil => exact fun c hc => nomatch hc
  | cons part parts ih =>
    have hpart := h part List.mem_cons_self
    cases parts with
    | nil => exact hpart
    | cons other more =>
      have hmore := ih fun part hm => h part (List.mem_cons_of_mem _ hm)
      exact noCodes_append hpart (noCodes_cons (by decide) hmore)

theorem noCodes_digits {base : Nat} (hb : 1 < base) (hle : base ≤ 16) (n : Nat) :
    NoCodes (Nat.toDigits base n) := by
  intro c hc
  obtain ⟨d, hd, rfl⟩ := Decimal.mem_toDigits hb hc
  have hall : ∀ d < 16, 32 ≤ (Nat.digitChar d).toNat := by decide
  exact hall d (Nat.lt_of_lt_of_le hd hle)

theorem noCodes_escapeChar (c : Char) : NoCodes (escapeChar c) := by
  have hdigit : ∀ d < 16, 32 ≤ (Nat.digitChar d).toNat := by decide
  have hnil : NoCodes [] := noCodes_of_all rfl
  unfold escapeChar
  split
  · next letter hletter =>
    have hall : shortEscapes.all (fun pair => 32 ≤ pair.2.toNat) = true := rfl
    have hplain := of_decide_eq_true (of_lookup hall hletter)
    exact noCodes_cons (by decide) (noCodes_cons hplain hnil)
  · by_cases hcode : c.toNat < 32
    · rw [if_pos hcode]
      have hhigh := hdigit (c.toNat / 16) (by omega)
      have hlow := hdigit (c.toNat % 16) (by omega)
      have hmark : NoCodes [escapeMark, 'u', '0', '0'] := noCodes_of_all rfl
      exact noCodes_append hmark (noCodes_cons hhigh (noCodes_cons hlow hnil))
    · rw [if_neg hcode]
      exact noCodes_cons (Nat.le_of_not_lt hcode) hnil

theorem noCodes_writeString (s : String) : NoCodes (writeString s) := by
  refine noCodes_cons (by decide) (noCodes_append ?_ (noCodes_of_all rfl))
  intro c hc
  obtain ⟨other, -, hother⟩ := List.mem_flatMap.mp hc
  exact noCodes_escapeChar other c hother

theorem noCodes_writeInteger (value : Int) : NoCodes (writeInteger value) := by
  have hdigits : NoCodes (Decimal.render value.natAbs).toList := by
    rw [Decimal.render, String.toList_ofList]
    exact noCodes_digits (by decide) (by decide) _
  unfold writeInteger
  split
  · exact noCodes_cons (by decide) hdigits
  · exact hdigits

theorem Exact.noCodes {depth : Nat} {value : Json} (h : Exact depth value) :
    NoCodes value.write := by
  induction h with
  | null => exact noCodes_of_all rfl
  | boolean value => cases value <;> exact noCodes_of_all rfl
  | integer h => exact noCodes_writeInteger _
  | string text => exact noCodes_writeString text
  | @array depth items hitems ih =>
    rw [write, writeItems_eq]
    refine noCodes_cons (by decide) (noCodes_append (noCodes_separate fun part hm => ?_)
      (noCodes_of_all rfl))
    obtain ⟨item, hitem, rfl⟩ := List.mem_map.mp hm
    exact ih item hitem
  | @object depth members hmembers ih =>
    rw [write, writeMembers_eq]
    refine noCodes_cons (by decide) (noCodes_append (noCodes_separate fun part hm => ?_)
      (noCodes_of_all rfl))
    obtain ⟨member, hmember, rfl⟩ := List.mem_map.mp hm
    exact noCodes_append (noCodes_writeString _) (noCodes_cons (by decide) (ih member hmember))

end TftpReceiver.Json
