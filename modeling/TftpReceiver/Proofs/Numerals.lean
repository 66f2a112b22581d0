import TftpReceiver.Text.Decimal

/-! Decimal numerals: which texts are read as a number, and that no text of a number is longer
than any other text of a number that is at least as large. Digits of any base lead back to their
number, and a run of characters is taken from the front of a text just as far as it goes. These
are what the readers of all formats share. -/

namespace TftpReceiver

namespace Text

/-- The text does not go on with such a character. -/
def Stops (p : Char → Bool) (text : List Char) : Prop := ∀ c ∈ text.head?, p c = false

variable {p : Char → Bool} {run rest : List Char}

theorem stops_nil : Stops p [] := fun _ h => nomatch h

theorem stops_cons {c : Char} (h : p c = false) : Stops p (c :: rest) := by
  intro other hm
  obtain rfl := Option.some.inj hm
  exact h

theorem takeWhile_of_stops (h : Stops p rest) : rest.takeWhile p = [] := by
  cases rest with
  | nil => rfl
  | cons c rest => rw [List.takeWhile_cons, h c rfl, if_neg Bool.false_ne_true]

theorem dropWhile_of_stops (h : Stops p rest) : rest.dropWhile p = rest := by
  cases rest with
  | nil => rfl
  | cons c rest => rw [List.dropWhile_cons, h c rfl, if_neg Bool.false_ne_true]

theorem takeWhile_run (hrun : ∀ c ∈ run, p c = true) (hstop : Stops p rest) :
    (run ++ rest).takeWhile p = run := by
  rw [List.takeWhile_append_of_pos hrun, takeWhile_of_stops hstop, List.append_nil]

theorem dropWhile_run (hrun : ∀ c ∈ run, p c = true) (hstop : Stops p rest) :
    (run ++ rest).dropWhile p = rest := by
  rw [List.dropWhile_append_of_pos hrun, dropWhile_of_stops hstop]

/-- What holds of all pairs of a table holds of the one that is found. -/
theorem of_lookup {α β : Type} [BEq α] [LawfulBEq α] {table : List (α × β)} {q : α × β → Bool}
    (hall : table.all q = true) {a : α} {b : β} (h : table.lookup a = some b) :
    q (a, b) = true := by
  obtain ⟨front, back, hsplit, -⟩ := List.lookup_eq_some_iff.mp h
  refine List.all_eq_true.mp hall _ ?_
  rw [hsplit]
  exact List.mem_append_right _ List.mem_cons_self

end Text

namespace Decimal

variable {base : Nat}

theorem mem_toDigits {n : Nat} {c : Char} (hb : 1 < base) (h : c ∈ Nat.toDigits base n) :
    ∃ d < base, c = Nat.digitChar d := by
  induction n using Nat.strongRecOn with
  | ind n ih =>
    by_cases hn : n < base
    · rw [Nat.toDigits_of_lt_base hn, List.mem_singleton] at h
      exact ⟨n, hn, h⟩
    · rw [Nat.toDigits_of_base_le hb (Nat.le_of_not_lt hn), List.mem_append,
        List.mem_singleton] at h
      rcases h with h | h
      · exact ih (n / base) (Nat.div_lt_self (by omega) hb) h
      · exact ⟨n % base, Nat.mod_lt _ (by omega), h⟩

theorem exists_first_digit (n : Nat) :
    ∃ d < 10, ∃ digits, Nat.toDigits 10 n = Nat.digitChar d :: digits := by
  cases hdigits : Nat.toDigits 10 n with
  | nil => exact absurd hdigits Nat.toDigits_ne_nil
  | cons c digits =>
    have hm : c ∈ Nat.toDigits 10 n := by
      rw [hdigits]
      exact List.mem_cons_self
    obtain ⟨d, hd, rfl⟩ := mem_toDigits (by decide) hm
    exact ⟨d, hd, digits, rfl⟩

/-- Digits that are read from the left lead back to the number. -/
theorem foldl_toDigits {value : Char → Nat} (hb : 1 < base)
    (hv : ∀ d < base, value (Nat.digitChar d) = d) (n : Nat) :
    (Nat.toDigits base n).foldl (fun m c => m * base + value c) 0 = n := by
  induction n using Nat.strongRecOn with
  | ind n ih =>
    by_cases hn : n < base
    · rw [Nat.toDigits_of_lt_base hn, List.foldl_cons, List.foldl_nil, hv n hn]
      omega
    · have hlt : n / base < n := Nat.div_lt_self (by omega) hb
      have hdigit : n % base < base := Nat.mod_lt _ (by omega)
      rw [Nat.toDigits_of_base_le hb (Nat.le_of_not_lt hn), List.foldl_append, ih _ hlt,
        List.foldl_cons, List.foldl_nil, hv _ hdigit]
      exact Nat.div_add_mod' n base

/-- Only the number zero is written with a zero in front. -/
theorem eq_zero_of_head_toDigits {n : Nat} (hb : 1 < base)
    (h : (Nat.toDigits base n).head? = some '0') : n = 0 := by
  induction n using Nat.strongRecOn with
  | ind n ih =>
    by_cases hn : n < base
    · rw [Nat.toDigits_of_lt_base hn, List.head?_cons, Option.some.injEq,
        Nat.digitChar_eq_zero] at h
      exact h
    · have hlt : n / base < n := Nat.div_lt_self (by omega) hb
      have hpos : 0 < n / base := Nat.div_pos (Nat.le_of_not_lt hn) (by omega)
      rw [Nat.toDigits_of_base_le hb (Nat.le_of_not_lt hn), List.head?_append,
        List.head?_eq_some_head Nat.toDigits_ne_nil, Option.some_or,
        ← List.head?_eq_some_head Nat.toDigits_ne_nil] at h
      have hzero := ih _ hlt h
      omega

/-- No zero stands in front of other digits. -/
theorem no_leading_zero (hb : 1 < base) (n : Nat) :
    (Nat.toDigits base n).head? = some '0' → (Nat.toDigits base n).length = 1 := by
  intro hzero
  rw [eq_zero_of_head_toDigits hb hzero, Nat.toDigits_of_lt_base (Nat.lt_trans Nat.zero_lt_one hb)]
  rfl

theorem render_eq_toString (n : Nat) : render n = toString n :=
  Nat.toString_eq_ofList_toDigits.symm

theorem digits?_eq_some_iff {cs : List Char} {n : Nat} :
    digits? cs = some n ↔
      (cs ≠ [] ∧ ∀ c ∈ cs, c.isDigit = true) ∧ Nat.ofDigitChars 10 cs 0 = n := by
  simp only [digits?, Option.ite_none_right_eq_some, List.all_eq_true, Option.some.injEq]

/-- A numeral is a number of digits, at least one, with at most one plus sign before them. -/
theorem parse?_eq_some_iff {limit n : Nat} {text : String} :
    parse? limit text = some n ↔
      ∃ digits, (text.toList = digits ∨ text.toList = '+' :: digits) ∧ digits ≠ [] ∧
        (∀ c ∈ digits, c.isDigit = true) ∧ Nat.ofDigitChars 10 digits 0 = n ∧ n ≤ limit := by
  simp only [parse?, Option.filter_eq_some_iff, decide_eq_true_eq]
  constructor
  · rintro ⟨h, hn⟩
    split at h
    · next digits hsigned =>
      obtain ⟨⟨hne, hall⟩, hvalue⟩ := digits?_eq_some_iff.mp h
      exact ⟨digits, .inr hsigned, hne, hall, hvalue, hn⟩
    · obtain ⟨⟨hne, hall⟩, hvalue⟩ := digits?_eq_some_iff.mp h
      exact ⟨_, .inl rfl, hne, hall, hvalue, hn⟩
  · rintro ⟨digits, htext, hne, hall, hvalue, hn⟩
    refine ⟨?_, hn⟩
    have hdigits := digits?_eq_some_iff.mpr ⟨⟨hne, hall⟩, hvalue⟩
    rcases htext with htext | htext
    · rw [htext]
      split
      · next rest =>
        exact absurd (hall '+' List.mem_cons_self) (by decide)
      · exact hdigits
    · rw [htext]
      exact hdigits

theorem parse?_render {limit n : Nat} (h : n ≤ limit) : parse? limit (render n) = some n := by
  have hdigits : ∀ c ∈ Nat.toDigits 10 n, c.isDigit = true := fun c hc =>
    Nat.isDigit_of_mem_toDigits (by decide) (by decide) hc
  exact parse?_eq_some_iff.mpr
    ⟨_, .inl String.toList_ofList, Nat.toDigits_ne_nil, hdigits, Nat.ofDigitChars_ten_toDigits, h⟩

theorem toNat_lt_of_isDigit {c : Char} (h : c.isDigit = true) : c.toNat < 58 := by
  simp only [Char.isDigit, Bool.and_eq_true, decide_eq_true_eq] at h
  exact Nat.lt_succ_of_le h.2

theorem ofDigitChars_lt {cs : List Char} (h : ∀ c ∈ cs, c.isDigit = true) :
    Nat.ofDigitChars 10 cs 0 < Nat.pow 10 cs.length := by
  induction cs with
  | nil => simp
  | cons c cs ih =>
    have hc := toNat_lt_of_isDigit (h c List.mem_cons_self)
    have hrest := ih fun c hc => h c (List.mem_cons_of_mem _ hc)
    rw [Nat.pow_eq] at hrest
    rw [Nat.ofDigitChars_cons, Nat.ofDigitChars_eq_ofDigitChars_zero, List.length_cons,
      Nat.pow_eq, Nat.pow_succ, Nat.mul_zero, Nat.zero_add]
    have hdigit : c.toNat - '0'.toNat ≤ 9 := by
      have hzero : '0'.toNat = 48 := rfl
      omega
    have hle := Nat.mul_le_mul_left (10 ^ cs.length) hdigit
    omega

theorem ascii_of_parse? {limit n : Nat} {text : String} (h : parse? limit text = some n) :
    ∀ c ∈ text.toList, c.toNat < 128 := by
  obtain ⟨digits, htext, -, hall, -⟩ := parse?_eq_some_iff.mp h
  have hdigits : ∀ c ∈ digits, c.toNat < 128 := fun c hc =>
    Nat.lt_trans (toNat_lt_of_isDigit (hall c hc)) (by decide)
  rcases htext with htext | htext
  · rwa [htext]
  · rw [htext]
    exact List.forall_mem_cons.mpr ⟨by decide, hdigits⟩

theorem length_render_le {limit n m : Nat} {text : String} (h : parse? limit text = some n)
    (hm : m ≤ n) : (render m).toList.length ≤ text.toList.length := by
  obtain ⟨digits, htext, hne, hall, rfl, -⟩ := parse?_eq_some_iff.mp h
  have hlt := Nat.lt_of_le_of_lt hm (ofDigitChars_lt hall)
  have hdigits : (Nat.toDigits 10 m).length ≤ digits.length :=
    (Nat.length_toDigits_le_iff (by decide) (List.length_pos_iff.mpr hne)).mpr hlt
  rw [render, String.toList_ofList]
  rcases htext with htext | htext
  · rwa [htext]
  · rw [htext, List.length_cons]
    omega

end Decimal

end TftpReceiver
