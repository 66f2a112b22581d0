import TftpReceiver.Glob

/-! Which names a pattern stands for. -/

namespace TftpReceiver.Glob

/-- Wildcards and sets stay within a component; directories end at a slash, or take all that is
left of the name. -/
inductive Matches : List Token → List Char → Prop
  | done : Matches [] []
  | char {c rest cs} (h : Matches rest cs) : Matches (.char c :: rest) (c :: cs)
  | anyChar {c rest cs} (hc : c ≠ '/') (h : Matches rest cs) :
      Matches (.anyChar :: rest) (c :: cs)
  | oneOf {ranges c rest cs} (hc : c ≠ '/') (hr : ∃ range ∈ ranges, range.holds c = true)
      (h : Matches rest cs) : Matches (.oneOf ranges :: rest) (c :: cs)
  | noneOf {ranges c rest cs} (hc : c ≠ '/') (hr : ∀ range ∈ ranges, range.holds c = false)
      (h : Matches rest cs) : Matches (.noneOf ranges :: rest) (c :: cs)
  | anySequence {part rest cs} (hp : '/' ∉ part) (h : Matches rest cs) :
      Matches (.anySequence :: rest) (part ++ cs)
  | anyDirectories {part rest cs} (hp : part = [] ∨ part.getLast? = some '/' ∨ cs = [])
      (h : Matches rest cs) : Matches (.anyDirectories :: rest) (part ++ cs)

variable {next : List Char → Bool} {cs : List Char}

theorem withinComponent_iff : withinComponent next cs = true ↔
    ∃ part rest, cs = part ++ rest ∧ '/' ∉ part ∧ next rest = true := by
  induction cs with
  | nil =>
    simp only [withinComponent, List.nil_eq, List.append_eq_nil_iff]
    constructor
    · intro h
      exact ⟨[], [], ⟨rfl, rfl⟩, by simp, h⟩
    · rintro ⟨part, rest, ⟨-, rfl⟩, -, h⟩
      exact h
  | cons c cs ih =>
    simp only [withinComponent, Bool.or_eq_true, Bool.and_eq_true, bne_iff_ne, ih]
    constructor
    · rintro (h | ⟨hc, part, rest, rfl, hp, h⟩)
      · exact ⟨[], c :: cs, rfl, by simp, h⟩
      · exact ⟨c :: part, rest, rfl, List.not_mem_cons_of_ne_of_not_mem (Ne.symm hc) hp, h⟩
    · rintro ⟨part, rest, he, hp, h⟩
      cases part with
      | nil =>
        obtain rfl : c :: cs = rest := he
        exact .inl h
      | cons d part =>
        obtain ⟨rfl, rfl⟩ := List.cons.inj he
        obtain ⟨hc, hpart⟩ := List.ne_and_not_mem_of_not_mem_cons hp
        exact .inr ⟨Ne.symm hc, part, rest, rfl, hpart, h⟩

theorem afterSlash_iff : afterSlash next cs = true ↔
    ∃ part rest, cs = part ++ rest ∧ (part.getLast? = some '/' ∨ rest = []) ∧
      next rest = true := by
  induction cs with
  | nil =>
    simp only [afterSlash, List.nil_eq, List.append_eq_nil_iff]
    constructor
    · intro h
      exact ⟨[], [], ⟨rfl, rfl⟩, .inr rfl, h⟩
    · rintro ⟨part, rest, ⟨-, rfl⟩, -, h⟩
      exact h
  | cons c cs ih =>
    simp only [afterSlash, Bool.or_eq_true, Bool.and_eq_true, beq_iff_eq, ih]
    constructor
    · rintro (⟨rfl, h⟩ | ⟨part, rest, rfl, hp, h⟩)
      · exact ⟨['/'], cs, rfl, .inl rfl, h⟩
      · refine ⟨c :: part, rest, rfl, hp.imp_left fun hp => ?_, h⟩
        simp [List.getLast?_cons, hp]
    · rintro ⟨part, rest, he, hp, h⟩
      cases part with
      | nil =>
        obtain rfl : c :: cs = rest := he
        simp at hp
      | cons d part =>
        obtain ⟨rfl, rfl⟩ := List.cons.inj he
        rcases hp with hp | rfl
        · cases part with
          | nil =>
            obtain rfl : c = '/' := by simpa using hp
            exact .inl ⟨rfl, h⟩
          | cons d part =>
            rw [List.getLast?_cons_cons] at hp
            exact .inr ⟨_, rest, rfl, .inl hp, h⟩
        · exact .inr ⟨part, [], rfl, .inr rfl, h⟩

theorem matches_of_matchesTokens {tokens : List Token} (h : matchesTokens tokens cs = true) :
    Matches tokens cs := by
  induction tokens generalizing cs with
  | nil =>
    obtain rfl : cs = [] := List.isEmpty_iff.mp h
    exact .done
  | cons token rest ih =>
    cases token with
    | anySequence =>
      obtain ⟨part, tail, rfl, hp, hrest⟩ := withinComponent_iff.mp h
      exact .anySequence hp (ih hrest)
    | anyDirectories =>
      rw [matchesTokens, Bool.or_eq_true, afterSlash_iff] at h
      rcases h with h | ⟨part, tail, rfl, hp, hrest⟩
      · have hnone : Matches (.anyDirectories :: rest) ([] ++ cs) :=
          .anyDirectories (.inl rfl) (ih h)
        exact hnone
      · exact .anyDirectories (.inr hp) (ih hrest)
    | char c =>
      cases cs with
      | nil => cases h
      | cons d cs =>
        simp only [matchesTokens, Bool.and_eq_true, beq_iff_eq] at h
        obtain ⟨rfl, hrest⟩ := h
        exact .char (ih hrest)
    | anyChar =>
      cases cs with
      | nil => cases h
      | cons d cs =>
        simp only [matchesTokens, Bool.and_eq_true, bne_iff_ne] at h
        exact .anyChar h.1 (ih h.2)
    | oneOf ranges =>
      cases cs with
      | nil => cases h
      | cons d cs =>
        simp only [matchesTokens, Bool.and_eq_true, bne_iff_ne, List.any_eq_true] at h
        obtain ⟨⟨hd, hr⟩, hrest⟩ := h
        exact .oneOf hd hr (ih hrest)
    | noneOf ranges =>
      cases cs with
      | nil => cases h
      | cons d cs =>
        simp only [matchesTokens, Bool.and_eq_true, bne_iff_ne, Bool.not_eq_true',
          List.any_eq_false, Bool.not_eq_true] at h
        obtain ⟨⟨hd, hr⟩, hrest⟩ := h
        exact .noneOf hd hr (ih hrest)

/-- The matcher finds out just what a pattern stands for. -/
theorem matchesTokens_iff {tokens : List Token} :
    matchesTokens tokens cs = true ↔ Matches tokens cs := by
  refine ⟨matches_of_matchesTokens, fun h => ?_⟩
  induction h with
  | done => rfl
  | char _ ih => simp [matchesTokens, ih]
  | anyChar hc _ ih => simp [matchesTokens, hc, ih]
  | oneOf hc hr _ ih => simpa [matchesTokens, hc, ih] using hr
  | noneOf hc hr _ ih => simpa [matchesTokens, hc, ih] using hr
  | anySequence hp _ ih => exact withinComponent_iff.mpr ⟨_, _, rfl, hp, ih⟩
  | @anyDirectories part rest tail hp _ ih =>
    rw [matchesTokens, Bool.or_eq_true]
    rcases hp with rfl | hp
    · exact .inl ih
    · exact .inr (afterSlash_iff.mpr ⟨part, tail, rfl, hp, ih⟩)

end TftpReceiver.Glob
