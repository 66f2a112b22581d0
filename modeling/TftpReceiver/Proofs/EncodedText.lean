import TftpReceiver.Text.Utf8

/-! Text in UTF-8: what is written is read back, and a byte string that is read without a
malformed part is the written form of what was read. -/

namespace TftpReceiver.Utf8

theorem scan_append (front back : Bytes) : scan front.length (front ++ back) = scan 0 back := by
  induction front with
  | nil => rfl
  | cons a front ih => exact ih

theorem follow_cons {need low high value : Nat} {b : UInt8} (rest : Bytes)
    (hl : low ≤ b.toNat) (hh : b.toNat ≤ high) :
    follow (need + 1) low high value (b :: rest) =
      ((follow need 128 191 (value * 64 + (b.toNat - 128)) rest).1,
        (follow need 128 191 (value * 64 + (b.toNat - 128)) rest).2 + 1) := by
  simp [follow, hl, hh]

theorem follow_succ {need low high value n taken : Nat} {bytes : Bytes}
    (h : follow (need + 1) low high value bytes = (some n, taken)) :
    ∃ b rest taken', bytes = b :: rest ∧ low ≤ b.toNat ∧ b.toNat ≤ high ∧ taken = taken' + 1 ∧
      follow need 128 191 (value * 64 + (b.toNat - 128)) rest = (some n, taken') := by
  cases bytes with
  | nil => simp [follow] at h
  | cons b rest =>
    by_cases hb : low ≤ b.toNat ∧ b.toNat ≤ high
    · rw [follow_cons rest hb.1 hb.2] at h
      obtain ⟨hfound, rfl⟩ := Prod.mk.inj h
      exact ⟨b, rest, _, rfl, hb.1, hb.2, rfl, Prod.ext hfound rfl⟩
    · simp [follow, hb] at h

theorem tailByte_toNat (n : Nat) : (tailByte n).toNat = 128 + n % 64 := by
  have hlt : 128 + n % 64 < 256 := by omega
  simp [tailByte, Nat.mod_eq_of_lt hlt]

/-- The code points of characters leave out the surrogates. -/
theorem toNat_bounds (c : Char) : c.toNat < 55296 ∨ 57343 < c.toNat ∧ c.toNat < 1114112 :=
  c.valid

theorem lead_encodeChar (c : Char) (rest : Bytes) :
    ∃ a tail, encodeChar c = a :: tail ∧ lead a (tail ++ rest) = (some c.toNat, tail.length) := by
  have hc := toNat_bounds c
  unfold encodeChar
  generalize c.toNat = n at hc
  dsimp only
  split
  · next h1 =>
    have ha : (UInt8.ofNat n).toNat = n :=
      UInt8.toNat_ofNat_of_lt' (show n < 256 by omega)
    exact ⟨_, [], rfl, by rw [lead, ha, if_pos h1, List.length_nil]⟩
  split
  · next h1 h2 =>
    refine ⟨_, [tailByte n], rfl, ?_⟩
    have ha : (UInt8.ofNat (192 + n / 64)).toNat = 192 + n / 64 :=
      UInt8.toNat_ofNat_of_lt' (show 192 + n / 64 < 256 by omega)
    have ht := tailByte_toNat n
    rw [lead, ha, if_neg (by omega), if_neg (by omega), if_pos (by omega), List.singleton_append,
      follow_cons rest (by omega) (by omega)]
    simp only [follow, ht, List.length_singleton, Prod.mk.injEq, Option.some.injEq, and_true]
    omega
  split
  · next h1 h2 h3 =>
    refine ⟨_, [tailByte (n / 64), tailByte n], rfl, ?_⟩
    have ha : (UInt8.ofNat (224 + n / 4096)).toNat = 224 + n / 4096 :=
      UInt8.toNat_ofNat_of_lt' (show 224 + n / 4096 < 256 by omega)
    have hb := tailByte_toNat (n / 64)
    have ht := tailByte_toNat n
    rw [lead, ha, if_neg (by omega), if_neg (by omega), if_neg (by omega), if_pos (by omega),
      List.cons_append, follow_cons _ (by split <;> omega) (by split <;> omega),
      List.singleton_append, follow_cons rest (by omega) (by omega)]
    simp only [follow, hb, ht, List.length_cons, List.length_nil, Prod.mk.injEq, Option.some.injEq,
      and_true]
    omega
  · next h1 h2 h3 =>
    refine ⟨_, [tailByte (n / 4096), tailByte (n / 64), tailByte n], rfl, ?_⟩
    have ha : (UInt8.ofNat (240 + n / 262144)).toNat = 240 + n / 262144 :=
      UInt8.toNat_ofNat_of_lt' (show 240 + n / 262144 < 256 by omega)
    have hb := tailByte_toNat (n / 4096)
    have hm := tailByte_toNat (n / 64)
    have ht := tailByte_toNat n
    rw [lead, ha, if_neg (by omega), if_neg (by omega), if_neg (by omega), if_neg (by omega),
      if_pos (by omega), List.cons_append,
      follow_cons _ (by split <;> omega) (by split <;> omega), List.cons_append,
      follow_cons _ (by omega) (by omega), List.singleton_append,
      follow_cons rest (by omega) (by omega)]
    simp only [follow, hb, hm, ht, List.length_cons, List.length_nil, Prod.mk.injEq,
      Option.some.injEq, and_true]
    omega

theorem scan_encodeChar (c : Char) (rest : Bytes) :
    scan 0 (encodeChar c ++ rest) = some c :: scan 0 rest := by
  obtain ⟨a, tail, he, hl⟩ := lead_encodeChar c rest
  rw [he, List.cons_append, scan, hl]
  simp only [Option.map_some, Char.ofNat_toNat, scan_append]

theorem scan_encode (cs : List Char) (rest : Bytes) :
    scan 0 (cs.flatMap encodeChar ++ rest) = cs.map some ++ scan 0 rest := by
  induction cs with
  | nil => rfl
  | cons c cs ih => simp only [List.flatMap_cons, List.append_assoc, scan_encodeChar, ih,
      List.map_cons, List.cons_append]

theorem decode?_encode (text : String) : decode? (encode text) = some text := by
  have hscan := scan_encode text.toList []
  rw [List.append_nil, scan, List.append_nil] at hscan
  simp [decode?, encode, hscan]

theorem decodeLossy_encode (text : String) : decodeLossy (encode text) = text := by
  have hscan := scan_encode text.toList []
  rw [List.append_nil, scan, List.append_nil] at hscan
  simp [decodeLossy, encode, hscan, Function.comp_def]

theorem exists_char {n : Nat} (h : n < 55296 ∨ 57343 < n ∧ n < 1114112) :
    ∃ c : Char, c.toNat = n :=
  ⟨Char.ofNatAux n h, rfl⟩

theorem ofNat_eq_of_toNat {a : UInt8} {n : Nat} (h : n = a.toNat) : UInt8.ofNat n = a := by
  simp [h]

theorem tailByte_eq {b : UInt8} {n : Nat} (hl : 128 ≤ b.toNat) (h : n % 64 = b.toNat - 128) :
    tailByte n = b :=
  ofNat_eq_of_toNat (by omega)

/-- A character that is found takes up its written form and nothing else. -/
theorem encodeChar_of_lead {a : UInt8} {rest : Bytes} {n taken : Nat}
    (h : lead a rest = (some n, taken)) :
    ∃ c tail more, c.toNat = n ∧ rest = tail ++ more ∧ tail.length = taken ∧
      encodeChar c = a :: tail := by
  unfold lead at h
  dsimp only at h
  split at h
  · next h1 =>
    obtain ⟨hn, rfl⟩ := Prod.mk.inj h
    obtain ⟨c, hc⟩ := exists_char (n := n) (by simp only [Option.some.injEq] at hn; omega)
    refine ⟨c, [], rest, hc, rfl, rfl, ?_⟩
    simp only [Option.some.injEq] at hn
    simp only [encodeChar, hc]
    rw [if_pos (by omega), ofNat_eq_of_toNat hn.symm]
  split at h
  · simp at h
  split at h
  · next h1 h2 h3 =>
    obtain ⟨b, more, k, rfl, hl, hh, rfl, hf⟩ := follow_succ h
    obtain ⟨hn, rfl⟩ := Prod.mk.inj hf
    simp only [Option.some.injEq] at hn
    obtain ⟨c, hc⟩ := exists_char (n := n) (by omega)
    refine ⟨c, [b], more, hc, rfl, rfl, ?_⟩
    simp only [encodeChar, hc]
    rw [if_neg (by omega), if_pos (by omega), ofNat_eq_of_toNat (a := a) (by omega),
      tailByte_eq hl (by omega)]
  split at h
  · next h1 h2 h3 h4 =>
    obtain ⟨b, rest, k, rfl, hl, hh, rfl, hf⟩ := follow_succ h
    obtain ⟨m, more, k, rfl, hml, hmh, rfl, hf'⟩ := follow_succ hf
    obtain ⟨hn, rfl⟩ := Prod.mk.inj hf'
    simp only [Option.some.injEq] at hn
    have hlow : 128 ≤ b.toNat := by split at hl <;> omega
    have hhigh : b.toNat ≤ 191 := by split at hh <;> omega
    have hlong : 2048 ≤ n := by split at hl <;> omega
    obtain ⟨c, hc⟩ := exists_char (n := n) (by split at hh <;> omega)
    refine ⟨c, [b, m], more, hc, rfl, rfl, ?_⟩
    simp only [encodeChar, hc]
    rw [if_neg (by omega), if_neg (by omega), if_pos (by omega),
      ofNat_eq_of_toNat (a := a) (by omega), tailByte_eq hlow (by omega),
      tailByte_eq hml (by omega)]
  split at h
  · next h1 h2 h3 h4 h5 =>
    obtain ⟨b, rest, k, rfl, hl, hh, rfl, hf⟩ := follow_succ h
    obtain ⟨m, rest, k, rfl, hml, hmh, rfl, hf'⟩ := follow_succ hf
    obtain ⟨e, more, k, rfl, hel, heh, rfl, hf''⟩ := follow_succ hf'
    obtain ⟨hn, rfl⟩ := Prod.mk.inj hf''
    simp only [Option.some.injEq] at hn
    have hlow : 128 ≤ b.toNat := by split at hl <;> omega
    have hhigh : b.toNat ≤ 191 := by split at hh <;> omega
    have hlong : 65536 ≤ n := by split at hl <;> omega
    obtain ⟨c, hc⟩ := exists_char (n := n) (by split at hh <;> omega)
    refine ⟨c, [b, m, e], more, hc, rfl, rfl, ?_⟩
    simp only [encodeChar, hc]
    rw [if_neg (by omega), if_neg (by omega), if_neg (by omega),
      ofNat_eq_of_toNat (a := a) (by omega), tailByte_eq hlow (by omega),
      tailByte_eq hml (by omega), tailByte_eq hel (by omega)]
  · simp at h

theorem encode_of_scan {bytes : Bytes} {cs : List Char} (h : scan 0 bytes = cs.map some) :
    cs.flatMap encodeChar = bytes := by
  induction cs generalizing bytes with
  | nil =>
    cases bytes with
    | nil => rfl
    | cons a rest => simp [scan] at h
  | cons c cs ih =>
    cases bytes with
    | nil => simp [scan] at h
    | cons a rest =>
      simp only [scan, List.map_cons, List.cons.injEq, Option.map_eq_some_iff] at h
      obtain ⟨⟨n, hn, rfl⟩, hrest⟩ := h
      have hlead : lead a rest = (some n, (lead a rest).2) := Prod.ext hn rfl
      obtain ⟨c, tail, more, rfl, hr, ht, he⟩ := encodeChar_of_lead hlead
      rw [← ht, hr, scan_append] at hrest
      rw [List.flatMap_cons, Char.ofNat_toNat, he, ih hrest, hr, List.cons_append]

/-- What is read without a malformed part is read as it is. -/
theorem scan_eq_some {found : List (Option Char)} (h : ∀ c ∈ found, c.isSome = true) :
    found = (found.filterMap id).map some := by
  induction found with
  | nil => rfl
  | cons c found ih =>
    obtain ⟨c, rfl⟩ := Option.isSome_iff_exists.mp (h c List.mem_cons_self)
    have hrest := ih fun c hc => h c (List.mem_cons_of_mem _ hc)
    rw [List.filterMap_cons_some (by rfl), List.map_cons, ← hrest]

theorem decode?_eq_some_iff {bytes : Bytes} {text : String} :
    decode? bytes = some text ↔ bytes = encode text := by
  constructor
  · intro h
    simp only [decode?, Option.ite_none_right_eq_some, List.all_eq_true, Option.some.injEq] at h
    obtain ⟨hall, rfl⟩ := h
    simpa [encode] using (encode_of_scan (scan_eq_some hall)).symm
  · rintro rfl
    exact decode?_encode text

/-- Plain letters, digits and signs are never what stands for a malformed part. -/
theorem encode_decodeLossy {bytes : Bytes}
    (h : ∀ c ∈ (decodeLossy bytes).toList, c.toNat < 128) :
    encode (decodeLossy bytes) = bytes := by
  have hall : ∀ c ∈ scan 0 bytes, c.isSome = true := by
    intro c hc
    cases c with
    | some c => rfl
    | none =>
      have hmem : replacement ∈ (decodeLossy bytes).toList := by
        simpa [decodeLossy] using ⟨none, hc, rfl⟩
      exact absurd (h _ hmem) (by decide)
  have hlossy : decodeLossy bytes = String.ofList ((scan 0 bytes).filterMap id) := by
    rw [decodeLossy, scan_eq_some hall]
    simp [Function.comp_def]
  simpa [hlossy, encode] using encode_of_scan (scan_eq_some hall)

theorem encodeChar_ascii {c : Char} (h : c.toNat < 128) : encodeChar c = [UInt8.ofNat c.toNat] := by
  simp [encodeChar, h]

theorem length_encode_ascii {text : String} (h : ∀ c ∈ text.toList, c.toNat < 128) :
    (encode text).length = text.toList.length := by
  rw [encode, List.length_flatMap]
  have hone : ∀ c ∈ text.toList, (encodeChar c).length = 1 := fun c hc => by
    rw [encodeChar_ascii (h c hc), List.length_singleton]
  rw [List.map_congr_left hone, List.map_const', List.sum_replicate_nat, Nat.mul_one]

theorem zero_mem_encodeChar (c : Char) : 0 ∈ encodeChar c ↔ c = '\x00' := by
  have hc := toNat_bounds c
  have hzero : c = '\x00' ↔ c.toNat = 0 := by rw [← Char.toNat_inj]; rfl
  have hbyte : ∀ n, n < 256 → ((0 : UInt8) = UInt8.ofNat n ↔ n = 0) := fun n hn => by
    rw [← UInt8.toNat_inj, UInt8.toNat_ofNat_of_lt' hn]
    exact eq_comm
  have htail : ∀ n, (0 : UInt8) ≠ tailByte n := fun n h => by
    have hn : 0 = (tailByte n).toNat := congrArg UInt8.toNat h
    rw [tailByte_toNat] at hn
    omega
  rw [hzero, encodeChar]
  generalize c.toNat = n at hc
  split
  · next h => simp only [List.mem_singleton, hbyte n (by omega)]
  split
  · simp only [List.mem_cons, htail, hbyte (192 + n / 64) (by omega), List.not_mem_nil, or_false]
    omega
  split
  · simp only [List.mem_cons, htail, hbyte (224 + n / 4096) (by omega), List.not_mem_nil, or_false]
    omega
  · simp only [List.mem_cons, htail, hbyte (240 + n / 262144) (by omega), List.not_mem_nil,
      or_false]
    omega

theorem zero_mem_encode (text : String) : 0 ∈ encode text ↔ '\x00' ∈ text.toList := by
  simp [encode, zero_mem_encodeChar]

theorem encode_eq_nil {text : String} : encode text = [] ↔ text = "" := by
  constructor
  · intro h
    rw [← decodeLossy_encode text, h]
    rfl
  · rintro rfl
    rfl

end TftpReceiver.Utf8
