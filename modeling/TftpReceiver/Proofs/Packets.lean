import TftpReceiver.Packet

/-! Packets are read back as they were written, and every datagram is read in one of a few ways. -/

namespace TftpReceiver

theorem Bytes.word_ofWord (value : UInt16) :
    Bytes.word (UInt8.ofNat (value.toNat / 256)) (UInt8.ofNat (value.toNat % 256)) = value := by
  have hlt := value.toNat_lt
  have hhigh : value.toNat / 256 % 256 = value.toNat / 256 := Nat.mod_eq_of_lt (by omega)
  have he : value.toNat / 256 * 256 + value.toNat % 256 = value.toNat := by omega
  simp [Bytes.word, hhigh, he]

theorem Bytes.ofWord_word (high low : UInt8) :
    Bytes.ofWord (Bytes.word high low) = [high, low] := by
  have hh := high.toNat_lt
  have hl := low.toNat_lt
  have hword : (Bytes.word high low).toNat = high.toNat * 256 + low.toNat := by
    simp only [Bytes.word, UInt16.toNat_ofNat']
    omega
  have hhigh : (high.toNat * 256 + low.toNat) / 256 = high.toNat := by omega
  have hlow : (high.toNat * 256 + low.toNat) % 256 = low.toNat := by omega
  simp [Bytes.ofWord, hword, hhigh, hlow]

theorem Bytes.short_or_word (bytes : Bytes) :
    bytes.length < 2 ∨ ∃ value rest, bytes = Bytes.ofWord value ++ rest := by
  match bytes with
  | [] | [_] => simp
  | high :: low :: rest => exact .inr ⟨word high low, rest, by rw [ofWord_word]; rfl⟩

theorem Opcode.ofWord?_eq_some_iff {value : UInt16} {opcode : Opcode} :
    Opcode.ofWord? value = some opcode ↔ opcode.word = value := by
  constructor
  · intro h
    simpa using List.find?_some h
  · rintro rfl
    exact Opcode.ofWord?_word opcode

theorem Opcode.ofWord?_eq_none_iff {value : UInt16} :
    Opcode.ofWord? value = none ↔ value.toNat < 1 ∨ 6 < value.toNat := by
  simp only [ofWord?, all, List.find?_eq_none, decide_eq_true_eq, ← UInt16.toNat_inj]
  simp [word]
  omega

namespace Packet

theorem opcode?_word (opcode : Opcode) (body : Bytes) :
    opcode? (Bytes.ofWord opcode.word ++ body) = .ok (opcode, body) := by
  simp [Bytes.ofWord, opcode?, Bytes.word_ofWord, Opcode.ofWord?_word]

theorem numbered_word (size : Nat) (block : UInt16) (rest : Bytes) :
    numbered size (Bytes.ofWord block ++ rest) = .ok (block, rest) := by
  simp [Bytes.ofWord, numbered, Bytes.word_ofWord]

theorem decode_encodeData (block : UInt16) (payload : Bytes) :
    decode (encodeData block payload) = .ok (.data block payload) := by
  simp only [decode, encodeData, List.append_assoc, opcode?_word, numbered_word, bind, Except.bind,
    pure, Except.pure]

theorem length_encodeData (block : UInt16) (payload : Bytes) :
    (encodeData block payload).length = payload.length + headerSize := by
  have hheader : headerSize = 2 + 2 := rfl
  simp only [encodeData, List.length_append, Bytes.ofWord_length]
  omega

theorem decode_encodeAck_append (block : UInt16) (rest : Bytes) :
    decode (encodeAck block ++ rest) = .ok (.ack block) := by
  simp only [decode, encodeAck, List.append_assoc, opcode?_word, numbered_word, bind, Except.bind,
    pure, Except.pure]

theorem decode_request_append (direction : Direction) (body : Bytes) :
    decode (Bytes.ofWord (Opcode.request direction).word ++ body) = .ok (.request direction) := by
  simp only [decode, opcode?_word, bind, Except.bind, pure, Except.pure]

theorem decode_optionAck_append (body : Bytes) :
    decode (Bytes.ofWord Opcode.optionAck.word ++ body) = .ok .optionAck := by
  simp only [decode, opcode?_word, bind, Except.bind, pure, Except.pure]

theorem decode_error_append (code : UInt16) (text : Bytes) :
    decode (Bytes.ofWord Opcode.error.word ++ (Bytes.ofWord code ++ text)) =
      .ok (.error code (Utf8.decodeLossy (text.takeWhile (· != 0)))) := by
  simp only [decode, opcode?_word, numbered_word, bind, Except.bind, pure, Except.pure]

theorem decode_of_unknown {value : UInt16} (h : Opcode.ofWord? value = none) (body : Bytes) :
    decode (Bytes.ofWord value ++ body) = .error (.unknownOpcode value) := by
  simp [decode, Bytes.ofWord, opcode?, Bytes.word_ofWord, h, bind, Except.bind]

theorem numbered_of_short {body : Bytes} (h : body.length < 2) (size : Nat) :
    numbered size body = .error (.tooShort size) := by
  match body, h with
  | [], _ | [_], _ => rfl

theorem length_ofWord_append (value : UInt16) (body : Bytes) :
    (Bytes.ofWord value ++ body).length = body.length + 2 := by
  rw [List.length_append, Bytes.ofWord_length, Nat.add_comm]

theorem decode_of_short {bytes : Bytes} (h : bytes.length < 2) :
    decode bytes = .error (.tooShort bytes.length) := by
  match bytes, h with
  | [], _ | [_], _ => rfl

theorem decode_of_unnumbered {opcode : Opcode} {body : Bytes}
    (ho : opcode = .data ∨ opcode = .ack ∨ opcode = .error) (h : body.length < 2) :
    decode (Bytes.ofWord opcode.word ++ body) = .error (.tooShort (body.length + 2)) := by
  rcases ho with rfl | rfl | rfl <;>
    simp only [decode, opcode?_word, length_ofWord_append, bind, Except.bind, numbered_of_short h]

/-- What datagrams are read as, with one constructor for each form that a datagram can have. -/
inductive Reads : Bytes → Except Malformed Packet → Prop
  | short {bytes : Bytes} (h : bytes.length < 2) : Reads bytes (.error (.tooShort bytes.length))
  | unknown {value : UInt16} (h : Opcode.ofWord? value = none) (body : Bytes) :
    Reads (Bytes.ofWord value ++ body) (.error (.unknownOpcode value))
  | unnumbered {opcode : Opcode} {body : Bytes}
    (ho : opcode = .data ∨ opcode = .ack ∨ opcode = .error) (h : body.length < 2) :
    Reads (Bytes.ofWord opcode.word ++ body) (.error (.tooShort (body.length + 2)))
  | request (direction : Direction) (body : Bytes) :
    Reads (Bytes.ofWord (Opcode.request direction).word ++ body) (.ok (.request direction))
  | optionAck (body : Bytes) : Reads (Bytes.ofWord Opcode.optionAck.word ++ body) (.ok .optionAck)
  | data (block : UInt16) (payload : Bytes) :
    Reads (encodeData block payload) (.ok (.data block payload))
  | ack (block : UInt16) (rest : Bytes) : Reads (encodeAck block ++ rest) (.ok (.ack block))
  | error (code : UInt16) (text : Bytes) :
    Reads (Bytes.ofWord Opcode.error.word ++ (Bytes.ofWord code ++ text))
      (.ok (.error code (Utf8.decodeLossy (text.takeWhile (· != 0)))))

theorem reads_of_opcode (opcode : Opcode) (body : Bytes) :
    Reads (Bytes.ofWord opcode.word ++ body) (decode (Bytes.ofWord opcode.word ++ body)) := by
  match opcode with
  | .request direction => exact decode_request_append direction body ▸ .request direction body
  | .optionAck => exact decode_optionAck_append body ▸ .optionAck body
  | .data | .ack | .error =>
    rcases Bytes.short_or_word body with hshort | ⟨number, rest, rfl⟩
    · rw [decode_of_unnumbered (by simp) hshort]
      exact .unnumbered (by simp) hshort
    · simp only [decode, opcode?_word, bind, Except.bind, numbered_word]
      constructor

theorem decode_reads (bytes : Bytes) : Reads bytes (decode bytes) := by
  rcases Bytes.short_or_word bytes with hshort | ⟨value, body, rfl⟩
  · exact decode_of_short hshort ▸ .short hshort
  cases ho : Opcode.ofWord? value with
  | none => exact decode_of_unknown ho body ▸ .unknown ho body
  | some opcode =>
    obtain rfl := Opcode.ofWord?_eq_some_iff.mp ho
    exact reads_of_opcode opcode body

theorem decode_eq_data_iff {bytes payload : Bytes} {block : UInt16} :
    decode bytes = .ok (.data block payload) ↔ bytes = encodeData block payload := by
  constructor
  · intro h
    have hreads := decode_reads bytes
    rw [h] at hreads
    cases hreads with
    | data => rfl
  · rintro rfl
    exact decode_encodeData block payload

/-- The word that a datagram starts with. -/
def leadingWord? : Bytes → Option UInt16
  | high :: low :: _ => some (Bytes.word high low)
  | _ => none

theorem leadingWord?_ofWord (value : UInt16) (body : Bytes) :
    leadingWord? (Bytes.ofWord value ++ body) = some value := by
  simp [Bytes.ofWord, leadingWord?, Bytes.word_ofWord]

theorem two_le_length_of_leadingWord? {bytes : Bytes} {value : UInt16}
    (h : leadingWord? bytes = some value) : 2 ≤ bytes.length := by
  match bytes, h with
  | _ :: _ :: _, _ => simp

theorem decode_tooShort_iff {bytes : Bytes} {size : Nat} :
    decode bytes = .error (.tooShort size) ↔ size = bytes.length ∧
      (bytes.length < 2 ∨ (∃ value ∈ leadingWord? bytes, value = 3 ∨ value = 4 ∨ value = 5) ∧
        bytes.length < 4) := by
  constructor
  · intro h
    have hreads := decode_reads bytes
    rw [h] at hreads
    cases hreads with
    | short hshort => exact ⟨rfl, .inl hshort⟩
    | @unnumbered opcode body ho hshort =>
      rw [length_ofWord_append]
      refine ⟨rfl, .inr ⟨⟨opcode.word, leadingWord?_ofWord _ _, ?_⟩, by omega⟩⟩
      rcases ho with rfl | rfl | rfl <;> decide
  · rintro ⟨rfl, hshort | ⟨⟨value, hword, hvalue⟩, hlength⟩⟩
    · exact decode_of_short hshort
    · rcases Bytes.short_or_word bytes with hshort | ⟨first, body, rfl⟩
      · exact decode_of_short hshort
      · rw [leadingWord?_ofWord] at hword
        obtain rfl := Option.some.inj hword
        rw [length_ofWord_append] at hlength ⊢
        have hbody : body.length < 2 := by omega
        rcases hvalue with rfl | rfl | rfl
        · exact decode_of_unnumbered (.inl rfl) hbody
        · exact decode_of_unnumbered (.inr (.inl rfl)) hbody
        · exact decode_of_unnumbered (.inr (.inr rfl)) hbody

theorem decode_unknownOpcode_iff {bytes : Bytes} {value : UInt16} :
    decode bytes = .error (.unknownOpcode value) ↔
      leadingWord? bytes = some value ∧ (value.toNat < 1 ∨ 6 < value.toNat) := by
  rw [← Opcode.ofWord?_eq_none_iff]
  constructor
  · intro h
    have hreads := decode_reads bytes
    rw [h] at hreads
    cases hreads with
    | unknown ho body => exact ⟨leadingWord?_ofWord value body, ho⟩
  · rintro ⟨hword, ho⟩
    rcases Bytes.short_or_word bytes with hshort | ⟨first, body, rfl⟩
    · have hlength := two_le_length_of_leadingWord? hword
      omega
    · rw [leadingWord?_ofWord] at hword
      obtain rfl := Option.some.inj hword
      exact decode_of_unknown ho body

end Packet

end TftpReceiver
