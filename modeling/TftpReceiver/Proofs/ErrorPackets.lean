import TftpReceiver.Proofs.EncodedText
import TftpReceiver.Proofs.Packets

/-! Error packets: each fits the default size and is read back as the code of its condition, with
the text as far as the packet has room for it and up to its first zero. -/

namespace TftpReceiver

namespace Utf8

variable {limit : Nat} {cs : List Char}

theorem length_within_le (limit : Nat) (cs : List Char) :
    ((within limit cs).flatMap encodeChar).length ≤ limit := by
  induction cs generalizing limit with
  | nil => exact Nat.zero_le _
  | cons c cs ih =>
    by_cases hc : (encodeChar c).length ≤ limit
    · have hrest := ih (limit - (encodeChar c).length)
      simp only [within, if_pos hc, List.flatMap_cons, List.length_append]
      omega
    · simp [within, hc]

theorem within_of_fits (h : (cs.flatMap encodeChar).length ≤ limit) : within limit cs = cs := by
  induction cs generalizing limit with
  | nil => rfl
  | cons c cs ih =>
    rw [List.flatMap_cons, List.length_append] at h
    have hc : (encodeChar c).length ≤ limit := by omega
    have hrest : (cs.flatMap encodeChar).length ≤ limit - (encodeChar c).length := by omega
    simp only [within, if_pos hc, ih hrest]

/-- The start of a text that holds every other start of it that takes at most `limit` bytes. -/
structure IsLongest (limit : Nat) (cs kept : List Char) : Prop where
  isStart : kept <+: cs
  fits : (kept.flatMap encodeChar).length ≤ limit
  holds : ∀ start, start <+: cs → (start.flatMap encodeChar).length ≤ limit → start <+: kept

theorem within_isPrefix (limit : Nat) (cs : List Char) : within limit cs <+: cs := by
  induction cs generalizing limit with
  | nil => exact List.prefix_rfl
  | cons c cs ih =>
    by_cases hc : (encodeChar c).length ≤ limit
    · simpa only [within, if_pos hc] using (List.prefix_cons_inj c).mpr (ih _)
    · simp [within, hc]

theorem prefix_within {start : List Char} (hstart : start <+: cs)
    (hfits : (start.flatMap encodeChar).length ≤ limit) : start <+: within limit cs := by
  induction cs generalizing limit start with
  | nil => simpa [within] using hstart
  | cons c cs ih =>
    match start with
    | [] => exact List.nil_prefix
    | d :: start =>
      obtain ⟨rfl, htail⟩ := List.cons_prefix_cons.mp hstart
      rw [List.flatMap_cons, List.length_append] at hfits
      have hd : (encodeChar d).length ≤ limit := by omega
      have hrest : start <+: within (limit - (encodeChar d).length) cs :=
        ih htail (by omega)
      simpa only [within, if_pos hd] using (List.prefix_cons_inj d).mpr hrest

theorem within_isLongest (limit : Nat) (cs : List Char) : IsLongest limit cs (within limit cs) where
  isStart := within_isPrefix limit cs
  fits := length_within_le limit cs
  holds _ := prefix_within

example : within 2 ['a', 'é'] = ['a'] := by decide

theorem takeWhile_encode (cs : List Char) (rest : Bytes) :
    (cs.flatMap encodeChar ++ 0 :: rest).takeWhile (· != 0) =
      (cs.takeWhile (· ≠ '\x00')).flatMap encodeChar := by
  induction cs with
  | nil => rfl
  | cons c cs ih =>
    by_cases hc : c = '\x00'
    · subst hc
      rfl
    · have hbytes : ∀ b ∈ encodeChar c, (b != 0) = true := by
        intro b hb
        rw [bne_iff_ne]
        rintro rfl
        exact hc ((zero_mem_encodeChar c).mp hb)
      rw [List.flatMap_cons, List.append_assoc, List.takeWhile_append_of_pos hbytes, ih,
        List.takeWhile_cons_of_pos (by simpa using hc), List.flatMap_cons]

end Utf8

namespace Packet

theorem length_encodeText (text : String) :
    (encodeText text).length = (Utf8.encode text).length + 1 := by
  simp [encodeText]

theorem length_encodeError_le (condition : Condition) :
    (encodeError condition).length ≤ defaultBlockSize + headerSize := by
  have htext := Utf8.length_within_le maxMessageSize condition.message.toList
  have hlimit : maxMessageSize + 5 = defaultBlockSize + headerSize := rfl
  simp only [encodeError, List.length_append, Bytes.ofWord_length, length_encodeText, Utf8.encode,
    String.toList_ofList]
  omega

theorem decode_encodeError (condition : Condition) :
    decode (encodeError condition) = .ok (.error condition.wireCode
      (String.ofList ((Utf8.within maxMessageSize condition.message.toList).takeWhile
        (· ≠ '\x00')))) := by
  let kept := (Utf8.within maxMessageSize condition.message.toList).takeWhile (· ≠ '\x00')
  have hread : Utf8.decodeLossy (kept.flatMap Utf8.encodeChar) = String.ofList kept := by
    simpa only [Utf8.encode, String.toList_ofList] using
      Utf8.decodeLossy_encode (String.ofList kept)
  rw [encodeError, List.append_assoc, decode_error_append, encodeText, Utf8.encode,
    String.toList_ofList, Utf8.takeWhile_encode, hread]

theorem encodeError_layout (condition : Condition) :
    encodeError condition = [0, 5] ++ Bytes.ofWord condition.wireCode ++
      (Utf8.within maxMessageSize condition.message.toList).flatMap Utf8.encodeChar ++ [0] := by
  simp [encodeError, encodeText, Utf8.encode, Opcode.word, Bytes.ofWord]

/-- Error packets fit the default size and are read back with the longest start of the text that
ends between two characters, up to its first zero. What else a transfer sends or is sent is read
back as it is, and a datagram is malformed when its number is missing or its opcode unknown. -/
theorem decode_encoded :
    (∀ condition : Condition, ∃ kept message,
      Utf8.IsLongest 511 condition.message.toList kept ∧
      encodeError condition = [0, 5] ++ Bytes.ofWord condition.wireCode ++
        kept.flatMap Utf8.encodeChar ++ [0] ∧
      (encodeError condition).length ≤ 516 ∧
      decode (encodeError condition) = .ok (.error condition.wireCode message) ∧
      message.toList = kept.takeWhile (· ≠ '\x00') ∧
      message.toList <+: condition.message.toList) ∧
    (∀ block payload, decode (encodeData block payload) = .ok (.data block payload)) ∧
    (∀ block rest, decode (encodeAck block ++ rest) = .ok (.ack block)) ∧
    (∀ bytes size, decode bytes = .error (.tooShort size) ↔ size = bytes.length ∧
      (bytes.length < 2 ∨ (∃ value ∈ leadingWord? bytes, value = 3 ∨ value = 4 ∨ value = 5) ∧
        bytes.length < 4)) ∧
    ∀ bytes value, decode bytes = .error (.unknownOpcode value) ↔ 2 ≤ bytes.length ∧
      leadingWord? bytes = some value ∧ (value.toNat < 1 ∨ 6 < value.toNat) := by
  refine ⟨fun condition => ?_, decode_encodeData, decode_encodeAck_append,
    fun _ _ => decode_tooShort_iff, fun bytes value => ?_⟩
  · let kept := Utf8.within 511 condition.message.toList
    have hcut : kept.takeWhile (· ≠ '\x00') <+: kept := List.takeWhile_prefix _
    exact ⟨kept, String.ofList (kept.takeWhile (· ≠ '\x00')), Utf8.within_isLongest _ _,
      encodeError_layout condition, length_encodeError_le condition, decode_encodeError condition,
      String.toList_ofList, String.toList_ofList ▸ hcut.trans (Utf8.within_isPrefix _ _)⟩
  · rw [decode_unknownOpcode_iff, iff_and_self]
    exact fun h => two_le_length_of_leadingWord? h.1

end Packet

namespace Condition

/-- Whether the text of a condition fits an error packet and holds no zero. -/
def isPlain (condition : Condition) : Bool :=
  (Utf8.encode condition.message).length ≤ Packet.maxMessageSize &&
    condition.message.toList.all (· ≠ '\x00')

theorem decode_plain {condition : Condition} (h : condition.isPlain = true) :
    Packet.decode (Packet.encodeError condition) =
      .ok (.error condition.wireCode condition.message) := by
  rw [isPlain, Bool.and_eq_true, decide_eq_true_eq, List.all_eq_true] at h
  obtain ⟨hfits, hzero⟩ := h
  have hwhole : condition.message.toList.takeWhile (· ≠ '\x00') = condition.message.toList := by
    rw [← List.append_nil condition.message.toList,
      List.takeWhile_append_of_pos hzero, List.takeWhile_nil]
  rw [Packet.decode_encodeError, Utf8.within_of_fits hfits, hwhole, String.ofList_toList]

theorem isPlain_protocol (code : ErrorCode) : (protocol code).isPlain = true := by
  cases code <;> decide

end Condition

end TftpReceiver
