/-! Byte strings and the two-byte words of the wire, high byte first. -/

namespace TftpReceiver

abbrev Bytes := List UInt8

namespace Bytes

def word (high low : UInt8) : UInt16 := UInt16.ofNat (high.toNat * 256 + low.toNat)

def ofWord (value : UInt16) : Bytes :=
  [UInt8.ofNat (value.toNat / 256), UInt8.ofNat (value.toNat % 256)]

/-- The part before the first zero byte and the part after it. -/
def field? (bytes : Bytes) : Option (Bytes × Bytes) :=
  match bytes.dropWhile (· != 0) with
  | [] => none
  | _ :: rest => some (bytes.takeWhile (· != 0), rest)

theorem ofWord_length (value : UInt16) : (ofWord value).length = 2 := rfl

theorem field?_length {bytes field rest : Bytes} (h : field? bytes = some (field, rest)) :
    rest.length < bytes.length := by
  unfold field? at h
  have hd : (bytes.dropWhile (· != 0)).length ≤ bytes.length :=
    (List.dropWhile_suffix _).length_le
  split at h
  · simp at h
  · next heq =>
    simp only [Option.some.injEq, Prod.mk.injEq] at h
    rw [heq] at hd
    simp only [List.length_cons] at hd
    rw [← h.2]
    omega

end Bytes

end TftpReceiver
