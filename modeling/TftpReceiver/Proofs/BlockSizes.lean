import TftpReceiver.Proofs.NegotiatedOptions

/-! Which block size is granted for a request that is any word of 64 bits. Sizes grow with the
request also where rounding to a power of two ends and cutting at the maximum begins. -/

namespace TftpReceiver

namespace Asked

variable {value larger : Nat}

theorem powerSize_of_large (h : 65464 < value) : powerSize value = 65464 := if_pos h

theorem powerSize_of_fits (h : value ≤ 65464) :
    powerSize value = Nat.findGreatest Nat.isPowerOfTwo value := if_neg (Nat.not_lt.mpr h)

theorem powerSize_le_maximum (value : Nat) : powerSize value ≤ 65464 := by
  by_cases hlarge : 65464 < value
  · rw [powerSize_of_large hlarge]
  · exact Nat.le_trans powerSize_le (Nat.le_of_not_lt hlarge)

theorem powerSize_mono (h : value ≤ larger) : powerSize value ≤ powerSize larger := by
  by_cases hlarge : 65464 < larger
  · rw [powerSize_of_large hlarge]
    exact powerSize_le_maximum value
  · rw [powerSize_of_fits (by omega), powerSize_of_fits (by omega)]
    exact Nat.findGreatest_mono_right _ h

theorem eight_le_powerSize (h : 8 ≤ value) : 8 ≤ powerSize value := by
  have hleast : powerSize 8 = 8 := (powerSize_eq (by decide) (by decide)).trans rfl
  exact hleast ▸ powerSize_mono h

end Asked

/-- The power of two whose bit is the highest one of a word, found by its leading zeros. -/
def highestBit (word : BitVec 64) : BitVec 64 := 1#64 <<< (63#64 - word.clz)

section Words

variable {word : BitVec 64}

theorem ne_zero_of_le (h : 8 ≤ word.toNat) : word ≠ 0#64 := by
  rintro rfl
  exact absurd h (by decide)

theorem clz_le_of_ne_zero (h : word ≠ 0#64) : word.clz ≤ 63#64 := by
  have hless : word.clz < 64#64 := BitVec.clz_lt_iff_ne_zero.mpr h
  bv_omega

theorem log2_of_ne_zero (h : word ≠ 0#64) : word.toNat.log2 = 63 - word.clz.toNat := by
  have hzeros : word.clz.toNat ≤ 63 := BitVec.le_def.mp (clz_le_of_ne_zero h)
  have hlow : 2 ^ (63 - word.clz.toNat) ≤ word.toNat :=
    BitVec.two_pow_sub_clz_le_toNat_of_ne_zero (by decide) h
  have hhigh : word.toNat < 2 ^ (64 - word.clz.toNat) := BitVec.toNat_lt_two_pow_sub_clz
  have hpos : word.toNat ≠ 0 := fun hzero => h (BitVec.eq_of_toNat_eq hzero)
  refine (Nat.log2_eq_iff hpos).mpr ⟨hlow, ?_⟩
  rwa [show 63 - word.clz.toNat + 1 = 64 - word.clz.toNat by omega]

theorem toNat_highestBit (h : word ≠ 0#64) :
    (highestBit word).toNat = Nat.pow 2 word.toNat.log2 := by
  have hplace : (63#64 - word.clz).toNat = 63 - word.clz.toNat :=
    BitVec.toNat_sub_of_le (clz_le_of_ne_zero h)
  have hfits : 2 ^ (63 - word.clz.toNat) < 2 ^ 64 :=
    Nat.pow_lt_pow_right (by decide) (by omega)
  rw [log2_of_ne_zero h, highestBit, BitVec.shiftLeft_eq', hplace, BitVec.toNat_shiftLeft,
    Nat.shiftLeft_eq, BitVec.toNat_ofNat, Nat.one_mod_two_pow (by decide), Nat.one_mul,
    Nat.mod_eq_of_lt hfits, Nat.pow_eq]

/-- A word is at least its highest bit and less than twice that. -/
theorem highestBit_brackets (h : word ≠ 0#64) :
    (highestBit word).toNat ≤ word.toNat ∧ word.toNat < 2 * (highestBit word).toNat := by
  have hpos : word.toNat ≠ 0 := fun hzero => h (BitVec.eq_of_toNat_eq hzero)
  have hhigh : word.toNat < 2 ^ (word.toNat.log2 + 1) := Nat.lt_log2_self
  rw [toNat_highestBit h, Nat.pow_eq]
  rw [Nat.pow_succ, Nat.mul_comm] at hhigh
  exact ⟨Nat.log2_self_le hpos, hhigh⟩

end Words

section Granted

variable {value size : Nat} {powerOfTwo : Bool}

theorem grantedBlockSize?_eq_none : grantedBlockSize? value powerOfTwo = none ↔ value < 8 := by
  rw [Asked.grantedBlockSize?_eq, ite_eq_right_iff]
  simp

theorem grantedBlockSize?_of_large (h : 65464 < value) :
    grantedBlockSize? value powerOfTwo = some 65464 := by
  rw [Asked.grantedBlockSize?_eq, if_pos (by omega), Asked.powerSize_of_large h,
    Nat.min_eq_right (by omega), ite_self]

theorem grantedBlockSize?_plain (h : 8 ≤ value) :
    grantedBlockSize? value false = some (min value 65464) := by
  rw [Asked.grantedBlockSize?_eq, if_pos h, if_neg Bool.false_ne_true]

theorem grantedBlockSize?_power {word : BitVec 64} (hlow : 8 ≤ word.toNat)
    (hfits : word.toNat ≤ 65464) :
    grantedBlockSize? word.toNat true = some (highestBit word).toNat := by
  rw [Asked.grantedBlockSize?_eq, if_pos hlow, if_pos rfl, Asked.powerSize_eq hfits (by omega),
    toNat_highestBit (ne_zero_of_le hlow)]

theorem grantedBlockSize?_within (h : grantedBlockSize? value powerOfTwo = some size) :
    8 ≤ size ∧ size ≤ min value 65464 := by
  rw [Asked.grantedBlockSize?_eq, Option.ite_none_right_eq_some, Option.some.injEq] at h
  obtain ⟨hlow, rfl⟩ := h
  cases powerOfTwo with
  | false =>
    simp only [Bool.false_eq_true, if_false]
    omega
  | true =>
    rw [if_pos rfl]
    have hcut := Asked.powerSize_le_maximum value
    exact ⟨Asked.eight_le_powerSize hlow, Nat.le_min.mpr ⟨Asked.powerSize_le, hcut⟩⟩

theorem grantedBlockSize?_mono {larger : Nat} (h : value ≤ larger) (powerOfTwo : Bool) :
    grantedBlockSize? value powerOfTwo ≤ grantedBlockSize? larger powerOfTwo := by
  rw [Asked.grantedBlockSize?_eq, Asked.grantedBlockSize?_eq]
  by_cases hlow : 8 ≤ value
  · rw [if_pos hlow, if_pos (Nat.le_trans hlow h), Option.some_le_some]
    cases powerOfTwo with
    | false => simp only [Bool.false_eq_true, if_false]; omega
    | true => exact Asked.powerSize_mono h
  · rw [if_neg hlow]
    exact Option.none_le

/-- Requests below 8 are refused. All others are granted a size from 8 up to 65464 that is no more
than was asked for and grows with the request: the request itself, cut at 65464. Where a power of
two is wanted and the request need not be cut, it is the largest one up to the request. The place of
its bit is 63 less the leading zeros of the request, of which there are never more. -/
theorem grantedBlockSize?_brackets (requested : BitVec 64) (powerOfTwo : Bool) :
    let value := requested.toNat
    let granted := grantedBlockSize? value
    (granted powerOfTwo = none ↔ value < 8) ∧
    (∀ size, granted powerOfTwo = some size → 8 ≤ size ∧ size ≤ min value 65464) ∧
    (8 ≤ value → granted false = some (min value 65464)) ∧
    (8 ≤ value → value ≤ 65464 →
      let size := (highestBit requested).toNat
      requested.clz ≤ 63#64 ∧ granted true = some size ∧
        size.isPowerOfTwo ∧ size ≤ value ∧ value < 2 * size) ∧
    (65464 < value → granted true = some 65464) ∧
    ∀ larger : BitVec 64, requested ≤ larger →
      granted powerOfTwo ≤ grantedBlockSize? larger.toNat powerOfTwo := by
  intro value granted
  refine ⟨grantedBlockSize?_eq_none, fun _ => grantedBlockSize?_within, grantedBlockSize?_plain,
    fun hlow hfits => ?_, grantedBlockSize?_of_large, fun larger hle => ?_⟩
  · have hne : requested ≠ 0#64 := ne_zero_of_le hlow
    obtain ⟨hle, hless⟩ := highestBit_brackets hne
    exact ⟨clz_le_of_ne_zero hne, grantedBlockSize?_power hlow hfits, ⟨_, toNat_highestBit hne⟩,
      hle, hless⟩
  · exact grantedBlockSize?_mono (BitVec.le_def.mp hle) powerOfTwo

/-- Sizes stay in order where the smaller request is rounded and the larger one is cut. -/
theorem grantedBlockSize?_brackets_last_rounded :
    (65464#64).clz ≤ 63#64 ∧ grantedBlockSize? 65464 true = some 32768 ∧
      grantedBlockSize? 65465 true = some 65464 ∧
      grantedBlockSize? 65464 true ≤ grantedBlockSize? 65465 true := by
  obtain ⟨-, -, -, hrounded, -, hmono⟩ := grantedBlockSize?_brackets 65464#64 true
  obtain ⟨-, -, -, -, hcut, -⟩ := grantedBlockSize?_brackets 65465#64 true
  obtain ⟨hzeros, hgranted, -⟩ := hrounded (by decide) (by decide)
  have hbit : (highestBit 65464#64).toNat = 32768 := by decide +kernel
  rw [hbit] at hgranted
  exact ⟨hzeros, hgranted, hcut (by decide), hmono 65465#64 (by decide)⟩

end Granted

end TftpReceiver
