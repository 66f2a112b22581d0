import Mathlib.Data.List.Basic
import TftpReceiver.Proofs.NegotiatedOptions

/-! Which texts count as the value of an option: digits, with at most one plus sign before them.
Pairs with any other value can be left out, and the sign is passed over. -/

namespace TftpReceiver

namespace Decimal

/-- Nothing but ASCII digits, and at least one of them. -/
def isDecimal (text : String) : Bool := text.toList ≠ [] ∧ text.toList.all Char.isDigit

def isSigned (text : String) : Bool := text.toList.head? = some '+'

/-- The text without a plus sign at its front. -/
def unsigned (text : String) : String :=
  match text.toList with
  | '+' :: rest => String.ofList rest
  | _ => text

variable {limit : Nat} {text : String}

theorem unsigned_of_signed (h : isSigned text = true) :
    ∃ rest, text.toList = '+' :: rest ∧ unsigned text = String.ofList rest := by
  have hhead : text.toList.head? = some '+' := of_decide_eq_true h
  cases htext : text.toList with
  | nil => simp [htext] at hhead
  | cons c rest =>
    obtain rfl : c = '+' := by simpa [htext] using hhead
    exact ⟨rest, rfl, by simp [unsigned, htext]⟩

theorem unsigned_of_unsigned (h : isSigned text = false) : unsigned text = text := by
  unfold unsigned
  split
  · next rest htext => simp [isSigned, htext] at h
  · rfl

theorem parse?_of_unsigned (h : isSigned text = false) :
    parse? limit text = (digits? text.toList).filter (· ≤ limit) := by
  unfold parse?
  split
  · next rest htext => simp [isSigned, htext] at h
  · rfl

theorem digits?_eq_none (h : isDecimal text = false) : digits? text.toList = none := by
  rw [digits?, if_neg]
  exact of_decide_eq_false h

theorem not_isSigned_of_isDecimal (h : isDecimal text = true) : isSigned text = false := by
  obtain ⟨-, hall⟩ := of_decide_eq_true h
  cases htext : text.toList with
  | nil => simp [isSigned, htext]
  | cons c rest =>
    rw [htext, List.all_cons, Bool.and_eq_true] at hall
    have hne : c ≠ '+' := by
      rintro rfl
      exact absurd hall.1 (by decide)
    simp [isSigned, htext, hne]

/-- A number is read from a text just when its unsigned part is decimal, and from that part. -/
theorem parse?_eq_unsigned (limit : Nat) (text : String) :
    parse? limit text =
      if isDecimal (unsigned text) then parse? limit (unsigned text) else none := by
  have hdigits : parse? limit text = (digits? (unsigned text).toList).filter (· ≤ limit) := by
    by_cases hs : isSigned text = true
    · obtain ⟨rest, htext, hunsigned⟩ := unsigned_of_signed hs
      simp only [parse?, htext, hunsigned, String.toList_ofList]
    · have hplain := Bool.eq_false_iff.mpr hs
      rw [parse?_of_unsigned hplain, unsigned_of_unsigned hplain]
  by_cases hd : isDecimal (unsigned text) = true
  · rw [if_pos hd, hdigits, parse?_of_unsigned (not_isSigned_of_isDecimal hd)]
  · rw [if_neg hd, hdigits, digits?_eq_none (Bool.eq_false_iff.mpr hd)]
    rfl

end Decimal

namespace Asked

open Decimal (isDecimal isSigned unsigned)

variable {pair : String × String}

theorem ofPair?_of_no_number (h : Decimal.parse? Decimal.maxWord64 pair.2 = none) :
    ofPair? pair = none := by
  rw [ofPair?, h]
  cases OptionName.named? pair.1 <;> rfl

theorem ofPair?_of_no_numeral (h : isDecimal (unsigned pair.2) = false) : ofPair? pair = none := by
  refine ofPair?_of_no_number ?_
  rw [Decimal.parse?_eq_unsigned, if_neg (Bool.eq_false_iff.mp h)]

theorem ofPair?_unsigned (h : isDecimal (unsigned pair.2) = true) :
    ofPair? (pair.1, unsigned pair.2) = ofPair? pair := by
  have hvalue : Decimal.parse? Decimal.maxWord64 pair.2 =
      Decimal.parse? Decimal.maxWord64 (unsigned pair.2) := by
    rw [Decimal.parse?_eq_unsigned, if_pos h]
  simp only [ofPair?, hvalue]

/-- Pairs that ask for nothing can be left out. -/
theorem filterMap_filter_usable {keep : String × String → Bool} {requested : List (String × String)}
    (h : ∀ pair ∈ requested, keep pair = false → ofPair? pair = none) :
    (requested.filter keep).filterMap ofPair? = requested.filterMap ofPair? := by
  rw [List.filterMap_filter]
  refine List.filterMap_congr fun pair hm => ?_
  by_cases hk : keep pair = true
  · rw [if_pos hk]
  · rw [if_neg hk, h pair hm (Bool.eq_false_iff.mpr hk)]

theorem ofPair?_of_no_decimal (hs : isSigned pair.2 = false) (hd : isDecimal pair.2 = false) :
    ofPair? pair = none := by
  refine ofPair?_of_no_number ?_
  rw [Decimal.parse?_of_unsigned hs, Decimal.digits?_eq_none hd]
  rfl

theorem filter_decimal (requested : List (String × String)) :
    requested.filter (fun pair => isDecimal pair.2) =
      (requested.filter fun pair => ¬ isSigned pair.2).filter fun pair => isDecimal pair.2 := by
  rw [List.filter_filter]
  refine List.filter_congr fun pair _ => ?_
  cases hd : isDecimal pair.2 with
  | false => rfl
  | true => simp [Decimal.not_isSigned_of_isDecimal hd]

end Asked

namespace Negotiation

open Asked
open Decimal (isDecimal isSigned unsigned)

theorem ofPairs_congr {requested requested' : List (String × String)}
    (h : requested.filterMap ofPair? = requested'.filterMap ofPair?) (defaults : TransferOptions)
    (knownSize : Nat) :
    ofPairs defaults knownSize requested = ofPairs defaults knownSize requested' := by
  simp only [ofPairs_eq, h]

/-- Only values of digits count, with or without one plus sign before them: all other pairs can be
left out, and so can the sign. Without the pairs that are not purely decimal the negotiation comes
to the same as without those that have a sign. Each answer is one to a pair with such a value. -/
theorem ofPairs_counts_numerals (defaults : TransferOptions) (knownSize : Nat)
    (requested : List (String × String)) :
    let negotiated := ofPairs defaults knownSize
    let numerals := requested.filter fun pair => isDecimal (unsigned pair.2)
    negotiated numerals = negotiated requested ∧
    negotiated (numerals.map fun pair => (pair.1, unsigned pair.2)) = negotiated requested ∧
    negotiated (requested.filter fun pair => isDecimal pair.2) =
      negotiated (requested.filter fun pair => ¬ isSigned pair.2) ∧
    ∀ echoed ∈ (negotiated requested).accepted, ∃ pair ∈ numerals, ∃ asked,
      ofPair? pair = some asked ∧ echoed = asked.echo knownSize := by
  intro negotiated numerals
  have hnumerals : numerals.filterMap ofPair? = requested.filterMap ofPair? :=
    filterMap_filter_usable fun pair _ h => ofPair?_of_no_numeral h
  refine ⟨ofPairs_congr hnumerals _ _, ofPairs_congr ?_ _ _, ofPairs_congr ?_ _ _, ?_⟩
  · rw [List.filterMap_map, ← hnumerals]
    refine List.filterMap_congr fun pair hm => ?_
    exact ofPair?_unsigned (List.mem_filter.mp hm).2
  · rw [filter_decimal]
    refine filterMap_filter_usable fun pair hm hd => ?_
    have hunsigned : isSigned pair.2 = false := by simpa using (List.mem_filter.mp hm).2
    exact ofPair?_of_no_decimal hunsigned hd
  · intro echoed hm
    have haccepted : echoed ∈ (counted (requested.filterMap ofPair?)).map (echo knownSize) := by
      have heq : (negotiated requested).accepted = _ :=
        congrArg Negotiation.accepted (ofPairs_eq defaults knownSize requested)
      rwa [heq] at hm
    obtain ⟨asked, hasked, rfl⟩ := List.mem_map.mp haccepted
    have husable := (counted_sublist _).subset hasked
    rw [← hnumerals] at husable
    obtain ⟨pair, hpair, hread⟩ := List.mem_filterMap.mp husable
    exact ⟨pair, hpair, asked, hread, rfl⟩

/-- A sign, leading zeros, and values that are no numerals. -/
def signedPairs : List (String × String) :=
  [("blksize", "++700"), ("BlkSize", "+1024"), ("blksize", "600"), ("timeout", " 9"),
    ("tsize", "+0007")]

theorem ofPairs_counts_numerals_signed :
    let numerals := [("BlkSize", "+1024"), ("blksize", "600"), ("tsize", "+0007")]
    ofPairs {} 0 numerals = ofPairs {} 0 signedPairs ∧
      ofPairs {} 0 [("BlkSize", "1024"), ("blksize", "600"), ("tsize", "0007")] =
        ofPairs {} 0 signedPairs ∧
      ("BlkSize", "1024") ∈ (ofPairs {} 0 signedPairs).accepted ∧
      ∃ pair ∈ numerals, ∃ asked, ofPair? pair = some asked ∧
        ("BlkSize", "1024") = asked.echo 0 := by
  intro numerals
  have hnumerals :
      signedPairs.filter (fun pair => isDecimal (unsigned pair.2)) = numerals := by decide +kernel
  have hmem : ("BlkSize", "1024") ∈ (ofPairs {} 0 signedPairs).accepted := by decide +kernel
  obtain ⟨hsame, hunsigned, -, hechoes⟩ := ofPairs_counts_numerals {} 0 signedPairs
  rw [hnumerals] at hsame hunsigned hechoes
  exact ⟨hsame, hunsigned, hmem, hechoes _ hmem⟩

/-- A value with a sign is granted, and takes the place of the decimal one behind it. -/
theorem ofPairs_grants_signed_value :
    let requested := [("blksize", "+1024"), ("blksize", "600")]
    let decimal := requested.filter fun pair => isDecimal pair.2
    (ofPairs {} 0 requested).options.blockSize = 1024 ∧
      (ofPairs {} 0 decimal).options.blockSize = 600 ∧
      ofPairs {} 0 decimal ≠ ofPairs {} 0 requested := by
  decide +kernel

end Negotiation

end TftpReceiver
