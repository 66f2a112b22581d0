import Mathlib.Data.List.Basic
import TftpReceiver.Proofs.BlockSizes
import TftpReceiver.Proofs.OptionAcks

/-! A peer that asks for what it was granted is granted it again. The one exception is a block
size that was to be a power of two and was cut at the maximum: the second time it is rounded. -/

namespace TftpReceiver

namespace Asked

/-- What a peer asks for that repeats the answer to its pair. -/
def renewed (asked : Asked) : Asked := { asked with value := asked.answer 0 }

/-- A power of two was wanted, and more than the maximum. -/
def isCut (asked : Asked) : Bool := asked.name = .blockSizePower ∧ 65464 < asked.value

variable {asked : Asked}

theorem powerSize_maximum : powerSize 65464 = 32768 :=
  (powerSize_eq (by decide) (by decide)).trans (by decide)

/-- A number that was rounded once is a power of two already. -/
theorem powerSize_powerSize {value : Nat} (h : value ≤ 65464) :
    powerSize (powerSize value) = powerSize value := by
  by_cases hzero : value = 0
  · simp [powerSize, hzero]
  have hle : powerSize value ≤ 65464 := Nat.le_trans powerSize_le h
  have hpower : Nat.isPowerOfTwo (powerSize value) := by
    rw [powerSize_eq h (by omega)]
    exact ⟨value.log2, Nat.pow_eq⟩
  rw [powerSize_of_fits hle]
  exact Nat.findGreatest_eq hpower

theorem isBlockSize_of_isCut (h : asked.isCut = true) : asked.name.isBlockSize = true := by
  obtain ⟨hname, -⟩ := of_decide_eq_true h
  rw [hname]
  rfl

theorem answer_of_isCut (h : asked.isCut = true) :
    asked.answer 0 = 65464 ∧ asked.renewed.answer 0 = 32768 := by
  obtain ⟨hname, hvalue⟩ := of_decide_eq_true h
  have hanswer : asked.answer 0 = 65464 := by
    simp only [answer, hname, powerSize_of_large hvalue]
  refine ⟨hanswer, ?_⟩
  have hrenewed : asked.renewed.answer 0 = powerSize (asked.answer 0) := by
    simp only [answer, renewed, hname]
  rw [hrenewed, hanswer, powerSize_maximum]

theorem answer_renewed (h : asked.isCut = false) : asked.renewed.answer 0 = asked.answer 0 := by
  rcases asked with ⟨spelled, name, value⟩
  cases name with
  | blockSize =>
    change min (min value 65464) 65464 = min value 65464
    omega
  | blockSizePower =>
    have hvalue : value ≤ 65464 := by simpa [isCut] using h
    exact powerSize_powerSize hvalue
  | transferSize =>
    by_cases hzero : value = 0 <;> simp [answer, renewed, hzero]
  | timeoutSeconds | timeoutMillis => rfl

theorem interval?_renewed (asked : Asked) : asked.renewed.interval? = asked.interval? := by
  rcases asked with ⟨spelled, name, value⟩
  cases name <;> rfl

theorem declaredSize?_renewed (asked : Asked) :
    asked.renewed.declaredSize? = asked.declaredSize? := by
  rcases asked with ⟨spelled, name, value⟩
  cases name with
  | transferSize =>
    by_cases hzero : value = 0 <;> simp [declaredSize?, answer, renewed, hzero]
  | blockSize | blockSizePower | timeoutSeconds | timeoutMillis => rfl

/-- What is answered would be granted as well. -/
theorem permits_answer (h : asked.name.permits asked.value = true) :
    asked.name.permits (asked.answer 0) = true := by
  rcases asked with ⟨spelled, name, value⟩
  cases name with
  | blockSize =>
    have hvalue : 8 ≤ value := of_decide_eq_true h
    exact decide_eq_true (show 8 ≤ min value 65464 by omega)
  | blockSizePower => exact decide_eq_true (eight_le_powerSize (of_decide_eq_true h))
  | transferSize => rfl
  | timeoutSeconds | timeoutMillis => exact h

theorem ofPair?_echo {pair : String × String} (h : ofPair? pair = some asked) :
    ofPair? (asked.echo 0) = some asked.renewed := by
  obtain ⟨hspelled, hname, hvalue, hpermits⟩ := of_pair h
  obtain ⟨-, -, -, -, -, hlimit⟩ := Decimal.parse?_eq_some_iff.mp hvalue
  have hanswer := Decimal.parse?_render (Nat.le_trans asked.answer_le hlimit)
  rw [Decimal.render_eq_toString] at hanswer
  simp only [ofPair?, echo, hspelled, hname, hanswer, permits_answer hpermits,
    Option.bind_eq_bind, Option.bind_some, if_true, renewed]

theorem counted_renewed (asked : List Asked) :
    counted ((counted asked).map renewed) = (counted asked).map renewed := by
  induction asked with
  | nil => rfl
  | cons first rest ih =>
    have hname : first.renewed.name = first.name := rfl
    cases hb : first.name.isBlockSize with
    | false =>
      simp only [counted, hb, hname, Bool.false_eq_true, if_false, List.map_cons, ih]
    | true =>
      have hrest : ((rest.filter (¬ ·.name.isBlockSize)).map renewed).filter
          (¬ ·.name.isBlockSize) = (rest.filter (¬ ·.name.isBlockSize)).map renewed := by
        rw [List.filter_map, List.filter_filter]
        congr 2
        funext asked
        exact Bool.and_self _
      simp only [counted, hb, hname, if_true, List.map_cons, hrest]

theorem find?_counted (asked : List Asked) :
    (counted asked).find? (·.name.isBlockSize) = asked.find? (·.name.isBlockSize) := by
  rw [← List.head?_filter, filter_counted]
  cases asked.find? (·.name.isBlockSize) <;> rfl

/-- At most one block size is answered, so all other answers are kept. -/
theorem not_isCut_of_counted {asked : List Asked} {other : Asked} (hm : other ∈ counted asked)
    (hn : asked.find? (·.name.isBlockSize) ≠ some other) : other.isCut = false := by
  rw [Bool.eq_false_iff]
  intro hcut
  exact hn (find?_of_counted hm (isBlockSize_of_isCut hcut))

theorem echo_renewed (h : asked.isCut = false) : asked.renewed.echo 0 = asked.echo 0 := by
  rw [echo, echo, answer_renewed h]
  rfl

end Asked

attribute [ext] Negotiation

namespace Negotiation

open Asked

variable (defaults : TransferOptions) (requested : List (String × String))

theorem filterMap_accepted :
    (ofPairs defaults 0 requested).accepted.filterMap ofPair? =
      (counted (requested.filterMap ofPair?)).map renewed := by
  rw [ofPairs_eq, List.filterMap_map, ← List.filterMap_eq_map]
  refine List.filterMap_congr fun asked hasked => ?_
  obtain ⟨pair, hpair⟩ := exists_pair hasked
  exact ofPair?_echo hpair

/-- Only the block size of a second negotiation can differ from the first. -/
theorem options_of_accepted :
    let first := ofPairs defaults 0 requested
    (ofPairs defaults 0 first.accepted).options = { first.options with
      blockSize := (((requested.filterMap ofPair?).find? (·.name.isBlockSize)).map
        (answer 0 ∘ renewed)).getD defaults.blockSize } := by
  intro first
  have hsize : (((counted (requested.filterMap ofPair?)).map renewed).filterMap blockSize?).head? =
      ((requested.filterMap ofPair?).find? (·.name.isBlockSize)).map (answer 0 ∘ renewed) := by
    rw [head_blockSize?, List.find?_map, Option.map_map, ← find?_counted]
    rfl
  have hinterval : ((counted (requested.filterMap ofPair?)).map renewed).filterMap interval? =
      (requested.filterMap ofPair?).filterMap interval? := by
    rw [List.filterMap_map, Function.comp_def]
    simp only [interval?_renewed]
    exact filterMap_counted (fun asked hb => (settings_of_blockSize hb).2.1) _
  have hdeclared : ((counted (requested.filterMap ofPair?)).map renewed).filterMap declaredSize? =
      (requested.filterMap ofPair?).filterMap declaredSize? := by
    rw [List.filterMap_map, Function.comp_def]
    simp only [declaredSize?_renewed]
    exact filterMap_counted (fun asked hb => (settings_of_blockSize hb).2.2) _
  rw [ofPairs_eq defaults 0 first.accepted, filterMap_accepted]
  simp only [hsize, hinterval, hdeclared, first, ofPairs_eq]

theorem accepted_of_accepted :
    (ofPairs defaults 0 (ofPairs defaults 0 requested).accepted).accepted =
      (counted (requested.filterMap ofPair?)).map (echo 0 ∘ renewed) := by
  rw [ofPairs_eq defaults 0 (ofPairs defaults 0 requested).accepted, filterMap_accepted,
    counted_renewed, List.map_map]

theorem map_echo_renewed {asked : List Asked} (h : ∀ other ∈ asked, other.isCut = false) :
    asked.map (echo 0 ∘ renewed) = asked.map (echo 0) :=
  List.map_congr_left fun other hm => echo_renewed (h other hm)

/-- A peer that asks for what it was granted is granted the same, unless it wanted a power of two
above the maximum: then the maximum that it was granted is rounded, and all else is kept. -/
theorem ofPairs_repeats_grants (defaults : TransferOptions) (requested : List (String × String)) :
    let first := ofPairs defaults 0 requested
    let again := ofPairs defaults 0 first.accepted
    let sized := (requested.filterMap ofPair?).find? (·.name.isBlockSize)
    ((∀ asked, sized = some asked → asked.isCut = false) → again = first) ∧
    ∀ asked, sized = some asked → asked.isCut = true →
      first.options.blockSize = 65464 ∧
      again.options = { first.options with blockSize := 32768 } ∧
      ∃ front back, first.accepted = front ++ (asked.spelled, "65464") :: back ∧
        again.accepted = front ++ (asked.spelled, "32768") :: back := by
  intro first again sized
  have hoptions := options_of_accepted defaults requested
  have haccepted := accepted_of_accepted defaults requested
  have hsize : first.options.blockSize = (sized.map (answer 0)).getD defaults.blockSize := by
    simp only [first, ofPairs_eq, head_blockSize?, sized]
  have htold : first.accepted = (counted (requested.filterMap ofPair?)).map (echo 0) :=
    congrArg Negotiation.accepted (ofPairs_eq defaults 0 requested)
  constructor
  · intro huncut
    have hkept : (sized.map (answer 0 ∘ renewed)).getD defaults.blockSize =
        first.options.blockSize := by
      rw [hsize]
      cases hs : sized with
      | none => rfl
      | some asked => exact answer_renewed (huncut asked hs)
    have hechoes : again.accepted = first.accepted := by
      rw [haccepted, htold]
      refine map_echo_renewed fun other hm => ?_
      by_cases hs : sized = some other
      · exact huncut other hs
      · exact not_isCut_of_counted hm hs
    have hsame : again.options = first.options :=
      hoptions.trans (congrArg (fun size => { first.options with blockSize := size }) hkept)
    exact Negotiation.ext hsame hechoes
  · intro asked hs hcut
    obtain ⟨hanswer, hrenewed⟩ := answer_of_isCut hcut
    have hsized : (counted (requested.filterMap ofPair?)).filter (·.name.isBlockSize) = [asked] :=
      (filter_counted _).trans (congrArg Option.toList hs)
    obtain ⟨front, back, hsplit, hfront, -, hback⟩ := List.filter_eq_cons_iff.mp hsized
    have hfront' := map_echo_renewed fun other hm =>
      Bool.eq_false_iff.mpr fun hother => hfront other hm (isBlockSize_of_isCut hother)
    have hback' := map_echo_renewed fun other hm => Bool.eq_false_iff.mpr fun hother =>
      List.filter_eq_nil_iff.mp hback other hm (isBlockSize_of_isCut hother)
    have hecho : asked.echo 0 = (asked.spelled, "65464") := by
      rw [echo, hanswer]
      rfl
    have hecho' : asked.renewed.echo 0 = (asked.spelled, "32768") := by
      rw [echo, hrenewed]
      rfl
    refine ⟨?_, ?_, front.map (echo 0), back.map (echo 0), ?_, ?_⟩
    · rw [hsize, hs]
      exact hanswer
    · refine hoptions.trans (congrArg (fun size => { first.options with blockSize := size }) ?_)
      have hdecided : (sized.map (answer 0 ∘ renewed)).getD defaults.blockSize = 32768 := by
        rw [hs]
        exact hrenewed
      exact hdecided
    · rw [htold, hsplit, List.map_append, List.map_cons, hecho]
    · rw [haccepted, hsplit, List.map_append, List.map_cons, hfront', hback', Function.comp_apply,
        hecho']

/-- A power of two above the maximum, between options that are kept. -/
def oversizedPairs : List (String × String) :=
  [("tsize", "0"), ("timeout", "007"), ("BlkSize2", "777777"), ("blksize", "900"),
    ("utimeout", "2500")]

theorem ofPairs_repeats_grants_oversized :
    let first := ofPairs {} 0 oversizedPairs
    let again := ofPairs {} 0 first.accepted
    first.options.blockSize = 65464 ∧ again.options = { first.options with blockSize := 32768 } ∧
      (∃ front back, first.accepted = front ++ ("BlkSize2", "65464") :: back ∧
        again.accepted = front ++ ("BlkSize2", "32768") :: back) ∧
      ofPairs {} 0 again.accepted = again := by
  intro first again
  have hsized : (oversizedPairs.filterMap ofPair?).find? (·.name.isBlockSize) =
      some { spelled := "BlkSize2", name := .blockSizePower, value := 777777 } := by decide +kernel
  obtain ⟨hsize, hoptions, hechoes⟩ :=
    (ofPairs_repeats_grants {} oversizedPairs).2 _ hsized (by decide)
  refine ⟨hsize, hoptions, hechoes, (ofPairs_repeats_grants {} first.accepted).1 ?_⟩
  have hrounded : (first.accepted.filterMap ofPair?).find? (·.name.isBlockSize) =
      some { spelled := "BlkSize2", name := .blockSizePower, value := 65464 } := by decide +kernel
  intro asked hs
  obtain rfl := Option.some.inj (hrounded.symm.trans hs)
  decide

end Negotiation

end TftpReceiver
