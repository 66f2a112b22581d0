import Mathlib.Data.Nat.Find
import TftpReceiver.Negotiation
import TftpReceiver.Proofs.Numerals

/-! What a negotiation comes to, told without its loop: the first usable block size, the last
usable timeout and the last declared size, and an answer to every usable pair but to further
block sizes. -/

namespace TftpReceiver

namespace OptionName

def all : List OptionName :=
  [blockSize, blockSizePower, transferSize, timeoutSeconds, timeoutMillis]

def spelling : OptionName → String
  | blockSize => "blksize"
  | blockSizePower => "blksize2"
  | transferSize => "tsize"
  | timeoutSeconds => "timeout"
  | timeoutMillis => "utimeout"

/-- The option whose name a text is, in any case. -/
def named? (text : String) : Option OptionName :=
  all.find? fun name => text.toList.map Char.toLower = name.spelling.toList

def permits : OptionName → Nat → Bool
  | blockSize, value | blockSizePower, value => 8 ≤ value
  | transferSize, _ => true
  | timeoutSeconds, value => 1 ≤ value ∧ value ≤ 255
  | timeoutMillis, value => 1000 ≤ value ∧ value ≤ 255000

def isBlockSize : OptionName → Bool
  | blockSize | blockSizePower => true
  | _ => false

theorem ofText?_eq_named? (text : String) : ofText? text = named? text := by
  have hlist : ∀ s : String, String.ofList (text.toList.map Char.toLower) = s ↔
      text.toList.map Char.toLower = s.toList := fun s => by
    rw [← String.toList_inj, String.toList_ofList]
  unfold ofText? named?
  split
  case h_6 h1 h2 h3 h4 h5 =>
    refine (List.find?_eq_none.mpr fun name _ h => ?_).symm
    have hname := (hlist _).mpr (of_decide_eq_true h)
    cases name with
    | blockSize => exact h1 hname
    | blockSizePower => exact h2 hname
    | transferSize => exact h3 hname
    | timeoutSeconds => exact h4 hname
    | timeoutMillis => exact h5 hname
  all_goals
    next h =>
      rw [(hlist _).mp h]
      rfl

end OptionName

/-- A usable pair: its name as it is spelled, the option and the number. -/
structure Asked where
  spelled : String
  name : OptionName
  value : Nat
  deriving DecidableEq

namespace Asked

def ofPair? (pair : String × String) : Option Asked := do
  let name ← OptionName.named? pair.1
  let value ← Decimal.parse? Decimal.maxWord64 pair.2
  if name.permits value then some { spelled := pair.1, name, value } else none

/-- Where a power of two is wanted: the largest one up to the number, which is not rounded but cut
where it is too large. -/
def powerSize (value : Nat) : Nat :=
  if 65464 < value then 65464 else Nat.findGreatest Nat.isPowerOfTwo value

def blockSize? (asked : Asked) : Option Nat :=
  match asked.name with
  | .blockSize => some (min asked.value 65464)
  | .blockSizePower => some (powerSize asked.value)
  | _ => none

def interval? (asked : Asked) : Option Nat :=
  match asked.name with
  | .timeoutSeconds => some (asked.value * 1000)
  | .timeoutMillis => some asked.value
  | _ => none

def declaredSize? (asked : Asked) : Option Nat :=
  match asked.name with
  | .transferSize => if asked.value = 0 then none else some asked.value
  | _ => none

/-- The number told to the peer. -/
def answer (knownSize : Nat) (asked : Asked) : Nat :=
  match asked.name with
  | .blockSize => min asked.value 65464
  | .blockSizePower => powerSize asked.value
  | .transferSize => if asked.value = 0 then knownSize else asked.value
  | .timeoutSeconds | .timeoutMillis => asked.value

def echo (knownSize : Nat) (asked : Asked) : String × String :=
  (asked.spelled, toString (asked.answer knownSize))

/-- All but the block sizes behind the first one. -/
def counted : List Asked → List Asked
  | [] => []
  | asked :: rest =>
    asked :: if asked.name.isBlockSize then rest.filter (¬ ·.name.isBlockSize) else counted rest

def grant (knownSize : Nat) (asked : Asked) : Grant :=
  match asked.name with
  | .blockSize => .blockSize (min asked.value 65464)
  | .blockSizePower => .blockSize (powerSize asked.value)
  | .transferSize => if asked.value = 0 then .sizeQuery knownSize else .declaredSize asked.value
  | .timeoutSeconds => .seconds asked.value
  | .timeoutMillis => .millis asked.value

theorem powerSize_eq {value : Nat} (h : value ≤ 65464) (hpos : 0 < value) :
    powerSize value = Nat.pow 2 value.log2 := by
  rw [powerSize, if_neg (by omega), Nat.pow_eq, Nat.findGreatest_eq_iff]
  refine ⟨Nat.log2_self_le (by omega), fun _ => ⟨_, rfl⟩, ?_⟩
  rintro n hlt hle ⟨k, rfl⟩
  have hk : k ≤ value.log2 := (Nat.le_log2 (by omega)).mpr hle
  have hpow : 2 ^ k ≤ 2 ^ value.log2 := Nat.pow_le_pow_right (by decide) hk
  omega

theorem powerSize_le {value : Nat} : powerSize value ≤ value := by
  unfold powerSize
  split
  · omega
  · exact Nat.findGreatest_le value

theorem grantedBlockSize?_eq (value : Nat) (powerOfTwo : Bool) :
    grantedBlockSize? value powerOfTwo =
      if 8 ≤ value then some (if powerOfTwo then powerSize value else min value 65464)
      else none := by
  have hmin : Packet.minBlockSize = 8 := rfl
  have hmax : Packet.maxBlockSize = 65464 := rfl
  unfold grantedBlockSize?
  by_cases hsmall : value < Packet.minBlockSize
  · rw [if_pos hsmall, if_neg (show ¬ 8 ≤ value by omega)]
  rw [if_neg hsmall, if_pos (show 8 ≤ value by omega)]
  by_cases hlarge : Packet.maxBlockSize < value
  · rw [if_pos hlarge, powerSize, if_pos (show 65464 < value by omega),
      Nat.min_eq_right (by omega), ite_self, hmax]
  · rw [if_neg hlarge, powerSize_eq (by omega) (by omega), Nat.min_eq_left (by omega)]
    cases powerOfTwo <;> rfl

theorem ofValue?_eq (knownSize : Nat) (spelled : String) (name : OptionName) (value : Nat) :
    Grant.ofValue? knownSize name value =
      if name.permits value then some (grant knownSize { spelled, name, value }) else none := by
  cases name with
  | transferSize => rfl
  | timeoutSeconds | timeoutMillis => simp [Grant.ofValue?, OptionName.permits, grant]
  | blockSize | blockSizePower =>
    by_cases hlarge : 8 ≤ value <;>
      simp [Grant.ofValue?, grantedBlockSize?_eq, OptionName.permits, grant, hlarge]

theorem grant_of_pair (knownSize : Nat) (pair : String × String) :
    Grant.ofPair? knownSize pair = (ofPair? pair).map (grant knownSize) := by
  unfold Grant.ofPair? ofPair?
  rw [OptionName.ofText?_eq_named?]
  cases OptionName.named? pair.1 with
  | none => rfl
  | some name =>
    cases Decimal.parse? Decimal.maxWord64 pair.2 with
    | none => rfl
    | some value =>
      simp only [Option.bind_eq_bind, Option.bind_some, ofValue?_eq knownSize pair.1]
      split <;> rfl

theorem isBlockSize_grant (knownSize : Nat) (asked : Asked) :
    (asked.grant knownSize).isBlockSize = asked.name.isBlockSize := by
  rcases asked with ⟨spelled, name, value⟩
  cases name with
  | transferSize =>
    simp only [grant]
    split <;> rfl
  | blockSize | blockSizePower | timeoutSeconds | timeoutMillis => rfl

theorem echoed_grant (knownSize : Nat) (asked : Asked) :
    (asked.grant knownSize).echoed = asked.answer knownSize := by
  rcases asked with ⟨spelled, name, value⟩
  cases name with
  | transferSize =>
    simp only [grant, answer]
    split <;> rfl
  | blockSize | blockSizePower | timeoutSeconds | timeoutMillis => rfl

theorem apply_grant (knownSize : Nat) (asked : Asked) (options : TransferOptions) :
    (asked.grant knownSize).apply options =
      { blockSize := asked.blockSize?.getD options.blockSize
        interval := asked.interval?.getD options.interval
        declaredSize := asked.declaredSize?.getD options.declaredSize } := by
  rcases asked with ⟨spelled, name, value⟩
  cases name with
  | transferSize =>
    simp only [grant, blockSize?, interval?, declaredSize?]
    split <;> rfl
  | blockSize | blockSizePower | timeoutSeconds | timeoutMillis => rfl

theorem of_pair {pair : String × String} {asked : Asked} (h : ofPair? pair = some asked) :
    asked.spelled = pair.1 ∧ OptionName.named? pair.1 = some asked.name ∧
      Decimal.parse? Decimal.maxWord64 pair.2 = some asked.value ∧
      asked.name.permits asked.value = true := by
  simp only [ofPair?, Option.bind_eq_bind, Option.bind_eq_some_iff, Option.ite_none_right_eq_some,
    Option.some.injEq] at h
  obtain ⟨name, hname, value, hvalue, hpermits, rfl⟩ := h
  exact ⟨rfl, hname, hvalue, hpermits⟩

/-- No more is granted than was asked for, where no size is known. -/
theorem answer_le (asked : Asked) : asked.answer 0 ≤ asked.value := by
  rcases asked with ⟨spelled, name, value⟩
  cases name with
  | blockSize => exact Nat.min_le_left _ _
  | blockSizePower => exact powerSize_le
  | transferSize =>
    simp only [answer]
    split <;> omega
  | timeoutSeconds | timeoutMillis => exact Nat.le_refl _

theorem settings_of_blockSize {asked : Asked} (h : asked.name.isBlockSize = true) :
    asked.blockSize? = some (asked.answer 0) ∧ asked.interval? = none ∧
      asked.declaredSize? = none := by
  rcases asked with ⟨spelled, name, value⟩
  cases name with
  | blockSize | blockSizePower => exact ⟨rfl, rfl, rfl⟩
  | transferSize | timeoutSeconds | timeoutMillis => cases h

theorem blockSize?_of_other {asked : Asked} (h : asked.name.isBlockSize = false) :
    asked.blockSize? = none := by
  rcases asked with ⟨spelled, name, value⟩
  cases name with
  | blockSize | blockSizePower => cases h
  | transferSize | timeoutSeconds | timeoutMillis => rfl

theorem first_cons (setting? : Asked → Option Nat) (asked : Asked) (rest : List Asked)
    (default : Nat) :
    ((asked :: rest).filterMap setting?).head?.getD default =
      (setting? asked).getD ((rest.filterMap setting?).head?.getD default) := by
  rw [List.filterMap_cons]
  cases setting? asked <;> rfl

theorem last_cons (setting? : Asked → Option Nat) (asked : Asked) (rest : List Asked)
    (default : Nat) :
    ((asked :: rest).filterMap setting?).getLast?.getD default =
      (rest.filterMap setting?).getLast?.getD ((setting? asked).getD default) := by
  rw [List.filterMap_cons]
  cases setting? asked with
  | none => rfl
  | some n => rw [List.getLast?_cons, Option.getD_some, Option.getD_some]

theorem counted_sublist (asked : List Asked) : (counted asked).Sublist asked := by
  induction asked with
  | nil => exact List.Sublist.refl _
  | cons first rest ih =>
    rw [counted]
    split
    · exact List.filter_sublist.cons_cons first
    · exact ih.cons_cons first

theorem filter_counted (asked : List Asked) :
    (counted asked).filter (·.name.isBlockSize) = (asked.find? (·.name.isBlockSize)).toList := by
  induction asked with
  | nil => rfl
  | cons first rest ih =>
    cases hb : first.name.isBlockSize with
    | false => simp [counted, hb, ih]
    | true => simp [counted, hb]

/-- At most one block size counts, the first one. -/
theorem find?_of_counted {asked : List Asked} {sized : Asked} (hm : sized ∈ counted asked)
    (hb : sized.name.isBlockSize = true) : asked.find? (·.name.isBlockSize) = some sized := by
  have hfiltered : sized ∈ (counted asked).filter (·.name.isBlockSize) :=
    List.mem_filter.mpr ⟨hm, hb⟩
  rwa [filter_counted, Option.mem_toList] at hfiltered

theorem filterMap_counted {setting? : Asked → Option Nat}
    (h : ∀ asked : Asked, asked.name.isBlockSize = true → setting? asked = none)
    (asked : List Asked) : (counted asked).filterMap setting? = asked.filterMap setting? := by
  induction asked with
  | nil => rfl
  | cons first rest ih =>
    cases hb : first.name.isBlockSize with
    | false => simp only [counted, hb, Bool.false_eq_true, if_false, List.filterMap_cons, ih]
    | true =>
      have hrest : (rest.filter (¬ ·.name.isBlockSize)).filterMap setting? =
          rest.filterMap setting? := by
        rw [List.filterMap_filter]
        congr 1
        funext asked
        cases hb : asked.name.isBlockSize with
        | false => simp
        | true => simp [h asked hb]
      simp only [counted, hb, if_true, List.filterMap_cons, hrest]

theorem first_counted (asked : List Asked) (default : Nat) :
    ((counted asked).filterMap blockSize?).head?.getD default =
      (asked.filterMap blockSize?).head?.getD default := by
  induction asked with
  | nil => rfl
  | cons first rest ih =>
    cases hb : first.name.isBlockSize with
    | false =>
      simp only [counted, hb, Bool.false_eq_true, if_false, first_cons, ih]
    | true =>
      obtain ⟨hsize, -, -⟩ := settings_of_blockSize hb
      simp only [counted, first_cons, hsize, Option.getD_some]

/-- What is left of the usable pairs once a block size was granted, or none was yet. -/
def remaining (sized : Bool) (asked : List Asked) : List Asked :=
  if sized then asked.filter (¬ ·.name.isBlockSize) else counted asked

theorem remaining_cons_other {asked : Asked} (h : asked.name.isBlockSize = false) (sized : Bool)
    (rest : List Asked) : remaining sized (asked :: rest) = asked :: remaining sized rest := by
  cases sized <;> simp [remaining, counted, h]

theorem remaining_sized_cons {asked : Asked} (h : asked.name.isBlockSize = true)
    (rest : List Asked) : remaining true (asked :: rest) = remaining true rest := by
  simp [remaining, h]

theorem remaining_first_cons {asked : Asked} (h : asked.name.isBlockSize = true)
    (rest : List Asked) : remaining false (asked :: rest) = asked :: remaining true rest := by
  simp [remaining, counted, h]

end Asked

namespace Negotiation

open Asked

theorem extend_eq (knownSize : Nat) (options : TransferOptions) (sized : Bool)
    (requested : List (String × String)) :
    let asked := requested.filterMap ofPair?
    extend knownSize options sized requested =
      { options :=
          { blockSize := if sized then options.blockSize
              else (asked.filterMap blockSize?).head?.getD options.blockSize
            interval := (asked.filterMap interval?).getLast?.getD options.interval
            declaredSize := (asked.filterMap declaredSize?).getLast?.getD options.declaredSize }
        accepted := (remaining sized asked).map (echo knownSize) } := by
  induction requested generalizing options sized with
  | nil => cases sized <;> rfl
  | cons pair rest ih =>
    rw [extend, grant_of_pair]
    cases hp : ofPair? pair with
    | none => simp only [Option.map_none, ih, List.filterMap_cons, hp]
    | some asked =>
      have hecho : (pair.1, Decimal.render (answer knownSize asked)) = echo knownSize asked := by
        rw [echo, (of_pair hp).1, Decimal.render_eq_toString]
      simp only [Option.map_some, ih, List.filterMap_cons_some hp, isBlockSize_grant, echoed_grant,
        apply_grant, hecho, first_cons, last_cons]
      cases hb : asked.name.isBlockSize with
      | false =>
        simp only [Bool.false_and, Bool.or_false, Bool.false_eq_true, if_false,
          remaining_cons_other hb, blockSize?_of_other hb, Option.getD_none, List.map_cons]
      | true =>
        obtain ⟨hsize, hinterval, hdeclared⟩ := settings_of_blockSize hb
        cases sized with
        | true =>
          simp only [Bool.and_self, if_true, remaining_sized_cons hb, hinterval, hdeclared,
            Option.getD_none]
        | false =>
          simp only [Bool.and_false, Bool.false_eq_true, if_false, Bool.false_or, if_true,
            remaining_first_cons hb, hsize, hinterval, hdeclared, Option.getD_none,
            Option.getD_some, List.map_cons]

theorem ofPairs_eq (defaults : TransferOptions) (knownSize : Nat)
    (requested : List (String × String)) :
    let asked := requested.filterMap ofPair?
    ofPairs defaults knownSize requested =
      { options :=
          { blockSize := (asked.filterMap blockSize?).head?.getD defaults.blockSize
            interval := (asked.filterMap interval?).getLast?.getD defaults.interval
            declaredSize := (asked.filterMap declaredSize?).getLast?.getD defaults.declaredSize }
        accepted := (counted asked).map (echo knownSize) } :=
  extend_eq knownSize defaults false requested

/-- The first usable block size, the last usable timeout and the last declared size are granted,
and all usable pairs but further block sizes are answered in their order. Other pairs have no
effect, wherever they stand. -/
theorem ofPairs_grants_usable (defaults : TransferOptions) (knownSize : Nat)
    (requested : List (String × String)) :
    let asked := requested.filterMap ofPair?
    ofPairs defaults knownSize requested =
      { options :=
          { blockSize := (asked.filterMap blockSize?).head?.getD defaults.blockSize
            interval := (asked.filterMap interval?).getLast?.getD defaults.interval
            declaredSize := (asked.filterMap declaredSize?).getLast?.getD defaults.declaredSize }
        accepted := (counted asked).map (echo knownSize) } ∧
    ∀ other : List (String × String), counted (other.filterMap ofPair?) = counted asked →
      ofPairs defaults knownSize other = ofPairs defaults knownSize requested := by
  intro asked
  refine ⟨ofPairs_eq defaults knownSize requested, fun other hcounted => ?_⟩
  have hinterval := filterMap_counted fun asked hb => (settings_of_blockSize hb).2.1
  have hdeclared := filterMap_counted fun asked hb => (settings_of_blockSize hb).2.2
  rw [ofPairs_eq, ofPairs_eq, ← first_counted, ← first_counted (requested.filterMap ofPair?),
    ← hinterval, ← hinterval (requested.filterMap ofPair?), ← hdeclared,
    ← hdeclared (requested.filterMap ofPair?), hcounted]

def crowdedPairs : List (String × String) :=
  [("blksize", "7"), ("timeout", "+3"), ("BlkSize2", "1000"), ("windowsize", "4"),
    ("blksize", "900"), ("tsize", "0"), ("utimeout", "02500"), ("timeout", "256"), ("tsize", "5")]

theorem ofPairs_grants_crowded_request :
    ofPairs {} 42 crowdedPairs =
      { options := { blockSize := 512, interval := 2500, declaredSize := 5 }
        accepted := [("timeout", "3"), ("BlkSize2", "512"), ("tsize", "42"), ("utimeout", "2500"),
          ("tsize", "5")] } ∧
    ofPairs {} 42 [("timeout", "+3"), ("BlkSize2", "1000"), ("tsize", "0"), ("utimeout", "02500"),
      ("tsize", "5")] = ofPairs {} 42 crowdedPairs := by
  obtain ⟨hgranted, hcounts⟩ := ofPairs_grants_usable {} 42 crowdedPairs
  refine ⟨hgranted.trans ?_, hcounts _ ?_⟩
  · decide +kernel
  · decide +kernel

end Negotiation

end TftpReceiver
