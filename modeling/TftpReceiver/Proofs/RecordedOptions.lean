import TftpReceiver.Proofs.AuditRecords
import TftpReceiver.Proofs.OptionAcks
import TftpReceiver.Proofs.RequestAnswers

/-! What the record of a write request shows of its options, beside what was negotiated for them.
The request is a list in which names may be repeated, and the record an object: under each name, as
it is spelled, it has the value that came last. -/

namespace TftpReceiver

namespace Json

/-- No order is asked of the members: what is put in front of an old value hides it. -/
theorem member?_putMember (name other : String) (value : Json) (members : List (String × Json)) :
    member? name (putMember other value members) =
      if name = other then some value else member? name members := by
  induction members with
  | nil => exact member?_cons name (other, value) []
  | cons member rest ih =>
    rw [putMember]
    by_cases hless : other < member.1
    · rw [if_pos hless, member?_cons]
    rw [if_neg hless]
    by_cases heq : other = member.1
    · rw [if_pos heq, member?_cons, member?_cons, heq]
      split <;> rfl
    rw [if_neg heq, member?_cons, member?_cons, ih]
    by_cases hname : name = member.1
    · have hother : name ≠ other := fun h => heq (h.symm.trans hname)
      rw [if_pos hname, if_pos hname, if_neg hother]
    · rw [if_neg hname, if_neg hname]

end Json

namespace Audit.Detail

variable {options : List (String × String)} {members : List (String × Json)}

/-- The last of the pairs with a name. -/
def lastNamed? (name : String) (options : List (String × String)) : Option (String × String) :=
  (options.filter (·.1 = name)).getLast?

theorem lastNamed?_cons (name : String) (pair : String × String)
    (rest : List (String × String)) :
    lastNamed? name (pair :: rest) =
      (lastNamed? name rest).or (if pair.1 = name then some pair else none) := by
  unfold lastNamed?
  by_cases h : pair.1 = name
  · rw [List.filter_cons_of_pos (by simpa using h), List.getLast?_cons, if_pos h]
    cases (rest.filter (·.1 = name)).getLast? <;> rfl
  · rw [List.filter_cons_of_neg (by simpa using h), if_neg h, Option.or_none]

theorem lastNamed?_behind (front : List (String × String)) (pair : String × String)
    (back : List (String × String)) :
    lastNamed? pair.1 (front ++ pair :: back) = some ((lastNamed? pair.1 back).getD pair) := by
  have hpair : lastNamed? pair.1 (pair :: back) = some ((lastNamed? pair.1 back).getD pair) := by
    rw [lastNamed?_cons, if_pos rfl]
    cases lastNamed? pair.1 back <;> rfl
  induction front with
  | nil => exact hpair
  | cons first rest ih => rw [List.cons_append, lastNamed?_cons, ih, Option.some_or]

theorem name_of_lastNamed? {name : String} {pair : String × String}
    (h : lastNamed? name options = some pair) : pair.1 = name := by
  simpa using (List.mem_filter.mp (List.mem_of_getLast? h)).2

/-- Members that show, under each name and in order, the last pair that came with it. -/
structure Records (members : List (String × Json)) (options : List (String × String)) : Prop where
  sorted : Json.Sorted members
  last : ∀ name, Json.member? name members =
    (lastNamed? name options).map fun pair => .string pair.2

/-- A later pair hides an earlier one with its name, and both hide what is there already. -/
theorem member?_foldl (name : String) (options : List (String × String))
    (front : List (String × Json)) :
    Json.member? name (options.foldl (fun sorted pair =>
        Json.putMember pair.1 (.string pair.2) sorted) front) =
      ((lastNamed? name options).map fun pair => .string pair.2).or (Json.member? name front) := by
  induction options generalizing front with
  | nil => rfl
  | cons pair rest ih =>
    rw [List.foldl_cons, ih, Json.member?_putMember, lastNamed?_cons]
    cases lastNamed? name rest with
    | some last => rfl
    | none =>
      by_cases h : name = pair.1
      · simp [h]
      · simp [h, Ne.symm h]

theorem exists_records (options : List (String × String)) :
    ∃ members, optionMembers options = .object members ∧ Records members options := by
  obtain ⟨members, hmembers, hsorted, -⟩ := exists_optionMembers options
  refine ⟨members, hmembers, hsorted, fun name => ?_⟩
  have hfold : members = options.foldl (fun sorted pair =>
      Json.putMember pair.1 (.string pair.2) sorted) [] := by
    have hobject := hmembers.symm
    rw [optionMembers, Json.ofMembers, List.foldl_map] at hobject
    exact Json.object.inj hobject
  rw [hfold, member?_foldl]
  exact Option.or_none

theorem Records.mem_iff (h : Records members options) (pair : String × String) :
    (pair.1, .string pair.2) ∈ members ↔ lastNamed? pair.1 options = some pair := by
  constructor
  · intro hm
    have hfound := Json.member?_of_nodup h.sorted.nodup hm
    rw [h.last, Option.map_eq_some_iff] at hfound
    obtain ⟨last, hlast, htext⟩ := hfound
    rw [hlast, ← Prod.eta last, name_of_lastNamed? hlast, Json.string.inj htext]
  · intro hlast
    refine Json.mem_of_member? ?_
    rw [h.last, hlast, Option.map_some]

end Audit.Detail

namespace Asked

theorem grant_of_blockSize {asked : Asked} (h : asked.name.isBlockSize = true) :
    asked.grant 0 = .blockSize (asked.answer 0) := by
  rcases asked with ⟨spelled, name, value⟩
  cases name with
  | blockSize | blockSizePower => rfl
  | transferSize | timeoutSeconds | timeoutMillis => cases h

/-- The first usable block size comes from a pair behind others that ask for none. -/
theorem exists_pair_of_find? {options : List (String × String)} {asked : Asked}
    (h : (options.filterMap ofPair?).find? (·.name.isBlockSize) = some asked) :
    ∃ front value back, options = front ++ (asked.spelled, value) :: back ∧
      (∀ pair ∈ front, (Grant.ofPair? 0 pair).any (·.isBlockSize) = false) ∧
      Grant.ofPair? 0 (asked.spelled, value) = some (.blockSize (asked.answer 0)) := by
  have hblock : asked.name.isBlockSize = true := by simpa using List.find?_some h
  rw [List.find?_filterMap, Option.bind_eq_some_iff] at h
  obtain ⟨⟨name, value⟩, hfound, hread⟩ := h
  obtain ⟨-, front, back, hsplit, hfront⟩ := List.find?_eq_some_iff_append.mp hfound
  obtain rfl : asked.spelled = name := (of_pair hread).1
  refine ⟨front, value, back, hsplit, fun pair hp => ?_, ?_⟩
  · have hunsized := hfront pair hp
    rw [grant_of_pair, Option.any_map]
    simp only [isBlockSize_grant]
    simpa using hunsized
  · rw [grant_of_pair, hread, Option.map_some, grant_of_blockSize hblock]

end Asked

namespace Negotiation

open Asked

variable {defaults : TransferOptions} {options : List (String × String)} {echoed : String × String}

theorem blockSize_of_find? {asked : Asked}
    (h : (options.filterMap ofPair?).find? (·.name.isBlockSize) = some asked) :
    (ofPairs defaults 0 options).options.blockSize = asked.answer 0 := by
  rw [ofPairs_eq]
  dsimp only
  rw [head_blockSize?, h, Option.map_some, Option.getD_some]

theorem exists_asked (hm : echoed ∈ (ofPairs defaults 0 options).accepted)
    (hname : OptionName.ofText? echoed.1 = some .blockSize ∨
      OptionName.ofText? echoed.1 = some .blockSizePower) :
    ∃ asked : Asked, (options.filterMap ofPair?).find? (·.name.isBlockSize) = some asked ∧
      echoed = asked.echo 0 := by
  rw [ofPairs_eq] at hm
  obtain ⟨asked, hcounted, rfl⟩ := List.mem_map.mp hm
  obtain ⟨pair, hpair⟩ := exists_pair hcounted
  obtain ⟨hspelled, hnamed, -, -⟩ := of_pair hpair
  rw [← OptionName.ofText?_eq_named?, ← hspelled] at hnamed
  have hblock : asked.name.isBlockSize = true := by
    rcases hname with hname | hname
    · rw [← Option.some.inj (hname.symm.trans hnamed)]
      rfl
    · rw [← Option.some.inj (hname.symm.trans hnamed)]
      rfl
  exact ⟨asked, find?_of_counted hcounted hblock, rfl⟩

/-- A block size that is told to the peer was computed from the first pair that asks for a usable
one. -/
theorem exists_sizing (hm : echoed ∈ (ofPairs defaults 0 options).accepted)
    (hname : OptionName.ofText? echoed.1 = some .blockSize ∨
      OptionName.ofText? echoed.1 = some .blockSizePower) :
    let size := (ofPairs defaults 0 options).options.blockSize
    ∃ front value back, options = front ++ (echoed.1, value) :: back ∧
      (∀ pair ∈ front, (Grant.ofPair? 0 pair).any (·.isBlockSize) = false) ∧
      Grant.ofPair? 0 (echoed.1, value) = some (.blockSize size) ∧
      echoed.2 = Decimal.render size := by
  intro size
  obtain ⟨asked, hfirst, rfl⟩ := exists_asked hm hname
  have hsize : size = asked.answer 0 := blockSize_of_find? hfirst
  obtain ⟨front, value, back, hsplit, hfront, hgrant⟩ := exists_pair_of_find? hfirst
  rw [hsize]
  refine ⟨front, value, back, hsplit, hfront, hgrant, ?_⟩
  rw [echo, Decimal.render_eq_toString]

end Negotiation

namespace Receiver

open Audit (Event)
open Audit.Detail (Records lastNamed? exists_records lastNamed?_behind)
open Session (inboxPeer inboxSession inboxTree)

variable {receiver : Receiver} {tree : FileTree} {now : Nat} {arrival : Arrival}
  {request : Request}

theorem Answers.of_write {notes : List Note} {result : Except Condition Acceptance}
    (h : receiver.Answers tree now arrival notes result)
    (hd : Request.decode arrival.bytes = .ok request) (hw : request.direction = .write) :
    (∃ rest, notes = Receiver.asked now arrival.source request :: rest) ∧
    ∀ acceptance, result = .ok acceptance →
      acceptance.negotiation = Negotiation.ofPairs receiver.defaults 0 request.options := by
  cases h with
  | malformed hd' => cases hd.symm.trans hd'
  | read hd' hk =>
    obtain rfl := Except.ok.inj (hd.symm.trans hd')
    cases hw.symm.trans hk
  | refused hd' | uncreated hd' =>
    obtain rfl := Except.ok.inj (hd.symm.trans hd')
    exact ⟨⟨_, rfl⟩, fun _ hr => nomatch hr⟩
  | accepted hd' =>
    obtain rfl := Except.ok.inj (hd.symm.trans hd')
    refine ⟨⟨_, rfl⟩, fun acceptance hr => ?_⟩
    rw [← Except.ok.inj hr]

/-- The record of a write request has the names that were sent, as they are spelled, and under each
the value that was sent with it last. So it shows a pair unless the last one with that name has
another value, and it shows what a granted block size was computed from unless that name comes once
more, in the same spelling, and last with another value. -/
theorem consider_records_last (receiver : Receiver) (tree : FileTree) (now : Nat)
    (hd : Request.decode arrival.bytes = .ok request) (hw : request.direction = .write) :
    let considered := receiver.consider tree now arrival
    let negotiation := Negotiation.ofPairs receiver.defaults 0 request.options
    (∀ acceptance, considered.2 = .ok acceptance → acceptance.negotiation = negotiation) ∧
    ∃ note rest members, considered.1 = note :: rest ∧
      (∀ timestamp hostname, ∃ fields,
        (Event.make timestamp hostname note.transfer note.detail).toJson = .object fields ∧
        Json.member? "event_type" fields = some (.string "write_request") ∧
        Json.member? "options" fields = some (.object members)) ∧
      Records members request.options ∧
      (∀ pair, (pair.1, .string pair.2) ∈ members ↔
        lastNamed? pair.1 request.options = some pair) ∧
      ∀ echoed ∈ negotiation.accepted,
        OptionName.ofText? echoed.1 = some .blockSize ∨
          OptionName.ofText? echoed.1 = some .blockSizePower →
        ∃ front value back, request.options = front ++ (echoed.1, value) :: back ∧
          (∀ pair ∈ front, (Grant.ofPair? 0 pair).any (·.isBlockSize) = false) ∧
          Grant.ofPair? 0 (echoed.1, value) = some (.blockSize negotiation.options.blockSize) ∧
          echoed.2 = Decimal.render negotiation.options.blockSize ∧
          (Json.member? echoed.1 members = some (.string value) ↔
            ∀ later, lastNamed? echoed.1 back = some later → later.2 = value) := by
  intro considered negotiation
  obtain ⟨⟨rest, hnotes⟩, hnegotiated⟩ :=
    (receiver.consider_answers tree now arrival).of_write hd hw
  obtain ⟨members, hmembers, hrecords⟩ := exists_records request.options
  refine ⟨hnegotiated, _, rest, members, hnotes, fun timestamp hostname => ?_, hrecords,
    hrecords.mem_iff, fun echoed hechoed hname => ?_⟩
  · obtain ⟨fields, hfields, -, hkind, -, hdetail⟩ := Event.exists_toJson
      (Event.make timestamp hostname (asked now arrival.source request).transfer
        (asked now arrival.source request).detail)
    have hoptions : ("options", Json.object members) ∈
        (asked now arrival.source request).detail.members := by
      simp [asked, Audit.Detail.members, hmembers]
    exact ⟨fields, hfields, hkind, hdetail _ hoptions⟩
  · obtain ⟨front, value, back, hsplit, hfront, hgrant, htold⟩ :=
      Negotiation.exists_sizing hechoed hname
    refine ⟨front, value, back, hsplit, hfront, hgrant, htold, ?_⟩
    rw [hrecords.last, hsplit, lastNamed?_behind front (echoed.1, value) back]
    cases lastNamed? echoed.1 back with
    | none => simp
    | some later => simp

/-- A block size in another spelling does not stand in the way, and of two timeouts the record shows
the second one. -/
def respelledRequest : Request :=
  { direction := .write, filename := "a", mode := .octet
    options := [("timeout", "2"), ("blksize", "0"), ("BlkSize", "1024"), ("blksize", "600"),
      ("timeout", "3")] }

def respelledArrival : Arrival :=
  { source := inboxPeer
    bytes := Packet.encodeRequest (.request .write) "a" "octet" respelledRequest.options }

theorem consider_records_last_respelled :
    let considered := inboxSession.receiver.consider inboxTree 0 respelledArrival
    Request.decode respelledArrival.bytes = .ok respelledRequest ∧
    respelledRequest.direction = .write ∧
    ∃ acceptance note rest members, considered.2 = .ok acceptance ∧ considered.1 = note :: rest ∧
      (∃ fields, (Event.make "" "host" note.transfer note.detail).toJson = .object fields ∧
        Json.member? "options" fields = some (.object members)) ∧
      acceptance.negotiation.options.blockSize = 1024 ∧
      Grant.ofPair? 0 ("BlkSize", "1024") = some (.blockSize 1024) ∧
      Json.member? "BlkSize" members = some (.string "1024") ∧
      ("timeout", .string "3") ∈ members ∧ ("timeout", .string "2") ∉ members := by
  intro considered
  have hdecoded : Request.decode respelledArrival.bytes = .ok respelledRequest := by
    decide +kernel
  have hnegotiated : Negotiation.ofPairs inboxSession.receiver.defaults 0
      respelledRequest.options =
        { options := { blockSize := 1024, interval := 3000 }
          accepted := [("timeout", "2"), ("BlkSize", "1024"), ("timeout", "3")] } := by
    decide +kernel
  have haccepted : considered.2.toOption.isSome = true := by decide +kernel
  obtain ⟨acceptance, hacceptance⟩ : ∃ acceptance, considered.2 = .ok acceptance := by
    cases h : considered.2 with
    | error condition =>
      rw [h] at haccepted
      cases haccepted
    | ok acceptance => exact ⟨acceptance, rfl⟩
  obtain ⟨hgranted, note, rest, members, hnotes, hevent, -, hshown, hsized⟩ :=
    consider_records_last inboxSession.receiver inboxTree 0 hdecoded rfl
  obtain ⟨fields, hfields, -, hoptions⟩ := hevent "" "host"
  rw [hnegotiated] at hgranted hsized
  obtain ⟨front, value, back, hsplit, -, hgrant, -, hrecorded⟩ :=
    hsized ("BlkSize", "1024") (by decide) (by decide +kernel)
  obtain rfl : value = "1024" := by
    have hsent : ("BlkSize", value) ∈ respelledRequest.options := by
      rw [hsplit]
      exact List.mem_append_right _ List.mem_cons_self
    simpa [respelledRequest] using hsent
  refine ⟨hdecoded, rfl, acceptance, note, rest, members, hacceptance, hnotes,
    ⟨fields, hfields, hoptions⟩, ?_, hgrant, hrecorded.mpr fun later hlater => ?_,
    (hshown ("timeout", "3")).mpr (by decide +kernel), fun hfirst => ?_⟩
  · rw [hgranted acceptance hacceptance]
  · have hlast : lastNamed? "BlkSize" respelledRequest.options = some ("BlkSize", "1024") := by
      decide +kernel
    rw [hsplit, lastNamed?_behind front ("BlkSize", "1024") back, hlater] at hlast
    exact congrArg Prod.snd (Option.some.inj hlast)
  · exact absurd ((hshown ("timeout", "2")).mp hfirst) (by decide +kernel)

/-- A block size, and another one in the same spelling. -/
def resizedRequest : Request :=
  { direction := .write, filename := "a", mode := .octet
    options := [("blksize", "1024"), ("blksize", "600")] }

def resizedArrival : Arrival :=
  { source := inboxPeer
    bytes := Packet.encodeRequest (.request .write) "a" "octet" resizedRequest.options }

/-- The first block size is granted, and the record shows the second one alone. -/
theorem consider_records_second_size :
    let considered := inboxSession.receiver.consider inboxTree 0 resizedArrival
    let shown := [("blksize", Json.string "600")]
    Request.decode resizedArrival.bytes = .ok resizedRequest ∧
    (considered.2.toOption.map (·.negotiation)) =
      some { options := { blockSize := 1024 }, accepted := [("blksize", "1024")] } ∧
    (∃ note rest, considered.1 = note :: rest ∧
      note.detail = .writeRequest "10.0.0.7:4000" "a" "octet" (.object shown)) ∧
    ¬ (∀ pair ∈ resizedRequest.options, (pair.1, Json.string pair.2) ∈ shown) ∧
    Json.member? "blksize" shown ≠ some (.string "1024") := by
  intro considered shown
  have hdecoded : Request.decode resizedArrival.bytes = .ok resizedRequest := by decide +kernel
  have hnegotiated : (considered.2.toOption.map (·.negotiation)) =
      some { options := { blockSize := 1024 }, accepted := [("blksize", "1024")] } := by
    decide +kernel
  obtain ⟨⟨rest, hnotes⟩, -⟩ :=
    (inboxSession.receiver.consider_answers inboxTree 0 resizedArrival).of_write hdecoded rfl
  have hshown : Audit.Detail.optionMembers resizedRequest.options = .object shown := by
    simp [Audit.Detail.optionMembers, resizedRequest, Json.ofMembers, Json.putMember, shown]
  have hclient : inboxPeer.render = "10.0.0.7:4000" := by decide +kernel
  refine ⟨hdecoded, hnegotiated, ⟨_, rest, hnotes, ?_⟩, ?_, ?_⟩
  · rw [asked, hshown]
    exact congrArg (Audit.Detail.writeRequest · "a" "octet" (.object shown)) hclient
  · simp [resizedRequest, shown]
  · simp [shown, Json.member?]

end Receiver

end TftpReceiver
