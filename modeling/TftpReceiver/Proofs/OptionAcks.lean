import Mathlib.Data.List.Flatten
import TftpReceiver.Proofs.NegotiatedOptions
import TftpReceiver.Proofs.RequestGrammar
import TftpReceiver.Proofs.ServedUpload

/-! What a peer reads from the option acknowledgement is what the transfer goes by, and the
acknowledgement is never longer than the request that it answers. -/

namespace TftpReceiver

namespace OptionName

theorem toLower_cases (c : Char) : c.toLower = c ∨ 65 ≤ c.toNat ∧ c.toNat ≤ 90 := by
  unfold Char.toLower
  split
  · next h => exact .inr h
  · exact .inl rfl

theorem plain_of_spelling (name : OptionName) :
    name.spelling.toList ≠ [] ∧
      name.spelling.toList.all (fun c => 0 < c.toNat ∧ c.toNat < 128) = true := by
  cases name <;> decide

/-- Only plain letters are read as the letters of an option. -/
theorem plain_of_named? {text : String} {name : OptionName} (h : named? text = some name) :
    text ≠ "" ∧ ∀ c ∈ text.toList, 0 < c.toNat ∧ c.toNat < 128 := by
  have hlower : text.toList.map Char.toLower = name.spelling.toList := by
    simpa using List.find?_some h
  obtain ⟨hne, hplain⟩ := plain_of_spelling name
  constructor
  · rintro rfl
    exact hne hlower.symm
  · intro c hc
    have hspelled := List.mem_map_of_mem (f := Char.toLower) hc
    rw [hlower] at hspelled
    rcases toLower_cases c with hself | hupper
    · rw [hself] at hspelled
      exact of_decide_eq_true (List.all_eq_true.mp hplain c hspelled)
    · omega

end OptionName

namespace Asked

open Request

variable {asked : Asked}

theorem zero_notMem_toString (n : Nat) : '\x00' ∉ (toString n).toList := by
  rw [← Decimal.render_eq_toString, Decimal.render, String.toList_ofList]
  intro h
  exact absurd (Nat.isDigit_of_mem_toDigits (by decide) (by decide) h) (by decide)

theorem isPair_echo {pair : String × String} (h : ofPair? pair = some asked) :
    IsPair (encodedPair (asked.echo 0)) := by
  obtain ⟨hspelled, hname, -, -⟩ := of_pair h
  obtain ⟨hne, hplain⟩ := OptionName.plain_of_named? hname
  rw [isPair_encodedPair, echo, hspelled]
  refine ⟨hne, fun hzero => ?_, zero_notMem_toString _⟩
  exact absurd (hplain _ hzero).1 (by decide)

/-- An answer takes no more room than the pair that asked for it. -/
theorem length_echo_le {pair : Bytes × Bytes} (h : ofPair? (lossyPair pair) = some asked) :
    (pairBytes (encodedPair (asked.echo 0))).length ≤ (pairBytes pair).length := by
  obtain ⟨hspelled, hname, hvalue, -⟩ := of_pair h
  have hplain : ∀ c ∈ (lossyPair pair).1.toList, c.toNat < 128 := fun c hc =>
    ((OptionName.plain_of_named? hname).2 c hc).2
  have hdigits := Decimal.ascii_of_parse? hvalue
  have hname' : (Utf8.encode asked.spelled).length = pair.1.length := by
    rw [hspelled, lossyPair, Utf8.encode_decodeLossy hplain]
  have hanswer : (Utf8.encode (toString (asked.answer 0))).length ≤ pair.2.length := by
    have hshort := Decimal.length_render_le hvalue asked.answer_le
    have hascii := Decimal.ascii_of_parse?
      (Decimal.parse?_render (n := asked.answer 0) (Nat.le_refl _))
    rw [← Decimal.render_eq_toString, Utf8.length_encode_ascii hascii]
    rw [← Utf8.length_encode_ascii hdigits, lossyPair, Utf8.encode_decodeLossy hdigits] at hshort
    exact hshort
  simp only [pairBytes, encodedPair, echo, List.length_append, List.length_cons, List.length_nil]
  omega

theorem length_echoes_le (pairs : List (Bytes × Bytes)) :
    (Packet.encodePairs (((pairs.map lossyPair).filterMap ofPair?).map (echo 0))).length ≤
      (pairs.flatMap pairBytes).length := by
  rw [encodePairs_eq]
  induction pairs with
  | nil => exact Nat.le_refl _
  | cons pair rest ih =>
    rw [List.map_cons, List.filterMap_cons, List.flatMap_cons, List.length_append]
    cases h : ofPair? (lossyPair pair) with
    | none => exact Nat.le_trans ih (Nat.le_add_left _ _)
    | some asked =>
      have hfirst := length_echo_le h
      simp only [List.map_cons, List.flatMap_cons, List.length_append]
      omega

theorem length_counted_le (asked : List Asked) :
    (Packet.encodePairs ((counted asked).map (echo 0))).length ≤
      (Packet.encodePairs (asked.map (echo 0))).length :=
  (((counted_sublist asked).map _).flatMap _).length_le

/-- What an acknowledged pair tells a peer, who reads the name in any case. -/
def told? (pair : String × String) : Option (OptionName × Nat) := do
  return (← OptionName.named? pair.1, ← Decimal.parse? Decimal.maxWord64 pair.2)

def toldInterval? : OptionName × Nat → Option Nat
  | (.timeoutSeconds, count) => some (count * 1000)
  | (.timeoutMillis, count) => some count
  | _ => none

def tells (asked : Asked) : OptionName × Nat := (asked.name, asked.answer 0)

theorem told?_echo {pair : String × String} (h : ofPair? pair = some asked) :
    told? (asked.echo 0) = some asked.tells := by
  obtain ⟨hspelled, hname, hvalue, -⟩ := of_pair h
  obtain ⟨-, -, -, -, -, hlimit⟩ := Decimal.parse?_eq_some_iff.mp hvalue
  have hanswer := Decimal.parse?_render (Nat.le_trans asked.answer_le hlimit)
  rw [Decimal.render_eq_toString] at hanswer
  simp only [told?, echo, hspelled, hname, hanswer, tells, Option.bind_eq_bind, Option.bind_some,
    Option.pure_def]

theorem toldInterval?_tells (asked : Asked) : toldInterval? asked.tells = asked.interval? := by
  rcases asked with ⟨spelled, name, value⟩
  cases name <;> rfl

theorem head_blockSize? (asked : List Asked) :
    (asked.filterMap blockSize?).head? =
      (asked.find? (·.name.isBlockSize)).map (answer 0) := by
  induction asked with
  | nil => rfl
  | cons first rest ih =>
    cases hb : first.name.isBlockSize with
    | false => simp [blockSize?_of_other hb, hb, ih]
    | true => simp [(settings_of_blockSize hb).1, hb]

theorem filter_tells (asked : List Asked) :
    ((counted asked).map tells).filter (·.1.isBlockSize) =
      ((asked.find? (·.name.isBlockSize)).map tells).toList := by
  rw [List.filter_map, Function.comp_def]
  simp only [tells, filter_counted, Option.toList_map]

theorem filterMap_tells (asked : List Asked) :
    ((counted asked).map tells).filterMap toldInterval? = asked.filterMap interval? := by
  rw [List.filterMap_map, Function.comp_def]
  simp only [toldInterval?_tells]
  exact filterMap_counted (fun asked hb => (settings_of_blockSize hb).2.1) asked

end Asked

namespace Negotiation

open Asked

variable (defaults : TransferOptions) (options : List (String × String))

theorem exists_pair {options : List (String × String)} {asked : Asked}
    (h : asked ∈ counted (options.filterMap ofPair?)) : ∃ pair, ofPair? pair = some asked := by
  obtain ⟨pair, -, hpair⟩ := List.mem_filterMap.mp ((counted_sublist _).mem h)
  exact ⟨pair, hpair⟩

/-- A peer that takes the acknowledgement apart as requests are taken apart finds what is
granted. -/
theorem lossy_pairs?_accepted :
    (Request.pairs? (Packet.encodePairs (ofPairs defaults 0 options).accepted)).map
      (List.map Request.lossyPair) = some (ofPairs defaults 0 options).accepted := by
  rw [ofPairs_eq]
  have hpairs : ∀ pair ∈ ((counted (options.filterMap ofPair?)).map (echo 0)).map
      Request.encodedPair, Request.IsPair pair := by
    intro pair hp
    simp only [List.map_map, List.mem_map, Function.comp_apply] at hp
    obtain ⟨asked, hasked, rfl⟩ := hp
    obtain ⟨requested, hrequested⟩ := exists_pair hasked
    exact isPair_echo hrequested
  have hread := Request.pairs?_eq_some_iff.mpr ⟨hpairs, 0, rfl⟩
  rw [List.replicate_zero, List.append_nil, ← Request.encodePairs_eq] at hread
  rw [hread]
  simp [Function.comp_def, Request.lossyPair_encodedPair]

theorem map_told?_accepted :
    (ofPairs defaults 0 options).accepted.map told? =
      ((counted (options.filterMap ofPair?)).map tells).map some := by
  rw [ofPairs_eq, List.map_map, List.map_map]
  refine List.map_congr_left fun asked hasked => ?_
  obtain ⟨requested, hrequested⟩ := exists_pair hasked
  exact told?_echo hrequested

theorem blockSize_told :
    let told := (counted (options.filterMap ofPair?)).map tells
    let size := (ofPairs defaults 0 options).options.blockSize
    told.filter (·.1.isBlockSize) = [] ∧ size = defaults.blockSize ∨
      ∃ name, told.filter (·.1.isBlockSize) = [(name, size)] := by
  intro told size
  have hsize : size = ((options.filterMap ofPair?).filterMap blockSize?).head?.getD
      defaults.blockSize := congrArg (·.options.blockSize) (ofPairs_eq defaults 0 options)
  rw [head_blockSize?] at hsize
  rw [filter_tells]
  cases hfound : (options.filterMap ofPair?).find? (·.name.isBlockSize) with
  | none =>
    rw [hfound] at hsize
    exact .inl ⟨rfl, hsize⟩
  | some asked =>
    rw [hfound] at hsize
    exact .inr ⟨asked.name, by rw [hsize]; rfl⟩

theorem interval_told :
    (ofPairs defaults 0 options).options.interval =
      (((counted (options.filterMap ofPair?)).map tells).filterMap toldInterval?).getLast?.getD
        defaults.interval := by
  rw [filterMap_tells, ofPairs_eq]

theorem optionAck?_eq_none (negotiation : Negotiation) :
    negotiation.optionAck? = none ↔ negotiation.accepted = [] := by
  unfold optionAck?
  split
  · next h => simp [h]
  · next h => simp [h]

theorem optionAck?_eq_some {negotiation : Negotiation} {packet : Bytes}
    (h : negotiation.optionAck? = some packet) :
    packet = Bytes.ofWord Opcode.optionAck.word ++ Packet.encodePairs negotiation.accepted := by
  unfold optionAck? at h
  split at h
  · cases h
  · exact (Option.some.inj h).symm

/-- The request has room for every answer to it. -/
theorem length_optionAck_le {bytes packet : Bytes} {request : Request}
    (h : Request.decode bytes = .ok request)
    (hack : (ofPairs defaults 0 request.options).optionAck? = some packet) :
    packet.length ≤ bytes.length := by
  obtain ⟨layout, rfl, hdenotes⟩ := Request.decode_eq_ok_iff.mp h
  have haccepted := length_counted_le (request.options.filterMap ofPair?)
  have hanswers := length_echoes_le layout.pairs
  rw [← hdenotes.options] at hanswers
  rw [optionAck?_eq_some hack, ofPairs_eq]
  simp only [Request.Layout.bytes, Request.Layout.body, Request.Layout.options,
    Request.Layout.length_opening, List.length_append, List.length_cons, Bytes.ofWord_length]
  omega

end Negotiation

namespace Session

open Asked

theorem begin_starts (session : Session) (now : Nat) (acceptance : Acceptance) :
    let begun := session.begin now acceptance
    ∃ active, begun.2.stage = .transferring active ∧
      .send .transfer acceptance.peer
        (acceptance.negotiation.optionAck?.getD (Packet.encodeAck 0)) ∈ begun.1 ∧
      active.transfer.blockSize = acceptance.negotiation.options.blockSize ∧
      active.transfer.timer.interval = acceptance.negotiation.options.interval := by
  refine ⟨_, rfl, ?_, ?_, ?_⟩
  · exact List.mem_append_right _ List.mem_cons_self
  · rfl
  · rfl

/-- A peer is told of every option that is granted, in a packet that is no longer than the request,
and what it is told is what the transfer starts with. -/
theorem begin_keeps_acknowledged {bytes : Bytes} {request : Request}
    (h : Request.decode bytes = .ok request) (defaults : TransferOptions) (session : Session)
    (now : Nat) (acceptance : Acceptance) :
    let negotiation := Negotiation.ofPairs defaults 0 request.options
    let begun := session.begin now { acceptance with negotiation }
    (negotiation.optionAck? = none ↔ negotiation.accepted = []) ∧
    (∀ packet, negotiation.optionAck? = some packet →
      packet.take 2 = Bytes.ofWord Opcode.optionAck.word ∧
      (Request.pairs? (packet.drop 2)).map (List.map Request.lossyPair) =
        some negotiation.accepted ∧
      packet.length ≤ bytes.length) ∧
    ∃ active, begun.2.stage = .transferring active ∧
      .send .transfer acceptance.peer (negotiation.optionAck?.getD (Packet.encodeAck 0)) ∈ begun.1 ∧
      ∃ told : List (OptionName × Nat), negotiation.accepted.map told? = told.map some ∧
        (told.filter (·.1.isBlockSize) = [] ∧ active.transfer.blockSize = defaults.blockSize ∨
          ∃ name, told.filter (·.1.isBlockSize) = [(name, active.transfer.blockSize)]) ∧
        active.transfer.timer.interval =
          (told.filterMap toldInterval?).getLast?.getD defaults.interval := by
  intro negotiation begun
  refine ⟨negotiation.optionAck?_eq_none, fun packet hack => ⟨?_, ?_, ?_⟩, ?_⟩
  · rw [Negotiation.optionAck?_eq_some hack]
    rfl
  · rw [Negotiation.optionAck?_eq_some hack]
    exact Negotiation.lossy_pairs?_accepted defaults request.options
  · exact Negotiation.length_optionAck_le defaults h hack
  · obtain ⟨active, hstage, hsent, hsize, hinterval⟩ :=
      session.begin_starts now { acceptance with negotiation }
    have htold := Negotiation.map_told?_accepted defaults request.options
    refine ⟨active, hstage, hsent, _, htold, ?_, ?_⟩
    · rw [hsize]
      exact Negotiation.blockSize_told defaults request.options
    · rw [hinterval]
      exact Negotiation.interval_told defaults request.options

/-- A request in which the second block size and the first timeout do not count. -/
def crowdedRequest : Request :=
  { direction := .write, filename := "a", mode := .octet
    options := [("timeout", "+009"), ("BLKSIZE2", "1000"), ("blksize", "8"), ("utimeout", "2500")] }

def crowdedBytes : Bytes :=
  Packet.encodeRequest (.request .write) "a" "octet" crowdedRequest.options

theorem begin_keeps_acknowledged_crowded :
    let negotiation := Negotiation.ofPairs {} 0 crowdedRequest.options
    let begun := inboxSession.begin 0 { inboxAcceptance with negotiation }
    ∃ packet active, negotiation.optionAck? = some packet ∧ packet.length ≤ crowdedBytes.length ∧
      (Request.pairs? (packet.drop 2)).map (List.map Request.lossyPair) =
        some [("timeout", "9"), ("BLKSIZE2", "512"), ("utimeout", "2500")] ∧
      begun.2.stage = .transferring active ∧
      .send .transfer inboxPeer packet ∈ begun.1 ∧
      active.transfer.blockSize = 512 ∧ active.transfer.timer.interval = 2500 := by
  intro negotiation begun
  have hdecoded : Request.decode crowdedBytes = .ok crowdedRequest := by decide +kernel
  obtain ⟨-, hread, active, hstage, hsent, told, htold, hsize, hinterval⟩ :=
    begin_keeps_acknowledged hdecoded {} inboxSession 0 inboxAcceptance
  have haccepted : negotiation.accepted =
      [("timeout", "9"), ("BLKSIZE2", "512"), ("utimeout", "2500")] := by decide +kernel
  have hmapped : told.map some =
      [(.timeoutSeconds, 9), (.blockSizePower, 512), (.timeoutMillis, 2500)].map some := by
    rw [← htold]
    decide +kernel
  obtain rfl := (List.map_inj_right fun _ _ => Option.some.inj).mp hmapped
  obtain ⟨packet, hack⟩ : ∃ packet, negotiation.optionAck? = some packet := ⟨_, rfl⟩
  obtain ⟨-, hpairs, hlength⟩ := hread packet hack
  have hblockSize : active.transfer.blockSize = 512 := by
    obtain ⟨hnone, -⟩ | ⟨name, hone⟩ := hsize
    · cases hnone
    · exact ((Prod.mk.inj (List.cons.inj hone).1).2).symm
  refine ⟨packet, active, hack, hlength, ?_, hstage, ?_, hblockSize, hinterval⟩
  · rw [hpairs, ← haccepted]
  · rw [hack] at hsent
    exact hsent

end Session

end TftpReceiver
