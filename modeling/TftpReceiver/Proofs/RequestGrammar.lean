import TftpReceiver.Proofs.EncodedText
import TftpReceiver.Proofs.Packets
import TftpReceiver.Request

/-! The form of requests on the wire. A request is read from a byte string exactly when it has
that form, and then it has it in one way only. -/

namespace TftpReceiver

namespace Bytes

theorem field?_append {field : Bytes} (h : 0 ∉ field) (rest : Bytes) :
    field? (field ++ 0 :: rest) = some (field, rest) := by
  have hall : ∀ b ∈ field, (b != 0) = true := fun b hb => by
    simpa using ne_of_mem_of_not_mem hb h
  simp [field?, List.takeWhile_append_of_pos hall, List.dropWhile_append_of_pos hall]

theorem field?_eq_some_iff {bytes field rest : Bytes} :
    field? bytes = some (field, rest) ↔ bytes = field ++ 0 :: rest ∧ 0 ∉ field := by
  constructor
  · intro h
    have hsplit := (List.takeWhile_append_dropWhile (p := (· != 0)) (l := bytes)).symm
    have hnone : 0 ∉ bytes.takeWhile (· != 0) := fun h => by
      simpa using List.all_eq_true.mp List.all_takeWhile 0 h
    unfold field? at h
    split at h
    · cases h
    · next b rest' hdrop =>
      obtain ⟨rfl, rfl⟩ := Prod.mk.inj (Option.some.inj h)
      have hb : b = 0 := by
        have hhead := List.head_dropWhile_not (p := (· != 0)) (l := bytes) (by simp [hdrop])
        simpa [hdrop] using hhead
      rw [hdrop, hb] at hsplit
      exact ⟨hsplit, hnone⟩
  · rintro ⟨rfl, h⟩
    exact field?_append h rest

end Bytes

namespace Request

def pairBytes (pair : Bytes × Bytes) : Bytes := pair.1 ++ 0 :: (pair.2 ++ [0])

/-- A name has at least one byte, a value may have none, and zero bytes stand only behind them. -/
def IsPair (pair : Bytes × Bytes) : Prop := pair.1 ≠ [] ∧ 0 ∉ pair.1 ∧ 0 ∉ pair.2

theorem pairs?_padding (padding : Nat) : pairs? (List.replicate padding 0) = some [] := by
  cases padding with
  | zero => simp [pairs?]
  | succ padding =>
    have hfield : Bytes.field? (List.replicate (padding + 1) 0) =
        some ([], List.replicate padding 0) := Bytes.field?_append List.not_mem_nil _
    rw [pairs?, if_neg (by simp)]
    split
    · next h => simp [hfield] at h
    · next name rest h =>
      rw [hfield] at h
      obtain ⟨rfl, rfl⟩ := Prod.mk.inj (Option.some.inj h)
      simp

theorem pairs?_cons {pair : Bytes × Bytes} (h : IsPair pair) (rest : Bytes) :
    pairs? (pairBytes pair ++ rest) = (pairs? rest).map (pair :: ·) := by
  obtain ⟨hne, hname, hvalue⟩ := h
  have hfield := Bytes.field?_append hname (pair.2 ++ 0 :: rest)
  have hrest := Bytes.field?_append hvalue rest
  have he : pairBytes pair ++ rest = pair.1 ++ 0 :: (pair.2 ++ 0 :: rest) := by simp [pairBytes]
  rw [he, pairs?, if_neg (by simp)]
  split
  · next h => simp [hfield] at h
  · next name rest' h =>
    rw [hfield] at h
    obtain ⟨rfl, rfl⟩ := Prod.mk.inj (Option.some.inj h)
    rw [if_neg hne]
    split
    · next h => simp [hrest] at h
    · next value rest' h =>
      rw [hrest] at h
      obtain ⟨rfl, rfl⟩ := Prod.mk.inj (Option.some.inj h)
      rfl

/-- Pairs are read from what they are written as, with any padding, and from nothing else. -/
theorem pairs?_eq_some_iff {bytes : Bytes} {pairs : List (Bytes × Bytes)} :
    pairs? bytes = some pairs ↔ (∀ pair ∈ pairs, IsPair pair) ∧
      ∃ padding, bytes = pairs.flatMap pairBytes ++ List.replicate padding 0 := by
  constructor
  · intro h
    fun_induction pairs? bytes generalizing pairs with
    | case1 =>
      obtain rfl := Option.some.inj h
      exact ⟨by simp, 0, rfl⟩
    | case2 | case4 | case5 => cases h
    | case3 bytes _ rest hzeros hnamed =>
      obtain rfl := Option.some.inj h
      obtain ⟨rfl, -⟩ := Bytes.field?_eq_some_iff.mp hnamed
      have hrest : rest = List.replicate rest.length 0 :=
        List.eq_replicate_iff.mpr ⟨rfl, by simpa using hzeros⟩
      exact ⟨by simp, rest.length + 1, by
        rw [List.replicate_succ, ← hrest, List.flatMap_nil, List.nil_append]⟩
    | case6 bytes _ name rest hnamed hne value rest' hvalued _ ih =>
      obtain ⟨later, hlater, rfl⟩ := Option.map_eq_some_iff.mp h
      obtain ⟨rfl, hname⟩ := Bytes.field?_eq_some_iff.mp hnamed
      obtain ⟨rfl, hvalue⟩ := Bytes.field?_eq_some_iff.mp hvalued
      obtain ⟨hpairs, padding, rfl⟩ := ih hlater
      refine ⟨List.forall_mem_cons.mpr ⟨⟨hne, hname, hvalue⟩, hpairs⟩, padding, ?_⟩
      simp [pairBytes]
  · rintro ⟨hpairs, padding, rfl⟩
    induction pairs with
    | nil => exact pairs?_padding padding
    | cons pair pairs ih =>
      have hrest := ih fun pair hp => hpairs pair (List.mem_cons_of_mem _ hp)
      rw [List.flatMap_cons, List.append_assoc, pairs?_cons (hpairs pair List.mem_cons_self), hrest]
      rfl

/-- What stands between the zero bytes of a request, and the number of zeros behind it. -/
structure Layout where
  direction : Direction
  filename : Bytes
  mode : Bytes
  pairs : List (Bytes × Bytes)
  padding : Nat

namespace Layout

def opening : Direction → Bytes
  | .read => [0, 1]
  | .write => [0, 2]

theorem opening_eq (direction : Direction) :
    opening direction = Bytes.ofWord (Opcode.request direction).word := by
  cases direction <;> decide

theorem length_opening (direction : Direction) : (opening direction).length = 2 := by
  rw [opening_eq, Bytes.ofWord_length]

def options (layout : Layout) : Bytes :=
  layout.pairs.flatMap pairBytes ++ List.replicate layout.padding 0

def body (layout : Layout) : Bytes :=
  layout.filename ++ 0 :: (layout.mode ++ 0 :: layout.options)

def bytes (layout : Layout) : Bytes := opening layout.direction ++ layout.body

/-- The request that is written in this form. The name of the mode may be in any case. -/
structure Denotes (layout : Layout) (request : Request) : Prop where
  direction : layout.direction = request.direction
  named : layout.filename ≠ []
  filename : layout.filename = Utf8.encode request.filename
  filenameWhole : 0 ∉ layout.filename
  mode : ∃ text, layout.mode = Utf8.encode text ∧ text.toList.map Char.toLower = "octet".toList
  modeWhole : 0 ∉ layout.mode
  pairs : ∀ pair ∈ layout.pairs, IsPair pair
  options : request.options = layout.pairs.map lossyPair

end Layout

theorem pairs?_options {layout : Layout} (h : ∀ pair ∈ layout.pairs, IsPair pair) :
    pairs? layout.options = some layout.pairs :=
  pairs?_eq_some_iff.mpr ⟨h, layout.padding, rfl⟩

theorem guard_eq_some_iff {p : Prop} [Decidable p] {found : Unit} :
    (guard p : Option Unit) = some found ↔ p := by
  change (if p then some () else none) = some found ↔ p
  by_cases h : p <;> simp [h]

theorem parse?_mode_iff {text : String} {mode : Mode} :
    Mode.parse? text = some mode ↔ text.toList.map Char.toLower = "octet".toList := by
  cases mode
  simp only [Mode.parse?, Option.ite_none_right_eq_some, and_true]

theorem body?_eq_some_iff {direction : Direction} {bytes : Bytes} {request : Request} :
    body? direction bytes = some request ↔
      ∃ layout : Layout, layout.direction = direction ∧ layout.body = bytes ∧
        layout.Denotes request := by
  constructor
  · intro h
    obtain ⟨⟨filename, rest⟩, hfilename, h⟩ := Option.bind_eq_some_iff.mp h
    obtain ⟨_, hnamed, h⟩ := Option.bind_eq_some_iff.mp h
    obtain ⟨text, htext, h⟩ := Option.bind_eq_some_iff.mp h
    obtain ⟨⟨mode, rest'⟩, hmode, h⟩ := Option.bind_eq_some_iff.mp h
    obtain ⟨_, hread, h⟩ := Option.bind_eq_some_iff.mp h
    obtain ⟨octet, hoctet, hparsed⟩ := Option.bind_eq_some_iff.mp hread
    obtain ⟨pairs, hpairs, hrequest⟩ := Option.bind_eq_some_iff.mp h
    obtain ⟨rfl, hwhole⟩ := Bytes.field?_eq_some_iff.mp hfilename
    obtain ⟨rfl, hmodeWhole⟩ := Bytes.field?_eq_some_iff.mp hmode
    obtain ⟨hwellFormed, padding, rfl⟩ := pairs?_eq_some_iff.mp hpairs
    obtain rfl := Option.some.inj hrequest
    refine ⟨{ direction, filename, mode, pairs, padding }, rfl, rfl, ?_⟩
    exact {
      direction := rfl
      named := guard_eq_some_iff.mp hnamed
      filename := Utf8.decode?_eq_some_iff.mp htext
      filenameWhole := hwhole
      mode := ⟨octet, Utf8.decode?_eq_some_iff.mp hoctet, parse?_mode_iff.mp hparsed⟩
      modeWhole := hmodeWhole
      pairs := hwellFormed
      options := rfl }
  · rintro ⟨layout, rfl, rfl, h⟩
    obtain ⟨text, htext, hmode⟩ := h.mode
    have hfilename := Bytes.field?_append h.filenameWhole (layout.mode ++ 0 :: layout.options)
    have hrest := Bytes.field?_append h.modeWhole layout.options
    have hpairs := pairs?_options h.pairs
    have hnamed : (guard (layout.filename ≠ []) : Option Unit) = some () :=
      guard_eq_some_iff.mpr h.named
    have hdecoded := Utf8.decode?_eq_some_iff.mpr h.filename
    have hoctet := Utf8.decode?_eq_some_iff.mpr htext
    have hparsed : Mode.parse? text = some request.mode := parse?_mode_iff.mpr hmode
    have hread := Option.bind_eq_some_iff.mpr ⟨text, hoctet, hparsed⟩
    refine Option.bind_eq_some_iff.mpr ⟨_, hfilename, ?_⟩
    refine Option.bind_eq_some_iff.mpr ⟨(), hnamed, ?_⟩
    refine Option.bind_eq_some_iff.mpr ⟨_, hdecoded, ?_⟩
    refine Option.bind_eq_some_iff.mpr ⟨_, hrest, ?_⟩
    refine Option.bind_eq_some_iff.mpr ⟨_, hread, ?_⟩
    refine Option.bind_eq_some_iff.mpr ⟨_, hpairs, ?_⟩
    rw [← h.options, h.direction]
    rfl

theorem body_inj {layout layout' : Layout} {request request' : Request}
    (h : layout.Denotes request) (h' : layout'.Denotes request')
    (hd : layout.direction = layout'.direction) (he : layout.body = layout'.body) :
    layout = layout' := by
  have hfilename := congrArg Bytes.field? he
  rw [Layout.body, Layout.body, Bytes.field?_append h.filenameWhole,
    Bytes.field?_append h'.filenameWhole] at hfilename
  obtain ⟨hf, hrest⟩ := Prod.mk.inj (Option.some.inj hfilename)
  have hmode := congrArg Bytes.field? hrest
  rw [Bytes.field?_append h.modeWhole, Bytes.field?_append h'.modeWhole] at hmode
  obtain ⟨hm, ho⟩ := Prod.mk.inj (Option.some.inj hmode)
  have hpairs := congrArg pairs? ho
  rw [pairs?_options h.pairs, pairs?_options h'.pairs] at hpairs
  have hp := Option.some.inj hpairs
  have hpadding : layout.padding = layout'.padding := by
    rw [Layout.options, Layout.options, hp] at ho
    simpa using congrArg List.length (List.append_cancel_left ho)
  cases layout
  cases layout'
  simp_all

theorem ofWord?_request_iff {direction : Direction} {high low : UInt8} :
    Opcode.ofWord? (Bytes.word high low) = some (.request direction) ↔
      [high, low] = Layout.opening direction := by
  rw [Opcode.ofWord?_eq_some_iff, Layout.opening_eq]
  constructor
  · intro h
    rw [h, Bytes.ofWord_word]
  · intro h
    have hword := Bytes.word_ofWord (Opcode.request direction).word
    obtain ⟨rfl, hlow⟩ := List.cons.inj h
    obtain ⟨rfl, -⟩ := List.cons.inj hlow
    exact hword.symm

theorem Layout.Denotes.long {layout : Layout} {request : Request} (h : layout.Denotes request) :
    2 ≤ layout.body.length := by
  have hfilename := List.length_pos_iff.mpr h.named
  simp only [Layout.body, List.length_append, List.length_cons]
  omega

theorem decode_eq_ok_iff {bytes : Bytes} {request : Request} :
    decode bytes = .ok request ↔
      ∃ layout : Layout, layout.bytes = bytes ∧ layout.Denotes request := by
  constructor
  · intro h
    unfold decode at h
    split at h
    · next high low body =>
      split at h
      · cases h
      split at h
      · next direction hopcode =>
        split at h
        · next request' hbody =>
          obtain rfl := Except.ok.inj h
          obtain ⟨layout, rfl, rfl, hdenotes⟩ := body?_eq_some_iff.mp hbody
          rw [ofWord?_request_iff] at hopcode
          exact ⟨layout, by rw [Layout.bytes, ← hopcode]; rfl, hdenotes⟩
        · cases h
      · cases h
    · cases h
  · rintro ⟨layout, rfl, h⟩
    have hbody : body? layout.direction layout.body = some request :=
      body?_eq_some_iff.mpr ⟨layout, rfl, rfl, h⟩
    have hlong := h.long
    obtain ⟨high, low, hopening⟩ : ∃ high low, Layout.opening layout.direction = [high, low] := by
      cases layout.direction <;> exact ⟨_, _, rfl⟩
    have hopcode := ofWord?_request_iff.mpr hopening.symm
    rw [Layout.bytes, hopening]
    simp [decode, hopcode, hbody]
    omega

/-- How a request that cannot be read is answered. -/
def refusalOf (bytes : Bytes) : ErrorCode :=
  if 4 ≤ bytes.length ∧ bytes.take 2 ≠ [0, 1] ∧ bytes.take 2 ≠ [0, 2] then .unknownTransfer
  else .illegalOperation

theorem refusalOf_of_decode {bytes : Bytes} {code : ErrorCode} (h : decode bytes = .error code) :
    code = refusalOf bytes := by
  unfold decode at h
  split at h
  · next high low body =>
    have hopening : ∀ direction, (high :: low :: body).take 2 = Layout.opening direction ↔
        Opcode.ofWord? (Bytes.word high low) = some (.request direction) := fun direction =>
      ofWord?_request_iff.symm
    split at h
    · next hshort =>
      obtain rfl := Except.error.inj h
      rw [refusalOf, if_neg]
      simp only [List.length_cons]
      omega
    · next hlong =>
      split at h
      · next direction hopcode =>
        have hopened := (hopening direction).mpr hopcode
        split at h
        · cases h
        · obtain rfl := Except.error.inj h
          rw [refusalOf, if_neg]
          cases direction with
          | read => exact fun hc => hc.2.1 hopened
          | write => exact fun hc => hc.2.2 hopened
      · next hother =>
        obtain rfl := Except.error.inj h
        have hclosed : ∀ direction, (high :: low :: body).take 2 ≠ Layout.opening direction :=
          fun direction ho => hother direction ((hopening direction).mp ho)
        have hlength : 4 ≤ (high :: low :: body).length := by
          simp only [List.length_cons]
          omega
        rw [refusalOf, if_pos ⟨hlength, hclosed .read, hclosed .write⟩]
  · next hshort =>
    obtain rfl := Except.error.inj h
    have hlength : ¬ 4 ≤ bytes.length := by
      rcases bytes with _ | ⟨high, _ | ⟨low, body⟩⟩
      · simp
      · simp
      · exact absurd rfl (hshort high low body)
    rw [refusalOf, if_neg fun hc => hlength hc.1]

theorem bytes_inj {layout layout' : Layout} {request request' : Request}
    (h : layout.Denotes request) (h' : layout'.Denotes request')
    (he : layout.bytes = layout'.bytes) : layout = layout' := by
  have hlength : (Layout.opening layout.direction).length =
      (Layout.opening layout'.direction).length := by
    rw [Layout.length_opening, Layout.length_opening]
  obtain ⟨hopening, hbody⟩ := List.append_inj he hlength
  refine body_inj h h' ?_ hbody
  cases hd : layout.direction <;> cases hd' : layout'.direction <;> rw [hd, hd'] at hopening <;>
    first | rfl | cases hopening

def encodedPair (pair : String × String) : Bytes × Bytes :=
  (Utf8.encode pair.1, Utf8.encode pair.2)

theorem lossyPair_encodedPair (pair : String × String) : lossyPair (encodedPair pair) = pair := by
  simp [lossyPair, encodedPair, Utf8.decodeLossy_encode]

theorem encodePairs_eq (pairs : List (String × String)) :
    Packet.encodePairs pairs = (pairs.map encodedPair).flatMap pairBytes := by
  rw [Packet.encodePairs, List.flatMap_map]
  simp [Packet.encodeText, pairBytes, encodedPair]

theorem isPair_encodedPair {pair : String × String} :
    IsPair (encodedPair pair) ↔
      pair.1 ≠ "" ∧ '\x00' ∉ pair.1.toList ∧ '\x00' ∉ pair.2.toList := by
  simp [IsPair, encodedPair, Utf8.encode_eq_nil, Utf8.zero_mem_encode]

/-- The form that a request has when it is written, with padding behind it. -/
def layout (request : Request) (mode : String) (padding : Nat) : Layout where
  direction := request.direction
  filename := Utf8.encode request.filename
  mode := Utf8.encode mode
  pairs := request.options.map encodedPair
  padding := padding

theorem layout_bytes (request : Request) (mode : String) (padding : Nat) :
    (request.layout mode padding).bytes =
      Packet.encodeRequest (.request request.direction) request.filename mode request.options ++
        List.replicate padding 0 := by
  simp [Layout.bytes, Layout.body, Layout.options, layout, Layout.opening_eq,
    Packet.encodeRequest, Packet.encodeText, encodePairs_eq]

theorem layout_denotes {request : Request} {mode : String} (padding : Nat)
    (hnamed : request.filename ≠ "") (hwhole : '\x00' ∉ request.filename.toList)
    (hmode : mode.toList.map Char.toLower = "octet".toList)
    (hpairs : ∀ pair ∈ request.options,
      pair.1 ≠ "" ∧ '\x00' ∉ pair.1.toList ∧ '\x00' ∉ pair.2.toList) :
    (request.layout mode padding).Denotes request where
  direction := rfl
  named := fun h => hnamed (Utf8.encode_eq_nil.mp h)
  filename := rfl
  filenameWhole := fun h => hwhole ((Utf8.zero_mem_encode _).mp h)
  mode := ⟨mode, rfl, hmode⟩
  modeWhole := fun h => by
    have hzero := List.mem_map_of_mem (f := Char.toLower) ((Utf8.zero_mem_encode _).mp h)
    rw [hmode] at hzero
    exact absurd hzero (by decide)
  pairs := by
    intro pair hp
    obtain ⟨written, hw, rfl⟩ := List.mem_map.mp hp
    exact isPair_encodedPair.mpr (hpairs written hw)
  options := by
    simp [layout, Function.comp_def, lossyPair_encodedPair]

/-- A byte string is read as a request exactly when it has the form of one. It has that form in one
way only, and what does not have it is refused with one code. A request that was written is read
back, whatever padding is behind it. -/
theorem decode_accepts_layouts (bytes : Bytes) :
    (∀ request, decode bytes = .ok request ↔
      ∃ layout : Layout, layout.bytes = bytes ∧ layout.Denotes request) ∧
    (∀ (layout layout' : Layout) (request request' : Request), layout.Denotes request →
      layout'.Denotes request' → layout.bytes = bytes → layout'.bytes = bytes → layout = layout') ∧
    ((¬ ∃ (layout : Layout) (request : Request), layout.bytes = bytes ∧ layout.Denotes request) →
      decode bytes = .error (refusalOf bytes)) ∧
    ∀ (request : Request) (mode : String) (padding : Nat),
      bytes = Packet.encodeRequest (.request request.direction) request.filename mode
        request.options ++ List.replicate padding 0 →
      request.filename ≠ "" → '\x00' ∉ request.filename.toList →
      mode.toList.map Char.toLower = "octet".toList →
      (∀ pair ∈ request.options, pair.1 ≠ "" ∧ '\x00' ∉ pair.1.toList ∧ '\x00' ∉ pair.2.toList) →
      decode bytes = .ok request := by
  refine ⟨fun request => decode_eq_ok_iff, ?_, ?_, ?_⟩
  · intro layout layout' request request' h h' hb hb'
    exact bytes_inj h h' (hb.trans hb'.symm)
  · intro hnone
    cases hd : decode bytes with
    | error code => rw [refusalOf_of_decode hd]
    | ok request =>
      obtain ⟨layout, hbytes, hdenotes⟩ := decode_eq_ok_iff.mp hd
      exact absurd ⟨layout, request, hbytes, hdenotes⟩ hnone
  · intro request mode padding hbytes hnamed hwhole hmode hpairs
    have hdenotes := layout_denotes padding hnamed hwhole hmode hpairs
    exact decode_eq_ok_iff.mpr ⟨_, (layout_bytes request mode padding).trans hbytes.symm, hdenotes⟩

def paddedRequest : Request :=
  { direction := .write, filename := "é", mode := .octet
    options := [("blksize", "1024"), ("tsize", "")] }

def paddedBytes : Bytes :=
  Packet.encodeRequest (.request .write) "é" "OcTet" [("blksize", "1024"), ("tsize", "")] ++ [0, 0]

theorem decode_accepts_padded_request :
    decode paddedBytes = .ok paddedRequest ∧
      (paddedRequest.layout "OcTet" 2).Denotes paddedRequest ∧
      (∀ (layout : Layout) (request : Request), layout.Denotes request →
        layout.bytes = paddedBytes → layout = paddedRequest.layout "OcTet" 2) ∧
      decode [0, 3, 0, 1] = .error .unknownTransfer := by
  obtain ⟨hread, hunique, -, hback⟩ := decode_accepts_layouts paddedBytes
  obtain ⟨-, -, hrefused, -⟩ := decode_accepts_layouts [0, 3, 0, 1]
  have hdecoded : decode paddedBytes = .ok paddedRequest :=
    hback paddedRequest "OcTet" 2 rfl (by decide) (by decide) (by decide) (by decide)
  have hdenotes : (paddedRequest.layout "OcTet" 2).Denotes paddedRequest :=
    layout_denotes 2 (by decide) (by decide) (by decide) (by decide)
  have hbytes : (paddedRequest.layout "OcTet" 2).bytes = paddedBytes := layout_bytes _ _ _
  have hother : decode [0, 3, 0, 1] = .error (refusalOf [0, 3, 0, 1]) := hrefused (by
    rintro ⟨layout, request, hlayout, -⟩
    cases hd : layout.direction <;> simp [Layout.bytes, Layout.opening, hd] at hlayout)
  exact ⟨hdecoded, hdenotes,
    fun layout request h hl => hunique layout _ request _ h hdenotes hl hbytes, hother⟩

end Request

end TftpReceiver
