import Mathlib.Data.List.Nodup
import TftpReceiver.Audit
import TftpReceiver.Proofs.WrittenJson

/-! An audit record reads back as the event it tells of. All that an event carries shares one
space of names with the tag of its kind, so the argument rests on no two names being equal. -/

namespace TftpReceiver.Json

/-- Each name stands once, in order. -/
def Sorted (members : List (String × Json)) : Prop := members.Pairwise fun a b => a.1 < b.1

variable {name : String} {value : Json} {members : List (String × Json)}

theorem mem_putMember {member : String × Json} (h : member ∈ putMember name value members) :
    member = (name, value) ∨ member ∈ members := by
  induction members with
  | nil => exact .inl (List.mem_singleton.mp h)
  | cons other rest ih =>
    rw [putMember] at h
    split at h
    · exact List.mem_cons.mp h
    · split at h
      · exact (List.mem_cons.mp h).imp_right (List.mem_cons_of_mem _)
      · rcases List.mem_cons.mp h with rfl | hrest
        · exact .inr List.mem_cons_self
        · exact (ih hrest).imp_right (List.mem_cons_of_mem _)

theorem sorted_putMember (h : Sorted members) : Sorted (putMember name value members) := by
  induction members with
  | nil => exact List.pairwise_singleton _ _
  | cons other rest ih =>
    obtain ⟨hother, hrest⟩ := List.pairwise_cons.mp h
    rw [putMember]
    by_cases hless : name < other.1
    · rw [if_pos hless]
      refine List.pairwise_cons.mpr ⟨fun member hm => ?_, h⟩
      rcases List.mem_cons.mp hm with rfl | hm
      · exact hless
      · exact String.lt_trans hless (hother member hm)
    · rw [if_neg hless]
      by_cases heq : name = other.1
      · rw [if_pos heq]
        exact List.pairwise_cons.mpr ⟨by rwa [heq], hrest⟩
      · rw [if_neg heq]
        refine List.pairwise_cons.mpr ⟨fun member hm => ?_, ih hrest⟩
        rcases mem_putMember hm with rfl | hm
        · exact Std.lt_of_le_of_ne (String.not_lt.mp hless) (Ne.symm heq)
        · exact hother member hm

theorem putMember_last (h : ∀ member ∈ members, member.1 < name) :
    putMember name value members = members ++ [(name, value)] := by
  induction members with
  | nil => rfl
  | cons other rest ih =>
    have hless := h other List.mem_cons_self
    have hne : name ≠ other.1 := by
      rintro rfl
      exact String.lt_irrefl _ hless
    rw [putMember, if_neg (String.lt_asymm hless), if_neg hne,
      ih fun member hm => h member (List.mem_cons_of_mem _ hm), List.cons_append]

theorem foldl_putMember {front : List (String × Json)} (h : Sorted (front ++ members)) :
    members.foldl (fun sorted (name, value) => putMember name value sorted) front =
      front ++ members := by
  induction members generalizing front with
  | nil => exact (List.append_nil front).symm
  | cons member rest ih =>
    have hlast : ∀ other ∈ front, other.1 < member.1 := fun other hm =>
      (List.pairwise_append.mp h).2.2 other hm member List.mem_cons_self
    have hnext : Sorted ((front ++ [member]) ++ rest) := by
      rw [List.append_assoc]
      exact h
    rw [List.foldl_cons]
    dsimp only
    rw [putMember_last hlast, ih hnext, List.append_assoc, List.singleton_append]

theorem ofMembers_of_sorted (h : Sorted members) : ofMembers members = object members :=
  congrArg object (foldl_putMember h)

theorem exists_ofMembers (members : List (String × Json)) :
    ∃ sorted, ofMembers members = object sorted ∧ Sorted sorted ∧
      ∀ member ∈ sorted, member ∈ members := by
  refine ⟨_, rfl, ?_⟩
  have hstart : Sorted [] ∧ ∀ member ∈ ([] : List (String × Json)), member ∈ members :=
    ⟨List.Pairwise.nil, fun _ hm => nomatch hm⟩
  refine List.foldlRecOn (motive := fun front => Sorted front ∧ ∀ member ∈ front, member ∈ members)
    members _ hstart ?_
  rintro front ⟨hfront, hsub⟩ member hmember
  refine ⟨sorted_putMember hfront, fun other hm => ?_⟩
  rcases mem_putMember hm with rfl | hm
  · exact hmember
  · exact hsub other hm

theorem orderedMembers_of_texts (h : ∀ member ∈ members, ∃ text, member.2 = .string text) :
    orderedMembers members = members := by
  induction members with
  | nil => rfl
  | cons member rest ih =>
    obtain ⟨text, htext⟩ := h member List.mem_cons_self
    have hordered : ordered member.2 = member.2 := by
      rw [htext]
      rfl
    rw [orderedMembers, hordered, ih fun other hm => h other (List.mem_cons_of_mem _ hm)]

theorem member?_cons (name : String) (member : String × Json) (rest : List (String × Json)) :
    member? name (member :: rest) =
      if name = member.1 then some member.2 else member? name rest := by
  rw [member?, List.lookup_cons]
  by_cases h : name = member.1
  · rw [if_pos h, beq_iff_eq.mpr h]
  · rw [if_neg h, beq_eq_false_iff_ne.mpr h]
    rfl

theorem member?_of_nodup (hnames : (members.map (·.1)).Nodup) (h : (name, value) ∈ members) :
    member? name members = some value := by
  induction members with
  | nil => cases h
  | cons member rest ih =>
    obtain ⟨hfirst, hrest⟩ := List.nodup_cons.mp hnames
    rcases List.mem_cons.mp h with rfl | hm
    · rw [member?_cons, if_pos rfl]
    · have hne : name ≠ member.1 := by
        intro heq
        rw [heq] at hm
        exact hfirst (List.mem_map_of_mem (f := (·.1)) hm)
      rw [member?_cons, if_neg hne]
      exact ih hrest hm

theorem mem_of_member? (h : member? name members = some value) : (name, value) ∈ members := by
  obtain ⟨front, back, rfl, -⟩ := List.lookup_eq_some_iff.mp h
  exact List.mem_append_right _ List.mem_cons_self

theorem Sorted.nodup (h : Sorted members) : (members.map (·.1)).Nodup :=
  List.pairwise_map.mpr (h.imp fun hless => String.ne_of_lt hless)

theorem member?_eq_none (h : name ∉ members.map (·.1)) : member? name members = none := by
  rw [member?, List.lookup_eq_none_iff]
  intro member hm
  rw [bne_iff_ne]
  rintro rfl
  exact h (List.mem_map_of_mem hm)

theorem length_filter_name (hnames : (members.map (·.1)).Nodup) (name : String) :
    (members.filter (·.1 = name)).length ≤ 1 := by
  have hcount := List.nodup_iff_count.mp hnames name
  rw [List.count, List.countP_map, List.countP_eq_length_filter] at hcount
  exact hcount

end TftpReceiver.Json

namespace TftpReceiver.Audit

namespace Detail

/-- What the fields of an event can hold: the options of a request by name, an error code of
32 bits, and other numbers of 64 bits. -/
def Fits : Detail → Prop
  | writeRequest _ _ _ options => ∃ pairs, options = optionMembers pairs
  | requestRejected _ _ code _ => code ≤ Decimal.maxWord32
  | writeStarted _ _ blockSize interval declaredSize =>
    blockSize ≤ Decimal.maxWord64 ∧ interval ≤ Decimal.maxWord64 ∧
      declaredSize ≤ Decimal.maxWord64
  | writeCompleted _ _ size blocks duration rate =>
    size ≤ Decimal.maxWord64 ∧ blocks ≤ Decimal.maxWord64 ∧ duration ≤ Decimal.maxWord64 ∧
      rate ≤ Decimal.maxWord64
  | writeFailed _ _ _ blocks => blocks ≤ Decimal.maxWord64
  | _ => True

theorem exists_optionMembers (pairs : List (String × String)) :
    ∃ members, optionMembers pairs = .object members ∧ Json.Sorted members ∧
      ∀ member ∈ members, ∃ text, member.2 = .string text := by
  obtain ⟨sorted, hsorted, horder, hsub⟩ := Json.exists_ofMembers
    (pairs.map fun pair => (pair.1, .string pair.2))
  refine ⟨sorted, hsorted, horder, fun member hm => ?_⟩
  obtain ⟨pair, -, rfl⟩ := List.mem_map.mp (hsub member hm)
  exact ⟨pair.2, rfl⟩

theorem ordered_optionMembers (pairs : List (String × String)) :
    (optionMembers pairs).ordered = optionMembers pairs := by
  obtain ⟨members, hmembers, hsorted, htexts⟩ := exists_optionMembers pairs
  rw [hmembers, Json.ordered, Json.orderedMembers_of_texts htexts,
    Json.ofMembers_of_sorted hsorted]

theorem exact_optionMembers (pairs : List (String × String)) (depth : Nat) :
    Json.Exact (depth + 1) (optionMembers pairs) := by
  obtain ⟨members, hmembers, -, htexts⟩ := exists_optionMembers pairs
  rw [hmembers]
  refine .object fun member hm => ?_
  obtain ⟨text, htext⟩ := htexts member hm
  rw [htext]
  exact .string text

theorem exact_number {n : Nat} (h : n ≤ Decimal.maxWord64) (depth : Nat) :
    Json.Exact depth (number n) := by
  refine .integer (decide_eq_true ⟨?_, Int.ofNat_le.mpr h⟩)
  omega

theorem Fits.exact {detail : Detail} (h : detail.Fits) (depth : Nat) :
    ∀ member ∈ detail.members, Json.Exact (depth + 1) member.2 := by
  have hcode : Decimal.maxWord32 ≤ Decimal.maxWord64 := by decide
  cases detail with
  | serverStarted | protocolViolation | pathTraversalAttempt | configurationLoaded
  | configurationError => simp [members, Json.Exact.string]
  | writeRequest client filename mode options =>
    obtain ⟨pairs, rfl⟩ := h
    simp [members, Json.Exact.string, exact_optionMembers]
  | requestRejected client filename code reason =>
    have hnumber := exact_number (Nat.le_trans h hcode) (depth + 1)
    cases filename <;> simp [members, Json.Exact.string, Json.Exact.null, hnumber]
  | writeStarted client filename blockSize interval declaredSize =>
    obtain ⟨hblock, hinterval, hdeclared⟩ := h
    simp [members, Json.Exact.string, exact_number, hblock, hinterval, hdeclared]
  | writeCompleted client filename size blocks duration rate =>
    obtain ⟨hsize, hblocks, hduration, hrate⟩ := h
    simp [members, Json.Exact.string, exact_number, hsize, hblocks, hduration, hrate]
  | writeFailed client filename error blocks =>
    have hblocks : blocks ≤ Decimal.maxWord64 := h
    simp [members, Json.Exact.string, exact_number, hblocks]

end Detail

namespace Event

variable {members : List (String × Json)} {name : String}

theorem text?_of_member {text : String} (h : Json.member? name members = some (.string text)) :
    text? name members = some text := by
  rw [text?, h]

theorem optionalText?_of_member {text : Option String}
    (h : Json.member? name members = some (text.elim .null .string)) :
    optionalText? name members = some text := by
  rw [optionalText?, h]
  cases text <;> rfl

theorem number?_of_member {n limit : Nat} (hn : n ≤ limit)
    (h : Json.member? name members = some (Detail.number n)) :
    number? limit name members = some n := by
  have hrange : (0 : Int) ≤ n ∧ (n : Int) ≤ limit := by omega
  rw [number?, h]
  simp only [Detail.number, if_pos hrange, Int.toNat_natCast]

theorem detail?_of_members {detail : Detail} (hfits : detail.Fits)
    (h : ∀ member ∈ detail.members, Json.member? member.1 members = some member.2) :
    detail? detail.kind members = some detail := by
  cases detail with
  | serverStarted | protocolViolation | pathTraversalAttempt | configurationLoaded
  | configurationError =>
    simp only [Detail.members, List.forall_mem_cons] at h
    simp [detail?, Detail.kind, text?_of_member, h]
  | writeRequest client filename mode options =>
    obtain ⟨pairs, rfl⟩ := hfits
    simp only [Detail.members, List.forall_mem_cons] at h
    simp [detail?, Detail.kind, text?_of_member, h, Detail.ordered_optionMembers]
  | requestRejected client filename code reason =>
    simp only [Detail.members, List.forall_mem_cons] at h
    simp [detail?, Detail.kind, text?_of_member, h, optionalText?_of_member h.2.1,
      number?_of_member hfits h.2.2.1]
  | writeStarted client filename blockSize interval declaredSize =>
    obtain ⟨hblock, hinterval, hdeclared⟩ := hfits
    simp only [Detail.members, List.forall_mem_cons] at h
    simp [detail?, Detail.kind, text?_of_member, h, word64?, number?_of_member hblock h.2.2.1,
      number?_of_member hinterval h.2.2.2.1, number?_of_member hdeclared h.2.2.2.2.1]
  | writeCompleted client filename size blocks duration rate =>
    obtain ⟨hsize, hblocks, hduration, hrate⟩ := hfits
    simp only [Detail.members, List.forall_mem_cons] at h
    simp [detail?, Detail.kind, text?_of_member, h, word64?, number?_of_member hsize h.2.2.1,
      number?_of_member hblocks h.2.2.2.1, number?_of_member hduration h.2.2.2.2.1,
      number?_of_member hrate h.2.2.2.2.2.1]
  | writeFailed client filename error blocks =>
    simp only [Detail.members, List.forall_mem_cons] at h
    simp [detail?, Detail.kind, text?_of_member, h, word64?,
      number?_of_member hfits h.2.2.2.1]

theorem nodup_names (event : Event) : event.names.Nodup := by
  obtain ⟨stamp, detail⟩ := event
  cases detail <;> simp [names, Detail.members]

/-- The identifier of a transfer alone may be missing, and none of the other names is taken
for it. -/
theorem exists_toJson (event : Event) : ∃ members, event.toJson = .object members ∧
    (∀ name, (members.filter (·.1 = name)).length ≤ 1) ∧
    Json.member? "event_type" members = some (.string event.detail.kind) ∧
    stamp? members = some event.stamp ∧
    ∀ member ∈ event.detail.members, Json.member? member.1 members = some member.2 := by
  have hnames := event.nodup_names
  obtain ⟨⟨timestamp, hostname, service, severity, correlation⟩, detail⟩ := event
  refine ⟨_, rfl, ?_⟩
  generalize hmembers : _ ++ detail.members = members
  have hsub : (members.map (·.1)).Sublist (names ⟨default, detail⟩) := by
    subst hmembers
    rw [List.map_append, List.map_append]
    refine List.Sublist.append ?_ (List.Sublist.refl _)
    cases correlation with
    | none => exact List.sublist_append_left _ ["correlation_id"]
    | some id => exact List.Sublist.refl _
  have hnodup : (members.map (·.1)).Nodup := hnames.sublist hsub
  have hfound : ∀ name value, (name, value) ∈ members → Json.member? name members = some value :=
    fun name value hm => Json.member?_of_nodup hnodup hm
  have hcorrelation : optionalText? "correlation_id" members = some correlation := by
    cases correlation with
    | none =>
      have hapart : (["event_type", "timestamp", "hostname", "service", "severity"] ++
          "correlation_id" :: detail.members.map (·.1)).Nodup := hnames
      have hnot := (List.nodup_cons.mp (List.nodup_middle.mp hapart)).1
      subst hmembers
      rw [optionalText?, Json.member?_eq_none]
      exact hnot
    | some id => exact optionalText?_of_member (hfound _ _ (by simp [← hmembers]))
  refine ⟨Json.length_filter_name hnodup, hfound _ _ (by simp [← hmembers]), ?_,
    fun member hm => hfound _ _ (by simp [← hmembers, hm])⟩
  have htext : ∀ name text, (name, .string text) ∈ members → text? name members = some text :=
    fun name text hm => text?_of_member (hfound name _ hm)
  simp only [stamp?, htext "timestamp" timestamp (by simp [← hmembers]),
    htext "hostname" hostname (by simp [← hmembers]),
    htext "service" service (by simp [← hmembers]),
    htext "severity" severity (by simp [← hmembers]), hcorrelation, Option.pure_def,
    Option.bind_eq_bind, Option.bind_some]

theorem ofJson?_toJson {event : Event} (h : event.detail.Fits) :
    ofJson? event.toJson = some event := by
  obtain ⟨members, hmembers, honce, hkind, hstamp, hdetail⟩ := event.exists_toJson
  have hall : (event.names.all fun name => (members.filter (·.1 = name)).length ≤ 1) = true :=
    List.all_eq_true.mpr fun name _ => decide_eq_true (honce name)
  rw [hmembers, ofJson?]
  simp only [text?_of_member hkind, hstamp, detail?_of_members h hdetail, Option.bind_eq_bind,
    Option.bind_some]
  exact if_pos hall

theorem exact_toJson {event : Event} (h : event.detail.Fits) :
    Json.Exact Json.maxDepth event.toJson := by
  refine .object fun member hm => ?_
  rcases List.mem_append.mp hm with hm | hm
  · rcases List.mem_append.mp hm with hm | hm
    · simp only [List.mem_cons, List.not_mem_nil, or_false] at hm
      rcases hm with rfl | rfl | rfl | rfl | rfl <;> exact .string _
    · obtain ⟨id, -, rfl⟩ := Option.map_eq_some_iff.mp (Option.mem_toList.mp hm)
      exact .string id
  · exact h.exact _ member hm

/-- An audit record is one JSON object without a line break or another control character, and
it reads back as the event, whatever texts a client has put into it. -/
theorem render_reads_back (event : Event) (h : event.detail.Fits) :
    (∀ c ∈ event.render.toList, 32 ≤ c.toNat) ∧
      (∃ members, Json.parse? event.render = some (.object members)) ∧
      parse? event.render = some event := by
  have hexact := exact_toJson h
  have hread : Json.parse? event.render = some event.toJson := Json.parse?_render hexact
  refine ⟨?_, ⟨_, hread⟩, ?_⟩
  · rw [render, Json.render, String.toList_ofList]
    exact hexact.noCodes
  · rw [parse?, hread]
    exact ofJson?_toJson h

/-- A client can neither end a text early nor begin a line of its own, and of two options with
one name the last is told. -/
theorem render_reads_back_hostile :
    let client : SocketAddress := .v4 ⟨10, 0, 0, 1⟩ 4000
    let filename := "fw\",\"mode\":\"netascii\"\x7d\n\x7b\x01\\é"
    let options := [("blksize", "8\r\n"), ("\"", "\\"), ("blksize", "9"), ("event_type", "")]
    let event := make "2024-05-01T00:00:00+00:00" "host" (some (correlation 0 client filename))
      (.request client filename "octet" options)
    event.detail.Fits ∧ parse? event.render = some event := by
  intro client filename options event
  have hfits : event.detail.Fits := ⟨options, rfl⟩
  exact ⟨hfits, (render_reads_back event hfits).2.2⟩

end Event

end TftpReceiver.Audit
