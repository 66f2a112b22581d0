import TftpReceiver.Proofs.Numerals
import TftpReceiver.SocketAddress

/-! The written form of an address reads back as the address, however its zeros are shortened. -/

namespace TftpReceiver

namespace Ipv6

theorem takeWhile_zero (groups : List UInt16) :
    groups.takeWhile (· = 0) = List.replicate (groups.takeWhile (· = 0)).length 0 := by
  refine List.eq_replicate_of_mem fun g hg => ?_
  exact of_decide_eq_true (List.all_eq_true.mp List.all_takeWhile g hg)

/-- Putting the zeros back leads to the groups. -/
theorem zeroRun_spec (groups : List UInt16) :
    groups.take (zeroRun groups).1 ++ (List.replicate (zeroRun groups).2 0 ++
      groups.drop ((zeroRun groups).1 + (zeroRun groups).2)) = groups := by
  induction groups with
  | nil => rfl
  | cons g rest ih =>
    rw [zeroRun]
    by_cases hless : ((g :: rest).takeWhile (· = 0)).length < (zeroRun rest).2
    · simp only [if_pos hless, Nat.add_right_comm _ 1, List.take_succ_cons, List.drop_succ_cons,
        List.cons_append, ih]
    · have htake := List.prefix_iff_eq_take.mp (List.takeWhile_prefix (l := g :: rest) (· = 0))
      simp only [if_neg hless, List.take_zero, List.nil_append, Nat.zero_add]
      rw [← takeWhile_zero, htake, List.length_take, Nat.min_eq_left]
      · exact List.take_append_drop _ _
      · exact (List.takeWhile_prefix _).length_le

theorem eq_of_mapped? {groups : List UInt16} {inner : Ipv4} (h : mapped? groups = some inner) :
    ∃ g h, groups = [0, 0, 0, 0, 0, 0xffff, g, h] ∧
      inner = ⟨UInt8.ofNat (g.toNat / 256), UInt8.ofNat (g.toNat % 256),
        UInt8.ofNat (h.toNat / 256), UInt8.ofNat (h.toNat % 256)⟩ := by
  unfold mapped? at h
  split at h
  · next g h' => exact ⟨g, h', rfl, (Option.some.inj h).symm⟩
  · cases h

theorem toList_renderGroups (g : UInt16) (groups : List UInt16) :
    (renderGroups (g :: groups)).toList =
      Nat.toDigits 16 g.toNat ++ groups.flatMap fun g => ':' :: Nat.toDigits 16 g.toNat := by
  induction groups generalizing g with
  | nil => simp [renderGroups, hex]
  | cons other groups ih =>
    have hsplit : renderGroups (g :: other :: groups) =
        hex g.toNat ++ ":" ++ renderGroups (other :: groups) := String.intercalate_cons_cons
    rw [hsplit, String.toList_append, ih other, List.flatMap_cons]
    simp [hex]

theorem ofGroups?_groups (host : Ipv6) : ofGroups? host.groups = some host :=
  dif_pos host.length_eq

end Ipv6

namespace SocketAddress

open Text (Stops stops_nil stops_cons takeWhile_of_stops dropWhile_of_stops takeWhile_run
  dropWhile_run)

def isDigitOf (radix : Nat) (c : Char) : Bool := (digitValue? radix c).isSome

theorem digitValue?_digitChar {radix d : Nat} (hr : radix ≤ 16) (hd : d < radix) :
    digitValue? radix (Nat.digitChar d) = some d := by
  have hall : ∀ radix ≤ 16, ∀ d < radix, digitValue? radix (Nat.digitChar d) = some d := by decide
  exact hall radix hr d hd

variable {radix bound : Nat} {rest : List Char}

theorem isDigitOf_of_mem {n : Nat} {c : Char} (hr : 1 < radix ∧ radix ≤ 16)
    (h : c ∈ Nat.toDigits radix n) : isDigitOf radix c = true := by
  obtain ⟨d, hd, rfl⟩ := Decimal.mem_toDigits hr.1 h
  rw [isDigitOf, digitValue?_digitChar hr.2 hd]
  rfl

theorem number?_toDigits {width : Option Nat} {n : Nat} (hr : 1 < radix ∧ radix ≤ 16)
    (hn : n < bound) (hw : ∀ w ∈ width, (Nat.toDigits radix n).length ≤ w) (leadingZeros : Bool)
    (hrest : Stops (isDigitOf radix) rest) :
    number? radix bound width leadingZeros (Nat.toDigits radix n ++ rest) = some (n, rest) := by
  have hdigits : ∀ c ∈ Nat.toDigits radix n, isDigitOf radix c = true := fun c hc =>
    isDigitOf_of_mem hr hc
  have hvalue : (Nat.toDigits radix n).foldl
      (fun m c => m * radix + (digitValue? radix c).getD 0) 0 = n := by
    refine Decimal.foldl_toDigits hr.1 (fun d hd => ?_) n
    rw [digitValue?_digitChar hr.2 hd, Option.getD_some]
  have hfits : ¬ (Nat.toDigits radix n = [] ∨
      width.any (· < (Nat.toDigits radix n).length) = true ∨ bound ≤ n) := by
    rintro (hnil | hlong | hlarge)
    · exact Nat.toDigits_ne_nil hnil
    · cases width with
      | none => cases hlong
      | some w => exact Nat.not_lt_of_le (hw w rfl) (of_decide_eq_true hlong)
    · exact Nat.not_le_of_lt hn hlarge
  have hzero : ¬ (¬ leadingZeros = true ∧ (Nat.toDigits radix n).head? = some '0' ∧
      1 < (Nat.toDigits radix n).length) := by
    rintro ⟨-, hhead, hlong⟩
    have hone := Decimal.no_leading_zero hr.1 n hhead
    omega
  have htake : (Nat.toDigits radix n ++ rest).takeWhile (fun c => (digitValue? radix c).isSome) =
      Nat.toDigits radix n := takeWhile_run hdigits hrest
  have hdrop : (Nat.toDigits radix n ++ rest).dropWhile (fun c => (digitValue? radix c).isSome) =
      rest := dropWhile_run hdigits hrest
  simp only [number?, htake, hdrop, hvalue, if_neg hfits, if_neg hzero]

theorem number?_of_stops {width : Option Nat} {leadingZeros : Bool}
    (h : Stops (isDigitOf radix) rest) : number? radix bound width leadingZeros rest = none := by
  have htake : rest.takeWhile (fun c => (digitValue? radix c).isSome) = [] :=
    takeWhile_of_stops h
  simp only [number?, htake, true_or, if_pos]

theorem number?_rest {width : Option Nat} {leadingZeros : Bool} {text : List Char} {n : Nat}
    (h : number? radix bound width leadingZeros text = some (n, rest)) :
    rest = text.dropWhile (isDigitOf radix) := by
  simp only [number?] at h
  split at h
  · cases h
  · split at h
    · cases h
    · exact (Prod.mk.inj (Option.some.inj h)).2.symm

theorem after?_cons (mark : Char) (rest : List Char) : after? mark (mark :: rest) = some rest :=
  if_pos rfl

theorem after?_eq_none {mark : Char} (h : rest.head? ≠ some mark) : after? mark rest = none := by
  cases rest with
  | nil => rfl
  | cons c rest =>
    refine if_neg ?_
    rintro rfl
    exact h rfl

theorem octet?_toDigits (n : UInt8) (hrest : Stops (isDigitOf 10) rest) :
    octet? (Nat.toDigits 10 n.toNat ++ rest) = some (n, rest) := by
  have hlt : n.toNat < 256 := n.toNat_lt
  have hwidth : ∀ w ∈ some 3, (Nat.toDigits 10 n.toNat).length ≤ w := by
    rintro w hw
    obtain rfl := Option.some.inj hw
    exact (Nat.length_toDigits_le_iff (by decide) (by decide)).mpr (by omega)
  have hnumber := number?_toDigits (by decide) hlt hwidth false hrest
  simp only [octet?, hnumber, Option.bind_eq_bind, Option.bind_some, Option.pure_def,
    UInt8.ofNat_toNat]

theorem toList_renderV4 (host : Ipv4) : host.render.toList =
    Nat.toDigits 10 host.a.toNat ++ '.' :: (Nat.toDigits 10 host.b.toNat ++
      '.' :: (Nat.toDigits 10 host.c.toNat ++ '.' :: Nat.toDigits 10 host.d.toNat)) := by
  simp [Ipv4.render, Decimal.render]

theorem ipv4?_render (host : Ipv4) (hrest : Stops (isDigitOf 10) rest) :
    ipv4? (host.render.toList ++ rest) = some (host, rest) := by
  have hdot : ∀ text : List Char, Stops (isDigitOf 10) ('.' :: text) := fun text =>
    stops_cons rfl
  simp only [toList_renderV4, List.append_assoc, List.cons_append, ipv4?,
    octet?_toDigits _ (hdot _), octet?_toDigits _ hrest, after?_cons, Option.bind_eq_bind,
    Option.bind_some, Option.pure_def]

/-- Hexadecimal digits without a point behind them do not begin such an address. -/
theorem ipv4?_eq_none {run : List Char} (hrun : ∀ c ∈ run, isDigitOf 16 c = true)
    (hstop : Stops (isDigitOf 10) rest) (hrest : rest.head? ≠ some '.') :
    ipv4? (run ++ rest) = none := by
  have hhead : ((run ++ rest).dropWhile (isDigitOf 10)).head? ≠ some '.' := by
    induction run with
    | nil => rwa [List.nil_append, dropWhile_of_stops hstop]
    | cons c run ih =>
      rw [List.cons_append, List.dropWhile_cons]
      split
      · exact ih fun other hm => hrun other (List.mem_cons_of_mem _ hm)
      · intro hc
        obtain rfl := Option.some.inj hc
        exact absurd (hrun '.' List.mem_cons_self) (by decide)
  cases hoctet : octet? (run ++ rest) with
  | none => simp only [ipv4?, hoctet, Option.bind_eq_bind, Option.bind_none]
  | some found =>
    obtain ⟨a, after⟩ := found
    have hafter : after = (run ++ rest).dropWhile (isDigitOf 10) := by
      simp only [octet?, Option.bind_eq_bind, Option.bind_eq_some_iff] at hoctet
      obtain ⟨found, hnumber, hsome⟩ := hoctet
      rw [← number?_rest hnumber]
      exact (Prod.mk.inj (Option.some.inj hsome)).2.symm
    rw [← hafter] at hhead
    simp only [ipv4?, hoctet, Option.bind_eq_bind, Option.bind_some, after?_eq_none hhead,
      Option.bind_none]

theorem isDigitOf_hex {c : Char} (h : isDigitOf 10 c = true) : isDigitOf 16 c = true := by
  grind [isDigitOf, digitValue?]

theorem stops_decimal (h : Stops (isDigitOf 16) rest) : Stops (isDigitOf 10) rest := by
  intro c hc
  cases hdigit : isDigitOf 10 c with
  | false => rfl
  | true => exact (isDigitOf_hex hdigit).symm.trans (h c hc)

/-- What stands here does not go on with a group. -/
structure Ends (rest : List Char) : Prop where
  digit : Stops (isDigitOf 16) rest
  point : rest.head? ≠ some '.'
  group : ∀ after, after? ':' rest = some after → Stops (isDigitOf 16) after

theorem octet?_of_stops (h : Stops (isDigitOf 10) rest) : octet? rest = none := by
  rw [octet?, number?_of_stops h]
  rfl

theorem groups_of_none {first : Bool} {text : List Char} (room : Nat)
    (h : ∀ body, (if first then some text else after? ':' text) = some body →
      Stops (isDigitOf 16) body) : groups first room text = ([], false, text) := by
  cases room with
  | zero => rfl
  | succ room =>
    rw [groups]
    cases hbody : (if first then some text else after? ':' text) with
    | none => simp
    | some body =>
      have hstop := h body hbody
      have hv4 : ipv4? body = none := by
        rw [ipv4?, octet?_of_stops (stops_decimal hstop)]
        rfl
      simp [hv4, number?_of_stops hstop]

theorem groups_step (first : Bool) (room : Nat) {text : List Char} {g : UInt16}
    (htext : (if first then some text else after? ':' text) =
      some (Nat.toDigits 16 g.toNat ++ rest))
    (hstop : Stops (isDigitOf 16) rest) (hpoint : rest.head? ≠ some '.') :
    groups first (room + 1) text =
      (g :: (groups false room rest).1, (groups false room rest).2) := by
  have hv4 : ipv4? (Nat.toDigits 16 g.toNat ++ rest) = none :=
    ipv4?_eq_none (fun c hc => isDigitOf_of_mem (by decide) hc) (stops_decimal hstop) hpoint
  have hlt : g.toNat < 65536 := g.toNat_lt
  have hwidth : ∀ w ∈ some 4, (Nat.toDigits 16 g.toNat).length ≤ w := by
    rintro w hw
    obtain rfl := Option.some.inj hw
    exact (Nat.length_toDigits_le_iff (by decide) (by decide)).mpr (by omega)
  have hnumber := number?_toDigits (by decide) hlt hwidth true hstop
  rw [groups]
  simp only [htext, Option.bind_some, hv4, ite_self, hnumber, UInt16.ofNat_toNat]

/-- The groups behind the first one, each with its colon. -/
def moreGroups (gs : List UInt16) : List Char :=
  gs.flatMap fun g => ':' :: Nat.toDigits 16 g.toNat

theorem after_group (gs : List UInt16) (hends : Ends rest) :
    Stops (isDigitOf 16) (moreGroups gs ++ rest) ∧ (moreGroups gs ++ rest).head? ≠ some '.' := by
  cases gs with
  | nil => exact ⟨hends.digit, hends.point⟩
  | cons g gs => exact ⟨stops_cons rfl, by simp [moreGroups]⟩

theorem groups_more (gs : List UInt16) {room : Nat} (hroom : gs.length ≤ room)
    (hends : Ends rest) : groups false room (moreGroups gs ++ rest) = (gs, false, rest) := by
  induction gs generalizing room with
  | nil => exact groups_of_none room hends.group
  | cons g gs ih =>
    obtain ⟨room, rfl⟩ := Nat.exists_eq_succ_of_ne_zero (Nat.ne_zero_of_lt hroom)
    obtain ⟨hstop, hpoint⟩ := after_group gs hends
    have htext : after? ':' (moreGroups (g :: gs) ++ rest) =
        some (Nat.toDigits 16 g.toNat ++ (moreGroups gs ++ rest)) := by
      rw [moreGroups, List.flatMap_cons, List.append_assoc, ← moreGroups]
      exact after?_cons ':' _
    rw [groups_step false room ((if_neg Bool.false_ne_true).trans htext) hstop hpoint,
      ih (Nat.le_of_succ_le_succ hroom)]

theorem groups_renderGroups (gs : List UInt16) {room : Nat} (hroom : gs.length ≤ room)
    (hends : Ends rest) :
    groups true room ((Ipv6.renderGroups gs).toList ++ rest) = (gs, false, rest) := by
  cases gs with
  | nil =>
    refine groups_of_none room fun body hbody => ?_
    obtain rfl := Option.some.inj hbody
    exact hends.digit
  | cons g gs =>
    obtain ⟨room, rfl⟩ := Nat.exists_eq_succ_of_ne_zero (Nat.ne_zero_of_lt hroom)
    obtain ⟨hstop, hpoint⟩ := after_group gs hends
    rw [Ipv6.toList_renderGroups, List.append_assoc, ← moreGroups,
      groups_step true room rfl hstop hpoint, groups_more gs (Nat.le_of_succ_le_succ hroom) hends]

theorem pairUp_bytes (g : UInt16) :
    pairUp (UInt8.ofNat (g.toNat / 256)) (UInt8.ofNat (g.toNat % 256)) = g := by
  have hlt : g.toNat < 65536 := g.toNat_lt
  have hhigh : g.toNat / 256 < 256 := by omega
  have hlow : g.toNat % 256 < 256 := by omega
  rw [pairUp, UInt8.toNat_ofNat_of_lt' hhigh, UInt8.toNat_ofNat_of_lt' hlow, Nat.div_add_mod',
    UInt16.ofNat_toNat]

theorem ends_colons {after : List Char} (h : Stops (isDigitOf 16) (':' :: after)) :
    Ends (':' :: ':' :: after) := by
  refine ⟨stops_cons rfl, by simp, fun other hother => ?_⟩
  rw [after?_cons] at hother
  obtain rfl := Option.some.inj hother
  exact h

theorem ends_cons {c : Char} (hdigit : isDigitOf 16 c = false) (h : c ≠ '.' ∧ c ≠ ':') :
    Ends (c :: rest) := by
  refine ⟨stops_cons hdigit, ?_, fun other hother => ?_⟩
  · rw [List.head?_cons, Ne, Option.some.injEq]
    exact h.1
  · rw [after?_eq_none] at hother
    · cases hother
    · rw [List.head?_cons, Ne, Option.some.injEq]
      exact h.2

theorem ipv6?_whole (host : Ipv6) (hends : Ends rest) :
    ipv6? ((Ipv6.renderGroups host.groups).toList ++ rest) = some (host, rest) := by
  have hread := groups_renderGroups host.groups (Nat.le_of_eq host.length_eq) hends
  rw [ipv6?, hread]
  simp only [host.length_eq, if_pos, Ipv6.ofGroups?_groups, Option.map_some]

theorem ipv6?_shortened {host : Ipv6} {start length : Nat} (hlong : 1 < length)
    (hrun : host.groups.take start ++ (List.replicate length 0 ++
      host.groups.drop (start + length)) = host.groups) (hends : Ends rest) :
    ipv6? ((Ipv6.renderGroups (host.groups.take start)).toList ++ ':' :: ':' ::
      ((Ipv6.renderGroups (host.groups.drop (start + length))).toList ++ rest)) =
        some (host, rest) := by
  have hlength := congrArg List.length hrun
  have height := host.length_eq
  simp only [List.length_append, List.length_take, List.length_replicate, List.length_drop,
    height] at hlength
  have hhead : (host.groups.take start).length = start := by
    rw [List.length_take]
    omega
  have htail : (host.groups.drop (start + length)).length = 8 - (start + length) := by
    rw [List.length_drop, height]
  have hfirst : ∀ after, groups true 8 ((Ipv6.renderGroups (host.groups.take start)).toList ++
      ':' :: ':' :: after) = (host.groups.take start, false, ':' :: ':' :: after) := fun after =>
    groups_renderGroups _ (by omega) (ends_colons (stops_cons rfl))
  have hsecond : groups true (7 - start)
      ((Ipv6.renderGroups (host.groups.drop (start + length))).toList ++ rest) =
        (host.groups.drop (start + length), false, rest) :=
    groups_renderGroups _ (by omega) hends
  have hzeros : 8 - start - (8 - (start + length)) = length := by omega
  have hne : start ≠ 8 := by omega
  rw [ipv6?, hfirst]
  simp only [hhead, if_neg hne, Bool.false_eq_true, if_false, after?_cons, Option.bind_eq_bind,
    Option.bind_some, hsecond, htail, hzeros, List.append_assoc, hrun, Ipv6.ofGroups?_groups]
  rfl

/-- The group before the point of an address of the older version is not read as one of its own. -/
theorem ipv6?_mapped {host : Ipv6} {inner : Ipv4} (h : Ipv6.mapped? host.groups = some inner)
    (hends : Ends rest) :
    ipv6? ("::ffff:".toList ++ (inner.render.toList ++ rest)) = some (host, rest) := by
  obtain ⟨g, g', hgroups, hinner⟩ := Ipv6.eq_of_mapped? h
  have hpairs : pairUp inner.a inner.b = g ∧ pairUp inner.c inner.d = g' := by
    rw [hinner]
    exact ⟨pairUp_bytes g, pairUp_bytes g'⟩
  have hv4 : groups false 6 (':' :: (inner.render.toList ++ rest)) = ([g, g'], true, rest) := by
    rw [groups]
    simp only [Bool.false_eq_true, if_false, after?_cons, Option.bind_some, Nat.zero_lt_succ,
      if_true, ipv4?_render inner (stops_decimal hends.digit), hpairs]
  have hffff : groups true 7 ("ffff:".toList ++ (inner.render.toList ++ rest)) =
      ([0xffff, g, g'], true, rest) := by
    have hdigits : "ffff:".toList = Nat.toDigits 16 (0xffff : UInt16).toNat ++ [':'] := by decide
    have htext : "ffff:".toList ++ (inner.render.toList ++ rest) =
        Nat.toDigits 16 (0xffff : UInt16).toNat ++ ':' :: (inner.render.toList ++ rest) := by
      rw [hdigits, List.append_assoc, List.singleton_append]
    rw [groups_step true 6 ((if_pos rfl).trans (congrArg some htext)) (stops_cons rfl) (by simp),
      hv4]
  have hempty : groups true 8 ("::ffff:".toList ++ (inner.render.toList ++ rest)) =
      ([], false, ':' :: ':' :: ("ffff:".toList ++ (inner.render.toList ++ rest))) :=
    groups_renderGroups [] (Nat.zero_le 8) (ends_colons (stops_cons rfl))
  rw [ipv6?, hempty]
  simp only [List.length_nil, Nat.reduceEqDiff, if_false, Bool.false_eq_true, after?_cons,
    Option.bind_eq_bind, Option.bind_some, hffff]
  have hzeros : [] ++ List.replicate (8 - 0 - [0xffff, g, g'].length) 0 ++ [0xffff, g, g'] =
      host.groups := hgroups.symm
  rw [hzeros, Ipv6.ofGroups?_groups]
  rfl

theorem ipv6?_render (host : Ipv6) (hends : Ends rest) :
    ipv6? (host.render.toList ++ rest) = some (host, rest) := by
  rw [Ipv6.render]
  split
  · next inner hinner =>
    rw [String.toList_append, List.append_assoc]
    exact ipv6?_mapped hinner hends
  · by_cases hlong : 1 < (Ipv6.zeroRun host.groups).2
    · have hread := ipv6?_shortened hlong (Ipv6.zeroRun_spec host.groups) hends
      simpa [hlong] using hread
    · simp only [if_neg hlong]
      exact ipv6?_whole host hends

theorem number?_plain {n : Nat} (hn : n < bound) (hrest : Stops (isDigitOf 10) rest) :
    number? 10 bound none true (Nat.toDigits 10 n ++ rest) = some (n, rest) := by
  refine number?_toDigits (by decide) hn (fun w hw => ?_) true hrest
  cases hw

theorem port?_render (port : UInt16) :
    port? (':' :: Nat.toDigits 10 port.toNat) = some (port, []) := by
  have hnumber := number?_plain port.toNat_lt stops_nil
  rw [List.append_nil] at hnumber
  simp only [port?, after?_cons, Option.bind_eq_bind, Option.bind_some]
  rw [hnumber]
  simp only [Option.bind_some, Option.pure_def, UInt16.ofNat_toNat]

theorem scope?_render (scope : UInt32) (hrest : Stops (isDigitOf 10) rest) :
    scope? ('%' :: (Nat.toDigits 10 scope.toNat ++ rest)) = some (scope.toNat, rest) := by
  simp only [scope?, after?_cons, Option.bind_eq_bind, Option.bind_some]
  exact number?_plain scope.toNat_lt hrest

theorem v4?_render (host : Ipv4) (port : UInt16) :
    v4? (v4 host port).render.toList = some (v4 host port, []) := by
  have hhost : ipv4? (host.render.toList ++ ':' :: Nat.toDigits 10 port.toNat) =
      some (host, ':' :: Nat.toDigits 10 port.toNat) := ipv4?_render host (stops_cons rfl)
  have htext : (v4 host port).render.toList =
      host.render.toList ++ ':' :: Nat.toDigits 10 port.toNat := by
    simp [render, Decimal.render]
  simp only [htext, v4?, hhost, port?_render, Option.bind_eq_bind, Option.bind_some,
    Option.pure_def]

theorem exists_after_host (host : Ipv6) (scope : UInt32) (port : UInt16) :
    ∃ after, (v6 host scope port).render.toList = '[' :: (host.render.toList ++ after) ∧
      Ends after ∧ (scope? after).getD (0, after) =
        (scope.toNat, ']' :: ':' :: Nat.toDigits 10 port.toNat) := by
  by_cases hscope : scope = 0
  · refine ⟨']' :: ':' :: Nat.toDigits 10 port.toNat, ?_, ends_cons rfl (by decide), ?_⟩
    · simp [render, hscope, Decimal.render]
    · rw [scope?, after?_eq_none (by simp), hscope]
      rfl
  · refine ⟨'%' :: (Nat.toDigits 10 scope.toNat ++ ']' :: ':' :: Nat.toDigits 10 port.toNat), ?_,
      ends_cons rfl (by decide), ?_⟩
    · simp [render, hscope, Decimal.render]
    · rw [scope?_render scope (stops_cons rfl), Option.getD_some]

theorem v6?_render (host : Ipv6) (scope : UInt32) (port : UInt16) :
    v6? (v6 host scope port).render.toList = some (v6 host scope port, []) := by
  obtain ⟨after, htext, hends, hscope⟩ := exists_after_host host scope port
  simp only [htext, v6?, after?_cons, ipv6?_render host hends, hscope, port?_render,
    Option.bind_eq_bind, Option.bind_some, Option.pure_def, UInt32.ofNat_toNat]

/-- Every address is written in such a way that it is read as the same address. -/
theorem parse?_render (address : SocketAddress) : parse? address.render = some address := by
  cases address with
  | v4 host port =>
    rw [parse?, v4?_render]
    rfl
  | v6 host scope port =>
    have hbracket : v4? (v6 host scope port).render.toList = none := by
      obtain ⟨after, htext, -⟩ := exists_after_host host scope port
      rw [htext, v4?, ipv4?, octet?_of_stops (stops_cons rfl)]
      rfl
    rw [parse?, hbracket, v6?_render]
    rfl

end SocketAddress

end TftpReceiver
