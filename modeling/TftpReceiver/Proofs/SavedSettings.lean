import TftpReceiver.Proofs.EncodedText
import TftpReceiver.Proofs.NamedPlaces
import TftpReceiver.Proofs.ShortenedDocuments
import TftpReceiver.Proofs.SocketAddresses
import TftpReceiver.Settings.Check

/-! Saved settings are loaded as they were, and where fields were deleted from the file, with the
defaults of these. -/

namespace TftpReceiver.Settings

open Toml (Value Field Document Kept Members IsName)

/-- The numbers are within the sizes that loading allows. -/
structure Fits (s : Settings) : Prop where
  interval : s.transfer.interval ≤ Decimal.maxWord64
  maxRetries : s.transfer.maxRetries ≤ Decimal.maxWord32
  idleSeconds : s.transfer.idleSeconds ≤ Decimal.maxWord64

def Transfer.pairs (transfer : Transfer) : List (String × Field) :=
  [("retransmit_timeout_ms", .number transfer.interval),
    ("max_retries", .number transfer.maxRetries),
    ("idle_timeout_secs", .number transfer.idleSeconds),
    ("keep_partial_uploads", .flag transfer.keepPartial)]

def Writing.pairs (writing : Writing) : List (String × Field) :=
  [("allow_overwrite", .flag writing.allowOverwrite),
    ("allowed_patterns", .texts writing.allowedPatterns)]

def Logging.pairs (logging : Logging) : List (String × Field) :=
  [("level", .text logging.level), ("format", .text logging.format.name)] ++
    (logging.file.map fun file => ("file", Field.text file)).toList ++
    [("audit_enabled", .flag logging.audit)]

variable {s : Settings}

theorem fits_number {n : Nat} (h : n ≤ Decimal.maxWord64) : (Field.number n).Fits := by
  have hword : (Decimal.maxWord64 : Int) ≤ Toml.maxInteger := by decide
  have hn : (n : Int) ≤ Decimal.maxWord64 := Int.ofNat_le.mpr h
  exact Int.le_trans hn hword

instance (name : String) : Decidable (IsName name) :=
  decidable_of_iff (name ≠ "" ∧ name.toList.all Toml.isNameChar = true) (by
    rw [IsName, List.all_eq_true])

theorem pairs_of_names {pairs : List (String × Field)} (names : List String)
    (heq : pairs.map (·.1) = names) (h : (∀ name ∈ names, IsName name) ∧ names.Nodup)
    (hfits : ∀ pair ∈ pairs, pair.2.Fits) : Toml.Pairs pairs where
  names _ hm := h.1 _ (heq ▸ List.mem_map_of_mem hm)
  fits := hfits
  apart := heq ▸ h.2

theorem pairs_top (s : Settings) : Toml.Pairs s.document.pairs := by
  refine pairs_of_names ["root_dir", "bind_addr", "create_root_dir"] rfl (by decide) ?_
  simp [document, Field.Fits]

theorem pairs_transfer (h : s.Fits) : Toml.Pairs s.transfer.pairs := by
  have hword : Decimal.maxWord32 ≤ Decimal.maxWord64 := by decide
  have hinterval := fits_number h.interval
  have hretries := fits_number (Nat.le_trans h.maxRetries hword)
  have hidle := fits_number h.idleSeconds
  refine pairs_of_names ["retransmit_timeout_ms", "max_retries", "idle_timeout_secs",
    "keep_partial_uploads"] rfl (by decide) ?_
  simp only [Transfer.pairs, List.forall_mem_cons, hinterval, hretries, hidle]
  simp [Field.Fits]

theorem pairs_writing (writing : Writing) : Toml.Pairs writing.pairs := by
  refine pairs_of_names ["allow_overwrite", "allowed_patterns"] rfl (by decide) ?_
  simp [Writing.pairs, Field.Fits]

theorem pairs_logging (logging : Logging) : Toml.Pairs logging.pairs := by
  cases hfile : logging.file with
  | none =>
    have hnames : logging.pairs.map (·.1) = ["level", "format", "audit_enabled"] := by
      rw [Logging.pairs, hfile]
      rfl
    refine pairs_of_names _ hnames (by decide) ?_
    simp [Logging.pairs, hfile, Field.Fits]
  | some file =>
    have hnames : logging.pairs.map (·.1) = ["level", "format", "file", "audit_enabled"] := by
      rw [Logging.pairs, hfile]
      rfl
    refine pairs_of_names _ hnames (by decide) ?_
    simp [Logging.pairs, hfile, Field.Fits]

theorem wellFormed_document (h : s.Fits) : s.document.WellFormed where
  pairs := pairs_top s
  sections := by
    have hsections : s.document.sections = [("transfer", s.transfer.pairs),
        ("write_config", s.writing.pairs), ("logging", s.logging.pairs)] := rfl
    simp only [hsections, List.forall_mem_cons]
    exact ⟨⟨by decide, pairs_transfer h⟩, ⟨by decide, pairs_writing _⟩,
      ⟨by decide, pairs_logging _⟩, by simp⟩
  apart := by
    show List.Nodup ["root_dir", "bind_addr", "create_root_dir", "transfer", "write_config",
      "logging"]
    decide

def Transfer.restrict (keep : String → Bool) (transfer : Transfer) : Transfer :=
  let default : Transfer := {}
  { interval := if keep "retransmit_timeout_ms" then transfer.interval else default.interval
    maxRetries := if keep "max_retries" then transfer.maxRetries else default.maxRetries
    idleSeconds := if keep "idle_timeout_secs" then transfer.idleSeconds else default.idleSeconds
    keepPartial :=
      if keep "keep_partial_uploads" then transfer.keepPartial else default.keepPartial }

def Writing.restrict (keep : String → Bool) (writing : Writing) : Writing :=
  let default : Writing := {}
  { allowOverwrite :=
      if keep "allow_overwrite" then writing.allowOverwrite else default.allowOverwrite
    allowedPatterns :=
      if keep "allowed_patterns" then writing.allowedPatterns else default.allowedPatterns }

def Logging.restrict (keep : String → Bool) (logging : Logging) : Logging :=
  let default : Logging := {}
  { level := if keep "level" then logging.level else default.level
    format := if keep "format" then logging.format else default.format
    file := if keep "file" then logging.file else default.file
    audit := if keep "audit_enabled" then logging.audit else default.audit }

/-- The settings with every field that was deleted at its default. -/
def restrict (kept : Kept) (s : Settings) : Settings :=
  let default : Settings := {}
  { root := if kept.pair "root_dir" then s.root else default.root
    bind := if kept.pair "bind_addr" then s.bind else default.bind
    createRoot := if kept.pair "create_root_dir" then s.createRoot else default.createRoot
    transfer :=
      if kept.part "transfer" then s.transfer.restrict (kept.inner "transfer")
      else default.transfer
    writing :=
      if kept.part "write_config" then s.writing.restrict (kept.inner "write_config")
      else default.writing
    logging :=
      if kept.part "logging" then s.logging.restrict (kept.inner "logging")
      else default.logging }

section

variable {α : Type} {read : Value → Option α} {default a : α} {keep : String → Bool}
  {name : String} {members : Members} {value : Value}

theorem get?_of_lookup {kept : Bool}
    (h : members.lookup name = if kept = true then some value else none)
    (hread : read value = some a) :
    get? read default name members = some (if kept = true then a else default) := by
  cases kept with
  | false => simp [get?, h]
  | true => simp [get?, h, hread]

theorem get?_left {pairs : List (String × Field)} {field : Field}
    (h : pairs.lookup name = some field) (hread : read field.value = some a) :
    get? read default name (Toml.left keep pairs) =
      some (if keep name = true then a else default) := by
  have hlookup : (Toml.left keep pairs).lookup name = _ := Toml.lookup_left keep pairs
  rw [h] at hlookup
  exact get?_of_lookup hlookup hread

variable {document : Document} {kept : Kept}

theorem get?_pair (h : document.WellFormed) {field : Field}
    (hl : document.pairs.lookup name = some field) (hread : read field.value = some a) :
    get? read default name (document.keep kept).members =
      some (if kept.pair name = true then a else default) :=
  get?_of_lookup (Toml.lookup_pair h hl) hread

theorem get?_section (h : document.WellFormed) {pairs : List (String × Field)}
    (hl : document.sections.lookup name = some pairs)
    (hread : read (.table (Toml.left (kept.inner name) pairs)) = some a) :
    get? read default name (document.keep kept).members =
      some (if kept.part name = true then a else default) :=
  get?_of_lookup (Toml.lookup_section h hl) hread

end

theorem text?_value (text : String) : text? (Field.text text).value = some text := rfl

theorem flag?_value (flag : Bool) : flag? (Field.flag flag).value = some flag := rfl

theorem number?_value {n limit : Nat} (h : n ≤ limit) :
    number? limit (Field.number n).value = some n := by
  have hn : (0 : Int) ≤ n ∧ (n : Int) ≤ limit := ⟨Int.natCast_nonneg n, Int.ofNat_le.mpr h⟩
  rw [Field.value, number?, if_pos hn, Int.toNat_natCast]

theorem texts?_value (texts : List String) : texts? (Field.texts texts).value = some texts := by
  rw [Field.value, texts?]
  induction texts with
  | nil => rfl
  | cons text texts ih =>
    rw [List.map_cons, List.mapM_cons, ih]
    rfl

theorem format?_value (format : LogFormat) :
    format? (Field.text format.name).value = some format := by
  cases format <;> rfl

theorem address?_value (address : SocketAddress) :
    address? (Field.text address.render).value = some address :=
  address.parse?_render

theorem transfer?_left (h : s.Fits) (keep : String → Bool) :
    transfer? (.table (Toml.left keep s.transfer.pairs)) = some (s.transfer.restrict keep) := by
  have hinterval := number?_value h.interval
  have hretries := number?_value h.maxRetries
  have hidle := number?_value h.idleSeconds
  have hpartial := flag?_value s.transfer.keepPartial
  unfold transfer? section?
  simp only [Option.bind_eq_bind, Option.bind_some]
  rw [get?_left rfl hinterval, get?_left rfl hretries, get?_left rfl hidle, get?_left rfl hpartial]
  rfl

theorem writing?_left (writing : Writing) (keep : String → Bool) :
    writing? (.table (Toml.left keep writing.pairs)) = some (writing.restrict keep) := by
  have hoverwrite := flag?_value writing.allowOverwrite
  have hpatterns := texts?_value writing.allowedPatterns
  unfold writing? section?
  simp only [Option.bind_eq_bind, Option.bind_some]
  rw [get?_left rfl hoverwrite, get?_left rfl hpatterns]
  rfl

theorem file_left (logging : Logging) (keep : String → Bool) :
    get? (fun value => (text? value).map some) none "file" (Toml.left keep logging.pairs) =
      some (if keep "file" = true then logging.file else none) := by
  cases hfile : logging.file with
  | some file =>
    have hlookup : logging.pairs.lookup "file" = some (.text file) := by
      rw [Logging.pairs, hfile]
      rfl
    exact get?_left hlookup rfl
  | none =>
    have hlookup : logging.pairs.lookup "file" = none := by
      rw [Logging.pairs, hfile]
      rfl
    rw [get?, Toml.lookup_left, hlookup, Option.map_none, ite_self, ite_self]

theorem logging?_left (logging : Logging) (keep : String → Bool) :
    logging? (.table (Toml.left keep logging.pairs)) = some (logging.restrict keep) := by
  have hlevel := text?_value logging.level
  have hformat := format?_value logging.format
  have haudit : logging.pairs.lookup "audit_enabled" = some (.flag logging.audit) := by
    rw [Logging.pairs]
    cases logging.file <;> rfl
  unfold logging? section?
  simp only [Option.bind_eq_bind, Option.bind_some]
  rw [get?_left rfl hlevel, get?_left rfl hformat, file_left,
    get?_left haudit (flag?_value logging.audit)]
  rfl

theorem ofMembers?_keep (h : s.Fits) (kept : Kept) :
    ofMembers? (s.document.keep kept).members = some (s.restrict kept) := by
  have hdocument := wellFormed_document h
  have hroot : s.document.pairs.lookup "root_dir" = some (.text s.root) := rfl
  have hbind : s.document.pairs.lookup "bind_addr" = some (.text s.bind.render) := rfl
  have hcreate : s.document.pairs.lookup "create_root_dir" = some (.flag s.createRoot) := rfl
  have htransfer : s.document.sections.lookup "transfer" = some s.transfer.pairs := rfl
  have hwriting : s.document.sections.lookup "write_config" = some s.writing.pairs := rfl
  have hlogging : s.document.sections.lookup "logging" = some s.logging.pairs := rfl
  unfold ofMembers?
  simp only [Option.bind_eq_bind]
  rw [get?_pair hdocument hroot (text?_value _), get?_pair hdocument hbind (address?_value _),
    get?_pair hdocument hcreate (flag?_value _),
    get?_section hdocument htransfer (transfer?_left h _),
    get?_section hdocument hwriting (writing?_left _ _),
    get?_section hdocument hlogging (logging?_left _ _)]
  rfl

/-- Whatever was deleted from the written settings, they are loaded. -/
theorem load_keep (h : s.Fits) (kept : Kept) {tree : FileTree} {path : String}
    (hread : tree.read path = .ok (Utf8.encode (s.document.keep kept).render)) :
    load tree path = .ok (s.restrict kept) := by
  have hparse : parse? (s.document.keep kept).render = some (s.restrict kept) := by
    have hdocument := (wellFormed_document h).keep kept
    rw [parse?, Toml.parse?_render hdocument, Option.bind_some, ofMembers?_keep h]
  simp only [load, hread, Utf8.decode?_encode, hparse]

/-- Nothing was deleted. -/
def everything : Kept := ⟨fun _ => true, fun _ => true, fun _ _ => true⟩

theorem keep_everything (document : Document) : document.keep everything = document := by
  have hfilter : ∀ {α : Type} (items : List α), (items.filter fun _ => true) = items := fun items =>
    List.filter_eq_self.mpr fun _ _ => rfl
  simp only [Document.keep, everything, hfilter, List.map_id']

theorem load_of_read (h : s.Fits) {tree : FileTree} {path : String}
    (hread : tree.read path = .ok (Utf8.encode s.render)) : load tree path = .ok s := by
  have hall : tree.read path = .ok (Utf8.encode (s.document.keep everything).render) := by
    rw [keep_everything]
    exact hread
  exact load_keep h everything hall

theorem save_of_create {tree : FileTree} {path : String} {made : Location × FileTree}
    (hcreate : tree.create path = .ok made) : ∃ saved, s.save tree path = .ok saved ∧
      tree.write path (Utf8.encode s.render) = .ok saved := by
  refine ⟨made.2.put made.1 (.file (Utf8.encode s.render)), ?_, ?_⟩
  · rw [save, FileTree.write, hcreate]
    rfl
  · rw [FileTree.write, hcreate]
    rfl

/-- Settings can be saved wherever a file can be made, and are loaded from there as they were. The
file consists of a piece for each field and a header for each section. From the pieces that are left
when fields or whole sections are deleted, exactly these are loaded with their defaults. -/
theorem save_loads_back (h : s.Fits) {tree : FileTree} {path : String}
    {made : Location × FileTree} (hcreate : tree.create path = .ok made) :
    ∃ saved, s.save tree path = .ok saved ∧ load saved path = .ok s ∧
      saved.read path = .ok (Utf8.encode (Toml.textOf s.document.pieces)) ∧
      ∀ (kept : Kept) (later : FileTree),
        later.read path = .ok (Utf8.encode (Toml.textOf
          (s.document.pieces.filter fun piece => kept.holds piece.1))) →
        load later path = .ok (s.restrict kept) := by
  obtain ⟨saved, hsave, hwrite⟩ := save_of_create hcreate
  have hread := FileTree.read_of_write hwrite
  refine ⟨saved, hsave, load_of_read h hread, ?_, fun kept later hlater => ?_⟩
  · rw [← Toml.render_eq_textOf]
    exact hread
  · rw [← Toml.pieces_keep, ← Toml.render_eq_textOf] at hlater
    exact load_keep h kept hlater

/-- Quotes of both kinds in a row, line ends, control characters and a host with a scope. -/
def quotedSettings : Settings :=
  { root := "/srv/a \\ \"b\"\n'''c'''"
    bind := .v6 ⟨[0xfe80, 0, 0, 0, 0, 0, 0, 1], rfl⟩ 3 6969
    transfer := { interval := 2000, idleSeconds := 9223372036854775807 }
    writing := { allowedPatterns := ["", "\x00\t\r\n\\", "'\"\"\"\n", "é*"] }
    logging := { level := "\x7f", format := .json } }

/-- The address is deleted, the idle time, and everything about uploads. -/
def shortening : Kept where
  pair name := name ≠ "bind_addr"
  part name := name ≠ "write_config"
  inner _ name := name ≠ "idle_timeout_secs"

theorem save_loads_back_quoted :
    let left := quotedSettings.document.pieces.filter fun piece => shortening.holds piece.1
    ∃ saved later, quotedSettings.save {} "upload.toml" = .ok saved ∧
      load saved "upload.toml" = .ok quotedSettings ∧ left.length = 10 ∧
      FileTree.write {} "upload.toml" (Utf8.encode (Toml.textOf left)) = .ok later ∧
      load later "upload.toml" = .ok
        { root := quotedSettings.root
          transfer := { interval := 2000 }
          logging := quotedSettings.logging } := by
  intro left
  have hfits : quotedSettings.Fits := ⟨by decide, by decide, by decide⟩
  have hcreate : FileTree.create {} "upload.toml" =
      .ok (["upload.toml"], ({} : FileTree).put ["upload.toml"] (.file [])) := rfl
  have hlength : left.length = 10 := by decide
  obtain ⟨saved, hsave, hload, -, hkept⟩ := save_loads_back hfits hcreate
  obtain ⟨later, hlater⟩ : ∃ later, FileTree.write {} "upload.toml"
      (Utf8.encode (Toml.textOf left)) = .ok later := ⟨_, rfl⟩
  exact ⟨saved, later, hsave, hload, hlength, hlater,
    hkept shortening later (FileTree.read_of_write hlater)⟩

end TftpReceiver.Settings
