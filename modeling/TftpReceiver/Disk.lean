import TftpReceiver.FileTree

/-! The part of the disk that a run is about, shown as a file tree, and the way back.
What a file holds is shown only where it is read. Otherwise one byte stands for all of it,
which is enough to tell whether the file was extended or written anew. -/

namespace TftpReceiver.Disk

def pathOf (place : Location) : String := "/" ++ "/".intercalate place

/-- A failure as the runtime raises it; sockets give their numbers a minus sign. -/
def failure (raised : IO.Error) : HostError :=
  match raised with
  | .alreadyExists _ code _ | .otherError code _ | .resourceBusy code _
  | .resourceVanished code _ | .unsupportedOperation code _ | .hardwareFault code _
  | .unsatisfiedConstraints code _ | .illegalOperation code _ | .protocolError code _
  | .timeExpired code _ | .interrupted _ code _ | .noFileOrDirectory _ code _
  | .invalidArgument _ code _ | .permissionDenied _ code _ | .resourceExhausted _ code _
  | .inappropriateType _ code _ | .noSuchThing _ code _ => .system code.toInt32.toInt.natAbs
  | .unexpectedEof => .kind .unexpectedEnd none
  | .userError text => .kind .other (some text)

def working : IO Location := return Path.steps (← IO.currentDir).toString

def lstat (place : Location) : IO IO.FS.Metadata :=
  let entry : IO.FS.DirEntry :=
    { root := pathOf place.dropLast, fileName := place.getLast?.getD "." }
  entry.path.symlinkMetadata

/-- What is at a place. A link leads to where the host resolves it, and to itself where the
host cannot. -/
def entry? (reads : Bool) (place : Location) : IO (Option Entry) := do
  let path := pathOf place
  match ← EIO.toBaseIO (lstat place) with
  | .error _ => return none
  | .ok found =>
    match found.type with
    | .dir => return some .directory
    | .symlink =>
      match ← EIO.toBaseIO (IO.FS.realPath path) with
      | .ok target => return some (.link target.toString)
      | .error _ => return some (.link path)
    | .file | .other =>
      if reads then return some (.file (← IO.FS.readBinFile path).toList)
      else return some (.file (if found.byteSize = 0 then [] else [0]))

/-- Adds what is along the steps from a place; what the tree shows already is taken from
there. -/
partial def lookAlong (reads : Bool) (tree : FileTree) : Location → List String → IO FileTree
  | _, [] => return tree
  | here, step :: rest => do
    if step = "" ∨ step = "." then lookAlong reads tree here rest
    else if step = ".." then lookAlong reads tree here.dropLast rest
    else
      let place := here ++ [step]
      let found ← match tree.lookup place with
        | some entry => pure (some entry)
        | none => entry? (reads && rest.isEmpty) place
      match found with
      | none => return tree
      | some entry =>
        let tree := tree.put place entry
        match entry with
        | .directory => lookAlong reads tree place rest
        | .link target =>
          if target = pathOf place then return tree
          else lookAlong reads tree [] (Path.steps target ++ rest)
        | .file _ => return tree

def look (reads : Bool) (tree : FileTree) (path : String) : IO FileTree :=
  lookAlong reads tree (tree.start path) (Path.steps path)

/-- The tree without what its files hold. -/
def outline (tree : FileTree) : FileTree :=
  { tree with
    entries := tree.entries.map fun
      | (place, .file data) => (place, .file (data.take 1))
      | entry => entry }

def bytes (data : Bytes) : ByteArray := ⟨data.toArray⟩

def append (place : Location) (data : Bytes) : IO Unit := do
  (← IO.FS.Handle.mk (pathOf place) .append).write (bytes data)

/-- Adds to a file that holds `old` what `data` has beyond that, or writes it anew. -/
def writeOver (place : Location) (old data : Bytes) : IO Unit :=
  if old.isPrefixOf data then append place (data.drop old.length)
  else IO.FS.writeBinFile (pathOf place) (bytes data)

/-- Brings a file to what it holds in a tree. A file that is gone while this one holds
what it held, and maybe more, was extended and renamed; its place is returned. -/
def updateFile (before : FileTree) (gone : List (Location × Entry)) (place : Location)
    (data : Bytes) : IO (Option Location) := do
  let source := gone.findSome? fun
    | (source, .file old) => if old.isPrefixOf data then some (source, old) else none
    | _ => none
  match source with
  | some (source, old) =>
    writeOver source old data
    IO.FS.rename (pathOf source) (pathOf place)
    return some source
  | none =>
    match before.lookup place with
    | some (.file old) => writeOver place old data
    | _ => IO.FS.writeBinFile (pathOf place) (bytes data)
    return none

/-- Makes on the disk the difference between two trees. -/
def update (before after : FileTree) : IO Unit := do
  let mut gone := before.entries.filter fun (place, _) => (after.lookup place).isNone
  for (place, entry) in after.entries.reverse do
    unless before.lookup place = some entry do
      match entry with
      | .directory => IO.FS.createDir (pathOf place)
      | .link _ => pure ()
      | .file data =>
        if let some source ← updateFile before gone place data then
          gone := gone.filter (·.1 ≠ source)
  for (place, _) in gone do
    IO.FS.removeFile (pathOf place)

end TftpReceiver.Disk
