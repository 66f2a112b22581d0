import TftpReceiver.FileTree

/-! Changes to a file tree: creating, extending, renaming and removing entries. -/

namespace TftpReceiver.FileTree

/-- Opens a file for writing from its start, making it when it is missing. -/
def create (tree : FileTree) (path : String) : Except HostError (Location × FileTree) :=
  if Path.endsInSlash path then
    match tree.find false (Path.unslashed path) with
    | .ok _ => .error .isADirectory
    | .error e => .error e
  else
    match tree.find true path with
    | .ok (.entry place (.file _)) => .ok (place, tree.put place (.file []))
    | .ok (.entry _ _) | .ok (.noDirectory _ _) => .error .isADirectory
    | .ok (.missing directory name) =>
      .ok (directory ++ [name], tree.put (directory ++ [name]) (.file []))
    | .error e => .error e

/-- Adds bytes to the end of the file at a location. -/
def append (tree : FileTree) (place : Location) (data : Bytes) : FileTree :=
  match tree.lookup place with
  | some (.file old) => tree.put place (.file (old ++ data))
  | _ => tree

def write (tree : FileTree) (path : String) (data : Bytes) : Except HostError FileTree :=
  (fun (place, tree) => tree.put place (.file data)) <$> tree.create path

/-- Makes an empty file where nothing is. -/
def touch (tree : FileTree) (path : String) : Except HostError FileTree :=
  match tree.find true path with
  | .ok (.entry _ (.file _)) => .ok tree
  | .ok (.entry _ _) | .ok (.noDirectory _ _) => .error .isADirectory
  | .ok (.missing directory name) => .ok (tree.put (directory ++ [name]) (.file []))
  | .error e => .error e

def createDirectory (tree : FileTree) (path : String) : Except HostError FileTree :=
  match tree.find false (Path.unslashed path) with
  | .ok (.missing directory name) => .ok (tree.put (directory ++ [name]) .directory)
  | .ok (.entry _ _) => .error .alreadyExists
  | .ok (.noDirectory _ _) => .error .notFound
  | .error e => .error e

/-- Makes a symbolic link where nothing is. -/
def createLink (tree : FileTree) (path target : String) : Except HostError FileTree :=
  match tree.find false path with
  | .ok (.missing directory name) => .ok (tree.put (directory ++ [name]) (.link target))
  | .ok (.entry _ _) => .error .alreadyExists
  | .ok (.noDirectory _ _) => .error .notFound
  | .error e => .error e

/-- Makes a directory and those above it, at most `depth` of them. Directories made
before a failure stay. -/
def createDirectoriesUpTo : (depth : Nat) → String → FileTree → Except HostError Unit × FileTree
  | 0, _, tree => (.ok (), tree)
  | depth + 1, path, tree =>
    if path = "" then (.ok (), tree)
    else
      match tree.createDirectory path with
      | .ok tree => (.ok (), tree)
      | .error e =>
        match if e.isNotFound then Path.parent? path else none with
        | none => (if tree.isDirectory path then .ok () else .error e, tree)
        | some parent =>
          match createDirectoriesUpTo depth parent tree with
          | (.error e, tree) => (.error e, tree)
          | (.ok (), tree) =>
            match tree.createDirectory path with
            | .ok tree => (.ok (), tree)
            | .error e => (if tree.isDirectory path then .ok () else .error e, tree)

def createDirectories (tree : FileTree) (path : String) : Except HostError Unit × FileTree :=
  createDirectoriesUpTo ((Path.pieces path).length + 1) path tree

/-- Removes a file or a link. -/
def remove (tree : FileTree) (path : String) : Except HostError FileTree :=
  match tree.inspect false path with
  | .ok (_, .directory) => .error .isADirectory
  | .ok (place, _) => .ok (tree.erase place)
  | .error e => .error e

/-- A path whose last step names no entry of its own. -/
def endsInDots (path : String) : Bool :=
  match (Path.steps (Path.unslashed path)).getLast? with
  | none => true
  | some step => step = "." ∨ step = ".."

/-- Gives a file or a link another name, in place of a file or a link that has it. -/
def rename (tree : FileTree) (source target : String) : Except HostError FileTree :=
  match tree.inspect false source with
  | .error e => .error e
  | .ok (_, .directory) => .error .isADirectory
  | .ok (place, entry) =>
    match tree.find false (Path.unslashed target) with
    | .error e => .error e
    | .ok found =>
      if endsInDots target then .error .busy
      else if Path.endsInSlash target then .error .notADirectory
      else
        match found with
        | .entry taken .directory =>
          .error (if taken <+: place then .notEmpty else .isADirectory)
        | .entry taken _ => .ok ((tree.erase place).put taken entry)
        | .missing directory name => .ok ((tree.erase place).put (directory ++ [name]) entry)
        | .noDirectory _ _ => .error .notFound

end TftpReceiver.FileTree
