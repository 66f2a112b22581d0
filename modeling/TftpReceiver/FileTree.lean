import TftpReceiver.Bytes
import TftpReceiver.HostError
import TftpReceiver.Path

/-! A file system with directories, files and symbolic links, kept as entries at
locations, and the walk along a path through it. -/

namespace TftpReceiver

/-- The names from the root down. -/
abbrev Location := List String

inductive Entry
  | file (data : Bytes)
  | link (target : String)
  | directory
  deriving DecidableEq, Repr, Inhabited

/-- Relative paths start at `working`. -/
structure FileTree where
  entries : List (Location × Entry) := []
  working : Location := []
  deriving DecidableEq, Repr, Inhabited

/-- Where a walk ends: at an entry, or in a directory that lacks the last name. A slash behind
that name asks for a directory. -/
inductive Found
  | entry (place : Location) (entry : Entry)
  | missing (directory : Location) (name : String)
  | noDirectory (directory : Location) (name : String)
  deriving DecidableEq, Repr, Inhabited

namespace FileTree

def maxName : Nat := 255
def maxPath : Nat := 4095
def maxLinks : Nat := 40

def lookup (tree : FileTree) (place : Location) : Option Entry :=
  if place = [] then some .directory
  else (tree.entries.find? (·.1 = place)).map (·.2)

def erase (tree : FileTree) (place : Location) : FileTree :=
  { tree with entries := tree.entries.filter (·.1 ≠ place) }

def put (tree : FileTree) (place : Location) (entry : Entry) : FileTree :=
  { tree with entries := (place, entry) :: tree.entries.filter (·.1 ≠ place) }

/-- Walks from a directory along steps; `onLink` goes on at a symbolic link. At the last
step a link is followed only if `follow` says so. -/
def walkWith (onLink : Location → List String → Except HostError Found)
    (tree : FileTree) (follow : Bool) : Location → List String → Except HostError Found
  | here, [] => .ok (.entry here .directory)
  | here, step :: rest =>
    if step = "" ∨ step = "." then walkWith onLink tree follow here rest
    else if step = ".." then walkWith onLink tree follow here.dropLast rest
    else if maxName < step.utf8ByteSize then .error .nameTooLong
    else
      let place := here ++ [step]
      match tree.lookup place with
      | none =>
        if rest = [] then .ok (.missing here step)
        else if rest.all (· = "") then .ok (.noDirectory here step)
        else .error .notFound
      | some .directory => walkWith onLink tree follow place rest
      | some (.file data) =>
        if rest = [] then .ok (.entry place (.file data)) else .error .notADirectory
      | some (.link target) =>
        if rest = [] ∧ ¬ follow then .ok (.entry place (.link target))
        else onLink (if Path.isAbsolute target then [] else here) (Path.steps target ++ rest)

/-- A walk that may pass through `links` symbolic links. -/
def walk (tree : FileTree) (follow : Bool) :
    (links : Nat) → Location → List String → Except HostError Found
  | 0 => walkWith (fun _ _ => .error .tooManyLinks) tree follow
  | links + 1 => walkWith (walk tree follow links) tree follow

def start (tree : FileTree) (path : String) : Location :=
  if Path.isAbsolute path then [] else tree.working

def find (tree : FileTree) (follow : Bool) (path : String) : Except HostError Found :=
  if path.toList.contains (Char.ofNat 0) then .error .zeroInPath
  else if path = "" then .error .notFound
  else if maxPath < path.utf8ByteSize then .error .nameTooLong
  else walk tree follow maxLinks (tree.start path) (Path.steps path)

/-- The entry that a path leads to. -/
def inspect (tree : FileTree) (follow : Bool) (path : String) :
    Except HostError (Location × Entry) :=
  match tree.find follow path with
  | .ok (.entry place entry) => .ok (place, entry)
  | .ok (.missing _ _) | .ok (.noDirectory _ _) => .error .notFound
  | .error e => .error e

/-- The location that a path leads to, through all links. -/
def canonical (tree : FileTree) (path : String) : Except HostError Location :=
  (·.1) <$> tree.inspect true path

def isDirectory (tree : FileTree) (path : String) : Bool :=
  match tree.inspect true path with
  | .ok (_, .directory) => true
  | _ => false

def read (tree : FileTree) (path : String) : Except HostError Bytes :=
  match tree.inspect true path with
  | .ok (_, .file data) => .ok data
  | .ok _ => .error .isADirectory
  | .error e => .error e

end FileTree

end TftpReceiver
