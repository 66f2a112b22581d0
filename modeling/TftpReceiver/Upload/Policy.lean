import TftpReceiver.Failure
import TftpReceiver.Upload.Staged

/-! Which names may be written: those below the root directory that neither links nor
upward steps lead out of, and that the write rules allow. -/

namespace TftpReceiver

inductive Violation
  | traversal
  | symlink
  | outsideRoot
  | notAllowed
  | alreadyExists
  | unavailable
  deriving DecidableEq, Repr, Inhabited

/-- `relative` is the requested name with plain slashes and none in front. -/
structure UploadPath where
  relative : String
  target : String
  staging : String
  deriving DecidableEq, Repr, Inhabited

/-- Without patterns every name is allowed. -/
structure WritePolicy where
  root : String
  canonicalRoot : Location
  allowOverwrite : Bool
  patterns : List Pattern
  deriving DecidableEq, Repr, Inhabited

namespace Violation

def name : Violation → String
  | traversal => "directory_traversal"
  | symlink => "symlink"
  | outsideRoot => "outside_root"
  | notAllowed => "pattern_not_allowed"
  | alreadyExists => "file_exists"
  | unavailable => "unavailable"

def code : Violation → ErrorCode
  | alreadyExists => .fileExists
  | _ => .accessViolation

/-- An attempt to leave the root directory, as opposed to a plain refusal. -/
def isEscape : Violation → Bool
  | traversal | symlink | outsideRoot => true
  | _ => false

end Violation

namespace WritePolicy

def parsePattern (text : String) : Except SettingsFault Pattern :=
  match Pattern.parse text with
  | .ok pattern => .ok pattern
  | .error e => .error (.pattern text e)

def create (tree : FileTree) (root : String) (allowOverwrite : Bool)
    (patterns : List String) : Except SettingsFault WritePolicy :=
  match tree.canonical root with
  | .error e => .error (.rootInaccessible root e)
  | .ok canonicalRoot =>
    (fun patterns => { root, canonicalRoot, allowOverwrite, patterns }) <$>
      patterns.mapM parsePattern

/-- The requested name with every backslash as a slash, and without slashes in front. -/
def relativeName (filename : String) : String :=
  String.ofList
    ((filename.toList.map fun c => if c = '\\' then '/' else c).dropWhile (· = '/'))

def allows (policy : WritePolicy) (relative : String) : Bool :=
  policy.patterns.isEmpty || policy.patterns.any (·.isMatch relative)

def checkTarget (policy : WritePolicy) (tree : FileTree) (target : String) :
    Except Violation Unit :=
  match tree.inspect false target with
  | .ok (_, .link _) => .error .symlink
  | .ok (_, .directory) => .error .notAllowed
  | .ok (_, .file _) => if policy.allowOverwrite then .ok () else .error .alreadyExists
  | .error e => if e.isNotFound then .ok () else .error .unavailable

/-- The directory of the target must be there already and lie below the root. -/
def checkParent (policy : WritePolicy) (tree : FileTree) (target : String) :
    Except Violation Unit :=
  match Path.parent? target with
  | none => .error .outsideRoot
  | some parent =>
    match tree.canonical parent with
    | .error _ => .error .unavailable
    | .ok place => if policy.canonicalRoot <+: place then .ok () else .error .outsideRoot

def checkStaging (tree : FileTree) (staging : String) : Except Violation Unit :=
  match tree.inspect false staging with
  | .ok (_, .link _) => .error .symlink
  | _ => .ok ()

def resolve (policy : WritePolicy) (tree : FileTree) (filename : String) :
    Except Violation UploadPath := do
  let relative := relativeName filename
  if relative = "" then throw .notAllowed
  if Path.ascends relative then throw .traversal
  let target := Path.join policy.root relative
  let staging := StagedUpload.stagingPath target
  policy.checkTarget tree target
  policy.checkParent tree target
  if !policy.allows relative then throw .notAllowed
  checkStaging tree staging
  return { relative, target, staging }

end WritePolicy

end TftpReceiver
