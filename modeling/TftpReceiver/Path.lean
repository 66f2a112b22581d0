/-! Paths as they are written: pieces between slashes, and the parts of a path that
follow from its text alone. -/

namespace TftpReceiver.Path

def splitSlash : List Char → List (List Char)
  | [] => [[]]
  | c :: rest =>
    if c = '/' then [] :: splitSlash rest
    else
      match splitSlash rest with
      | [] => [[c]]
      | piece :: pieces => (c :: piece) :: pieces

def pieces (path : String) : List String := (splitSlash path.toList).map String.ofList

def isAbsolute (path : String) : Bool := path.toList.head? = some '/'

def endsInSlash (path : String) : Bool := path.toList.getLast? = some '/'

/-- The path without the slashes at its end; a path of slashes alone stays one slash. -/
def unslashed (path : String) : String :=
  match path.toList.reverse.dropWhile (· = '/') with
  | [] => if path = "" then "" else "/"
  | cs => String.ofList cs.reverse

/-- The steps of a walk along the path. A last empty step stands for a slash at the
end, which asks for a directory. -/
def steps (path : String) : List String :=
  let named := (pieces path).filter (· ≠ "")
  if named ≠ [] ∧ endsInSlash path then named ++ [""] else named

/-- A path below another; an absolute one stands for itself. -/
def join (base path : String) : String :=
  if isAbsolute path then path
  else if base = "" ∨ endsInSlash base then base ++ path
  else base ++ "/" ++ path

/-- Where a written path starts: at the root, at an explicit dot, or at a name. -/
inductive Anchor
  | root
  | dot
  | name
  deriving DecidableEq, Repr

def anchored (path : String) : Anchor × List String :=
  match pieces path with
  | "" :: piece :: body => (.root, piece :: body)
  | "." :: body => (.dot, body)
  | body => (.name, body)

def isIdle (piece : String) : Bool := piece = "" ∨ piece = "."

/-- The body without empty pieces and dots at its end. -/
def trimIdle (body : List String) : List String := (body.reverse.dropWhile isIdle).reverse

def render : Anchor → List String → String
  | .root, body => "/" ++ "/".intercalate body
  | .dot, [] => "."
  | .dot, body => "./" ++ "/".intercalate body
  | .name, body => "/".intercalate body

/-- The path without its last component, which need not be a directory that exists. -/
def parent? (path : String) : Option String :=
  let (anchor, body) := anchored path
  let body := trimIdle body
  if body = [] then
    if anchor = .dot then some "" else none
  else some (render anchor (trimIdle body.dropLast))

/-- The last component, unless it leads upwards. -/
def fileName? (path : String) : Option String :=
  ((trimIdle (anchored path).2).getLast?).filter (· ≠ "..")

def ascends (path : String) : Bool := (pieces path).contains ".."

end TftpReceiver.Path
