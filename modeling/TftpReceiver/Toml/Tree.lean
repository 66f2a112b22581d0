import TftpReceiver.Toml

/-! Tables as they come about: statement by statement, each at the place that its path
names. A table may be made once by a header, or grow by dotted names, but not both. -/

namespace TftpReceiver.Toml

/-- How a table came about: by its own header, as part of the path of another header,
or by dotted names. -/
inductive Origin
  | header
  | passage
  | dotted
  deriving DecidableEq, Repr, Inhabited

/-- A value is complete; a table and the last of a row of tables can grow. -/
inductive Tree
  | value (value : Value)
  | table (origin : Origin) (members : List (String × Tree))
  | rows (tables : List (List (String × Tree)))
  deriving Repr, Inhabited

abbrev Branches := List (String × Tree)

inductive Statement
  | table (path : List String)
  | row (path : List String)
  | assign (path : List String) (value : Value)
  deriving Repr, Inhabited

namespace Branches

/-- Puts a branch in the place of one with the same name, or at the end. -/
def put (name : String) (tree : Tree) : Branches → Branches
  | [] => [(name, tree)]
  | (other, old) :: rest =>
    if other = name then (name, tree) :: rest else (other, old) :: put name tree rest

/-- Changes the table at the end of a path; `dotted` tells a path within a table from
the path of a header. Tables on the way that are missing are made. -/
def change? (dotted : Bool) (f : Origin → Branches → Option Branches) :
    List String → Origin → Branches → Option Branches
  | [], origin, branches => f origin branches
  | name :: path, _, branches =>
    match branches.lookup name with
    | none =>
      let origin := if dotted then Origin.dotted else Origin.passage
      (change? dotted f path origin []).map fun inner => branches.put name (.table origin inner)
    | some (.table origin inner) =>
      if dotted ∧ origin = .header then none
      else
        (change? dotted f path origin inner).map fun inner =>
          branches.put name (.table origin inner)
    | some (.rows tables) =>
      match tables.reverse with
      | [] => none
      | last :: before =>
        (change? dotted f path .header last).map fun last =>
          branches.put name (.rows (before.reverse ++ [last]))
    | some (.value _) => none

/-- A name is given a value once. Dotted names end in a table that dotted names made. -/
def assign? (path : List String) (value : Value) (branches : Branches) : Option Branches :=
  match path.reverse with
  | [] => none
  | name :: before =>
    change? true
      (fun origin inner =>
        if (before ≠ [] ∧ origin ≠ .dotted) ∨ (inner.lookup name).isSome then none
        else some (inner.put name (.value value)))
      before.reverse .header branches

def addTable? (path : List String) (branches : Branches) : Option Branches :=
  match path.reverse with
  | [] => none
  | name :: before =>
    change? false
      (fun _ inner =>
        match inner.lookup name with
        | none => some (inner.put name (.table .header []))
        | some (.table .passage members) => some (inner.put name (.table .header members))
        | some _ => none)
      before.reverse .header branches

def addRow? (path : List String) (branches : Branches) : Option Branches :=
  match path.reverse with
  | [] => none
  | name :: before =>
    change? false
      (fun _ inner =>
        match inner.lookup name with
        | none => some (inner.put name (.rows [[]]))
        | some (.rows tables) => some (inner.put name (.rows (tables ++ [[]])))
        | some _ => none)
      before.reverse .header branches

/-- Assignments are made in the table of the last header, at `place`. -/
def perform? (place : List String) (branches : Branches) :
    List Statement → Option Branches
  | [] => some branches
  | .table path :: rest => do perform? path (← branches.addTable? path) rest
  | .row path :: rest => do perform? path (← branches.addRow? path) rest
  | .assign path value :: rest => do
    let branches ← change? false (fun _ inner => inner.assign? path value) place .header branches
    perform? place branches rest

end Branches

mutual

def Tree.toValue : Tree → Value
  | .value value => value
  | .table _ members => .table (Branches.toMembers members)
  | .rows tables => .array (rowValues tables)

def Branches.toMembers : Branches → Members
  | [] => []
  | (name, tree) :: rest => (name, tree.toValue) :: Branches.toMembers rest

def rowValues : List Branches → List Value
  | [] => []
  | table :: rest => .table (Branches.toMembers table) :: rowValues rest

end

/-- What a list of statements says. -/
def ofStatements? (statements : List Statement) : Option Members :=
  (Branches.perform? [] [] statements).map Branches.toMembers

end TftpReceiver.Toml
