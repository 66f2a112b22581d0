import TftpReceiver.SocketAddress

/-! The arguments of the command line. -/

namespace TftpReceiver

/-- What the arguments ask for; texts that were not given are missing. -/
structure Command where
  port : Option String := none
  config : Option String := none
  initConfig : Bool := false
  checkConfig : Bool := false
  createRoot : Bool := false
  root : Option String := none
  bind : Option SocketAddress := none
  deriving DecidableEq, Repr

namespace Command

/-- Why there is nothing to carry out. -/
inductive Refusal
  | help
  | usage
  deriving DecidableEq, Repr, Inhabited

def defaultConfig : String := "/etc/tftp-upload/tftp.toml"

def configPath (command : Command) : String := command.config.getD defaultConfig

def help : String :=
  "\n".intercalate
    ["Receive a single file over TFTP and exit",
      "",
      "Usage: tftp-upload [OPTIONS] [PORT]",
      "",
      "Arguments:",
      "  [PORT]  UDP port to wait for the upload on",
      "",
      "Options:",
      "      --config <CONFIG>      Path to the TOML configuration file [default: " ++
        defaultConfig ++ "]",
      "      --init-config          Write the effective TOML configuration and exit",
      "      --check-config         Validate the configuration and exit (no socket bind)",
      "      --create-root-dir      Create the root directory if it does not exist",
      "      --root-dir <ROOT_DIR>  Directory uploads are stored in",
      "      --bind <BIND>          Address to bind; the positional port replaces its port",
      "  -h, --help                 Print help",
      ""]

def usage : String :=
  "error: the arguments cannot be used\n\nUsage: tftp-upload [OPTIONS] [PORT]\n\n" ++
    "For more information, try '--help'."

/-- What an argument looks like where options may stand: an option with two dashes and
maybe a value after an equals sign, letters after one dash, or neither. -/
inductive Shape
  | long (name : String) (value : Option String)
  | short (letters : List Char)
  | plain
  deriving DecidableEq, Repr

def shape (argument : String) : Shape :=
  match argument.toList with
  | '-' :: '-' :: rest =>
    let name := rest.takeWhile (· ≠ '=')
    .long (String.ofList name)
      (if name.length < rest.length then some (String.ofList (rest.drop (name.length + 1)))
        else none)
  | '-' :: c :: rest => .short (c :: rest)
  | _ => .plain

/-- An option without a value; it may be given once. -/
def setFlag? (name : String) (command : Command) : Option Command :=
  match name with
  | "init-config" =>
    if command.initConfig then none else some { command with initConfig := true }
  | "check-config" =>
    if command.checkConfig then none else some { command with checkConfig := true }
  | "create-root-dir" =>
    if command.createRoot then none else some { command with createRoot := true }
  | _ => none

def takesValue (name : String) : Bool := ["config", "root-dir", "bind"].contains name

/-- An option with a value; it may be given once, and a path is not empty. -/
def setValue? (name value : String) (command : Command) : Option Command :=
  match name with
  | "config" =>
    if command.config.isSome ∨ value = "" then none else some { command with config := value }
  | "root-dir" =>
    if command.root.isSome ∨ value = "" then none else some { command with root := value }
  | "bind" =>
    if command.bind.isSome then none
    else (SocketAddress.parse? value).map fun address => { command with bind := address }
  | _ => none

def setPort? (value : String) (command : Command) : Option Command :=
  if command.port.isSome then none else some { command with port := value }

def orUsage (result : Option Command) (next : Command → Except Refusal Command) :
    Except Refusal Command :=
  match result with
  | some command => next command
  | none => .error .usage

/-- The arguments after those that `command` stems from. After two dashes on their own
everything is a port. -/
def parseFrom (plain : Bool) (command : Command) : List String → Except Refusal Command
  | [] => .ok command
  | argument :: rest =>
    if plain then orUsage (command.setPort? argument) fun command => parseFrom true command rest
    else if argument = "--" then parseFrom true command rest
    else
      match shape argument with
      | .plain => orUsage (command.setPort? argument) fun command => parseFrom false command rest
      | .short letters => .error (if letters.head? = some 'h' then .help else .usage)
      | .long name (some value) =>
        orUsage (command.setValue? name value) fun command => parseFrom false command rest
      | .long name none =>
        if name = "help" then .error .help
        else if takesValue name then
          match rest with
          | [] => .error .usage
          | value :: rest =>
            if shape value = .plain then
              orUsage (command.setValue? name value) fun command => parseFrom false command rest
            else .error .usage
        else orUsage (command.setFlag? name) fun command => parseFrom false command rest

def parse (arguments : List String) : Except Refusal Command := parseFrom false {} arguments

end Command

end TftpReceiver
