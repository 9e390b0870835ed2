/- # The command line

The server is started with options: where to talk to the client, which compiler
to use, and how much to log. A long option may be shortened as long as it stays
unique, its value follows after an equals sign or as the next word, and the last
value wins. Two dashes after an equals sign are no value, and the switch is set to
nothing. There are no other arguments: words that belong to no option are
collected and refused at the end.

All words are told apart first. Then they are taken from left to right, and the
first fault ends the reading.

Key definitions:

* `classify`: what a word is, on its own.
* `read`: the options of a command line, or why it is refused.
* `launch`: what starting the server with arguments does.
-/
import RenServer.Server.Requests

namespace RenServer
namespace CommandLine

open Text

/-! ### Switches -/

/-- What can be switched on or set. -/
inductive Switch where
  | help
  | stdio
  | tcp
  | compilerPath
  | logLevel
  | version
  deriving DecidableEq, Repr

namespace Switch

def all : List Switch := [help, stdio, tcp, compilerPath, logLevel, version]

/-- The long name of a switch. -/
def long : Switch → String
  | help => "--help"
  | stdio => "--stdio"
  | tcp => "--tcp"
  | compilerPath => "--compiler-path"
  | logLevel => "--log-level"
  | version => "--version"

/-- All names of a switch. Only one has a short name. -/
def title : Switch → String
  | help => "-h/--help"
  | s => s.long

/-- Whether a switch is set to a value. -/
def takesValue : Switch → Bool
  | tcp => true
  | compilerPath => true
  | logLevel => true
  | _ => false

/-- The switch that cannot be used together with this one. -/
def rival? : Switch → Option Switch
  | stdio => some tcp
  | tcp => some stdio
  | _ => none

end Switch

/-- The log levels that can be chosen. -/
def levelNames : List String := ["DEBUG", "INFO", "WARNING", "ERROR", "CRITICAL"]

/-! ### Faults -/

/-- Why a command line is refused. -/
inductive Fault where
  | ambiguous (word : String)
  | missingValue (switch : Switch)
  | unexpectedValue (switch : Switch) (value : String)
  | invalidPort (value : String)
  | invalidLevel (value : String)
  | excluded (switch rival : Switch)
  | leftover (words : List String)
  deriving DecidableEq, Repr

/-- Texts with commas between them. -/
def listed (texts : List String) : String := String.intercalate ", " texts

def Fault.message : Fault → String
  | .ambiguous word =>
    s!"ambiguous option: {word} could match {listed (Switch.all.map Switch.long)}"
  | .missingValue switch => s!"argument {switch.title}: expected one argument"
  | .unexpectedValue switch value =>
    s!"argument {switch.title}: ignored explicit argument {quoted value}"
  | .invalidPort value => s!"argument {Switch.tcp.title}: invalid int value: {quoted value}"
  | .invalidLevel value =>
    s!"argument {Switch.logLevel.title}: invalid choice: {quoted value} (choose from {listed (levelNames.map quoted)})"
  | .excluded switch rival => s!"argument {switch.title}: not allowed with argument {rival.title}"
  | .leftover words => "unrecognized arguments: " ++ String.intercalate " " words

/-! ### Words -/

/-- A word of the command line. -/
inductive Word where
  /-- A switch, with the value after its equals sign. -/
  | switch (s : Switch) (value : Option String)
  /-- The short name of `help` with letters after it. -/
  | short (letters : String)
  /-- It looks like a switch and is none. -/
  | unknown (text : String)
  /-- It can be the value of a switch. -/
  | plain (text : String)
  /-- Two dashes: neither this nor any word after it is a switch. -/
  | stop
  deriving DecidableEq, Repr

/-- A text without the newline at its end. -/
def dropFinalNewline (s : List Char) : List Char :=
  if s.getLast? = some '\n' then s.dropLast else s

/-- A minus sign and digits, maybe with a point before the last of them. A
newline may stand at the end. -/
def isNegativeNumber (s : List Char) : Bool :=
  match dropFinalNewline s with
  | '-' :: rest =>
    match rest.dropWhile isDigit with
    | [] => !rest.isEmpty
    | '.' :: part => !part.isEmpty && part.all isDigit
    | _ => false
  | _ => false

/-- The switches whose long name starts in a given way. -/
def candidates (start : List Char) : List Switch :=
  Switch.all.filter fun s => (after? start s.long.toList).isSome

/-- A word without its value, and the value after the first equals sign. -/
def splitValue (s : List Char) : List Char × Option String :=
  match cut? ['='] s with
  | some (name, value) => (name, some (String.ofList value))
  | none => (s, none)

/-- A word that starts with a dash and is no switch: a number, or text with a
space in it, can still be a value. -/
def dashed (s : String) : Word :=
  if isNegativeNumber s.toList || s.toList.contains ' ' then .plain s else .unknown s

/-- What a word is, on its own. -/
def classify (s : String) : Except Fault Word :=
  match s.toList with
  | ['-'] => .ok (.plain s)
  | ['-', '-'] => .ok .stop
  | '-' :: '-' :: _ =>
    let (name, value) := splitValue s.toList
    match candidates name with
    | [switch] => .ok (.switch switch value)
    | [] => .ok (dashed s)
    | _ => .error (.ambiguous s)
  | ['-', 'h'] => .ok (.switch .help none)
  | '-' :: 'h' :: '=' :: value => .ok (.short (String.ofList value))
  | '-' :: 'h' :: letters => .ok (.short (String.ofList letters))
  | '-' :: _ => .ok (dashed s)
  | _ => .ok (.plain s)

/-- What the words are. After two dashes every word is plain. -/
def classifyAll : List String → Except Fault (List (Word × String))
  | [] => .ok []
  | s :: rest => do
    match ← classify s with
    | .stop => return (.stop, s) :: rest.map fun t => (.plain t, t)
    | word => return (word, s) :: (← classifyAll rest)

/-! ### Reading -/

/-- What a switch is set to. -/
inductive Setting (α : Type) where
  | nothing
  | value (a : α)
  deriving DecidableEq, Repr

/-- The setting that a text makes. Two dashes are dropped before the text is
judged. -/
def Setting.ofText {α : Type} (judge : String → Except Fault α) (text : String) :
    Except Fault (Setting α) :=
  if text = "--" then .ok .nothing else (judge text).map .value

/-- The options so far. `used` holds the switches of which only one may be used,
and `leftover` the words that belong to no switch. -/
structure Options where
  tcp : Option (Setting Int) := none
  compilerPath : Option (Setting String) := none
  logLevel : Setting String := .value "WARNING"
  version : Bool := false
  used : List Switch := []
  leftover : List String := []
  deriving DecidableEq, Repr

/-- What a command line asks for. -/
inductive Wish where
  | help
  | run (options : Options)
  deriving DecidableEq, Repr

/-- Marks a switch as used, unless its rival is. -/
def Options.use (o : Options) (switch : Switch) : Except Fault Options :=
  match switch.rival?.filter (o.used.contains ·) with
  | some rival => .error (.excluded switch rival)
  | none => .ok { o with used := switch :: o.used }

/-- A switch without a value. -/
def Options.flag (o : Options) : Switch → Except Fault Options
  | .version => .ok { o with version := true }
  | switch => o.use switch

/-- A port is an integer. -/
def port (text : String) : Except Fault Int :=
  match integer? text.toList with
  | none => .error (.invalidPort text)
  | some n => .ok n

/-- A level is one of those that can be chosen. -/
def level (text : String) : Except Fault String :=
  if levelNames.contains text then .ok text else .error (.invalidLevel text)

/-- A switch with its value. The value is judged before the switch is. -/
def Options.set (o : Options) (switch : Switch) (value : String) : Except Fault Options :=
  match switch with
  | .tcp => do
    let tcp ← Setting.ofText port value
    Options.use { o with tcp := some tcp } .tcp
  | .compilerPath => do
    let path ← Setting.ofText .ok value
    return { o with compilerPath := some path }
  | .logLevel => do
    let logLevel ← Setting.ofText level value
    return { o with logLevel }
  | other => .error (.unexpectedValue other value)

/-- The letters after the short name of `help` are short names too, and `help` is
the only one there is. -/
def shortHelp (letters : String) : Except Fault Wish :=
  let rest := letters.toList.dropWhile (· = 'h')
  if letters ≠ "" ∧ rest = [] then .ok .help
  else .error (.unexpectedValue .help (String.ofList rest))

/-- Takes the words from left to right. -/
def take (o : Options) : List (Word × String) → Except Fault Wish
  | [] => if o.leftover = [] then .ok (.run o) else .error (.leftover o.leftover)
  | (.switch .help none, _) :: _ => .ok .help
  | (.short letters, _) :: _ => shortHelp letters
  | (.switch switch (some value), _) :: rest => do take (← o.set switch value) rest
  | (.switch switch none, _) :: rest =>
    if switch.takesValue then
      match rest with
      | (.plain value, _) :: more => do take (← o.set switch value) more
      | _ => .error (.missingValue switch)
    else do take (← o.flag switch) rest
  | (_, text) :: rest => take { o with leftover := o.leftover ++ [text] } rest

/-- The options of a command line, or why it is refused. -/
def read (arguments : List String) : Except Fault Wish := do
  take {} (← classifyAll arguments)

/-! ### Starting -/

/-- The program's name and version. -/
def program : String := "renlsp"

def versionNumber : String := "0.1.0"

def usage : String :=
  "usage: renlsp [-h] [--stdio | --tcp PORT] [--compiler-path PATH]\n              [--log-level LEVEL] [--version]\n"

def help : String :=
  usage ++
  "\nRen Language Server (LSP) backed by the renc compiler.\n" ++
  "\noptions:\n" ++
  "  -h, --help            show this help message and exit\n" ++
  "  --stdio               Talk LSP over stdin/stdout (the default)\n" ++
  "  --tcp PORT            Serve on 127.0.0.1:PORT instead of stdio\n" ++
  "  --compiler-path PATH  renc executable to run; overrides editor, project and\n" ++
  "                        RENC_PATH settings\n" ++
  "  --log-level LEVEL     Logging level written to stderr (default: WARNING)\n" ++
  "  --version             Print the renlsp version and exit\n"

/-- Where the server talks to the client. -/
inductive Transport where
  | stdio
  | tcp (host : String) (port : Setting Int)
  deriving DecidableEq, Repr

/-- What starting the server does: it ends with a code or it serves, and it
prints. -/
structure Launch where
  server : Server
  exit : Option Nat := none
  serves : Option Transport := none
  stdout : String := ""
  stderr : String := ""

/-- The host that the server listens on. -/
def localHost : String := "127.0.0.1"

/-- The server with the compiler that the command line names, and what is logged
about it: the compiler is named if it is another one than before. -/
def useCompiler (s : Server) (path : String) : Server × String :=
  let after := (s.setOverride (some path)).1
  let tells := after.engine.compiler != s.engine.compiler && s.logLevel ≤ LogLevel.info
  (after, if tells then s!"INFO renlsp.server: using compiler {quoted path}\n" else "")

/-- Why a server cannot start although its command line is accepted. -/
inductive LaunchFault where
  /-- The log level is set to nothing. -/
  | noLevel
  deriving DecidableEq, Repr

def LaunchFault.message : LaunchFault → String
  | .noLevel => "attribute name must be string, not 'list'"

/-- The server is configured and starts to serve. A compiler without a name is
not used. -/
def serve (s : Server) (o : Options) : Except LaunchFault Launch :=
  match o.logLevel with
  | .nothing => .error .noLevel
  | .value name =>
    let s := { s with logLevel := (LogLevel.ofName? name).getD s.logLevel }
    let (s, stderr) :=
      match o.compilerPath with
      | some (.value path) => if path = "" then (s, "") else useCompiler s path
      | _ => (s, "")
    .ok { server := s, serves := some ((o.tcp.map (.tcp localHost)).getD .stdio), stderr }

/-- What starting the server with arguments does. -/
def launch (s : Server) (arguments : List String) : Except LaunchFault Launch :=
  match read arguments with
  | .error fault =>
    .ok { server := s, exit := some 2, stderr := usage ++ s!"{program}: error: {fault.message}\n" }
  | .ok .help => .ok { server := s, exit := some 0, stdout := help }
  | .ok (.run o) =>
    if o.version then
      .ok { server := s, exit := some 0, stdout := s!"{program} {versionNumber}\n" }
    else serve s o

end CommandLine
end RenServer
