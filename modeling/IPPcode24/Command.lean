import IPPcode24.Machine.Run
import IPPcode24.Source

/-!
# The command `ippi`

* `Command`               `run SOURCE [--input FILE]`, `check SOURCE`, or the version
* `Command.ofArgs`        the command that the arguments give, unless the usage is wrong
* `File`                  what is found under a path
* `Response`              exit code and the bytes of the two output channels
* `Command.prepare`       a response at once, or the machine to run and the state to start in
* `Response.ofOutcome`    the response after a run
* `Machine.turn`          one step of a run that hands its output on, in portions
* `Command.answer n`      the response if the run, if there is one, ends within `n` steps
* `Command.deliver n`     the same, put together from what is handed on

The source is loaded before the input is opened.
-/

namespace IPPcode24

/-! ## arguments -/

inductive Command where
  | run (source : String) (input : Option String)
  | check (source : String)
  | version
deriving DecidableEq, Repr

/-- a dash and more: such a word is an option and never a value, until `--` ends the options -/
def isOption : List Char → Bool
  | '-' :: _ :: _ => true
  | _ => false

/-- the value that is attached to `--input` by an equals sign -/
def attachedInput? (arg : String) : Option String :=
  match cutAt '=' arg.toList with
  | some (name, value) => if name = "--input".toList then some (String.ofList value) else none
  | none => none

/-- the source and the input named by the arguments of a subcommand -/
structure Paths where
  source : Option String
  input : Option String
deriving DecidableEq, Repr

/-- a path is named at most once and is not empty -/
def Paths.addSource (p : Paths) (path : String) : Option Paths :=
  if p.source.isSome || path.isEmpty then none else some { p with source := some path }

def Paths.addInput (p : Paths) (path : String) : Option Paths :=
  if p.input.isSome || path.isEmpty then none else some { p with input := some path }

/-- only `run` takes `--input` -/
def Paths.ofArgs (takesInput : Bool) (p : Paths) : List String → Option Paths
  | [] => some p
  | arg :: rest =>
    if arg = "--" then rest.foldlM Paths.addSource p
    else if takesInput && arg = "--input" then
      match rest with
      | [] => none
      | value :: rest =>
        if isOption value.toList then none
        else (p.addInput value).bind fun p => Paths.ofArgs takesInput p rest
    else match attachedInput? arg with
      | some value =>
        if takesInput then (p.addInput value).bind fun p => Paths.ofArgs takesInput p rest
        else none
      | none =>
        if isOption arg.toList then none
        else (p.addSource arg).bind fun p => Paths.ofArgs takesInput p rest

def Command.ofArgs : List String → Option Command
  | [] => none
  | name :: args =>
    if name = "run" then do
      let p ← Paths.ofArgs true ⟨none, none⟩ args
      let source ← p.source
      pure (.run source p.input)
    else if name = "check" then do
      let p ← Paths.ofArgs false ⟨none, none⟩ args
      let source ← p.source
      pure (.check source)
    else if name = "--version" || "-V".toList.isPrefixOf name.toList then some .version
    else none

/-! ## files and responses -/

/-- a failure of the operating system -/
structure SystemError where
  text : String
  code : Nat
deriving DecidableEq, Repr

def SystemError.notFound : SystemError := ⟨"No such file or directory", 2⟩
def SystemError.isDirectory : SystemError := ⟨"Is a directory", 21⟩

def SystemError.message (e : SystemError) : String :=
  e.text ++ " (os error " ++ countText e.code ++ ")"

inductive File where
  | unopenable (e : SystemError)
  /-- opens, but gives no bytes -/
  | directory
  | content (b : Bytes)
deriving DecidableEq, Repr

structure Response where
  exit : Nat
  stdout : Bytes
  stderr : Bytes
deriving DecidableEq, Repr

/-- nothing but a line about what went wrong -/
def Response.failure (exit : Nat) (message : String) : Response :=
  ⟨exit, [], utf8 (message ++ "\n").toList⟩

def Response.output (text : String) : Response := ⟨0, utf8 (text ++ "\n").toList, []⟩

def Response.usage : Response :=
  .failure 2 "usage: ippi run SOURCE [--input FILE] | ippi check SOURCE | ippi --version"

def versionText : String := "ippi 0.1.0"

/-! ## reading and opening -/

/-- the text of a file, or the reason why there is none -/
def File.text : File → Except String (List Char)
  | .unopenable e => .error e.message
  | .directory => .error SystemError.isDirectory.message
  | .content b =>
    match utf8? b with
    | some s => .ok s
    | none => .error "stream did not contain valid UTF-8"

/-- the program in a file, or the response that says what is wrong -/
def loadSource (files : String → File) (path : String) : Except Response Program :=
  match (files path).text with
  | .error reason =>
    .error (.failure Category.inputFile.exitCode ("error: cannot read " ++ path ++ ": " ++ reason))
  | .ok s =>
    match assemble s with
    | .error e => .error (.failure e.category.exitCode ("error: " ++ path ++ ": " ++ e.message))
    | .ok p => .ok p

/-- the bytes for READ: from the file that is named, else from the standard input -/
def openInput (files : String → File) (stdin : Bytes) : Option String → Except Response Bytes
  | none => .ok stdin
  | some path =>
    match files path with
    | .unopenable e =>
      .error (.failure Category.inputFile.exitCode
        ("error: cannot open input " ++ path ++ ": " ++ e.message))
    | .directory => .ok []
    | .content b => .ok b

def Response.ofOutcome (s : State) : Outcome → Response
  | .exit code => ⟨code, s.stdout.bytes, s.stderr.bytes⟩
  | .fault f =>
    ⟨f.category.exitCode, s.stdout.bytes,
      s.stderr.bytes ++ utf8 ("runtime error: " ++ f.message ++ "\n").toList⟩

/-! ## output in portions -/

inductive Turn where
  | done (r : Response)
  /-- bytes for the two channels, and a state to go on from -/
  | next (stdout stderr : Bytes) (s : State)

/-- the standard output is handed on in larger portions, the diagnostics as they come -/
def Channel.portionSize : Channel → Nat
  | .stdout => 8192
  | .stderr => 1

namespace Machine

def turn (m : Machine) (s : State) : Turn :=
  match m.run 1 s with
  | (some o, s) => .done (Response.ofOutcome s o)
  | (none, s) =>
    let (out, stdout) := s.stdout.portion Channel.stdout.portionSize
    let (err, stderr) := s.stderr.portion Channel.stderr.portionSize
    .next out err { s with stdout := stdout, stderr := stderr }

/-- all that is handed on, if that comes to an end within `n` turns -/
def turns (m : Machine) : Nat → State → Option Response
  | 0, _ => none
  | n + 1, s =>
    match m.turn s with
    | .done r => some r
    | .next out err s =>
      (m.turns n s).map fun r => ⟨r.exit, out ++ r.stdout, err ++ r.stderr⟩

end Machine

/-! ## from a command to its response -/

/-- the counts that `check` prints -/
def checkText (path : String) (p : Program) (t : Labels) : String :=
  path ++ ": " ++ countText p.size ++ " instructions, " ++ countText t.size ++ " labels"

def checkSource (files : String → File) (path : String) : Response :=
  match loadSource files path with
  | .error r => r
  | .ok p =>
    match p.labels with
    | .error f => .failure f.category.exitCode ("error: " ++ f.message)
    | .ok t => .output (checkText path p t)

/-- the machine and the state that `run` starts with -/
def prepareRun (files : String → File) (stdin : Bytes) (source : String) (input : Option String) :
    Except Response (Machine × State) := do
  let p ← loadSource files source
  let b ← openInput files stdin input
  let start := State.start b (Sink.new none) (Sink.new none)
  match Machine.load p with
  | .error f => .error (Response.ofOutcome start (.fault f))
  | .ok m => .ok (m, start)

namespace Command

def prepare (files : String → File) (stdin : Bytes) : Command → Except Response (Machine × State)
  | .run source input => prepareRun files stdin source input
  | .check source => .error (checkSource files source)
  | .version => .error (.output versionText)

def answer (n : Nat) (files : String → File) (stdin : Bytes) (c : Command) : Option Response :=
  match c.prepare files stdin with
  | .error r => some r
  | .ok (m, start) =>
    match m.run n start with
    | (some o, s) => some (Response.ofOutcome s o)
    | (none, _) => none

def deliver (n : Nat) (files : String → File) (stdin : Bytes) (c : Command) : Option Response :=
  match c.prepare files stdin with
  | .error r => some r
  | .ok (m, start) => m.turns n start

end Command
end IPPcode24
