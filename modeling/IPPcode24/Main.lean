import IPPcode24.Command

/-!
# The program `ippi`

Files, the standard streams and the exit code; all that is decided is decided in `Command`.  A line
of the standard input is fetched when the next instruction reads it, and output is handed on while
the program runs.
-/

namespace IPPcode24

/-! ## files -/

def systemError : IO.Error → SystemError
  | .noFileOrDirectory _ _ _ => .notFound
  | .permissionDenied _ code _ => ⟨"Permission denied", code.toNat⟩
  | .inappropriateType _ code _ => ⟨"Is a directory", code.toNat⟩
  | e => ⟨toString e, 5⟩

def findFile (path : String) : IO File := do
  try
    let b ← IO.FS.readBinFile path
    return .content b.toList
  catch e =>
    let e := systemError e
    return if e = .isDirectory then .directory else .unopenable e

/-- the files that a command names -/
def findFiles (c : Command) : IO (String → File) := do
  let paths := match c with
    | .run source input => source :: input.toList
    | .check source => [source]
    | .version => []
  let found ← paths.mapM fun path => return (path, ← findFile path)
  return fun path => (found.lookup path).getD (.unopenable .notFound)

/-! ## streams -/

/-- bytes up to and with the next line feed, or to the end -/
partial def fetchLine (stdin : IO.FS.Stream) (line : Array UInt8) : IO Bytes := do
  let b ← stdin.read 1
  match b.toList with
  | [] => return line.toList
  | x :: _ => if x == 0x0A then return (line.push x).toList else fetchLine stdin (line.push x)

def send (stream : IO.FS.Stream) (b : Bytes) : IO Unit := do
  unless b.isEmpty do
    stream.write b.toByteArray
    stream.flush

def respond (r : Response) : IO UInt32 := do
  send (← IO.getStdout) r.stdout
  send (← IO.getStderr) r.stderr
  return UInt32.ofNat r.exit

/-- the next instruction reads a line and none has been fetched -/
def wantsLine (m : Machine) (s : State) : Bool :=
  s.memory.input.isEmpty &&
    match (m.program.get? s.pc).map Record.instr with
    | some (.read _ .int) | some (.read _ .bool) | some (.read _ .string) => true
    | _ => false

/-- runs to the end -/
partial def drive (m : Machine) (stdin : Option IO.FS.Stream) (s : State) : IO Response := do
  let s ← match stdin with
    | none => pure s
    | some stream =>
      if wantsLine m s then do
        let line ← fetchLine stream #[]
        pure { s with memory := { s.memory with input := line } }
      else pure s
  match m.turn s with
  | .done r => return r
  | .next out err s =>
    send (← IO.getStderr) err
    send (← IO.getStdout) out
    drive m stdin s

def execute (c : Command) : IO Response := do
  match c.prepare (← findFiles c) [] with
  | .error r => return r
  | .ok (m, start) =>
    match c with
    | .run _ none => drive m (some (← IO.getStdin)) start
    | _ => drive m none start

end IPPcode24

open IPPcode24 in
def main (args : List String) : IO UInt32 := do
  match Command.ofArgs args with
  | none => respond Response.usage
  | some c =>
    try respond (← execute c)
    catch e =>
      let message := "error: cannot write output: " ++ toString e
      respond (Response.failure Category.internal.exitCode message)
