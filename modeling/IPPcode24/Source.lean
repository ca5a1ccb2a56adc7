import IPPcode24.Program

/-!
# Source text

The first line that is not blank is the header `.IPPcode24`; each later one is an instruction.  A
`#` starts a comment.

* `CodeLine`            a line that is not blank: its number, its first word and the other words
* `codeLines s`         those lines of a text
* `CodeLine.instr`      the instruction of a line
* `assemble s`          the program of a text, or the first thing that is wrong with it
* `Program.listing p`   the text of a program, one instruction a line
-/

namespace IPPcode24

inductive SourceError where
  | missingHeader
  | invalidHeader (line : Nat) (found : String)
  | unknownOpcode (line : Nat) (word : String)
  | defect (line : Nat) (d : Defect)
deriving DecidableEq, Repr

def header : String := ".IPPcode24"

private def lineText (line : Nat) : String := "line " ++ countText line ++ ": "

def SourceError.message : SourceError → String
  | .missingHeader => "missing " ++ header ++ " header"
  | .invalidHeader line found =>
    lineText line ++ "expected " ++ header ++ " header, found '" ++ found ++ "'"
  | .unknownOpcode line word => lineText line ++ "unknown opcode '" ++ word ++ "'"
  | .defect line d => lineText line ++ d.message

def SourceError.category (_ : SourceError) : Category := .structural

/-! ## lines with words -/

structure CodeLine where
  number : Nat
  word : List Char
  rest : List (List Char)
deriving DecidableEq, Repr

/-- the words of a line up to its comment -/
def tokens (line : List Char) : List (List Char) := words (line.takeWhile fun c => c != '#')

/-- the lines with words; the first line has the given number -/
def numberedLines (number : Nat) : List (List Char) → List CodeLine
  | [] => []
  | l :: ls =>
    match tokens l with
    | [] => numberedLines (number + 1) ls
    | word :: rest => ⟨number, word, rest⟩ :: numberedLines (number + 1) ls

def codeLines (s : List Char) : List CodeLine := numberedLines 1 (lines s)

/-- the line is the header, in letters of either case -/
def CodeLine.opensProgram (l : CodeLine) : Bool := l.rest.isEmpty && sameText l.word header.toList

/-! ## from text to program -/

def CodeLine.instr (l : CodeLine) : Except SourceError Instr :=
  match Opcode.ofMnemonic? l.word with
  | none => .error (.unknownOpcode l.number (String.ofList l.word))
  | some op =>
    match Instr.parse op l.rest with
    | .error d => .error (.defect l.number d)
    | .ok i => .ok i

/-- the instructions of the lines, or the first failure -/
def instrsOfLines : List CodeLine → Except SourceError (List Instr)
  | [] => .ok []
  | l :: ls =>
    match l.instr with
    | .error e => .error e
    | .ok i => (instrsOfLines ls).map (i :: ·)

def assemble (s : List Char) : Except SourceError Program :=
  match codeLines s with
  | [] => .error .missingHeader
  | l :: ls =>
    if l.opensProgram then (instrsOfLines ls).map Program.ofInstrs
    else .error (.invalidHeader l.number (String.ofList (unwords (l.word :: l.rest))))

/-! ## from program to text -/

def Program.listing (p : Program) : List Char :=
  (header.toList :: p.instrs.map fun i => i.text.toList).flatMap fun l => l ++ ['\n']

end IPPcode24
