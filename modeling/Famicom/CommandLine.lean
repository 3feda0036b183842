import Famicom.Console
import Famicom.Text.Lines

/-!
# The command line

The program runs an image for a number of steps and prints the trace line of each.
`Options.parse` reads the arguments or refuses them (`Refusal`), and `Options.run`
turns the contents of the image into a `Transcript` : the messages on the two output
streams and the exit code. Both are pure; reading the file and printing are left to
the caller.
-/

namespace Famicom.CommandLine

/-! ## Numbers -/

/-- The value of a digit in a base of at most 16. -/
def digitValue? (base : Nat) (c : Char) : Option Nat :=
  let value? : Option Nat :=
    if '0' ≤ c ∧ c ≤ '9' then some (c.toNat - '0'.toNat)
    else if 'a' ≤ c ∧ c ≤ 'f' then some (c.toNat - 'a'.toNat + 10)
    else if 'A' ≤ c ∧ c ≤ 'F' then some (c.toNat - 'A'.toNat + 10)
    else none
  value?.filter (· < base)

/-- The value of digits behind those that make `n`. -/
def digitsValue? (base : Nat) (n : Nat) : List Char → Option Nat
  | [] => some n
  | c :: rest =>
    match digitValue? base c with
    | some d => digitsValue? base (n * base + d) rest
    | none => none

/-- A number below `bound` : a plus sign if any, and digits, at least one. -/
def number? (base bound : Nat) (text : List Char) : Option Nat :=
  let digits := if text.head? = some '+' then text.tail else text
  if digits.isEmpty then none else (digitsValue? base 0 digits).filter (· < bound)

/-- The text without any number of leading copies of `0x`. -/
def dropHexMarks : List Char → List Char
  | '0' :: 'x' :: rest => dropHexMarks rest
  | text => text

/-- A number of steps, in decimal and below 2^64. -/
def steps? (text : String) : Option Nat := number? 10 UInt64.size text.toList

/-- An address in hexadecimal, behind any dollar signs and then any marks `0x`. -/
def address? (text : String) : Option UInt16 :=
  (number? 16 0x10000 (dropHexMarks (text.toList.dropWhile (· == '$')))).map UInt16.ofNat

/-! ## Options -/

/-- What the arguments ask for. -/
structure Options where
  image : String
  steps : Nat
  /-- Where to continue once the reset is served. -/
  start : Option UInt16
  deriving DecidableEq, Repr

/-- The number of steps if none is given. -/
def defaultSteps : Nat := 10000

/-- Why the arguments are refused. -/
inductive Refusal where
  | help
  | missingImage
  | secondImage
  | missingValue (option : String)
  | badSteps (value : String)
  | badAddress (value : String)
  | unknownOption (argument : String)
  deriving DecidableEq, Repr

/-- The help text. -/
def usage (program : String) : List String :=
  ["Usage: " ++ program ++ " <rom.nes> [--steps N] [--pc HEX]",
   "  --steps N   instructions to run (default " ++ toString defaultSteps ++ ")",
   "  --pc HEX    jump here after reset, e.g. C000 for nestest automation"]

/-- What is said to refused arguments. -/
def Refusal.messages (program : String) : Refusal → List String
  | .help => usage program
  | .missingImage => "ROM argument missing" :: usage program
  | .secondImage => ["Only one ROM may be given"]
  | .missingValue option => [option ++ " requires a value"]
  | .badSteps value => ["--steps: '" ++ value ++ "' is not a number"]
  | .badAddress value => ["--pc: '" ++ value ++ "' is not a 16-bit hex address"]
  | .unknownOption argument => ["Unknown option: " ++ argument]

/-- Read arguments behind those already read. -/
def parseFrom (image : Option String) (steps : Nat) (start : Option UInt16) :
    List String → Except Refusal Options
  | [] =>
    match image with
    | some image => .ok ⟨image, steps, start⟩
    | none => .error .missingImage
  | "--steps" :: rest =>
    match rest with
    | [] => .error (.missingValue "--steps")
    | value :: rest =>
      match steps? value with
      | some steps => parseFrom image steps start rest
      | none => .error (.badSteps value)
  | "--pc" :: rest =>
    match rest with
    | [] => .error (.missingValue "--pc")
    | value :: rest =>
      match address? value with
      | some start => parseFrom image steps (some start) rest
      | none => .error (.badAddress value)
  | argument :: rest =>
    if argument.toList.head? = some '-' then .error (.unknownOption argument)
    else if image.isSome then .error .secondImage
    else parseFrom (some argument) steps start rest

/-- Read the arguments. A call for help anywhere among them goes first. -/
def Options.parse (arguments : List String) : Except Refusal Options :=
  if arguments.isEmpty || arguments.contains "--help" || arguments.contains "-h" then .error .help
  else parseFrom none defaultSteps none arguments

/-! ## Running -/

/-- What a run of the program leaves behind : the messages on the two output streams, each
printed with a line feed behind it, and the exit code. -/
structure Transcript where
  output : List String
  errors : List String
  code : Nat
  deriving DecidableEq, Repr

/-- The lines on the error stream. A message that quotes an argument with line feeds takes
several. -/
def Transcript.errorLines (t : Transcript) : List String := Text.printedLines t.errors

/-- A message and its causes in one line. -/
def chain (message : String) (causes : List String) : String :=
  ": ".intercalate (message :: causes)

/-- The text for a file that does not exist. -/
def missingFile : String := "No such file or directory (os error 2)"

/-- Read a cartridge from the contents of a file, or from the reason why it has none. -/
def load : Except String ByteArray → Except CartridgeFault Cartridge
  | .ok image => Cartridge.parse image
  | .error reason => .error (.unreadable reason)

/-- Run an inserted cartridge from power-up. The reset is served before the first line. -/
def Options.runCartridge (o : Options) (cartridge : Cartridge) : Transcript :=
  match (Console.initial.insert cartridge).powerUp.step with
  | (.error fault, _) => ⟨[], [chain "reset failed" (fault.message :: fault.causes)], 1⟩
  | (.ok _, console) =>
    let started : Console :=
      match o.start with
      | some pc => { console with cpu := { console.cpu with pc } }
      | none => console
    let run := Console.traceRun o.steps started
    match run.fault with
    | none => ⟨run.lines, [], 0⟩
    | some fault =>
      let cycles := toString run.console.cpu.cycles
      ⟨run.lines, ["stopped after " ++ cycles ++ " cycles: " ++ fault.message], 1⟩

/-- Run the program on the contents of its image. -/
def Options.run (o : Options) (contents : Except String ByteArray) : Transcript :=
  match load contents with
  | .error fault =>
    ⟨[], [chain ("failed to load " ++ o.image) (fault.message :: fault.causes)], 1⟩
  | .ok cartridge => o.runCartridge cartridge

/-- The program as a whole : the arguments, then the file they name. -/
def execute (program : String) (arguments : List String)
    (contents : String → Except String ByteArray) : Transcript :=
  match Options.parse arguments with
  | .error refusal => ⟨[], refusal.messages program, 2⟩
  | .ok options => options.run (contents options.image)

end Famicom.CommandLine
