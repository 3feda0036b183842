import Famicom.CommandLine

/-!
# The program

The outer layer of the command line : it reads the image the options name and prints
the transcript.
-/

open Famicom

/-- Read a file, or say why it cannot be read. -/
def readImage (name : String) : IO (Except String ByteArray) := do
  try
    return .ok (← IO.FS.readBinFile name)
  catch
    | .noFileOrDirectory .. => return .error CommandLine.missingFile
    | failure => return .error (toString failure)

/-- Print a transcript and answer its exit code. -/
def present (t : CommandLine.Transcript) : IO UInt32 := do
  for message in t.output do
    IO.println message
  for message in t.errors do
    IO.eprintln message
  return UInt32.ofNat t.code

/-- Run the program. -/
def main (arguments : List String) : IO UInt32 := do
  match CommandLine.Options.parse arguments with
  | .error refusal => present ⟨[], refusal.messages "famicom", 2⟩
  | .ok options => present (options.run (← readImage options.image))
