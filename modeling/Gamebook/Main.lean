import Gamebook.Schema
import Gamebook.Shell.Run

/-!
# The program

Reads the environment, the files and the terminal, and leaves the rest to `Gamebook.Shell`.
-/

namespace Gamebook.Shell

/-- Writes a report to the terminal and returns the exit code. -/
def finish (r : Report) : IO UInt32 := do
  IO.print r.output
  match r.ending with
  | .exit code => return code.toUInt32
  | .failed f =>
    IO.eprintln f.message
    return 1

/-- Asks for answers until the play-through ends. -/
partial def converseLive (p : Playthrough) : IO UInt32 := do
  match p.choices with
  | .error e => finish (.failed (heading p) (.range e))
  | .ok choices =>
    if choices.isEmpty then finish (.exit (screen p choices ++ ending) 0)
    else
      IO.print (screen p choices ++ prompt)
      (← IO.getStdout).flush
      let line ← (← IO.getStdin).getLine
      if line.isEmpty then return 0
      match reply p choices line with
      | .left => return 0
      | .next text p =>
        IO.print text
        converseLive p
      | .range e => finish (.failed "" (.range e))
      | .noNumber text => finish (.failed "" (.noNumber text))

/-- Reads a file, if it is there. -/
def readText (name : String) : IO Opened := do
  try
    let bytes ← IO.FS.readBinFile name
    let decoded := Text.Utf8.decode (bytes.toList.map UInt8.toNat)
    return .text (decoded.map String.ofList)
  catch _ => return .missing

/-- Throws of dice that start from a seed. -/
def diceFrom (seed : Nat) : Dice where
  face n := (randNat (mkStdGen (seed + n)) 0 1000000000).1

end Gamebook.Shell

open Gamebook Shell in
/-- Runs the command line. -/
def main (args : List String) : IO UInt32 := do
  let names := [Settings.logLevelName, Settings.logJsonName, Settings.allowCyclesName]
  let environment ← names.mapM fun name => do return (name, ← IO.getEnv name)
  let lookup (name : String) : Option String := (environment.lookup name).join
  let command := Command.ofArguments (Settings.ofEnvironment lookup) args
  let files ← command.files.mapM fun name => do return (name, ← readText name)
  let world : World := {
    environment := lookup
    file := fun name => (files.lookup name).getD .missing
    lines := []
    dice := diceFrom (← IO.rand 0 1000000000)
    checker := Schema.checker }
  match command with
  | .play file [] catalog =>
    match beginPlay world file catalog with
    | .error report => finish report
    | .ok p => converseLive p
  | command => finish (command.run world)
