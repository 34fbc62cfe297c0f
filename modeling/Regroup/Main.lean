import Regroup.Command.Program

/-!
The command line. Files and the environment are read here, and lines are printed; no database can be
reached.
-/

open Regroup

namespace Regroup.Main

/-- The text of a file, if it can be read. -/
def readFile? (path : String) : IO (Option String) := do
  try
    return some (← IO.FS.readFile path)
  catch _ =>
    return none

/-- The variables of this process. -/
def environment : IO Command.Environment := do
  let text := (← readFile? "/proc/self/environ").getD ""
  let entry (line : String) : Option (String × String) :=
    match line.splitOn "=" with
    | name :: value :: more => some (name, "=".intercalate (value :: more))
    | _ => none
  return Dictionary.ofList ((text.splitOn "\x00").filterMap entry)

/-- What the program finds, with the files that its words name. -/
def site (ws : List String) : IO Command.Site := do
  let names := Command.Site.environmentFile :: ws ++
    ws.filterMap fun w => (Command.longOption? w).bind Prod.snd
  let files ← names.mapM fun name => do return (name, ← readFile? name)
  return {
    file := fun name => (files.lookup name).join
    environment := ← environment
    answers := fun _ => false
    stamp := default }

end Regroup.Main

def main (args : List String) : IO UInt32 := do
  let (ending, _) := (Command.run (← Regroup.Main.site args) args).run {}
  for line in ending.output do
    IO.println line
  if let some error := ending.error then
    IO.eprintln ("Error: " ++ error)
  return UInt32.ofNat ending.code
