import Regroup.Command.Grammar

/-!
The page that explains a command. Explanations stand in a column beside the names, or on lines of their
own where the names leave too little room; lines are at most a hundred characters wide.
-/

namespace Regroup.Command.HelpPage

def lineWidth : Nat := 100

def spaces (n : Nat) : String := String.ofList (List.replicate n ' ')

def padTo (width : Nat) (s : String) : String := s ++ spaces (width - s.length)

/-- Words in lines of at most a width. -/
def wrapWords (width : Nat) (words : List String) : List String :=
  let add (lines : List String) (w : String) : List String :=
    match lines with
    | [] => [w]
    | line :: rest =>
      if (line ++ " " ++ w).length ≤ width then (line ++ " " ++ w) :: rest else w :: line :: rest
  (words.foldl add []).reverse

/-- A text at a column, wrapped. -/
def wrapped (column : Nat) (s : String) : String :=
  ("\n" ++ spaces column).intercalate (wrapWords (lineWidth - column) (s.splitOn " "))

/-- An option with the name of its value. -/
def optionText (o : OptionSpec) : String :=
  "--" ++ o.name ++ (o.value.map fun v => " <" ++ v.1 ++ ">").getD ""

/-- Some explanation does not fit beside names that leave little room. -/
def needsOwnLines (longest : Nat) (abouts : List String) : Bool :=
  let taken := longest + 12
  taken * 10 > lineWidth * 4 && taken ≤ lineWidth && abouts.any fun a => a.length > lineWidth - taken

def longestOf (xs : List String) : Nat := (xs.map String.length).foldl max 0

def optionLines (options : List OptionSpec) : List String :=
  let all := options ++ [helpOption]
  let longest := longestOf (all.map optionText)
  let start (o : OptionSpec) : String := if o = helpOption then "  -h, " else "      "
  if needsOwnLines longest (all.map OptionSpec.about) then
    all.map fun o => start o ++ optionText o ++ "\n" ++ spaces 10 ++ wrapped 10 o.about
  else
    all.map fun o =>
      start o ++ padTo (longest + 2) (optionText o) ++ wrapped (longest + 8) o.about

def nameLines (entries : List (String × String)) : List String :=
  let longest := longestOf (entries.map Prod.fst)
  entries.map fun e => "  " ++ padTo (longest + 2) e.1 ++ wrapped (longest + 4) e.2

def operandText (name : String) : String := "<" ++ name ++ ">..."

def usage (path : String) (c : CommandSpec) : String :=
  "Usage: " ++ path ++ " [OPTIONS]" ++ ((c.operands.map fun o => " " ++ operandText o.1).getD "") ++
    (if c.commands.isEmpty then "" else " <COMMAND>")

def helpCommandAbout : String := "Print this message or the help of the given subcommand(s)"

def part (title : String) (lines : List String) : List String :=
  if lines.isEmpty then [] else [title ++ ":\n" ++ "\n".intercalate lines]

/-- The page of a command that is called by a path of names. -/
def page (path : String) (c : CommandSpec) : String :=
  let commands :=
    if c.commands.isEmpty then []
    else nameLines (c.commands.map (fun s => (s.name, s.about)) ++ [("help", helpCommandAbout)])
  let operands := (c.operands.map fun o => nameLines [(operandText o.1, o.2)]).getD []
  let parts := part "Commands" commands ++ part "Arguments" operands ++
    part "Options" (optionLines c.options)
  "\n\n".intercalate
    ((if c.about.isEmpty then [] else [c.about]) ++ [usage path c] ++ parts)

/-- The page of the command that prints pages. -/
def helpPage (path : String) : String :=
  "\n\n".intercalate
    ([helpCommandAbout, "Usage: " ++ path ++ " help [COMMAND]..."] ++
      part "Arguments" (nameLines [("[COMMAND]...", "Print help for the subcommand(s)")]))

end Regroup.Command.HelpPage
