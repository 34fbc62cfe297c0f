import Regroup.Command.HelpPage

/-!
Reading command lines. Words are read from left to right. An option without a value attached takes the
next word, unless that begins with a hyphen; what was given is entered when the next option is read or
the line ends.
-/

namespace Regroup.Command

/-- Why a command line cannot be followed. -/
inductive UsageError where
  | unknownArgument
  | argumentConflict
  | missingValue
  | invalidValue
  | unneededValue
  | missingArgument
  | missingCommand
  | unknownCommand
  /-- Nothing is wrong: a page is asked for. -/
  | help (page : String)
  deriving DecidableEq, Repr

def UsageError.kind : UsageError → String
  | .unknownArgument => "UnknownArgument"
  | .argumentConflict => "ArgumentConflict"
  | .missingValue => "InvalidValue"
  | .invalidValue => "ValueValidation"
  | .unneededValue => "TooManyValues"
  | .missingArgument => "MissingRequiredArgument"
  | .missingCommand => "MissingSubcommand"
  | .unknownCommand => "InvalidSubcommand"
  | .help _ => "DisplayHelp"

/-- What was given to a command. -/
structure Given where
  /-- Options with their values, in order; the value of a switch is empty. -/
  options : List (String × String) := []
  operands : List String := []
  deriving DecidableEq, Repr, Inhabited

namespace Given

def has (g : Given) (name : String) : Bool := g.options.any fun o => o.1 == name

def values (g : Given) (name : String) : List String :=
  (g.options.filter fun o => o.1 == name).map Prod.snd

def value? (g : Given) (name : String) : Option String := (g.values name).head?

/-- Enters an option. -/
def enter (g : Given) (o : OptionSpec) (value : Option String) : Except UsageError Given :=
  match o.value, value with
  | some _, none => .error .missingValue
  | kind, _ =>
    let v := value.getD ""
    if !o.repeatable && g.has o.name then .error .argumentConflict
    else if kind.any (fun k => k.2 == .unsigned) && (unsigned? v).isNone then .error .invalidValue
    else .ok { g with options := g.options ++ [(o.name, v)] }

end Given

/-- A command line in the midst of being read. -/
structure Progress where
  given : Given := {}
  /-- The last option, not yet entered, with its value. -/
  pending : Option (OptionSpec × Option String) := none
  /-- Only operands follow. -/
  operandsOnly : Bool := false
  deriving Inhabited

namespace Progress

/-- The next word may be the value of the last option. -/
def awaitsValue (p : Progress) : Bool := p.pending.any fun o => o.2.isNone

/-- Enters the last option. -/
def settle (p : Progress) : Except UsageError Progress :=
  match p.pending with
  | none => .ok p
  | some (o, v) => do
    return { p with given := ← p.given.enter o v, pending := none }

/-- An option by its name, perhaps with a value attached. -/
def option (options : List OptionSpec) (help : String) (name : String) (value : Option String)
    (p : Progress) : Except UsageError Progress :=
  match (helpOption :: options).find? fun o => o.name == name with
  | none => .error .unknownArgument
  | some o => do
    if o.value.isNone && value.isSome then
      throw .unneededValue
    let p ← p.settle
    if o = helpOption then
      throw (.help help)
    else if o.value.isSome && value.isNone then
      return { p with pending := some (o, none) }
    else
      return { p with given := ← p.given.enter o value }

end Progress

/-- The name and the attached value of a word that begins with two hyphens. -/
def longOption? (word : String) : Option (String × Option String) :=
  match word.toList with
  | '-' :: '-' :: rest =>
    let name := rest.takeWhile (· != '=')
    let value := rest.drop name.length
    some (String.ofList name, if value.isEmpty then none else some (String.ofList (value.drop 1)))
  | _ => none

/-- The letters of a word that begins with one hyphen. -/
def shortOptions? (word : String) : Option (List Char) :=
  match word.toList with
  | '-' :: c :: rest => if c = '-' then none else some (c :: rest)
  | _ => none

namespace CommandSpec

/-- A word that is no command. -/
def word (c : CommandSpec) (help w : String) (p : Progress) : Except UsageError Progress :=
  let operand : Except UsageError Progress :=
    if c.operands.isSome then do
      let p ← p.settle
      return { p with given := { p.given with operands := p.given.operands ++ [w] } }
    else .error .unknownArgument
  if p.operandsOnly then operand
  else if w == "--" then .ok { p with operandsOnly := true }
  else match longOption? w, shortOptions? w, p.pending with
    | some (name, value), _, _ => p.option c.options help name value
    | none, some letters, _ =>
      if letters.head? == some 'h' then p.option c.options help "help" none
      else .error .unknownArgument
    | none, none, some (o, none) => .ok { p with pending := some (o, some w) }
    | none, none, _ => operand

/-- What must hold of everything that was given to a command. -/
def finish (c : CommandSpec) (p : Progress) : Except UsageError Given := do
  let g := (← p.settle).given
  if c.exclusive.any fun e => g.has e.1 && g.has e.2 then
    throw .argumentConflict
  if c.operands.isSome && g.operands.isEmpty then
    throw .missingArgument
  return g

/-- The page that is asked for by a path of commands. -/
def helpFor (path : String) (c : CommandSpec) : List String → UsageError
  | [] => .help (HelpPage.page path c)
  | name :: rest =>
    match c.commands.find? fun s => s.name == name with
    | some s => helpFor (path ++ " " ++ name) s rest
    | none =>
      if name == "help" && !c.commands.isEmpty && rest.isEmpty then .help (HelpPage.helpPage path)
      else .unknownCommand

/-- Reads the words after the names of a path of commands. The answer lists the commands by name, from
the outermost on, with what was given to each. -/
def read (path : String) (c : CommandSpec) (p : Progress) :
    List String → Except UsageError (List (String × Given))
  | [] => do
    let g ← c.finish p
    if !c.commands.isEmpty then
      throw .missingCommand
    return [(c.name, g)]
  | w :: rest =>
    match if p.operandsOnly || p.awaitsValue then none else c.commands.find? fun s => s.name == w with
    | some s => do
      let inner ← read (path ++ " " ++ w) s {} rest
      let g ← c.finish p
      return (c.name, g) :: inner
    | none =>
      if w == "help" && !c.commands.isEmpty && !p.operandsOnly && !p.awaitsValue then
        .error (helpFor path c rest)
      else do
        let p ← c.word (HelpPage.page path c) w p
        read path c p rest

end CommandSpec

end Regroup.Command
