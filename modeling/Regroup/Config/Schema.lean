import Regroup.Config.Settings
import Regroup.Decimal.Shortest
import Regroup.Text.Quoted
import Regroup.Word

/-!
Reading settings from JSON. A section is an object, or an array of its fields in order; what is not
given keeps its default, and names that mean nothing are passed over. The first error wins.
-/

namespace Regroup.Config

/-- What stands where something else is wanted. -/
inductive Found where
  | null
  | bool (b : Bool)
  | int (n : Int)
  | float (d : Double)
  | str (s : String)
  | sequence
  | map
  deriving DecidableEq, Repr

namespace Found

def ofJson : Json → Found
  | .null => .null
  | .bool b => .bool b
  | .int n => .int n
  | .float d => .float d
  | .str s => .str s
  | .arr _ => .sequence
  | .obj _ => .map

def text : Found → String
  | .null => "null"
  | .bool b => s!"boolean \x60{b}\x60"
  | .int n => s!"integer \x60{n}\x60"
  | .float d => "floating point \x60" ++ d.text Double.configFormat ++ "\x60"
  | .str s => "string " ++ Text.quoted s
  | .sequence => "sequence"
  | .map => "map"

end Found

/-- What is wanted. -/
inductive Wanted where
  | string
  | boolean
  | sequence
  | unsigned64
  | unsigned32
  /-- One of some names, or an object whose only field has such a name. -/
  | choice
  /-- The value in the object of a choice. -/
  | nothing
  | fieldsOf (name : String)
  | singleField
  deriving DecidableEq, Repr

def Wanted.text : Wanted → String
  | .string => "a string"
  | .boolean => "a boolean"
  | .sequence => "a sequence"
  | .unsigned64 => "u64"
  | .unsigned32 => "u32"
  | .choice => "string or map"
  | .nothing => "unit"
  | .fieldsOf name => "struct " ++ name
  | .singleField => "map with a single key"

inductive SchemaError where
  | wrongType (found : Found) (wanted : Wanted)
  | wrongValue (found : Found) (wanted : Wanted)
  | unknownChoice (name : String) (choices : List String)
  /-- An array with more items than a section has fields. -/
  | tooLong (length : Nat)
  deriving DecidableEq, Repr

/-- The names of choices, as they are listed in messages. -/
def choicesText (choices : List String) : String :=
  let quoted (s : String) : String := "\x60" ++ s ++ "\x60"
  match choices with
  | [a, b] => quoted a ++ " or " ++ quoted b
  | _ => "one of " ++ ", ".intercalate (choices.map quoted)

/-- The message that a name is none of the choices. -/
def unknownChoiceText (name : String) (choices : List String) : String :=
  "unknown variant \x60" ++ name ++ "\x60, expected " ++ choicesText choices

def SchemaError.detail : SchemaError → String
  | .wrongType found wanted => "invalid type: " ++ found.text ++ ", expected " ++ wanted.text
  | .wrongValue found wanted => "invalid value: " ++ found.text ++ ", expected " ++ wanted.text
  | .unknownChoice name choices => unknownChoiceText name choices
  | .tooLong length => s!"invalid length {length}, expected fewer elements in array"

def SchemaError.headline : String := "config does not match the settings schema"

def SchemaError.message (e : SchemaError) : String := headline ++ ": " ++ e.detail

/-- A reader of values. -/
abbrev Reads (α : Type) := Json → Except SchemaError α

def wrongType {α : Type} (wanted : Wanted) (v : Json) : Except SchemaError α :=
  .error (.wrongType (.ofJson v) wanted)

def readString : Reads String
  | .str s => .ok s
  | v => wrongType .string v

def readBool : Reads Bool
  | .bool b => .ok b
  | v => wrongType .boolean v

/-- A number that is not negative and not above a bound. -/
def readUnsigned (bound : Nat) (wanted : Wanted) : Reads Nat
  | .int n =>
    if 0 ≤ n ∧ n ≤ bound then .ok n.toNat else .error (.wrongValue (.int n) wanted)
  | v => wrongType wanted v

/-- Null, or a value. -/
def readOptional {α : Type} (read : Reads α) : Reads (Option α)
  | .null => .ok none
  | v => (read v).map some

def readStrings : Reads (List String)
  | .arr items => items.mapM readString
  | v => wrongType .sequence v

/-- One of some values by its name, given as a string or as an object with that one field. -/
def readChoice {α : Type} (every : List α) (name : α → String) : Reads α :=
  let choose (s : String) : Except SchemaError α :=
    match every.find? fun a => name a == s with
    | some a => .ok a
    | none => .error (.unknownChoice s (every.map name))
  fun
  | .str s => choose s
  | .obj [(s, v)] => do
    let a ← choose s
    match v with
    | .null => return a
    | v => wrongType .nothing v
  | .obj _ => .error (.wrongValue .map .singleField)
  | v => wrongType .choice v

/-- A part of a section, by name. -/
structure Field (σ : Type) where
  name : String
  update : Json → σ → Except SchemaError σ

/-- A field that is read by itself and then entered. -/
def Field.of {σ α : Type} (name : String) (read : Reads α) (enter : σ → α → σ) : Field σ :=
  ⟨name, fun v s => (read v).map (enter s)⟩

/-- A section on top of its defaults. -/
def readSection {σ : Type} (name : String) (fields : List (Field σ)) (defaults : σ) : Reads σ
  | .obj entries =>
    entries.foldlM (fun s e =>
      match fields.find? fun f => f.name == e.1 with
      | some f => f.update e.2 s
      | none => .ok s) defaults
  | .arr items => do
    let s ← (fields.zip items).foldlM (fun s e => e.1.update e.2 s) defaults
    if fields.length < items.length then
      throw (.tooLong items.length)
    return s
  | v => wrongType (.fieldsOf name) v

def ReconcileSection.fields : List (Field ReconcileSection) :=
  [ .of "default_group_name" readString fun s a => { s with defaultGroupName := a },
    .of "lock_wait_timeout_secs" (readOptional (readUnsigned Word.maxUnsigned .unsigned64))
      fun s a => { s with lockWaitSeconds := a },
    .of "seed_defaults_from" (readChoice SeedStrategy.every SeedStrategy.name)
      fun s a => { s with seedStrategy := a },
    .of "skip_provisioning" readBool fun s a => { s with skipProvisioning := a },
    .of "edge_scope" (readChoice EdgeScope.every EdgeScope.name)
      fun s a => { s with edgeScope := a },
    .of "excluded_counterparts" readStrings fun s a => { s with excluded := a },
    .of "ensure_indexes" readBool fun s a => { s with ensureIndexes := a } ]

def StoreSection.fields : List (Field StoreSection) :=
  [ .of "database_url_env" readString fun s a => { s with databaseVariable := a },
    .of "max_connections" (readUnsigned Word.maxUnsigned32 .unsigned32)
      fun s a => { s with maxConnections := a } ]

def SequenceSection.fields : List (Field SequenceSection) :=
  [ .of "backend" (readChoice Backend.every Backend.name) fun s a => { s with backend := a },
    .of "edge_counter" readString fun s a => { s with counters := { s.counters with edge := a } },
    .of "group_counter" readString fun s a => { s with counters := { s.counters with group := a } },
    .of "redis_url_env" readString fun s a => { s with redisVariable := a },
    .of "timeout_secs" (readUnsigned Word.maxUnsigned .unsigned64)
      fun s a => { s with timeoutSeconds := a } ]

def LoggingSection.fields : List (Field LoggingSection) :=
  [ .of "level" readString fun s a => { s with level := a },
    .of "format" (readChoice LogFormat.every LogFormat.name) fun s a => { s with format := a } ]

def Settings.fields : List (Field Settings) :=
  [ .of "reconcile" (readSection "ReconcileSection" ReconcileSection.fields {})
      fun s a => { s with reconcile := a },
    .of "store" (readSection "StoreSection" StoreSection.fields {})
      fun s a => { s with store := a },
    .of "sequence" (readSection "SequenceSection" SequenceSection.fields {})
      fun s a => { s with sequence := a },
    .of "logging" (readSection "LoggingSection" LoggingSection.fields {})
      fun s a => { s with logging := a } ]

def Settings.ofJson : Reads Settings := readSection "Settings" Settings.fields {}

end Regroup.Config
