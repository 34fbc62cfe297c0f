import Regroup.Decimal.Double

/-!
JSON values. The fields of an object are kept in ascending order of their names, each name once;
`ofFields` and `merge` make such objects from others.
-/

namespace Regroup

inductive Json where
  | null
  | bool (b : Bool)
  | int (n : Int)
  | float (d : Double)
  | str (s : String)
  | arr (items : List Json)
  | obj (fields : List (String × Json))
  deriving Inhabited

namespace Json

/-- Enters a field at its place; a field of the same name is replaced. -/
def insertField (fields : List (String × Json)) (name : String) (v : Json) : List (String × Json) :=
  match fields with
  | [] => [(name, v)]
  | (l, w) :: rest =>
    if name < l then (name, v) :: (l, w) :: rest
    else if name = l then (name, v) :: rest
    else (l, w) :: insertField rest name v

/-- An object; the later of two fields with one name counts. -/
def ofFields (fields : List (String × Json)) : Json :=
  .obj (fields.foldl (fun fs f => insertField fs f.1 f.2) [])

def field? (v : Json) (name : String) : Option Json :=
  match v with
  | .obj fields => fields.lookup name
  | _ => none

def isNull : Json → Bool
  | .null => true
  | _ => false

mutual

/-- Objects are merged field by field; anything else is replaced by the second value. -/
def merge (a : Json) : Json → Json
  | .obj fields =>
    match a with
    | .obj base => .obj (mergeFields base fields)
    | _ => .obj fields
  | .null => .null
  | .bool b => .bool b
  | .int n => .int n
  | .float d => .float d
  | .str s => .str s
  | .arr items => .arr items

def mergeFields (base : List (String × Json)) : List (String × Json) → List (String × Json)
  | [] => base
  | (name, v) :: rest =>
    mergeFields (insertField base name (merge ((base.lookup name).getD .null) v)) rest

end

end Json

end Regroup
