import Regroup.Config.Secret
import Regroup.Digest.Sha256
import Regroup.Json.Text
import Regroup.Yaml.Value

/-!
A configuration is merged from layers, of which a later one overrides the earlier ones. Its canonical
text does not depend on how the layers were written, and its hash is that of the text.
-/

namespace Regroup.Config

inductive LoadError where
  | unreadable (path : String)
  | malformed
  /-- A layer has a key that no field can have. -/
  | notJson
  | secret (pointer : String)
  deriving DecidableEq, Repr

def LoadError.message : LoadError → String
  | .unreadable path => "failed to read yaml path: " ++ path
  | .malformed => "invalid yaml"
  | .notJson => "yaml->json conversion failed"
  | .secret pointer => "CONFIG_SECRET_DETECTED leaf=" ++ pointer ++ " value=REDACTED"

/-- A merged configuration without secrets. -/
structure Loaded where
  json : Json
  deriving Inhabited

namespace Loaded

def canonicalText (c : Loaded) : String := c.json.text

def hash (c : Loaded) : String := Digest.sha256Text c.canonicalText

end Loaded

/-- Puts a layer on top of a configuration. A layer that is null changes nothing. -/
def addLayer (base : Json) (layer : Yaml.Value) : Except LoadError Json :=
  if layer.isNull then .ok base
  else match layer.toJson? with
    | some j => .ok (base.merge j)
    | none => .error .notJson

/-- Refuses a configuration with a secret. -/
def guardSecrets (v : Json) : Except LoadError Loaded :=
  match firstSecret? v with
  | some pointer => .error (.secret pointer)
  | none => .ok ⟨v⟩

/-- Merges layers, from an empty object on. -/
def ofLayers (layers : List Yaml.Value) : Except LoadError Loaded := do
  guardSecrets (← layers.foldlM addLayer (.obj []))

/-- Merges texts. Each text is read and merged before the next one. -/
def ofTexts (texts : List String) : Except LoadError Loaded := do
  let merged ← texts.foldlM (fun base s =>
    match Yaml.Value.ofText? s with
    | some layer => addLayer base layer
    | none => .error .malformed) (.obj [])
  guardSecrets merged

end Regroup.Config
