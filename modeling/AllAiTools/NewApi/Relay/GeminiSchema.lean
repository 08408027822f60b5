import AllAiTools.Foundation.Fields
import AllAiTools.NewApi.Relay.ChatViaResponses
import AllAiTools.NewApi.Relay.ParamOverride

namespace AllAiTools.NewApi.Relay.GeminiSchema

open Foundation Foundation.Doc
open ParamOverride (Text Scalar Json)
open ChatViaResponses (trimSpace)

abbrev Object := Fields Text Scalar

section Keys

def typeKey : Text := "type".toList
def nullableKey : Text := "nullable".toList
def propertiesKey : Text := "properties".toList
def itemsKey : Text := "items".toList
def anyOfKey : Text := "anyOf".toList
def allOfKey : Text := "allOf".toList
def oneOfKey : Text := "oneOf".toList
def titleKey : Text := "title".toList
def schemaKey : Text := "$schema".toList
def additionalPropertiesKey : Text := "additionalProperties".toList

def geminiOpenAPISchemaAllowedFields : List Text :=
  [anyOfKey, "default".toList, "description".toList, "enum".toList, "example".toList,
    "format".toList, itemsKey, "maxItems".toList, "maxLength".toList, "maxProperties".toList,
    "maximum".toList, "minItems".toList, "minLength".toList, "minProperties".toList,
    "minimum".toList, nullableKey, "pattern".toList, propertiesKey, "propertyOrdering".toList,
    "required".toList, titleKey, typeKey]

end Keys

section FunctionParameters

/-- `strings.ToLower`, as far as its result can be an English word: of the letters beyond ASCII only
the dotted capital i and the Kelvin sign become ASCII ones. -/
def toLower (s : Text) : Text :=
  s.map fun c ↦ if c.toNat = 0x130 then 'i' else if c.toNat = 0x212A then 'k' else c.toLower

/-- The name of a type, and whether it is the null type. -/
def normalize (t : Text) : Text × Bool :=
  let name := toLower (trimSpace t)
  if name = "object".toList then ("OBJECT".toList, false)
  else if name = "array".toList then ("ARRAY".toList, false)
  else if name = "string".toList then ("STRING".toList, false)
  else if name = "integer".toList then ("INTEGER".toList, false)
  else if name = "number".toList then ("NUMBER".toList, false)
  else if name = "boolean".toList then ("BOOLEAN".toList, false)
  else if name = "null".toList then ([], true)
  else (t, false)

/-- The types of a union: whether one is null, and the first other one. -/
def chooseType : List Json → Bool × Text
  | [] => (false, [])
  | .leaf (.str s) :: items =>
    let (nullable, chosen) := chooseType items
    let (normalized, isNull) := normalize s
    if isNull then (true, chosen)
    else (nullable, if normalized = [] then chosen else normalized)
  | _ :: items => chooseType items

def normalizeGeminiSchemaTypeAndNullable (schema : Object) : Object :=
  match lookup schema typeKey with
  | some (.leaf (.str t)) =>
    let (normalized, isNull) := normalize t
    if isNull then remove (put schema nullableKey (.leaf (.bool true))) typeKey
    else put schema typeKey (.leaf (.str normalized))
  | some (.arr items) =>
    let (nullable, chosen) := chooseType items
    let schema := if nullable then put schema nullableKey (.leaf (.bool true)) else schema
    if chosen ≠ [] then put schema typeKey (.leaf (.str chosen)) else remove schema typeKey
  | _ => schema

def allowedFields (v : Object) : Object :=
  keep (fun k ↦ geminiOpenAPISchemaAllowedFields.any fun name ↦ name = k) v

def cleanFunctionParametersShallow : Json → Json
  | .obj v =>
    let cleanedMap := normalizeGeminiSchemaTypeAndNullable (allowedFields v)
    .obj (remove (remove (remove cleanedMap propertiesKey) itemsKey) anyOfKey)
  | .arr _ => .arr []
  | .leaf s => .leaf s

/-- What becomes of the values under `properties`, under `items` and under `anyOf`. -/
def cleanProperties (clean : Json → Json) : Json → Json
  | .obj props => .obj (props.map fun p ↦ (p.1, clean p.2))
  | v => v

def cleanItems (clean : Json → Json) : Json → Json
  | .obj items => clean (.obj items)
  | .arr (first :: _) => clean first
  | v => v

def cleanAnyOf (clean : Json → Json) : Json → Json
  | .arr nested => .arr (nested.map clean)
  | v => v

/-- `cleanFunctionParametersWithDepth`, by the depth that is left. -/
def cleanLevels : ℕ → Json → Json
  | 0, params => cleanFunctionParametersShallow params
  | n + 1, .obj v =>
    let cleanedMap := normalizeGeminiSchemaTypeAndNullable (allowedFields v)
    let cleanedMap := update cleanedMap propertiesKey (cleanProperties (cleanLevels n))
    let cleanedMap := update cleanedMap itemsKey (cleanItems (cleanLevels n))
    .obj (update cleanedMap anyOfKey (cleanAnyOf (cleanLevels n)))
  -- an array of schemas
  | n + 1, .arr v => .arr (v.map (cleanLevels n))
  | _ + 1, .leaf s => .leaf s

def geminiFunctionSchemaMaxDepth : ℕ := 64

def cleanFunctionParametersWithDepth (params : Json) (depth : ℕ) : Json :=
  cleanLevels (geminiFunctionSchemaMaxDepth - depth) params

def cleanFunctionParameters (params : Json) : Json := cleanFunctionParametersWithDepth params 0

end FunctionParameters

section ResponseSchema

def hasType (v : Object) (name : Text) : Bool :=
  match lookup v typeKey with
  | some (.leaf (.str t)) => t = name
  | _ => false

def cleanObject (clean : Json → Json) : Json → Json
  | .obj v => clean (.obj v)
  | v => v

/-- `removeAdditionalPropertiesWithDepth`, by the depth that is left. -/
def removeLevels : ℕ → Json → Json
  | n + 1, .obj v =>
    let v := remove (remove v titleKey) schemaKey
    if hasType v "object".toList then
      let v := remove v additionalPropertiesKey
      let v := update v propertiesKey (cleanProperties (removeLevels n))
      let v := update v allOfKey (cleanAnyOf (removeLevels n))
      let v := update v anyOfKey (cleanAnyOf (removeLevels n))
      .obj (update v oneOfKey (cleanAnyOf (removeLevels n)))
    else if hasType v "array".toList then
      .obj (update v itemsKey (cleanObject (removeLevels n)))
    else .obj v
  | _, schema => schema

def removeAdditionalPropertiesWithDepth (schema : Json) (depth : ℕ) : Json :=
  removeLevels (5 - depth) schema

end ResponseSchema

end AllAiTools.NewApi.Relay.GeminiSchema
