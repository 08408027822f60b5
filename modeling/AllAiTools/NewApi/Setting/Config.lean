import AllAiTools.NewApi.Common.GoMarshal

namespace AllAiTools.NewApi.Setting

open Common.GoJson

section Scalars

variable (go : Go)

/-- The text of a field of a basic kind. -/
def formatScalar : (kind : Scalar) → kind.Val go → String
  | .bool, b => formatBool b
  | .int _, n => formatInt (BitVec.toInt n)
  | .uint _, n => formatUint (BitVec.toNat n)
  | .float _, x => go.formatFloat (go.widen x)
  | .string, s => s

/-- The value a text sets, if it is one; a text with a fraction is taken for an integer too. -/
def parseScalar : (kind : Scalar) → String → Option (kind.Val go)
  | .bool, strValue => parseBool strValue
  | .int w, strValue =>
    ((parseInt strValue).or ((go.parseFloat strValue).map go.truncInt)).map (BitVec.ofInt w.bits)
  | .uint w, strValue =>
    ((parseUint strValue).or (((go.parseFloat strValue).filter fun x ↦ !go.negative x).map
      go.truncUint)).map (BitVec.ofNat w.bits)
  | .float _, strValue => (go.parseFloat strValue).map go.narrow
  | .string, strValue => some strValue

end Scalars

section Fields

/-- A field of a configuration. -/
structure Field where
  name : String
  tag : String := ""
  exported : Bool := true
  ty : Ty

def Field.key (f : Field) : String := if f.tag = "" ∨ f.tag = "-" then f.name else f.tag

/-- A configuration struct; no two of its exported fields have one key. -/
structure ConfigType where
  numField : ℕ
  field : Fin numField → Field
  keys : ∀ i j, (field i).exported → (field j).exported → (field i).key = (field j).key → i = j

variable (go : Go)

abbrev ConfigType.Config (T : ConfigType) : Type := ∀ i, (T.field i).ty.Cell go

/-- What is put into the map for a field, unless the marshalling has an error. -/
def fieldText : (ty : Ty) → ty.Value go → Option String
  | .scalar kind, v => some (formatScalar go kind v)
  | .ptr t, v => Option.elim v (some "null") fun x ↦ (t.marshal go x).map go.print
  | .map t, v => ((Ty.map t).marshal go v).map go.print
  | .slice t, v => ((Ty.slice t).marshal go v).map go.print
  | .struct tag field, v => ((Ty.struct tag field).marshal go v).map go.print

def configToMap {T : ConfigType} (config : T.Config go) : Option (String → Option String) :=
  (List.finRange T.numField).foldlM (fun result i ↦
    if (T.field i).exported then
      (fieldText go (T.field i).ty ((T.field i).ty.read go (config i))).map fun strValue ↦
        Function.update result (T.field i).key (some strValue)
    else some result) fun _ ↦ none

/-- A field is set from its text. -/
def setField : (ty : Ty) → String → ty.Cell go → ty.Cell go
  | .scalar kind, strValue, c => (parseScalar go kind strValue).getD c
  | .ptr t, strValue, c =>
    if strValue = "null" then none
    else
      -- a pointer that is nil is set up before the text is looked at
      let pointed := Option.getD c (t.zero go)
      some (Option.elim (go.parse strValue) pointed fun j ↦ t.decode go j pointed)
  | .map t, strValue, c =>
    -- the value is decoded into a fresh map, and kept only without an error
    match go.parse strValue with
    | some j => if (Ty.map t).valid go j then (Ty.map t).decode go j none else c
    | none => c
  | .slice t, strValue, c => Option.elim (go.parse strValue) c fun j ↦ (Ty.slice t).decode go j c
  | .struct tag field, strValue, c =>
    Option.elim (go.parse strValue) c fun j ↦ (Ty.struct tag field).decode go j c

def updateConfigFromMap {T : ConfigType} (config : T.Config go) (configMap : String → Option String) :
    T.Config go := fun i ↦
  if (T.field i).exported then
    match configMap (T.field i).key with
    | some strValue => setField go (T.field i).ty strValue (config i)
    | none => config i
  else config i

end Fields

end AllAiTools.NewApi.Setting
