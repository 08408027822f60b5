import AllAiTools.ChatGpt2Api.Json
import AllAiTools.Foundation.JsonRoundTrip

namespace AllAiTools.ChatGpt2Api.Json

open Text Foundation.JsonText

mutual

def toValue : Json → Value ℚ
  | null => .null
  | bool value => .bool value
  | num value => .num value
  | str value => .str value
  | arr items => .arr (toValues items)
  | obj fields => .obj (toFields fields)

def toValues : List Json → List (Value ℚ)
  | [] => []
  | item :: items => toValue item :: toValues items

def toFields : Fields → List (Str × Value ℚ)
  | [] => []
  | (key, value) :: fields => (key, toValue value) :: toFields fields

end

mutual

def ofValue : Value ℚ → Json
  | .null => null
  | .bool value => bool value
  | .num value => num value
  | .str value => str value
  | .arr items => arr (ofValues items)
  | .obj fields => obj (ofFields fields)

def ofValues : List (Value ℚ) → List Json
  | [] => []
  | item :: items => ofValue item :: ofValues items

def ofFields : List (Str × Value ℚ) → Fields
  | [] => []
  | (key, value) :: fields => (key, ofValue value) :: ofFields fields

end

mutual

@[simp] theorem ofValue_toValue : ∀ json : Json, ofValue (toValue json) = json
  | null => rfl
  | bool _ => rfl
  | num _ => rfl
  | str _ => rfl
  | arr items => by rw [toValue, ofValue, ofValues_toValues items]
  | obj fields => by rw [toValue, ofValue, ofFields_toFields fields]

theorem ofValues_toValues : ∀ items : List Json, ofValues (toValues items) = items
  | [] => rfl
  | item :: items => by rw [toValues, ofValues, ofValue_toValue item, ofValues_toValues items]

theorem ofFields_toFields : ∀ fields : Fields, ofFields (toFields fields) = fields
  | [] => rfl
  | (key, value) :: fields => by rw [toFields, ofFields, ofValue_toValue value, ofFields_toFields fields]

end

variable (numbers : Numbers ℚ)

/-- `json.dumps` without escapes beyond ASCII. -/
def dumps (json : Json) : Str := print numbers [' '] [' '] (toValue json)

def loads (text : Str) : Option Json := (parse numbers text).map ofValue

/-- The keys of every dictionary in it are distinct. -/
def Distinct (json : Json) : Prop := (toValue json).Distinct

variable {numbers}

theorem loads_dumps {json : Json} (h : json.Distinct) : loads numbers (dumps numbers json) = some json := by
  have hgap : ∀ c ∈ [' '], isWhitespace c = true := List.forall_mem_singleton.mpr (by decide)
  rw [loads, dumps, parse_print hgap hgap h, Option.map_some, ofValue_toValue]

theorem printMoreFields_last (fields : List (Str × Value ℚ)) :
    ∃ text, printMoreFields numbers [' '] [' '] fields = text ++ ['\x7d'] := by
  induction fields with
  | nil => exact ⟨[], by rw [printMoreFields]; rfl⟩
  | cons field fields ih =>
    obtain ⟨text, htext⟩ := ih
    rw [printMoreFields, htext, ← List.append_assoc, ← List.append_assoc, ← List.cons_append]
    exact ⟨_, rfl⟩

/-- A dictionary is written in braces. -/
theorem dumps_obj (fields : Fields) : ∃ text, dumps numbers (obj fields) = '\x7b' :: (text ++ ['\x7d']) := by
  rw [dumps, toValue, print]
  cases hfields : toFields fields with
  | nil => exact ⟨[], by rw [printFields]; rfl⟩
  | cons field fields =>
    obtain ⟨text, htext⟩ : ∃ text, printMoreFields numbers [' '] [' '] fields = text ++ ['\x7d'] :=
      printMoreFields_last fields
    rw [printFields, htext, ← List.append_assoc]
    exact ⟨_, rfl⟩

end AllAiTools.ChatGpt2Api.Json
