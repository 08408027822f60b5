import AllAiTools.NewApi.Relay.GeminiSchema

namespace AllAiTools.NewApi.Relay.SchemasConform

open Foundation Foundation.Doc
open ParamOverride (Text Scalar Json)
open ChatViaResponses (trimSpace)
open GeminiSchema

section Positions

/-- The values in an object that stand for schemas. -/
inductive Part (fields : Object) : Json → Prop
  | property {props : Object} {p : Text × Json} :
      lookup fields propertiesKey = some (.obj props) → p ∈ props → Part fields p.2
  | items {v : Json} : lookup fields itemsKey = some v → Part fields v
  | anyOf {nested : List Json} {v : Json} :
      lookup fields anyOfKey = some (.arr nested) → v ∈ nested → Part fields v

/-- The values in schema position, at any depth. -/
inductive Position : Json → Json → Prop
  | here (d : Json) : Position d d
  | inside {fields : Object} {v d : Json} : Part fields v → Position v d → Position (.obj fields) d

/-- A type is a single name; an object without a type passes unless types are asked for. -/
def Typed (typed : Bool) : Option Json → Prop
  | some (.leaf (.str _)) => True
  | some _ => False
  | none => typed = false

structure WellFormed (typed : Bool) (fields : Object) : Prop where
  allowed : ∀ k ∈ keys fields, k ∈ geminiOpenAPISchemaAllowedFields
  items : ∀ l, lookup fields itemsKey ≠ some (.arr l)
  type : Typed typed (lookup fields typeKey)

def Conforms (typed : Bool) (d : Json) : Prop := ∀ fields, Position d (.obj fields) → WellFormed typed fields

def Bare (fields : Object) : Prop :=
  titleKey ∉ keys fields ∧ schemaKey ∉ keys fields ∧ additionalPropertiesKey ∉ keys fields

def Stripped (d : Json) : Prop := ∀ fields, Position d (.obj fields) → Bare fields

theorem position_obj {fields : Object} {d : Json} :
    Position (.obj fields) d ↔ d = .obj fields ∨ ∃ v, Part fields v ∧ Position v d := by
  constructor
  · intro h
    cases h with
    | here => exact .inl rfl
    | inside hpart hposition => exact .inr ⟨_, hpart, hposition⟩
  · rintro (rfl | ⟨v, hpart, hposition⟩)
    · exact .here _
    · exact .inside hpart hposition

theorem not_position_leaf {s : Scalar} {fields : Object} : ¬ Position (.leaf s) (.obj fields) := by
  intro h
  cases h

theorem not_position_arr {items : List Json} {fields : Object} :
    ¬ Position (.arr items) (.obj fields) := by
  intro h
  cases h

end Positions

section Conditions

/-- The values in an object that the cleaning goes on with: of a tuple only the first. -/
inductive Read (fields : Object) : Json → Prop
  | property {props : Object} {p : Text × Json} :
      lookup fields propertiesKey = some (.obj props) → p ∈ props → Read fields p.2
  | items {v : Object} : lookup fields itemsKey = some (.obj v) → Read fields (.obj v)
  | tuple {first : Json} {rest : List Json} :
      lookup fields itemsKey = some (.arr (first :: rest)) → Read fields first
  | anyOf {nested : List Json} {v : Json} :
      lookup fields anyOfKey = some (.arr nested) → v ∈ nested → Read fields v

/-- The objects that the cleaning comes to, with the depth that is left there. -/
inductive Reached : ℕ → Json → ℕ → Object → Prop
  | here (n : ℕ) (fields : Object) : Reached n (.obj fields) n fields
  | inside {n m : ℕ} {fields o : Object} {v : Json} :
      Read fields v → Reached n v m o → Reached (n + 1) (.obj fields) m o

def IsNull (t : Text) : Prop := toLower (trimSpace t) = "null".toList

/-- A type that leaves a single name: a name, or a union with one. Where objects may go without a
type, null and unions without a name will do. -/
def Names (typed : Bool) : Option Json → Prop
  | none => typed = false
  | some (.leaf (.str t)) => typed = true → ¬ IsNull t
  | some (.arr items) => typed = true → ∃ t, .leaf (.str t) ∈ items ∧ t ≠ [] ∧ ¬ IsNull t
  | some _ => False

structure Fits (typed : Bool) (n : ℕ) (fields : Object) : Prop where
  not_empty : 0 < n → lookup fields itemsKey ≠ some (.arr [])
  not_nested : 0 < n → ∀ inner rest, lookup fields itemsKey ≠ some (.arr (.arr inner :: rest))
  type : Names typed (lookup fields typeKey)

/-- The objects in schema position, with the depth that is left there, none where the removal does
not go: it follows properties and alternatives of objects, and items of arrays. -/
inductive Walked : ℕ → Json → ℕ → Object → Prop
  | here (n : ℕ) (fields : Object) : Walked n (.obj fields) n fields
  | property {n m : ℕ} {fields props o : Object} {p : Text × Json} :
      lookup fields propertiesKey = some (.obj props) → p ∈ props →
      Walked (if hasType fields "object".toList then n - 1 else 0) p.2 m o →
      Walked n (.obj fields) m o
  | items {n m : ℕ} {fields o : Object} {v : Json} :
      lookup fields itemsKey = some v →
      Walked (if hasType fields "array".toList then n - 1 else 0) v m o →
      Walked n (.obj fields) m o
  | anyOf {n m : ℕ} {fields o : Object} {nested : List Json} {v : Json} :
      lookup fields anyOfKey = some (.arr nested) → v ∈ nested →
      Walked (if hasType fields "object".toList then n - 1 else 0) v m o →
      Walked n (.obj fields) m o

structure Plain (n : ℕ) (fields : Object) : Prop where
  untitled : n = 0 → titleKey ∉ keys fields ∧ schemaKey ∉ keys fields
  closed : n = 0 ∨ hasType fields "object".toList = false → additionalPropertiesKey ∉ keys fields

end Conditions

section Types

theorem normalize_null {t : Text} : (GeminiSchema.normalize t).2 = true ↔ IsNull t := by
  unfold GeminiSchema.normalize IsNull
  dsimp only
  split_ifs <;> simp_all

theorem normalize_nil_iff {t : Text} (h : ¬ IsNull t) : (GeminiSchema.normalize t).1 = [] ↔ t = [] := by
  constructor
  · intro hnil
    by_contra hne
    unfold IsNull at h
    unfold GeminiSchema.normalize at hnil
    dsimp only at hnil
    split_ifs at hnil
    all_goals first | exact hne hnil | exact h ‹_› | exact absurd hnil (by decide)
  · rintro rfl
    decide

/-- A union leaves a name exactly when it has one. -/
theorem chooseType_ne_nil {items : List Json} :
    (chooseType items).2 ≠ [] ↔ ∃ t, .leaf (.str t) ∈ items ∧ t ≠ [] ∧ ¬ IsNull t := by
  induction items with
  | nil => simp [chooseType]
  | cons item items ih =>
    cases item with
    | obj v => simpa [chooseType] using ih
    | arr v => simpa [chooseType] using ih
    | leaf s =>
      cases s with
      | null => simpa [chooseType] using ih
      | bool b => simpa [chooseType] using ih
      | num x => simpa [chooseType] using ih
      | str t =>
        have hsplit : (∃ u, (.leaf (.str u) : Json) ∈ (.leaf (.str t) : Json) :: items ∧ u ≠ [] ∧
            ¬ IsNull u) ↔
            (t ≠ [] ∧ ¬ IsNull t) ∨ ∃ u, (.leaf (.str u) : Json) ∈ items ∧ u ≠ [] ∧ ¬ IsNull u := by
          simp [or_and_right, exists_or]
        rw [hsplit, ← ih, chooseType]
        dsimp only
        by_cases hnull : IsNull t
        · rw [if_pos (normalize_null.mpr hnull)]
          simp [hnull]
        · rw [if_neg (fun h ↦ hnull (normalize_null.mp h))]
          dsimp only
          by_cases hnil : t = []
          · rw [if_pos ((normalize_nil_iff hnull).mpr hnil)]
            simp [hnil]
          · rw [if_neg (fun h ↦ hnil ((normalize_nil_iff hnull).mp h))]
            simp [hnil, hnull, normalize_nil_iff hnull]

end Types

section Cleaned

/-- The normalization changes the fields `type` and `nullable`. -/
theorem lookup_normalized (schema : Object) {k : Text} (htype : k ≠ typeKey) (hnullable : k ≠ nullableKey) :
    lookup (normalizeGeminiSchemaTypeAndNullable schema) k = lookup schema k := by
  unfold normalizeGeminiSchemaTypeAndNullable
  split
  · dsimp only
    split_ifs
    · rw [lookup_remove, if_neg htype, lookup_put, if_neg hnullable]
    · rw [lookup_put, if_neg htype]
  · dsimp only
    split_ifs
    · rw [lookup_put, if_neg htype, lookup_put, if_neg hnullable]
    · rw [lookup_put, if_neg htype]
    · rw [lookup_remove, if_neg htype, lookup_put, if_neg hnullable]
    · rw [lookup_remove, if_neg htype]
  · rfl

theorem mem_keys_normalized {schema : Object} {k : Text}
    (h : k ∈ keys (normalizeGeminiSchemaTypeAndNullable schema)) :
    k = typeKey ∨ k = nullableKey ∨ k ∈ keys schema := by
  unfold normalizeGeminiSchemaTypeAndNullable at h
  split at h
  · dsimp only at h
    split_ifs at h
    · exact .inr (mem_keys_put (mem_keys_remove.mp h).2)
    · exact (mem_keys_put h).imp id .inr
  · dsimp only at h
    split_ifs at h
    · exact (mem_keys_put h).imp id mem_keys_put
    · exact (mem_keys_put h).imp id .inr
    · exact .inr (mem_keys_put (mem_keys_remove.mp h).2)
    · exact .inr (.inr (mem_keys_remove.mp h).2)
  · exact .inr (.inr h)

theorem typed_normalized (typed : Bool) (schema : Object) :
    Typed typed (lookup (normalizeGeminiSchemaTypeAndNullable schema) typeKey) ↔
      Names typed (lookup schema typeKey) := by
  unfold normalizeGeminiSchemaTypeAndNullable
  cases htype : lookup schema typeKey with
  | none =>
    dsimp only
    rw [htype]
    exact Iff.rfl
  | some v =>
    cases v with
    | obj v =>
      dsimp only
      rw [htype]
      exact Iff.rfl
    | arr items =>
      dsimp only
      rw [Names, ← chooseType_ne_nil]
      generalize (if (chooseType items).1 then put schema nullableKey (.leaf (.bool true)) else schema) = o
      split_ifs with hchosen
      · rw [lookup_put, if_pos rfl]
        exact iff_of_true trivial fun _ ↦ hchosen
      · rw [lookup_remove, if_pos rfl]
        cases typed <;> simp [Typed, hchosen]
    | leaf s =>
      cases s with
      | null =>
        dsimp only
        rw [htype]
        exact Iff.rfl
      | bool b =>
        dsimp only
        rw [htype]
        exact Iff.rfl
      | num x =>
        dsimp only
        rw [htype]
        exact Iff.rfl
      | str t =>
        dsimp only
        rw [Names]
        split_ifs with hnull
        · rw [lookup_remove, if_pos rfl]
          rw [normalize_null] at hnull
          cases typed <;> simp [Typed, hnull]
        · rw [lookup_put, if_pos rfl]
          exact iff_of_true trivial fun _ h ↦ hnull (normalize_null.mpr h)

/-- The fields of an object after the cleaning, with the depth that is left there. -/
def cleanedFields : ℕ → Object → Object
  | 0, v => remove (remove (remove (normalizeGeminiSchemaTypeAndNullable (allowedFields v)) propertiesKey)
      itemsKey) anyOfKey
  | n + 1, v => update (update (update (normalizeGeminiSchemaTypeAndNullable (allowedFields v)) propertiesKey
      (cleanProperties (cleanLevels n))) itemsKey (cleanItems (cleanLevels n))) anyOfKey
        (cleanAnyOf (cleanLevels n))

theorem cleanLevels_obj (n : ℕ) (fields : Object) :
    cleanLevels n (.obj fields) = .obj (cleanedFields n fields) := by
  cases n <;> simp [cleanLevels, cleanFunctionParametersShallow, cleanedFields]

theorem lookup_allowed (v : Object) {k : Text} (hk : k ∈ geminiOpenAPISchemaAllowedFields) :
    lookup (allowedFields v) k = lookup v k :=
  lookup_keep _ v (List.any_eq_true.mpr ⟨k, hk, decide_eq_true rfl⟩)

theorem lookup_cleaned_properties (n : ℕ) (fields : Object) :
    lookup (cleanedFields (n + 1) fields) propertiesKey =
      (lookup fields propertiesKey).map (cleanProperties (cleanLevels n)) := by
  rw [cleanedFields, lookup_update, if_neg (by decide), lookup_update, if_neg (by decide), lookup_update,
    if_pos rfl, lookup_normalized _ (by decide) (by decide), lookup_allowed _ (by decide)]

theorem lookup_cleaned_items (n : ℕ) (fields : Object) :
    lookup (cleanedFields (n + 1) fields) itemsKey =
      (lookup fields itemsKey).map (cleanItems (cleanLevels n)) := by
  rw [cleanedFields, lookup_update, if_neg (by decide), lookup_update, if_pos rfl, lookup_update,
    if_neg (by decide), lookup_normalized _ (by decide) (by decide), lookup_allowed _ (by decide)]

theorem lookup_cleaned_anyOf (n : ℕ) (fields : Object) :
    lookup (cleanedFields (n + 1) fields) anyOfKey =
      (lookup fields anyOfKey).map (cleanAnyOf (cleanLevels n)) := by
  rw [cleanedFields, lookup_update, if_pos rfl, lookup_update, if_neg (by decide), lookup_update,
    if_neg (by decide), lookup_normalized _ (by decide) (by decide), lookup_allowed _ (by decide)]

theorem lookup_cleaned_type (n : ℕ) (fields : Object) :
    lookup (cleanedFields n fields) typeKey =
      lookup (normalizeGeminiSchemaTypeAndNullable (allowedFields fields)) typeKey := by
  cases n with
  | zero =>
    rw [cleanedFields, lookup_remove, if_neg (by decide), lookup_remove, if_neg (by decide), lookup_remove,
      if_neg (by decide)]
  | succ n =>
    rw [cleanedFields, lookup_update, if_neg (by decide), lookup_update, if_neg (by decide), lookup_update,
      if_neg (by decide)]

/-- Where no depth is left, nothing of an object stands for a schema. -/
theorem not_part_cleaned_zero {fields : Object} {v : Json} : ¬ Part (cleanedFields 0 fields) v := by
  intro h
  cases h with
  | property hprops _ =>
    rw [cleanedFields, lookup_remove, if_neg (by decide), lookup_remove, if_neg (by decide), lookup_remove,
      if_pos rfl] at hprops
    cases hprops
  | items hitems =>
    rw [cleanedFields, lookup_remove, if_neg (by decide), lookup_remove, if_pos rfl] at hitems
    cases hitems
  | anyOf hnested _ =>
    rw [cleanedFields, lookup_remove, if_pos rfl] at hnested
    cases hnested

theorem mem_keys_cleaned {n : ℕ} {fields : Object} {k : Text} (h : k ∈ keys (cleanedFields n fields)) :
    k ∈ geminiOpenAPISchemaAllowedFields := by
  have hnormalized : k ∈ keys (normalizeGeminiSchemaTypeAndNullable (allowedFields fields)) := by
    cases n with
    | zero => exact (mem_keys_remove.mp (mem_keys_remove.mp (mem_keys_remove.mp h).2).2).2
    | succ n => exact mem_keys_update (mem_keys_update (mem_keys_update h))
  rcases mem_keys_normalized hnormalized with rfl | rfl | hkept
  · decide
  · decide
  · obtain ⟨p, hp, rfl⟩ := List.mem_map.mp hkept
    obtain ⟨name, hname, heq⟩ := List.any_eq_true.mp (List.mem_filter.mp hp).2
    exact of_decide_eq_true heq ▸ hname

/-- The objects in schema position of a cleaned value are the cleaned ones of those it comes to. -/
theorem position_cleaned {n : ℕ} {d : Json} {o : Object} :
    Position (cleanLevels n d) (.obj o) ↔ ∃ m fields, Reached n d m fields ∧ o = cleanedFields m fields := by
  induction n generalizing d with
  | zero =>
    cases d with
    | leaf s =>
      exact iff_of_false not_position_leaf (by rintro ⟨m, fields, hreached, -⟩; cases hreached)
    | arr items =>
      exact iff_of_false not_position_arr (by rintro ⟨m, fields, hreached, -⟩; cases hreached)
    | obj fields =>
      rw [cleanLevels_obj, position_obj]
      constructor
      · rintro (ho | ⟨v, hpart, -⟩)
        · injection ho with ho
          exact ⟨0, fields, .here 0 fields, ho⟩
        · exact absurd hpart not_part_cleaned_zero
      · rintro ⟨m, fields', hreached, rfl⟩
        cases hreached
        exact .inl rfl
  | succ n ih =>
    cases d with
    | leaf s =>
      exact iff_of_false not_position_leaf (by rintro ⟨m, fields, hreached, -⟩; cases hreached)
    | arr items =>
      refine iff_of_false ?_ (by rintro ⟨m, fields, hreached, -⟩; cases hreached)
      rw [cleanLevels]
      exact not_position_arr
    | obj fields =>
      rw [cleanLevels_obj, position_obj]
      constructor
      · rintro (ho | ⟨v, hpart, hposition⟩)
        · injection ho with ho
          exact ⟨n + 1, fields, .here _ fields, ho⟩
        · obtain ⟨d, hread, hd⟩ : ∃ d, Read fields d ∧ Position (cleanLevels n d) (.obj o) := by
            cases hpart with
            | property hprops hp =>
              rw [lookup_cleaned_properties, Option.map_eq_some_iff] at hprops
              obtain ⟨pv, hlookup, hclean⟩ := hprops
              cases pv with
              | leaf s => cases hclean
              | arr l => cases hclean
              | obj props =>
                injection hclean with hclean
                rw [← hclean] at hp
                obtain ⟨q, hq, rfl⟩ := List.mem_map.mp hp
                exact ⟨q.2, .property hlookup hq, hposition⟩
            | items hitems =>
              rw [lookup_cleaned_items, Option.map_eq_some_iff] at hitems
              obtain ⟨iv, hlookup, rfl⟩ := hitems
              cases iv with
              | leaf s => exact absurd hposition not_position_leaf
              | obj v => exact ⟨.obj v, .items hlookup, hposition⟩
              | arr l =>
                cases l with
                | nil => exact absurd hposition not_position_arr
                | cons first rest => exact ⟨first, .tuple hlookup, hposition⟩
            | anyOf hnested hv =>
              rw [lookup_cleaned_anyOf, Option.map_eq_some_iff] at hnested
              obtain ⟨av, hlookup, hclean⟩ := hnested
              cases av with
              | leaf s => cases hclean
              | obj l => cases hclean
              | arr nested =>
                injection hclean with hclean
                rw [← hclean] at hv
                obtain ⟨d, hd, rfl⟩ := List.mem_map.mp hv
                exact ⟨d, .anyOf hlookup hd, hposition⟩
          obtain ⟨m, fields', hreached, ho⟩ := ih.mp hd
          exact ⟨m, fields', .inside hread hreached, ho⟩
      · rintro ⟨m, fields', hreached, rfl⟩
        cases hreached with
        | here => exact .inl rfl
        | inside hread hreached =>
          have hposition := ih.mpr ⟨m, fields', hreached, rfl⟩
          refine .inr ⟨_, ?_, hposition⟩
          cases hread with
          | @property props p hlookup hp =>
            have hprops := lookup_cleaned_properties n fields
            rw [hlookup] at hprops
            exact .property (p := (p.1, cleanLevels n p.2)) hprops
              (List.mem_map_of_mem (f := fun q : Text × Json ↦ (q.1, cleanLevels n q.2)) hp)
          | items hlookup =>
            have hitems := lookup_cleaned_items n fields
            rw [hlookup] at hitems
            exact .items hitems
          | tuple hlookup =>
            have hitems := lookup_cleaned_items n fields
            rw [hlookup] at hitems
            exact .items hitems
          | anyOf hlookup hv =>
            have hnested := lookup_cleaned_anyOf n fields
            rw [hlookup] at hnested
            exact .anyOf hnested (List.mem_map_of_mem hv)

/-- A cleaned object is well formed exactly when the object fits. -/
theorem wellFormed_cleaned {typed : Bool} {n : ℕ} {fields : Object} :
    WellFormed typed (cleanedFields n fields) ↔ Fits typed n fields := by
  have htype : Typed typed (lookup (cleanedFields n fields) typeKey) ↔
      Names typed (lookup fields typeKey) := by
    rw [lookup_cleaned_type, typed_normalized, lookup_allowed _ (by decide)]
  have hitems : (∀ l, lookup (cleanedFields n fields) itemsKey ≠ some (.arr l)) ↔
      (0 < n → lookup fields itemsKey ≠ some (.arr [])) ∧
        (0 < n → ∀ inner rest, lookup fields itemsKey ≠ some (.arr (.arr inner :: rest))) := by
    cases n with
    | zero =>
      have hnone : lookup (cleanedFields 0 fields) itemsKey = none := by
        rw [cleanedFields, lookup_remove, if_neg (by decide), lookup_remove, if_pos rfl]
      rw [hnone]
      exact iff_of_true (fun l ↦ by simp) ⟨fun h ↦ absurd h (lt_irrefl 0), fun h ↦ absurd h (lt_irrefl 0)⟩
    | succ n =>
      rw [lookup_cleaned_items]
      cases hlookup : lookup fields itemsKey with
      | none => simp
      | some v =>
        rw [Option.map_some]
        cases v with
        | leaf s => simp [cleanItems]
        | obj o => simp [cleanItems, cleanLevels_obj]
        | arr l =>
          cases l with
          | nil => simp [cleanItems]
          | cons first rest =>
            cases first with
            | leaf s => cases n <;> simp [cleanItems, cleanLevels, cleanFunctionParametersShallow]
            | obj o => simp [cleanItems, cleanLevels_obj]
            | arr inner => cases n <;> simp [cleanItems, cleanLevels, cleanFunctionParametersShallow]
  constructor
  · intro h
    obtain ⟨hempty, hnested⟩ := hitems.mp h.items
    exact ⟨hempty, hnested, htype.mp h.type⟩
  · intro h
    exact ⟨fun k hk ↦ mem_keys_cleaned hk, hitems.mpr ⟨h.not_empty, h.not_nested⟩, htype.mpr h.type⟩

theorem conforms_cleaned (typed : Bool) (n : ℕ) (d : Json) :
    Conforms typed (cleanLevels n d) ↔ ∀ m fields, Reached n d m fields → Fits typed m fields := by
  constructor
  · intro h m fields hreached
    exact wellFormed_cleaned.mp (h _ (position_cleaned.mpr ⟨m, fields, hreached, rfl⟩))
  · intro h o hposition
    obtain ⟨m, fields, hreached, rfl⟩ := position_cleaned.mp hposition
    exact wellFormed_cleaned.mpr (h m fields hreached)

end Cleaned

section Removed

/-- The fields of an object after the removal, with the depth that is left there. -/
def removedFields : ℕ → Object → Object
  | 0, v => v
  | n + 1, v =>
    let v := remove (remove v titleKey) schemaKey
    if hasType v "object".toList then
      update (update (update (update (remove v additionalPropertiesKey) propertiesKey
        (cleanProperties (removeLevels n))) allOfKey (cleanAnyOf (removeLevels n))) anyOfKey
        (cleanAnyOf (removeLevels n))) oneOfKey (cleanAnyOf (removeLevels n))
    else if hasType v "array".toList then update v itemsKey (cleanObject (removeLevels n))
    else v

theorem removeLevels_zero : removeLevels 0 = id := by
  funext d
  cases d <;> simp [removeLevels]

theorem removeLevels_obj (n : ℕ) (fields : Object) :
    removeLevels n (.obj fields) = .obj (removedFields n fields) := by
  cases n with
  | zero => exact congrFun removeLevels_zero _
  | succ n =>
    rw [removeLevels, removedFields]
    dsimp only
    split_ifs <;> rfl

theorem lookup_untitled (fields : Object) {k : Text} (htitle : k ≠ titleKey) (hschema : k ≠ schemaKey) :
    lookup (remove (remove fields titleKey) schemaKey) k = lookup fields k := by
  rw [lookup_remove, if_neg hschema, lookup_remove, if_neg htitle]

theorem hasType_untitled (fields : Object) (name : Text) :
    hasType (remove (remove fields titleKey) schemaKey) name = hasType fields name := by
  unfold hasType
  rw [lookup_untitled fields (by decide) (by decide)]

theorem hasType_unique {fields : Object} (h : hasType fields "object".toList = true) :
    hasType fields "array".toList = false := by
  unfold hasType at h ⊢
  split at h
  · rw [of_decide_eq_true h]
    decide
  · cases h

theorem lookup_removed_properties (n : ℕ) (fields : Object) :
    lookup (removedFields n fields) propertiesKey = (lookup fields propertiesKey).map
      (cleanProperties (removeLevels (if hasType fields "object".toList then n - 1 else 0))) := by
  have hsame : cleanProperties (removeLevels 0) = id := by
    funext v
    cases v with
    | obj props => simp [cleanProperties, removeLevels_zero]
    | arr l => rfl
    | leaf s => rfl
  cases n with
  | zero => rw [Nat.zero_sub, ite_self, hsame, Option.map_id, removedFields, id]
  | succ n =>
    rw [removedFields]
    rw [hasType_untitled, hasType_untitled]
    split_ifs
    · rw [lookup_update, if_neg (by decide), lookup_update, if_neg (by decide), lookup_update,
        if_neg (by decide), lookup_update, if_pos rfl, lookup_remove, if_neg (by decide),
        lookup_untitled _ (by decide) (by decide)]
      rfl
    · rw [hsame, Option.map_id, lookup_update, if_neg (by decide), lookup_untitled _ (by decide) (by decide),
        id]
    · rw [hsame, Option.map_id, lookup_untitled _ (by decide) (by decide), id]

theorem lookup_removed_anyOf (n : ℕ) (fields : Object) :
    lookup (removedFields n fields) anyOfKey = (lookup fields anyOfKey).map
      (cleanAnyOf (removeLevels (if hasType fields "object".toList then n - 1 else 0))) := by
  have hsame : cleanAnyOf (removeLevels 0) = id := by
    funext v
    cases v with
    | arr nested => simp [cleanAnyOf, removeLevels_zero]
    | obj o => rfl
    | leaf s => rfl
  cases n with
  | zero => rw [Nat.zero_sub, ite_self, hsame, Option.map_id, removedFields, id]
  | succ n =>
    rw [removedFields]
    rw [hasType_untitled, hasType_untitled]
    split_ifs
    · rw [lookup_update, if_neg (by decide), lookup_update, if_pos rfl, lookup_update,
        if_neg (by decide), lookup_update, if_neg (by decide), lookup_remove, if_neg (by decide),
        lookup_untitled _ (by decide) (by decide)]
      rfl
    · rw [hsame, Option.map_id, lookup_update, if_neg (by decide), lookup_untitled _ (by decide) (by decide),
        id]
    · rw [hsame, Option.map_id, lookup_untitled _ (by decide) (by decide), id]

theorem lookup_removed_items (n : ℕ) (fields : Object) :
    lookup (removedFields n fields) itemsKey = (lookup fields itemsKey).map
      (cleanObject (removeLevels (if hasType fields "array".toList then n - 1 else 0))) := by
  have hsame : cleanObject (removeLevels 0) = id := by
    funext v
    cases v with
    | obj o => exact congrFun removeLevels_zero _
    | arr l => rfl
    | leaf s => rfl
  cases n with
  | zero => rw [Nat.zero_sub, ite_self, hsame, Option.map_id, removedFields, id]
  | succ n =>
    rw [removedFields]
    rw [hasType_untitled, hasType_untitled]
    by_cases hobject : hasType fields "object".toList = true
    · rw [if_pos hobject, hasType_unique hobject, if_neg Bool.false_ne_true, hsame, Option.map_id,
        lookup_update, if_neg (by decide), lookup_update, if_neg (by decide), lookup_update,
        if_neg (by decide), lookup_update, if_neg (by decide), lookup_remove, if_neg (by decide),
        lookup_untitled _ (by decide) (by decide), id]
    · rw [if_neg hobject]
      split_ifs
      · rw [lookup_update, if_pos rfl, lookup_untitled _ (by decide) (by decide)]
        rfl
      · rw [hsame, Option.map_id, lookup_untitled _ (by decide) (by decide), id]

theorem removeLevels_leaf (n : ℕ) (s : Scalar) : removeLevels n (.leaf s) = .leaf s := by
  cases n <;> simp [removeLevels]

theorem removeLevels_arr (n : ℕ) (l : List Json) : removeLevels n (.arr l) = .arr l := by
  cases n <;> simp [removeLevels]

/-- A part of an object after the removal comes from one that is walked on to. -/
theorem part_removed {n : ℕ} {fields o : Object} {v : Json} (h : Part (removedFields n fields) v)
    (hposition : Position v (.obj o)) :
    ∃ d k, v = removeLevels k d ∧ ∀ m o', Walked k d m o' → Walked n (.obj fields) m o' := by
  cases h with
  | property hprops hp =>
    rw [lookup_removed_properties, Option.map_eq_some_iff] at hprops
    obtain ⟨pv, hlookup, hclean⟩ := hprops
    cases pv with
    | leaf s => cases hclean
    | arr l => cases hclean
    | obj props =>
      injection hclean with hclean
      rw [← hclean] at hp
      obtain ⟨q, hq, rfl⟩ := List.mem_map.mp hp
      exact ⟨q.2, _, rfl, fun m o' hwalked ↦ .property hlookup hq hwalked⟩
  | items hitems =>
    rw [lookup_removed_items, Option.map_eq_some_iff] at hitems
    obtain ⟨iv, hlookup, rfl⟩ := hitems
    cases iv with
    | leaf s => exact absurd hposition not_position_leaf
    | arr l => exact absurd hposition not_position_arr
    | obj v => exact ⟨.obj v, _, rfl, fun m o' hwalked ↦ .items hlookup hwalked⟩
  | anyOf hnested hv =>
    rw [lookup_removed_anyOf, Option.map_eq_some_iff] at hnested
    obtain ⟨av, hlookup, hclean⟩ := hnested
    cases av with
    | leaf s => cases hclean
    | obj l => cases hclean
    | arr nested =>
      injection hclean with hclean
      rw [← hclean] at hv
      obtain ⟨d, hd, rfl⟩ := List.mem_map.mp hv
      exact ⟨d, _, rfl, fun m o' hwalked ↦ .anyOf hlookup hd hwalked⟩

theorem walked_of_position {x y : Json} (h : Position x y) {n : ℕ} {d : Json} {o : Object}
    (hx : x = removeLevels n d) (hy : y = .obj o) :
    ∃ m fields, Walked n d m fields ∧ o = removedFields m fields := by
  induction h generalizing n d with
  | here x =>
    cases d with
    | leaf s =>
      rw [hy, removeLevels_leaf] at hx
      cases hx
    | arr l =>
      rw [hy, removeLevels_arr] at hx
      cases hx
    | obj fields =>
      rw [hy, removeLevels_obj] at hx
      injection hx with hx
      exact ⟨n, fields, .here n fields, hx⟩
  | inside hpart hposition ih =>
    cases d with
    | leaf s =>
      rw [removeLevels_leaf] at hx
      cases hx
    | arr l =>
      rw [removeLevels_arr] at hx
      cases hx
    | obj fields =>
      rw [removeLevels_obj] at hx
      injection hx with hx
      rw [hx] at hpart
      obtain ⟨d, k, hv, hwalk⟩ := part_removed hpart (hy ▸ hposition)
      obtain ⟨m, fields', hwalked, ho⟩ := ih hv hy
      exact ⟨m, fields', hwalk m fields' hwalked, ho⟩

theorem position_of_walked {n m : ℕ} {d : Json} {fields : Object} (h : Walked n d m fields) :
    Position (removeLevels n d) (.obj (removedFields m fields)) := by
  induction h with
  | here n fields =>
    rw [removeLevels_obj]
    exact .here _
  | @property n m fields props o p hlookup hp _ ih =>
    have hprops := lookup_removed_properties n fields
    rw [hlookup] at hprops
    rw [removeLevels_obj]
    exact .inside (.property (p := (p.1, _)) hprops
      (List.mem_map_of_mem (f := fun q : Text × Json ↦ (q.1, removeLevels _ q.2)) hp)) ih
  | @items n m fields o v hlookup hwalked ih =>
    have hitems := lookup_removed_items n fields
    rw [hlookup] at hitems
    rw [removeLevels_obj]
    cases v with
    | leaf s => cases hwalked
    | arr l => cases hwalked
    | obj v => exact .inside (.items hitems) ih
  | @anyOf n m fields o nested v hlookup hv _ ih =>
    have hnested := lookup_removed_anyOf n fields
    rw [hlookup] at hnested
    rw [removeLevels_obj]
    exact .inside (.anyOf hnested (List.mem_map_of_mem hv)) ih

theorem lookup_removed_title (n : ℕ) (fields : Object) {k : Text} (hk : k = titleKey ∨ k = schemaKey) :
    lookup (removedFields n fields) k = if 0 < n then none else lookup fields k := by
  have hgone : lookup (remove (remove fields titleKey) schemaKey) k = none := by
    rw [lookup_remove, lookup_remove]
    rcases hk with rfl | rfl <;> simp
  have hother : k ≠ additionalPropertiesKey ∧ k ≠ propertiesKey ∧ k ≠ allOfKey ∧ k ≠ anyOfKey ∧
      k ≠ oneOfKey ∧ k ≠ itemsKey := by
    rcases hk with rfl | rfl <;> decide
  obtain ⟨hadditional, hproperties, hall, hany, hone, hitems⟩ := hother
  cases n with
  | zero => rfl
  | succ n =>
    rw [removedFields, if_pos (Nat.succ_pos n)]
    split_ifs
    · rw [lookup_update, if_neg hone, lookup_update, if_neg hany, lookup_update, if_neg hall, lookup_update,
        if_neg hproperties, lookup_remove, if_neg hadditional, hgone]
    · rw [lookup_update, if_neg hitems, hgone]
    · exact hgone

theorem lookup_removed_additional (n : ℕ) (fields : Object) :
    lookup (removedFields n fields) additionalPropertiesKey =
      if 0 < n ∧ hasType fields "object".toList then none else lookup fields additionalPropertiesKey := by
  cases n with
  | zero => simp [removedFields]
  | succ n =>
    rw [removedFields, hasType_untitled, hasType_untitled]
    by_cases hobject : hasType fields "object".toList = true
    · rw [if_pos hobject, if_pos ⟨Nat.succ_pos n, hobject⟩, lookup_update, if_neg (by decide), lookup_update,
        if_neg (by decide), lookup_update, if_neg (by decide), lookup_update, if_neg (by decide),
        lookup_remove, if_pos rfl]
    · have hnot : ¬ (0 < n + 1 ∧ hasType fields "object".toList = true) := fun h ↦ hobject h.2
      rw [if_neg hobject, if_neg hnot]
      split_ifs
      · rw [lookup_update, if_neg (by decide), lookup_untitled _ (by decide) (by decide)]
      · rw [lookup_untitled _ (by decide) (by decide)]

theorem bare_removed {n : ℕ} {fields : Object} : Bare (removedFields n fields) ↔ Plain n fields := by
  have hnot : ∀ (o : Object) (k : Text), k ∉ keys o ↔ lookup o k = none := by
    intro o k
    rw [← lookup_isSome_iff, Bool.not_eq_true, Option.isSome_eq_false_iff, Option.isNone_iff_eq_none]
  unfold Bare
  rw [hnot, hnot, hnot, lookup_removed_title n fields (.inl rfl), lookup_removed_title n fields (.inr rfl),
    lookup_removed_additional]
  constructor
  · rintro ⟨htitle, hschema, hadditional⟩
    refine ⟨?_, ?_⟩
    · rintro rfl
      rw [hnot, hnot]
      exact ⟨htitle, hschema⟩
    · intro hopen
      rw [if_neg] at hadditional
      · exact (hnot _ _).mpr hadditional
      · rintro ⟨hpos, hobject⟩
        rcases hopen with rfl | hother
        · exact lt_irrefl 0 hpos
        · rw [hobject] at hother
          cases hother
  · rintro ⟨huntitled, hclosed⟩
    by_cases hzero : n = 0
    · have hkeys := huntitled hzero
      rw [hnot, hnot] at hkeys
      rw [if_neg (by omega), if_neg (by omega), if_neg (fun h ↦ absurd h.1 (by omega))]
      exact ⟨hkeys.1, hkeys.2, (hnot _ _).mp (hclosed (.inl hzero))⟩
    · rw [if_pos (by omega), if_pos (by omega)]
      refine ⟨rfl, rfl, ?_⟩
      split_ifs with hboth
      · rfl
      · refine (hnot _ _).mp (hclosed (.inr ?_))
        by_contra hobject
        exact hboth ⟨by omega, by simpa using hobject⟩

theorem stripped_removed (n : ℕ) (d : Json) :
    Stripped (removeLevels n d) ↔ ∀ m fields, Walked n d m fields → Plain m fields := by
  constructor
  · intro h m fields hwalked
    exact bare_removed.mp (h _ (position_of_walked hwalked))
  · intro h o hposition
    obtain ⟨m, fields, hwalked, rfl⟩ := walked_of_position hposition rfl rfl
    exact bare_removed.mpr (h m fields hwalked)

/-- Cleaned parameters conform exactly where every object that is read fits, and a response schema is
stripped exactly where every object in it is plain where the removal does not come. -/
theorem schemas_iff (params schema : Json) (typed : Bool) :
    (Conforms typed (cleanFunctionParameters params) ↔
        ∀ m fields, Reached 64 params m fields → Fits typed m fields) ∧
      (Stripped (removeAdditionalPropertiesWithDepth schema 0) ↔
        ∀ m fields, Walked 5 schema m fields → Plain m fields) :=
  ⟨conforms_cleaned typed 64 params, stripped_removed 5 schema⟩

/-- An array of no item schemas stays, and so does `additionalProperties` in an object without a
type. -/
theorem schemas_not :
    ¬ Conforms false (cleanFunctionParameters (.obj [(itemsKey, .arr [])])) ∧
      ¬ Stripped (removeAdditionalPropertiesWithDepth
        (.obj [(additionalPropertiesKey, .leaf (.bool false))]) 0) := by
  constructor
  · intro h
    have hfits := (conforms_cleaned false 64 _).mp h 64 _ (.here 64 _)
    exact hfits.not_empty (by decide) rfl
  · intro h
    have hplain := (stripped_removed 5 _).mp h 5 _ (.here 5 _)
    exact hplain.closed (.inr rfl) List.mem_cons_self

end Removed

end AllAiTools.NewApi.Relay.SchemasConform
