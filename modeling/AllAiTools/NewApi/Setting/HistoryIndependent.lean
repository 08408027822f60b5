import AllAiTools.NewApi.Setting.Config

namespace AllAiTools.NewApi.Setting

open Common.GoJson

section Conditions

variable (go : Go)

def ValidText : Ty → String → Prop
  | .scalar kind, strValue => (parseScalar go kind strValue).isSome
  | .ptr t, strValue => strValue = "null" ∨ ∃ j, go.parse strValue = some j ∧ t.valid go j
  | ty, strValue => ∃ j, go.parse strValue = some j ∧ ty.valid go j

/-- The text gives the whole of the field. -/
def Given : Ty → String → Prop
  | .scalar _, _ => True
  | .ptr t, strValue => strValue = "null" ∨ ∃ j, go.parse strValue = some j ∧ t.Covers go [j]
  | .map _, _ => True
  | ty, strValue => ∃ j, go.parse strValue = some j ∧ ty.Covers go [j]

/-- The text of the field keeps the whole of its value. -/
def Restorable : (ty : Ty) → ty.Value go → Prop
  | .scalar _, _ => True
  | .ptr t, v => ∀ x, v = some x → t.isNil go x = false ∧ t.Full go x ∧ t.Plain go x
  | .map t, v => (Ty.map t).Plain go v
  | .slice t, v => (Ty.slice t).Full go v ∧ (Ty.slice t).Plain go v
  | .struct tag field, v => (Ty.struct tag field).Full go v ∧ (Ty.struct tag field).Plain go v

/-- The JSON value in the text of a field. -/
def fieldJson : (ty : Ty) → ty.Value go → Option Json
  | .scalar _, _ => none
  | .ptr t, v => Option.elim v none (t.marshal go)
  | .map t, v => (Ty.map t).marshal go v
  | .slice t, v => (Ty.slice t).marshal go v
  | .struct tag field, v => (Ty.struct tag field).marshal go v

/-- The text that is written for the field is read as what was written. -/
def ReadsBack (ty : Ty) (v : ty.Value go) : Prop :=
  ∀ j, fieldJson go ty v = some j → go.parse (go.print j) = some j

end Conditions

section Scalars

variable {go : Go}

theorem parseScalar_formatScalar (laws : go.Laws) (kind : Scalar) (v : kind.Val go) :
    parseScalar go kind (formatScalar go kind v) = some v := by
  cases kind with
  | bool => exact parseBool_formatBool v
  | int w =>
    obtain ⟨hlow, hhigh⟩ := w.toInt_bounds v
    rw [parseScalar, formatScalar, parseInt_formatInt hlow hhigh, Option.some_or, Option.map_some,
      BitVec.ofInt_toInt]
  | uint w =>
    rw [parseScalar, formatScalar, parseUint_formatUint (w.toNat_lt v), Option.some_or,
      Option.map_some, BitVec.ofNat_toNat, BitVec.setWidth_eq]
  | float size =>
    rw [parseScalar, formatScalar, laws.parse_format, Option.map_some, laws.narrow_widen]
  | string => rfl

end Scalars

section FieldLaws

variable {go : Go}

/-- A field that is decoded where it stands. -/
theorem decode_forgets (laws : go.Laws) {t : Ty} {j : Json} (hvalid : t.valid go j) :
    (∀ c c', t.read go (t.decode go j c) = t.read go (t.decode go j c')) ↔ t.Covers go [j] :=
  forgets_iff laws t [j] fun _ hj ↦ List.mem_singleton.mp hj ▸ hvalid

theorem decode_restores (laws : go.Laws) {t : Ty} {v : t.Value go} {j : Json}
    (h : t.marshal go v = some j) :
    (∀ c, t.read go (t.decode go j c) = v) ↔ t.Full go v ∧ t.Plain go v := by
  have hforgets := decode_forgets laws (marshal_valid laws t v h)
  rw [← covers_marshal t v h, ← read_marshal laws t v h, ← hforgets]
  constructor
  · intro hall
    exact ⟨fun c c' ↦ (hall c).trans (hall c').symm, hall (t.zero go)⟩
  · rintro ⟨hsame, hzero⟩ c
    exact (hsame c (t.zero go)).trans hzero

/-- The field of a kind whose text is decoded where the field stands. -/
theorem elim_forgets_iff (laws : go.Laws) {ty : Ty} {strValue : String} {j : Json}
    (hj : go.parse strValue = some j) (hvalid : ty.valid go j) :
    (∀ c c', ty.read go (Option.elim (go.parse strValue) c fun j ↦ ty.decode go j c) =
        ty.read go (Option.elim (go.parse strValue) c' fun j ↦ ty.decode go j c')) ↔
      ∃ j, go.parse strValue = some j ∧ ty.Covers go [j] := by
  rw [hj]
  refine (decode_forgets laws hvalid).trans ⟨fun h ↦ ⟨j, rfl, h⟩, ?_⟩
  rintro ⟨_, ⟨⟩, hcovers⟩
  exact hcovers

theorem setField_forgets_iff (laws : go.Laws) {ty : Ty} {strValue : String}
    (hvalid : ValidText go ty strValue) :
    (∀ c c', ty.read go (setField go ty strValue c) = ty.read go (setField go ty strValue c')) ↔
      Given go ty strValue := by
  cases ty with
  | scalar kind =>
    obtain ⟨v, hv⟩ := Option.isSome_iff_exists.mp hvalid
    refine iff_of_true (fun c c' ↦ ?_) trivial
    simp only [setField, hv, Option.getD_some]
  | ptr t =>
    by_cases hnull : strValue = "null"
    · refine iff_of_true (fun c c' ↦ ?_) (Or.inl hnull)
      simp only [setField, if_pos hnull]
    obtain ⟨j, hj, hvalid'⟩ := hvalid.resolve_left hnull
    have hset : ∀ c, (Ty.ptr t).read go (setField go (.ptr t) strValue c) =
        some (t.read go (t.decode go j (Option.getD c (t.zero go)))) := by
      intro c
      simp only [setField, if_neg hnull, hj]
      rfl
    have hgiven : Given go (.ptr t) strValue ↔ t.Covers go [j] := by
      refine (or_iff_right hnull).trans ⟨?_, fun h ↦ ⟨j, hj, h⟩⟩
      rintro ⟨j', hj', hcovers⟩
      rw [hj] at hj'
      exact Option.some.inj hj' ▸ hcovers
    rw [hgiven, ← decode_forgets laws hvalid']
    constructor
    · intro hall c c'
      have hsame := hall (some c) (some c')
      rw [hset, hset] at hsame
      exact Option.some.inj hsame
    · intro hall c c'
      rw [hset, hset, hall]
  | map t =>
    obtain ⟨j, hj, hvalid'⟩ := hvalid
    refine iff_of_true (fun c c' ↦ ?_) trivial
    simp only [setField, hj, if_pos hvalid']
  | slice t =>
    obtain ⟨j, hj, hvalid'⟩ := hvalid
    exact elim_forgets_iff laws hj hvalid'
  | struct tag field =>
    obtain ⟨j, hj, hvalid'⟩ := hvalid
    exact elim_forgets_iff laws hj hvalid'

theorem elim_restores_iff (laws : go.Laws) {ty : Ty} {v : ty.Value go} {j : Json}
    (hmarshal : ty.marshal go v = some j) (hreads : go.parse (go.print j) = some j) :
    (∀ c, ty.read go (Option.elim (go.parse (go.print j)) c fun j ↦ ty.decode go j c) = v) ↔
      ty.Full go v ∧ ty.Plain go v := by
  rw [hreads]
  exact decode_restores laws hmarshal

theorem setField_restores_iff (laws : go.Laws) {ty : Ty} {v : ty.Value go} {strValue : String}
    (htext : fieldText go ty v = some strValue) (hreads : ReadsBack go ty v) :
    (∀ c, ty.read go (setField go ty strValue c) = v) ↔ Restorable go ty v := by
  cases ty with
  | scalar kind =>
    obtain rfl := Option.some.inj htext
    refine iff_of_true (fun c ↦ ?_) trivial
    simp only [setField, parseScalar_formatScalar laws, Option.getD_some]
    rfl
  | ptr t =>
    cases v with
    | none =>
      obtain rfl := Option.some.inj htext
      refine iff_of_true (fun c ↦ ?_) fun x hx ↦ by cases hx
      simp only [setField, if_pos]
      rfl
    | some x =>
      obtain ⟨j, hj, rfl⟩ := Option.map_eq_some_iff.mp htext
      have hparse := hreads j hj
      by_cases hnil : t.isNil go x
      · obtain rfl := (marshal_null t x hj).mpr hnil
        refine iff_of_false (fun hall ↦ ?_) fun hrestorable ↦ ?_
        · have hnone := hall none
          simp only [setField, laws.print_null, if_pos] at hnone
          cases hnone
        · exact absurd ((hrestorable x rfl).1.symm.trans hnil) Bool.false_ne_true
      · have hprint : go.print j ≠ "null" := by
          intro heq
          rw [heq, laws.parse_null] at hparse
          exact hnil ((marshal_null t x hj).mp (Option.some.inj hparse).symm)
        have hset : ∀ c, (Ty.ptr t).read go (setField go (.ptr t) (go.print j) c) =
            some (t.read go (t.decode go j (Option.getD c (t.zero go)))) := by
          intro c
          simp only [setField, if_neg hprint, hparse]
          rfl
        have hrestorable : Restorable go (.ptr t) (some x) ↔ t.Full go x ∧ t.Plain go x := by
          constructor
          · intro h
            exact (h x rfl).2
          · rintro h _ ⟨⟩
            exact ⟨eq_false_of_ne_true hnil, h⟩
        rw [hrestorable, ← decode_restores laws hj]
        constructor
        · intro hall c
          have hsome := hall (some c)
          rw [hset] at hsome
          exact Option.some.inj hsome
        · intro hall c
          rw [hset, hall]
  | map t =>
    obtain ⟨j, hj, rfl⟩ := Option.map_eq_some_iff.mp htext
    have hparse := hreads j hj
    have hset : ∀ c, setField go (.map t) (go.print j) c =
        (Ty.map t).decode go j ((Ty.map t).zero go) := by
      intro c
      simp only [setField, hparse, if_pos (marshal_valid laws (.map t) v hj)]
      rfl
    simp only [hset]
    rw [forall_const]
    exact read_marshal laws (.map t) v hj
  | slice t =>
    obtain ⟨j, hj, rfl⟩ := Option.map_eq_some_iff.mp htext
    exact elim_restores_iff laws hj (hreads j hj)
  | struct tag field =>
    obtain ⟨j, hj, rfl⟩ := Option.map_eq_some_iff.mp htext
    exact elim_restores_iff laws hj (hreads j hj)

end FieldLaws

section Whole

variable {go : Go} {T : ConfigType}

theorem updateConfigFromMap_exported {m : String → Option String} {i : Fin T.numField}
    (hexported : (T.field i).exported) {strValue : String} (hm : m (T.field i).key = some strValue)
    (config : T.Config go) : updateConfigFromMap go config m i =
      setField go (T.field i).ty strValue (config i) := by
  rw [updateConfigFromMap, if_pos hexported, hm]

/-- A field may have been anything before. -/
theorem exists_config (i : Fin T.numField) (c : (T.field i).ty.Cell go) :
    ∃ config : T.Config go, config i = c := by
  refine ⟨Function.update (fun i ↦ (T.field i).ty.zero go) i c, ?_⟩
  rw [Function.update_self]

/-- One round of the loop over the fields. -/
def textOf (config : T.Config go) (i : Fin T.numField) : Option String :=
  fieldText go (T.field i).ty ((T.field i).ty.read go (config i))

theorem foldlM_fields {config : T.Config go} {l : List (Fin T.numField)}
    {result m : String → Option String}
    (h : l.foldlM (fun result i ↦
      if (T.field i).exported then
        (textOf config i).map fun strValue ↦ Function.update result (T.field i).key (some strValue)
      else some result) result = some m) {i : Fin T.numField} (hexported : (T.field i).exported) :
    (i ∈ l → ∃ strValue, textOf config i = some strValue ∧ m (T.field i).key = some strValue) ∧
      (i ∉ l → m (T.field i).key = result (T.field i).key) := by
  induction l generalizing result with
  | nil =>
    obtain rfl := Option.some.inj h
    exact ⟨fun hi ↦ (List.not_mem_nil hi).elim, fun _ ↦ rfl⟩
  | cons a l ih =>
    rw [List.foldlM_cons] at h
    obtain ⟨result', hstep, hrest⟩ := Option.bind_eq_some_iff.mp h
    obtain ⟨hin, hout⟩ := ih hrest
    constructor
    · intro hi
      by_cases hmem : i ∈ l
      · exact hin hmem
      obtain rfl := (List.mem_cons.mp hi).resolve_right hmem
      rw [if_pos hexported] at hstep
      obtain ⟨strValue, htext, rfl⟩ := Option.map_eq_some_iff.mp hstep
      refine ⟨strValue, htext, ?_⟩
      rw [hout hmem, Function.update_self]
    · intro hi
      obtain ⟨hne, hmem⟩ := not_or.mp (List.mem_cons.not.mp hi)
      rw [hout hmem]
      by_cases ha : (T.field a).exported
      · rw [if_pos ha] at hstep
        obtain ⟨strValue, _, rfl⟩ := Option.map_eq_some_iff.mp hstep
        refine Function.update_of_ne (fun hkey ↦ hne ?_) _ _
        exact T.keys i a hexported ha hkey
      · rw [if_neg ha] at hstep
        rw [Option.some.inj hstep]

/-- The map has the text of every exported field. -/
theorem configToMap_exported {config : T.Config go} {m : String → Option String}
    (h : configToMap go config = some m) {i : Fin T.numField} (hexported : (T.field i).exported) :
    ∃ strValue, textOf config i = some strValue ∧ m (T.field i).key = some strValue :=
  (foldlM_fields h hexported).1 (List.mem_finRange i)

/-- A text leaves nothing of what a field was before exactly where it gives the whole field, and a
configuration comes back from its own map, whatever it was before, exactly where the text of each of
its fields keeps the whole of it. -/
theorem history_independent_iff (go : Go) (laws : go.Laws) (T : ConfigType) :
    (∀ (m : String → Option String) (i : Fin T.numField) (strValue : String),
      (T.field i).exported → m (T.field i).key = some strValue →
      ValidText go (T.field i).ty strValue →
        ((∀ config config' : T.Config go,
          (T.field i).ty.read go (updateConfigFromMap go config m i) =
            (T.field i).ty.read go (updateConfigFromMap go config' m i)) ↔
          Given go (T.field i).ty strValue)) ∧
    ∀ (config : T.Config go) (m : String → Option String), configToMap go config = some m →
      (∀ i, ReadsBack go (T.field i).ty ((T.field i).ty.read go (config i))) →
        ((∀ (prior : T.Config go) (i : Fin T.numField),
          (T.field i).ty.read go (updateConfigFromMap go prior m i) =
            (T.field i).ty.read go (config i)) ↔
          ∀ i, if (T.field i).exported then
            Restorable go (T.field i).ty ((T.field i).ty.read go (config i))
          else (T.field i).ty.Covers go []) := by
  constructor
  · intro m i strValue hexported hm hvalid
    simp only [updateConfigFromMap_exported hexported hm]
    rw [← setField_forgets_iff laws hvalid]
    constructor
    · intro hall c c'
      obtain ⟨config, rfl⟩ := exists_config i c
      obtain ⟨config', rfl⟩ := exists_config i c'
      exact hall config config'
    · intro hall config config'
      exact hall (config i) (config' i)
  · intro config m hmap hreads
    rw [forall_comm]
    refine forall_congr' fun i ↦ ?_
    by_cases hexported : (T.field i).exported
    · obtain ⟨strValue, htext, hm⟩ := configToMap_exported hmap hexported
      rw [if_pos hexported, ← setField_restores_iff laws htext (hreads i)]
      simp only [updateConfigFromMap_exported hexported hm]
      constructor
      · intro hall c
        obtain ⟨prior, rfl⟩ := exists_config i c
        exact hall prior
      · intro hall prior
        exact hall (prior i)
    · rw [if_neg hexported, ← forgets_iff laws (T.field i).ty [] fun j hj ↦ by cases hj]
      have hkept : ∀ prior : T.Config go, updateConfigFromMap go prior m i = prior i :=
        fun prior ↦ if_neg hexported
      simp only [hkept]
      constructor
      · intro hall c c'
        obtain ⟨prior, rfl⟩ := exists_config i c
        obtain ⟨prior', rfl⟩ := exists_config i c'
        exact (hall prior).trans (hall prior').symm
      · intro hall prior
        exact hall (prior i) (config i)

end Whole

section Instances

/-- A source of a key: a type, and a path that is left out where it is empty. -/
def keySource : Ty :=
  .struct ![{ name := "type" }, { name := "path", omitEmpty := true }]
    ![.scalar .string, .scalar .string]

def ruleSetting : ConfigType where
  numField := 1
  field _ := { name := "Rules", tag := "rules", ty := .slice keySource }
  keys i j _ _ _ := Subsingleton.elim i j

def partText : String := "[\x7b\"type\":\"gjson\"\x7d]"

def partJson : Json := .arr [.obj [("type", .str "gjson")]]

def fullText : String := "[\x7b\"type\":\"gjson\",\"path\":\"id\"\x7d]"

def fullJson : Json := .arr [.obj [("type", .str "gjson"), ("path", .str "id")]]

/-- The texts of the settings below, and floats that are integers. -/
def smallGo : Go where
  Float _ := ℤ
  zero _ := 0
  one _ := 1
  isZero x := x == 0
  widen x := x
  narrow x := x
  negative x := decide (x < 0)
  truncInt x := x
  truncUint x := x.toNat
  parseFloat s := s.toInt?
  formatFloat x := x.repr
  encodeFloat x := some x.repr
  decodeFloat s := s.toInt?
  parse s := if s = "null" then some .null else if s = partText then some partJson
    else if s = fullText then some fullJson else none
  print j := if j.isNull then "null" else fullText
  foldName s := s

theorem smallGo_laws : smallGo.Laws where
  one_ne_zero _ := (by decide : ¬(1 : ℤ) = 0)
  narrow_widen _ := rfl
  parse_format x := Int.toInt?_repr x
  decode_encode h := by
    obtain rfl := Option.some.inj h
    exact Int.toInt?_repr _
  parse_null := rfl
  print_null := rfl

theorem partText_valid : ValidText smallGo (.slice keySource) partText := by
  refine ⟨partJson, rfl, List.all_eq_true.mpr fun j hj ↦ ?_⟩
  rw [List.mem_singleton.mp hj, keySource, Ty.valid]
  decide

theorem fullText_valid : ValidText smallGo (.slice keySource) fullText := by
  refine ⟨fullJson, rfl, List.all_eq_true.mpr fun j hj ↦ ?_⟩
  rw [List.mem_singleton.mp hj, keySource, Ty.valid]
  decide

theorem fullText_given : Given smallGo (.slice keySource) fullText := by
  refine ⟨fullJson, rfl, Or.inr (Or.inr ⟨_, rfl, fun k hk ↦ ?_⟩)⟩
  obtain rfl : k = 0 := Nat.lt_one_iff.mp hk
  intro i
  cases i using Fin.cases with
  | zero => exact ⟨.str "gjson", List.mem_singleton_self _, fun h ↦ by cases h⟩
  | succ i =>
    obtain rfl : i = 0 := Subsingleton.elim i 0
    exact ⟨.str "id", List.mem_singleton_self _, fun h ↦ by cases h⟩

def rules : Fin ruleSetting.numField := (0 : Fin 1)

def noRules : ruleSetting.Config smallGo := fun i ↦ (ruleSetting.field i).ty.zero smallGo

def noRulesMap : String → Option String := Function.update (fun _ ↦ none) "rules" (some "null")

theorem history_independent_rules :
    (∀ config config' : ruleSetting.Config smallGo,
      (ruleSetting.field rules).ty.read smallGo
          (updateConfigFromMap smallGo config (fun _ ↦ some fullText) rules) =
        (ruleSetting.field rules).ty.read smallGo
          (updateConfigFromMap smallGo config' (fun _ ↦ some fullText) rules)) ∧
    ∀ prior : ruleSetting.Config smallGo, ∀ i,
      (ruleSetting.field i).ty.read smallGo (updateConfigFromMap smallGo prior noRulesMap i) =
        (ruleSetting.field i).ty.read smallGo (noRules i) := by
  obtain ⟨hforgets, hrestores⟩ := history_independent_iff smallGo smallGo_laws ruleSetting
  constructor
  · have hlaw := hforgets (fun _ ↦ some fullText) rules fullText rfl rfl fullText_valid
    exact hlaw.mpr fullText_given
  · refine (hrestores noRules noRulesMap rfl fun i j hj ↦ ?_).mpr fun i ↦ ?_
    · obtain rfl := Option.some.inj hj
      rfl
    · have hexported : (ruleSetting.field i).exported := rfl
      rw [if_pos hexported]
      exact ⟨fun items hitems ↦ (by cases hitems), fun items hitems ↦ by cases hitems⟩

theorem history_dependent : ¬ ∀ (go : Go), go.Laws → ∀ (T : ConfigType)
    (m : String → Option String) (i : Fin T.numField) (strValue : String), (T.field i).exported →
      m (T.field i).key = some strValue → ValidText go (T.field i).ty strValue →
        ∀ config config' : T.Config go, (T.field i).ty.read go (updateConfigFromMap go config m i) =
          (T.field i).ty.read go (updateConfigFromMap go config' m i) := by
  intro hall
  have hforgets := fun c c' ↦ hall smallGo smallGo_laws ruleSetting (fun _ ↦ some partText) rules
    partText rfl rfl partText_valid (fun _ ↦ c) (fun _ ↦ c')
  obtain ⟨j, hj, hcovers⟩ := (setField_forgets_iff smallGo_laws partText_valid).mp hforgets
  obtain rfl : partJson = j := Option.some.inj hj
  rcases hcovers with hnull | hempty | ⟨items, hlast, hitems⟩
  · cases List.mem_singleton.mp hnull
  · cases List.mem_singleton.mp hempty
  · obtain rfl := Json.arr.inj (Option.some.inj hlast)
    obtain ⟨j, hpath, _⟩ := hitems 0 Nat.one_pos (1 : Fin 2)
    cases hpath

end Instances

end AllAiTools.NewApi.Setting
