import AllAiTools.Foundation.Dict
import AllAiTools.Foundation.Escaping

namespace AllAiTools.NewApi.Relay.LegacyOverride

open Foundation Foundation.Escaping

abbrev Text := List Char

variable {α : Type}

section Override

/-- The characters before which `escapeSjsonLiteralKey` puts a backslash. -/
def escapedChars : Text := ['.', '*', '?', '\\']

def escapeSjsonLiteralKey (key : Text) : Text :=
  if key.any (· ∈ escapedChars) then escape '\\' escapedChars key else key

/-- `sjson.SetBytes`, on objects with values of type `α`. -/
abbrev SetBytes (α : Type) := Dict Text α → Text → α → Except String (Dict Text α)

variable (setBytes : SetBytes α)

/-- The loop over the overrides in the order in which the map gives them. -/
def applyEntries : Dict Text α → List (Text × α) → Except String (Dict Text α)
  | result, [] => .ok result
  | result, (key, value) :: entries =>
    match setBytes result (escapeSjsonLiteralKey key) value with
    | .error err => .error err
    | .ok next => applyEntries next entries

/-- The function, for one order of the map. -/
def applyOperationsLegacy (jsonData : Dict Text α) (paramOverride : List (Text × α)) :
    Except String (Dict Text α) :=
  if paramOverride.length = 0 then .ok jsonData else applyEntries setBytes jsonData paramOverride

/-- What `reqMap[key] = value` does for the entries. -/
def reqMap (jsonData : Dict Text α) (paramOverride : List (Text × α)) : Dict Text α :=
  paramOverride.foldl (fun req entry ↦ req.set entry.1 entry.2) jsonData

end Override

section Paths

/-- The characters outside of a key's name, without a backslash before them. -/
def complexChars : Text := ['|', '#', '@', '*', '?']

def specialChars : Text := '.' :: complexChars

/-- The result has a new value at a key, and else what the object has. -/
def Sets (data : Dict Text α) (key : Text) (value : α) (result : Except String (Dict Text α)) : Prop :=
  ∃ next, result = .ok next ∧ next.get = Function.update data.get key (some value)

/-- The path syntax, as far as it is about paths of one part: a path is not empty; a part names the
key that it spells, with a backslash before a character that has a meaning; a colon before it makes
it a key also where it is a number; and what a path with other characters selects is among what is
there. -/
structure Documented (setBytes : SetBytes α) : Prop where
  empty : ∀ data value, ∃ err, setBytes data [] value = .error err
  part : ∀ data c path key value, c ≠ ':' → Spells '\\' specialChars (c :: path) key →
    Sets data key value (setBytes data (c :: path) value)
  forced : ∀ data path key value, Spells '\\' specialChars path key →
    Sets data key value (setBytes data (':' :: path) value)
  complex : ∀ data path value next, Bare '\\' complexChars path →
    setBytes data path value = .ok next → ∀ key ∈ next.keys, key ∈ data.keys

end Paths

section Property

/-- Whatever the order of the map, the result has the values that assigning them would give. -/
def SetsLiterally (setBytes : SetBytes α) (jsonData paramOverride : Dict Text α) : Prop :=
  ∀ entries, entries.Perm paramOverride.items →
    ∃ result, applyOperationsLegacy setBytes jsonData entries = .ok result ∧
      result.get = (reqMap jsonData paramOverride.items).get

/-- A key that is not empty, does not begin with a colon and has no `|`, `#` or `@`. -/
def Literal (key : Text) : Prop :=
  key ≠ [] ∧ key.head? ≠ some ':' ∧ ∀ c ∈ key, c ∉ ['|', '#', '@']

instance (key : Text) : Decidable (Literal key) :=
  inferInstanceAs (Decidable (key ≠ [] ∧ key.head? ≠ some ':' ∧ ∀ c ∈ key, c ∉ ['|', '#', '@']))

end Property

section Keys

theorem escapeSjsonLiteralKey_eq (key : Text) :
    escapeSjsonLiteralKey key = escape '\\' escapedChars key := by
  rw [escapeSjsonLiteralKey]
  split
  · rfl
  · rename_i h
    refine (escape_eq_self fun c hc hescaped ↦ h ?_).symm
    exact List.any_eq_true.mpr ⟨c, hc, decide_eq_true hescaped⟩

theorem escape_eq_nil {key : Text} (h : escape '\\' escapedChars key = []) : key = [] := by
  cases key with
  | nil => rfl
  | cons c key =>
    rw [escape_cons] at h
    split at h
    · cases h
    · cases h

/-- Only a key that begins with a colon is written with one at its beginning. -/
theorem escape_eq_colon {key path : Text} (h : escape '\\' escapedChars key = ':' :: path) :
    ∃ rest, key = ':' :: rest ∧ path = escape '\\' escapedChars rest := by
  cases key with
  | nil => cases h
  | cons c key =>
    rw [escape_cons] at h
    split at h
    · cases h
    · obtain ⟨rfl, rfl⟩ := List.cons.inj h
      exact ⟨key, rfl, rfl⟩

theorem spells_escape_of_not_complex {key : Text} (h : ∀ c ∈ key, c ∉ ['|', '#', '@']) :
    Spells '\\' specialChars (escape '\\' escapedChars key) key := by
  refine spells_escape (by decide) fun c hc hspecial ↦ ?_
  have hnot := h c hc
  simp only [specialChars, complexChars, escapedChars, List.mem_cons, List.not_mem_nil, or_false]
    at hspecial hnot ⊢
  tauto

theorem bare_escape_of_complex {key : Text} {c : Char} (hc : c ∈ key) (hcomplex : c ∈ ['|', '#', '@']) :
    Bare '\\' complexChars (escape '\\' escapedChars key) := by
  have hchars : c ∈ complexChars ∧ c ∉ escapedChars := by
    simp only [List.mem_cons, List.not_mem_nil, or_false] at hcomplex
    obtain rfl | rfl | rfl := hcomplex
    · decide
    · decide
    · decide
  exact bare_escape (by decide) hc hchars.1 hchars.2

variable {setBytes : SetBytes α} (hlib : Documented setBytes) {data next : Dict Text α} {key : Text}
  {value : α}

include hlib

theorem sets_of_literal (h : Literal key) :
    Sets data key value (setBytes data (escapeSjsonLiteralKey key) value) := by
  obtain ⟨hne, hcolon, hcomplex⟩ := h
  rw [escapeSjsonLiteralKey_eq]
  have hspells := spells_escape_of_not_complex hcomplex
  cases hpath : escape '\\' escapedChars key with
  | nil => exact absurd (escape_eq_nil hpath) hne
  | cons c path =>
    rw [hpath] at hspells
    refine hlib.part data c path key value (fun hc ↦ hcolon ?_) hspells
    rw [hc] at hpath
    obtain ⟨rest, rfl, -⟩ := escape_eq_colon hpath
    rfl

/-- A new key is that of a literal entry, or that of an entry without its colon. -/
theorem mem_keys_setBytes (h : setBytes data (escapeSjsonLiteralKey key) value = .ok next) {new : Text}
    (hnew : new ∈ next.keys) : new ∈ data.keys ∨ (Literal key ∧ new = key) ∨ key = ':' :: new := by
  have hsets : ∀ {k}, Sets data k value (setBytes data (escapeSjsonLiteralKey key) value) →
      new ∈ data.keys ∨ new = k := by
    intro k hsets
    obtain ⟨next', hok, hget⟩ := hsets
    obtain rfl := Except.ok.inj (h.symm.trans hok)
    rw [← Dict.get_isSome, hget, Function.update_apply] at hnew
    split at hnew
    · rename_i heq
      exact .inr heq
    · exact .inl ((data.get_isSome new).mp hnew)
  by_cases hliteral : Literal key
  · obtain hold | heq := hsets (sets_of_literal hlib hliteral)
    · exact .inl hold
    · exact .inr (.inl ⟨hliteral, heq⟩)
  by_cases hcomplex : ∀ c ∈ key, c ∉ ['|', '#', '@']
  · cases key with
    | nil =>
      obtain ⟨err, herr⟩ := hlib.empty data value
      rw [escapeSjsonLiteralKey_eq] at h
      cases h.symm.trans herr
    | cons c rest =>
      by_cases hc : c = ':'
      · subst hc
        have hspells := spells_escape_of_not_complex fun d hd ↦ hcomplex d (List.mem_cons_of_mem ':' hd)
        have hescape : escapeSjsonLiteralKey (':' :: rest) = ':' :: escape '\\' escapedChars rest := by
          rw [escapeSjsonLiteralKey_eq, escape_cons]
          rfl
        obtain hold | heq := hsets (hescape ▸ hlib.forced data _ rest value hspells)
        · exact .inl hold
        · exact .inr (.inr (by rw [heq]))
      · refine absurd ⟨List.cons_ne_nil c rest, fun hhead ↦ hc ?_, hcomplex⟩ hliteral
        exact Option.some.inj hhead
  · obtain ⟨c, hc, hcomplex⟩ : ∃ c ∈ key, c ∈ ['|', '#', '@'] := by
      by_contra hnone
      exact hcomplex fun c hc hcomplex ↦ hnone ⟨c, hc, hcomplex⟩
    rw [escapeSjsonLiteralKey_eq] at h
    exact .inl (hlib.complex data _ value next (bare_escape_of_complex hc hcomplex) h new hnew)

end Keys

section Loop

variable {setBytes : SetBytes α} (hlib : Documented setBytes)

include hlib

/-- Literal keys are assigned one after the other. -/
theorem applyEntries_of_literal {entries : List (Text × α)} (h : ∀ entry ∈ entries, Literal entry.1)
    {data data' : Dict Text α} (hget : data.get = data'.get) :
    ∃ result, applyEntries setBytes data entries = .ok result ∧ result.get = (reqMap data' entries).get := by
  induction entries generalizing data data' with
  | nil => exact ⟨data, rfl, hget⟩
  | cons entry entries ih =>
    obtain ⟨hentry, hentries⟩ := List.forall_mem_cons.mp h
    obtain ⟨next, hok, hnext⟩ : Sets data entry.1 entry.2 _ := sets_of_literal hlib hentry
    have hsame : next.get = (data'.set entry.1 entry.2).get := by rw [hnext, hget, Dict.get_set]
    obtain ⟨result, hresult, hgets⟩ := ih hentries hsame
    refine ⟨result, ?_, hgets⟩
    rw [applyEntries, hok]
    exact hresult

theorem mem_keys_applyEntries {entries : List (Text × α)} {data result : Dict Text α}
    (h : applyEntries setBytes data entries = .ok result) {new : Text} (hnew : new ∈ result.keys) :
    new ∈ data.keys ∨ ∃ key ∈ entries.map Prod.fst, (Literal key ∧ new = key) ∨ key = ':' :: new := by
  induction entries generalizing data with
  | nil =>
    obtain rfl := Except.ok.inj h
    exact .inl hnew
  | cons entry entries ih =>
    rw [applyEntries] at h
    split at h
    · cases h
    · rename_i next hok
      rw [List.map_cons]
      obtain hnext | ⟨key, hkey, heq⟩ := ih h
      · obtain hold | heq := mem_keys_setBytes hlib hok hnext
        · exact .inl hold
        · exact .inr ⟨entry.1, List.mem_cons_self, heq⟩
      · exact .inr ⟨key, List.mem_cons_of_mem entry.1 hkey, heq⟩

omit hlib in
theorem mem_keys_reqMap {entries : List (Text × α)} {data : Dict Text α} {key : Text}
    (h : key ∈ entries.map Prod.fst ∨ key ∈ data.keys) : key ∈ (reqMap data entries).keys := by
  induction entries generalizing data with
  | nil => exact h.resolve_left List.not_mem_nil
  | cons entry entries ih =>
    refine ih ?_
    rw [List.map_cons, List.mem_cons] at h
    obtain (hkey | hkey) | hkey := h
    · exact .inr ((data.mem_keys_set entry.1 entry.2).mpr (.inl hkey))
    · exact .inl hkey
    · exact .inr ((data.mem_keys_set entry.1 entry.2).mpr (.inr hkey))

/-- A key that is not literal is missing, unless another one, with a colon more, gives it. -/
theorem not_setsLiterally {jsonData paramOverride : Dict Text α}
    (hfresh : ∀ key ∈ paramOverride.keys, key ∉ jsonData.keys) {key : Text} (hkey : key ∈ paramOverride.keys)
    (hliteral : ¬ Literal key) (hlongest : (':' :: key) ∉ paramOverride.keys) :
    ¬ SetsLiterally setBytes jsonData paramOverride := by
  intro h
  obtain ⟨result, hok, hget⟩ := h paramOverride.items (.refl _)
  have hentries : paramOverride.items.length ≠ 0 := by
    rw [Ne, List.length_eq_zero_iff]
    intro hnil
    rw [Dict.keys, hnil] at hkey
    cases hkey
  rw [applyOperationsLegacy, if_neg hentries] at hok
  have hmem : key ∈ result.keys := by
    rw [← Dict.get_isSome, hget, Dict.get_isSome]
    exact mem_keys_reqMap (.inl hkey)
  obtain hold | ⟨from', hfrom, hsame | hcolon⟩ := mem_keys_applyEntries hlib hok hmem
  · exact hfresh key hkey hold
  · exact hliteral (hsame.2 ▸ hsame.1)
  · exact hlongest (hcolon ▸ hfrom)

omit hlib in
theorem get_reqMap (data : Dict Text α) (entries : List (Text × α)) :
    (reqMap data entries).get =
      entries.foldl (fun (get : Text → Option α) entry ↦ Function.update get entry.1 (some entry.2))
        data.get := by
  induction entries generalizing data with
  | nil => rfl
  | cons entry entries ih => rw [List.foldl_cons, ← Dict.get_set, ← ih, reqMap, List.foldl_cons, reqMap]

omit hlib in
/-- Entries of a map may be assigned in any order. -/
theorem get_reqMap_perm (data paramOverride : Dict Text α) {entries : List (Text × α)}
    (h : entries.Perm paramOverride.items) :
    (reqMap data entries).get = (reqMap data paramOverride.items).get := by
  rw [get_reqMap, get_reqMap]
  refine (h.symm.foldl_eq' (fun entry hentry entry' hentry' get ↦ ?_) data.get).symm
  by_cases hkey : entry.1 = entry'.1
  · rw [List.inj_on_of_nodup_map paramOverride.nodup hentry hentry' hkey]
  · exact Function.update_comm hkey _ _ get

theorem setsLiterally_of_literal {paramOverride : Dict Text α}
    (h : ∀ key ∈ paramOverride.keys, Literal key) (jsonData : Dict Text α) :
    SetsLiterally setBytes jsonData paramOverride := by
  intro entries hperm
  rw [← get_reqMap_perm jsonData paramOverride hperm, applyOperationsLegacy]
  split
  · rename_i hnil
    rw [List.length_eq_zero_iff.mp hnil]
    exact ⟨jsonData, rfl, rfl⟩
  · refine applyEntries_of_literal hlib (fun entry hentry ↦ h entry.1 ?_) rfl
    exact List.mem_map_of_mem (hperm.mem_iff.mp hentry)

/-- On an object that has none of the keys, only literal keys are set. -/
theorem literal_of_setsLiterally {jsonData paramOverride : Dict Text α}
    (hfresh : ∀ key ∈ paramOverride.keys, key ∉ jsonData.keys)
    (h : SetsLiterally setBytes jsonData paramOverride) : ∀ key ∈ paramOverride.keys, Literal key := by
  by_contra hnot
  have hbad : (paramOverride.keys.toFinset.filter fun key ↦ ¬ Literal key).Nonempty := by
    obtain ⟨key, hkey, hliteral⟩ : ∃ key ∈ paramOverride.keys, ¬ Literal key := by
      by_contra hnone
      exact hnot fun key hkey ↦ by_contra fun hliteral ↦ hnone ⟨key, hkey, hliteral⟩
    exact ⟨key, Finset.mem_filter.mpr ⟨List.mem_toFinset.mpr hkey, hliteral⟩⟩
  obtain ⟨key, hkey, hlongest⟩ := Finset.exists_max_image _ List.length hbad
  obtain ⟨hkey, hliteral⟩ := Finset.mem_filter.mp hkey
  refine not_setsLiterally hlib hfresh (List.mem_toFinset.mp hkey) hliteral (fun hcolon ↦ ?_) h
  have hcolonBad : ¬ Literal (':' :: key) := fun hcolonLiteral ↦ hcolonLiteral.2.1 rfl
  have hle := hlongest (':' :: key) (Finset.mem_filter.mpr ⟨List.mem_toFinset.mpr hcolon, hcolonBad⟩)
  rw [List.length_cons] at hle
  omega

end Loop

/-- A map sets its keys on every object exactly when they are literal, also on any one object that
has none of them. -/
theorem legacy_literal_iff {setBytes : SetBytes α} (hlib : Documented setBytes)
    (paramOverride : Dict Text α) :
    ((∀ jsonData, SetsLiterally setBytes jsonData paramOverride) ↔
      ∀ key ∈ paramOverride.keys, Literal key) ∧
    ∀ jsonData : Dict Text α, (∀ key ∈ paramOverride.keys, key ∉ jsonData.keys) →
      (SetsLiterally setBytes jsonData paramOverride ↔ ∀ key ∈ paramOverride.keys, Literal key) := by
  have hliteral : ∀ jsonData : Dict Text α, (∀ key ∈ paramOverride.keys, key ∉ jsonData.keys) →
      (SetsLiterally setBytes jsonData paramOverride ↔ ∀ key ∈ paramOverride.keys, Literal key) :=
    fun jsonData hfresh ↦
      ⟨literal_of_setsLiterally hlib hfresh, fun h ↦ setsLiterally_of_literal hlib h jsonData⟩
  refine ⟨⟨fun h ↦ ?_, fun h ↦ setsLiterally_of_literal hlib h⟩, hliteral⟩
  exact (hliteral Dict.empty fun key _ hkey ↦ by cases hkey).mp (h Dict.empty)

section Example

/-- A library that does what the syntax says, and changes nothing for the other paths. -/
def exampleSetBytes : SetBytes ℕ := fun data path value ↦
  match path with
  | [] => .error "path cannot be empty"
  | c :: path =>
    match unescape '\\' specialChars (if c = ':' then path else c :: path) with
    | some key => .ok (data.set key value)
    | none => .ok data

theorem exampleSetBytes_documented : Documented exampleSetBytes := by
  constructor
  · exact fun data value ↦ ⟨_, rfl⟩
  · intro data c path key value hc hspells
    refine ⟨data.set key value, ?_, data.get_set key value⟩
    rw [exampleSetBytes, if_neg hc, unescape_of_spells hspells]
  · intro data path key value hspells
    refine ⟨data.set key value, ?_, data.get_set key value⟩
    rw [exampleSetBytes, if_pos rfl, unescape_of_spells hspells]
  · intro data path value next hbare hok
    have hsub : complexChars ⊆ specialChars := List.subset_cons_self '.' complexChars
    cases path with
    | nil => cases hbare
    | cons c path =>
      have hnone : unescape '\\' specialChars (if c = ':' then path else c :: path) = none := by
        split
        · rename_i hc
          cases hbare with
          | here hmark hspecial =>
            rw [hc] at hspecial
            exact absurd hspecial (by decide)
          | plain hmark hbare => exact unescape_of_bare (hbare.mono hsub)
          | marked hbare => cases hc
        · exact unescape_of_bare (hbare.mono hsub)
      rw [exampleSetBytes, hnone] at hok
      obtain rfl := Except.ok.inj hok
      exact fun key hkey ↦ hkey

def exampleKey (key : Text) : Dict Text ℕ := Dict.empty.set key 7

theorem legacy_literal_dotted :
    SetsLiterally exampleSetBytes Dict.empty (exampleKey ['a', '.', '*', '\\']) := by
  refine (legacy_literal_iff exampleSetBytes_documented
    (exampleKey ['a', '.', '*', '\\'])).1.mpr (fun key hkey ↦ ?_) Dict.empty
  obtain rfl := List.mem_singleton.mp hkey
  exact ⟨by decide, by decide, by simp⟩

/-- A colon at the beginning of a key is lost. -/
theorem legacy_literal_not : ¬ ∀ setBytes : SetBytes ℕ, Documented setBytes →
    ∀ jsonData paramOverride, SetsLiterally setBytes jsonData paramOverride := by
  intro h
  obtain ⟨result, hok, hget⟩ :=
    h exampleSetBytes exampleSetBytes_documented Dict.empty (exampleKey [':', 'a']) _ (.refl _)
  obtain rfl : exampleKey ['a'] = result := Except.ok.inj hok
  have hmissing : (exampleKey ['a']).get [':', 'a'] = none := rfl
  have hassigned : (reqMap Dict.empty (exampleKey [':', 'a']).items).get [':', 'a'] = some 7 := rfl
  rw [hget, hassigned] at hmissing
  cases hmissing

end Example

end AllAiTools.NewApi.Relay.LegacyOverride
