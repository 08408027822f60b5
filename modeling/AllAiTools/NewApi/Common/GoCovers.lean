import AllAiTools.NewApi.Common.GoDecode

namespace AllAiTools.NewApi.Common.GoJson

section Covers

def Json.item (k : ℕ) : Json → Option Json
  | .arr items => items[k]?
  | _ => none

variable (go : Go)

/-- Decoding the values one after another leaves nothing of what stood there before: every scalar is
given, every field of a struct, and a map is not added to. -/
def Ty.Covers : Ty → List Json → Prop
  | .scalar _ => fun js ↦ ∃ j ∈ js, j ≠ .null
  | .ptr t => fun js ↦ .null ∈ js ∨ js ≠ [] ∧ t.Covers js
  | .slice t => fun js ↦ .null ∈ js ∨ .arr [] ∈ js ∨ ∃ items, js.getLast? = some (.arr items) ∧
      ∀ k < items.length, t.Covers (js.filterMap (Json.item k))
  | .map _ => fun js ↦ .null ∈ js
  | .struct tag field => fun js ↦ ∀ i, (field i).Covers (js.flatMap (select go tag i))

end Covers

section Steps

variable {α β : Type}

/-- Where one of the steps forgets what was before, so does the whole. -/
theorem foldl_reset {f : α → β → α} {js : List β} {j : β} (hj : j ∈ js)
    (hreset : ∀ c c', f c j = f c' j) (c c' : α) : js.foldl f c = js.foldl f c' := by
  obtain ⟨before, after, rfl⟩ := List.append_of_mem hj
  rw [List.foldl_append, List.foldl_append, List.foldl_cons, List.foldl_cons, hreset]

theorem foldl_flatMap_eq {γ : Type} {f : α → β → α} {g : γ → List β} {js : List γ} (c : α) :
    js.foldl (fun c j ↦ (g j).foldl f c) c = (js.flatMap g).foldl f c := by
  induction js generalizing c with
  | nil => rfl
  | cons j js ih => rw [List.foldl_cons, ih, List.flatMap_cons, List.foldl_append]

variable {decode : Json → α → α} {zero : α}

theorem getD_decodeItems (items : List Json) (memory : List α) (k : ℕ) :
    (decodeItems decode zero items memory).getD k zero =
      (items[k]?.elim id decode) (memory.getD k zero) := by
  induction items generalizing memory k with
  | nil => rfl
  | cons j items ih =>
    cases k with
    | zero => cases memory <;> rfl
    | succ k =>
      rw [decodeItems, List.getD_cons_succ, ih, List.getElem?_cons_succ]
      cases memory <;> rfl

theorem length_le_decodeItems (items : List Json) (memory : List α) :
    items.length ≤ (decodeItems decode zero items memory).length := by
  induction items generalizing memory with
  | nil => exact Nat.zero_le _
  | cons j items ih => exact Nat.succ_le_succ (ih memory.tail)

end Steps

section Kinds

variable {go : Go} {t : Ty}

theorem decodeAll_cons (j : Json) (js : List Json) (c : t.Cell go) :
    t.decodeAll go (j :: js) c = t.decodeAll go js (t.decode go j c) := rfl

theorem decodeAll_append (js js' : List Json) (c : t.Cell go) :
    t.decodeAll go (js ++ js') c = t.decodeAll go js' (t.decodeAll go js c) :=
  List.foldl_append

theorem decode_scalar_null {kind : Scalar} (c : (Ty.scalar kind).Cell go) :
    (Ty.scalar kind).decode go .null c = c := by
  cases kind <;> rfl

/-- Nulls leave a scalar as it is. -/
theorem decodeAll_scalar {kind : Scalar} {js : List Json} (h : ∀ j ∈ js, j = .null)
    (c : (Ty.scalar kind).Cell go) : (Ty.scalar kind).decodeAll go js c = c := by
  induction js with
  | nil => rfl
  | cons j js ih =>
    obtain ⟨rfl, hjs⟩ := List.forall_mem_cons.mp h
    rw [decodeAll_cons, decode_scalar_null]
    exact ih hjs

theorem decode_ptr {j : Json} (hj : j ≠ .null) (c : (Ty.ptr t).Cell go) :
    (Ty.ptr t).decode go j c = some (t.decode go j (Option.getD c (t.zero go))) := by
  cases j with
  | null => exact absurd rfl hj
  | _ => rfl

theorem decodeAll_ptr {js : List Json} (hnull : .null ∉ js) (c : t.Cell go) :
    (Ty.ptr t).decodeAll go js (some c) = some (t.decodeAll go js c) := by
  induction js generalizing c with
  | nil => rfl
  | cons j js ih =>
    obtain ⟨hj, hjs⟩ := not_or.mp (List.mem_cons.not.mp hnull)
    have hstep : (Ty.ptr t).decode go j (some c) = some (t.decode go j c) :=
      decode_ptr (Ne.symm hj) _
    exact (congrArg ((Ty.ptr t).decodeAll go js) hstep).trans (ih hjs _)

theorem decodeAll_struct {n : ℕ} {tag : Fin n → Tag} {field : Fin n → Ty} (js : List Json)
    (c : (Ty.struct tag field).Cell go) (i : Fin n) :
    (Ty.struct tag field).decodeAll go js c i =
      (field i).decodeAll go (js.flatMap (select go tag i)) (c i) := by
  induction js generalizing c with
  | nil => rfl
  | cons j js ih =>
    rw [decodeAll_cons, ih, List.flatMap_cons, decodeAll_append]
    rfl

/-- The memory of a slice, behind its end too. -/
def memory (c : (Ty.slice t).Cell go) : List (t.Cell go) := Option.elim c [] fun s ↦ s.1 ++ s.2

theorem decode_slice {items : List Json} (hitems : items ≠ []) (c : (Ty.slice t).Cell go) :
    (Ty.slice t).decode go (.arr items) c =
      some ((decodeItems (t.decode go) (t.zero go) items (memory c)).take items.length,
        (decodeItems (t.decode go) (t.zero go) items (memory c)).drop items.length) := by
  cases items with
  | nil => exact absurd rfl hitems
  | cons j items => rfl

theorem memory_decode {items : List Json} (hitems : items ≠ []) (c : (Ty.slice t).Cell go) :
    memory ((Ty.slice t).decode go (.arr items) c) =
      decodeItems (t.decode go) (t.zero go) items (memory c) := by
  rw [decode_slice hitems]
  exact List.take_append_drop _ _

/-- Each place of a slice's memory goes through the items at that place. -/
theorem memory_decodeAll {js : List Json} (hjs : ∀ j ∈ js, ∃ items, items ≠ [] ∧ j = .arr items)
    (c : (Ty.slice t).Cell go) (k : ℕ) :
    (memory ((Ty.slice t).decodeAll go js c)).getD k (t.zero go) =
      t.decodeAll go (js.filterMap (Json.item k)) ((memory c).getD k (t.zero go)) := by
  induction js generalizing c with
  | nil => rfl
  | cons j js ih =>
    obtain ⟨⟨items, hitems, rfl⟩, hjs'⟩ := List.forall_mem_cons.mp hjs
    have hitem : Json.item k (.arr items) = items[k]? := rfl
    rw [decodeAll_cons, ih hjs', memory_decode hitems, getD_decodeItems, List.filterMap_cons, hitem]
    cases items[k]? <;> rfl

theorem decodeAll_slice {js : List Json} {items : List Json} (hlast : js.getLast? = some (.arr items))
    (hitems : items ≠ []) (c : (Ty.slice t).Cell go) :
    ∃ s : List (t.Cell go) × List (t.Cell go), (Ty.slice t).decodeAll go js c = some s ∧
      s.1.length = items.length := by
  obtain ⟨before, rfl⟩ := List.getLast?_eq_some_iff.mp hlast
  rw [decodeAll_append, decodeAll_cons, decode_slice hitems]
  refine ⟨_, rfl, ?_⟩
  rw [List.length_take]
  exact Nat.min_eq_left (length_le_decodeItems _ _)

theorem foldl_insert_of_notMem {members : List (String × Json)} {key : String}
    (hkey : key ∉ members.map (·.1)) (value : Json → t.Cell go) (entries : Entries (t.Cell go)) :
    (members.foldl (fun entries member ↦ entries.insert member.1 (value member.2)) entries)[key]? =
      entries[key]? := by
  induction members generalizing entries with
  | nil => rfl
  | cons member members ih =>
    obtain ⟨hne, hkey'⟩ := not_or.mp (List.mem_cons.not.mp hkey)
    rw [List.foldl_cons, ih hkey', Std.ExtTreeMap.getElem?_insert, if_neg]
    exact fun heq ↦ hne (Std.LawfulEqCmp.eq_of_compare heq).symm

end Kinds

section Forgets

variable (go : Go)

/-- Whatever stood in a variable before, after the values it is the same. -/
def Ty.Forgets (t : Ty) (js : List Json) : Prop :=
  ∀ c c', t.read go (t.decodeAll go js c) = t.read go (t.decodeAll go js c')

variable {go} {t : Ty} {js : List Json}

theorem Json.isNull_iff {j : Json} : j.isNull ↔ j = .null := by
  cases j <;> simp [Json.isNull]

theorem forgets_of_reset {j : Json} (hj : j ∈ js)
    (hreset : ∀ c c', t.decode go j c = t.decode go j c') : t.Forgets go js :=
  fun c c' ↦ congrArg (t.read go) (foldl_reset hj hreset c c')

theorem forgets_scalar (laws : go.Laws) {kind : Scalar}
    (hvalid : ∀ j ∈ js, (Ty.scalar kind).valid go j) :
    (Ty.scalar kind).Forgets go js ↔ (Ty.scalar kind).Covers go js := by
  constructor
  · intro hforgets
    by_contra hcovers
    have hnull : ∀ j ∈ js, j = .null := fun j hj ↦ by
      by_contra hne
      exact hcovers ⟨j, hj, hne⟩
    have hsame := hforgets (kind.one go) (kind.zero go)
    rw [decodeAll_scalar hnull, decodeAll_scalar hnull] at hsame
    exact kind.one_ne_zero laws hsame
  · rintro ⟨j, hj, hne⟩
    refine forgets_of_reset hj fun c c' ↦ ?_
    have hsome : (kind.decode go j).isSome := by
      rcases Bool.or_eq_true_iff.mp (hvalid j hj) with hnull | hsome
      · exact absurd (Json.isNull_iff.mp hnull) hne
      · exact hsome
    obtain ⟨v, hv⟩ := Option.isSome_iff_exists.mp hsome
    have hset : ∀ c, (Ty.scalar kind).decode go j c = v := fun c ↦ by
      have hdecode : (Ty.scalar kind).decode go j c = (kind.decode go j).getD c := rfl
      rw [hdecode, hv, Option.getD_some]
    rw [hset, hset]

theorem forgets_ptr (ih : ∀ js, (∀ j ∈ js, t.valid go j) → (t.Forgets go js ↔ t.Covers go js))
    (hvalid : ∀ j ∈ js, (Ty.ptr t).valid go j) :
    (Ty.ptr t).Forgets go js ↔ (Ty.ptr t).Covers go js := by
  by_cases hnull : .null ∈ js
  · exact iff_of_true (forgets_of_reset hnull fun _ _ ↦ rfl) (Or.inl hnull)
  have hvalid' : ∀ j ∈ js, t.valid go j := fun j hj ↦ by
    rcases Bool.or_eq_true_iff.mp (hvalid j hj) with hisNull | hj'
    · exact absurd (Json.isNull_iff.mp hisNull ▸ hj) hnull
    · exact hj'
  rw [show (Ty.ptr t).Covers go js ↔ js ≠ [] ∧ t.Covers go js from or_iff_right hnull, ← ih js hvalid']
  cases js with
  | nil =>
    refine iff_of_false (fun hforgets ↦ ?_) fun h ↦ h.1 rfl
    have hsame : (none : Option (t.Value go)) = some (t.read go (t.zero go)) :=
      hforgets none (some (t.zero go))
    cases hsame
  | cons j js =>
    have hj : j ≠ .null := fun heq ↦ hnull (heq ▸ List.mem_cons_self)
    have hrest : .null ∉ js := fun hmem ↦ hnull (List.mem_cons_of_mem _ hmem)
    have hall : ∀ c : (Ty.ptr t).Cell go, (Ty.ptr t).read go ((Ty.ptr t).decodeAll go (j :: js) c) =
        some (t.read go (t.decodeAll go (j :: js) (Option.getD c (t.zero go)))) := by
      intro c
      rw [decodeAll_cons, decode_ptr hj]
      exact congrArg ((Ty.ptr t).read go) (decodeAll_ptr hrest _)
    constructor
    · intro hforgets
      refine ⟨List.cons_ne_nil j js, fun c c' ↦ ?_⟩
      have hsame := hforgets (some c) (some c')
      rw [hall, hall] at hsame
      exact Option.some.inj hsame
    · rintro ⟨_, hforgets⟩ c c'
      rw [hall, hall, hforgets]

/-- Keys that no object has stay in a map. -/
theorem decodeAll_map (hvalid : ∀ j ∈ js, (Ty.map t).valid go j) (hnull : .null ∉ js) :
    ∃ keys : List String, ∀ key ∉ keys, ∀ entries : Entries (t.Cell go), ∃ entries' : Entries (t.Cell go),
      (Ty.map t).decodeAll go js (some entries) = some entries' ∧ entries'[key]? = entries[key]? := by
  induction js with
  | nil => exact ⟨[], fun _ _ entries ↦ ⟨entries, rfl, rfl⟩⟩
  | cons j js ih =>
    obtain ⟨hj, hjs⟩ := List.forall_mem_cons.mp hvalid
    obtain ⟨hne, hnull'⟩ := not_or.mp (List.mem_cons.not.mp hnull)
    obtain ⟨keys, hkeys⟩ := ih hjs hnull'
    cases j with
    | null => exact absurd rfl hne
    | obj members =>
      refine ⟨members.map (·.1) ++ keys, fun key hkey entries ↦ ?_⟩
      obtain ⟨hmembers, hrest⟩ := not_or.mp (List.mem_append.not.mp hkey)
      obtain ⟨entries', hdecode, hsame⟩ := hkeys key hrest (members.foldl (fun entries member ↦
        entries.insert member.1 (t.decode go member.2 (t.zero go))) entries)
      refine ⟨entries', hdecode, hsame.trans ?_⟩
      exact foldl_insert_of_notMem hmembers (fun j ↦ t.decode go j (t.zero go)) entries
    | _ => cases hj

theorem forgets_map (hvalid : ∀ j ∈ js, (Ty.map t).valid go j) :
    (Ty.map t).Forgets go js ↔ (Ty.map t).Covers go js := by
  by_cases hnull : .null ∈ js
  · exact iff_of_true (forgets_of_reset hnull fun _ _ ↦ rfl) hnull
  refine iff_of_false (fun hforgets ↦ ?_) hnull
  obtain ⟨keys, hkeys⟩ := decodeAll_map hvalid hnull
  obtain ⟨key, hkey⟩ := Infinite.exists_notMem_finset keys.toFinset
  rw [List.mem_toFinset] at hkey
  obtain ⟨with', hwith, hin⟩ := hkeys key hkey ((∅ : Entries (t.Cell go)).insert key (t.zero go))
  obtain ⟨without, hwithout, hout⟩ := hkeys key hkey ∅
  have hsame := hforgets (some ((∅ : Entries (t.Cell go)).insert key (t.zero go))) (some ∅)
  rw [hwith, hwithout] at hsame
  have hentries : with'.map (fun _ c ↦ t.read go c) = without.map (fun _ c ↦ t.read go c) :=
    Option.some.inj hsame
  have hlookup := congrArg (fun entries : Entries (t.Value go) ↦ entries[key]?) hentries
  simp [Std.ExtTreeMap.getElem?_map, hin, hout] at hlookup

theorem valid_select {n : ℕ} {tag : Fin n → Tag} {field : Fin n → Ty}
    (hvalid : ∀ j ∈ js, (Ty.struct tag field).valid go j) (i : Fin n) :
    ∀ j ∈ js.flatMap (select go tag i), (field i).valid go j := by
  intro j hj
  obtain ⟨whole, hwhole, hselect⟩ := List.mem_flatMap.mp hj
  have hvalid' := hvalid whole hwhole
  cases whole with
  | obj members =>
    simp only [Ty.valid] at hvalid'
    exact List.all_eq_true.mp (List.all_eq_true.mp hvalid' i (List.mem_finRange i)) j hselect
  | _ => cases hselect

theorem forgets_struct {n : ℕ} {tag : Fin n → Tag} {field : Fin n → Ty}
    (ih : ∀ i js, (∀ j ∈ js, (field i).valid go j) →
      ((field i).Forgets go js ↔ (field i).Covers go js))
    (hvalid : ∀ j ∈ js, (Ty.struct tag field).valid go j) :
    (Ty.struct tag field).Forgets go js ↔ (Ty.struct tag field).Covers go js := by
  have hread : ∀ c i, (Ty.struct tag field).read go ((Ty.struct tag field).decodeAll go js c) i =
      (field i).read go ((field i).decodeAll go (js.flatMap (select go tag i)) (c i)) :=
    fun c i ↦ congrArg ((field i).read go) (decodeAll_struct js c i)
  have hfields : (Ty.struct tag field).Covers go js ↔
      ∀ i, (field i).Forgets go (js.flatMap (select go tag i)) :=
    forall_congr' fun i ↦ (ih i _ (valid_select hvalid i)).symm
  rw [hfields]
  constructor
  · intro hforgets i c c'
    let place (c : (field i).Cell go) : (Ty.struct tag field).Cell go :=
      Function.update ((Ty.struct tag field).zero go) i c
    have hplace : ∀ c, place c i = c := fun c ↦ by simp only [place, Function.update_self]
    have hsame := congrFun (hforgets (place c) (place c')) i
    rw [hread, hread, hplace, hplace] at hsame
    exact hsame
  · intro hforgets c c'
    funext i
    rw [hread, hread]
    exact hforgets i (c i) (c' i)

theorem valid_items (hvalid : ∀ j ∈ js, (Ty.slice t).valid go j) (k : ℕ) :
    ∀ j ∈ js.filterMap (Json.item k), t.valid go j := by
  intro j hj
  obtain ⟨whole, hwhole, hitem⟩ := List.mem_filterMap.mp hj
  have hvalid' := hvalid whole hwhole
  cases whole with
  | arr items => exact List.all_eq_true.mp hvalid' j (List.mem_of_getElem? hitem)
  | _ => cases hitem

/-- What is seen at a place of a slice. -/
theorem read_item {items : List Json} (hjs : ∀ j ∈ js, ∃ items, items ≠ [] ∧ j = .arr items)
    (hlast : js.getLast? = some (.arr items)) (hitems : items ≠ []) (c : (Ty.slice t).Cell go) :
    ∃ vs : List (t.Value go), (Ty.slice t).read go ((Ty.slice t).decodeAll go js c) = some vs ∧
      vs.length = items.length ∧ ∀ k < items.length, vs[k]? = some (t.read go
        (t.decodeAll go (js.filterMap (Json.item k)) ((memory c).getD k (t.zero go)))) := by
  obtain ⟨s, hs, hlength⟩ := decodeAll_slice hlast hitems c
  refine ⟨s.1.map (t.read go), congrArg ((Ty.slice t).read go) hs, ?_, fun k hk ↦ ?_⟩
  · rw [List.length_map, hlength]
  · have hmemory := memory_decodeAll hjs c k
    rw [hs, memory, Option.elim_some, List.getD_append _ _ _ _ (hlength ▸ hk),
      List.getD_eq_getElem _ _ (hlength ▸ hk)] at hmemory
    rw [List.getElem?_map, List.getElem?_eq_getElem (hlength ▸ hk), Option.map_some, hmemory]

theorem forgets_slice (ih : ∀ js, (∀ j ∈ js, t.valid go j) → (t.Forgets go js ↔ t.Covers go js))
    (hvalid : ∀ j ∈ js, (Ty.slice t).valid go j) :
    (Ty.slice t).Forgets go js ↔ (Ty.slice t).Covers go js := by
  by_cases hnull : .null ∈ js
  · exact iff_of_true (forgets_of_reset hnull fun _ _ ↦ rfl) (Or.inl hnull)
  by_cases hempty : .arr [] ∈ js
  · exact iff_of_true (forgets_of_reset hempty fun _ _ ↦ rfl) (Or.inr (Or.inl hempty))
  have hcovers : (Ty.slice t).Covers go js ↔ ∃ items, js.getLast? = some (.arr items) ∧
      ∀ k < items.length, t.Covers go (js.filterMap (Json.item k)) :=
    (or_iff_right hnull).trans (or_iff_right hempty)
  rw [hcovers]
  have hjs : ∀ j ∈ js, ∃ items, items ≠ [] ∧ j = .arr items := by
    intro j hj
    have hvalid' := hvalid j hj
    cases j with
    | null => exact absurd hj hnull
    | arr items => exact ⟨items, fun heq ↦ hempty (heq ▸ hj), rfl⟩
    | _ => cases hvalid'
  cases hlast : js.getLast? with
  | none =>
    rw [List.getLast?_eq_none_iff] at hlast
    subst hlast
    refine iff_of_false (fun hforgets ↦ ?_) fun ⟨_, hitems, _⟩ ↦ by cases hitems
    have hsame : (none : Option (List (t.Value go))) = some [] := hforgets none (some ([], []))
    cases hsame
  | some last =>
    obtain ⟨items, hitems, rfl⟩ := hjs last (List.mem_of_getLast? hlast)
    constructor
    · intro hforgets
      refine ⟨items, rfl, fun k hk ↦ (ih _ (valid_items hvalid k)).mp fun c c' ↦ ?_⟩
      let place (c : t.Cell go) : (Ty.slice t).Cell go :=
        some (List.replicate k (t.zero go) ++ [c], [])
      have hplace : ∀ c, (memory (place c)).getD k (t.zero go) = c := fun c ↦ by
        simp [place, memory]
      obtain ⟨vs, hread, _, hvs⟩ := read_item hjs hlast hitems (place c)
      obtain ⟨vs', hread', _, hvs'⟩ := read_item hjs hlast hitems (place c')
      have hsame := hforgets (place c) (place c')
      rw [hread, hread'] at hsame
      have hitem := hvs k hk
      rw [Option.some.inj hsame, hvs' k hk, hplace, hplace] at hitem
      exact (Option.some.inj hitem).symm
    · rintro ⟨_, hsome, hforgets⟩ c c'
      obtain rfl : items = _ := by simpa using hsome
      obtain ⟨vs, hread, hlength, hvs⟩ := read_item hjs hlast hitems c
      obtain ⟨vs', hread', hlength', hvs'⟩ := read_item hjs hlast hitems c'
      rw [hread, hread']
      refine congrArg some (List.ext_getElem? fun k ↦ ?_)
      by_cases hk : k < items.length
      · rw [hvs k hk, hvs' k hk, (ih _ (valid_items hvalid k)).mpr (hforgets k hk)]
      · rw [List.getElem?_eq_none (by omega), List.getElem?_eq_none (by omega)]

/-- Values that are valid make a variable forget what it was exactly where they cover its type. -/
theorem forgets_iff (laws : go.Laws) (t : Ty) (js : List Json) (hvalid : ∀ j ∈ js, t.valid go j) :
    t.Forgets go js ↔ t.Covers go js := by
  induction t generalizing js with
  | scalar kind => exact forgets_scalar laws hvalid
  | ptr t ih => exact forgets_ptr ih hvalid
  | slice t ih => exact forgets_slice ih hvalid
  | map t => exact forgets_map hvalid
  | struct tag field ih => exact forgets_struct ih hvalid

end Forgets

end AllAiTools.NewApi.Common.GoJson
