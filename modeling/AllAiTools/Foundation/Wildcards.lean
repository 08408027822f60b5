import AllAiTools.Foundation.Doc

namespace AllAiTools.Foundation.Doc

variable {K S : Type} [DecidableEq K] (index : K → Option ℕ)

section Patterns

/-- A tree in which no object has two fields with one key. -/
inductive Distinct : Doc K S → Prop
  | leaf (s : S) : Distinct (.leaf s)
  | arr {items : List (Doc K S)} (h : ∀ c ∈ items, Distinct c) : Distinct (.arr items)
  | obj {fields : List (K × Doc K S)} (hkeys : (fields.map Prod.fst).Nodup)
      (h : ∀ p ∈ fields, Distinct p.2) : Distinct (.obj fields)

/-- The paths of the nodes that a pattern matches: `none` stands for every child. The last key of a
pattern need not be there in an object. -/
def matched (name : ℕ → K) (visit : List (K × Doc K S) → List K) :
    List (Option K) → Doc K S → List (List K)
  | [], _ => [[]]
  | _ :: _, .leaf _ => []
  | none :: rest, .arr items => items.zipIdx.flatMap fun p ↦
      (matched name visit rest p.1).map (name p.2 :: ·)
  | none :: rest, .obj fields => (visit fields).flatMap fun k ↦
      (((lookup fields k).map fun c ↦ matched name visit rest c).getD []).map (k :: ·)
  | some k :: rest, .arr items => (((index k).bind fun i ↦ items[i]?).map fun c ↦
      (matched name visit rest c).map (k :: ·)).getD []
  | some k :: rest, .obj fields => if rest = [] then [[k]]
      else ((lookup fields k).map fun c ↦ (matched name visit rest c).map (k :: ·)).getD []

/-- The tree without the nodes that a pattern matches, but for what an array is swept to where
every element of it is matched. -/
def swept (sweep : List (Doc K S) → List (Doc K S)) : List (Option K) → Doc K S → Doc K S
  | [], d => d
  | _ :: _, .leaf s => .leaf s
  | none :: rest, .arr items => if rest = [] then .arr (sweep items)
      else .arr (items.map (swept sweep rest))
  | none :: rest, .obj fields => if rest = [] then .obj []
      else .obj (fields.map fun p ↦ (p.1, swept sweep rest p.2))
  | some k :: rest, .arr items => if rest = [] then (Doc.arr items).removeChild index k
      else (Doc.arr items).modifyChild index (swept sweep rest) k
  | some k :: rest, .obj fields => if rest = [] then (Doc.obj fields).removeChild index k
      else (Doc.obj fields).modifyChild index (swept sweep rest) k

/-- Without the nodes that a pattern matches. -/
def wiped : List (Option K) → Doc K S → Doc K S := swept index fun _ ↦ []

/-- With a value at the nodes that a pattern matches. -/
def filled (v : Doc K S) : List (Option K) → Doc K S → Doc K S
  | [], _ => v
  | _ :: _, .leaf s => .leaf s
  | none :: rest, .arr items => .arr (items.map (filled v rest))
  | none :: rest, .obj fields => .obj (fields.map fun p ↦ (p.1, filled v rest p.2))
  | some k :: rest, .arr items => (Doc.arr items).modifyChild index (filled v rest) k
  | some k :: rest, .obj fields => if rest = [] ∧ lookup fields k = none then
        .obj (fields ++ [(k, v)])
      else .obj (modifyField (filled v rest) k fields)

/-- Every element is matched in an array with more than one. -/
def Crowded : List (Option K) → Doc K S → Prop
  | [], _ => False
  | _ :: _, .leaf _ => False
  | none :: rest, .arr items => (rest = [] ∧ 2 ≤ items.length) ∨ ∃ c ∈ items, Crowded rest c
  | none :: rest, .obj fields => ∃ p ∈ fields, Crowded rest p.2
  | some k :: rest, .arr items => ∃ c, (Doc.arr items).child index k = some c ∧ Crowded rest c
  | some k :: rest, .obj fields => ∃ c, lookup fields k = some c ∧ Crowded rest c

end Patterns

section Children

variable {index} {fields : List (K × Doc K S)} {items : List (Doc K S)} {c c' d : Doc K S} {k : K}

/-- A child gives way to another node. -/
def replaceChild (index : K → Option ℕ) : Doc K S → K → Doc K S → Doc K S
  | .leaf s, _, _ => .leaf s
  | .arr items, k, c => match index k with
    | some i => .arr (items.set i c)
    | none => .arr items
  | .obj fields, k, c => .obj (modifyField (fun _ ↦ c) k fields)

theorem modifyField_congr {f g : Doc K S → Doc K S}
    (h : ∀ c, lookup fields k = some c → f c = g c) :
    modifyField f k fields = modifyField g k fields := by
  induction fields with
  | nil => rfl
  | cons p fields ih =>
    rw [modifyField, modifyField]
    by_cases hp : p.1 = k
    · rw [if_pos hp, if_pos hp, h p.2 (by rw [lookup_cons, if_pos hp])]
    · rw [if_neg hp, if_neg hp, ih fun c hc ↦ h c (by rw [lookup_cons, if_neg hp, hc])]

theorem modifyField_modifyField (f g : Doc K S → Doc K S) (k : K) (fields : List (K × Doc K S)) :
    modifyField f k (modifyField g k fields) = modifyField (fun c ↦ f (g c)) k fields := by
  induction fields with
  | nil => rfl
  | cons p fields ih =>
    rw [modifyField, modifyField]
    by_cases hp : p.1 = k
    · rw [if_pos hp, if_pos hp, modifyField, if_pos hp]
    · rw [if_neg hp, if_neg hp, modifyField, if_neg hp, ih]

theorem child_replaceChild (h : d.child index k = some c) :
    (d.replaceChild index k c').child index k = some c' := by
  cases d with
  | leaf s => cases h
  | arr items =>
    obtain ⟨i, hi, hitem⟩ := Option.bind_eq_some_iff.mp h
    obtain ⟨hlt, -⟩ := List.getElem?_eq_some_iff.mp hitem
    simp [replaceChild, child, hi, hlt]
  | obj fields =>
    have hfield : lookup fields k = some c := h
    rw [replaceChild, child, lookup_modifyField, if_pos rfl, hfield]
    rfl

theorem replaceChild_replaceChild (c c' d : Doc K S) (k : K) :
    (d.replaceChild index k c).replaceChild index k c' = d.replaceChild index k c' := by
  cases d with
  | leaf s => rfl
  | arr items =>
    cases hi : index k with
    | none => simp [replaceChild, hi]
    | some i => simp [replaceChild, hi]
  | obj fields =>
    rw [replaceChild, replaceChild, replaceChild, modifyField_modifyField]

theorem replaceChild_self (h : d.child index k = some c) : d.replaceChild index k c = d := by
  cases d with
  | leaf s => rfl
  | arr items =>
    obtain ⟨i, hi, hitem⟩ := Option.bind_eq_some_iff.mp h
    obtain ⟨hlt, rfl⟩ := List.getElem?_eq_some_iff.mp hitem
    simp [replaceChild, hi]
  | obj fields =>
    have hfield : lookup fields k = some c := h
    rw [replaceChild, (modifyField_eq_self_iff _ k fields).mpr]
    intro c' hc'
    exact Option.some.inj (hfield.symm.trans hc')

theorem modifyChild_eq (f : Doc K S → Doc K S) (h : d.child index k = some c) :
    d.modifyChild index f k = d.replaceChild index k (f c) := by
  cases d with
  | leaf s => rfl
  | arr items =>
    obtain ⟨i, hi, hitem⟩ := Option.bind_eq_some_iff.mp h
    simp [modifyChild, replaceChild, hi, List.modify_eq_set_getElem?, hitem]
  | obj fields =>
    have hfield : lookup fields k = some c := h
    rw [modifyChild, replaceChild, modifyField_congr]
    intro c' hc'
    rw [Option.some.inj (hfield.symm.trans hc')]

end Children

section Folds

variable {index : K → Option ℕ} {op : Doc K S → List K → Option (Doc K S)} {P : List K → Prop}

/-- An operation on a path works in the child that the path leads to. -/
def Descends (index : K → Option ℕ) (op : Doc K S → List K → Option (Doc K S))
    (P : List K → Prop) : Prop :=
  ∀ d k path c, P path → d.child index k = some c →
    op d (k :: path) = (op c path).map (d.replaceChild index k)

variable (hop : Descends index op P)

include hop

theorem foldlM_child {paths : List (List K)} (hpaths : ∀ path ∈ paths, P path) {c d : Doc K S}
    {k : K} (hc : d.child index k = some c) :
    (paths.map (k :: ·)).foldlM op d = (paths.foldlM op c).map (d.replaceChild index k) := by
  induction paths generalizing c d with
  | nil =>
    have hself := replaceChild_self hc
    simp [hself]
  | cons path paths ih =>
    rw [List.map_cons, List.foldlM_cons, List.foldlM_cons,
      hop d k path c (hpaths path List.mem_cons_self) hc]
    cases op c path with
    | none => rfl
    | some c' =>
      have hc' : (d.replaceChild index k c').child index k = some c' := child_replaceChild hc
      have hrest := ih (fun q hq ↦ hpaths q (List.mem_cons_of_mem path hq)) hc'
      have hsame : (d.replaceChild index k c').replaceChild index k = d.replaceChild index k := by
        funext c''
        exact replaceChild_replaceChild c' c'' d k
      rw [hsame] at hrest
      exact hrest

/-- Every element of an array is worked on at its own place. -/
theorem foldlM_items {name : ℕ → K} (hname : ∀ i, index (name i) = some i)
    {paths : Doc K S → List (List K)} {f : Doc K S → Doc K S} {todo : List (Doc K S)}
    (htodo : ∀ c ∈ todo, (∀ path ∈ paths c, P path) ∧ (paths c).foldlM op c = some (f c))
    (done : List (Doc K S)) :
    ((todo.zipIdx done.length).flatMap fun p ↦ (paths p.1).map (name p.2 :: ·)).foldlM op
        (.arr (done ++ todo)) = some (.arr (done ++ todo.map f)) := by
  induction todo generalizing done with
  | nil => rfl
  | cons c todo ih =>
    obtain ⟨hpaths, hfold⟩ := htodo c List.mem_cons_self
    have hchild : (Doc.arr (done ++ c :: todo)).child index (name done.length) = some c := by
      simp [child, hname]
    have hreplace : (Doc.arr (done ++ c :: todo)).replaceChild index (name done.length) (f c) =
        .arr ((done ++ [f c]) ++ todo) := by
      simp [replaceChild, hname]
    have hrest := ih (fun c' hc' ↦ htodo c' (List.mem_cons_of_mem c hc')) (done ++ [f c])
    rw [List.length_append, List.length_singleton] at hrest
    rw [List.zipIdx_cons, List.flatMap_cons, List.foldlM_append,
      foldlM_child hop hpaths hchild, hfold]
    simp only [Option.map_some, Option.bind_eq_bind, Option.bind_some, hreplace, hrest]
    simp

theorem foldlM_fields {paths : K → List (List K)} {f : Doc K S → Doc K S} {ks : List K}
    (hks : ks.Nodup) {fields : List (K × Doc K S)}
    (hfields : ∀ k ∈ ks, ∃ c, lookup fields k = some c ∧ (∀ path ∈ paths k, P path) ∧
      (paths k).foldlM op c = some (f c)) :
    (ks.flatMap fun k ↦ (paths k).map (k :: ·)).foldlM op (.obj fields) =
      some (.obj (ks.foldl (fun fields k ↦ modifyField f k fields) fields)) := by
  induction ks generalizing fields with
  | nil => rfl
  | cons k ks ih =>
    obtain ⟨hk, hks'⟩ := List.nodup_cons.mp hks
    obtain ⟨c, hc, hpaths, hfold⟩ := hfields k List.mem_cons_self
    have hreplace : (Doc.obj fields).replaceChild index k (f c) = .obj (modifyField f k fields) := by
      rw [replaceChild, modifyField_congr]
      intro c' hc'
      rw [Option.some.inj (hc.symm.trans hc')]
    have hchild : (Doc.obj fields).child index k = some c := hc
    rw [List.flatMap_cons, List.foldlM_append, foldlM_child hop hpaths hchild, hfold]
    simp only [Option.map_some, Option.bind_eq_bind, Option.bind_some, hreplace, List.foldl_cons]
    refine ih hks' fun k' hk' ↦ ?_
    have hne : k' ≠ k := fun h ↦ hk (h ▸ hk')
    rw [lookup_modifyField, if_neg hne]
    exact hfields k' (List.mem_cons_of_mem k hk')

end Folds

section Fields

variable {fields : List (K × Doc K S)} {f : Doc K S → Doc K S}

theorem modifyField_distinct (hfields : (fields.map Prod.fst).Nodup) (k : K) :
    modifyField f k fields = fields.map fun p ↦ if p.1 = k then (p.1, f p.2) else p := by
  induction fields with
  | nil => rfl
  | cons p fields ih =>
    obtain ⟨hp, hrest⟩ := List.nodup_cons.mp hfields
    rw [modifyField, List.map_cons]
    by_cases hk : p.1 = k
    · rw [if_pos hk, if_pos hk]
      congr 1
      have hsame : ∀ q ∈ fields, (if q.1 = k then (q.1, f q.2) else q) = q := by
        intro q hq
        rw [if_neg]
        intro hq'
        exact hp (hk.trans hq'.symm ▸ List.mem_map_of_mem hq)
      rw [List.map_congr_left hsame, List.map_id']
    · rw [if_neg hk, if_neg hk, ih hrest]

theorem foldl_modifyField (hfields : (fields.map Prod.fst).Nodup) {ks : List K} (hks : ks.Nodup) :
    ks.foldl (fun fields k ↦ modifyField f k fields) fields =
      fields.map fun p ↦ if p.1 ∈ ks then (p.1, f p.2) else p := by
  induction ks generalizing fields with
  | nil => simp
  | cons k ks ih =>
    obtain ⟨hk, hks'⟩ := List.nodup_cons.mp hks
    have hfields' : ((modifyField f k fields).map Prod.fst).Nodup := by
      rwa [keys_modifyField]
    rw [List.foldl_cons, ih hfields' hks', modifyField_distinct hfields, List.map_map]
    refine List.map_congr_left fun p _ ↦ ?_
    by_cases hp : p.1 = k
    · subst hp
      simp [hk]
    · simp [hp]

theorem mem_of_lookup {k : K} {c : Doc K S} (h : lookup fields k = some c) : (k, c) ∈ fields := by
  induction fields with
  | nil => cases h
  | cons p fields ih =>
    rw [lookup_cons] at h
    split at h
    · rename_i hp
      cases h
      simp [← hp]
    · exact List.mem_cons_of_mem p (ih h)

theorem exists_lookup {k : K} (hk : k ∈ fields.map Prod.fst) :
    ∃ c, lookup fields k = some c ∧ (k, c) ∈ fields := by
  induction fields with
  | nil => cases hk
  | cons p fields ih =>
    by_cases hp : p.1 = k
    · exact ⟨p.2, by rw [lookup_cons, if_pos hp], by simp [← hp]⟩
    · obtain ⟨c, hc, hmem⟩ := ih ((List.mem_cons.mp hk).resolve_left fun h ↦ hp h.symm)
      exact ⟨c, by rw [lookup_cons, if_neg hp, hc], List.mem_cons_of_mem p hmem⟩

end Fields

section Operations

/-- The names of indices, and the order in which the fields of an object are visited. -/
structure Enumerates (index : K → Option ℕ) (name : ℕ → K)
    (visit : List (K × Doc K S) → List K) : Prop where
  name : ∀ i, index (name i) = some i
  nodup : ∀ fields : List (K × Doc K S), (fields.map Prod.fst).Nodup → (visit fields).Nodup
  mem : ∀ fields k, k ∈ visit fields ↔ k ∈ fields.map Prod.fst

variable {index : K → Option ℕ} {name : ℕ → K} {visit : List (K × Doc K S) → List K}
  (henum : Enumerates index name visit)

include henum

theorem foldlM_star_obj {op : Doc K S → List K → Option (Doc K S)} {P : List K → Prop}
    (hop : Descends index op P) {fields : List (K × Doc K S)}
    (hkeys : (fields.map Prod.fst).Nodup) {rest : List (Option K)} {f : Doc K S → Doc K S}
    (h : ∀ p ∈ fields, (∀ path ∈ matched index name visit rest p.2, P path) ∧
      (matched index name visit rest p.2).foldlM op p.2 = some (f p.2)) :
    (matched index name visit (none :: rest) (.obj fields)).foldlM op (.obj fields) =
      some (.obj (fields.map fun p ↦ (p.1, f p.2))) := by
  have hfields : ∀ k ∈ visit fields, ∃ c, lookup fields k = some c ∧
      (∀ path ∈ ((lookup fields k).map fun c ↦ matched index name visit rest c).getD [], P path) ∧
      (((lookup fields k).map fun c ↦ matched index name visit rest c).getD []).foldlM op c =
        some (f c) := by
    intro k hk
    obtain ⟨c, hc, hmem⟩ := exists_lookup ((henum.mem fields k).mp hk)
    rw [hc]
    exact ⟨c, rfl, h (k, c) hmem⟩
  rw [matched, foldlM_fields hop (henum.nodup fields hkeys) hfields,
    foldl_modifyField hkeys (henum.nodup fields hkeys)]
  congr 2
  refine List.map_congr_left fun p hp ↦ ?_
  rw [if_pos ((henum.mem fields p.1).mpr (List.mem_map_of_mem hp))]

theorem foldlM_star_arr {op : Doc K S → List K → Option (Doc K S)} {P : List K → Prop}
    (hop : Descends index op P) {items : List (Doc K S)} {rest : List (Option K)}
    {f : Doc K S → Doc K S}
    (h : ∀ c ∈ items, (∀ path ∈ matched index name visit rest c, P path) ∧
      (matched index name visit rest c).foldlM op c = some (f c)) :
    (matched index name visit (none :: rest) (.arr items)).foldlM op (.arr items) =
      some (.arr (items.map f)) := by
  rw [matched]
  exact foldlM_items hop henum.name h []

omit henum in
theorem modifyChild_eq_self {d : Doc K S} {k : K} (hk : d.child index k = none)
    (f : Doc K S → Doc K S) : d.modifyChild index f k = d := by
  rw [modifyChild_eq_self_iff]
  intro c hc
  cases hk.symm.trans hc

omit henum in
theorem set_descends (null : S) (v : Doc K S) :
    Descends index (fun d path ↦ d.set index null path v) fun _ ↦ True := by
  intro d k path c _ hc
  dsimp only
  cases d with
  | leaf s => cases hc
  | arr items =>
    obtain ⟨i, hi, hitem⟩ := Option.bind_eq_some_iff.mp hc
    have hreplace : (Doc.arr items).replaceChild index k = fun c' ↦ .arr (items.set i c') := by
      funext c'
      rw [replaceChild, hi]
    rw [set_arr, hi, hreplace]
    dsimp only
    rw [hitem]
  | obj fields =>
    have hfield : lookup fields k = some c := hc
    rw [set_obj, hfield]
    rfl

/-- Writing at every path that a pattern matches fills the matched nodes. -/
theorem foldlM_set (null : S) (v : Doc K S) (pattern : List (Option K)) {d : Doc K S}
    (hd : Distinct d) :
    (matched index name visit pattern d).foldlM (fun d path ↦ d.set index null path v) d =
      some (filled index v pattern d) := by
  have hop : Descends index (fun d path ↦ d.set index null path v) fun _ ↦ True :=
    set_descends null v
  induction pattern generalizing d with
  | nil => cases d <;> rfl
  | cons segment rest ih =>
    cases hd with
    | leaf s => cases segment <;> rfl
    | @arr items hitems =>
      cases segment with
      | none =>
        rw [foldlM_star_arr henum hop fun c hc ↦ ⟨fun _ _ ↦ trivial, ih (hitems c hc)⟩, filled]
      | some k =>
        rw [matched, filled]
        cases hchild : (Doc.arr items).child index k with
        | none =>
          rw [modifyChild_eq_self hchild]
          rw [child] at hchild
          rw [hchild]
          rfl
        | some c =>
          have hmem : c ∈ items := by
            obtain ⟨i, -, hitem⟩ := Option.bind_eq_some_iff.mp hchild
            exact List.mem_of_getElem? hitem
          rw [modifyChild_eq _ hchild]
          have hfold : ((matched index name visit rest c).map (k :: ·)).foldlM _ _ = _ :=
            foldlM_child hop (fun _ _ ↦ trivial) hchild
          rw [child] at hchild
          rw [hchild, Option.map_some, Option.getD_some, hfold, ih (hitems c hmem)]
          rfl
    | @obj fields hkeys hfields =>
      cases segment with
      | none =>
        rw [foldlM_star_obj henum hop hkeys fun p hp ↦ ⟨fun _ _ ↦ trivial, ih (hfields p hp)⟩,
          filled]
      | some k =>
        rw [matched, filled]
        cases hlookup : lookup fields k with
        | none =>
          have hset : (Doc.obj fields).set index null [k] v = some (.obj (fields ++ [(k, v)])) := by
            rw [set_obj, hlookup]
            rfl
          by_cases hrest : rest = []
          · rw [if_pos hrest, if_pos ⟨hrest, rfl⟩, List.foldlM_cons, hset]
            rfl
          · have hsame : modifyField (filled index v rest) k fields = fields := by
              rw [modifyField_eq_self_iff]
              intro c hc
              cases hlookup.symm.trans hc
            rw [if_neg hrest, if_neg fun h ↦ hrest h.1, hsame]
            rfl
        | some c =>
          have hchild : (Doc.obj fields).child index k = some c := hlookup
          have hmem := mem_of_lookup hlookup
          have hpaths : (if rest = [] then [[k]]
              else (matched index name visit rest c).map (k :: ·)) =
              (matched index name visit rest c).map (k :: ·) := by
            split
            · rename_i hrest
              subst hrest
              cases c <;> rfl
            · rfl
          have hfold : ((matched index name visit rest c).map (k :: ·)).foldlM _ _ = _ :=
            foldlM_child hop (fun _ _ ↦ trivial) hchild
          have hthere : ¬ (rest = [] ∧ some c = none) := fun h ↦ Option.some_ne_none c h.2
          rw [Option.map_some, Option.getD_some, hpaths, hfold, ih (hfields (k, c) hmem),
            if_neg hthere, Option.map_some, ← modifyChild_eq _ hchild]
          rfl

omit henum in
theorem delete_descends :
    Descends index (fun (d : Doc K S) path ↦ some (d.delete index path)) fun path ↦ path ≠ [] := by
  intro d k path c hpath hc
  obtain ⟨k', path, rfl⟩ := List.exists_cons_of_ne_nil hpath
  dsimp only
  rw [delete_cons_cons, modifyChild_eq _ hc]
  rfl

omit henum in
theorem matched_ne_nil {segment : Option K} {rest : List (Option K)} {d : Doc K S} :
    ∀ path ∈ matched index name visit (segment :: rest) d, path ≠ [] := by
  intro path hpath
  cases d with
  | leaf s => cases segment <;> cases hpath
  | arr items =>
    cases segment with
    | none =>
      rw [matched] at hpath
      obtain ⟨p, -, hp⟩ := List.mem_flatMap.mp hpath
      obtain ⟨below, -, rfl⟩ := List.mem_map.mp hp
      exact List.cons_ne_nil _ _
    | some k =>
      rw [matched] at hpath
      cases hitem : (index k).bind fun i ↦ items[i]? with
      | none =>
        rw [hitem] at hpath
        cases hpath
      | some c =>
        rw [hitem] at hpath
        obtain ⟨below, -, rfl⟩ := List.mem_map.mp hpath
        exact List.cons_ne_nil _ _
  | obj fields =>
    cases segment with
    | none =>
      rw [matched] at hpath
      obtain ⟨p, -, hp⟩ := List.mem_flatMap.mp hpath
      obtain ⟨below, -, rfl⟩ := List.mem_map.mp hp
      exact List.cons_ne_nil _ _
    | some k =>
      rw [matched] at hpath
      split at hpath
      · rw [List.mem_singleton] at hpath
        subst hpath
        exact List.cons_ne_nil _ _
      · cases hitem : lookup fields k with
        | none =>
          rw [hitem] at hpath
          cases hpath
        | some c =>
          rw [hitem] at hpath
          obtain ⟨below, -, rfl⟩ := List.mem_map.mp hpath
          exact List.cons_ne_nil _ _

/-- What is left of an array whose elements are taken out at 0, 1, 2 and so on. -/
def everyOther : List (Doc K S) → List (Doc K S)
  | [] => []
  | [_] => []
  | _ :: c :: items => c :: everyOther items

theorem foldlM_past (marks : List (Doc K S)) {items : List (Doc K S)} {start : ℕ}
    (hstart : items.length ≤ start) :
    ((marks.zipIdx start).flatMap fun p ↦ [[name p.2]]).foldlM
      (fun (d : Doc K S) path ↦ some (d.delete index path)) (.arr items) = some (.arr items) := by
  induction marks generalizing start with
  | nil => rfl
  | cons mark marks ih =>
    have hsame : (Doc.arr items).delete index [name start] = .arr items := by
      simp [delete_singleton, removeChild, henum.name, List.eraseIdx_of_length_le hstart]
    rw [List.zipIdx_cons, List.flatMap_cons, List.foldlM_append]
    simp only [List.foldlM_cons, List.foldlM_nil, hsame]
    exact ih (by omega)

/-- After a deletion the next index skips an element. -/
theorem foldlM_sweep (marks : List (Doc K S)) {todo : List (Doc K S)}
    (hmarks : todo.length ≤ marks.length) (done : List (Doc K S)) :
    ((marks.zipIdx done.length).flatMap fun p ↦ [[name p.2]]).foldlM
      (fun (d : Doc K S) path ↦ some (d.delete index path)) (.arr (done ++ todo)) =
        some (.arr (done ++ everyOther todo)) := by
  induction marks generalizing todo done with
  | nil =>
    obtain rfl := List.length_eq_zero_iff.mp (Nat.le_zero.mp hmarks)
    rfl
  | cons mark marks ih =>
    cases todo with
    | nil =>
      rw [List.append_nil, everyOther, List.append_nil]
      exact foldlM_past henum (mark :: marks) le_rfl
    | cons c todo =>
      have hfirst : (Doc.arr (done ++ c :: todo)).delete index [name done.length] =
          .arr (done ++ todo) := by
        simp [delete_singleton, removeChild, henum.name, List.eraseIdx_append_of_length_le]
      rw [List.zipIdx_cons, List.flatMap_cons, List.foldlM_append]
      simp only [List.foldlM_cons, List.foldlM_nil, hfirst]
      cases todo with
      | nil =>
        rw [List.append_nil, everyOther, List.append_nil]
        exact foldlM_past henum marks (Nat.le_succ _)
      | cons c' todo =>
        have hrest := ih (by simp at hmarks; omega : todo.length ≤ marks.length) (done ++ [c'])
        rw [List.length_append, List.length_singleton] at hrest
        rw [everyOther]
        simpa using hrest

omit henum in
theorem foldlM_remove (ks : List K) (fields : List (K × Doc K S)) :
    (ks.flatMap fun k ↦ [[k]]).foldlM (fun (d : Doc K S) path ↦ some (d.delete index path))
      (.obj fields) = some (.obj (fields.filter fun p ↦ p.1 ∉ ks)) := by
  induction ks generalizing fields with
  | nil => simp
  | cons k ks ih =>
    have hrest := ih (fields.filter fun p ↦ p.1 ≠ k)
    rw [List.filter_filter] at hrest
    rw [List.flatMap_cons, List.foldlM_append]
    simp only [List.foldlM_cons, List.foldlM_nil, delete_singleton, removeChild]
    refine hrest.trans ?_
    congr 2
    refine List.filter_congr fun p _ ↦ ?_
    by_cases hp : p.1 = k
    · simp [hp]
    · simp [hp]

/-- The last key of a pattern. -/
theorem foldlM_delete_last (segment : Option K) (d : Doc K S) :
    (matched index name visit [segment] d).foldlM
      (fun (d : Doc K S) path ↦ some (d.delete index path)) d =
        some (swept index everyOther [segment] d) := by
  cases d with
  | leaf s => cases segment <;> rfl
  | arr items =>
    cases segment with
    | none =>
      rw [matched, swept, if_pos rfl]
      exact foldlM_sweep henum items le_rfl []
    | some k =>
      rw [matched, swept, if_pos rfl]
      cases hchild : (Doc.arr items).child index k with
      | none =>
        have hsame : (Doc.arr items).removeChild index k = .arr items :=
          (removeChild_eq_self_iff (.arr items) k).mpr hchild
        rw [child] at hchild
        rw [hchild, hsame]
        rfl
      | some c =>
        rw [child] at hchild
        rw [hchild]
        rfl
  | obj fields =>
    cases segment with
    | none =>
      have hpaths : (visit fields).flatMap (fun k ↦
          (((lookup fields k).map fun c ↦ matched index name visit [] c).getD []).map (k :: ·)) =
          (visit fields).flatMap fun k ↦ [[k]] := by
        refine List.flatMap_congr fun k hk ↦ ?_
        obtain ⟨c, hc, -⟩ := exists_lookup ((henum.mem fields k).mp hk)
        rw [hc]
        cases c <;> rfl
      have hnone : fields.filter (fun p ↦ p.1 ∉ visit fields) = [] := by
        refine List.filter_eq_nil_iff.mpr fun p hp ↦ ?_
        simpa using (henum.mem fields p.1).mpr (List.mem_map_of_mem hp)
      rw [matched, hpaths, foldlM_remove, hnone, swept, if_pos rfl]
    | some k =>
      rw [matched, if_pos rfl, swept, if_pos rfl]
      rfl

/-- Deleting at every path that a pattern matches sweeps the matched nodes. -/
theorem foldlM_delete {pattern : List (Option K)} (hpattern : pattern ≠ []) {d : Doc K S}
    (hd : Distinct d) :
    (matched index name visit pattern d).foldlM
      (fun (d : Doc K S) path ↦ some (d.delete index path)) d =
        some (swept index everyOther pattern d) := by
  induction pattern generalizing d with
  | nil => exact absurd rfl hpattern
  | cons segment rest ih =>
    cases rest with
    | nil => exact foldlM_delete_last henum segment d
    | cons segment' rest =>
      have hrest := fun {c : Doc K S} (hc : Distinct c) ↦ ih (List.cons_ne_nil segment' rest) hc
      have hne : segment' :: rest ≠ [] := List.cons_ne_nil segment' rest
      have hop : Descends index (fun (d : Doc K S) path ↦ some (d.delete index path)) _ :=
        delete_descends
      cases hd with
      | leaf s => cases segment <;> rfl
      | @arr items hitems =>
        cases segment with
        | none =>
          rw [foldlM_star_arr henum hop fun c hc ↦ ⟨matched_ne_nil, hrest (hitems c hc)⟩, swept,
            if_neg hne]
        | some k =>
          rw [matched, swept, if_neg hne]
          cases hchild : (Doc.arr items).child index k with
          | none =>
            rw [modifyChild_eq_self hchild]
            rw [child] at hchild
            rw [hchild]
            rfl
          | some c =>
            have hmem : c ∈ items := by
              obtain ⟨i, -, hitem⟩ := Option.bind_eq_some_iff.mp hchild
              exact List.mem_of_getElem? hitem
            rw [modifyChild_eq _ hchild]
            have hfold : ((matched index name visit (segment' :: rest) c).map (k :: ·)).foldlM _ _ =
                _ := foldlM_child hop matched_ne_nil hchild
            rw [child] at hchild
            rw [hchild, Option.map_some, Option.getD_some, hfold, hrest (hitems c hmem)]
            rfl
      | @obj fields hkeys hfields =>
        cases segment with
        | none =>
          rw [foldlM_star_obj henum hop hkeys fun p hp ↦ ⟨matched_ne_nil, hrest (hfields p hp)⟩,
            swept, if_neg hne]
        | some k =>
          rw [matched, if_neg hne, swept, if_neg hne]
          cases hchild : (Doc.obj fields).child index k with
          | none =>
            rw [modifyChild_eq_self hchild]
            rw [child] at hchild
            rw [hchild]
            rfl
          | some c =>
            rw [modifyChild_eq _ hchild]
            have hfold : ((matched index name visit (segment' :: rest) c).map (k :: ·)).foldlM _ _ =
                _ := foldlM_child hop matched_ne_nil hchild
            rw [child] at hchild
            rw [hchild, Option.map_some, Option.getD_some, hfold,
              hrest (hfields (k, c) (mem_of_lookup hchild))]
            rfl

omit henum [DecidableEq K] in
theorem everyOther_eq_nil (items : List (Doc K S)) :
    everyOther items = [] ↔ ¬ 2 ≤ items.length := by
  cases items with
  | nil => simp [everyOther]
  | cons c items =>
    cases items with
    | nil => simp [everyOther]
    | cons c' items => simp [everyOther]

omit henum in
theorem modifyChild_eq_iff (f g : Doc K S → Doc K S) (d : Doc K S) (k : K) :
    d.modifyChild index f k = d.modifyChild index g k ↔
      ∀ c, d.child index k = some c → f c = g c := by
  cases hchild : d.child index k with
  | none => simp [modifyChild_eq_self hchild]
  | some c =>
    rw [modifyChild_eq f hchild, modifyChild_eq g hchild]
    constructor
    · rintro hsame c' ⟨⟩
      have hfirst : (d.replaceChild index k (f c)).child index k = some (f c) :=
        child_replaceChild hchild
      rw [hsame, child_replaceChild hchild] at hfirst
      exact (Option.some.inj hfirst).symm
    · intro hsame
      rw [hsame c rfl]

omit henum in
/-- The matched nodes are swept away just where no array is crowded. -/
theorem swept_eq_wiped_iff (pattern : List (Option K)) {d : Doc K S} (hd : Distinct d) :
    swept index everyOther pattern d = wiped index pattern d ↔ ¬ Crowded index pattern d := by
  unfold wiped
  induction pattern generalizing d with
  | nil => simp [swept, Crowded]
  | cons segment rest ih =>
    cases hd with
    | leaf s => cases segment <;> simp [swept, Crowded]
    | @arr items hitems =>
      cases segment with
      | none =>
        by_cases hrest : rest = []
        · subst hrest
          rw [swept, swept, if_pos rfl, if_pos rfl, Crowded, arr.injEq, everyOther_eq_nil]
          simp [Crowded]
        · rw [swept, swept, if_neg hrest, if_neg hrest, Crowded, arr.injEq, List.map_inj_left]
          constructor
          · rintro hall (⟨h, -⟩ | ⟨c, hc, hcrowded⟩)
            · exact hrest h
            · exact (ih (hitems c hc)).mp (hall c hc) hcrowded
          · intro h c hc
            exact (ih (hitems c hc)).mpr fun hcrowded ↦ h (.inr ⟨c, hc, hcrowded⟩)
      | some k =>
        by_cases hrest : rest = []
        · subst hrest
          simp [swept, Crowded]
        · rw [swept, swept, if_neg hrest, if_neg hrest, Crowded, modifyChild_eq_iff, not_exists]
          refine forall_congr' fun c ↦ ?_
          rw [not_and]
          refine forall_congr' fun hc ↦ ih (hitems c ?_)
          obtain ⟨i, -, hitem⟩ := Option.bind_eq_some_iff.mp hc
          exact List.mem_of_getElem? hitem
    | @obj fields hkeys hfields =>
      cases segment with
      | none =>
        by_cases hrest : rest = []
        · subst hrest
          simp [swept, Crowded]
        · rw [swept, swept, if_neg hrest, if_neg hrest, Crowded, obj.injEq, List.map_inj_left]
          constructor
          · rintro hall ⟨p, hp, hcrowded⟩
            exact (ih (hfields p hp)).mp (Prod.mk.inj (hall p hp)).2 hcrowded
          · intro h p hp
            rw [(ih (hfields p hp)).mpr fun hcrowded ↦ h ⟨p, hp, hcrowded⟩]
      | some k =>
        by_cases hrest : rest = []
        · subst hrest
          simp [swept, Crowded]
        · rw [swept, swept, if_neg hrest, if_neg hrest, Crowded, modifyChild_eq_iff, not_exists]
          refine forall_congr' fun c ↦ ?_
          rw [not_and]
          exact forall_congr' fun hc ↦ ih (hfields (k, c) (mem_of_lookup hc))

omit [DecidableEq K] henum in
theorem nodup_flatMap_cons {β : Type} {l : List β} {head : β → K} (hheads : (l.map head).Nodup)
    {below : β → List (List K)} (hbelow : ∀ b ∈ l, (below b).Nodup) :
    (l.flatMap fun b ↦ (below b).map (head b :: ·)).Nodup := by
  induction l with
  | nil => exact List.nodup_nil
  | cons b l ih =>
    obtain ⟨hb, hl⟩ := List.nodup_cons.mp hheads
    rw [List.flatMap_cons, List.nodup_append']
    refine ⟨?_, ih hl fun b' hb' ↦ hbelow b' (List.mem_cons_of_mem b hb'), ?_⟩
    · exact (hbelow b List.mem_cons_self).map fun p q h ↦ (List.cons.inj h).2
    · intro path hpath hpath'
      obtain ⟨p, -, rfl⟩ := List.mem_map.mp hpath
      obtain ⟨b', hb', hq⟩ := List.mem_flatMap.mp hpath'
      obtain ⟨q, -, hq⟩ := List.mem_map.mp hq
      exact hb ((List.cons.inj hq).1 ▸ List.mem_map_of_mem hb')

/-- No node is matched twice. -/
theorem nodup_matched (pattern : List (Option K)) {d : Doc K S} (hd : Distinct d) :
    (matched index name visit pattern d).Nodup := by
  have hcons {k : K} {paths : List (List K)} (h : paths.Nodup) : (paths.map (k :: ·)).Nodup :=
    h.map fun p q heq ↦ (List.cons.inj heq).2
  induction pattern generalizing d with
  | nil =>
    rw [matched]
    exact List.nodup_singleton []
  | cons segment rest ih =>
    cases hd with
    | leaf s => cases segment <;> exact List.nodup_nil
    | @arr items hitems =>
      cases segment with
      | none =>
        rw [matched]
        refine nodup_flatMap_cons ?_ fun p hp ↦ ih (hitems p.1 (List.fst_mem_of_mem_zipIdx hp))
        have hnames : items.zipIdx.map (fun p ↦ name p.2) =
            (List.range' 0 items.length).map name := by
          rw [← List.zipIdx_map_snd, List.map_map]
          rfl
        rw [hnames]
        refine List.Nodup.map (fun i j h ↦ ?_) List.nodup_range'
        exact Option.some.inj ((henum.name i).symm.trans (h ▸ henum.name j))
      | some k =>
        rw [matched]
        cases hitem : (index k).bind fun i ↦ items[i]? with
        | none => exact List.nodup_nil
        | some c =>
          obtain ⟨i, -, hi⟩ := Option.bind_eq_some_iff.mp hitem
          exact hcons (ih (hitems c (List.mem_of_getElem? hi)))
    | @obj fields hkeys hfields =>
      cases segment with
      | none =>
        rw [matched]
        refine nodup_flatMap_cons (by simpa using henum.nodup fields hkeys) fun k hk ↦ ?_
        obtain ⟨c, hc, hmem⟩ := exists_lookup ((henum.mem fields k).mp hk)
        rw [hc]
        exact ih (hfields (k, c) hmem)
      | some k =>
        rw [matched]
        split
        · exact List.nodup_singleton [k]
        · cases hlookup : lookup fields k with
          | none => exact List.nodup_nil
          | some c => exact hcons (ih (hfields (k, c) (mem_of_lookup hlookup)))

end Operations

end AllAiTools.Foundation.Doc
