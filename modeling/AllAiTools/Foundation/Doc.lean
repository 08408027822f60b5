import Mathlib

namespace AllAiTools.Foundation

/-- A tree of objects and arrays over scalars. Of two fields with one key the first counts. -/
inductive Doc (K S : Type)
  | leaf (s : S)
  | arr (items : List (Doc K S))
  | obj (fields : List (K × Doc K S))

namespace Doc

variable {K S : Type} [DecidableEq K] (index : K → Option ℕ)

section Operations

def lookup (fields : List (K × Doc K S)) (k : K) : Option (Doc K S) :=
  (fields.find? (·.1 = k)).map (·.2)

def child : Doc K S → K → Option (Doc K S)
  | .leaf _, _ => none
  | .arr items, k => (index k).bind fun i ↦ items[i]?
  | .obj fields, k => lookup fields k

/-- The node at the end of a path. -/
def get : Doc K S → List K → Option (Doc K S)
  | d, [] => some d
  | d, k :: path => (d.child index k).bind fun c ↦ c.get path

/-- A new node at the end of a path, an array where the path goes on with an index. -/
def build (null : S) : List K → Doc K S → Doc K S
  | [], v => v
  | k :: path, v => match index k with
    | some n => .arr (List.replicate n (.leaf null) ++ [build null path v])
    | none => .obj [(k, build null path v)]

/-- The first field with a key gets another value. -/
def modifyField (f : Doc K S → Doc K S) (k : K) : List (K × Doc K S) → List (K × Doc K S)
  | [] => []
  | p :: fields => if p.1 = k then (p.1, f p.2) :: fields else p :: modifyField f k fields

/-- The node at a path gets a new value; what is missing on the way to it is made. -/
def set (null : S) : Doc K S → List K → Doc K S → Option (Doc K S)
  | _, [], v => some v
  | .leaf _, k :: path, v => some (build index null (k :: path) v)
  | .arr items, k :: path, v => match index k with
    | none => none
    | some i => match items[i]? with
      | some c => (set null c path v).map fun c' ↦ .arr (items.set i c')
      | none => some (.arr (items ++ List.replicate (i - items.length) (.leaf null) ++
          [build index null path v]))
  | .obj fields, k :: path, v => match lookup fields k with
    | some c => (set null c path v).map fun c' ↦ .obj (modifyField (fun _ ↦ c') k fields)
    | none => some (.obj (fields ++ [(k, build index null path v)]))

def removeChild : Doc K S → K → Doc K S
  | .leaf s, _ => .leaf s
  | .arr items, k => match index k with
    | some i => .arr (items.eraseIdx i)
    | none => .arr items
  | .obj fields, k => .obj (fields.filter (·.1 ≠ k))

def modifyChild (f : Doc K S → Doc K S) : Doc K S → K → Doc K S
  | .leaf s, _ => .leaf s
  | .arr items, k => match index k with
    | some i => .arr (items.modify i f)
    | none => .arr items
  | .obj fields, k => .obj (modifyField f k fields)

/-- The node at a path is taken out; the rest of its array moves up. -/
def delete : Doc K S → List K → Doc K S
  | d, [] => d
  | d, [k] => d.removeChild index k
  | d, k :: k' :: path => d.modifyChild index (fun c ↦ c.delete (k' :: path)) k

end Operations

section Lookup

theorem lookup_cons (p : K × Doc K S) (fields : List (K × Doc K S)) (k : K) :
    lookup (p :: fields) k = if p.1 = k then some p.2 else lookup fields k := by
  unfold lookup
  rw [List.find?_cons]
  by_cases hp : p.1 = k
  · simp [hp]
  · simp [hp]

theorem lookup_append (fields fields' : List (K × Doc K S)) (k : K) :
    lookup (fields ++ fields') k = (lookup fields k).or (lookup fields' k) := by
  unfold lookup
  rw [List.find?_append, Option.map_or]

theorem lookup_modifyField (f : Doc K S → Doc K S) (k : K) (fields : List (K × Doc K S)) (k' : K) :
    lookup (modifyField f k fields) k' =
      if k' = k then (lookup fields k).map f else lookup fields k' := by
  induction fields with
  | nil => split_ifs <;> rfl
  | cons p fields ih =>
    rw [modifyField]
    by_cases hp : p.1 = k
    · rw [if_pos hp, lookup_cons, lookup_cons, lookup_cons, if_pos hp]
      by_cases hk : k' = k
      · rw [if_pos (hp.trans hk.symm), if_pos hk]
        rfl
      · rw [if_neg hk, if_neg (fun hp' ↦ hk (hp'.symm.trans hp)),
          if_neg (fun hp' ↦ hk (hp'.symm.trans hp))]
    · rw [if_neg hp, lookup_cons, ih, lookup_cons, lookup_cons, if_neg hp]
      by_cases hk : k' = k
      · rw [if_neg (fun hp' ↦ hp (hp'.trans hk)), if_pos hk, if_pos hk]
      · rw [if_neg hk, if_neg hk]

theorem keys_modifyField (f : Doc K S → Doc K S) (k : K) (fields : List (K × Doc K S)) :
    (modifyField f k fields).map Prod.fst = fields.map Prod.fst := by
  induction fields with
  | nil => rfl
  | cons p fields ih =>
    rw [modifyField]
    split
    · rfl
    · rw [List.map_cons, List.map_cons, ih]

theorem lookup_filter (fields : List (K × Doc K S)) (k k' : K) :
    lookup (fields.filter (·.1 ≠ k)) k' = if k' = k then none else lookup fields k' := by
  induction fields with
  | nil => simp [lookup]
  | cons p fields ih =>
    rw [List.filter_cons]
    by_cases hp : p.1 = k
    · rw [if_neg (by simpa using hp), ih, lookup_cons]
      by_cases hk : k' = k
      · rw [if_pos hk, if_pos hk]
      · rw [if_neg hk, if_neg hk, if_neg]
        exact fun hp' ↦ hk (hp'.symm.trans hp)
    · rw [if_pos (by simpa using hp), lookup_cons, ih, lookup_cons]
      by_cases hk : k' = k
      · rw [if_pos hk, if_pos hk, if_neg]
        exact fun hp' ↦ hp (hp'.trans hk)
      · rw [if_neg hk, if_neg hk]

theorem modifyField_eq_self_iff (f : Doc K S → Doc K S) (k : K) (fields : List (K × Doc K S)) :
    modifyField f k fields = fields ↔ ∀ c, lookup fields k = some c → f c = c := by
  induction fields with
  | nil => simp [modifyField, lookup]
  | cons p fields ih =>
    rw [modifyField, lookup_cons]
    by_cases hp : p.1 = k
    · rw [if_pos hp, if_pos hp]
      simp [Prod.ext_iff]
    · rw [if_neg hp, if_neg hp, List.cons_inj_right]
      exact ih

end Lookup

section Children

/-- One child gets a new value, the others keep theirs. -/
theorem child_modifyChild {index : K → Option ℕ}
    (hindex : ∀ a b i, index a = some i → index b = some i → a = b) (f : Doc K S → Doc K S)
    (d : Doc K S) (k k' : K) :
    (d.modifyChild index f k).child index k' =
      if k' = k then (d.child index k).map f else d.child index k' := by
  cases d with
  | leaf s => split_ifs <;> rfl
  | arr items =>
    cases hk : index k with
    | none =>
      by_cases hsame : k' = k
      · subst hsame
        simp [modifyChild, child, hk]
      · simp [modifyChild, hk, hsame]
    | some i =>
      by_cases hsame : k' = k
      · subst hsame
        simp [modifyChild, child, hk]
      · rw [if_neg hsame]
        cases hk' : index k' with
        | none => simp [modifyChild, child, hk, hk']
        | some j =>
          have hne : i ≠ j := fun hij ↦ hsame (hindex k' k j hk' (hij ▸ hk))
          simp [modifyChild, child, hk, hk', hne]
  | obj fields => exact lookup_modifyField f k fields k'

theorem set_leaf (index : K → Option ℕ) (null : S) (v : Doc K S) (s : S) (k : K) (path : List K) :
    (leaf s).set index null (k :: path) v = some (build index null (k :: path) v) := rfl

theorem set_arr (index : K → Option ℕ) (null : S) (v : Doc K S) (items : List (Doc K S)) (k : K)
    (path : List K) : (arr items).set index null (k :: path) v = match index k with
      | none => none
      | some i => match items[i]? with
        | some c => (c.set index null path v).map fun c' ↦ .arr (items.set i c')
        | none => some (.arr (items ++ List.replicate (i - items.length) (.leaf null) ++
            [build index null path v])) := rfl

theorem set_obj (index : K → Option ℕ) (null : S) (v : Doc K S) (fields : List (K × Doc K S)) (k : K)
    (path : List K) : (obj fields).set index null (k :: path) v = match lookup fields k with
      | some c => (c.set index null path v).map fun c' ↦ .obj (modifyField (fun _ ↦ c') k fields)
      | none => some (.obj (fields ++ [(k, build index null path v)])) := rfl

/-- What a write does to the children of a node. -/
theorem set_cons_cases {index : K → Option ℕ}
    (hindex : ∀ a b i, index a = some i → index b = some i → a = b) {null : S} {d d' v : Doc K S} {k : K}
    {path : List K} (h : d.set index null (k :: path) v = some d') :
    (∃ c', d'.child index k = some c' ∧
      ((∃ c, d.child index k = some c ∧ c.set index null path v = some c') ∨
        d.child index k = none ∧ c' = build index null path v)) ∧
    ∀ k' x, k' ≠ k → d.child index k' = some x → d'.child index k' = some x := by
  cases d with
  | leaf s =>
    rw [set_leaf, build] at h
    refine ⟨⟨build index null path v, ?_, .inr ⟨rfl, rfl⟩⟩, fun k' x _ hx ↦ by cases hx⟩
    cases hk : index k with
    | none =>
      rw [hk] at h
      cases h
      simp [child, lookup]
    | some n =>
      rw [hk] at h
      cases h
      simp [child, hk]
  | arr items =>
    rw [set_arr] at h
    cases hk : index k with
    | none =>
      rw [hk] at h
      cases h
    | some i =>
      rw [hk] at h
      dsimp only at h
      cases hi : items[i]? with
      | some c =>
        rw [hi] at h
        obtain ⟨c', hc', rfl⟩ := Option.map_eq_some_iff.mp h
        obtain ⟨hlt, -⟩ := List.getElem?_eq_some_iff.mp hi
        refine ⟨⟨c', ?_, .inl ⟨c, ?_, hc'⟩⟩, fun k' x hne hx ↦ ?_⟩
        · simp [child, hk, hlt]
        · simp [child, hk, hi]
        · obtain ⟨j, hj, hx⟩ := Option.bind_eq_some_iff.mp hx
          have hij : i ≠ j := fun hij ↦ hne (hindex k' k j hj (hij ▸ hk))
          simp [child, hj, List.getElem?_set, hij, hx]
      | none =>
        rw [hi] at h
        cases h
        have hle : items.length ≤ i := List.getElem?_eq_none_iff.mp hi
        refine ⟨⟨build index null path v, ?_, .inr ⟨?_, rfl⟩⟩, fun k' x hne hx ↦ ?_⟩
        · have hlen : (items ++ List.replicate (i - items.length) (leaf null)).length = i := by
            rw [List.length_append, List.length_replicate]
            omega
          rw [child, hk, Option.bind_some, List.getElem?_append_right (by omega), hlen, Nat.sub_self]
          rfl
        · simp [child, hk, hi]
        · obtain ⟨j, hj, hx⟩ := Option.bind_eq_some_iff.mp hx
          obtain ⟨hlt, -⟩ := List.getElem?_eq_some_iff.mp hx
          rw [child, hj, Option.bind_some, List.append_assoc, List.getElem?_append_left hlt, hx]
  | obj fields =>
    rw [set_obj] at h
    cases hk : lookup fields k with
    | some c =>
      rw [hk] at h
      obtain ⟨c', hc', rfl⟩ := Option.map_eq_some_iff.mp h
      refine ⟨⟨c', ?_, .inl ⟨c, hk, hc'⟩⟩, fun k' x hne hx ↦ ?_⟩
      · simp [child, lookup_modifyField, hk]
      · rw [child] at hx
        simp [child, lookup_modifyField, hx, hne]
    | none =>
      rw [hk] at h
      cases h
      refine ⟨⟨build index null path v, ?_, .inr ⟨hk, rfl⟩⟩, fun k' x hne hx ↦ ?_⟩
      · simp [child, lookup_append, hk, lookup_cons]
      · rw [child] at hx
        simp [child, lookup_append, hx]

/-- A write into an array keeps its length, or adds what is missing up to the index. -/
theorem set_arr_length {index : K → Option ℕ} {null : S} {v d' : Doc K S} {items : List (Doc K S)}
    {k : K} {path : List K} (h : (arr items).set index null (k :: path) v = some d') :
    ∃ i items', index k = some i ∧ d' = .arr items' ∧
      items'.length = max items.length (i + 1) := by
  rw [set_arr] at h
  cases hk : index k with
  | none =>
    rw [hk] at h
    cases h
  | some i =>
    rw [hk] at h
    dsimp only at h
    cases hi : items[i]? with
    | some c =>
      rw [hi] at h
      obtain ⟨c', -, rfl⟩ := Option.map_eq_some_iff.mp h
      obtain ⟨hlt, -⟩ := List.getElem?_eq_some_iff.mp hi
      refine ⟨i, _, rfl, rfl, ?_⟩
      rw [List.length_set]
      omega
    | none =>
      rw [hi] at h
      cases h
      have hle : items.length ≤ i := List.getElem?_eq_none_iff.mp hi
      refine ⟨i, _, rfl, rfl, ?_⟩
      rw [List.length_append, List.length_append, List.length_replicate, List.length_singleton]
      omega

theorem set_obj_fields {index : K → Option ℕ} {null : S} {v d' : Doc K S}
    {fields : List (K × Doc K S)} {k : K} {path : List K}
    (h : (obj fields).set index null (k :: path) v = some d') : ∃ fields', d' = .obj fields' := by
  rw [set_obj] at h
  cases hk : lookup fields k with
  | none =>
    rw [hk] at h
    cases h
    exact ⟨_, rfl⟩
  | some c =>
    rw [hk] at h
    obtain ⟨c', -, rfl⟩ := Option.map_eq_some_iff.mp h
    exact ⟨_, rfl⟩

end Children

section Paths

variable {index : K → Option ℕ} {null : S} {d d' v : Doc K S}

@[simp] theorem get_nil (d : Doc K S) : d.get index [] = some d := rfl

@[simp] theorem get_cons (d : Doc K S) (k : K) (path : List K) :
    d.get index (k :: path) = (d.child index k).bind fun c ↦ c.get index path := rfl

theorem get_append (d : Doc K S) (p q : List K) :
    d.get index (p ++ q) = (d.get index p).bind fun c ↦ c.get index q := by
  induction p generalizing d with
  | nil => rfl
  | cons k p ih =>
    rw [List.cons_append, get_cons, get_cons, Option.bind_assoc]
    congr 1
    funext c
    exact ih c

theorem get_build (path : List K) (v : Doc K S) :
    (build index null path v).get index path = some v := by
  induction path with
  | nil => rfl
  | cons k path ih =>
    rw [build]
    cases hk : index k with
    | none => simp [child, lookup, ih]
    | some n => simp [child, hk, ih]

variable (hindex : ∀ a b i, index a = some i → index b = some i → a = b)

include hindex

theorem get_set_self {path : List K} (h : d.set index null path v = some d') :
    d'.get index path = some v := by
  induction path generalizing d d' with
  | nil =>
    cases d <;> · cases h; rfl
  | cons k path ih =>
    obtain ⟨⟨c', hchild, hc⟩, -⟩ := set_cons_cases hindex h
    rw [get_cons, hchild, Option.bind_some]
    rcases hc with ⟨c, -, hset⟩ | ⟨-, rfl⟩
    · exact ih hset
    · exact get_build path v

/-- A write leaves the nodes alone that it neither goes through nor writes into. -/
theorem get_set_frame {path other : List K} (h : d.set index null path v = some d')
    (hpath : ¬ path <+: other) (hother : ¬ other <+: path) {x : Doc K S}
    (hx : d.get index other = some x) : d'.get index other = some x := by
  induction path generalizing d d' other with
  | nil => exact absurd other.nil_prefix hpath
  | cons k path ih =>
    cases other with
    | nil => exact absurd (List.nil_prefix) hother
    | cons k' other =>
      obtain ⟨⟨c', hchild, hc⟩, hframe⟩ := set_cons_cases hindex h
      obtain ⟨c₀, hc₀, hx⟩ := Option.bind_eq_some_iff.mp hx
      rw [get_cons]
      by_cases hk : k' = k
      · subst hk
        rw [List.prefix_cons_inj] at hpath hother
        rw [hchild, Option.bind_some]
        rcases hc with ⟨c, hold, hset⟩ | ⟨hnone, -⟩
        · cases hold.symm.trans hc₀
          exact ih hset hpath hother hx
        · cases hnone.symm.trans hc₀
      · rw [hframe k' c₀ hk hc₀]
        exact hx

/-- A write below a node is a write into it. -/
theorem get_set_below {path below : List K} (h : d.set index null (path ++ below) v = some d')
    {c : Doc K S} (hc : d.get index path = some c) :
    ∃ c', c.set index null below v = some c' ∧ d'.get index path = some c' := by
  induction path generalizing d d' with
  | nil =>
    cases hc
    exact ⟨d', h, rfl⟩
  | cons k path ih =>
    obtain ⟨⟨c', hchild, hset⟩, -⟩ := set_cons_cases hindex h
    obtain ⟨c₀, hc₀, hc⟩ := Option.bind_eq_some_iff.mp hc
    rcases hset with ⟨c₁, hold, hset⟩ | ⟨hnone, -⟩
    · cases hold.symm.trans hc₀
      obtain ⟨x, hx, hget⟩ := ih hset hc
      exact ⟨x, hx, by rw [get_cons, hchild]; exact hget⟩
    · cases hnone.symm.trans hc₀

omit hindex in
/-- A write of what is there already changes nothing. -/
theorem set_of_get {path : List K} (h : d.get index path = some v) :
    d.set index null path v = some d := by
  induction path generalizing d with
  | nil =>
    obtain rfl := Option.some.inj h
    cases d <;> rfl
  | cons k path ih =>
    obtain ⟨c, hc, hget⟩ := Option.bind_eq_some_iff.mp h
    have hset := ih hget
    cases d with
    | leaf s => cases hc
    | arr items =>
      obtain ⟨i, hi, hitem⟩ := Option.bind_eq_some_iff.mp hc
      rw [set_arr, hi]
      dsimp only
      rw [hitem]
      dsimp only
      rw [hset, Option.map_some]
      obtain ⟨hlt, rfl⟩ := List.getElem?_eq_some_iff.mp hitem
      rw [List.set_getElem_self]
    | obj fields =>
      have hfield : lookup fields k = some c := hc
      have hsame : modifyField (fun _ ↦ c) k fields = fields := by
        rw [modifyField_eq_self_iff]
        intro c' hc'
        exact Option.some.inj (hfield.symm.trans hc')
      rw [set_obj, hfield]
      simp [hset, hsame]

omit hindex in
theorem delete_cons_cons (d : Doc K S) (k k' : K) (path : List K) :
    d.delete index (k :: k' :: path) =
      d.modifyChild index (fun c ↦ c.delete index (k' :: path)) k := by
  cases d <;> rfl

omit hindex in
theorem delete_singleton (d : Doc K S) (k : K) : d.delete index [k] = d.removeChild index k := by
  cases d <;> rfl

/-- A deletion below a node is a deletion in it. -/
theorem get_delete_below (d : Doc K S) (path : List K) {below : List K} (hbelow : below ≠ []) :
    (d.delete index (path ++ below)).get index path =
      (d.get index path).map fun c ↦ c.delete index below := by
  induction path generalizing d with
  | nil => rfl
  | cons k path ih =>
    obtain ⟨k', rest, hrest⟩ := List.exists_cons_of_ne_nil
      (List.append_ne_nil_of_right_ne_nil path hbelow)
    rw [List.cons_append, hrest, delete_cons_cons, get_cons, child_modifyChild hindex, if_pos rfl,
      get_cons, ← hrest]
    cases d.child index k with
    | none => rfl
    | some c => exact ih c

/-- A deletion leaves the nodes alone that are not in the container it takes a node out of. -/
theorem get_delete_frame (d : Doc K S) {path other : List K} (k : K) (hpath : ¬ path <+: other)
    (hother : ¬ other <+: path) :
    (d.delete index (path ++ [k])).get index other = d.get index other := by
  induction path generalizing d other with
  | nil => exact absurd other.nil_prefix hpath
  | cons k' path ih =>
    cases other with
    | nil => exact absurd (List.nil_prefix) hother
    | cons k'' other =>
      obtain ⟨k₁, rest, hrest⟩ := List.exists_cons_of_ne_nil
        (List.append_ne_nil_of_right_ne_nil path (List.cons_ne_nil k []))
      rw [List.cons_append, hrest, delete_cons_cons, get_cons, child_modifyChild hindex, get_cons]
      by_cases hk : k'' = k'
      · subst hk
        rw [List.prefix_cons_inj] at hpath hother
        rw [if_pos rfl, ← hrest]
        cases d.child index k'' with
        | none => rfl
        | some c => exact ih c hpath hother
      · rw [if_neg hk]

omit hindex in
theorem modifyChild_eq_self_iff (f : Doc K S → Doc K S) (d : Doc K S) (k : K) :
    d.modifyChild index f k = d ↔ ∀ c, d.child index k = some c → f c = c := by
  cases d with
  | leaf s => simp [modifyChild, child]
  | arr items =>
    cases hk : index k with
    | none => simp [modifyChild, child, hk]
    | some i =>
      simp only [modifyChild, child, hk, arr.injEq, Option.bind_some]
      constructor
      · intro hsame c hc
        have hget := congrArg (·[i]?) hsame
        simp only [List.getElem?_modify_eq, hc, Option.map_eq_map, Option.map_some] at hget
        exact Option.some.inj hget
      · intro hsame
        refine List.ext_getElem? fun j ↦ ?_
        rw [List.getElem?_modify]
        by_cases hj : i = j
        · subst hj
          cases hc : items[i]? with
          | none => rfl
          | some c => simp [hsame c hc]
        · simp [hj]
  | obj fields =>
    simp only [modifyChild, child, obj.injEq]
    exact modifyField_eq_self_iff f k fields

omit hindex in
theorem removeChild_eq_self_iff (d : Doc K S) (k : K) :
    d.removeChild index k = d ↔ d.child index k = none := by
  cases d with
  | leaf s => exact iff_of_true rfl rfl
  | arr items =>
    cases hk : index k with
    | none => simp [removeChild, child, hk]
    | some i => simp [removeChild, child, hk, List.eraseIdx_eq_self]
  | obj fields =>
    simp only [removeChild, child, obj.injEq, lookup, Option.map_eq_none_iff]
    rw [List.filter_eq_self, List.find?_eq_none]
    simp

omit hindex in
/-- Only what is not there can be deleted without a change. -/
theorem delete_eq_self_iff (d : Doc K S) {path : List K} (hpath : path ≠ []) :
    d.delete index path = d ↔ d.get index path = none := by
  induction path generalizing d with
  | nil => exact absurd rfl hpath
  | cons k path ih =>
    cases path with
    | nil =>
      rw [delete_singleton, removeChild_eq_self_iff, get_cons]
      simp
    | cons k' path =>
      rw [delete_cons_cons, modifyChild_eq_self_iff, get_cons, Option.bind_eq_none_iff]
      refine forall₂_congr fun c _ ↦ ?_
      exact ih c (List.cons_ne_nil k' path)

end Paths

section Indices

variable {index index' : K → Option ℕ} {path : List K}

theorem child_congr {k : K} (hk : index k = index' k) (d : Doc K S) :
    d.child index k = d.child index' k := by
  cases d with
  | leaf s => rfl
  | arr items => rw [child, child, hk]
  | obj fields => rfl

theorem get_congr (h : ∀ k ∈ path, index k = index' k) (d : Doc K S) :
    d.get index path = d.get index' path := by
  induction path generalizing d with
  | nil => rfl
  | cons k path ih =>
    rw [get_cons, get_cons, child_congr (h k List.mem_cons_self)]
    congr 1
    funext c
    exact ih (fun k' hk' ↦ h k' (List.mem_cons_of_mem k hk')) c

omit [DecidableEq K] in
theorem build_congr (h : ∀ k ∈ path, index k = index' k) (null : S) (v : Doc K S) :
    build index null path v = build index' null path v := by
  induction path with
  | nil => rfl
  | cons k path ih =>
    rw [build, build, h k List.mem_cons_self, ih fun k' hk' ↦ h k' (List.mem_cons_of_mem k hk')]

theorem set_congr (h : ∀ k ∈ path, index k = index' k) (null : S) (v d : Doc K S) :
    d.set index null path v = d.set index' null path v := by
  induction path generalizing d with
  | nil => cases d <;> rfl
  | cons k path ih =>
    have hrest : ∀ k' ∈ path, index k' = index' k' := fun k' hk' ↦ h k' (List.mem_cons_of_mem k hk')
    have hk := h k List.mem_cons_self
    cases d with
    | leaf s => rw [set_leaf, set_leaf, build_congr h]
    | arr items =>
      rw [set_arr, set_arr, hk, build_congr hrest]
      simp only [ih hrest]
    | obj fields =>
      rw [set_obj, set_obj, build_congr hrest]
      simp only [ih hrest]

theorem delete_congr (h : ∀ k ∈ path, index k = index' k) (d : Doc K S) :
    d.delete index path = d.delete index' path := by
  induction path generalizing d with
  | nil => cases d <;> rfl
  | cons k path ih =>
    have hk := h k List.mem_cons_self
    cases path with
    | nil =>
      rw [delete_singleton, delete_singleton]
      cases d with
      | leaf s => rfl
      | arr items => rw [removeChild, removeChild, hk]
      | obj fields => rfl
    | cons k' path =>
      have hrest : (fun c : Doc K S ↦ c.delete index (k' :: path)) =
          fun c ↦ c.delete index' (k' :: path) := by
        funext c
        exact ih (fun q hq ↦ h q (List.mem_cons_of_mem k hq)) c
      rw [delete_cons_cons, delete_cons_cons, hrest]
      cases d with
      | leaf s => rfl
      | arr items => rw [modifyChild, modifyChild, hk]
      | obj fields => rfl

end Indices

end Doc

end AllAiTools.Foundation
