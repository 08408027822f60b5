import AllAiTools.Foundation.Doc

namespace AllAiTools.Foundation.Doc

variable {K S : Type} [DecidableEq K]

abbrev Fields (K S : Type) := List (K × Doc K S)

section Updates

/-- A field gets a value, and is added where there is none. -/
def put (fields : Fields K S) (k : K) (v : Doc K S) : Fields K S :=
  if (lookup fields k).isSome then modifyField (fun _ ↦ v) k fields else fields ++ [(k, v)]

def remove (fields : Fields K S) (k : K) : Fields K S := fields.filter (·.1 ≠ k)

def keep (allowed : K → Bool) (fields : Fields K S) : Fields K S := fields.filter fun p ↦ allowed p.1

def keys (fields : Fields K S) : List K := fields.map Prod.fst

/-- The value of a field changes, where there is one. -/
def update (fields : Fields K S) (k : K) (f : Doc K S → Doc K S) : Fields K S :=
  match lookup fields k with
  | some v => put fields k (f v)
  | none => fields

end Updates

section Lookups

@[simp] theorem lookup_nil (k : K) : lookup ([] : Fields K S) k = none := rfl

theorem lookup_put (fields : Fields K S) (k : K) (v : Doc K S) (k' : K) :
    lookup (put fields k v) k' = if k' = k then some v else lookup fields k' := by
  unfold put
  cases hk : lookup fields k with
  | some c =>
    rw [Option.isSome_some, if_pos rfl, lookup_modifyField, hk]
    rfl
  | none =>
    rw [Option.isSome_none, if_neg Bool.false_ne_true, lookup_append, lookup_cons, lookup_nil]
    by_cases hk' : k' = k
    · rw [if_pos hk', hk', hk, if_pos rfl]
      rfl
    · rw [if_neg hk', if_neg (Ne.symm hk'), Option.or_none]

theorem lookup_remove (fields : Fields K S) (k k' : K) :
    lookup (remove fields k) k' = if k' = k then none else lookup fields k' :=
  lookup_filter fields k k'

theorem lookup_keep (allowed : K → Bool) (fields : Fields K S) {k : K} (hk : allowed k = true) :
    lookup (keep allowed fields) k = lookup fields k := by
  induction fields with
  | nil => rfl
  | cons p fields ih =>
    unfold keep at ih ⊢
    rw [List.filter_cons, lookup_cons]
    by_cases hp : p.1 = k
    · rw [if_pos (hp ▸ hk), lookup_cons, if_pos hp, if_pos hp]
    · rw [if_neg hp]
      split_ifs
      · rw [lookup_cons, if_neg hp, ih]
      · exact ih

theorem lookup_update (fields : Fields K S) (k : K) (f : Doc K S → Doc K S) (k' : K) :
    lookup (update fields k f) k' =
      if k' = k then (lookup fields k).map f else lookup fields k' := by
  unfold update
  cases hk : lookup fields k with
  | some v => exact lookup_put fields k (f v) k'
  | none =>
    dsimp only
    split_ifs with hk'
    · rw [hk', hk]
      rfl
    · rfl

theorem lookup_isSome_iff (fields : Fields K S) (k : K) :
    (lookup fields k).isSome ↔ k ∈ keys fields := by
  unfold lookup keys
  rw [Option.isSome_map, List.find?_isSome, List.mem_map]
  simp

end Lookups

section Keys

variable {fields : Fields K S} {k k' : K}

theorem mem_keys_put {v : Doc K S} (h : k' ∈ keys (put fields k v)) : k' = k ∨ k' ∈ keys fields := by
  unfold put at h
  split_ifs at h
  · rw [keys, keys_modifyField] at h
    exact .inr h
  · unfold keys at h ⊢
    rw [List.map_append, List.mem_append] at h
    rcases h with h | h
    · exact .inr h
    · exact .inl (List.mem_singleton.mp h)

theorem mem_keys_update {f : Doc K S → Doc K S} (h : k' ∈ keys (update fields k f)) :
    k' ∈ keys fields := by
  unfold update at h
  cases hk : lookup fields k with
  | none =>
    rw [hk] at h
    exact h
  | some v =>
    rw [hk] at h
    rcases mem_keys_put h with rfl | h
    · exact (lookup_isSome_iff fields k').mp (by rw [hk]; rfl)
    · exact h

theorem mem_keys_remove : k' ∈ keys (remove fields k) ↔ k' ≠ k ∧ k' ∈ keys fields := by
  unfold keys remove
  simp only [List.mem_map, List.mem_filter, decide_eq_true_eq]
  constructor
  · rintro ⟨p, ⟨hp, hne⟩, rfl⟩
    exact ⟨hne, p, hp, rfl⟩
  · rintro ⟨hne, p, hp, rfl⟩
    exact ⟨p, ⟨hp, hne⟩, rfl⟩

omit [DecidableEq K] in
theorem mem_keys_keep {allowed : K → Bool} (h : k' ∈ keys (keep allowed fields)) :
    allowed k' = true := by
  obtain ⟨p, hp, rfl⟩ := List.mem_map.mp h
  exact (List.mem_filter.mp hp).2

end Keys

end AllAiTools.Foundation.Doc
