import Mathlib

namespace AllAiTools.Foundation

/-- A dictionary, in the order its keys came in. -/
structure Dict (κ α : Type) where
  items : List (κ × α)
  nodup : (items.map Prod.fst).Nodup

namespace Dict

variable {κ α : Type} [DecidableEq κ]

def empty : Dict κ α := ⟨[], List.nodup_nil⟩

def keys (d : Dict κ α) : List κ := d.items.map Prod.fst

def get (d : Dict κ α) (k : κ) : Option α := d.items.lookup k

/-- A key that is there keeps its place. -/
def set (d : Dict κ α) (k : κ) (a : α) : Dict κ α :=
  if h : k ∈ d.keys then
    { items := d.items.map fun item ↦ if item.1 = k then (k, a) else item
      nodup := by
        have hkeys : (d.items.map fun item ↦ if item.1 = k then (k, a) else item).map Prod.fst =
            d.items.map Prod.fst := by
          rw [List.map_map]
          refine List.map_congr_left fun item _ ↦ ?_
          by_cases hk : item.1 = k <;> simp [hk]
        rw [hkeys]
        exact d.nodup }
  else
    { items := d.items ++ [(k, a)]
      nodup := by
        rw [List.map_append]
        exact d.nodup.append (List.nodup_singleton k) (by simpa [keys] using h) }

def filter (d : Dict κ α) (p : κ × α → Bool) : Dict κ α where
  items := d.items.filter p
  nodup := d.nodup.sublist (List.filter_sublist.map Prod.fst)

def pop (d : Dict κ α) (k : κ) : Dict κ α := d.filter fun item ↦ item.1 ≠ k

def map {β : Type} (f : α → β) (d : Dict κ α) : Dict κ β where
  items := d.items.map (Prod.map id f)
  nodup := by
    rw [List.map_map]
    exact d.nodup

theorem get_isSome (d : Dict κ α) (k : κ) : (d.get k).isSome ↔ k ∈ d.keys := by
  rw [get, keys]
  simp

theorem mem_keys_of_get {d : Dict κ α} {k : κ} {a : α} (h : d.get k = some a) : k ∈ d.keys :=
  (d.get_isSome k).mp (by rw [h]; rfl)

theorem get_eq_some_iff {d : Dict κ α} {k : κ} {a : α} : d.get k = some a ↔ (k, a) ∈ d.items := by
  rw [get, List.lookup_eq_some_iff]
  constructor
  · intro h
    obtain ⟨before, after, hitems, -⟩ := h
    rw [hitems]
    exact List.mem_append_right before List.mem_cons_self
  · intro h
    obtain ⟨before, after, hitems⟩ := List.append_of_mem h
    refine ⟨before, after, hitems, fun item hitem ↦ ?_⟩
    have hnodup := d.nodup
    rw [hitems, List.map_append, List.map_cons, List.nodup_append] at hnodup
    have hne := hnodup.2.2 item.1 (List.mem_map_of_mem hitem) k List.mem_cons_self
    simpa using Ne.symm hne

theorem mem_keys_set (d : Dict κ α) (k : κ) (a : α) {k' : κ} :
    k' ∈ (d.set k a).keys ↔ k' = k ∨ k' ∈ d.keys := by
  rw [set]
  split
  · rename_i h
    have hkeys : (d.items.map fun item ↦ if item.1 = k then (k, a) else item).map Prod.fst =
        d.items.map Prod.fst := by
      rw [List.map_map]
      refine List.map_congr_left fun item _ ↦ ?_
      by_cases hk : item.1 = k <;> simp [hk]
    rw [keys, hkeys]
    exact ⟨.inr, fun h' ↦ h'.elim (fun heq ↦ heq ▸ h) id⟩
  · rw [keys, List.map_append, List.mem_append, or_comm]
    simp [keys]

theorem mem_items_set (d : Dict κ α) (k : κ) (a : α) {k' : κ} {b : α} :
    (k', b) ∈ (d.set k a).items ↔ if k' = k then b = a else (k', b) ∈ d.items := by
  rw [set]
  split
  · rename_i h
    rw [List.mem_map]
    constructor
    · intro hmem
      obtain ⟨item, hitem, heq⟩ := hmem
      by_cases hk : item.1 = k
      · rw [if_pos hk] at heq
        obtain ⟨rfl, rfl⟩ := Prod.mk.inj heq
        exact (if_pos rfl).mpr rfl
      · rw [if_neg hk] at heq
        rw [heq] at hk hitem
        exact (if_neg hk).mpr hitem
    · intro hmem
      by_cases hk : k' = k
      · rw [if_pos hk] at hmem
        obtain ⟨item, hitem, hkey⟩ := List.mem_map.mp h
        exact ⟨item, hitem, by rw [if_pos hkey, hk, hmem]⟩
      · rw [if_neg hk] at hmem
        exact ⟨(k', b), hmem, if_neg hk⟩
  · rename_i h
    rw [List.mem_append, List.mem_singleton, Prod.mk.injEq]
    by_cases hk : k' = k
    · have hnot : (k', b) ∉ d.items := fun hmem ↦ h (List.mem_map.mpr ⟨(k', b), hmem, hk⟩)
      rw [if_pos hk]
      exact ⟨fun hmem ↦ (hmem.resolve_left hnot).2, fun hb ↦ .inr ⟨hk, hb⟩⟩
    · rw [if_neg hk]
      exact ⟨fun hmem ↦ hmem.resolve_right fun heq ↦ hk heq.1, .inl⟩

theorem get_set (d : Dict κ α) (k : κ) (a : α) : (d.set k a).get = Function.update d.get k (some a) := by
  funext k'
  refine Option.ext fun b ↦ ?_
  rw [get_eq_some_iff, mem_items_set]
  by_cases hk : k' = k
  · rw [if_pos hk, hk, Function.update_self, Option.some_inj, eq_comm]
  · rw [if_neg hk, Function.update_of_ne hk, get_eq_some_iff]

theorem get_filter_eq_some_iff {d : Dict κ α} {p : κ × α → Bool} {k : κ} {a : α} :
    (d.filter p).get k = some a ↔ d.get k = some a ∧ p (k, a) = true := by
  rw [get_eq_some_iff, get_eq_some_iff, filter, List.mem_filter]

theorem get_map_eq_some_iff {β : Type} {f : α → β} {d : Dict κ α} {k : κ} {b : β} :
    (d.map f).get k = some b ↔ ∃ a, d.get k = some a ∧ f a = b := by
  simp only [get_eq_some_iff, map, List.mem_map, Prod.exists, Prod.map_apply, id_eq, Prod.mk.injEq]
  constructor
  · intro h
    obtain ⟨k', a, hmem, rfl, hb⟩ := h
    exact ⟨a, hmem, hb⟩
  · intro h
    obtain ⟨a, hmem, hb⟩ := h
    exact ⟨k, a, hmem, rfl, hb⟩

omit [DecidableEq κ] in
theorem mem_keys_filter {d : Dict κ α} {p : κ × α → Bool} {k : κ} (h : k ∈ (d.filter p).keys) :
    k ∈ d.keys :=
  (List.filter_sublist.map Prod.fst).subset h

theorem mem_keys_pop (d : Dict κ α) (k : κ) {k' : κ} :
    k' ∈ (d.pop k).keys ↔ k' ∈ d.keys ∧ k' ≠ k := by
  simp only [keys, pop, filter, List.mem_map, List.mem_filter]
  constructor
  · rintro ⟨item, ⟨hmem, hne⟩, rfl⟩
    exact ⟨⟨item, hmem, rfl⟩, by simpa using hne⟩
  · rintro ⟨⟨item, hmem, rfl⟩, hne⟩
    exact ⟨item, ⟨hmem, by simpa using hne⟩, rfl⟩

end Dict

end AllAiTools.Foundation
