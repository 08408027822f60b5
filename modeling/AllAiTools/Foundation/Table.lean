import Mathlib

namespace AllAiTools.Foundation

/-- A stored table: its rows, no two of which share their primary key. -/
structure Table {κ α : Type} (key : α → κ) where
  rows : List α
  nodup : (rows.map key).Nodup

namespace Table

variable {κ α : Type} [DecidableEq κ] {key : α → κ}

def empty : Table key := ⟨[], List.nodup_nil⟩

def single (a : α) : Table key := ⟨[a], List.nodup_singleton _⟩

/-- The row with a given primary key. -/
def find (t : Table key) (k : κ) : Option α := t.rows.find? (fun a ↦ key a = k)

/-- `UPDATE` of the whole row with the key of `a`; nothing where there is none. -/
def save (t : Table key) (a : α) : Table key where
  rows := t.rows.map (fun b ↦ if key b = key a then a else b)
  nodup := by
    have h : key ∘ (fun b ↦ if key b = key a then a else b) = key := by
      funext b
      by_cases hb : key b = key a <;> simp [hb]
    rw [List.map_map, h]
    exact t.nodup

/-- `UPDATE` of all rows that leaves their keys as they are. -/
def mapRows (t : Table key) (f : α → α) (hf : ∀ a, key (f a) = key a) : Table key where
  rows := t.rows.map f
  nodup := by
    have h : key ∘ f = key := funext hf
    rw [List.map_map, h]
    exact t.nodup

/-- `INSERT`, refused by the primary key's unique index. -/
def insert (t : Table key) (a : α) : Option (Table key) :=
  if h : key a ∈ t.rows.map key then none
  else some ⟨a :: t.rows, List.nodup_cons.mpr ⟨h, t.nodup⟩⟩

/-- The row is written over the one with its key, or comes in new. -/
def put (t : Table key) (a : α) : Table key :=
  if h : key a ∈ t.rows.map key then t.save a
  else ⟨a :: t.rows, List.nodup_cons.mpr ⟨h, t.nodup⟩⟩

/-- `DELETE` of the row with a given primary key. -/
def remove (t : Table key) (k : κ) : Table key where
  rows := t.rows.filter (fun a ↦ key a ≠ k)
  nodup := t.nodup.sublist (List.filter_sublist.map key)

theorem find_key {t : Table key} {k : κ} {a : α} (h : t.find k = some a) : key a = k := by
  simpa using List.find?_some h

theorem find_mem {t : Table key} {k : κ} {a : α} (h : t.find k = some a) : a ∈ t.rows :=
  List.mem_of_find?_eq_some h

theorem find_eq_none {t : Table key} {k : κ} : t.find k = none ↔ k ∉ t.rows.map key := by
  simp [find]

theorem find_of_mem {t : Table key} {a : α} (h : a ∈ t.rows) : t.find (key a) = some a := by
  obtain ⟨rows, nodup⟩ := t
  simp only [find]
  induction rows with
  | nil => simp at h
  | cons b rows ih =>
    rw [List.map_cons, List.nodup_cons] at nodup
    rcases List.mem_cons.mp h with rfl | hr
    · simp
    · have hne : key b ≠ key a := fun he ↦ nodup.1 (he ▸ List.mem_map_of_mem hr)
      rw [List.find?_cons_of_neg (by simpa using hne)]
      exact ih nodup.2 hr

theorem find_save (t : Table key) (a : α) (k : κ) :
    (t.save a).find k = if key a = k then (t.find k).map (fun _ ↦ a) else t.find k := by
  obtain ⟨rows, nodup⟩ := t
  simp only [find, save]
  clear nodup
  induction rows with
  | nil => simp
  | cons b rows ih =>
    by_cases hk : key a = k
    · by_cases hb : key b = k
      · simp [hk, hb]
      · have hba : key b ≠ key a := fun h ↦ hb (h.trans hk)
        simp only [List.map_cons, if_neg hba, List.find?_cons, hb, decide_false]
        simpa [hk] using ih
    · by_cases hba : key b = key a
      · have hb : key b ≠ k := fun h ↦ hk (hba ▸ h)
        simp only [List.map_cons, if_pos hba, List.find?_cons, hk, hb, decide_false]
        simpa [hk] using ih
      · by_cases hb : key b = k
        · have hka : k ≠ key a := fun h ↦ hk h.symm
          simp [hk, hb, hka]
        · simp only [List.map_cons, if_neg hba, List.find?_cons, hb, decide_false]
          simpa [hk] using ih

@[simp] theorem find_save_self {t : Table key} {a b : α} (h : t.find (key a) = some b) :
    (t.save a).find (key a) = some a := by
  simp [find_save, h]

theorem find_save_of_ne (t : Table key) {a : α} {k : κ} (h : key a ≠ k) :
    (t.save a).find k = t.find k := by
  simp [find_save, h]

/-- Saving a row as it is stored changes nothing. -/
theorem save_of_find {t : Table key} {a : α} (h : t.find (key a) = some a) : t.save a = t := by
  obtain ⟨rows, nodup⟩ := t
  have hrows : rows.map (fun b ↦ if key b = key a then a else b) = rows := by
    refine (List.map_congr_left fun b hb ↦ ?_).trans (List.map_id rows)
    split_ifs with hk
    · have hb' := find_of_mem (t := ⟨rows, nodup⟩) hb
      rw [hk, h] at hb'
      exact Option.some.inj hb'
    · rfl
  simp only [save, hrows]

theorem save_save (t : Table key) {a b : α} (h : key a = key b) : (t.save a).save b = t.save b := by
  have hrow : (fun c ↦ if key c = key b then b else c) ∘ (fun c ↦ if key c = key a then a else c) =
      fun c ↦ if key c = key b then b else c := by
    funext c
    by_cases hc : key c = key b <;> simp [hc, h]
  simp only [save, List.map_map, hrow]

theorem mem_save {t : Table key} {a b : α} (h : b ∈ (t.save a).rows) : b = a ∨ b ∈ t.rows := by
  obtain ⟨c, hc, hb⟩ := List.mem_map.mp h
  by_cases hk : key c = key a
  · exact .inl (by simpa [hk] using hb.symm)
  · rw [if_neg hk] at hb
    exact .inr (hb ▸ hc)

theorem put_rows {t : Table key} {a : α} (h : key a ∉ t.rows.map key) :
    (t.put a).rows = a :: t.rows := by
  rw [put, dif_neg h]

theorem insert_eq_some {t t' : Table key} {a : α} (h : t.insert a = some t') :
    t.find (key a) = none ∧ t'.rows = a :: t.rows := by
  unfold insert at h
  split at h
  · cases h
  · rename_i hk
    cases h
    exact ⟨find_eq_none.mpr hk, rfl⟩

theorem insert_of_find_none {t : Table key} {a : α} (h : t.find (key a) = none) :
    ∃ t', t.insert a = some t' := by
  unfold insert
  rw [dif_neg (find_eq_none.mp h)]
  exact ⟨_, rfl⟩

theorem find_insert {t t' : Table key} {a : α} (h : t.insert a = some t') (k : κ) :
    t'.find k = if key a = k then some a else t.find k := by
  rw [find, (insert_eq_some h).2, List.find?_cons]
  by_cases hk : key a = k <;> simp [hk, find]

end Table

end AllAiTools.Foundation
