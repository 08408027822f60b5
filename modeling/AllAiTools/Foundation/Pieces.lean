import Mathlib

namespace AllAiTools.Foundation.Pieces

variable {α β : Type}

theorem length_flatMap_le {f g : α → List β} {l : List α}
    (h : ∀ a ∈ l, (f a).length ≤ (g a).length) : (l.flatMap f).length ≤ (l.flatMap g).length := by
  induction l with
  | nil => simp
  | cons a l ih =>
    have hhead := h a List.mem_cons_self
    have htail := ih fun b hb ↦ h b (List.mem_cons_of_mem a hb)
    simp only [List.flatMap_cons, List.length_append]
    omega

/-- Where no piece of one text is longer than its counterpart, the texts agree exactly when all
their pieces do. -/
theorem flatMap_eq_iff {f g : α → List β} {l : List α}
    (h : ∀ a ∈ l, (f a).length ≤ (g a).length) :
    l.flatMap f = l.flatMap g ↔ ∀ a ∈ l, f a = g a := by
  induction l with
  | nil => simp
  | cons a l ih =>
    have hhead := h a List.mem_cons_self
    have htail : ∀ b ∈ l, (f b).length ≤ (g b).length := fun b hb ↦ h b (List.mem_cons_of_mem a hb)
    rw [List.flatMap_cons, List.flatMap_cons, List.forall_mem_cons, ← ih htail]
    constructor
    · intro he
      have hlen := congrArg List.length he
      have hrest := length_flatMap_le htail
      simp only [List.length_append] at hlen
      exact List.append_inj he (by omega)
    · rintro ⟨ha, hl⟩
      rw [ha, hl]

/-- Where the pieces of one text begin another one, nothing follows them exactly when all agree. -/
theorem flatMap_eq_append_iff {f g : α → List β} {l : List α} {rest : List β}
    (h : ∀ a ∈ l, (f a).length ≤ (g a).length) :
    l.flatMap f = l.flatMap g ++ rest ↔ (∀ a ∈ l, f a = g a) ∧ rest = [] := by
  rw [← flatMap_eq_iff h]
  constructor
  · intro he
    have hlen := congrArg List.length he
    have hle := length_flatMap_le h
    rw [List.length_append] at hlen
    have hrest : rest = [] := List.length_eq_zero_iff.mp (by omega)
    rw [hrest, List.append_nil] at he
    exact ⟨he, hrest⟩
  · rintro ⟨he, rfl⟩
    rw [he, List.append_nil]

/-- A text keeps no less than all that a sieve passes and all that it holds back of it. -/
theorem filters_take_one_iff {l : List α} {p : α → Bool} :
    (l.take 1).filter p = l.filter p ∧ (l.take 1).filter (!p ·) = l.filter (!p ·) ↔
      l.length ≤ 1 := by
  constructor
  · rintro ⟨hpass, hhold⟩
    have hone := List.length_eq_length_filter_add (l := l.take 1) p
    have hall := List.length_eq_length_filter_add (l := l) p
    rw [hpass, hhold, ← hall, List.length_take] at hone
    omega
  · intro h
    rw [List.take_of_length_le h]
    exact ⟨rfl, rfl⟩

theorem length_filter_take_le {l : List α} {p : α → Bool} {n : ℕ} :
    ((l.take n).filter p).length ≤ (l.filter p).length :=
  ((List.take_sublist n l).filter p).length_le

theorem intercalate_append (sep : List β) {l : List (List β)} (h : l ≠ []) :
    sep.intercalate l ++ sep = l.flatMap (· ++ sep) := by
  induction l with
  | nil => exact absurd rfl h
  | cons s rest ih =>
    by_cases hrest : rest = []
    · rw [hrest, List.intercalate_singleton, List.flatMap_singleton]
    · rw [List.intercalate_cons_of_ne_nil hrest, List.flatMap_cons, ← ih hrest]
      simp

theorem intercalate_eq_nil (sep : List β) {l : List (List β)} (h : ∀ s ∈ l, s ≠ []) :
    sep.intercalate l = [] ↔ l = [] := by
  constructor
  · intro hnil
    by_contra hne
    obtain ⟨s, rest, rfl⟩ := List.exists_cons_of_ne_nil hne
    have happ := intercalate_append sep hne
    rw [hnil, List.nil_append, List.flatMap_cons] at happ
    have hlen := congrArg List.length happ
    have hs := List.length_pos_iff.mpr (h s List.mem_cons_self)
    simp only [List.length_append] at hlen
    omega
  · rintro rfl
    rfl

/-- Texts picked from the same list and joined agree exactly when they are picked alike. -/
theorem intercalate_filterMap_eq_iff (sep : List β) {f g : α → Option (List β)} {l : List α}
    (hf : ∀ a ∈ l, f a ≠ some []) (hg : ∀ a ∈ l, g a ≠ some [])
    (hle : ∀ a ∈ l, ∀ s, f a = some s → ∃ t, g a = some t ∧ s.length ≤ t.length) :
    sep.intercalate (l.filterMap f) = sep.intercalate (l.filterMap g) ↔ ∀ a ∈ l, f a = g a := by
  have hwrap : ∀ h : α → Option (List β),
      (l.filterMap h).flatMap (· ++ sep) = l.flatMap fun a ↦ ((h a).map (· ++ sep)).getD [] := by
    intro h
    induction l with
    | nil => rfl
    | cons a l ih =>
      have hrest := ih (fun b hb ↦ hf b (List.mem_cons_of_mem a hb))
        (fun b hb ↦ hg b (List.mem_cons_of_mem a hb)) fun b hb ↦ hle b (List.mem_cons_of_mem a hb)
      cases ha : h a with
      | none => rw [List.filterMap_cons_none ha, List.flatMap_cons, ha, hrest]; rfl
      | some s => rw [List.filterMap_cons_some ha, List.flatMap_cons, List.flatMap_cons, ha, hrest]; rfl
  have hnonempty : ∀ h : α → Option (List β), (∀ a ∈ l, h a ≠ some []) → ∀ s ∈ l.filterMap h, s ≠ [] := by
    rintro h hh s hs rfl
    obtain ⟨a, ha, has⟩ := List.mem_filterMap.mp hs
    exact hh a ha has
  constructor
  · intro heq
    have hempty : l.filterMap f = [] ↔ l.filterMap g = [] := by
      rw [← intercalate_eq_nil sep (hnonempty f hf), heq, intercalate_eq_nil sep (hnonempty g hg)]
    by_cases hnil : l.filterMap f = []
    · intro a ha
      rw [List.filterMap_eq_nil_iff.mp hnil a ha, List.filterMap_eq_nil_iff.mp (hempty.mp hnil) a ha]
    · have hall := intercalate_append sep hnil
      rw [heq, intercalate_append sep fun h ↦ hnil (hempty.mpr h), hwrap, hwrap] at hall
      have hlen : ∀ a ∈ l, (((f a).map (· ++ sep)).getD []).length ≤ (((g a).map (· ++
          sep)).getD []).length := by
        intro a ha
        cases hfa : f a with
        | none => simp
        | some s =>
          obtain ⟨t, hga, hst⟩ := hle a ha s hfa
          rw [hga]
          simpa using hst
      intro a ha
      have hpiece := (flatMap_eq_iff hlen).mp hall.symm a ha
      cases hfa : f a with
      | none =>
        cases hga : g a with
        | none => rfl
        | some t =>
          rw [hfa, hga] at hpiece
          obtain ⟨rfl, -⟩ := List.append_eq_nil_iff.mp hpiece.symm
          exact absurd hga (hg a ha)
      | some s =>
        obtain ⟨t, hga, -⟩ := hle a ha s hfa
        rw [hfa, hga] at hpiece
        rw [hga, List.append_cancel_right hpiece]
  · intro h
    rw [List.filterMap_congr h]

theorem intercalate_filter_length_le (sep : List β) (p : List β → Bool) (l : List (List β)) :
    (sep.intercalate (l.filter p)).length ≤ (sep.intercalate l).length := by
  by_cases hnil : l.filter p = []
  · rw [hnil]
    exact Nat.zero_le _
  · have hne : l ≠ [] := fun h ↦ hnil (by rw [h, List.filter_nil])
    have hfiltered := congrArg List.length (intercalate_append sep hnil)
    have hall := congrArg List.length (intercalate_append sep hne)
    have hle : ((l.filter p).flatMap (· ++ sep)).length ≤ (l.flatMap (· ++ sep)).length :=
      (List.filter_sublist.flatMap _).length_le
    rw [List.length_append] at hfiltered hall
    omega

/-- What is stripped at both ends has nothing left to strip. -/
theorem strip_strip (p : α → Bool) (l : List α) :
    (((l.dropWhile p).rdropWhile p).dropWhile p).rdropWhile p = (l.dropWhile p).rdropWhile p := by
  have hhead : ((l.dropWhile p).rdropWhile p).dropWhile p = (l.dropWhile p).rdropWhile p := by
    rw [List.dropWhile_eq_self_iff]
    intro hpos
    rw [(List.rdropWhile_prefix p (l.dropWhile p)).getElem hpos]
    exact List.dropWhile_get_zero_not p l _
  rw [hhead]
  exact List.rdropWhile_idempotent p (l.dropWhile p)

theorem eraseDups_sublist [BEq α] (l : List α) : l.eraseDups.Sublist l := by
  induction hn : l.length using Nat.strong_induction_on generalizing l with
  | _ n ih =>
    cases l with
    | nil => exact List.Sublist.refl []
    | cons a l =>
      rw [List.eraseDups_cons]
      have hlt : (l.filter fun b ↦ !b == a).length < n := by
        have hle := List.length_filter_le (fun b ↦ !b == a) l
        rw [List.length_cons] at hn
        omega
      exact ((ih _ hlt _ rfl).trans List.filter_sublist).cons_cons a

theorem eraseDups_of_nodup [BEq α] [LawfulBEq α] {l : List α} (hl : l.Nodup) :
    l.eraseDups = l := by
  induction l with
  | nil => rfl
  | cons a l ih =>
    obtain ⟨ha, hl'⟩ := List.nodup_cons.mp hl
    have hfilter : l.filter (fun b ↦ !b == a) = l := by
      refine List.filter_eq_self.mpr fun b hb ↦ ?_
      have hne : b ≠ a := fun h ↦ ha (h ▸ hb)
      simpa using hne
    rw [List.eraseDups_cons, hfilter, ih hl']

theorem nodup_eraseDups [BEq α] [LawfulBEq α] (l : List α) : l.eraseDups.Nodup := by
  induction hn : l.length using Nat.strong_induction_on generalizing l with
  | _ n ih =>
    cases l with
    | nil => exact List.nodup_nil
    | cons a l =>
      have hlt : (l.filter fun b ↦ !b == a).length < n := by
        have hle := List.length_filter_le (fun b ↦ !b == a) l
        rw [List.length_cons] at hn
        omega
      rw [List.eraseDups_cons, List.nodup_cons]
      refine ⟨fun ha ↦ ?_, ih _ hlt _ rfl⟩
      simpa using (List.mem_filter.mp (List.mem_eraseDups.mp ha)).2

theorem eraseDups_eq_self_iff [BEq α] {l m : List α} (h : l.eraseDups = m) :
    l = m ↔ l.length = m.length := by
  constructor
  · exact congrArg List.length
  · intro hlen
    exact (((eraseDups_sublist l).eq_of_length (h ▸ hlen.symm)).symm).trans h

/-- Among elements told apart by a key, one is the only one with its key. -/
theorem filter_key_eq_singleton [DecidableEq α] [DecidableEq β] {key : α → β} {l : List α}
    (hnodup : (l.map key).Nodup) {a : α} (ha : a ∈ l) :
    l.filter (fun b ↦ key b = key a) = [a] := by
  have hsame : l.filter (fun b ↦ key b = key a) = l.filter (fun b ↦ b = a) := by
    refine List.filter_congr fun b hb ↦ ?_
    rw [decide_eq_decide]
    exact ⟨fun h ↦ List.inj_on_of_nodup_map hnodup hb ha h, congrArg key⟩
  rw [hsame, List.filter_eq, List.count_eq_one_of_mem hnodup.of_map ha]
  rfl

end AllAiTools.Foundation.Pieces
