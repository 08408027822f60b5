import AllAiTools.NewApi.Relay.ParamOverride

namespace AllAiTools.NewApi.Relay.NegativeIndices

open Foundation ParamOverride
open Foundation.Joined

section Resolution

/-- The `k` of a segment that is `-k`. -/
def negativeOf : Text → Option ℕ
  | '-' :: ds => parseUint ds
  | _ => none

/-- A segment behind a resolved prefix. -/
def resolved (data : Json) (done : List Text) (s : Text) : Text :=
  match negativeOf s, data.get parseUint done with
  | some k, some (.arr items) =>
    if 1 ≤ k ∧ k ≤ items.length then digits (items.length - k) else s
  | _, _ => s

def resolveFrom (data : Json) : List Text → List Text → List Text
  | done, [] => done
  | done, s :: rest => resolveFrom data (done ++ [resolved data done s]) rest

/-- Every negative index is resolved in the array that the prefix before it leads to. -/
def Resolves (lib : PathLibrary) (data : Json) (path : Text) : Prop :=
  processNegativeIndex lib data path = dotted (resolveFrom data [] (segments path))

variable {data : Json} {done : List Text}

theorem resolved_eq_self {s : Text}
    (h : ∀ k items, negativeOf s = some k → data.get parseUint done = some (.arr items) →
      1 ≤ k → items.length < k) : resolved data done s = s := by
  unfold resolved
  split
  · rename_i k items hk harray
    rw [if_neg]
    rintro ⟨hpos, hle⟩
    exact absurd (h k items hk harray hpos) (by omega)
  · rfl

theorem resolved_of_not_array (hnot : ∀ items, data.get parseUint done ≠ some (.arr items))
    (s : Text) : resolved data done s = s :=
  resolved_eq_self fun _ items _ harray ↦ absurd harray (hnot items)

theorem resolved_of_negativeOf {s : Text} (hs : ∀ k, negativeOf s = some k → k = 0) :
    resolved data done s = s :=
  resolved_eq_self fun k _ hk _ hpos ↦ absurd (hs k hk) (by omega)

theorem resolveFrom_extends (rest : List Text) : done <+: resolveFrom data done rest := by
  induction rest generalizing done with
  | nil => exact List.prefix_rfl
  | cons s rest ih => exact (List.prefix_append done _).trans ih

theorem resolveFrom_append {pre : List Text}
    (hpre : ∀ p s q, pre = p ++ s :: q → resolved data (done ++ p) s = s) (rest : List Text) :
    resolveFrom data done (pre ++ rest) = resolveFrom data (done ++ pre) rest := by
  induction pre generalizing done with
  | nil => rw [List.nil_append, List.append_nil]
  | cons s pre ih =>
    have hfirst := hpre [] s pre rfl
    rw [List.append_nil] at hfirst
    rw [List.cons_append, resolveFrom, hfirst, ih, List.append_assoc, List.singleton_append]
    intro p t q hsplit
    rw [List.append_assoc, List.singleton_append]
    exact hpre (s :: p) t q (by rw [hsplit, List.cons_append])

theorem resolveFrom_unchanged {rest : List Text}
    (hrest : ∀ p s q, rest = p ++ s :: q → resolved data (done ++ p) s = s) :
    resolveFrom data done rest = done ++ rest := by
  have happend := resolveFrom_append hrest []
  rwa [List.append_nil, resolveFrom] at happend

theorem not_mem_digits {c : Char} (hc : c.isDigit = false) (n : ℕ) : c ∉ digits n := by
  intro hmem
  cases hc.symm.trans (isDigit_of_mem_digits hmem)

theorem resolved_dots {s : Text} (hs : '.' ∉ s) : '.' ∉ resolved data done s := by
  unfold resolved
  split
  · split
    · exact not_mem_digits rfl _
    · exact hs
  · exact hs

theorem resolveFrom_dots {rest : List Text} (hdone : ∀ s ∈ done, '.' ∉ s)
    (hrest : ∀ s ∈ rest, '.' ∉ s) : ∀ s ∈ resolveFrom data done rest, '.' ∉ s := by
  induction rest generalizing done with
  | nil => exact hdone
  | cons s rest ih =>
    refine ih ?_ fun r hr ↦ hrest r (List.mem_cons_of_mem s hr)
    intro r hr
    rcases List.mem_append.mp hr with hr | hr
    · exact hdone r hr
    · rw [List.mem_singleton] at hr
      exact hr ▸ resolved_dots (hrest s List.mem_cons_self)

end Resolution

section Matches

theorem leadingNegative_spec {s t : Text} (h : leadingNegative s = some t) :
    ∃ ds, t = '-' :: ds ∧ ds ≠ [] ∧ ds.all Char.isDigit = true ∧ t <+: s := by
  unfold leadingNegative at h
  split at h
  · rename_i rest
    split at h
    · cases h
    · rename_i hne
      cases h
      refine ⟨_, rfl, hne, ?_, List.cons_prefix_cons.mpr ⟨rfl, List.takeWhile_prefix _⟩⟩
      exact List.all_eq_true.mpr fun c hc ↦ List.mem_takeWhile_imp hc
  · cases h

theorem negativeOf_eq (s : Text) :
    negativeOf s = if leadingNegative s = some s then some (value (s.drop 1)) else none := by
  unfold negativeOf
  split
  · rename_i ds
    rw [List.drop_one, List.tail_cons, leadingNegative, parseUint]
    by_cases hdigits : ds ≠ [] ∧ ds.all Char.isDigit = true
    · have htake : ds.takeWhile Char.isDigit = ds :=
        List.takeWhile_eq_self_iff.mpr (List.all_eq_true.mp hdigits.2)
      rw [if_pos hdigits, htake, if_neg hdigits.1, if_pos rfl]
    · rw [if_neg hdigits]
      split
      · simp
      · rename_i hne
        rw [if_neg]
        intro hsame
        rw [Option.some.injEq, List.cons.injEq] at hsame
        have htake := List.takeWhile_eq_self_iff.mp hsame.2
        refine hdigits ⟨?_, List.all_eq_true.mpr htake⟩
        rintro rfl
        exact hne rfl
  · rename_i hshape
    have hnone : leadingNegative s = none := by
      unfold leadingNegative
      split
      · rename_i rest
        exact absurd rfl (hshape rest)
      · rfl
    rw [hnone, if_neg (by simp)]

theorem leadingNegative_append {s : Text} (rest : Text) :
    leadingNegative (s ++ '.' :: rest) = leadingNegative s := by
  cases s with
  | nil => rfl
  | cons c s =>
    have htake : (s ++ '.' :: rest).takeWhile Char.isDigit = s.takeWhile Char.isDigit := by
      rw [List.takeWhile_append]
      split
      · rename_i hlen
        have hall := List.takeWhile_prefix (p := Char.isDigit) (l := s) |>.eq_of_length hlen
        rw [hall, List.takeWhile_cons_of_neg (by decide), List.append_nil]
      · rfl
    unfold leadingNegative
    rw [List.cons_append]
    split
    · rename_i hcons
      cases hcons
      rw [htake]
      rfl
    · rename_i hshape
      split
      · rename_i hcons
        cases hcons
        exact absurd rfl (hshape _)
      · rfl

theorem negativeMatches_skip {s : Text} (hs : '.' ∉ s) (rest : Text) :
    negativeMatches (s ++ rest) = negativeMatches rest := by
  induction s with
  | nil => rfl
  | cons c s ih =>
    have hc : c ≠ '.' := fun h ↦ hs (h ▸ List.mem_cons_self)
    rw [List.cons_append, negativeMatches, if_neg hc, ih fun h ↦ hs (List.mem_cons_of_mem c h)]

theorem negativeMatches_dotted {s : Text} {rest : List Text} (hs : '.' ∉ s)
    (hrest : ∀ r ∈ rest, '.' ∉ r) :
    negativeMatches (dotted (s :: rest)) = rest.filterMap leadingNegative := by
  unfold dotted
  induction rest generalizing s with
  | nil =>
    have hskip := negativeMatches_skip hs []
    rw [List.append_nil, negativeMatches] at hskip
    rw [joined_singleton, hskip, List.filterMap_nil]
  | cons r rest ih =>
    have hr := hrest r List.mem_cons_self
    have hfirst : leadingNegative (joined '.' (r :: rest)) = leadingNegative r := by
      cases rest with
      | nil => rw [joined_singleton]
      | cons r' rest => rw [joined_cons '.' r (List.cons_ne_nil r' rest), leadingNegative_append]
    rw [joined_cons '.' s (List.cons_ne_nil r rest), negativeMatches_skip hs, negativeMatches,
      if_pos rfl, hfirst, ih hr fun q hq ↦ hrest q (List.mem_cons_of_mem r hq)]
    cases hneg : leadingNegative r with
    | none => rw [List.filterMap_cons_none hneg]; rfl
    | some t => rw [List.filterMap_cons_some hneg]; rfl

end Matches

section Lookups

theorem trimDot_of_not_mem (path : Text) {last : Text} (hlast : last ≠ []) (hdot : '.' ∉ last) :
    trimDot (path ++ last) = path ++ last := by
  unfold trimDot
  rw [if_neg]
  intro hdot'
  rw [List.getLast?_append_of_ne_nil _ hlast] at hdot'
  exact hdot (List.mem_of_getLast? hdot')

/-- Where the array of a negative index is looked up. -/
def address (pre : List Text) (start : Text) : List Text :=
  if start = [] then pre else pre ++ [start]

theorem trimDot_joined (pre : List Text) {start : Text} (hdot : '.' ∉ start) :
    trimDot (joined '.' (pre ++ [start])) = dotted (address pre start) := by
  unfold address dotted
  by_cases hstart : start = []
  · subst hstart
    rw [if_pos rfl]
    by_cases hpre : pre = []
    · subst hpre
      rfl
    · rw [joined_snoc '.' [] hpre, trimDot, if_pos (by simp), List.dropLast_concat]
  · rw [if_neg hstart]
    by_cases hpre : pre = []
    · subst hpre
      rw [List.nil_append, joined_singleton]
      exact trimDot_of_not_mem [] hstart hdot
    · rw [joined_snoc '.' start hpre]
      have htrim := trimDot_of_not_mem (joined '.' pre ++ ['.']) hstart hdot
      rwa [List.append_assoc, List.singleton_append] at htrim

variable {lib : PathLibrary} {data : Json}

/-- The index that a match is replaced with. -/
def actualIndex (lib : PathLibrary) (data : Json) (path negIndex : Text) : Option ℕ :=
  match lib.getBytes data (trimDot (before negIndex path)) with
  | some (.arr items) =>
    if 1 ≤ value (negIndex.drop 1) ∧ value (negIndex.drop 1) ≤ items.length then
      some (items.length - value (negIndex.drop 1)) else none
  | _ => none

theorem processNegativeIndex_eq (path : Text) : processNegativeIndex lib data path =
    (negativeMatches path).foldl (fun result negIndex ↦
      (actualIndex lib data path negIndex).elim result fun i ↦
        replaceFirst ('.' :: negIndex) ('.' :: digits i) result) path := by
  unfold processNegativeIndex
  congr
  funext result negIndex
  unfold actualIndex atoi
  cases lib.getBytes data (trimDot (before negIndex path)) with
  | none => rfl
  | some found =>
    cases found with
    | leaf s => rfl
    | obj fields => rfl
    | arr items =>
      dsimp only
      by_cases hrange : 1 ≤ value (negIndex.drop 1) ∧ value (negIndex.drop 1) ≤ items.length
      · rw [if_pos hrange, if_pos (by omega), Option.elim_some]
        congr 3
        omega
      · rw [if_neg hrange, if_neg (by omega), Option.elim_none]

theorem address_segment {pre post : List Text} {s : Text}
    (hsegs : ∀ x ∈ pre ++ s :: post, Segment x) (t : Text) :
    ∀ x ∈ address pre (before t s), Segment x := by
  have hseg := hsegs s (by simp)
  have hstart := (before_starts t s).subset
  intro x hx
  unfold address at hx
  split at hx
  · exact hsegs x (List.mem_append_left _ hx)
  · rename_i hne
    rcases List.mem_append.mp hx with hx | hx
    · exact hsegs x (List.mem_append_left _ hx)
    · rw [List.mem_singleton] at hx
      subst hx
      exact ⟨fun h ↦ hseg.dots (hstart h), hne, fun c hc ↦ hseg.plain c (hstart hc)⟩

/-- The array of a match is looked up at the first occurrence of its text, before anything is
resolved. -/
theorem lookup_eq (hlib : lib.Exact) {pre post : List Text} {s t : Text}
    (hsegs : ∀ x ∈ pre ++ s :: post, Segment x) (ht : t ≠ []) (hdot : '.' ∉ t)
    (hpre : ∀ p ∈ pre, ¬ t <:+: p) (hs : t <:+: s) :
    lib.getBytes data (trimDot (before t (dotted (pre ++ s :: post)))) =
      data.get parseUint (segments (dotted (address pre (before t s)))) := by
  have hseg := hsegs s (by simp)
  have hstart := (before_starts t s).subset
  have haddress := address_segment hsegs t
  have hbefore : before t (joined '.' (pre ++ s :: post)) = _ := before_joined ht hdot hpre hs
  unfold dotted at hbefore ⊢
  rw [hbefore, trimDot_joined pre fun h ↦ hseg.dots (hstart h)]
  exact hlib.get data _ (dotted_dotted haddress)

end Lookups

section Folds

variable {lib : PathLibrary} {data : Json} {path : Text}

/-- What one match does to the segments behind the first. -/
def retargeted (lib : PathLibrary) (data : Json) (path : Text) (rest : List Text)
    (negIndex : Text) : List Text :=
  (actualIndex lib data path negIndex).elim rest fun i ↦ retarget negIndex (digits i) rest

theorem retargeted_dots {rest : List Text} (hrest : ∀ r ∈ rest, '.' ∉ r) (negIndex : Text) :
    ∀ r ∈ retargeted lib data path rest negIndex, '.' ∉ r := by
  unfold retargeted
  cases actualIndex lib data path negIndex with
  | none => exact hrest
  | some i => exact retarget_dots hrest (not_mem_digits rfl i)

theorem foldl_replaceFirst {s : Text} (hs : '.' ∉ s) (negs : List Text)
    (hnegs : ∀ t ∈ negs, '.' ∉ t) {rest : List Text} (hrest : ∀ r ∈ rest, '.' ∉ r) :
    negs.foldl (fun result negIndex ↦ (actualIndex lib data path negIndex).elim result fun i ↦
        replaceFirst ('.' :: negIndex) ('.' :: digits i) result) (dotted (s :: rest)) =
      dotted (s :: negs.foldl (retargeted lib data path) rest) := by
  induction negs generalizing rest with
  | nil => rfl
  | cons t negs ih =>
    rw [List.foldl_cons, List.foldl_cons]
    have hstep : ((actualIndex lib data path t).elim (dotted (s :: rest)) fun i ↦
        replaceFirst ('.' :: t) ('.' :: digits i) (dotted (s :: rest))) =
        dotted (s :: retargeted lib data path rest t) := by
      unfold retargeted
      cases actualIndex lib data path t with
      | none => rfl
      | some i => exact replaceFirst_joined (hnegs t List.mem_cons_self) (digits i) hs hrest
    rw [hstep]
    exact ih (fun q hq ↦ hnegs q (List.mem_cons_of_mem t hq)) (retargeted_dots hrest t)

theorem not_mem_leadingNegative {s t : Text} (h : leadingNegative s = some t) (hs : '.' ∉ s) :
    '.' ∉ t := by
  obtain ⟨-, -, -, -, hstarts⟩ := leadingNegative_spec h
  exact fun hdot ↦ hs (hstarts.subset hdot)

theorem processNegativeIndex_dotted {s : Text} {rest : List Text} (hs : '.' ∉ s)
    (hrest : ∀ r ∈ rest, '.' ∉ r) :
    processNegativeIndex lib data (dotted (s :: rest)) = dotted (s ::
      (rest.filterMap leadingNegative).foldl (retargeted lib data (dotted (s :: rest))) rest) := by
  rw [processNegativeIndex_eq, negativeMatches_dotted hs hrest]
  refine foldl_replaceFirst hs _ ?_ hrest
  intro t ht
  obtain ⟨r, hr, hneg⟩ := List.mem_filterMap.mp ht
  exact not_mem_leadingNegative hneg (hrest r hr)

theorem foldl_retargeted_none {negs : List Text}
    (hnone : ∀ t ∈ negs, actualIndex lib data path t = none) (rest : List Text) :
    negs.foldl (retargeted lib data path) rest = rest := by
  induction negs with
  | nil => rfl
  | cons t negs ih =>
    rw [List.foldl_cons, retargeted, hnone t List.mem_cons_self, Option.elim_none]
    exact ih fun q hq ↦ hnone q (List.mem_cons_of_mem t hq)

/-- The only match that finds an array replaces its own segment, if no earlier one starts with
its text. -/
theorem foldl_retargeted_one {earlier later : List Text} {t : Text}
    (ht : leadingNegative t = some t) (hfresh : ∀ r ∈ earlier, ¬ t <+: r)
    (hearlier : ∀ r ∈ earlier, ∀ u, leadingNegative r = some u → actualIndex lib data path u = none)
    (hlater : ∀ r ∈ later, ∀ u, leadingNegative r = some u → actualIndex lib data path u = none) :
    ((earlier ++ t :: later).filterMap leadingNegative).foldl (retargeted lib data path)
        (earlier ++ t :: later) =
      earlier ++ (actualIndex lib data path t).elim t digits :: later := by
  have hnone {l : List Text}
      (hl : ∀ r ∈ l, ∀ u, leadingNegative r = some u → actualIndex lib data path u = none) :
      ∀ u ∈ l.filterMap leadingNegative, actualIndex lib data path u = none := by
    intro u hu
    obtain ⟨r, hr, hneg⟩ := List.mem_filterMap.mp hu
    exact hl r hr u hneg
  rw [List.filterMap_append, List.filterMap_cons_some ht, List.foldl_append, List.foldl_cons,
    foldl_retargeted_none (hnone hearlier), foldl_retargeted_none (hnone hlater)]
  unfold retargeted
  cases actualIndex lib data path t with
  | none => rfl
  | some i =>
    rw [Option.elim_some, Option.elim_some, retarget_append hfresh, retarget,
      if_pos List.prefix_rfl, List.drop_length, List.append_nil]

theorem not_prefix_digits (ds : Text) (i : ℕ) (tail : Text) :
    ¬ '-' :: ds <+: digits i ++ tail := by
  intro h
  cases hdigits : digits i with
  | nil => exact digits_ne_nil i hdigits
  | cons c cs =>
    rw [hdigits, List.cons_append, List.cons_prefix_cons] at h
    have hdigit := isDigit_of_mem_digits (hdigits ▸ List.mem_cons_self : c ∈ digits i)
    rw [← h.1] at hdigit
    cases hdigit

/-- Every match of a text that finds an array costs a segment that starts with it. -/
theorem countP_foldl {ds : Text} {i : ℕ}
    (hit : actualIndex lib data path ('-' :: ds) = some i) (negs rest : List Text) :
    ((negs.foldl (retargeted lib data path) rest).countP fun s ↦ '-' :: ds <+: s) ≤
      (rest.countP fun s ↦ '-' :: ds <+: s) - negs.count ('-' :: ds) := by
  induction negs generalizing rest with
  | nil => exact le_rfl
  | cons t negs ih =>
    rw [List.foldl_cons]
    have hrest := ih (retargeted lib data path rest t)
    by_cases ht : t = '-' :: ds
    · subst ht
      have hstep :
          retargeted lib data path rest ('-' :: ds) = retarget ('-' :: ds) (digits i) rest := by
        rw [retargeted, hit, Option.elim_some]
      rw [hstep, countP_retarget fun tail ↦ not_prefix_digits ds i tail] at hrest
      rw [hstep, List.count_cons_self]
      omega
    · have hstep : (retargeted lib data path rest t).countP (fun s ↦ '-' :: ds <+: s) ≤
          rest.countP fun s ↦ '-' :: ds <+: s := by
        unfold retargeted
        cases actualIndex lib data path t with
        | none => exact le_rfl
        | some j => exact countP_retarget_le (fun tail ↦ not_prefix_digits ds j tail) rest
      rw [List.count_cons_of_ne ht]
      omega

end Folds

section Sufficient

variable {lib : PathLibrary} {data : Json}

/-- A segment that starts with a negative index, and perhaps goes on behind it. -/
def Significant (s : Text) : Prop := ∃ t, leadingNegative s = some t ∧ 1 ≤ value (t.drop 1)

/-- The first segment is no negative index, and at most one later segment starts with one: it is
nothing else, and its text does not stand in a segment before it. -/
structure Unambiguous (segs : List Text) : Prop where
  first : ∀ s rest, segs = s :: rest → ∀ k, negativeOf s = some k → k = 0
  only : ∀ pre s post, segs = pre ++ s :: post → pre ≠ [] → Significant s →
    negativeOf s ≠ none ∧ (∀ p ∈ pre, ¬ s <:+: p) ∧ ∀ p ∈ post, ¬ Significant p

theorem leadingNegative_self {s : Text} (hs : negativeOf s ≠ none) : leadingNegative s = some s := by
  rw [negativeOf_eq] at hs
  by_contra hnot
  exact hs (if_neg hnot)

theorem resolved_of_not_significant {s : Text} (hs : ¬ Significant s) (done : List Text) :
    resolved data done s = s := by
  refine resolved_of_negativeOf fun k hk ↦ ?_
  rw [negativeOf_eq] at hk
  split at hk
  · rename_i hself
    cases hk
    by_contra hne
    exact hs ⟨s, hself, Nat.pos_of_ne_zero hne⟩
  · cases hk

theorem actualIndex_of_not_significant {s t path : Text} (hs : ¬ Significant s)
    (ht : leadingNegative s = some t) : actualIndex lib data path t = none := by
  have hzero : ¬ 1 ≤ value (t.drop 1) := fun h ↦ hs ⟨t, ht, h⟩
  unfold actualIndex
  split
  · rw [if_neg fun h ↦ hzero h.1]
  · rfl

theorem leadingNegative_ne_nil {s t : Text} (h : leadingNegative s = some t) : t ≠ [] := by
  obtain ⟨ds, rfl, -⟩ := leadingNegative_spec h
  exact List.cons_ne_nil _ _

/-- A negative index whose text is new is looked up where the prefix before it leads to. -/
theorem lookup_fresh (hlib : lib.Exact) {pre post : List Text} {t : Text}
    (hsegs : ∀ x ∈ pre ++ t :: post, Segment x) (hne : pre ≠ []) (ht : leadingNegative t = some t)
    (hfresh : ∀ p ∈ pre, ¬ t <:+: p) :
    lib.getBytes data (trimDot (before t (dotted (pre ++ t :: post)))) =
      data.get parseUint pre := by
  rw [lookup_eq hlib hsegs (leadingNegative_ne_nil ht) (hsegs t (by simp)).dots hfresh
    List.infix_rfl, before_of_start List.prefix_rfl, address, if_pos rfl,
    segments_dotted (fun x hx ↦ hsegs x (List.mem_append_left _ hx)) hne]

theorem actualIndex_fresh (hlib : lib.Exact) {pre post : List Text} {t : Text}
    (hsegs : ∀ x ∈ pre ++ t :: post, Segment x) (hne : pre ≠ []) (ht : leadingNegative t = some t)
    (hfresh : ∀ p ∈ pre, ¬ t <:+: p) :
    (actualIndex lib data (dotted (pre ++ t :: post)) t).elim t digits = resolved data pre t := by
  unfold actualIndex resolved
  rw [lookup_fresh hlib hsegs hne ht hfresh, negativeOf_eq, if_pos ht]
  cases data.get parseUint pre with
  | none => rfl
  | some found =>
    cases found with
    | leaf s => rfl
    | obj fields => rfl
    | arr items =>
      dsimp only
      split
      · rfl
      · rfl

theorem resolves_of_unambiguous (hlib : lib.Exact) {path : Text} (hpath : Dotted path)
    (hgood : Unambiguous (segments path)) (data : Json) : Resolves lib data path := by
  have hjoin : dotted (segments path) = path := joined_splitOn '.' path
  have hdots : ∀ s ∈ segments path, '.' ∉ s := fun s hs ↦ not_mem_of_mem_splitOn hs
  have hne : segments path ≠ [] := List.splitOn_ne_nil _ _
  have hseg : segments path ≠ [[]] → ∀ s ∈ segments path, Segment s := by
    intro hempty s hs
    refine segment_of_mem hpath ?_ hs
    rintro rfl
    exact hempty (List.splitOn_nil _)
  unfold Resolves
  generalize segments path = segs at *
  subst hjoin
  obtain ⟨first, rest, rfl⟩ := List.exists_cons_of_ne_nil hne
  have hfirst : resolved data [] first = first :=
    resolved_of_negativeOf (hgood.first first rest rfl)
  have hdots' : ∀ r ∈ rest, '.' ∉ r := fun r hr ↦ hdots r (List.mem_cons_of_mem first hr)
  rw [processNegativeIndex_dotted (hdots first List.mem_cons_self) hdots', resolveFrom, hfirst,
    List.nil_append]
  congr 1
  by_cases hany : ∃ s ∈ rest, Significant s
  · obtain ⟨s, hs, hsig⟩ := hany
    obtain ⟨u, w, rfl⟩ := List.append_of_mem hs
    obtain ⟨hwhole, hfresh, halone⟩ :=
      hgood.only (first :: u) s w rfl (List.cons_ne_nil first u) hsig
    have hself := leadingNegative_self hwhole
    have hearlier : ∀ r ∈ u, ¬ Significant r := by
      intro r hr hsig'
      obtain ⟨u₁, u₂, rfl⟩ := List.append_of_mem hr
      have honly := hgood.only (first :: u₁) r (u₂ ++ s :: w) (by simp)
        (List.cons_ne_nil first u₁) hsig'
      exact honly.2.2 s (by simp) hsig
    rw [foldl_retargeted_one hself
      (fun r hr h ↦ hfresh r (List.mem_cons_of_mem first hr) h.isInfix)
      (fun r hr t ht ↦ actualIndex_of_not_significant (hearlier r hr) ht)
      fun r hr t ht ↦ actualIndex_of_not_significant (halone r hr) ht]
    have hactual : (actualIndex lib data (dotted (first :: u ++ s :: w)) s).elim s digits = _ :=
      actualIndex_fresh hlib (hseg (by simp)) (List.cons_ne_nil first u) hself hfresh
    rw [List.cons_append] at hactual
    rw [hactual, resolveFrom_append, resolveFrom, resolveFrom_unchanged]
    · simp
    · intro p r q hsplit
      exact resolved_of_not_significant (halone r (by simp [hsplit])) _
    · intro p r q hsplit
      exact resolved_of_not_significant (hearlier r (by simp [hsplit])) _
  · rw [foldl_retargeted_none, resolveFrom_unchanged]
    · rfl
    · intro p r q hsplit
      exact resolved_of_not_significant (fun hsig ↦ hany ⟨r, by simp [hsplit], hsig⟩) _
    · intro t ht
      obtain ⟨r, hr, hneg⟩ := List.mem_filterMap.mp ht
      exact actualIndex_of_not_significant (fun hsig ↦ hany ⟨r, hr, hsig⟩) hneg

end Sufficient

section Necessary

variable {lib : PathLibrary} {data : Json}

def row (n : ℕ) : Json := .arr (List.replicate n (.leaf .null))

/-- Objects with one field each. -/
def nest : List Text → Json → Json
  | [], inner => inner
  | k :: path, inner => .obj [(k, nest path inner)]

theorem get_nest (path : List Text) (inner : Json) (below : List Text) :
    (nest path inner).get parseUint (path ++ below) = inner.get parseUint below := by
  induction path with
  | nil => rfl
  | cons k path ih =>
    rw [nest, List.cons_append, Doc.get_cons]
    simpa [Doc.child, Doc.lookup] using ih

/-- The only arrays of such a document are those of the innermost one. -/
theorem arr_of_get_nest {path below : List Text} {inner : Json} {items : List Json}
    (h : (nest path inner).get parseUint below = some (.arr items)) :
    ∃ rest, below = path ++ rest ∧ inner.get parseUint rest = some (.arr items) := by
  induction path generalizing below with
  | nil => exact ⟨below, rfl, h⟩
  | cons k path ih =>
    rw [nest] at h
    cases below with
    | nil => cases h
    | cons k' below =>
      rw [Doc.get_cons, Doc.child] at h
      obtain ⟨c, hc, hget⟩ := Option.bind_eq_some_iff.mp h
      by_cases hk : k = k'
      · subst hk
        have hsame : c = nest path inner := by simpa [Doc.lookup, eq_comm] using hc
        subst hsame
        obtain ⟨rest, rfl, hrest⟩ := ih hget
        exact ⟨rest, rfl, hrest⟩
      · simp [Doc.lookup, hk] at hc

theorem arr_of_get_row {n : ℕ} {below : List Text} {items : List Json}
    (h : (row n).get parseUint below = some (.arr items)) : below = [] ∧ items.length = n := by
  cases below with
  | nil =>
    cases h
    exact ⟨rfl, List.length_replicate⟩
  | cons k below =>
    rw [row, Doc.get_cons, Doc.child] at h
    obtain ⟨c, hc, hget⟩ := Option.bind_eq_some_iff.mp h
    obtain ⟨i, -, hitem⟩ := Option.bind_eq_some_iff.mp hc
    have hleaf := List.eq_of_mem_replicate (List.mem_of_getElem? hitem)
    subst hleaf
    cases below with
    | nil => cases hget
    | cons k' below => cases hget

theorem value_append_lt {ds more : Text} (hpos : 1 ≤ value ds) (hne : more ≠ []) :
    value ds < value (ds ++ more) := by
  induction more using List.reverseRecOn with
  | nil => exact absurd rfl hne
  | append_singleton more c ih =>
    rw [← List.append_assoc, value_snoc]
    by_cases hmore : more = []
    · subst hmore
      rw [List.append_nil]
      omega
    · have hlt := ih hmore
      omega

theorem foldl_retargeted_dots {path : Text} (negs : List Text) {rest : List Text}
    (hrest : ∀ r ∈ rest, '.' ∉ r) :
    ∀ r ∈ negs.foldl (retargeted lib data path) rest, '.' ∉ r := by
  induction negs generalizing rest with
  | nil => exact hrest
  | cons t negs ih => exact ih (retargeted_dots hrest t)

theorem resolves_segments {first : Text} {rest : List Text}
    (hdots : ∀ s ∈ first :: rest, '.' ∉ s) (h : Resolves lib data (dotted (first :: rest))) :
    first :: (rest.filterMap leadingNegative).foldl
        (retargeted lib data (dotted (first :: rest))) rest =
      resolveFrom data [] (first :: rest) := by
  have hfirst := hdots first List.mem_cons_self
  have hrest : ∀ r ∈ rest, '.' ∉ r := fun r hr ↦ hdots r (List.mem_cons_of_mem first hr)
  have hsplit : segments (dotted (first :: rest)) = first :: rest :=
    splitOn_joined hdots (List.cons_ne_nil first rest)
  unfold Resolves at h
  rw [hsplit, processNegativeIndex_dotted hfirst hrest] at h
  refine joined_injective ?_ (resolveFrom_dots (by simp) hdots) (List.cons_ne_nil _ _) ?_ h
  · intro r hr
    rcases List.mem_cons.mp hr with rfl | hr
    · exact hfirst
    · exact foldl_retargeted_dots _ hrest r hr
  · intro hnil
    have hstarts : [] ++ [resolved data [] first] <+: resolveFrom data [] (first :: rest) :=
      resolveFrom_extends rest
    rw [hnil] at hstarts
    simp at hstarts

theorem count_filterMap_le (t : Text) (rest : List Text) :
    (rest.filterMap leadingNegative).count t ≤ rest.countP fun s ↦ t <+: s := by
  induction rest with
  | nil => exact le_rfl
  | cons r rest ih =>
    cases hneg : leadingNegative r with
    | none =>
      rw [List.filterMap_cons_none hneg, List.countP_cons]
      omega
    | some u =>
      rw [List.filterMap_cons_some hneg, List.count_cons, List.countP_cons]
      by_cases hu : u = t
      · subst hu
        obtain ⟨-, -, -, -, hstarts⟩ := leadingNegative_spec hneg
        simp only [beq_self_eq_true, if_true, hstarts, decide_true]
        omega
      · have hbeq : (u == t) = false := beq_eq_false_iff_ne.mpr hu
        simp only [hbeq, Bool.false_eq_true, if_false]
        omega

theorem first_of_resolves {first : Text} {rest : List Text} (hdots : ∀ s ∈ first :: rest, '.' ∉ s)
    (hall : ∀ data, Resolves lib data (dotted (first :: rest))) (k : ℕ)
    (hk : negativeOf first = some k) : k = 0 := by
  by_contra hne
  have hsame := resolves_segments hdots (hall (row k))
  have hresolved : resolved (row k) [] first = digits 0 := by
    have hrange : 1 ≤ k ∧ k ≤ (List.replicate k (Doc.leaf Scalar.null : Json)).length :=
      ⟨Nat.pos_of_ne_zero hne, by rw [List.length_replicate]⟩
    unfold resolved row
    rw [hk, Doc.get]
    dsimp only
    rw [if_pos hrange, List.length_replicate, Nat.sub_self]
  obtain ⟨later, hlater⟩ : [digits 0] <+: resolveFrom (row k) [] (first :: rest) := by
    rw [resolveFrom, hresolved]
    exact resolveFrom_extends rest
  rw [← hsame, List.singleton_append] at hlater
  obtain ⟨rfl, -⟩ := List.cons.inj hlater
  cases hk

theorem exists_first_segment {t : Text} {segs : List Text} (h : ∃ s ∈ segs, t <:+: s) :
    ∃ p x q, segs = p ++ x :: q ∧ t <:+: x ∧ ∀ y ∈ p, ¬ t <:+: y := by
  obtain ⟨s, hs, hin⟩ := h
  cases hfind : segs.find? fun x ↦ decide (t <:+: x) with
  | none => exact absurd (decide_eq_true hin) (List.find?_eq_none.mp hfind s hs)
  | some x =>
    obtain ⟨hx, p, q, hsplit, hp⟩ := List.find?_eq_some_iff_append.mp hfind
    exact ⟨p, x, q, hsplit, of_decide_eq_true hx, fun y hy ↦ by simpa using hp y hy⟩

/-- An array at the place where a match is looked up, and only there. -/
def decoy (pre : List Text) (start : Text) (k : ℕ) : Json :=
  nest (segments (dotted (address pre start))) (row k)

theorem actualIndex_decoy (hlib : lib.Exact) {p q : List Text} {x t : Text}
    (hsegs : ∀ y ∈ p ++ x :: q, Segment y) (ht : t ≠ []) (hdot : '.' ∉ t)
    (hp : ∀ y ∈ p, ¬ t <:+: y) (hx : t <:+: x) (hpos : 1 ≤ value (t.drop 1)) :
    actualIndex lib (decoy p (before t x) (value (t.drop 1))) (dotted (p ++ x :: q)) t = some 0 := by
  have hget := get_nest (segments (dotted (address p (before t x)))) (row (value (t.drop 1))) []
  rw [List.append_nil, Doc.get] at hget
  unfold actualIndex decoy
  rw [lookup_eq hlib hsegs ht hdot hp hx, hget, row]
  dsimp only
  rw [List.length_replicate, if_pos ⟨hpos, le_rfl⟩, Nat.sub_self]

/-- In the decoy the only negative index stands where the text is a segment of its own. -/
theorem resolved_decoy {p q p' q' : List Text} {x y t : Text}
    (hsegs : ∀ y ∈ p ++ x :: q, Segment y) (ht : leadingNegative t = some t) (hx : t <:+: x)
    (hpos : 1 ≤ value (t.drop 1)) (hsplit : p ++ x :: q = p' ++ y :: q')
    (hne : p' = p → y = t → p = []) :
    resolved (decoy p (before t x) (value (t.drop 1))) p' y = y := by
  obtain ⟨ds, rfl, hds, -, -⟩ := leadingNegative_spec ht
  by_cases harray : ∃ items,
      (decoy p (before ('-' :: ds) x) (value (('-' :: ds).drop 1))).get parseUint p' =
        some (.arr items)
  · obtain ⟨items, hitems⟩ := harray
    obtain ⟨below, hp', hrow⟩ := arr_of_get_nest hitems
    obtain ⟨rfl, hlen⟩ := arr_of_get_row hrow
    rw [List.append_nil] at hp'
    have hne' : address p (before ('-' :: ds) x) ≠ [] := by
      intro hnil
      have hmem : ([] : Text) ∈ p ++ x :: q := by
        rw [hsplit, hp', hnil]
        exact List.mem_cons_self
      exact (hsegs [] hmem).full rfl
    rw [segments_dotted (address_segment hsegs _) hne', address] at hp'
    split at hp'
    · rename_i hstart
      subst hp'
      obtain ⟨rfl, rfl⟩ := List.cons.inj (List.append_cancel_left hsplit)
      obtain ⟨more, rfl⟩ := before_eq_nil hx hstart
      have hmore : more ≠ [] := by
        rintro rfl
        refine hne' ?_
        rw [address, if_pos hstart]
        exact hne rfl (List.append_nil _)
      refine resolved_eq_self fun k items' hk hitems' _ ↦ ?_
      cases hitems.symm.trans hitems'
      rw [negativeOf_eq] at hk
      split at hk
      · cases hk
        rw [hlen]
        exact value_append_lt hpos hmore
      · cases hk
    · subst hp'
      rw [List.append_assoc, List.singleton_append] at hsplit
      obtain ⟨hsame, -⟩ := List.cons.inj (List.append_cancel_left hsplit)
      have hlen' := before_length hx
      rw [← hsame, List.length_cons] at hlen'
      omega
  · exact resolved_of_not_array (fun items hitems ↦ harray ⟨items, hitems⟩) y

theorem resolveFrom_decoy_whole {p q : List Text} {t : Text}
    (hsegs : ∀ y ∈ p ++ t :: q, Segment y) (ht : leadingNegative t = some t)
    (hpos : 1 ≤ value (t.drop 1)) (hp : p ≠ []) :
    ∃ r, resolveFrom (decoy p (before t t) (value (t.drop 1))) [] (p ++ t :: q) = p ++ r :: q := by
  refine ⟨resolved (decoy p (before t t) (value (t.drop 1))) p t, ?_⟩
  rw [resolveFrom_append, resolveFrom, resolveFrom_unchanged, List.nil_append]
  · simp
  · intro p' y q' _
    refine resolved_of_not_array (fun items hitems ↦ ?_) y
    obtain ⟨below, hplace, hrow⟩ := arr_of_get_nest hitems
    obtain ⟨rfl, -⟩ := arr_of_get_row hrow
    rw [before_of_start List.prefix_rfl, address, if_pos rfl,
      segments_dotted (fun x hx ↦ hsegs x (List.mem_append_left _ hx)) hp] at hplace
    simpa using congrArg List.length hplace
  · intro p' y q' hearlier
    have hsplit : p ++ t :: q = p' ++ y :: (q' ++ t :: q) := by simp [hearlier]
    refine resolved_decoy hsegs ht List.infix_rfl hpos hsplit fun hp' _ ↦ ?_
    exact absurd (congrArg List.length hp') (by simp [hearlier])

theorem resolveFrom_decoy_other {p q : List Text} {x t : Text}
    (hsegs : ∀ y ∈ p ++ x :: q, Segment y) (ht : leadingNegative t = some t) (hx : t <:+: x)
    (hpos : 1 ≤ value (t.drop 1)) (hother : x = t → p = []) :
    resolveFrom (decoy p (before t x) (value (t.drop 1))) [] (p ++ x :: q) = p ++ x :: q := by
  refine resolveFrom_unchanged fun p' y q' hsplit ↦ resolved_decoy hsegs ht hx hpos hsplit ?_
  intro hp' hy
  subst hp' hy
  exact hother (List.cons.inj (List.append_cancel_left hsplit)).1

/-- A segment with a text in it is the first one that has it, or comes later. -/
theorem later_segment {p q pre post : List Text} {x s t : Text}
    (hsplit : p ++ x :: q = pre ++ s :: post) (hp : ∀ y ∈ p, ¬ t <:+: y) (hs : t <:+: s) :
    (pre = p ∧ s = x) ∨ ∃ mid, q = mid ++ s :: post := by
  rcases List.append_eq_append_iff.mp hsplit with ⟨mid, hpre, hrest⟩ | ⟨mid, hpre, hrest⟩
  · cases mid with
    | nil =>
      obtain ⟨rfl, -⟩ := List.cons.inj hrest
      exact .inl ⟨by rw [hpre, List.append_nil], rfl⟩
    | cons y mid =>
      obtain ⟨-, rfl⟩ := List.cons.inj hrest
      exact .inr ⟨mid, rfl⟩
  · cases mid with
    | nil =>
      obtain ⟨rfl, -⟩ := List.cons.inj hrest
      exact .inl ⟨by rw [hpre, List.append_nil], rfl⟩
    | cons y mid =>
      obtain ⟨rfl, -⟩ := List.cons.inj hrest
      exact absurd hs (hp s (by simp [hpre]))

theorem leadingNegative_idem {s t : Text} (h : leadingNegative s = some t) :
    leadingNegative t = some t := by
  obtain ⟨ds, rfl, hne, hdigits, -⟩ := leadingNegative_spec h
  have htake : ds.takeWhile Char.isDigit = ds :=
    List.takeWhile_eq_self_iff.mpr (List.all_eq_true.mp hdigits)
  rw [leadingNegative, htake, if_neg hne]

/-- Behind the first segment a negative index is a whole segment, and its text is new. -/
theorem whole_of_resolves (hlib : lib.Exact) {segs pre post : List Text} {s t : Text}
    (hsegs : ∀ x ∈ segs, Segment x) (hall : ∀ data, Resolves lib data (dotted segs))
    (hsplit : segs = pre ++ s :: post) (hne : pre ≠ []) (ht : leadingNegative s = some t)
    (hpos : 1 ≤ value (t.drop 1)) : s = t ∧ ∀ p ∈ pre, ¬ t <:+: p := by
  have hself := leadingNegative_idem ht
  have hdot := not_mem_leadingNegative ht (hsegs s (by simp [hsplit])).dots
  have hnil := leadingNegative_ne_nil ht
  obtain ⟨ds, hds, -, -, hstart⟩ := leadingNegative_spec ht
  have hany : ∃ x ∈ segs, t <:+: x := ⟨s, by simp [hsplit], hstart.isInfix⟩
  obtain ⟨p, x, q, hfirst, hx, hp⟩ := exists_first_segment hany
  obtain ⟨first, pre, rfl⟩ := List.exists_cons_of_ne_nil hne
  rw [List.cons_append] at hsplit
  subst hsplit
  rw [hfirst] at hsegs
  have hit := actualIndex_decoy hlib hsegs hnil hdot hp hx hpos
  rw [← hfirst] at hit
  have hsame := resolves_segments (fun y hy ↦ (hsegs y (hfirst ▸ hy)).dots)
    (hall (decoy p (before t x) (value (t.drop 1))))
  subst hds
  have hcost := countP_foldl hit ((pre ++ s :: post).filterMap leadingNegative) (pre ++ s :: post)
  have hmatches := count_filterMap_le ('-' :: ds) (pre ++ s :: post)
  have hcount : 1 ≤ ((pre ++ s :: post).filterMap leadingNegative).count ('-' :: ds) := by
    refine List.count_pos_iff.mpr (List.mem_filterMap.mpr ⟨s, by simp, ht⟩)
  by_cases hwhole : x = '-' :: ds ∧ p ≠ []
  · obtain ⟨rfl, hp'⟩ := hwhole
    obtain ⟨r, hr⟩ := resolveFrom_decoy_whole hsegs hself hpos hp'
    obtain ⟨first', p, rfl⟩ := List.exists_cons_of_ne_nil hp'
    rw [List.cons_append] at hfirst
    obtain ⟨rfl, hrest⟩ := List.cons.inj hfirst
    rw [List.cons_append, ← hfirst, List.cons_append] at hr
    rw [hr] at hsame
    obtain ⟨-, hfold⟩ := List.cons.inj hsame
    rcases later_segment hrest.symm (fun y hy ↦ hp y (List.mem_cons_of_mem _ hy))
      hstart.isInfix with ⟨rfl, rfl⟩ | ⟨mid, rfl⟩
    · exact ⟨rfl, hp⟩
    · have hpair : 2 ≤ ((pre ++ s :: post).filterMap leadingNegative).count ('-' :: ds) := by
        rw [hrest, List.filterMap_append, List.filterMap_cons_some hself, List.filterMap_append,
          List.filterMap_cons_some ht, List.count_append, List.count_cons_self, List.count_append,
          List.count_cons_self]
        omega
      have hbefore : (p ++ ('-' :: ds) :: (mid ++ s :: post)).countP (fun s ↦ '-' :: ds <+: s) ≤
          (p ++ r :: (mid ++ s :: post)).countP (fun s ↦ '-' :: ds <+: s) + 1 := by
        rw [List.countP_append, List.countP_append, List.countP_cons_of_pos (by simp),
          List.countP_cons]
        omega
      rw [hfold] at hcost
      rw [← hrest] at hbefore
      omega
  · rw [hfirst, resolveFrom_decoy_other hsegs hself hx hpos fun h ↦ by_contra fun h' ↦
      hwhole ⟨h, h'⟩, ← hfirst] at hsame
    obtain ⟨-, hfold⟩ := List.cons.inj hsame
    rw [hfold] at hcost
    omega

/-- An array in an array, and no other one. -/
def twice (pre : List Text) (k : ℕ) (mid : List Text) (k' : ℕ) : Json :=
  nest pre (.arr (nest mid (row k') :: List.replicate (k - 1) (.leaf .null)))

theorem arr_of_get_twice {pre mid done : List Text} {k k' : ℕ} {items : List Json}
    (h : (twice pre k mid k').get parseUint done = some (.arr items)) :
    done = pre ∨ ∃ c, done = pre ++ c :: mid ∧ parseUint c ≠ none := by
  obtain ⟨rest, rfl, hrest⟩ := arr_of_get_nest h
  cases rest with
  | nil => exact .inl (List.append_nil pre)
  | cons c rest =>
    rw [Doc.get_cons, Doc.child] at hrest
    obtain ⟨d, hd, hget⟩ := Option.bind_eq_some_iff.mp hrest
    obtain ⟨i, hi, hitem⟩ := Option.bind_eq_some_iff.mp hd
    cases i with
    | zero =>
      obtain rfl := Option.some.inj hitem
      obtain ⟨below, rfl, hrow⟩ := arr_of_get_nest hget
      obtain ⟨rfl, -⟩ := arr_of_get_row hrow
      rw [List.append_nil]
      exact .inr ⟨c, rfl, by simp [hi]⟩
    | succ i =>
      rw [List.getElem?_cons_succ] at hitem
      have hleaf := List.eq_of_mem_replicate (List.mem_of_getElem? hitem)
      subst hleaf
      cases rest with
      | nil => cases hget
      | cons c' rest => cases hget

theorem resolved_last {k : ℕ} {done : List Text} {s : Text} {items : List Json} (hk : 1 ≤ k)
    (hs : negativeOf s = some k) (hget : data.get parseUint done = some (.arr items))
    (hlen : items.length = k) : resolved data done s = digits 0 := by
  unfold resolved
  rw [hs, hget]
  dsimp only
  rw [if_pos ⟨hk, hlen.ge⟩, hlen, Nat.sub_self]

/-- Both negative indices address the only element of their array. -/
theorem resolveFrom_twice {pre mid post : List Text} {s s' : Text} {k k' : ℕ} (hk : 1 ≤ k)
    (hk' : 1 ≤ k') (hs : negativeOf s = some k) (hs' : negativeOf s' = some k') :
    pre ++ digits 0 :: (mid ++ [digits 0]) <+:
      resolveFrom (twice pre k mid k') [] (pre ++ s :: (mid ++ s' :: post)) := by
  have houter : (twice pre k mid k').get parseUint pre =
      some (.arr (nest mid (row k') :: List.replicate (k - 1) (.leaf .null))) := by
    have hget := get_nest pre (.arr (nest mid (row k') :: List.replicate (k - 1) (.leaf .null))) []
    rwa [List.append_nil, Doc.get] at hget
  have hinner : (twice pre k mid k').get parseUint (pre ++ [digits 0] ++ mid) = some (row k') := by
    have hget := get_nest mid (row k') []
    rw [List.append_nil, Doc.get] at hget
    rw [List.append_assoc, List.singleton_append, Doc.get_append, houter, Option.bind_some,
      Doc.get_cons, Doc.child, parseUint_digits]
    exact hget
  rw [resolveFrom_append, resolveFrom, List.nil_append,
    resolved_last hk hs houter (by simp; omega), resolveFrom_append, resolveFrom,
    resolved_last hk' hs' hinner List.length_replicate]
  · refine List.IsPrefix.trans ?_ (resolveFrom_extends post)
    simp
  · intro p y q hsplit
    refine resolved_of_not_array (fun items hitems ↦ ?_) y
    rcases arr_of_get_twice hitems with h | ⟨c, h, -⟩
    · simpa using congrArg List.length h
    · have hlen := congrArg List.length h
      simp [hsplit] at hlen
  · intro p y q hsplit
    refine resolved_of_not_array (fun items hitems ↦ ?_) y
    rcases arr_of_get_twice hitems with h | ⟨c, h, -⟩
    · simpa [hsplit] using congrArg List.length h
    · have hlen := congrArg List.length h
      simp [hsplit] at hlen

/-- Where every negative index is a new text, one without an array before it is left alone. -/
theorem actualIndex_none (hlib : lib.Exact) {segs pre post : List Text} {s t : Text}
    (hsegs : ∀ x ∈ segs, Segment x) (hall : ∀ data, Resolves lib data (dotted segs))
    (hsplit : segs = pre ++ s :: post) (hne : pre ≠ []) (ht : leadingNegative s = some t)
    (hnot : ∀ items, data.get parseUint pre ≠ some (.arr items)) :
    actualIndex lib data (dotted segs) t = none := by
  by_cases hpos : 1 ≤ value (t.drop 1)
  · obtain ⟨rfl, hfresh⟩ := whole_of_resolves hlib hsegs hall hsplit hne ht hpos
    subst hsplit
    unfold actualIndex
    rw [lookup_fresh hlib hsegs hne ht hfresh]
    split
    · rename_i items hitems
      exact absurd hitems (hnot items)
    · rfl
  · refine actualIndex_of_not_significant ?_ ht
    rintro ⟨t', ht', hpos'⟩
    cases ht'.symm.trans ht
    exact hpos hpos'

theorem parseUint_dash (ds : Text) : parseUint ('-' :: ds) = none := by
  unfold parseUint
  rw [if_neg]
  rintro ⟨-, hdigits⟩
  cases List.all_eq_true.mp hdigits '-' List.mem_cons_self

theorem alone_of_resolves (hlib : lib.Exact) {pre mid post : List Text} {s s' : Text}
    (hsegs : ∀ x ∈ pre ++ s :: (mid ++ s' :: post), Segment x)
    (hall : ∀ data, Resolves lib data (dotted (pre ++ s :: (mid ++ s' :: post)))) (hne : pre ≠ [])
    (hs : Significant s) (hs' : Significant s') : False := by
  obtain ⟨t, ht, hpos⟩ := hs
  obtain ⟨t', ht', hpos'⟩ := hs'
  obtain ⟨rfl, hfresh⟩ := whole_of_resolves hlib hsegs hall rfl hne ht hpos
  have hsplit' : pre ++ s :: (mid ++ s' :: post) = (pre ++ s :: mid) ++ s' :: post := by simp
  obtain ⟨rfl, -⟩ := whole_of_resolves hlib hsegs hall hsplit' (by simp) ht' hpos'
  have hneg : negativeOf s = some (value (s.drop 1)) := by rw [negativeOf_eq, if_pos ht]
  have hneg' : negativeOf s' = some (value (s'.drop 1)) := by rw [negativeOf_eq, if_pos ht']
  obtain ⟨later, hspec⟩ : pre ++ digits 0 :: (mid ++ [digits 0]) <+:
      resolveFrom (twice pre (value (s.drop 1)) mid (value (s'.drop 1))) []
        (pre ++ s :: (mid ++ s' :: post)) := resolveFrom_twice hpos hpos' hneg hneg'
  obtain ⟨first, pre, rfl⟩ := List.exists_cons_of_ne_nil hne
  have hdots : ∀ y ∈ first :: (pre ++ s :: (mid ++ s' :: post)), '.' ∉ y :=
    fun y hy ↦ (hsegs y hy).dots
  have hsame := resolves_segments hdots
    (hall (twice (first :: pre) (value (s.drop 1)) mid (value (s'.drop 1))))
  obtain ⟨ds, hds, -⟩ := leadingNegative_spec ht
  have hearlier : ∀ r ∈ pre, ∀ u, leadingNegative r = some u →
      actualIndex lib (twice (first :: pre) (value (s.drop 1)) mid (value (s'.drop 1)))
        (dotted (first :: pre ++ s :: (mid ++ s' :: post))) u = none := by
    intro r hr u hu
    obtain ⟨u₁, u₂, rfl⟩ := List.append_of_mem hr
    have hsplit : first :: (u₁ ++ r :: u₂) ++ s :: (mid ++ s' :: post) =
        (first :: u₁) ++ r :: (u₂ ++ s :: (mid ++ s' :: post)) := by simp
    refine actualIndex_none hlib hsegs hall hsplit (List.cons_ne_nil first u₁) hu ?_
    intro items hitems
    rcases arr_of_get_twice hitems with h | ⟨c, h, -⟩
    · simpa using congrArg List.length h
    · have hlen := congrArg List.length h
      simp at hlen
  have hlater : ∀ r ∈ mid ++ s' :: post, ∀ u, leadingNegative r = some u →
      actualIndex lib (twice (first :: pre) (value (s.drop 1)) mid (value (s'.drop 1)))
        (dotted (first :: pre ++ s :: (mid ++ s' :: post))) u = none := by
    intro r hr u hu
    obtain ⟨u₁, u₂, hr'⟩ := List.append_of_mem hr
    have hsplit : first :: pre ++ s :: (mid ++ s' :: post) =
        (first :: pre ++ s :: u₁) ++ r :: u₂ := by simp [hr']
    refine actualIndex_none hlib hsegs hall hsplit (by simp) hu ?_
    intro items hitems
    rcases arr_of_get_twice hitems with h | ⟨c, h, hc⟩
    · simpa using congrArg List.length h
    · obtain ⟨rfl, -⟩ := List.cons.inj (List.append_cancel_left h)
      rw [hds, parseUint_dash] at hc
      exact hc rfl
  simp only [List.cons_append] at hspec hearlier hlater
  rw [foldl_retargeted_one ht (fun r hr h ↦ hfresh r (List.mem_cons_of_mem first hr) h.isInfix)
    hearlier hlater, ← hspec] at hsame
  simp only [List.cons_append, List.append_assoc, List.cons.injEq, true_and,
    List.append_cancel_left_eq] at hsame
  obtain ⟨ds', hds', -⟩ := leadingNegative_spec ht'
  have hzero := hsame.2.1
  rw [hds'] at hzero
  cases hzero

end Necessary

section Paths

variable {lib : PathLibrary} {path : Text}

/-- A path has its negative indices resolved in every document just where at most one segment
starts with one, and that segment is not the first, is only the index, and is a new text. -/
theorem resolves_iff (hlib : lib.Exact) (hpath : Dotted path) :
    (∀ data, Resolves lib data path) ↔ Unambiguous (segments path) := by
  constructor
  · intro hall
    have hjoin : dotted (segments path) = path := joined_splitOn '.' path
    have hdots : ∀ s ∈ segments path, '.' ∉ s := fun s hs ↦ not_mem_of_mem_splitOn hs
    have hseg : segments path ≠ [[]] → ∀ s ∈ segments path, Segment s := by
      intro hempty s hs
      refine segment_of_mem hpath ?_ hs
      rintro rfl
      exact hempty (List.splitOn_nil _)
    generalize segments path = segs at *
    subst hjoin
    constructor
    · rintro first rest rfl k hk
      exact first_of_resolves hdots hall k hk
    · rintro pre s post rfl hne hsig
      have hsegs := hseg (by
        intro hempty
        have hlen := congrArg List.length hempty
        have hpos := List.length_pos_of_ne_nil hne
        simp only [List.length_append, List.length_cons, List.length_nil] at hlen
        omega)
      obtain ⟨t, ht, hpos⟩ := hsig
      obtain ⟨rfl, hfresh⟩ := whole_of_resolves hlib hsegs hall rfl hne ht hpos
      refine ⟨?_, hfresh, ?_⟩
      · rw [negativeOf_eq, if_pos ht]
        exact Option.some_ne_none _
      · intro p hp hsig'
        obtain ⟨mid, later, rfl⟩ := List.append_of_mem hp
        exact alone_of_resolves hlib hsegs hall hne ⟨s, ht, hpos⟩ hsig'
  · intro hgood data
    exact resolves_of_unambiguous hlib hpath hgood data

/-- A message with two parts. -/
def twoParts : Json := .obj [("messages".toList, .arr [.obj [("content".toList,
  .arr [.leaf (.str "a".toList), .leaf (.str "b".toList)])]])]

theorem dotted_messages : Dotted "messages.-1".toList := by
  refine ⟨by simp [specialChars], .inr ?_⟩
  decide

theorem unambiguous_messages : Unambiguous (segments "messages.-1".toList) := by
  have hsegments : segments "messages.-1".toList = ["messages".toList, "-1".toList] := by decide
  rw [hsegments]
  constructor
  · intro s rest hsplit k hk
    obtain ⟨rfl, -⟩ := List.cons.inj hsplit
    cases hk
  · intro pre s post hsplit hne _
    obtain ⟨first, pre, rfl⟩ := List.exists_cons_of_ne_nil hne
    obtain ⟨rfl, hrest⟩ := List.cons.inj hsplit
    cases pre with
    | nil =>
      obtain ⟨rfl, rfl⟩ := List.cons.inj hrest
      exact ⟨by decide, by decide, by simp⟩
    | cons second pre => simpa using congrArg List.length hrest

theorem resolves_messages : Resolves exactLibrary twoParts "messages.-1".toList :=
  (resolves_iff exactLibrary_exact dotted_messages).mpr unambiguous_messages twoParts

theorem dotted_content : Dotted "messages.-1.content.-1".toList := by
  refine ⟨by simp [specialChars], .inr ?_⟩
  decide

/-- The parts are looked up where the text `-1` stands first, among the messages. -/
theorem resolves_not : ¬ ∀ (lib : PathLibrary) (data : Json) (path : Text), lib.Exact →
    Dotted path → Resolves lib data path := by
  intro hall
  have hsame := hall exactLibrary twoParts "messages.-1.content.-1".toList exactLibrary_exact
    dotted_content
  have hcode : processNegativeIndex exactLibrary twoParts "messages.-1.content.-1".toList =
      "messages.0.content.0".toList := by rfl
  have hspec : dotted (resolveFrom twoParts [] (segments "messages.-1.content.-1".toList)) =
      "messages.0.content.1".toList := by rfl
  unfold Resolves at hsame
  rw [hcode, hspec] at hsame
  revert hsame
  decide

end Paths

end AllAiTools.NewApi.Relay.NegativeIndices
