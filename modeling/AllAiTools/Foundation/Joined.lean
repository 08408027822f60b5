import Mathlib

namespace AllAiTools.Foundation.Joined

variable {α : Type}

section Operations

variable [DecidableEq α]

/-- What stands before the first occurrence of a text. -/
def before (sep : List α) : List α → List α
  | [] => []
  | c :: rest => if sep <+: c :: rest then [] else c :: before sep rest

/-- The first occurrence of a text gives way to another one. -/
def replaceFirst (old new : List α) : List α → List α
  | [] => []
  | c :: rest => if old <+: c :: rest then new ++ (c :: rest).drop old.length
      else c :: replaceFirst old new rest

def joined (dot : α) (segments : List (List α)) : List α := [dot].intercalate segments

/-- The first segment that starts with a text starts with another one instead. -/
def retarget (old new : List α) : List (List α) → List (List α)
  | [] => []
  | s :: rest => if old <+: s then (new ++ s.drop old.length) :: rest
      else s :: retarget old new rest

end Operations

section Joins

variable {dot : α} {segments : List (List α)}

@[simp] theorem joined_nil (dot : α) : joined dot ([] : List (List α)) = [] := rfl

@[simp] theorem joined_singleton (dot : α) (s : List α) : joined dot [s] = s :=
  List.intercalate_singleton

theorem joined_cons (dot : α) (s : List α) (hne : segments ≠ []) :
    joined dot (s :: segments) = s ++ dot :: joined dot segments := by
  unfold joined
  rw [List.intercalate_cons_of_ne_nil hne]
  simp

theorem joined_snoc (dot : α) (last : List α) (hne : segments ≠ []) :
    joined dot (segments ++ [last]) = joined dot segments ++ dot :: last := by
  induction segments with
  | nil => exact absurd rfl hne
  | cons s rest ih =>
    cases rest with
    | nil => rw [List.singleton_append, joined_cons dot s (List.cons_ne_nil last []),
        joined_singleton, joined_singleton]
    | cons r rest =>
      have hrest := ih (List.cons_ne_nil r rest)
      have hne' : r :: rest ++ [last] ≠ [] := List.cons_ne_nil _ _
      rw [List.cons_append, joined_cons dot s hne', hrest,
        joined_cons dot s (List.cons_ne_nil r rest)]
      simp

theorem mem_joined {c : α} (hc : c ∈ joined dot segments) : c = dot ∨ ∃ s ∈ segments, c ∈ s := by
  induction segments with
  | nil => cases hc
  | cons s rest ih =>
    by_cases hrest : rest = []
    · subst hrest
      rw [joined_singleton] at hc
      exact .inr ⟨s, List.mem_cons_self, hc⟩
    · rw [joined_cons dot s hrest, List.mem_append, List.mem_cons] at hc
      rcases hc with hc | hc | hc
      · exact .inr ⟨s, List.mem_cons_self, hc⟩
      · exact .inl hc
      · rcases ih hc with hdot | ⟨s', hs', hc'⟩
        · exact .inl hdot
        · exact .inr ⟨s', List.mem_cons_of_mem s hs', hc'⟩

theorem mem_joined_of_mem {c : α} {s : List α} (hs : s ∈ segments) (hc : c ∈ s) :
    c ∈ joined dot segments := by
  induction segments with
  | nil => cases hs
  | cons r rest ih =>
    by_cases hrest : rest = []
    · subst hrest
      rw [List.mem_singleton] at hs
      rwa [joined_singleton, ← hs]
    · rw [joined_cons dot r hrest, List.mem_append, List.mem_cons]
      rcases List.mem_cons.mp hs with rfl | hs
      · exact .inl hc
      · exact .inr (.inr (ih hs))

variable [DecidableEq α]

theorem splitOn_joined (hdots : ∀ s ∈ segments, dot ∉ s) (hne : segments ≠ []) :
    (joined dot segments).splitOn dot = segments :=
  List.splitOn_intercalate dot hdots hne

theorem joined_splitOn (dot : α) (path : List α) : joined dot (path.splitOn dot) = path :=
  List.intercalate_splitOn dot

theorem not_mem_of_mem_splitOn {path s : List α} (hs : s ∈ path.splitOn dot) : dot ∉ s := by
  induction path generalizing s with
  | nil =>
    rw [List.splitOn_nil, List.mem_singleton] at hs
    subst hs
    exact List.not_mem_nil
  | cons c path ih =>
    rw [List.splitOn_cons_eq_if_modifyHead] at hs
    split at hs
    · rcases List.mem_cons.mp hs with rfl | hs
      · exact List.not_mem_nil
      · exact ih hs
    · rename_i hc
      cases hsplit : path.splitOn dot with
      | nil => exact absurd hsplit (List.splitOn_ne_nil dot path)
      | cons first rest =>
        rw [hsplit, List.modifyHead_cons] at hs
        rcases List.mem_cons.mp hs with rfl | hs
        · intro hdot
          rcases List.mem_cons.mp hdot with rfl | hdot
          · exact hc (by simp)
          · exact ih (hsplit ▸ List.mem_cons_self) hdot
        · exact ih (hsplit ▸ List.mem_cons_of_mem first hs)

theorem splitOn_joined_flatMap (hne : segments ≠ []) :
    (joined dot segments).splitOn dot = segments.flatMap (·.splitOn dot) := by
  induction segments with
  | nil => exact absurd rfl hne
  | cons s rest ih =>
    by_cases hrest : rest = []
    · rw [hrest, joined_singleton, List.flatMap_singleton]
    · rw [joined_cons dot s hrest, List.splitOn_append_cons_self, ih hrest, List.flatMap_cons]

/-- Separators at the ends of a text only make empty pieces. -/
theorem mem_splitOn_strip {p : List α} (hp : p ≠ []) (s : List α) :
    p ∈ ((s.dropWhile (· = dot)).rdropWhile (· = dot)).splitOn dot ↔ p ∈ s.splitOn dot := by
  have hright : ∀ s : List α, p ∈ (s.rdropWhile (· = dot)).splitOn dot ↔ p ∈ s.splitOn dot := by
    intro s
    induction s using List.reverseRecOn with
    | nil => rw [List.rdropWhile_nil]
    | append_singleton s c ih =>
      by_cases hc : c = dot
      · rw [List.rdropWhile_concat_pos _ _ _ (by simpa using hc), ih, hc, List.splitOn_append_cons_self,
          List.splitOn_nil, List.mem_append, List.mem_singleton, or_iff_left hp]
      · rw [List.rdropWhile_concat_neg _ _ _ (by simpa using hc)]
  rw [hright]
  induction s with
  | nil => rfl
  | cons c s ih =>
    by_cases hc : c = dot
    · rw [List.dropWhile_cons_of_pos (by simpa using hc)]
      refine ih.trans ?_
      rw [hc, ← List.nil_append (dot :: s), List.splitOn_append_cons_self, List.splitOn_nil,
        List.mem_append, List.mem_singleton, or_iff_right hp]
    · rw [List.dropWhile_cons_of_neg (by simpa using hc)]

theorem joined_injective {segments' : List (List α)} (hdots : ∀ s ∈ segments, dot ∉ s)
    (hdots' : ∀ s ∈ segments', dot ∉ s) (hne : segments ≠ []) (hne' : segments' ≠ [])
    (h : joined dot segments = joined dot segments') : segments = segments' := by
  have hsplit := congrArg (List.splitOn dot) h
  rwa [splitOn_joined hdots hne, splitOn_joined hdots' hne'] at hsplit

end Joins

section Occurrences

variable [DecidableEq α] {dot : α} {t : List α}

theorem prefix_append_iff (hdot : dot ∉ t) (s rest : List α) :
    t <+: s ++ dot :: rest ↔ t <+: s := by
  constructor
  · intro h
    by_contra hnot
    have hlen : ¬ t.length ≤ s.length := by
      intro hle
      exact hnot (List.prefix_of_prefix_length_le h (List.prefix_append s _) hle)
    have hlong : s ++ [dot] <+: t := by
      refine List.prefix_of_prefix_length_le ⟨rest, by simp⟩ h ?_
      rw [List.length_append, List.length_singleton]
      omega
    exact hdot (hlong.subset (by simp))
  · intro h
    exact h.trans (List.prefix_append s _)

theorem before_skip (hne : t ≠ []) (hdot : dot ∉ t) {s : List α} (hs : ¬ t <:+: s)
    (rest : List α) : before t (s ++ dot :: rest) = s ++ dot :: before t rest := by
  induction s with
  | nil =>
    have hnot : ¬ t <+: dot :: rest := by
      intro h
      have hstart := (prefix_append_iff hdot [] rest).mp h
      exact hne (List.prefix_nil.mp hstart)
    rw [List.nil_append, before, if_neg hnot, List.nil_append]
  | cons c s ih =>
    have hnot : ¬ t <+: c :: s ++ dot :: rest := by
      intro h
      exact hs ((prefix_append_iff hdot (c :: s) rest).mp h).isInfix
    have hrest : ¬ t <:+: s := fun h ↦ hs (h.trans (List.suffix_cons c s).isInfix)
    rw [List.cons_append] at hnot ⊢
    rw [before, if_neg hnot, ih hrest, List.cons_append]

theorem before_append {s : List α} (hs : t <:+: s) (rest : List α) :
    before t (s ++ rest) = before t s := by
  induction s with
  | nil =>
    obtain rfl := List.infix_nil.mp hs
    cases rest with
    | nil => rfl
    | cons c rest => simp [before]
  | cons c s ih =>
    rw [List.cons_append, before, before]
    by_cases hstart : t <+: c :: s
    · have hstart' : t <+: c :: (s ++ rest) := hstart.trans (List.prefix_append (c :: s) rest)
      rw [if_pos hstart, if_pos hstart']
    · have hin : t <:+: s := (List.infix_cons_iff.mp hs).resolve_left hstart
      have hnot : ¬ t <+: c :: (s ++ rest) := by
        intro h
        have hle := hin.length_le
        refine hstart (List.prefix_of_prefix_length_le h (List.prefix_append (c :: s) rest) ?_)
        rw [List.length_cons]
        omega
      rw [if_neg hstart, if_neg hnot, ih hin]

theorem before_starts (t s : List α) : before t s <+: s := by
  induction s with
  | nil => exact List.prefix_rfl
  | cons c s ih =>
    rw [before]
    split
    · exact List.nil_prefix
    · exact List.cons_prefix_cons.mpr ⟨rfl, ih⟩

theorem before_length {s : List α} (hs : t <:+: s) :
    (before t s).length + t.length ≤ s.length := by
  induction s with
  | nil => simpa [before] using hs
  | cons c s ih =>
    rw [before]
    split
    · rename_i hstart
      simpa using hstart.length_le
    · rename_i hnot
      have hrest := ih ((List.infix_cons_iff.mp hs).resolve_left hnot)
      rw [List.length_cons, List.length_cons]
      omega

theorem before_of_start {s : List α} (hs : t <+: s) : before t s = [] := by
  cases s with
  | nil => rfl
  | cons c s => rw [before, if_pos hs]

theorem before_eq_nil {s : List α} (hs : t <:+: s) (h : before t s = []) : t <+: s := by
  cases s with
  | nil => exact (List.infix_nil.mp hs) ▸ List.nil_prefix
  | cons c s =>
    rw [before] at h
    split at h
    · rename_i hstart
      exact hstart
    · cases h

/-- The first occurrence in a join is the first one in the first segment that has one. -/
theorem before_joined (hne : t ≠ []) (hdot : dot ∉ t) {pre post : List (List α)} {s : List α}
    (hpre : ∀ p ∈ pre, ¬ t <:+: p) (hs : t <:+: s) :
    before t (joined dot (pre ++ s :: post)) = joined dot (pre ++ [before t s]) := by
  induction pre with
  | nil =>
    rw [List.nil_append, List.nil_append, joined_singleton]
    cases post with
    | nil => rw [joined_singleton]
    | cons r post => rw [joined_cons dot s (List.cons_ne_nil r post), before_append hs]
  | cons p pre ih =>
    have hfirst := hpre p List.mem_cons_self
    rw [List.cons_append, joined_cons dot p (by simp), before_skip hne hdot hfirst,
      ih fun q hq ↦ hpre q (List.mem_cons_of_mem p hq), List.cons_append,
      joined_cons dot p (by simp)]

theorem before_append_drop {s : List α} (hs : t <:+: s) :
    before t s ++ (t ++ (s.drop ((before t s).length + t.length))) = s := by
  induction s with
  | nil =>
    obtain rfl := List.infix_nil.mp hs
    rfl
  | cons c s ih =>
    rw [before]
    split
    · rename_i hstart
      obtain ⟨rest, hrest⟩ := hstart
      rw [List.length_nil, Nat.zero_add, ← hrest, List.drop_left, List.nil_append]
    · rename_i hnot
      have hrest := ih ((List.infix_cons_iff.mp hs).resolve_left hnot)
      rw [List.length_cons, Nat.add_right_comm, List.drop_succ_cons, List.cons_append, hrest]

theorem not_infix_before {s : List α} (ht : t ≠ []) : ¬ t <:+: before t s := by
  induction s with
  | nil =>
    rw [before, List.infix_nil]
    exact ht
  | cons c s ih =>
    rw [before]
    split
    · rw [List.infix_nil]
      exact ht
    · rename_i hnot
      rw [List.infix_cons_iff]
      rintro (hstart | hin)
      · exact hnot (hstart.trans (List.cons_prefix_cons.mpr ⟨rfl, before_starts t s⟩))
      · exact ih hin

/-- A text that does not overlap itself is first found where it stands behind one without it. -/
theorem before_found {c : α} {w : List α} (hc : c ∉ w) {s : List α} (hs : ¬ c :: w <:+: s)
    (rest : List α) : before (c :: w) (s ++ (c :: w ++ rest)) = s := by
  induction s with
  | nil =>
    rw [List.nil_append]
    exact before_of_start (List.prefix_append _ _)
  | cons a s ih =>
    have hnot : ¬ c :: w <+: a :: (s ++ (c :: w ++ rest)) := by
      intro h
      rw [← List.cons_append] at h
      rcases List.prefix_or_prefix_of_prefix h (List.prefix_append (a :: s) _) with hshort | ⟨t, ht⟩
      · exact hs hshort.isInfix
      · rw [← ht, List.prefix_append_right_inj] at h
        cases t with
        | nil =>
          rw [List.append_nil] at ht
          exact hs (ht ▸ List.infix_rfl)
        | cons x t =>
          obtain ⟨hxa, -⟩ := List.cons_prefix_cons.mp h
          obtain ⟨hac, htail⟩ := List.cons_eq_cons.mp ht
          have hx : c = x := hac.symm.trans hxa.symm
          exact hc (htail ▸ hx ▸ List.mem_append_right s List.mem_cons_self)
    rw [List.cons_append, before, if_neg hnot, ih fun h ↦ hs (h.trans (List.suffix_cons a s).isInfix)]

theorem replaceFirst_skip {s : List α} (hs : dot ∉ s) (new rest : List α) :
    replaceFirst (dot :: t) new (s ++ rest) = s ++ replaceFirst (dot :: t) new rest := by
  induction s with
  | nil => rfl
  | cons c s ih =>
    have hnot : ¬ dot :: t <+: c :: (s ++ rest) := by
      intro h
      exact hs (List.mem_cons.mpr (.inl (List.cons_prefix_cons.mp h).1))
    rw [List.cons_append, replaceFirst, if_neg hnot, List.cons_append,
      ih fun h ↦ hs (List.mem_cons_of_mem c h)]

theorem replaceFirst_self {s : List α} (hs : dot ∉ s) (new : List α) :
    replaceFirst (dot :: t) new s = s := by
  have hskip := replaceFirst_skip (t := t) hs new []
  rwa [List.append_nil, replaceFirst, List.append_nil] at hskip

/-- A replacement at a dot replaces the start of a segment behind the first one. -/
theorem replaceFirst_joined (hdot : dot ∉ t) (new : List α) {s : List α} {rest : List (List α)}
    (hs : dot ∉ s) (hrest : ∀ r ∈ rest, dot ∉ r) :
    replaceFirst (dot :: t) (dot :: new) (joined dot (s :: rest)) =
      joined dot (s :: retarget t new rest) := by
  induction rest generalizing s with
  | nil => rw [joined_singleton, replaceFirst_self hs, retarget, joined_singleton]
  | cons r rest ih =>
    have hr := hrest r List.mem_cons_self
    have hstarts : t <+: joined dot (r :: rest) ↔ t <+: r := by
      cases rest with
      | nil => rw [joined_singleton]
      | cons r' rest => rw [joined_cons dot r (List.cons_ne_nil r' rest), prefix_append_iff hdot]
    rw [joined_cons dot s (List.cons_ne_nil r rest), replaceFirst_skip hs, replaceFirst, retarget]
    by_cases hstart : t <+: r
    · have hthere : dot :: t <+: dot :: joined dot (r :: rest) :=
        List.cons_prefix_cons.mpr ⟨rfl, hstarts.mpr hstart⟩
      rw [if_pos hthere, if_pos hstart, joined_cons dot s (List.cons_ne_nil _ rest)]
      cases rest with
      | nil => simp
      | cons r' rest =>
        rw [joined_cons dot _ (List.cons_ne_nil r' rest), joined_cons dot _ (List.cons_ne_nil r' rest)]
        simp [List.drop_append_of_le_length hstart.length_le]
    · have hnot : ¬ dot :: t <+: dot :: joined dot (r :: rest) := fun h ↦
        hstart (hstarts.mp (List.cons_prefix_cons.mp h).2)
      rw [if_neg hnot, if_neg hstart, ih hr fun q hq ↦ hrest q (List.mem_cons_of_mem r hq),
        joined_cons dot s (List.cons_ne_nil _ _)]

end Occurrences

section Retargets

variable [DecidableEq α] {old new : List α}

theorem retarget_append {pre : List (List α)} (hpre : ∀ p ∈ pre, ¬ old <+: p)
    (rest : List (List α)) : retarget old new (pre ++ rest) = pre ++ retarget old new rest := by
  induction pre with
  | nil => rfl
  | cons p pre ih =>
    rw [List.cons_append, retarget, if_neg (hpre p List.mem_cons_self), List.cons_append,
      ih fun q hq ↦ hpre q (List.mem_cons_of_mem p hq)]

/-- What is replaced no longer starts with a text that the new start excludes. -/
theorem countP_retarget_le {t : List α} (hnew : ∀ tail, ¬ t <+: new ++ tail)
    (segments : List (List α)) :
    (retarget old new segments).countP (fun s ↦ t <+: s) ≤ segments.countP fun s ↦ t <+: s := by
  induction segments with
  | nil => exact le_rfl
  | cons s rest ih =>
    rw [retarget]
    split
    · rw [List.countP_cons_of_neg (by simpa using hnew _)]
      exact (List.sublist_cons_self s rest).countP_le
    · rw [List.countP_cons, List.countP_cons]
      omega

theorem countP_retarget (hnew : ∀ tail, ¬ old <+: new ++ tail) (segments : List (List α)) :
    (retarget old new segments).countP (fun s ↦ old <+: s) =
      (segments.countP fun s ↦ old <+: s) - 1 := by
  induction segments with
  | nil => rfl
  | cons s rest ih =>
    rw [retarget]
    split
    · rename_i hstart
      rw [List.countP_cons_of_neg (by simpa using hnew _),
        List.countP_cons_of_pos (by simpa using hstart), Nat.add_sub_cancel]
    · rename_i hstart
      rw [List.countP_cons_of_neg (by simpa using hstart),
        List.countP_cons_of_neg (by simpa using hstart), ih]

theorem retarget_dots {dot : α} {segments : List (List α)} (hdots : ∀ s ∈ segments, dot ∉ s)
    (hnew : dot ∉ new) : ∀ s ∈ retarget old new segments, dot ∉ s := by
  induction segments with
  | nil => exact hdots
  | cons s rest ih =>
    have hrest : ∀ r ∈ rest, dot ∉ r := fun r hr ↦ hdots r (List.mem_cons_of_mem s hr)
    rw [retarget]
    split
    · intro r hr
      rcases List.mem_cons.mp hr with rfl | hr
      · rw [List.mem_append]
        rintro (h | h)
        · exact hnew h
        · exact hdots s List.mem_cons_self (List.mem_of_mem_drop h)
      · exact hrest r hr
    · intro r hr
      rcases List.mem_cons.mp hr with rfl | hr
      · exact hdots r List.mem_cons_self
      · exact ih hrest r hr

end Retargets

end AllAiTools.Foundation.Joined
