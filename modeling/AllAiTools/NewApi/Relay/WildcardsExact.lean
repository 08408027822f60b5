import AllAiTools.Foundation.Pieces
import AllAiTools.Foundation.Wildcards
import AllAiTools.NewApi.Relay.ParamOverride

namespace AllAiTools.NewApi.Relay.WildcardsExact

open Foundation Foundation.Doc ParamOverride
open Common.Str (isSpace)

section Patterns

/-- The segments of a path as a pattern. -/
def pattern (path : Text) : List (Option Text) :=
  (segments path).map fun s ↦ if trimSpace s = ['*'] then none else some (trimSpace s)

/-- A segment that is no star. An index is written with digits only. -/
structure Literal (s : Text) : Prop where
  full : s ≠ []
  unsigned : ∀ i, atoiSegment s = some i → 0 ≤ i → parseUint s ≠ none

structure WildcardPath (path : Text) : Prop where
  star : none ∈ pattern path
  literal : ∀ s, some s ∈ pattern path → Literal s

/-- A key that is read back from a joined path. -/
structure Key (k : Text) : Prop where
  segment : Segment k
  not_last : k ≠ ['-', '1']
  not_blank : ∃ c ∈ k, isSpace c = false

/-- The paths of the nodes that a wildcard path matches. -/
def addresses (path : Text) (data : Json) : List (List Text) :=
  matched parseUint digits sortedKeys (pattern path) data

theorem enumerates : Enumerates (S := Scalar) parseUint digits sortedKeys where
  name := parseUint_digits
  nodup fields _ := (List.perm_insertionSort _ _).nodup_iff.mpr (List.nodup_dedup _)
  mem fields k := by
    unfold sortedKeys
    rw [(List.perm_insertionSort _ _).mem_iff, List.mem_dedup]

theorem parseUint_cons {c : Char} {ds : Text} (hc : c.isDigit = false) :
    parseUint (c :: ds) = none := by
  unfold parseUint
  rw [if_neg]
  rintro ⟨-, hdigits⟩
  cases hc.symm.trans (List.all_eq_true.mp hdigits c List.mem_cons_self)

theorem atoiSegment_of_parseUint {s : Text} {n : ℕ} (h : parseUint s = some n) :
    atoiSegment s = some (n : ℤ) := by
  unfold atoiSegment
  split
  · rw [parseUint_cons rfl] at h
    cases h
  · rw [parseUint_cons rfl] at h
    cases h
  · rw [h]
    rfl

/-- The element that a literal segment names. -/
theorem literal_item {s : Text} (hs : Literal s) (items : List Json) {α : Type} (f : Json → List α) :
    (match atoiSegment s with
      | none => []
      | some i => if i < 0 then [] else match items[i.toNat]? with
        | none => []
        | some c => f c) =
      (((parseUint s).bind fun i ↦ items[i]?).map f).getD [] := by
  cases hparse : parseUint s with
  | none =>
    cases hatoi : atoiSegment s with
    | none => rfl
    | some i =>
      dsimp only
      rw [if_pos]
      · rfl
      · by_contra hneg
        exact hs.unsigned i hatoi (not_lt.mp hneg) hparse
  | some n =>
    rw [atoiSegment_of_parseUint hparse]
    dsimp only
    rw [if_neg (by omega), Int.toNat_natCast, Option.bind_some]
    cases items[n]? with
    | none => rfl
    | some c => rfl

end Patterns

section Paths

theorem dotted_append_cons (pre : List Text) (k : Text) (path : List Text) :
    dotted (pre ++ k :: path) = dotted ((pre ++ [k]) ++ path) := by
  rw [List.append_assoc, List.singleton_append]

/-- The concrete paths of a wildcard path are those of the nodes it matches. -/
theorem collectWildcardPaths_eq {segs : List Text}
    (hsegs : ∀ s ∈ segs, trimSpace s = ['*'] ∨ Literal (trimSpace s)) (node : Json)
    (pre : List Text) :
    collectWildcardPaths segs node pre =
      (matched parseUint digits sortedKeys
        (segs.map fun s ↦ if trimSpace s = ['*'] then none else some (trimSpace s)) node).map
        fun path ↦ dotted (pre ++ path) := by
  induction segs generalizing node pre with
  | nil => simp [collectWildcardPaths, matched]
  | cons raw rest ih =>
    have hrest : ∀ s ∈ rest, trimSpace s = ['*'] ∨ Literal (trimSpace s) :=
      fun s hs ↦ hsegs s (List.mem_cons_of_mem raw hs)
    have hbelow (c : Json) (k : Text) : collectWildcardPaths rest c (pre ++ [k]) =
        ((matched parseUint digits sortedKeys
          (rest.map fun s ↦ if trimSpace s = ['*'] then none else some (trimSpace s)) c).map
            (k :: ·)).map fun path ↦ dotted (pre ++ path) := by
      rw [ih hrest, List.map_map]
      refine List.map_congr_left fun path _ ↦ ?_
      exact (dotted_append_cons pre k path).symm
    rw [List.map_cons]
    by_cases hstar : trimSpace raw = ['*']
    · rw [if_pos hstar]
      cases node with
      | leaf t => simp [collectWildcardPaths, hstar, matched]
      | arr items =>
        simp only [collectWildcardPaths, hstar, List.cons_ne_nil, if_false, if_true, matched,
          List.map_flatMap, hbelow]
      | obj fields =>
        simp only [collectWildcardPaths, hstar, List.cons_ne_nil, if_false, if_true, matched,
          List.map_flatMap, hbelow]
        refine List.flatMap_congr fun k _ ↦ ?_
        cases lookup fields k with
        | none => rfl
        | some c => rfl
    · have hlit := (hsegs raw List.mem_cons_self).resolve_left hstar
      rw [if_neg hstar]
      cases node with
      | leaf t => simp [collectWildcardPaths, hstar, hlit.full, matched]
      | arr items =>
        simp only [collectWildcardPaths, hstar, hlit.full, if_false, matched, hbelow]
        refine (literal_item hlit items _).trans ?_
        cases (parseUint (trimSpace raw)).bind fun i ↦ items[i]? with
        | none => rfl
        | some c =>
          rw [Option.map_some, Option.map_some, Option.getD_some, Option.getD_some]
          split
          · rename_i hlast
            subst hlast
            simp [matched]
          · rfl
      | obj fields =>
        simp only [collectWildcardPaths, hstar, hlit.full, if_false, matched, hbelow,
          List.map_eq_nil_iff]
        split
        · simp
        · cases lookup fields (trimSpace raw) with
          | none => rfl
          | some c => rfl

theorem mem_of_mem_trimSpace {s : Text} {c : Char} (hc : c ∈ trimSpace s) : c ∈ s :=
  (List.dropWhile_sublist _).subset ((List.rdropWhile_prefix _ _).subset hc)

theorem trimSpace_ne_nil {s : Text} {c : Char} (hc : c ∈ s) (hblank : isSpace c = false) :
    trimSpace s ≠ [] := by
  intro hnil
  unfold trimSpace at hnil
  have hall := List.rdropWhile_eq_nil_iff.mp hnil
  rw [← List.takeWhile_append_dropWhile (p := isSpace) (l := s), List.mem_append] at hc
  rcases hc with hc | hc
  · cases hblank.symm.trans (List.mem_takeWhile_imp hc)
  · cases hblank.symm.trans (hall c hc)

theorem star_mem {path : Text} (hpath : WildcardPath path) : '*' ∈ path := by
  obtain ⟨s, hs, hstar⟩ := List.mem_map.mp hpath.star
  split at hstar
  · rename_i htrim
    have hmem : '*' ∈ trimSpace s := htrim ▸ List.mem_cons_self
    rw [← Joined.joined_splitOn '.' path]
    exact Joined.mem_joined_of_mem hs (mem_of_mem_trimSpace hmem)
  · cases hstar

theorem pattern_segments {path : Text} (hpath : WildcardPath path) :
    ∀ s ∈ segments path, trimSpace s = ['*'] ∨ Literal (trimSpace s) := by
  intro s hs
  by_cases hstar : trimSpace s = ['*']
  · exact .inl hstar
  · refine .inr (hpath.literal (trimSpace s) (List.mem_map.mpr ⟨s, hs, ?_⟩))
    rw [if_neg hstar]

theorem pattern_ne_nil (path : Text) : pattern path ≠ [] := by
  unfold pattern
  rw [Ne, List.map_eq_nil_iff]
  exact List.splitOn_ne_nil _ _

theorem addresses_ne_nil {path : Text} {data : Json} : ∀ p ∈ addresses path data, p ≠ [] := by
  unfold addresses
  obtain ⟨segment, rest, hpattern⟩ := List.exists_cons_of_ne_nil (pattern_ne_nil path)
  rw [hpattern]
  exact matched_ne_nil

variable {path : Text} {data : Json} (hpath : WildcardPath path) (hdata : Distinct data)
  (hkeys : ∀ p ∈ addresses path data, ∀ k ∈ p, Key k)

include hpath hdata hkeys

/-- Every matched node is visited once, by its own path. -/
theorem resolveOperationPaths_eq :
    resolveOperationPaths data path = (addresses path data).map dotted := by
  have hcollect : collectWildcardPaths (segments path) data [] =
      (addresses path data).map dotted := collectWildcardPaths_eq (pattern_segments hpath) data []
  have hnodup : ((addresses path data).map dotted).Nodup := by
    refine List.Nodup.map_on ?_ (nodup_matched enumerates (pattern path) hdata)
    intro p hp q hq hsame
    exact Joined.joined_injective (fun k hk ↦ (hkeys p hp k hk).segment.dots)
      (fun k hk ↦ (hkeys q hq k hk).segment.dots) (addresses_ne_nil p hp) (addresses_ne_nil q hq)
      hsame
  rw [resolveOperationPaths, if_pos (star_mem hpath), expandWildcardPaths, hcollect,
    Pieces.eraseDups_of_nodup hnodup]

end Paths

section Runs

/-- A run of the steps at some paths is the run of what each does to the document. -/
theorem foldlM_ok {op : Json → List Text → Option Json} {step : Json → Text → Except String Json}
    {paths : List (List Text)}
    (hstep : ∀ p ∈ paths, ∀ d, (step d (dotted p)).toOption = op d p) {d result : Json}
    (h : paths.foldlM op d = some result) : (paths.map dotted).foldlM step d = .ok result := by
  induction paths generalizing d with
  | nil =>
    obtain rfl := Option.some.inj h
    rfl
  | cons p paths ih =>
    rw [List.foldlM_cons] at h
    obtain ⟨d', hd', hrest⟩ := Option.bind_eq_some_iff.mp h
    have hfirst := hstep p List.mem_cons_self d
    rw [hd'] at hfirst
    have hok : step d (dotted p) = .ok d' := by
      cases hstep' : step d (dotted p) with
      | error e =>
        rw [hstep'] at hfirst
        cases hfirst
      | ok d'' =>
        rw [hstep'] at hfirst
        rw [Option.some.inj hfirst]
    rw [List.map_cons, List.foldlM_cons, hok]
    exact ih (fun q hq ↦ hstep q (List.mem_cons_of_mem p hq)) hrest

variable {lib : PathLibrary} (hlib : lib.Exact) {p : List Text} (hne : p ≠ [])
  (hkeys : ∀ k ∈ p, Key k)

include hne hkeys

theorem segments_key : segments (dotted p) = p :=
  segments_dotted (fun k hk ↦ (hkeys k hk).segment) hne

theorem dotted_ne_nil : dotted p ≠ [] := by
  obtain ⟨k, rest, rfl⟩ := List.exists_cons_of_ne_nil hne
  obtain ⟨c, hc, -⟩ := (hkeys k List.mem_cons_self).not_blank
  exact List.ne_nil_of_mem (Joined.mem_joined_of_mem List.mem_cons_self hc)

include hlib

theorem deleteValue_key (d : Json) :
    (deleteValue lib d (dotted p)).toOption = some (d.delete parseUint p) := by
  obtain ⟨k, rest, rfl⟩ := List.exists_cons_of_ne_nil hne
  obtain ⟨c, hc, hblank⟩ := (hkeys k List.mem_cons_self).not_blank
  have hmem : c ∈ dotted (k :: rest) := Joined.mem_joined_of_mem List.mem_cons_self hc
  have hlast : ['-', '1'] ∉ segments (dotted (k :: rest)) := by
    rw [segments_key hne hkeys]
    exact fun h ↦ (hkeys _ h).not_last rfl
  rw [deleteValue, if_neg (trimSpace_ne_nil hmem hblank),
    hlib.delete d _ (dotted_dotted fun k hk ↦ (hkeys k hk).segment) (dotted_ne_nil hne hkeys) hlast,
    segments_key hne hkeys]
  rfl

theorem setBytes_key (d v : Json) :
    (lib.setBytes d (dotted p) v).toOption = d.set parseUint .null p v := by
  have hlast : ['-', '1'] ∉ segments (dotted p) := by
    rw [segments_key hne hkeys]
    exact fun h ↦ (hkeys _ h).not_last rfl
  rw [hlib.set d _ v (dotted_dotted fun k hk ↦ (hkeys k hk).segment) (dotted_ne_nil hne hkeys)
    hlast, segments_key hne hkeys]

end Runs

section Wildcards

variable {lib : PathLibrary} {path : Text} {data : Json}

/-- A wildcard delete leaves out the matched nodes, and a wildcard set writes them. -/
def Exactly (lib : PathLibrary) (data : Json) (path : Text) : Prop :=
  deleteMode lib data path = .ok (data.wiped parseUint (pattern path)) ∧
    ∀ v, setMode lib false v data path = .ok (filled parseUint v (pattern path) data)

theorem deleteMode_eq (hlib : lib.Exact) (hpath : WildcardPath path) (hdata : Distinct data)
    (hkeys : ∀ p ∈ addresses path data, ∀ k ∈ p, Key k) :
    deleteMode lib data path = .ok (data.swept parseUint everyOther (pattern path)) := by
  rw [deleteMode, resolveOperationPaths_eq hpath hdata hkeys]
  exact foldlM_ok (fun p hp d ↦ deleteValue_key hlib (addresses_ne_nil p hp) (hkeys p hp) d)
    (foldlM_delete enumerates (pattern_ne_nil path) hdata)

theorem setMode_eq (hlib : lib.Exact) (hpath : WildcardPath path) (hdata : Distinct data)
    (hkeys : ∀ p ∈ addresses path data, ∀ k ∈ p, Key k) (v : Json) :
    setMode lib false v data path = .ok (filled parseUint v (pattern path) data) := by
  rw [setMode, resolveOperationPaths_eq hpath hdata hkeys]
  exact foldlM_ok (fun p hp d ↦ setBytes_key hlib (addresses_ne_nil p hp) (hkeys p hp) d v)
    (foldlM_set enumerates .null v (pattern path) hdata)

/-- Wildcards are exact unless the last star meets an array with two elements or more. -/
theorem wildcards_iff (hlib : lib.Exact) (hpath : WildcardPath path) (hdata : Distinct data)
    (hkeys : ∀ p ∈ addresses path data, ∀ k ∈ p, Key k) :
    Exactly lib data path ↔ ¬ Crowded parseUint (pattern path) data := by
  unfold Exactly
  rw [deleteMode_eq hlib hpath hdata hkeys, Except.ok.injEq, swept_eq_wiped_iff _ hdata]
  exact and_iff_left fun v ↦ setMode_eq hlib hpath hdata hkeys v

def tool (name : String) : Json := .obj [("name".toList, .leaf (.str name.toList))]

def twoTools : Json := .obj [("tools".toList, .arr [tool "a", tool "b"])]

theorem distinct_tool (name : String) : Distinct (tool name) :=
  .obj (List.nodup_singleton _) fun p hp ↦ by
    rw [List.mem_singleton] at hp
    subst hp
    exact .leaf _

theorem distinct_twoTools : Distinct twoTools := by
  refine .obj (List.nodup_singleton _) fun p hp ↦ ?_
  rw [List.mem_singleton] at hp
  subst hp
  refine .arr fun c hc ↦ ?_
  simp only [List.mem_cons, List.not_mem_nil, or_false] at hc
  rcases hc with rfl | rfl
  · exact distinct_tool "a"
  · exact distinct_tool "b"

theorem pattern_tools : pattern "tools.*.name".toList =
    [some "tools".toList, none, some "name".toList] := by decide

theorem addresses_tools : addresses "tools.*.name".toList twoTools =
    [["tools".toList, "0".toList, "name".toList], ["tools".toList, "1".toList, "name".toList]] := by
  rfl

theorem key_word {k : Text} {c : Char} (hdots : '.' ∉ k) (hplain : ∀ c ∈ k, c ∉ specialChars)
    (hlast : k ≠ ['-', '1']) (hc : c ∈ k) (hblank : isSpace c = false) : Key k :=
  ⟨⟨hdots, List.ne_nil_of_mem hc, hplain⟩, hlast, c, hc, hblank⟩

theorem keys_words : Key "tools".toList ∧ Key "name".toList ∧ Key "0".toList ∧ Key "1".toList := by
  refine ⟨key_word (c := 't') ?_ ?_ ?_ ?_ ?_, key_word (c := 'n') ?_ ?_ ?_ ?_ ?_,
    key_word (c := '0') ?_ ?_ ?_ ?_ ?_, key_word (c := '1') ?_ ?_ ?_ ?_ ?_⟩
  all_goals simp [specialChars, isSpace]

theorem keys_tools : ∀ p ∈ addresses "tools.*.name".toList twoTools, ∀ k ∈ p, Key k := by
  obtain ⟨htools, hname, hzero, hone⟩ := keys_words
  rw [addresses_tools]
  simp only [List.forall_mem_cons, List.not_mem_nil, false_imp_iff, implies_true, and_true]
  exact ⟨⟨htools, hzero, hname⟩, htools, hone, hname⟩

theorem keys_all_tools : ∀ p ∈ addresses "tools.*".toList twoTools, ∀ k ∈ p, Key k := by
  have haddresses : addresses "tools.*".toList twoTools =
      [["tools".toList, "0".toList], ["tools".toList, "1".toList]] := by rfl
  obtain ⟨htools, -, hzero, hone⟩ := keys_words
  rw [haddresses]
  simp only [List.forall_mem_cons, List.not_mem_nil, false_imp_iff, implies_true, and_true]
  exact ⟨⟨htools, hzero⟩, htools, hone⟩

theorem literal_word {s : Text} (hs : s ≠ []) (hnone : atoiSegment s = none) : Literal s :=
  ⟨hs, fun i hi _ ↦ absurd (hnone.symm.trans hi) (Option.some_ne_none i).symm⟩

theorem wildcard_tools : WildcardPath "tools.*.name".toList := by
  constructor
  · rw [pattern_tools]
    exact .tail _ (.head _)
  · intro s hs
    rw [pattern_tools] at hs
    simp only [List.mem_cons, Option.some.injEq, List.not_mem_nil, or_false, reduceCtorEq,
      false_or] at hs
    rcases hs with rfl | rfl
    · exact literal_word (by decide) rfl
    · exact literal_word (by decide) rfl

theorem wildcards_tools : Exactly exactLibrary twoTools "tools.*.name".toList := by
  refine (wildcards_iff exactLibrary_exact wildcard_tools distinct_twoTools keys_tools).mpr ?_
  rw [pattern_tools]
  simp [Crowded, twoTools, tool, lookup]

theorem pattern_all_tools : pattern "tools.*".toList = [some "tools".toList, none] := by decide

theorem wildcard_all_tools : WildcardPath "tools.*".toList := by
  constructor
  · rw [pattern_all_tools]
    exact .tail _ (.head _)
  · intro s hs
    rw [pattern_all_tools] at hs
    simp only [List.mem_cons, Option.some.injEq, List.not_mem_nil, or_false, reduceCtorEq] at hs
    subst hs
    exact literal_word (by decide) rfl

/-- Of two tools the second is left. -/
theorem wildcards_not : ¬ ∀ (lib : PathLibrary) (data : Json) (path : Text), lib.Exact →
    WildcardPath path → Distinct data → (∀ p ∈ addresses path data, ∀ k ∈ p, Key k) →
      Exactly lib data path := by
  intro hall
  obtain ⟨hdelete, -⟩ := hall exactLibrary twoTools "tools.*".toList exactLibrary_exact
    wildcard_all_tools distinct_twoTools keys_all_tools
  have hcode : deleteMode exactLibrary twoTools "tools.*".toList =
      .ok (.obj [("tools".toList, .arr [tool "b"])]) := by rfl
  rw [hcode, pattern_all_tools] at hdelete
  cases hdelete

end Wildcards

end AllAiTools.NewApi.Relay.WildcardsExact
