import AllAiTools.ChatGpt2Api.Services.LogService

namespace AllAiTools.ChatGpt2Api.Services.LogKept

open Text Foundation.JsonText LogService

section Lines

/-- None of the line ends beyond the control characters. -/
def Plain (s : Str) : Prop := ∀ c ∈ s, ¬ ['\u0085', '\u2028', '\u2029'].contains c = true

theorem not_isLineBreak_of_isPrintable {c : Char} (h : isPrintable c = true) : isLineBreak c = false := by
  by_contra hbreak
  rw [Bool.not_eq_false, isLineBreak, List.contains_iff_mem] at hbreak
  simp only [List.mem_cons, List.not_mem_nil, or_false] at hbreak
  obtain rfl | rfl | rfl | rfl | rfl | rfl | rfl | rfl | rfl | rfl := hbreak <;> exact absurd h (by decide)

/-- Texts of ASCII are plain. -/
theorem plain_of_ascii {s : Str} (h : (s.all fun c ↦ c.toNat < 128) = true) : Plain s := by
  intro c hc hwide
  have hlow := of_decide_eq_true (List.all_eq_true.mp h c hc)
  rw [List.contains_iff_mem] at hwide
  simp only [List.mem_cons, List.not_mem_nil, or_false] at hwide
  obtain rfl | rfl | rfl := hwide <;> exact absurd hlow (by decide)

theorem Plain.not_isLineBreak {s : Str} (h : Plain s) {c : Char} (hc : c ∈ s) (hcontrol : 32 ≤ c.toNat) :
    isLineBreak c = false := by
  have hwide := h c hc
  by_contra hbreak
  rw [Bool.not_eq_false, isLineBreak, List.contains_iff_mem] at hbreak
  rw [List.contains_iff_mem] at hwide
  simp only [List.mem_cons, List.not_mem_nil, or_false] at hbreak hwide
  obtain rfl | rfl | rfl | rfl | rfl | rfl | rfl | hbreak := hbreak
  · exact absurd hcontrol (by decide)
  · exact absurd hcontrol (by decide)
  · exact absurd hcontrol (by decide)
  · exact absurd hcontrol (by decide)
  · exact absurd hcontrol (by decide)
  · exact absurd hcontrol (by decide)
  · exact absurd hcontrol (by decide)
  · exact hwide hbreak

theorem splitlines_cons {c : Char} (hc : c ≠ '\r') (text : Str) : splitlines (c :: text) =
    if isLineBreak c then [] :: splitlines text
    else (c :: (splitlines text).headD []) :: (splitlines text).tail := by
  rw [splitlines]
  · cases splitlines text <;> rfl
  · intro text' heq
    exact absurd heq hc

theorem ne_return_of_not_isLineBreak {c : Char} (h : isLineBreak c = false) : c ≠ '\r' := by
  rintro rfl
  exact absurd h (by decide)

theorem splitlines_line {line : Str} (h : ∀ c ∈ line, isLineBreak c = false) (text : Str) :
    splitlines (line ++ '\n' :: text) = line :: splitlines text := by
  induction line with
  | nil =>
    rw [List.nil_append, splitlines_cons (by decide)]
    exact if_pos (by decide)
  | cons c line ih =>
    obtain ⟨hc, hline⟩ := List.forall_mem_cons.mp h
    rw [List.cons_append, splitlines_cons (ne_return_of_not_isLineBreak hc), ih hline, hc]
    rfl

theorem splitlines_lines {lines : List Str} (h : ∀ line ∈ lines, ∀ c ∈ line, isLineBreak c = false) :
    splitlines (lines.flatMap (· ++ ['\n'])) = lines := by
  induction lines with
  | nil => rfl
  | cons line lines ih =>
    obtain ⟨hline, hlines⟩ := List.forall_mem_cons.mp h
    rw [List.flatMap_cons, List.append_assoc, List.singleton_append, splitlines_line hline, ih hlines]

theorem universalNewlines_of_not_mem {text : Str} (h : '\r' ∉ text) : universalNewlines text = text := by
  induction text with
  | nil => rfl
  | cons c text ih =>
    rw [List.mem_cons, not_or] at h
    rw [universalNewlines, if_neg (Ne.symm h.1), ih h.2]
    intro text' heq
    exact absurd heq.symm h.1

/-- Lines without line ends are read back from a file of them. -/
theorem readLines_lines {lines : List Str} (h : ∀ line ∈ lines, ∀ c ∈ line, isLineBreak c = false) :
    readLines (lines.flatMap (· ++ ['\n'])) = lines := by
  have hreturn : '\r' ∉ lines.flatMap (· ++ ['\n']) := by
    intro hmem
    obtain ⟨line, hline, hmem⟩ := List.mem_flatMap.mp hmem
    rw [List.mem_append, List.mem_singleton] at hmem
    obtain hmem | heq := hmem
    · exact ne_return_of_not_isLineBreak (h line hline _ hmem) rfl
    · exact absurd heq (by decide)
  rw [readLines, universalNewlines_of_not_mem hreturn, splitlines_lines h]

theorem intercalate_lines (line : Str) (lines : List Str) :
    ['\n'].intercalate (line :: lines) ++ ['\n'] = (line :: lines).flatMap (· ++ ['\n']) := by
  induction lines generalizing line with
  | nil => simp
  | cons line' lines ih =>
    rw [List.flatMap_cons, ← ih line', List.intercalate_cons_cons, List.append_assoc, List.append_assoc]

theorem writeLines_eq {lines : List Str} (h : ∀ line ∈ lines, line ≠ []) :
    writeLines lines = lines.flatMap (· ++ ['\n']) := by
  cases lines with
  | nil => rfl
  | cons line lines =>
    have hne : ['\n'].intercalate (line :: lines) ≠ [] := by
      intro heq
      have hlines := intercalate_lines line lines
      rw [heq, List.flatMap_cons, List.append_assoc] at hlines
      obtain ⟨c, text, htext⟩ := List.exists_cons_of_ne_nil (h line List.mem_cons_self)
      have hlength := congrArg List.length hlines
      rw [htext] at hlength
      simp at hlength
    rw [writeLines]
    exact (if_neg hne).trans (intercalate_lines line lines)

end Lines

section Entries

variable {N : Type} (lib : Library N)

/-- No string of the entry has one of the wide line ends. -/
structure PlainEntry (entry : Entry N) : Prop where
  type : Plain entry.type
  summary : Plain entry.summary
  detail : Plain (Value.obj entry.detail.val).chars

def line (entry : Entry N) : Str := serializeItem lib entry.item

def Matches (filter : Filter) (entry : Entry N) : Prop :=
  (filter.type = [] ∨ entry.type = filter.type) ∧
    (filter.startDate = [] ∨ ¬ entry.time.val.take 10 < filter.startDate) ∧
    (filter.endDate = [] ∨ ¬ filter.endDate < entry.time.val.take 10)

instance (filter : Filter) (entry : Entry N) : Decidable (Matches filter entry) :=
  inferInstanceAs (Decidable (_ ∧ _ ∧ _))

variable {lib} {entry : Entry N}

theorem item_distinct (entry : Entry N) : (Value.obj entry.item).Distinct := by
  have hkeys : (["id", "time", "type", "summary", "detail"].map String.toList).Nodup := by decide
  exact ⟨hkeys, trivial, trivial, trivial, trivial, entry.detail.2, trivial⟩

theorem strOr_text {s : Str} (default : Str) (h : s ≠ [] ∨ default = []) :
    strOr lib (some (.str s)) default = s := by
  by_cases hs : s = []
  · obtain hne | rfl := h
    · exact absurd hs hne
    · subst hs
      rfl
  · have htrue : truthy lib (.str s) = true := decide_eq_true hs
    rw [strOr]
    exact if_pos htrue

theorem parseLine_line (entry : Entry N) (lineNumber : ℕ) :
    parseLine lib (line lib entry) lineNumber = some entry.item := by
  have hparse : parse lib.numbers (line lib entry) = some (.obj entry.item) :=
    parse_print (fun c hc ↦ absurd hc List.not_mem_nil) (fun c hc ↦ absurd hc List.not_mem_nil)
      (item_distinct entry)
  have hget : get entry.item "id" = some (.str entry.id.val) := rfl
  rw [parseLine, hparse]
  simp only [hget, strOr_text _ (.inl entry.id.2.1)]
  rfl

theorem line_plain (h : PlainEntry entry) : ∀ c ∈ line lib entry, isLineBreak c = false := by
  refine print_chars (fun c ↦ not_isLineBreak_of_isPrintable) (fun c hc ↦ absurd hc List.not_mem_nil)
    (fun c hc ↦ absurd hc List.not_mem_nil) _ ?_
  have hshown : ∀ s : Str, s.all isPrintable = true → ∀ c ∈ s, 32 ≤ c.toNat → isLineBreak c = false :=
    fun s hs c hc _ ↦ not_isLineBreak_of_isPrintable (List.all_eq_true.mp hs c hc)
  intro c hc
  simp only [Value.chars, Entry.item, charsOfFields, List.append_nil, List.mem_append] at hc
  obtain (hc | hc) | (hc | hc) | (hc | hc) | (hc | hc) | (hc | hc) := hc
  · exact hshown _ (by decide) c hc
  · exact hshown _ entry.id.2.2 c hc
  · exact hshown _ (by decide) c hc
  · exact hshown _ entry.time.2 c hc
  · exact hshown _ (by decide) c hc
  · exact h.type.not_isLineBreak hc
  · exact hshown _ (by decide) c hc
  · exact h.summary.not_isLineBreak hc
  · exact hshown _ (by decide) c hc
  · rw [← Value.chars] at hc
    exact h.detail.not_isLineBreak hc

theorem line_ne_nil (entry : Entry N) : line lib entry ≠ [] := by
  rw [line, serializeItem, print]
  exact List.cons_ne_nil _ _

theorem matchesFilters_item (filter : Filter) (entry : Entry N) :
    matchesFilters lib entry.item filter = decide (Matches filter entry) := by
  have htime : strOr lib (get entry.item "time") [] = entry.time.val := strOr_text [] (.inr rfl)
  have htype : isText (get entry.item "type") filter.type = decide (entry.type = filter.type) := rfl
  rw [matchesFilters, htime, htype, Bool.eq_iff_iff, decide_eq_true_eq, Matches]
  split_ifs with hfilter hstart hend
  · simp_all
  · simp_all
  · simp_all
  · simp_all
    tauto

end Entries

section Runs

variable {N : Type} (lib : Library N)

inductive Op (N : Type)
  | add (call : AddCall N)
  | delete (ids : List Str)

def step (file : File) : Op N → File
  | .add call => add lib file call
  | .delete ids => (delete lib file ids).1

/-- The file after calls one after the other, from no file. -/
def run (ops : List (Op N)) : File := ops.foldl (step lib) none

/-- The entries that were added and not deleted, the oldest first. -/
def entries (ops : List (Op N)) : List (Entry N) :=
  ops.foldl (fun log op ↦
    match op with
    | .add call => log ++ [call.entry]
    | .delete ids => log.filter fun entry ↦ !(ids.map strip).contains entry.id.val) []

def PlainOp : Op N → Prop
  | .add call => PlainEntry call.entry
  | .delete _ => True

/-- The file has the entries as lines. -/
structure Written (file : File) (log : List (Entry N)) : Prop where
  content : file.getD [] = (log.map (line lib)).flatMap (· ++ ['\n'])
  plain : ∀ entry ∈ log, PlainEntry entry

variable {lib} {file : File} {log : List (Entry N)}

theorem Written.readLines (h : Written lib file log) : readLines (file.getD []) = log.map (line lib) := by
  rw [h.content]
  refine readLines_lines fun text htext ↦ ?_
  obtain ⟨entry, hentry, rfl⟩ := List.mem_map.mp htext
  exact line_plain (h.plain entry hentry)

theorem Written.add (h : Written lib file log) {call : AddCall N} (hplain : PlainEntry call.entry) :
    Written lib (add lib file call) (log ++ [call.entry]) where
  content := by
    rw [LogService.add, Option.getD_some, h.content, List.map_append, List.flatMap_append]
    simp [line]
  plain entry hentry := by
    obtain hentry | hentry := List.mem_append.mp hentry
    · exact h.plain entry hentry
    · exact List.mem_singleton.mp hentry ▸ hplain

theorem keptLine_line (ids : List Str) (entry : Entry N) (lineNumber : ℕ) :
    keptLine lib (targetIds ids) (line lib entry, lineNumber) =
      if entry.id.val ∉ ids.map strip then some (line lib entry) else none := by
  have hid : strOr lib (get entry.item "id") [] = entry.id.val := strOr_text [] (.inr rfl)
  have htarget : (targetIds ids).contains entry.id.val = true ↔ entry.id.val ∈ ids.map strip := by
    rw [List.contains_iff_mem, targetIds, List.mem_filter, decide_eq_true_eq]
    exact and_iff_left entry.id.2.1
  rw [keptLine, parseLine_line]
  simp only [hid, htarget, ite_not]
  rfl

/-- What `delete` keeps of lines that are entries. -/
theorem filterMap_keptLine (ids : List Str) (log : List (Entry N)) (start : ℕ) :
    ((log.map (line lib)).zipIdx start).filterMap (keptLine lib (targetIds ids)) =
      (log.filter fun entry ↦ !(ids.map strip).contains entry.id.val).map (line lib) := by
  induction log generalizing start with
  | nil => rfl
  | cons entry log ih =>
    rw [List.map_cons, List.zipIdx_cons, List.filterMap_cons, keptLine_line, List.filter_cons, ih]
    by_cases hgone : entry.id.val ∈ ids.map strip
    · rw [if_neg (not_not.mpr hgone), List.contains_iff_mem.mpr hgone]
      rfl
    · have hkept : (ids.map strip).contains entry.id.val = false :=
        Bool.eq_false_iff.mpr (mt List.contains_iff_mem.mp hgone)
      rw [if_pos hgone, hkept]
      rfl

theorem filter_of_targetIds_nil {ids : List Str} (h : targetIds ids = []) (log : List (Entry N)) :
    (log.filter fun entry ↦ !(ids.map strip).contains entry.id.val) = log := by
  rw [List.filter_eq_self]
  intro entry _
  rw [Bool.not_eq_true', Bool.eq_false_iff]
  intro hcontains
  have htarget : entry.id.val ∈ targetIds ids :=
    List.mem_filter.mpr ⟨List.contains_iff_mem.mp hcontains, decide_eq_true entry.id.2.1⟩
  rw [h] at htarget
  exact List.not_mem_nil htarget

theorem Written.delete (h : Written lib file log) (ids : List Str) :
    Written lib (delete lib file ids).1 (log.filter fun entry ↦ !(ids.map strip).contains entry.id.val) where
  content := by
    have hlines := h.readLines
    cases file with
    | none =>
      have hlog : log.map (line lib) = [] := hlines.symm
      rw [List.map_eq_nil_iff.mp hlog]
      rfl
    | some content =>
      rw [LogService.delete]
      split
      · rename_i htargets
        rw [filter_of_targetIds_nil htargets]
        exact h.content
      · rw [Option.getD_some] at hlines
        rw [hlines, Option.getD_some, filterMap_keptLine, writeLines_eq]
        intro text htext
        obtain ⟨entry, -, rfl⟩ := List.mem_map.mp htext
        exact line_ne_nil entry
  plain entry hentry := h.plain entry (List.mem_filter.mp hentry).1

theorem written_run {ops : List (Op N)} (h : ∀ op ∈ ops, PlainOp op) :
    Written lib (run lib ops) (entries ops) := by
  induction ops using List.reverseRecOn with
  | nil => exact ⟨rfl, fun entry hentry ↦ absurd hentry List.not_mem_nil⟩
  | append_singleton ops op ih =>
    have hops := ih fun op' hop ↦ h op' (List.mem_append_left _ hop)
    have hop := h op (List.mem_append_right _ (List.mem_singleton_self op))
    rw [run, entries, List.foldl_append, List.foldl_append]
    cases op with
    | add call => exact hops.add hop
    | delete ids => exact hops.delete ids

/-- The loop goes through lines that are entries. -/
theorem listLoop_lines (filter : Filter) {limit : ℤ} {pairs : List (Str × ℕ)}
    (hpairs : pairs.map Prod.fst = log.map (line lib)) {items : List (Item N)}
    (hlimit : (items.length + log.length : ℕ) ≤ limit) :
    listLoop lib filter limit pairs items =
      items ++ (log.filter fun entry ↦ Matches filter entry).map Entry.item := by
  induction log generalizing pairs items with
  | nil =>
    rw [List.map_eq_nil_iff.mp hpairs, listLoop, List.filter_nil, List.map_nil, List.append_nil]
  | cons entry log ih =>
    cases pairs with
    | nil => exact absurd hpairs.symm (List.cons_ne_nil _ _)
    | cons pair pairs =>
      obtain ⟨text, lineNumber⟩ := pair
      obtain ⟨rfl, hrest⟩ := List.cons.inj hpairs
      rw [List.length_cons] at hlimit
      rw [listLoop, parseLine_line]
      simp only [matchesFilters_item, decide_eq_false_iff_not]
      by_cases hmatch : Matches filter entry
      · have hlength : (items ++ [entry.item]).length = items.length + 1 := by
          rw [List.length_append, List.length_singleton]
        rw [if_neg (not_not.mpr hmatch), List.filter_cons, if_pos (decide_eq_true hmatch), List.map_cons,
          List.append_cons items entry.item (List.map _ _)]
        split
        · rename_i hfull
          have hlog : log = [] := by
            rw [hlength] at hfull
            exact List.eq_nil_of_length_eq_zero (by omega)
          rw [hlog, List.filter_nil, List.map_nil, List.append_nil]
        · exact ih hrest (by omega)
      · rw [if_pos hmatch, List.filter_cons, if_neg (by simpa using hmatch)]
        exact ih hrest (by omega)

end Runs

section Example

def exampleLibrary : Library ℤ := ⟨integers, (· = 0), fun _ ↦ "1".toList, fun _ _ ↦ "0".toList⟩

def exampleCall (id : Char) (summary : Str) (h : isPrintable id = true) : AddCall ℤ where
  id := ⟨[id], List.cons_ne_nil _ _, by rw [List.all_cons, h]; rfl⟩
  time := ⟨"2026-01-01 00:00:00".toList, by decide⟩
  type := "call".toList
  summary
  detail := some ⟨[("status".toList, .num 200)], by decide, trivial, trivial⟩
  data := ⟨[], by decide, trivial⟩

theorem plain_exampleCall (id : Char) {summary : Str} (hsummary : Plain summary) (h : isPrintable id = true) :
    PlainEntry (exampleCall id summary h).entry where
  type := plain_of_ascii (s := "call".toList) (by decide)
  summary := hsummary
  detail := plain_of_ascii (s := "status".toList) (by decide)

end Example

end AllAiTools.ChatGpt2Api.Services.LogKept
