import AllAiTools.ChatGpt2Api.Protocol.AnthropicStream

namespace AllAiTools.ChatGpt2Api.Protocol.AnthropicMessages

open Text Json ToolMarkup

variable (lib : Library) (request : Request)

section Collecting

/-- The blocks a client has while the text is streamed. -/
def blocksOf (s : StreamState) : List (ℕ × BlockHead × Str) :=
  if s.textOpen then [(0, .text, s.streamedText)] else []

def gathered (s : StreamState) : Collected := ⟨blocksOf s, none⟩

/-- Nothing was shown as long as the block of text is not open. -/
def Silent (s : StreamState) : Prop := s.textOpen = false → s.streamedText = []

theorem streamText_silent {s : StreamState} (hsilent : Silent s) (visible : Str) :
    Silent (streamText s visible).1 := by
  rw [streamText]
  split
  · exact fun h ↦ absurd h Bool.true_eq_false.mp
  · exact hsilent

theorem streamText_collect {s : StreamState} (hsilent : Silent s) (visible : Str) :
    (streamText s visible).2.foldl collect (gathered s) =
      gathered (streamText s visible).1 := by
  rw [streamText]
  split
  · rename_i hsent
    have hvisible : s.streamedText ++ visible.drop s.streamedText.length = visible :=
      List.prefix_iff_eq_append.mp hsent.1
    cases hopen : s.textOpen with
    | false => simp [gathered, blocksOf, hopen, collect, appendPiece, Delta.piece, hsilent hopen]
    | true => simp [gathered, blocksOf, hopen, collect, appendPiece, Delta.piece, hvisible]
  · rfl

theorem onContent_collect {s : StreamState} (hsilent : Silent s) (piece : Str) :
    (onContent lib request s piece).2.foldl collect (gathered s) =
        gathered (onContent lib request s piece).1 ∧
      Silent (onContent lib request s piece).1 := by
  rw [onContent]
  split
  · exact ⟨rfl, hsilent⟩
  · dsimp only
    split
    · exact ⟨rfl, hsilent⟩
    · exact ⟨streamText_collect (s := { s with currentText := s.currentText ++ piece }) hsilent _,
        streamText_silent (s := { s with currentText := s.currentText ++ piece }) hsilent _⟩

theorem readPieces_collect {s : StreamState} (hsilent : Silent s) (pieces : List Str) :
    (readPieces lib request s pieces).2.foldl collect (gathered s) =
      gathered (readPieces lib request s pieces).1 := by
  induction pieces generalizing s with
  | nil => rfl
  | cons piece pieces ih =>
    obtain ⟨hpiece, hnext⟩ := onContent_collect lib request hsilent piece
    rw [readPieces, List.foldl_append, hpiece]
    exact ih hnext

/-- The blocks as they are numbered from an index on. -/
def placed : List Block → ℕ → List (ℕ × BlockHead × Str)
  | [], _ => []
  | block :: blocks, index =>
    (index, headOf block, (deltaOf lib block).piece) :: placed blocks (index + 1)

theorem streamBufferedBlocks_collect (blocks : List Block) {index : ℕ} {before : Collected}
    (hbelow : ∀ block ∈ before.blocks, block.1 < index) :
    (streamBufferedBlocks lib blocks index).foldl collect before =
      { before with blocks := before.blocks ++ placed lib blocks index } := by
  induction blocks generalizing index before with
  | nil => simp [streamBufferedBlocks, placed]
  | cons block blocks ih =>
    have hkept : before.blocks.map (appendPiece index (deltaOf lib block).piece) =
        before.blocks := by
      refine (List.map_congr_left fun old hold ↦ ?_).trans (List.map_id before.blocks)
      exact if_neg (hbelow old hold).ne
    have hblock : [.blockStart index (headOf block), .blockDelta index (deltaOf lib block),
        .blockStop index].foldl collect before =
          { before with
            blocks := before.blocks ++ [(index, headOf block, (deltaOf lib block).piece)] } := by
      simp [collect, hkept, appendPiece]
    have hnext : ∀ old ∈ before.blocks ++ [(index, headOf block, (deltaOf lib block).piece)],
        old.1 < index + 1 := by
      intro old hold
      rcases List.mem_append.mp hold with hbefore | hlast
      · exact (hbelow old hbefore).trans (Nat.lt_succ_self index)
      · rw [List.mem_singleton.mp hlast]
        exact Nat.lt_succ_self index
    rw [streamBufferedBlocks, List.foldl_append, hblock, ih hnext, placed, List.append_assoc]
    rfl

theorem placed_items (blocks : List Block) (index : ℕ) :
    (placed lib blocks index).filterMap (fun block ↦ itemOf block.2.1 block.2.2) =
      items lib blocks := by
  induction blocks generalizing index with
  | nil => rfl
  | cons block blocks ih => rw [placed, items, List.filterMap_cons, List.filterMap_cons, ih]; rfl

theorem filterMap_singleton {α β : Type} (f : α → Option β) (a : α) :
    [a].filterMap f = (f a).toList := by
  rw [List.filterMap_cons]
  cases f a <;> rfl

theorem blocksOf_items {s : StreamState} (hsilent : Silent s) :
    (blocksOf s).filterMap (fun block ↦ itemOf block.2.1 block.2.2) =
      (itemOf .text s.streamedText).toList := by
  rw [blocksOf]
  cases hopen : s.textOpen with
  | false => rw [hsilent hopen]; rfl
  | true => exact filterMap_singleton _ _

theorem streamRemaining_collect {s : StreamState} (hsilent : Silent s) {text : Str}
    (htext : text ≠ []) :
    (streamRemaining s text).foldl collect (gathered s) =
      ⟨[(0, .text, s.streamedText ++ text.drop s.streamedText.length)], none⟩ := by
  rw [streamRemaining, gathered, blocksOf]
  cases hopen : s.textOpen with
  | false => simp [hsilent hopen, htext, collect, appendPiece, Delta.piece]
  | true =>
    by_cases hrest : text.length ≤ s.streamedText.length
    · simp [hrest]
    · simp [hrest, collect, appendPiece, Delta.piece]

/-- The text a client ends up with: with tool calls the message is sent from where the text stops. -/
def finalText (text shown : Str) : Str :=
  shown ++ if toolCalls lib request text = [] then []
    else (stripToolMarkup lib text).drop shown.length

theorem streamToolUse_collect {s : StreamState} (hsilent : Silent s) {text : Str}
    (hcalls : toolCalls lib request text ≠ []) :
    ∃ shown index, (streamToolUse lib s (contentBlocks lib request text).1).foldl collect
        (gathered s) = ⟨shown ++ placed lib (toolBlocks lib request text) index, none⟩ ∧
      shown.filterMap (fun block ↦ itemOf block.2.1 block.2.2) =
        (itemOf .text (finalText lib request text s.streamedText)).toList := by
  rw [contentBlocks, finalText, if_neg hcalls, if_neg hcalls]
  by_cases hempty : stripToolMarkup lib text = []
  · have hbelow : ∀ block ∈ (gathered s).blocks, block.1 < if s.textOpen then 1 else 0 := by
      intro block hblock
      cases hopen : s.textOpen <;> simp_all [gathered, blocksOf]
    have htext : textBlocks lib text = [] := if_pos hempty
    rw [htext, List.nil_append, streamToolUse_tools, streamBufferedBlocks_collect lib _ hbelow,
      hempty, List.drop_nil, List.append_nil]
    exact ⟨blocksOf s, _, rfl, blocksOf_items hsilent⟩
  · have htext : textBlocks lib text = [.text (stripToolMarkup lib text)] := if_neg hempty
    rw [htext, List.singleton_append, streamToolUse, List.foldl_append,
      streamRemaining_collect hsilent hempty, streamBufferedBlocks_collect lib _ (by simp)]
    exact ⟨_, 1, rfl, filterMap_singleton _ _⟩

theorem onFinish_collect {s : StreamState} (hsilent : Silent s) {text : Str}
    (htext : s.currentText = text) :
    ((onFinish lib request s).foldl collect (gathered s)).items =
        (itemOf .text (finalText lib request text s.streamedText)).toList ++
          items lib (toolBlocks lib request text) ∧
      ((onFinish lib request s).foldl collect (gathered s)).stopReason =
        some (contentBlocks lib request text).2 := by
  have hclose : (if s.textOpen then [Event.blockStop 0] else []).foldl collect (gathered s) =
      gathered s := by
    cases s.textOpen <;> rfl
  rw [onFinish, List.foldl_append, List.foldl_append, hclose, htext]
  by_cases hcalls : toolCalls lib request text = []
  · have htools : items lib (toolBlocks lib request text) = [] := by
      rw [toolBlocks, hcalls]
      rfl
    rw [contentBlocks, if_pos hcalls, finalText, if_pos hcalls, List.append_nil, htools,
      List.append_nil]
    exact ⟨blocksOf_items hsilent, rfl⟩
  · obtain ⟨shown, index, hcollect, hshown⟩ := streamToolUse_collect lib request hsilent hcalls
    have hreason : (contentBlocks lib request text).2 = .toolUse := by
      rw [contentBlocks, if_neg hcalls]
    rw [hreason, if_pos rfl, hcollect, ← hshown, ← placed_items lib _ index,
      ← List.filterMap_append]
    exact ⟨rfl, rfl⟩

theorem contentBlocks_items (text : Str) :
    items lib (contentBlocks lib request text).1 =
      (itemOf .text (stripToolMarkup lib text)).toList ++
        items lib (toolBlocks lib request text) := by
  rw [contentBlocks]
  by_cases hcalls : toolCalls lib request text = []
  · rw [if_pos hcalls, toolBlocks, hcalls]
    exact (filterMap_singleton _ _).trans (List.append_nil _).symm
  · rw [if_neg hcalls, textBlocks]
    by_cases hempty : stripToolMarkup lib text = []
    · rw [if_pos hempty, hempty]
      rfl
    · rw [if_neg hempty, items, List.filterMap_append, filterMap_singleton]
      rfl

theorem strip_sublist (text : Str) : (strip text).Sublist text :=
  (List.rdropWhile_prefix isSpace (lstrip text)).sublist.trans
    (List.dropWhile_suffix isSpace).sublist

theorem itemOf_text_eq_iff (text other : Str) :
    (itemOf .text text).toList = (itemOf .text other).toList ↔ strip text = strip other := by
  rw [itemOf, itemOf]
  by_cases htext : strip text = [] <;> by_cases hother : strip other = [] <;>
    simp [htext, hother, eq_comm]

/-- Text that is appended by length adds up exactly when what was shown goes on to it, or is it but
for white space at its ends. -/
theorem strip_append_drop_iff {shown text : Str} (htext : strip text = text) :
    strip (shown ++ text.drop shown.length) = text ↔ shown <+: text ∨ strip shown = text := by
  by_cases hlong : text.length ≤ shown.length
  · rw [List.drop_eq_nil_of_le hlong, List.append_nil]
    refine (or_iff_right_of_imp fun hpre ↦ ?_).symm
    rw [hpre.eq_of_length_le hlong, htext]
  · have hlength : (shown ++ text.drop shown.length).length = text.length := by
      rw [List.length_append, List.length_drop]
      omega
    constructor
    · intro hstrip
      have hall : text = shown ++ text.drop shown.length := by
        have hsublist := strip_sublist (shown ++ text.drop shown.length)
        rw [hstrip] at hsublist
        exact hsublist.eq_of_length hlength.symm
      exact .inl ⟨_, hall.symm⟩
    · rintro (hpre | hstrip)
      · rw [List.prefix_iff_eq_append.mp hpre, htext]
      · exact absurd (hstrip ▸ (strip_sublist shown).length_le) hlong

/-- The blocks and the stop reason of the stream are those of the message. -/
def Agrees (chunks : List Chunk) (text : Str) : Prop :=
  (collected (streamEvents lib request chunks)).items =
      items lib (contentBlocks lib request text).1 ∧
    (collected (streamEvents lib request chunks)).stopReason =
      some (contentBlocks lib request text).2

instance (chunks : List Chunk) (text : Str) : Decidable (Agrees lib request chunks text) :=
  inferInstanceAs (Decidable (_ ∧ _))

theorem readPieces_nil (s : StreamState) (pieces : List Str) :
    readPieces lib request s (pieces ++ [[]]) = readPieces lib request s pieces := by
  induction pieces generalizing s with
  | nil => rfl
  | cons piece pieces ih => rw [List.cons_append, readPieces, ih, readPieces]

/-- A text in pieces, and then a chunk that finishes it. -/
def cutInto (pieces : List Str) (finishReason : Str) : List Chunk :=
  pieces.map (fun piece ↦ ⟨piece, []⟩) ++ [⟨[], finishReason⟩]

theorem piecesRead_cutInto (pieces : List Str) (finishReason : Str) :
    piecesRead (cutInto pieces finishReason) = pieces ++ [[]] := by
  induction pieces with
  | nil => simp [cutInto, piecesRead]
  | cons piece pieces ih => simpa [cutInto, piecesRead] using ih

theorem collected_cutInto (pieces : List Str) {finishReason : Str} (hfinish : finishReason ≠ []) :
    collected (streamEvents lib request (cutInto pieces finishReason)) =
      (onFinish lib request (readPieces lib request (initial request) pieces).1).foldl collect
        (gathered (readPieces lib request (initial request) pieces).1) := by
  have hstart : ([Event.messageStart request.messageId request.model request.inputTokens] ++
      (if request.toolMode then [] else [Event.blockStart 0 .text])).foldl collect ⟨[], none⟩ =
        gathered (initial request) := by
    cases htool : request.toolMode <;> simp [gathered, blocksOf, initial, htool, collect]
  have hsilent : Silent (initial request) := fun _ ↦ rfl
  have hfinishes : finishes (cutInto pieces finishReason) = true := by
    simp [finishes, cutInto, hfinish]
  rw [collected, streamEvents, List.foldl_append, List.foldl_append, hstart, streamChunks_eq,
    piecesRead_cutInto, readPieces_nil, hfinishes, if_pos rfl, List.foldl_append,
    readPieces_collect lib request hsilent]
  rfl

theorem readPieces_silent {s : StreamState} (hsilent : Silent s) (pieces : List Str) :
    Silent (readPieces lib request s pieces).1 := by
  induction pieces generalizing s with
  | nil => exact hsilent
  | cons piece pieces ih => exact ih (onContent_collect lib request hsilent piece).2

end Collecting

end AllAiTools.ChatGpt2Api.Protocol.AnthropicMessages
