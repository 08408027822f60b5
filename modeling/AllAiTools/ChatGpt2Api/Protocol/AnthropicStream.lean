import AllAiTools.ChatGpt2Api.Protocol.AnthropicMessages

namespace AllAiTools.ChatGpt2Api.Protocol.AnthropicMessages

open Text Json ToolMarkup

section Grammar

/-- Where a reader of the stream stands: before the message, between two blocks, within one, after
the stop reason, after all. -/
inductive Phase
  | start
  | between (next : ℕ)
  | within (index : ℕ)
  | delivered
  | stopped
  deriving DecidableEq

def Phase.step : Phase → Event → Option Phase
  | .start, .messageStart _ _ _ => some (.between 0)
  | .between next, .blockStart index _ => if index = next then some (.within index) else none
  | .within index, .blockDelta at_ _ => if at_ = index then some (.within index) else none
  | .within index, .blockStop at_ => if at_ = index then some (.between (index + 1)) else none
  | .between _, .messageDelta _ _ => some .delivered
  | .delivered, .messageStop _ => some .stopped
  | _, _ => none

def WellFormed (events : List Event) : Prop := events.foldlM Phase.step .start = some .stopped

instance (events : List Event) : Decidable (WellFormed events) :=
  inferInstanceAs (Decidable (_ = _))

end Grammar

section Reader

/-- What a client has of a message: its blocks by their indices, and the stop reason. -/
structure Collected where
  blocks : List (ℕ × BlockHead × Str)
  stopReason : Option StopReason
  deriving DecidableEq

def Delta.piece : Delta → Str
  | .text piece => piece
  | .inputJson piece => piece

/-- A delta goes to the block of its index. -/
def appendPiece (index : ℕ) (piece : Str) (block : ℕ × BlockHead × Str) : ℕ × BlockHead × Str :=
  if block.1 = index then (block.1, block.2.1, block.2.2 ++ piece) else block

def collect (collected : Collected) : Event → Collected
  | .blockStart index head => { collected with blocks := collected.blocks ++ [(index, head, [])] }
  | .blockDelta index delta =>
    { collected with blocks := collected.blocks.map (appendPiece index delta.piece) }
  | .messageDelta stopReason _ => { collected with stopReason := some stopReason }
  | _ => collected

def collected (events : List Event) : Collected := events.foldl collect ⟨[], none⟩

/-- What two messages are compared by. -/
inductive Item
  | text (text : Str)
  | toolUse (name input : Str)
  deriving DecidableEq

/-- A text block without the white space at its ends, unless it is empty. -/
def itemOf : BlockHead → Str → Option Item
  | .text, text => if strip text = [] then none else some (.text (strip text))
  | .toolUse _ name, input => some (.toolUse name input)

def Collected.items (collected : Collected) : List Item :=
  collected.blocks.filterMap fun block ↦ itemOf block.2.1 block.2.2

def items (lib : Library) (blocks : List Block) : List Item :=
  blocks.filterMap fun block ↦ itemOf (headOf block) (deltaOf lib block).piece

end Reader

variable (lib : Library) (request : Request)

section Shown

/-- The text after each of the pieces. -/
def textsAfter : Str → List Str → List Str
  | _, [] => []
  | text, piece :: pieces => (text ++ piece) :: textsAfter (text ++ piece) pieces

/-- A text is shown as long as nothing of it is held back. Of the first one with a marker what
stands before it is shown, if it goes on from what was shown; of the later ones nothing. -/
def shownOf (shown : Str) : List Str → Str
  | [] => shown
  | text :: texts =>
    if streamableText lib text = text then shownOf text texts
    else if shown <+: streamableText lib text then streamableText lib text else shown

/-- What the stream shows of a text that comes in pieces, before it is finished. -/
def shownText (pieces : List Str) : Str :=
  if request.toolMode then shownOf lib [] (textsAfter [] pieces) else pieces.flatten

end Shown

section Loop

def readPieces (s : StreamState) : List Str → StreamState × List Event
  | [] => (s, [])
  | piece :: pieces =>
    let next := onContent lib request s piece
    let rest := readPieces next.1 pieces
    (rest.1, next.2 ++ rest.2)

/-- The texts of the chunks that are read. -/
def piecesRead : List Chunk → List Str
  | [] => []
  | chunk :: chunks =>
    chunk.content :: if chunk.finishReason = [] then piecesRead chunks else []

def finishes (chunks : List Chunk) : Bool := chunks.any fun chunk ↦ chunk.finishReason ≠ []

theorem streamChunks_eq (s : StreamState) (chunks : List Chunk) :
    streamChunks lib request s chunks =
      (readPieces lib request s (piecesRead chunks)).2 ++
        if finishes chunks then
          onFinish lib request (readPieces lib request s (piecesRead chunks)).1
        else [] := by
  induction chunks generalizing s with
  | nil => rfl
  | cons chunk chunks ih =>
    by_cases hfinish : chunk.finishReason = []
    · simp [streamChunks, piecesRead, readPieces, finishes, hfinish, ih]
    · simp [streamChunks, piecesRead, readPieces, finishes, hfinish]

@[simp] theorem onContent_nil (s : StreamState) : onContent lib request s [] = (s, []) := rfl

/-- Once a marker has been seen, a text is only kept. -/
theorem onContent_started {s : StreamState} (hstarted : s.toolStarted = true) (piece : Str) :
    onContent lib request s piece = ({ s with currentText := s.currentText ++ piece }, []) := by
  by_cases hpiece : piece = []
  · simp [onContent, hpiece]
  · simp [onContent, hpiece, hstarted]

theorem readPieces_started {s : StreamState} (hstarted : s.toolStarted = true)
    (pieces : List Str) :
    readPieces lib request s pieces =
      ({ s with currentText := s.currentText ++ pieces.flatten }, []) := by
  induction pieces generalizing s with
  | nil => simp [readPieces]
  | cons piece pieces ih =>
    rw [readPieces, onContent_started lib request hstarted,
      ih (s := { s with currentText := s.currentText ++ piece }) hstarted]
    simp

/-- What was sent adds up to the text that is visible, and the block is open if that is something. -/
structure Sends (s : StreamState) (visible : Str) (sent : StreamState) : Prop where
  current : sent.currentText = s.currentText
  streamed : sent.streamedText = visible
  textOpen : sent.textOpen = (s.textOpen || visible ≠ [])

theorem streamText_sends {s : StreamState} {visible : Str} (hpre : s.streamedText <+: visible)
    (hopen : s.streamedText ≠ [] → s.textOpen = true) :
    Sends s visible (streamText s visible).1 := by
  by_cases hrest : visible.drop s.streamedText.length = []
  · have hvisible : s.streamedText = visible :=
      hpre.eq_of_length_le (List.drop_eq_nil_iff.mp hrest)
    rw [streamText, if_neg (fun h ↦ h.2 hrest)]
    refine ⟨rfl, hvisible, ?_⟩
    by_cases hne : visible = []
    · simp [hne]
    · simp [hne, hopen (hvisible ▸ hne)]
  · have hne : visible ≠ [] := fun h ↦ hrest (by simp [h])
    rw [streamText, if_pos ⟨hpre, hrest⟩]
    exact ⟨rfl, rfl, by simp [hne]⟩

theorem streamText_keeps {s : StreamState} {visible : Str}
    (hpre : ¬ s.streamedText <+: visible) : streamText s visible = (s, []) := by
  rw [streamText, if_neg (fun h ↦ hpre h.1)]

theorem onContent_of_ne {s : StreamState} {piece : Str} (hpiece : piece ≠ [])
    (hstarted : s.toolStarted = false) :
    onContent lib request s piece =
      let kept := { s with currentText := s.currentText ++ piece }
      let visible := visibleText lib request (s.currentText ++ piece)
      ({ (streamText kept visible).1 with
          toolStarted := request.toolMode && visible ≠ (streamText kept visible).1.currentText },
        (streamText kept visible).2) := by
  have hcurrent : ∀ (kept : StreamState) (visible : Str),
      (streamText kept visible).1.currentText = kept.currentText := by
    intro kept visible
    rw [streamText]
    split <;> rfl
  simp [onContent, hpiece, hstarted, hcurrent]

/-- The loop after the pieces of a text. -/
structure Reads (s : StreamState) (text shown : Str) (textOpen : Bool) : Prop where
  current : s.currentText = text
  streamed : s.streamedText = shown
  textOpen : s.textOpen = textOpen

theorem readPieces_plain (htool : request.toolMode = false) {s : StreamState}
    (hstarted : s.toolStarted = false) {text : Str} (hst : Reads s text text true)
    (pieces : List Str) :
    Reads (readPieces lib request s pieces).1 (text ++ pieces.flatten) (text ++ pieces.flatten)
      true := by
  induction pieces generalizing s text with
  | nil => simpa [readPieces] using hst
  | cons piece pieces ih =>
    have hnext : Reads (onContent lib request s piece).1 (text ++ piece) (text ++ piece) true ∧
        (onContent lib request s piece).1.toolStarted = false := by
      by_cases hpiece : piece = []
      · simpa [hpiece, hstarted] using hst
      · have hpre : { s with currentText := s.currentText ++ piece }.streamedText <+:
            text ++ piece := by simp [hst.streamed]
        have hsends := streamText_sends hpre fun _ ↦ hst.textOpen
        rw [onContent_of_ne lib request hpiece hstarted]
        simp only [visibleText, htool, hst.current]
        rw [hst.current] at hsends
        refine ⟨⟨hsends.current, hsends.streamed, ?_⟩, rfl⟩
        exact hsends.textOpen.trans (by simp [hst.textOpen])
    have hrest := ih hnext.2 hnext.1
    rw [List.flatten_cons, ← List.append_assoc]
    exact hrest

theorem onContent_tool (htool : request.toolMode = true) {s : StreamState}
    (hstarted : s.toolStarted = false) {text piece : Str} (hpiece : piece ≠ [])
    (hst : Reads s text text (text ≠ [])) :
    Reads (onContent lib request s piece).1 (text ++ piece) (shownOf lib text [text ++ piece])
        (shownOf lib text [text ++ piece] ≠ []) ∧
      (onContent lib request s piece).1.toolStarted =
        decide (streamableText lib (text ++ piece) ≠ text ++ piece) := by
  have hkept : Reads { s with currentText := s.currentText ++ piece } (text ++ piece) text
      (text ≠ []) := ⟨by rw [← hst.current], hst.streamed, hst.textOpen⟩
  rw [onContent_of_ne lib request hpiece hstarted]
  simp only [visibleText, htool, if_true, Bool.true_and, hst.current]
  rw [hst.current] at hkept
  generalize hvisible : streamableText lib (text ++ piece) = visible
  generalize { s with currentText := text ++ piece } = kept at hkept
  rw [shownOf, shownOf, hvisible]
  by_cases hpre : text <+: visible
  · have hstreamed : kept.streamedText <+: visible := by rwa [hkept.streamed]
    have hsends := streamText_sends hstreamed (by simp [hkept.streamed, hkept.textOpen])
    have hshown : (if visible = text ++ piece then text ++ piece
        else if text <+: visible then visible else text) = visible := by
      rw [if_pos hpre]
      exact ite_eq_right_iff.mpr Eq.symm
    rw [hshown, hsends.current, hkept.current]
    refine ⟨⟨rfl, hsends.streamed, ?_⟩, rfl⟩
    refine hsends.textOpen.trans ?_
    by_cases hne : visible = []
    · have hnil : text = [] := by simpa [hne] using hpre
      simp [hkept.textOpen, hne, hnil]
    · simp [hne]
  · have hmarked : visible ≠ text ++ piece := fun h ↦ hpre (h ▸ List.prefix_append text piece)
    rw [streamText_keeps (by rwa [hkept.streamed]), if_neg hmarked, if_neg hpre, hkept.current]
    exact ⟨⟨rfl, hkept.streamed, hkept.textOpen⟩, rfl⟩

theorem readPieces_tool (htool : request.toolMode = true) {s : StreamState}
    (hstarted : s.toolStarted = false) {text : Str} (hplain : streamableText lib text = text)
    (hst : Reads s text text (text ≠ [])) (pieces : List Str) :
    Reads (readPieces lib request s pieces).1 (text ++ pieces.flatten)
      (shownOf lib text (textsAfter text pieces))
      (shownOf lib text (textsAfter text pieces) ≠ []) := by
  induction pieces generalizing s text with
  | nil => simpa [readPieces, textsAfter, shownOf] using hst
  | cons piece pieces ih =>
    by_cases hpiece : piece = []
    · subst hpiece
      have hrest := ih hstarted hplain hst
      simpa [readPieces, textsAfter, shownOf, hplain] using hrest
    · obtain ⟨hnext, hmark⟩ := onContent_tool lib request htool hstarted hpiece hst
      rw [List.flatten_cons, ← List.append_assoc, textsAfter, readPieces]
      rw [shownOf] at hnext ⊢
      by_cases hall : streamableText lib (text ++ piece) = text ++ piece
      · rw [if_pos hall, shownOf] at hnext
        rw [if_pos hall]
        exact ih (by simp [hmark, hall]) hall hnext
      · rw [if_neg hall] at hnext ⊢
        rw [readPieces_started lib request (by simp [hmark, hall])]
        exact ⟨congrArg (· ++ pieces.flatten) hnext.current, hnext.streamed, hnext.textOpen⟩

theorem readPieces_reads (pieces : List Str) :
    Reads (readPieces lib request (initial request) pieces).1 pieces.flatten
      (shownText lib request pieces) (!request.toolMode || shownText lib request pieces ≠ []) := by
  cases htool : request.toolMode with
  | false =>
    have hinitial : Reads (initial request) [] [] true := ⟨rfl, rfl, by simp [initial, htool]⟩
    have hreads := readPieces_plain lib request htool rfl hinitial pieces
    simpa [shownText, htool] using hreads
  | true =>
    have hinitial : Reads (initial request) [] [] (([] : Str) ≠ []) :=
      ⟨rfl, rfl, by simp [initial, htool]⟩
    have hreads := readPieces_tool lib request htool rfl rfl hinitial pieces
    simpa [shownText, htool] using hreads

end Loop

section WellFormed

def phaseOf (s : StreamState) : Phase := if s.textOpen then .within 0 else .between 0

theorem streamText_phase (s : StreamState) (visible : Str) :
    (streamText s visible).2.foldlM Phase.step (phaseOf s) =
      some (phaseOf (streamText s visible).1) := by
  rw [streamText]
  split
  · cases hopen : s.textOpen <;> simp [phaseOf, hopen, Phase.step]
  · rfl

theorem onContent_phase (s : StreamState) (piece : Str) :
    (onContent lib request s piece).2.foldlM Phase.step (phaseOf s) =
      some (phaseOf (onContent lib request s piece).1) := by
  rw [onContent]
  split
  · rfl
  · dsimp only
    split
    · rfl
    · exact streamText_phase { s with currentText := s.currentText ++ piece } _

theorem readPieces_phase (s : StreamState) (pieces : List Str) :
    (readPieces lib request s pieces).2.foldlM Phase.step (phaseOf s) =
      some (phaseOf (readPieces lib request s pieces).1) := by
  induction pieces generalizing s with
  | nil => rfl
  | cons piece pieces ih =>
    rw [readPieces, List.foldlM_append, onContent_phase]
    exact ih (onContent lib request s piece).1

theorem streamBufferedBlocks_phase (blocks : List Block) (index : ℕ) :
    (streamBufferedBlocks lib blocks index).foldlM Phase.step (.between index) =
      some (.between (index + blocks.length)) := by
  induction blocks generalizing index with
  | nil => rfl
  | cons block blocks ih =>
    rw [streamBufferedBlocks, List.foldlM_append, List.length_cons, ← Nat.add_assoc,
      Nat.add_right_comm]
    have hblock : [.blockStart index (headOf block), .blockDelta index (deltaOf lib block),
        .blockStop index].foldlM Phase.step (.between index) = some (.between (index + 1)) := by
      simp [Phase.step]
    rw [hblock]
    exact ih (index + 1)

/-- The message has text that the stream has not shown, and the block of text is closed. -/
def late (text shown : Str) : Prop :=
  toolCalls lib request text ≠ [] ∧ shown ≠ [] ∧
    shown.length < (stripToolMarkup lib text).length

instance (text shown : Str) : Decidable (late lib request text shown) :=
  inferInstanceAs (Decidable (_ ∧ _))

theorem streamToolUse_tools (s : StreamState) (text : Str) :
    streamToolUse lib s (toolBlocks lib request text) =
      streamBufferedBlocks lib (toolBlocks lib request text) (if s.textOpen then 1 else 0) := by
  rw [toolBlocks]
  cases toolCalls lib request text with
  | nil => rfl
  | cons call calls => rw [List.mapIdx_cons]; rfl

/-- Where the stream stands when the block of text is closed. -/
def closedPhase (s : StreamState) : Phase := .between (if s.textOpen then 1 else 0)

theorem streamRemaining_phase {s : StreamState} {text shown : Str}
    (hshown : s.streamedText = shown) (hopen : s.textOpen = decide (shown ≠ []))
    (htext : text ≠ []) :
    (streamRemaining s text).foldlM Phase.step (closedPhase s) =
      if shown ≠ [] ∧ shown.length < text.length then none else some (.between 1) := by
  rw [streamRemaining, closedPhase, hshown, hopen]
  by_cases hne : shown = []
  · simp [hne, htext, Phase.step]
  · by_cases hlong : shown.length < text.length
    · simp [hne, hlong, Nat.not_le_of_lt hlong, Phase.step]
    · simp [hne, hlong, Nat.le_of_not_lt hlong]

theorem streamToolUse_phase {s : StreamState} {text shown : Str}
    (hst : Reads s text shown (shown ≠ [])) (hcalls : toolCalls lib request text ≠ []) :
    ∃ next, (streamToolUse lib s (contentBlocks lib request text).1).foldlM Phase.step
        (closedPhase s) =
      if late lib request text shown then none else some (.between next) := by
  rw [contentBlocks, if_neg hcalls]
  by_cases hempty : stripToolMarkup lib text = []
  · have hlate : ¬ late lib request text shown := by
      intro h
      have hlength := h.2.2
      rw [hempty] at hlength
      exact Nat.not_lt_zero _ hlength
    simp only [textBlocks, if_pos hempty, List.nil_append, streamToolUse_tools, if_neg hlate]
    exact ⟨_, streamBufferedBlocks_phase lib _ _⟩
  · have hlate : late lib request text shown ↔
        shown ≠ [] ∧ shown.length < (stripToolMarkup lib text).length := and_iff_right hcalls
    rw [textBlocks, if_neg hempty, List.singleton_append, streamToolUse, List.foldlM_append,
      streamRemaining_phase hst.streamed hst.textOpen hempty]
    simp only [hlate]
    split
    · exact ⟨0, rfl⟩
    · exact ⟨_, streamBufferedBlocks_phase lib _ _⟩

theorem onFinish_phase {s : StreamState} {text shown : Str}
    (hst : Reads s text shown (!request.toolMode || shown ≠ [])) :
    (onFinish lib request s).foldlM Phase.step (phaseOf s) =
      if late lib request text shown then none else some .delivered := by
  have hclose : (if s.textOpen then [Event.blockStop 0] else []).foldlM Phase.step (phaseOf s) =
      some (closedPhase s) := by
    cases hopen : s.textOpen <;> simp [phaseOf, closedPhase, hopen, Phase.step]
  rw [onFinish, List.foldlM_append, List.foldlM_append, hclose, hst.current]
  by_cases hcalls : toolCalls lib request text = []
  · have hlate : ¬ late lib request text shown := fun h ↦ h.1 hcalls
    rw [contentBlocks, if_pos hcalls, if_neg hlate]
    rfl
  · have htool : request.toolMode = true := by
      by_contra h
      exact hcalls (if_neg h)
    obtain ⟨next, hnext⟩ := streamToolUse_phase lib request
      (s := s) ⟨hst.current, hst.streamed, by simpa [htool] using hst.textOpen⟩ hcalls
    have hreason : (contentBlocks lib request text).2 = .toolUse := by
      rw [contentBlocks, if_neg hcalls]
    rw [hreason, if_pos rfl, Option.bind_eq_bind, Option.bind_some, hnext]
    split <;> rfl

/-- The stream is well formed exactly when it is finished and no text is left for a block that is
closed. -/
theorem stream_well_formed_iff (chunks : List Chunk) :
    WellFormed (streamEvents lib request chunks) ↔
      finishes chunks = true ∧
        ¬ late lib request (piecesRead chunks).flatten
          (shownText lib request (piecesRead chunks)) := by
  have hstart : ([Event.messageStart request.messageId request.model request.inputTokens] ++
      (if request.toolMode then [] else [Event.blockStart 0 .text])).foldlM Phase.step .start =
        some (phaseOf (initial request)) := by
    cases htool : request.toolMode <;> simp [phaseOf, initial, htool, Phase.step]
  have hreads := readPieces_reads lib request (piecesRead chunks)
  rw [WellFormed, streamEvents, List.foldlM_append, List.foldlM_append, hstart,
    Option.bind_eq_bind, Option.bind_some, streamChunks_eq, List.foldlM_append,
    readPieces_phase, Option.bind_eq_bind, Option.bind_some]
  cases hfinish : finishes chunks with
  | false =>
    refine iff_of_false ?_ (fun h ↦ Bool.false_ne_true h.1)
    generalize (readPieces lib request (initial request) (piecesRead chunks)).1 = s
    cases hopen : s.textOpen <;> simp [phaseOf, hopen, Phase.step]
  | true =>
    rw [if_pos rfl, onFinish_phase lib request hreads]
    by_cases hlate : late lib request (piecesRead chunks).flatten
        (shownText lib request (piecesRead chunks))
    · simp [hlate]
    · simp [hlate, Phase.step]

/-- The library on ASCII texts without entities whose parameters are empty objects. -/
def plainLibrary : Library where
  isAlnum := fun _ ↦ false
  lowerChar := id
  unescape := id
  loads := fun text ↦ if text = "\x7b\x7d".toList then some (.obj []) else none
  dumps := fun _ ↦ "\x7b\x7d".toList

def toolRequest : Request where
  tools := .arr [.obj [("name".toList, .str "f".toList)]]
  model := "auto".toList
  messageId := "msg".toList
  toolIds := fun _ ↦ "toolu".toList
  inputTokens := 1
  outputTokens := List.length
  created := 0

/-- Text before and after a call: the second part comes when the block of text is closed. -/
theorem text_around_call_not_well_formed :
    ¬ WellFormed (streamEvents plainLibrary toolRequest
      [⟨"a".toList, []⟩, ⟨"<tool_call><name>f</name></tool_call>".toList, []⟩,
        ⟨" b".toList, []⟩, ⟨[], "stop".toList⟩]) := by
  decide +kernel

end WellFormed

end AllAiTools.ChatGpt2Api.Protocol.AnthropicMessages
