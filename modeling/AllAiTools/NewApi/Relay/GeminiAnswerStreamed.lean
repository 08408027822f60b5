import AllAiTools.Foundation.Breaks
import AllAiTools.NewApi.Relay.GeminiAnswer

namespace AllAiTools.NewApi.Relay.GeminiAnswerStreamed

open Dto.OpenAIResponse (Text Function)
open Foundation GeminiAnswer

section Kinds

/-- A text with the line breaks behind it. -/
def broken (piece : Text × ℕ) : Text := piece.1 ++ List.replicate piece.2 '\n'

/-- What a part is: media, a call, a thought, a block of code or output, a text, or an empty line. -/
inductive Kind (A : Type)
  | image (link : Text)
  | media (inlineData : GeminiInlineData)
  | call (functionCall : FunctionCall A)
  | thought (text : Text)
  | block (text : Text)
  | plain (text : Text)
  | blank

variable {A : Type}

def kindOf (part : GeminiPart A) : Kind A :=
  match part.inlineData with
  | some inlineData =>
    if isImage inlineData then .image (imageLink inlineData) else .media inlineData
  | none =>
    match part.functionCall with
    | some functionCall => .call functionCall
    | none =>
      if part.thought then .thought part.text
      else
        match part.executableCode with
        | some executableCode => .block (codeBlock executableCode)
        | none =>
          match part.codeExecutionResult with
          | some codeExecutionResult => .block (outputBlock codeExecutionResult)
          | none => if part.text ≠ ['\n'] then .plain part.text else .blank

namespace Kind

/-- The text of a textual part that is no thought. -/
def text : Kind A → Option Text
  | image text | block text | plain text => some text
  | media inlineData => some (mediaLink inlineData)
  | blank => some ['\n']
  | call _ | thought _ => none

def thought? : Kind A → Option Text
  | thought text => some text
  | _ => none

def call? : Kind A → Option (FunctionCall A)
  | call functionCall => some functionCall
  | _ => none

/-- What a whole answer has of it in its content. -/
def shown : Kind A → Option Text
  | image text | block text | plain text => some text
  | media inlineData => some (mediaLink inlineData)
  | _ => none

/-- What a streamed answer has of it, with the line breaks behind. -/
def piece : Kind A → Option (Text × ℕ)
  | image text | plain text => some (text, 0)
  | block text => some (text, 1)
  | _ => none

/-- What is written of it in a stream, whether to the content or to the reasoning. -/
def written : Kind A → Option Text
  | thought text => some text
  | kind => kind.piece.map broken

def isMedia : Kind A → Bool
  | media _ => true
  | _ => false

end Kind

end Kinds

section Joined

theorem intercalate_concat (sep : Text) (texts : List Text) (text : Text) :
    sep.intercalate (texts ++ [text]) =
      sep.intercalate texts ++ (if texts = [] then [] else sep) ++ text := by
  induction texts with
  | nil => simp
  | cons first texts ih =>
    cases texts with
    | nil => simp
    | cons second texts =>
      rw [List.cons_append, List.cons_append, List.intercalate_cons_cons, ← List.cons_append, ih,
        List.intercalate_cons_cons]
      simp

/-- The builder after texts were written to it. -/
def built (texts : List Text) : Builder := ⟨['\n'].intercalate texts, texts.length⟩

theorem built_write (texts : List Text) (text : Text) :
    (built texts).write text = built (texts ++ [text]) := by
  rw [Builder.write, built, built, intercalate_concat, List.length_append, List.length_singleton]
  cases texts with
  | nil => rfl
  | cons first texts => rfl

theorem built_elim (texts : List Text) (text : Option Text) :
    text.elim (built texts) (built texts).write = built (texts ++ text.toList) := by
  cases text with
  | none => rw [Option.toList_none, List.append_nil]; rfl
  | some text => exact built_write texts text

end Joined

section Reading

variable {A : Type} (marshal : A → Option Text)

/-- The calls that a part leads to. -/
def Kind.calls (kind : Kind A) : List Function :=
  (kind.call?.bind (getResponseToolCall marshal)).toList

theorem or_getLast? {α β : Type} (f : α → Option β) (x : α) (last : List β) :
    (f x).or last.getLast? = (last ++ [x].filterMap f).getLast? := by
  rw [List.getLast?_append, List.filterMap_cons, List.filterMap_nil]
  cases f x with
  | none => rfl
  | some x => rfl

theorem ite_ite_or {α : Type} (b c : Bool) (x y : α) :
    (if c then x else if b then x else y) = if b || c then x else y := by
  cases b <;> cases c <;> rfl

theorem onPart_eq (message : Message) (part : GeminiPart A) : onPart marshal message part =
    { builder := (kindOf part).shown.elim message.builder message.builder.write
      reasoningContent := (kindOf part).thought?.or message.reasoningContent
      toolCalls := message.toolCalls ++ (kindOf part).calls marshal
      finishReason := if (kindOf part).call?.isSome then toolCallsReason else message.finishReason } := by
  rw [onPart, kindOf]
  cases part.inlineData with
  | some inlineData =>
    dsimp only
    split
    · simp [Message.write, Kind.shown, Kind.thought?, Kind.calls, Kind.call?]
    · simp [Message.write, Kind.shown, Kind.thought?, Kind.calls, Kind.call?]
  | none =>
    cases part.functionCall with
    | some functionCall => simp [Kind.shown, Kind.thought?, Kind.calls, Kind.call?]
    | none =>
      dsimp only
      split
      · simp [Kind.shown, Kind.thought?, Kind.calls, Kind.call?]
      · cases part.executableCode with
        | some executableCode => simp [Message.write, Kind.shown, Kind.thought?, Kind.calls, Kind.call?]
        | none =>
          cases part.codeExecutionResult with
          | some codeExecutionResult => simp [Message.write, Kind.shown, Kind.thought?, Kind.calls,
            Kind.call?]
          | none =>
            dsimp only
            split
            · simp [Message.write, Kind.shown, Kind.thought?, Kind.calls, Kind.call?]
            · simp [Kind.shown, Kind.thought?, Kind.calls, Kind.call?]

/-- A candidate as a whole, by the kinds of its parts. -/
theorem foldl_onPart (parts : List (GeminiPart A)) : parts.foldl (onPart marshal) {} =
    { builder := built ((parts.map kindOf).filterMap Kind.shown)
      reasoningContent := ((parts.map kindOf).filterMap Kind.thought?).getLast?
      toolCalls := (parts.map kindOf).flatMap (Kind.calls marshal)
      finishReason :=
        if (parts.map kindOf).any fun kind ↦ kind.call?.isSome then toolCallsReason else stop } := by
  induction parts using List.reverseRecOn with
  | nil => rfl
  | append_singleton parts part ih =>
    rw [List.foldl_append, ih, List.foldl_cons, List.foldl_nil, onPart_eq, built_elim]
    simp only [List.map_append, List.map_cons, List.map_nil, List.filterMap_append, List.flatMap_append,
      List.flatMap_singleton, List.any_append, List.any_cons, List.any_nil, Bool.or_false]
    congr 1
    · exact or_getLast? ..
    · exact ite_ite_or ..

theorem onStreamPart_eq (message : StreamMessage) (part : GeminiPart A) : onStreamPart marshal message part =
    { builder := (kindOf part).written.elim message.builder message.builder.write
      toolCalls := message.toolCalls ++ (kindOf part).calls marshal
      isTools := message.isTools || (kindOf part).call?.isSome
      isThought := message.isThought || (kindOf part).thought?.isSome } := by
  rw [onStreamPart, kindOf]
  cases part.inlineData with
  | some inlineData =>
    dsimp only
    split
    · simp [StreamMessage.write, Kind.written, Kind.piece, broken, Kind.thought?, Kind.calls, Kind.call?]
    · simp [Kind.written, Kind.piece, Kind.thought?, Kind.calls, Kind.call?]
  | none =>
    cases part.functionCall with
    | some functionCall => simp [Kind.written, Kind.piece, Kind.thought?, Kind.calls, Kind.call?]
    | none =>
      dsimp only
      split
      · simp [StreamMessage.write, Kind.written, Kind.thought?, Kind.calls, Kind.call?]
      · cases part.executableCode with
        | some executableCode =>
          simp [StreamMessage.write, Kind.written, Kind.piece, broken, Kind.thought?, Kind.calls, Kind.call?]
        | none =>
          cases part.codeExecutionResult with
          | some codeExecutionResult =>
            simp [StreamMessage.write, Kind.written, Kind.piece, broken, Kind.thought?, Kind.calls,
              Kind.call?]
          | none =>
            dsimp only
            split
            · simp [StreamMessage.write, Kind.written, Kind.piece, broken, Kind.thought?, Kind.calls,
                Kind.call?]
            · simp [Kind.written, Kind.piece, Kind.thought?, Kind.calls, Kind.call?]

/-- A candidate of a chunk, by the kinds of its parts. -/
theorem foldl_onStreamPart (parts : List (GeminiPart A)) : parts.foldl (onStreamPart marshal) {} =
    { builder := built ((parts.map kindOf).filterMap Kind.written)
      toolCalls := (parts.map kindOf).flatMap (Kind.calls marshal)
      isTools := (parts.map kindOf).any fun kind ↦ kind.call?.isSome
      isThought := (parts.map kindOf).any fun kind ↦ kind.thought?.isSome } := by
  induction parts using List.reverseRecOn with
  | nil => rfl
  | append_singleton parts part ih =>
    rw [List.foldl_append, ih, List.foldl_cons, List.foldl_nil, onStreamPart_eq, built_elim]
    simp only [List.map_append, List.map_cons, List.map_nil, List.filterMap_append, List.flatMap_append,
      List.flatMap_singleton, List.any_append, List.any_cons, List.any_nil, Bool.or_false]
    congr 1

end Reading

section Thoughts

variable {A : Type}

def thinking (kinds : List (Kind A)) : Bool := kinds.any fun kind ↦ kind.thought?.isSome

/-- The text of a chunk's parts, which goes to the reasoning or to the content. -/
def writtenOf (kinds : List (Kind A)) : Text := ['\n'].intercalate (kinds.filterMap Kind.written)

def reasoningOf (kinds : List (Kind A)) : Text := if thinking kinds then writtenOf kinds else []

def contentOf (kinds : List (Kind A)) : Text := if thinking kinds then [] else writtenOf kinds

/-- A thought has its chunk for itself, but for what is not written at all. -/
def Alone (kinds : List (Kind A)) : Prop := thinking kinds → (kinds.filterMap Kind.written).length = 1

/-- Nothing is thought before the last thought. -/
def Silent (kinds : List (Kind A)) : Prop := ∀ text ∈ (kinds.filterMap Kind.thought?).dropLast, text = []

theorem thinking_cons (kind : Kind A) (kinds : List (Kind A)) :
    thinking (kind :: kinds) = (kind.thought?.isSome || thinking kinds) := rfl

theorem thoughts_pos {kinds : List (Kind A)} :
    thinking kinds = true ↔ 0 < (kinds.filterMap Kind.thought?).length := by
  induction kinds with
  | nil => simp [thinking]
  | cons kind kinds ih =>
    rw [thinking_cons, Bool.or_eq_true, ih, List.filterMap_cons]
    cases kind.thought? with
    | none => simp
    | some text => simp

theorem thoughts_sublist (kinds : List (Kind A)) :
    (kinds.filterMap Kind.thought?).Sublist (kinds.filterMap Kind.written) := by
  induction kinds with
  | nil => exact List.Sublist.refl _
  | cons kind kinds ih =>
    rw [List.filterMap_cons, List.filterMap_cons]
    cases kind with
    | thought text => exact ih.cons_cons text
    | call functionCall => exact ih
    | media inlineData => exact ih
    | blank => exact ih
    | image link => exact ih.cons _
    | block text => exact ih.cons _
    | plain text => exact ih.cons _

theorem length_written (kinds : List (Kind A)) : (kinds.filterMap Kind.written).length =
    (kinds.filterMap Kind.thought?).length + (kinds.filterMap Kind.piece).length := by
  induction kinds with
  | nil => rfl
  | cons kind kinds ih =>
    rw [List.filterMap_cons, List.filterMap_cons, List.filterMap_cons]
    cases kind <;> simp only [Kind.written, Kind.thought?, Kind.piece, Option.map_some, Option.map_none,
      List.length_cons, ih] <;> omega

theorem length_intercalate_mark (texts : List Text) :
    (['\n'].intercalate texts).length = texts.flatten.length + (texts.length - 1) := by
  induction texts with
  | nil => rfl
  | cons first texts ih =>
    cases texts with
    | nil => simp
    | cons second texts =>
      rw [List.intercalate_cons_cons, List.flatten_cons]
      simp only [List.length_append, List.length_cons, List.length_nil] at ih ⊢
      omega

theorem writtenOf_eq_of_alone {kinds : List (Kind A)} (halone : Alone kinds)
    (hthinking : thinking kinds = true) :
    (kinds.filterMap Kind.thought?).flatten = writtenOf kinds := by
  have hone := halone hthinking
  have hpos := thoughts_pos.mp hthinking
  obtain ⟨text, htext⟩ := List.length_eq_one_iff.mp hone
  have hsub := thoughts_sublist kinds
  rw [htext] at hsub
  have hlen := hsub.length_le
  rw [List.length_singleton] at hlen
  have heq := hsub.eq_of_length (by rw [List.length_singleton]; omega)
  rw [writtenOf, htext, heq, List.flatten_singleton, List.intercalate_singleton]

theorem thoughts_le (kinds : List (Kind A)) :
    (kinds.filterMap Kind.thought?).flatten.length ≤ (reasoningOf kinds).length := by
  rw [reasoningOf]
  split
  · have hsub := (thoughts_sublist kinds).flatten.length_le
    have hlen := length_intercalate_mark (kinds.filterMap Kind.written)
    rw [writtenOf]
    omega
  · next hthinking =>
    have hnone := mt thoughts_pos.mpr hthinking
    have hnil := List.eq_nil_of_length_eq_zero (Nat.eq_zero_of_not_pos hnone)
    rw [hnil]
    exact Nat.le_refl 0

/-- The reasoning of a chunk is its thoughts exactly when they are alone. -/
theorem thoughts_eq_iff (kinds : List (Kind A)) :
    (kinds.filterMap Kind.thought?).flatten = reasoningOf kinds ↔ Alone kinds := by
  constructor
  · intro h hthinking
    have hpos := thoughts_pos.mp hthinking
    have hsub := thoughts_sublist kinds
    have hle := hsub.flatten.length_le
    have hcount := hsub.length_le
    have hlen := length_intercalate_mark (kinds.filterMap Kind.written)
    rw [reasoningOf, if_pos hthinking, writtenOf] at h
    rw [h] at hle
    omega
  · intro halone
    rw [reasoningOf]
    split
    · next hthinking => exact writtenOf_eq_of_alone halone hthinking
    · next hthinking =>
      have hnone := mt thoughts_pos.mpr hthinking
      have hnil := List.eq_nil_of_length_eq_zero (Nat.eq_zero_of_not_pos hnone)
      rw [hnil]
      rfl

theorem flatten_dropLast (texts : List Text) :
    texts.flatten = texts.dropLast.flatten ++ texts.getLast?.getD [] := by
  induction texts using List.reverseRecOn with
  | nil => rfl
  | append_singleton texts text _ =>
    rw [List.flatten_append, List.dropLast_concat, List.getLast?_append, List.flatten_singleton]
    rfl

theorem silent_iff (kinds : List (Kind A)) :
    Silent kinds ↔ (kinds.filterMap Kind.thought?).dropLast.flatten = [] := List.flatten_eq_nil_iff.symm

theorem flatMap_thoughts (chunks : List (List (Kind A))) :
    (chunks.flatMap fun kinds ↦ (kinds.filterMap Kind.thought?).flatten) =
      (chunks.flatten.filterMap Kind.thought?).flatten := by
  induction chunks with
  | nil => rfl
  | cons kinds chunks ih =>
    rw [List.flatMap_cons, ih, List.flatten_cons, List.filterMap_append, List.flatten_append]

/-- The reasoning of all chunks is the last thought exactly when thoughts are alone and only the last
one says anything. -/
theorem reasoning_iff (chunks : List (List (Kind A))) :
    chunks.flatMap reasoningOf = (chunks.flatten.filterMap Kind.thought?).getLast?.getD [] ↔
      (∀ kinds ∈ chunks, Alone kinds) ∧ Silent chunks.flatten := by
  have hle : ∀ kinds ∈ chunks,
      (kinds.filterMap Kind.thought?).flatten.length ≤ (reasoningOf kinds).length :=
    fun kinds _ ↦ thoughts_le kinds
  have hsplit := flatten_dropLast (chunks.flatten.filterMap Kind.thought?)
  rw [← flatMap_thoughts] at hsplit
  have heach := Pieces.flatMap_eq_iff hle
  simp only [thoughts_eq_iff] at heach
  rw [← heach, silent_iff]
  constructor
  · intro h
    have hshort := Pieces.length_flatMap_le hle
    have hlen := congrArg List.length hsplit
    rw [List.length_append, ← h] at hlen
    have hnil := List.eq_nil_of_length_eq_zero (l := (chunks.flatten.filterMap Kind.thought?).dropLast.flatten)
      (by omega)
    rw [hnil, List.nil_append, ← h] at hsplit
    exact ⟨hsplit, hnil⟩
  · intro h
    rw [h.2, List.nil_append, h.1] at hsplit
    exact hsplit

end Thoughts

section Contents

variable {A : Type}

/-- The letters of a text, without its line breaks. -/
def lettersOf (text : Text) : Text := text.filter fun c ↦ c ≠ '\n'

def unmixed (kinds : List (Kind A)) : Bool := kinds.all fun kind ↦ !kind.isMedia

theorem lettersOf_append (text rest : Text) : lettersOf (text ++ rest) = lettersOf text ++ lettersOf rest :=
  List.filter_append ..

theorem lettersOf_intercalate (texts : List Text) :
    lettersOf (['\n'].intercalate texts) = texts.flatMap lettersOf := by
  induction texts with
  | nil => rfl
  | cons first texts ih =>
    cases texts with
    | nil => simp
    | cons second texts =>
      rw [List.intercalate_cons_cons, lettersOf_append, lettersOf_append, ih, List.flatMap_cons]
      exact congrArg (· ++ _) (List.append_nil _)

theorem lettersOf_broken (piece : Text × ℕ) : lettersOf (broken piece) = lettersOf piece.1 := by
  have hmarks : lettersOf (List.replicate piece.2 '\n') = [] := by
    rw [lettersOf, List.filter_replicate]
    rfl
  rw [broken, lettersOf_append, hmarks, List.append_nil]

theorem lettersOf_chunks (chunks : List (List (Text × ℕ))) :
    lettersOf (chunks.flatMap fun pieces ↦ ['\n'].intercalate (pieces.map broken)) =
      chunks.flatten.flatMap fun piece ↦ lettersOf piece.1 := by
  induction chunks with
  | nil => rfl
  | cons pieces chunks ih =>
    rw [List.flatMap_cons, lettersOf_append, ih, lettersOf_intercalate, List.flatMap_map, List.flatten_cons,
      List.flatMap_append]
    simp only [lettersOf_broken]

theorem mediaLink_pos (inlineData : GeminiInlineData) : 0 < (lettersOf (mediaLink inlineData)).length := by
  apply List.length_pos_of_mem (a := '[')
  rw [lettersOf, List.mem_filter]
  exact ⟨List.mem_cons_self, rfl⟩

/-- A link to media that are no image is missing in a stream. -/
theorem letters_lt (kinds : List (Kind A)) :
    ((kinds.filterMap Kind.piece).flatMap fun piece ↦ lettersOf piece.1).length + kinds.countP Kind.isMedia ≤
      ((kinds.filterMap Kind.shown).flatMap lettersOf).length := by
  induction kinds with
  | nil => exact Nat.le_refl 0
  | cons kind kinds ih =>
    rw [List.filterMap_cons, List.filterMap_cons, List.countP_cons]
    cases kind with
    | media inlineData =>
      have hpos := mediaLink_pos inlineData
      simp only [Kind.piece, Kind.shown, Kind.isMedia, List.flatMap_cons, List.length_append, if_true]
      omega
    | call functionCall => exact ih
    | thought text => exact ih
    | blank => exact ih
    | image link =>
      simp only [Kind.piece, Kind.shown, Kind.isMedia, List.flatMap_cons, List.length_append]
      simp only [Bool.false_eq_true, if_false]
      omega
    | block text =>
      simp only [Kind.piece, Kind.shown, Kind.isMedia, List.flatMap_cons, List.length_append]
      simp only [Bool.false_eq_true, if_false]
      omega
    | plain text =>
      simp only [Kind.piece, Kind.shown, Kind.isMedia, List.flatMap_cons, List.length_append]
      simp only [Bool.false_eq_true, if_false]
      omega

theorem shown_of_unmixed {kinds : List (Kind A)} (hunmixed : unmixed kinds = true) :
    kinds.filterMap Kind.shown = (kinds.filterMap Kind.piece).map Prod.fst := by
  induction kinds with
  | nil => rfl
  | cons kind kinds ih =>
    rw [unmixed, List.all_cons, Bool.and_eq_true] at hunmixed
    have htail := ih hunmixed.2
    rw [List.filterMap_cons, List.filterMap_cons]
    cases kind with
    | media inlineData => exact absurd hunmixed.1 Bool.false_ne_true
    | call functionCall => exact htail
    | thought text => exact htail
    | blank => exact htail
    | image link => exact congrArg (link :: ·) htail
    | block text => exact congrArg (text :: ·) htail
    | plain text => exact congrArg (text :: ·) htail

theorem written_of_thinking {kinds : List (Kind A)} (hthinking : thinking kinds = false) :
    kinds.filterMap Kind.written = (kinds.filterMap Kind.piece).map broken := by
  induction kinds with
  | nil => rfl
  | cons kind kinds ih =>
    rw [thinking_cons, Bool.or_eq_false_iff] at hthinking
    have htail := ih hthinking.2
    rw [List.filterMap_cons, List.filterMap_cons]
    cases kind with
    | thought text => exact absurd hthinking.1 (Ne.symm Bool.false_ne_true)
    | media inlineData => exact htail
    | call functionCall => exact htail
    | blank => exact htail
    | image link => exact congrArg (_ :: ·) htail
    | block text => exact congrArg (_ :: ·) htail
    | plain text => exact congrArg (_ :: ·) htail

theorem contentOf_of_alone {kinds : List (Kind A)} (halone : Alone kinds) :
    contentOf kinds = ['\n'].intercalate ((kinds.filterMap Kind.piece).map broken) := by
  rw [contentOf]
  split
  · next hthinking =>
    have hone := halone hthinking
    have hpos := thoughts_pos.mp hthinking
    rw [length_written] at hone
    have hnil := List.eq_nil_of_length_eq_zero (l := kinds.filterMap Kind.piece) (by omega)
    rw [hnil]
    rfl
  · next hthinking => rw [writtenOf, written_of_thinking (Bool.eq_false_iff.mpr hthinking)]

theorem countP_of_unmixed {kinds : List (Kind A)} (h : kinds.countP Kind.isMedia = 0) :
    unmixed kinds = true := by
  rw [unmixed, List.all_eq_true]
  intro kind hmem
  rw [List.countP_eq_zero] at h
  have hmedia := Bool.eq_false_iff.mpr (h kind hmem)
  rw [hmedia]
  rfl

/-- Where thoughts are alone, the contents of all chunks make the content of all parts exactly when
nothing but images is inlined and the line breaks agree. -/
theorem content_iff {chunks : List (List (Kind A))} (halone : ∀ kinds ∈ chunks, Alone kinds) :
    chunks.flatMap contentOf = ['\n'].intercalate (chunks.flatten.filterMap Kind.shown) ↔
      unmixed chunks.flatten = true ∧
        Breaks.Agree '\n' (chunks.map fun kinds ↦ kinds.filterMap Kind.piece) := by
  have hflat : (chunks.map fun kinds ↦ kinds.filterMap Kind.piece).flatten =
      chunks.flatten.filterMap Kind.piece := List.filterMap_flatten.symm
  have hcontent : chunks.flatMap contentOf = ((chunks.map fun kinds ↦ kinds.filterMap Kind.piece).flatMap
      fun pieces ↦ ['\n'].intercalate (pieces.map fun piece ↦ piece.1 ++ List.replicate piece.2 '\n')) := by
    rw [List.flatMap_map]
    exact List.flatMap_congr fun kinds hkinds ↦ contentOf_of_alone (halone kinds hkinds)
  have hletters : lettersOf (chunks.flatMap contentOf) =
      (chunks.flatten.filterMap Kind.piece).flatMap fun piece ↦ lettersOf piece.1 := by
    rw [← hflat, hcontent]
    exact lettersOf_chunks _
  rw [← Breaks.flatMap_intercalate_eq_iff, ← hcontent, hflat]
  constructor
  · intro h
    have hlen := congrArg List.length (congrArg lettersOf h)
    have hlt := letters_lt chunks.flatten
    rw [hletters, lettersOf_intercalate] at hlen
    have hunmixed : unmixed chunks.flatten = true := countP_of_unmixed (by omega)
    exact ⟨hunmixed, shown_of_unmixed hunmixed ▸ h⟩
  · intro h
    rw [h.2, shown_of_unmixed h.1]

end Contents

section Answers

variable {A : Type} (marshal : A → Option Text)

def kindsOf (candidate : GeminiChatCandidate A) : List (Kind A) := candidate.parts.map kindOf

def calling (kinds : List (Kind A)) : Bool := kinds.any fun kind ↦ kind.call?.isSome

/-- A call of a candidate is handed on. -/
def callable (candidate : GeminiChatCandidate A) : Bool :=
  !((kindsOf candidate).flatMap (Kind.calls marshal)).isEmpty

/-- An answer as its client has it in the end. -/
structure Collected where
  content : Text
  reasoning : Text
  toolCalls : List Function
  finishReason : String

def collected (choice : Choice) : Collected where
  content := choice.content
  reasoning := choice.reasoningContent.getD []
  toolCalls := choice.toolCalls
  finishReason := choice.finishReason

/-- The last finish reason given counts, and `stop` where none is. -/
def collect (choices : List StreamChoice) : Collected where
  content := choices.flatMap fun choice ↦ choice.content.getD []
  reasoning := choices.flatMap fun choice ↦ choice.reasoningContent.getD []
  toolCalls := choices.flatMap StreamChoice.toolCalls
  finishReason := (choices.filterMap StreamChoice.finishReason).getLast?.getD stop

def candidatesOf (stream : List (GeminiChatResponse A)) (index : ℤ) : List (GeminiChatCandidate A) :=
  (stream.flatMap GeminiChatResponse.candidates).filter fun candidate ↦ candidate.index = index

def choicesOf (stream : List (GeminiChatResponse A)) (index : ℤ) : List StreamChoice :=
  (stream.flatMap fun chunk ↦ (streamResponseGeminiChat2OpenAI marshal chunk).1).filter
    fun choice ↦ choice.index = index

/-- The chunks of a stream have the parts of a response's candidates, with each finish reason in the
last of its candidate's chunks. -/
structure Splits (response : GeminiChatResponse A) (stream : List (GeminiChatResponse A)) : Prop where
  parts : ∀ candidate ∈ response.candidates,
    (candidatesOf stream candidate.index).flatMap GeminiChatCandidate.parts = candidate.parts
  finishReasons : ∀ candidate ∈ response.candidates, ∃ k,
    (candidatesOf stream candidate.index).map GeminiChatCandidate.finishReason =
      List.replicate k none ++ [candidate.finishReason]

/-- What a candidate's choice is to be: all texts and thoughts are there in their order, the stream comes
to the same, and the finish reason tells of a call. -/
structure Answers (stream : List (GeminiChatResponse A)) (candidate : GeminiChatCandidate A)
    (choice : Choice) :
    Prop where
  content : lettersOf choice.content = lettersOf ((kindsOf candidate).filterMap Kind.text).flatten
  reasoning : lettersOf (choice.reasoningContent.getD []) =
    lettersOf ((kindsOf candidate).filterMap Kind.thought?).flatten
  streamed : collect (choicesOf marshal stream candidate.index) = collected choice
  finishReason : choice.finishReason = toolCallsReason ↔ calling (kindsOf candidate) = true

def SameAnswers (response : GeminiChatResponse A) (stream : List (GeminiChatResponse A)) : Prop :=
  ∀ pair ∈ response.candidates.zip (responseGeminiChat2OpenAI marshal response),
    Answers marshal stream pair.1 pair.2

/-- The last chunk of a candidate has a call. -/
def callsLast (chunks : List (GeminiChatCandidate A)) : Bool :=
  chunks.getLast?.any fun chunk ↦ calling (kindsOf chunk)

/-- A candidate without a call comes after none whose call is handed on. The call of another one is
not overruled by a finish reason, neither in the whole nor in its chunks. -/
def Finishes (earlier : Bool) (candidate : GeminiChatCandidate A)
    (chunks : List (GeminiChatCandidate A)) : Prop :=
  if calling (kindsOf candidate) then
    (earlier ∨ callable marshal candidate ∨ candidate.finishReason = none) ∧
      (callsLast chunks ∨ candidate.finishReason = none ∨ candidate.finishReason = some "STOP")
  else earlier = false

structure Streamable (stream : List (GeminiChatResponse A)) (earlier : Bool)
    (candidate : GeminiChatCandidate A) : Prop where
  alone : ∀ chunk ∈ candidatesOf stream candidate.index, Alone (kindsOf chunk)
  silent : Silent (kindsOf candidate)
  unmixed : unmixed (kindsOf candidate) = true
  breaks : Breaks.Agree '\n' ((candidatesOf stream candidate.index).map fun chunk ↦
    (kindsOf chunk).filterMap Kind.piece)
  finishes : Finishes marshal earlier candidate (candidatesOf stream candidate.index)

def Meets (response : GeminiChatResponse A) (stream : List (GeminiChatResponse A)) : Prop :=
  ∀ before candidate after, response.candidates = before ++ candidate :: after →
    Streamable marshal stream (before.any (callable marshal)) candidate

variable {marshal}

theorem convertCandidate_eq (earlier : Bool) (candidate : GeminiChatCandidate A) :
    convertCandidate marshal earlier candidate =
      ({ index := candidate.index
         content := ['\n'].intercalate ((kindsOf candidate).filterMap Kind.shown)
         reasoningContent := ((kindsOf candidate).filterMap Kind.thought?).getLast?
         toolCalls := (kindsOf candidate).flatMap (Kind.calls marshal)
         finishReason := if earlier || callable marshal candidate then toolCallsReason
           else (candidate.finishReason.map finishReasonOf).getD
             (if calling (kindsOf candidate) then toolCallsReason else stop) },
        earlier || callable marshal candidate) := by
  rw [convertCandidate, foldl_onPart]
  rfl

theorem mem_zip_iff {candidates : List (GeminiChatCandidate A)} {earlier : Bool}
    {P : GeminiChatCandidate A → Choice → Prop} :
    (∀ pair ∈ candidates.zip (convertCandidates marshal earlier candidates), P pair.1 pair.2) ↔
      ∀ before candidate after, candidates = before ++ candidate :: after →
        P candidate (convertCandidate marshal (earlier || before.any (callable marshal)) candidate).1 := by
  induction candidates generalizing earlier with
  | nil =>
    constructor
    · intro _ before candidate after h
      exact absurd h.symm (List.append_ne_nil_of_right_ne_nil before (List.cons_ne_nil _ _))
    · exact fun _ pair hpair ↦ absurd hpair List.not_mem_nil
  | cons first candidates ih =>
    rw [convertCandidates, List.zip_cons_cons, List.forall_mem_cons, ih, convertCandidate_eq earlier first]
    constructor
    · intro ⟨hfirst, hrest⟩ before candidate after h
      cases before with
      | nil =>
        obtain ⟨rfl, rfl⟩ := List.cons.inj h
        rw [List.any_nil, Bool.or_false, convertCandidate_eq]
        exact hfirst
      | cons head before =>
        obtain ⟨rfl, hcandidates⟩ := List.cons.inj h
        rw [List.any_cons, ← Bool.or_assoc]
        exact hrest before candidate after hcandidates
    · intro h
      refine ⟨?_, ?_⟩
      · have hfirst := h [] first candidates rfl
        rw [List.any_nil, Bool.or_false, convertCandidate_eq] at hfirst
        exact hfirst
      · intro before candidate after hcandidates
        have hrest := h (first :: before) candidate after (congrArg (first :: ·) hcandidates)
        rw [List.any_cons, ← Bool.or_assoc] at hrest
        exact hrest

theorem choicesOf_eq (stream : List (GeminiChatResponse A)) (index : ℤ) :
    choicesOf marshal stream index = (candidatesOf stream index).map (convertStreamCandidate marshal) := by
  induction stream with
  | nil => rfl
  | cons chunk stream ih =>
    rw [choicesOf, List.flatMap_cons, List.filter_append, candidatesOf, List.flatMap_cons, List.filter_append,
      List.map_append, ← candidatesOf, ← ih, choicesOf]
    congr 1
    exact List.filter_map

theorem convertStreamCandidate_eq (candidate : GeminiChatCandidate A) :
    convertStreamCandidate marshal candidate =
      { index := candidate.index
        content := if thinking (kindsOf candidate) then none else some (writtenOf (kindsOf candidate))
        reasoningContent := if thinking (kindsOf candidate) then some (writtenOf (kindsOf candidate)) else none
        toolCalls := (kindsOf candidate).flatMap (Kind.calls marshal)
        finishReason := if calling (kindsOf candidate) then some toolCallsReason
          else (if candidate.finishReason = some "STOP" then none else candidate.finishReason).map
            finishReasonOf } := by
  rw [convertStreamCandidate, foldl_onStreamPart]
  rfl

/-- The finish reason of a candidate's chunk. -/
def reasonOf (candidate : GeminiChatCandidate A) : Option String :=
  if calling (kindsOf candidate) then some toolCallsReason
  else (if candidate.finishReason = some "STOP" then none else candidate.finishReason).map finishReasonOf

/-- What a candidate's chunks come to. -/
theorem collect_eq (chunks : List (GeminiChatCandidate A)) :
    collect (chunks.map (convertStreamCandidate marshal)) =
      { content := (chunks.map kindsOf).flatMap contentOf
        reasoning := (chunks.map kindsOf).flatMap reasoningOf
        toolCalls := (chunks.map kindsOf).flatten.flatMap (Kind.calls marshal)
        finishReason := (chunks.filterMap reasonOf).getLast?.getD stop } := by
  have hcontent : ∀ chunk ∈ chunks, (convertStreamCandidate marshal chunk).content.getD [] =
      contentOf (kindsOf chunk) := by
    intro chunk _
    rw [convertStreamCandidate_eq, contentOf]
    dsimp only
    split
    · rfl
    · rfl
  have hreasoning : ∀ chunk ∈ chunks, (convertStreamCandidate marshal chunk).reasoningContent.getD [] =
      reasoningOf (kindsOf chunk) := by
    intro chunk _
    rw [convertStreamCandidate_eq, reasoningOf]
    dsimp only
    split
    · rfl
    · rfl
  have hcalls : ∀ chunk ∈ chunks, (convertStreamCandidate marshal chunk).toolCalls =
      (kindsOf chunk).flatMap (Kind.calls marshal) := fun chunk _ ↦ by rw [convertStreamCandidate_eq]
  have hreason : chunks.filterMap (StreamChoice.finishReason ∘ convertStreamCandidate marshal) =
      chunks.filterMap reasonOf := by
    apply List.filterMap_congr
    intro chunk _
    rw [Function.comp_apply, convertStreamCandidate_eq, reasonOf]
  rw [collect, List.flatMap_map, List.flatMap_map, List.flatMap_map, List.filterMap_map, List.flatMap_map,
    List.flatMap_map, List.flatMap_congr hcontent, List.flatMap_congr hreasoning, List.flatMap_congr hcalls,
    hreason, ← List.flatMap_def, List.flatMap_assoc]

theorem calling_flatten (chunks : List (GeminiChatCandidate A)) :
    calling (chunks.map kindsOf).flatten = chunks.any fun chunk ↦ calling (kindsOf chunk) := by
  rw [calling, List.any_flatten, List.any_map]
  rfl

/-- Chunks before the last one give no other finish reason than that of a call. -/
theorem getLast?_reasons {chunks : List (GeminiChatCandidate A)}
    (hnone : ∀ chunk ∈ chunks, chunk.finishReason = none) : (chunks.filterMap reasonOf).getLast? =
      if chunks.any fun chunk ↦ calling (kindsOf chunk) then some toolCallsReason else none := by
  induction chunks using List.reverseRecOn with
  | nil => rfl
  | append_singleton chunks chunk ih =>
    have hlast : reasonOf chunk = if calling (kindsOf chunk) then some toolCallsReason else none := by
      rw [reasonOf, hnone chunk (List.mem_append_right chunks List.mem_cons_self)]
      rfl
    have hrest := ih fun c hc ↦ hnone c (List.mem_append_left [chunk] hc)
    rw [List.filterMap_append, List.filterMap_cons, hlast, List.any_append, List.any_cons, List.any_nil,
      Bool.or_false]
    cases calling (kindsOf chunk) with
    | true => simp
    | false =>
      rw [Bool.or_false, ← hrest]
      exact congrArg List.getLast? (List.append_nil _)

theorem finishReasonOf_ne (finishReason : String) : finishReasonOf finishReason ≠ toolCallsReason := by
  rw [finishReasonOf]
  split
  · decide
  · split
    · decide
    · decide

theorem getD_ne (finishReason : Option String) :
    (finishReason.map finishReasonOf).getD stop ≠ toolCallsReason := by
  cases finishReason with
  | none => decide
  | some finishReason => exact finishReasonOf_ne finishReason

theorem getD_stop (finishReason : Option String) :
    ((if finishReason = some "STOP" then none else finishReason).map finishReasonOf).getD stop =
      (finishReason.map finishReasonOf).getD stop := by
  split
  · next h =>
    rw [h]
    rfl
  · rfl

theorem getD_calls_iff (finishReason : Option String) :
    (finishReason.map finishReasonOf).getD toolCallsReason = toolCallsReason ↔ finishReason = none := by
  cases finishReason with
  | none => exact ⟨fun _ ↦ rfl, fun _ ↦ rfl⟩
  | some finishReason =>
    constructor
    · exact fun h ↦ absurd h (finishReasonOf_ne finishReason)
    · exact fun h ↦ absurd h (Option.some_ne_none finishReason)

theorem getD_calls_stream_iff (finishReason : Option String) :
    ((if finishReason = some "STOP" then none else finishReason).map finishReasonOf).getD toolCallsReason =
      toolCallsReason ↔ finishReason = none ∨ finishReason = some "STOP" := by
  rw [getD_calls_iff]
  by_cases h : finishReason = some "STOP"
  · rw [if_pos h]
    exact ⟨fun _ ↦ .inr h, fun _ ↦ rfl⟩
  · rw [if_neg h]
    exact ⟨.inl, fun hor ↦ hor.resolve_right h⟩

/-- The finish reason of the last chunk, of which those before have none. -/
theorem getLast?_reasonOf {chunks : List (GeminiChatCandidate A)} {last : GeminiChatCandidate A}
    (hnone : ∀ chunk ∈ chunks, chunk.finishReason = none) :
    ((chunks ++ [last]).filterMap reasonOf).getLast?.getD stop =
      if calling (kindsOf last) then toolCallsReason
      else ((if last.finishReason = some "STOP" then none else last.finishReason).map finishReasonOf).getD
        (if chunks.any fun chunk ↦ calling (kindsOf chunk) then toolCallsReason else stop) := by
  rw [List.filterMap_append, ← or_getLast?, getLast?_reasons hnone, reasonOf]
  cases calling (kindsOf last) with
  | true => rfl
  | false =>
    simp only [Bool.false_eq_true, if_false]
    cases (if last.finishReason = some "STOP" then none else last.finishReason) with
    | some finishReason => rfl
    | none =>
      cases chunks.any fun chunk ↦ calling (kindsOf chunk) with
      | true => rfl
      | false => rfl

theorem whole_calls_iff (earlier handed : Bool) (finishReason : Option String) :
    (if earlier || handed then toolCallsReason else (finishReason.map finishReasonOf).getD toolCallsReason) =
      toolCallsReason ↔ earlier ∨ handed ∨ finishReason = none := by
  rw [← getD_calls_iff]
  cases earlier with
  | true => exact ⟨fun _ ↦ .inl rfl, fun _ ↦ rfl⟩
  | false =>
    cases handed with
    | true => exact ⟨fun _ ↦ .inr (.inl rfl), fun _ ↦ rfl⟩
    | false => simp

theorem stream_calls_iff {before last : Bool} (finishReason : Option String)
    (hcalls : (before || last) = true) :
    (if last then toolCallsReason
      else ((if finishReason = some "STOP" then none else finishReason).map finishReasonOf).getD
        (if before then toolCallsReason else stop)) = toolCallsReason ↔
      last ∨ finishReason = none ∨ finishReason = some "STOP" := by
  cases last with
  | true => exact ⟨fun _ ↦ .inl rfl, fun _ ↦ rfl⟩
  | false =>
    rw [Bool.or_false] at hcalls
    rw [if_neg Bool.false_ne_true, if_pos hcalls, getD_calls_stream_iff]
    simp

/-- A candidate's finish reason is right and the same in its stream exactly when it is not overruled. -/
theorem finish_iff {earlier handed before last : Bool} (finishReason : Option String)
    (hhanded : handed = true → (before || last) = true) :
    ((if last then toolCallsReason
        else ((if finishReason = some "STOP" then none else finishReason).map finishReasonOf).getD
          (if before then toolCallsReason else stop)) =
      (if earlier || handed then toolCallsReason
        else (finishReason.map finishReasonOf).getD (if before || last then toolCallsReason else stop)) ∧
      ((if earlier || handed then toolCallsReason
        else (finishReason.map finishReasonOf).getD (if before || last then toolCallsReason else stop)) =
          toolCallsReason ↔ (before || last) = true)) ↔
    if before || last then (earlier ∨ handed ∨ finishReason = none) ∧
        (last ∨ finishReason = none ∨ finishReason = some "STOP")
    else earlier = false := by
  by_cases hcalls : (before || last) = true
  · rw [if_pos hcalls, if_pos hcalls, ← whole_calls_iff, ← stream_calls_iff finishReason hcalls]
    constructor
    · intro h
      have hwhole := h.2.mpr hcalls
      exact ⟨hwhole, h.1.trans hwhole⟩
    · intro h
      exact ⟨h.2.trans h.1.symm, ⟨fun _ ↦ hcalls, fun _ ↦ h.1⟩⟩
  · have hhanded' : handed = false := Bool.eq_false_iff.mpr (mt hhanded hcalls)
    have hnone := Bool.or_eq_false_iff.mp (Bool.eq_false_iff.mpr hcalls)
    rw [if_neg hcalls, if_neg hcalls, hnone.1, hnone.2, hhanded', Bool.or_false, if_neg Bool.false_ne_true,
      if_neg Bool.false_ne_true, getD_stop]
    cases earlier with
    | true =>
      constructor
      · exact fun h ↦ absurd (h.2.mp rfl) Bool.false_ne_true
      · exact fun h ↦ absurd h.symm Bool.false_ne_true
    | false =>
      have hne := getD_ne finishReason
      constructor
      · exact fun _ ↦ rfl
      · exact fun _ ↦ ⟨rfl, ⟨fun h ↦ absurd h hne, fun h ↦ absurd h Bool.false_ne_true⟩⟩

theorem letters_shown (kinds : List (Kind A)) :
    (kinds.filterMap Kind.shown).flatMap lettersOf = lettersOf (kinds.filterMap Kind.text).flatten := by
  induction kinds with
  | nil => rfl
  | cons kind kinds ih =>
    rw [List.filterMap_cons, List.filterMap_cons]
    cases kind with
    | call functionCall => exact ih
    | thought text => exact ih
    | blank => exact ih
    | media inlineData =>
      simp only [Kind.shown, Kind.text]
      rw [List.flatMap_cons, List.flatten_cons, lettersOf_append, ih]
    | image link =>
      simp only [Kind.shown, Kind.text]
      rw [List.flatMap_cons, List.flatten_cons, lettersOf_append, ih]
    | block text =>
      simp only [Kind.shown, Kind.text]
      rw [List.flatMap_cons, List.flatten_cons, lettersOf_append, ih]
    | plain text =>
      simp only [Kind.shown, Kind.text]
      rw [List.flatMap_cons, List.flatten_cons, lettersOf_append, ih]

theorem calling_of_callable {candidate : GeminiChatCandidate A} (h : callable marshal candidate = true) :
    calling (kindsOf candidate) = true := by
  rw [callable, Bool.not_eq_true', List.isEmpty_eq_false_iff] at h
  obtain ⟨call, hcall⟩ := List.exists_mem_of_ne_nil _ h
  obtain ⟨kind, hkind, hmem⟩ := List.mem_flatMap.mp hcall
  rw [calling, List.any_eq_true]
  refine ⟨kind, hkind, ?_⟩
  rw [Kind.calls] at hmem
  cases hnone : kind.call? with
  | some functionCall => rfl
  | none =>
    rw [hnone] at hmem
    exact absurd hmem List.not_mem_nil

/-- The last of the chunks has the finish reason. -/
theorem exists_last {chunks : List (GeminiChatCandidate A)} {finishReason : Option String} {k : ℕ}
    (h : chunks.map GeminiChatCandidate.finishReason = List.replicate k none ++ [finishReason]) :
    ∃ before last, chunks = before ++ [last] ∧ (∀ chunk ∈ before, chunk.finishReason = none) ∧
      last.finishReason = finishReason := by
  obtain ⟨before, after, rfl, hbefore, hafter⟩ := List.map_eq_append_iff.mp h
  obtain ⟨last, rfl, hlast⟩ := List.map_eq_singleton_iff.mp hafter
  refine ⟨before, last, rfl, ?_, hlast⟩
  intro chunk hchunk
  apply List.eq_of_mem_replicate (n := k)
  rw [← hbefore]
  exact List.mem_map_of_mem hchunk

theorem kindsOf_flatten {chunks : List (GeminiChatCandidate A)} {candidate : GeminiChatCandidate A}
    (h : chunks.flatMap GeminiChatCandidate.parts = candidate.parts) :
    (chunks.map kindsOf).flatten = kindsOf candidate := by
  rw [kindsOf, ← h, List.map_flatMap, List.flatMap_def]
  rfl

/-- A candidate's finish reason after others and in its chunks. -/
theorem finishes_iff {candidate : GeminiChatCandidate A} {chunks : List (GeminiChatCandidate A)} {k : ℕ}
    (earlier : Bool) (hparts : chunks.flatMap GeminiChatCandidate.parts = candidate.parts)
    (hreasons : chunks.map GeminiChatCandidate.finishReason =
      List.replicate k none ++ [candidate.finishReason]) :
    ((chunks.filterMap reasonOf).getLast?.getD stop =
        (convertCandidate marshal earlier candidate).1.finishReason ∧
      ((convertCandidate marshal earlier candidate).1.finishReason = toolCallsReason ↔
        calling (kindsOf candidate) = true)) ↔ Finishes marshal earlier candidate chunks := by
  obtain ⟨before, last, rfl, hnone, hlast⟩ := exists_last hreasons
  have hcalling : calling (kindsOf candidate) =
      ((before.any fun chunk ↦ calling (kindsOf chunk)) || calling (kindsOf last)) := by
    rw [← kindsOf_flatten hparts, calling_flatten, List.any_append, List.any_cons, List.any_nil,
      Bool.or_false]
  have hcallsLast : callsLast (before ++ [last]) = calling (kindsOf last) := by
    rw [callsLast, List.getLast?_concat]
    rfl
  have hhanded : callable marshal candidate = true →
      ((before.any fun chunk ↦ calling (kindsOf chunk)) || calling (kindsOf last)) = true :=
    fun h ↦ hcalling ▸ calling_of_callable h
  rw [getLast?_reasonOf hnone, hlast, convertCandidate_eq, Finishes, hcallsLast, hcalling]
  exact finish_iff candidate.finishReason hhanded

theorem answers_iff {stream : List (GeminiChatResponse A)} {candidate : GeminiChatCandidate A} {k : ℕ}
    (earlier : Bool)
    (hparts : (candidatesOf stream candidate.index).flatMap GeminiChatCandidate.parts = candidate.parts)
    (hreasons : (candidatesOf stream candidate.index).map GeminiChatCandidate.finishReason =
      List.replicate k none ++ [candidate.finishReason]) :
    Answers marshal stream candidate (convertCandidate marshal earlier candidate).1 ↔
      Streamable marshal stream earlier candidate := by
  have hkinds := kindsOf_flatten hparts
  have hfinish : _ ↔ Finishes marshal earlier candidate _ := finishes_iff earlier hparts hreasons
  have hreasoning := reasoning_iff ((candidatesOf stream candidate.index).map kindsOf)
  have hchoice : convertCandidate marshal earlier candidate = _ := convertCandidate_eq earlier candidate
  rw [hkinds, List.forall_mem_map] at hreasoning
  have hsame : collect (choicesOf marshal stream candidate.index) =
      collected (convertCandidate marshal earlier candidate).1 ↔
        ((candidatesOf stream candidate.index).map kindsOf).flatMap contentOf =
            ['\n'].intercalate ((kindsOf candidate).filterMap Kind.shown) ∧
          ((candidatesOf stream candidate.index).map kindsOf).flatMap reasoningOf =
            ((kindsOf candidate).filterMap Kind.thought?).getLast?.getD [] ∧
          ((candidatesOf stream candidate.index).filterMap reasonOf).getLast?.getD stop =
            (convertCandidate marshal earlier candidate).1.finishReason := by
    rw [choicesOf_eq, collect_eq, collected, Collected.mk.injEq, hkinds, hchoice]
    simp
  constructor
  · intro h
    obtain ⟨hcontent, hthought, hlast⟩ := hsame.mp h.streamed
    obtain ⟨halone, hsilent⟩ := hreasoning.mp hthought
    have hcontents := content_iff (List.forall_mem_map.mpr halone)
    rw [hkinds, List.map_map] at hcontents
    obtain ⟨hunmixed, hbreaks⟩ := hcontents.mp hcontent
    exact ⟨halone, hsilent, hunmixed, hbreaks, hfinish.mp ⟨hlast, h.finishReason⟩⟩
  · intro h
    have hcontents := content_iff (List.forall_mem_map.mpr h.alone)
    rw [hkinds, List.map_map] at hcontents
    obtain ⟨hlast, hcalls⟩ := hfinish.mpr h.finishes
    refine ⟨?_, ?_, ?_, hcalls⟩
    · rw [hchoice, lettersOf_intercalate, letters_shown]
    · rw [hchoice, flatten_dropLast, (silent_iff _).mp h.silent]
      rfl
    · exact hsame.mpr ⟨hcontents.mpr ⟨h.unmixed, h.breaks⟩, hreasoning.mpr ⟨h.alone, h.silent⟩, hlast⟩

/-- A response answers the same streamed or not exactly when thoughts come alone and are silent but for the
last, images alone are inlined, line breaks agree and finish reasons are not overruled. -/
theorem same_answers_iff (response : GeminiChatResponse A) (stream : List (GeminiChatResponse A))
    (hsplits : Splits response stream) :
    SameAnswers marshal response stream ↔ Meets marshal response stream := by
  rw [SameAnswers, responseGeminiChat2OpenAI, mem_zip_iff, Meets]
  have heach : ∀ before candidate after, response.candidates = before ++ candidate :: after →
      (Answers marshal stream candidate
          (convertCandidate marshal (false || before.any (callable marshal)) candidate).1 ↔
        Streamable marshal stream (before.any (callable marshal)) candidate) := by
    intro before candidate after h
    have hmem : candidate ∈ response.candidates := by
      rw [h]
      exact List.mem_append_right before List.mem_cons_self
    obtain ⟨k, hk⟩ := hsplits.finishReasons candidate hmem
    exact answers_iff (before.any (callable marshal)) (hsplits.parts candidate hmem) hk
  constructor
  · intro h before candidate after hcandidates
    exact (heach before candidate after hcandidates).mp (h before candidate after hcandidates)
  · intro h before candidate after hcandidates
    exact (heach before candidate after hcandidates).mpr (h before candidate after hcandidates)

def single (parts : List (GeminiPart Text)) (finishReason : Option String) : GeminiChatResponse Text where
  candidates := [{ index := 0, parts := parts, finishReason := finishReason }]

def hello : GeminiPart Text where
  text := "Hello".toList

def world : GeminiPart Text where
  text := " world".toList

def wave : GeminiPart Text where
  functionCall := some ⟨"wave".toList, "\x7b\x7d".toList⟩

def greet : GeminiPart Text where
  text := "Greet.".toList
  thought := true

theorem splits_single {parts : List (GeminiPart Text)} {finishReason : Option String}
    {stream : List (GeminiChatResponse Text)} {k : ℕ}
    (hparts : (candidatesOf stream 0).flatMap GeminiChatCandidate.parts = parts)
    (hreasons : (candidatesOf stream 0).map GeminiChatCandidate.finishReason =
      List.replicate k none ++ [finishReason]) : Splits (single parts finishReason) stream := by
  constructor
  · intro candidate hmem
    rw [List.mem_singleton.mp hmem]
    exact hparts
  · intro candidate hmem
    rw [List.mem_singleton.mp hmem]
    exact ⟨k, hreasons⟩

theorem greeting_same : SameAnswers some (single [greet, hello, wave] (some "STOP"))
    [single [greet] none, single [hello] none, single [wave] (some "STOP")] := by
  have hsplits : Splits (single [greet, hello, wave] (some "STOP"))
      [single [greet] none, single [hello] none, single [wave] (some "STOP")] := splits_single (k := 2) rfl rfl
  refine (same_answers_iff _ _ hsplits).mpr ?_
  intro before candidate after h
  obtain ⟨rfl, rfl⟩ : before = [] ∧ candidate = ⟨0, [greet, hello, wave], some "STOP"⟩ := by
    cases before with
    | nil => exact ⟨rfl, (List.cons.inj h).1.symm⟩
    | cons first before =>
      have hne := List.append_ne_nil_of_right_ne_nil before (List.cons_ne_nil candidate after)
      exact absurd (List.cons.inj h).2.symm hne
  refine ⟨?_, ?_, rfl, .inr ⟨.inl rfl, rfl⟩, ?_⟩
  · intro chunk hchunk
    obtain rfl | rfl | rfl : chunk = ⟨0, [greet], none⟩ ∨ chunk = ⟨0, [hello], none⟩ ∨
        chunk = ⟨0, [wave], some "STOP"⟩ := by simpa [candidatesOf, single] using hchunk
    · exact fun _ ↦ rfl
    · exact fun h ↦ absurd h Bool.false_ne_true
    · exact fun h ↦ absurd h Bool.false_ne_true
  · exact fun text htext ↦ absurd htext List.not_mem_nil
  · exact ⟨.inr (.inl rfl), .inl rfl⟩

/-- A text in two chunks has no line break between them, but in one answer it has. -/
theorem text_chunks_differ : Splits (single [hello, world] (some "STOP"))
      [single [hello] none, single [world] (some "STOP")] ∧
    ¬ SameAnswers some (single [hello, world] (some "STOP"))
      [single [hello] none, single [world] (some "STOP")] := by
  refine ⟨splits_single (k := 1) rfl rfl, ?_⟩
  intro h
  have hanswers := h _ List.mem_cons_self
  exact absurd (congrArg Collected.content hanswers.streamed) (by decide)

end Answers

end AllAiTools.NewApi.Relay.GeminiAnswerStreamed
