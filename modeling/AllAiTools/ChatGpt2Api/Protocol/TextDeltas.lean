import AllAiTools.Foundation.Breaks
import AllAiTools.Foundation.Result
import AllAiTools.ChatGpt2Api.Protocol.Sanitized

namespace AllAiTools.ChatGpt2Api.Protocol.TextDeltas

open Foundation.Increments Text Json Conversation Sanitized

section Runs

variable (render : Json → Str) (historyText : Str) (loads : Str → Option Json)

/-- The raw text after each event of the upstream, from the one before them. -/
def rawTexts : List Str → Str → Except AttributeError (List Str)
  | [], _ => .ok []
  | payload :: payloads, rawText =>
    if payload = [] then rawTexts payloads rawText
    else if payload = "[DONE]".toList then .ok []
    else match loads payload with
      | some (.obj event) => do
        let next ← assistantRawText render historyText event rawText
        let texts ← rawTexts payloads next
        return next :: texts
      | _ => rawTexts payloads rawText

variable {render historyText loads}

@[simp] theorem emittedText_nil : emittedText [] = [] := rfl

@[simp] theorem emittedText_append (first rest : List (Except AttributeError ConversationEvent)) :
    emittedText (first ++ rest) = emittedText first ++ emittedText rest := by
  simp [emittedText]

theorem emittedText_cons (event : Except AttributeError ConversationEvent)
    (rest : List (Except AttributeError ConversationEvent)) :
    emittedText (event :: rest) = emittedText [event] ++ emittedText rest :=
  emittedText_append [event] rest

/-- An event is not the message of the history that comes next. -/
def NotReplayed (historyText : Str) (event : Fields) (history : List Str) : Prop :=
  ∀ message ∈ history.head?, ∃ text, eventAssistantText historyText event = .ok text ∧
    text ≠ message

/-- An event that is not replayed emits what its text adds to the one shown. -/
theorem turn_eq {event : Fields} {state : ConversationState} {history : List Str} {next : Str}
    (hreplayed : NotReplayed historyText event history)
    (hnext : assistantRawText render historyText event state.rawText = .ok next) :
    ∃ t, turn render historyText event state history = .ok t ∧
      t.state = { text := sanitizeOutputText next, rawText := next } ∧ t.history = history ∧
      emittedText (t.events.map .ok) = increment state.text (sanitizeOutputText next) := by
  have hturn : turn render historyText event state history = .ok
      (if sanitizeOutputText next ≠ state.text then
        { state := { text := sanitizeOutputText next, rawText := next }, history
          events := [.delta (sanitizeOutputText next)
            (increment state.text (sanitizeOutputText next))] }
      else
        { state := { text := state.text, rawText := next }, history
          events := [.event state.text] }) := by
    cases history with
    | nil =>
      by_cases htext : sanitizeOutputText next = state.text <;>
        simp [turn, hnext, htext, bind, Except.bind, pure, Except.pure, increment, startsWith_iff]
    | cons message history =>
      obtain ⟨text, htext, hne⟩ := hreplayed message rfl
      by_cases htext' : sanitizeOutputText next = state.text <;>
        simp [turn, hnext, htext, htext', hne, bind, Except.bind, pure, Except.pure, increment,
          startsWith_iff]
  refine ⟨_, hturn, ?_⟩
  by_cases htext : sanitizeOutputText next = state.text
  · rw [if_neg (not_not_intro htext), htext, increment_self]
    exact ⟨rfl, rfl, rfl⟩
  · rw [if_pos htext]
    exact ⟨rfl, rfl, by simp [emittedText]⟩

theorem emittedText_iterPayloads {payloads : List Str} {state : ConversationState}
    {texts : List Str}
    (htexts : rawTexts render historyText loads payloads state.rawText = .ok texts) :
    emittedText (iterPayloads render historyText loads payloads state []) =
      increments state.text (texts.map sanitizeOutputText) := by
  induction payloads generalizing state texts with
  | nil =>
    cases htexts
    rfl
  | cons payload payloads ih =>
    rw [rawTexts] at htexts
    rw [iterPayloads]
    by_cases hempty : payload = []
    · rw [if_pos hempty] at htexts ⊢
      exact ih htexts
    · rw [if_neg hempty] at htexts ⊢
      by_cases hdone : payload = "[DONE]".toList
      · rw [if_pos hdone] at htexts ⊢
        cases htexts
        rfl
      · rw [if_neg hdone] at htexts ⊢
        cases hloads : loads payload with
        | none =>
          simp only [hloads] at htexts ⊢
          rw [emittedText_cons, ih htexts]
          rfl
        | some json =>
          cases json with
          | obj event =>
            simp only [hloads] at htexts ⊢
            obtain ⟨next, hnext, htexts⟩ := Foundation.Result.bind_eq_ok.mp htexts
            obtain ⟨rest, hrest, htexts⟩ := Foundation.Result.bind_eq_ok.mp htexts
            cases htexts
            obtain ⟨t, ht, hstate, hhistory, hemitted⟩ :=
              @turn_eq render historyText event state [] next (by simp [NotReplayed]) hnext
            simp only [ht]
            rw [emittedText_append, hemitted, hhistory, List.map_cons, increments_cons, ih, hstate]
            rw [hstate]
            exact hrest
          | _ =>
            simp only [hloads] at htexts ⊢
            rw [emittedText_cons, ih htexts]
            rfl

/-- The deltas of raw texts that only grow add up to the last of them, sanitized, exactly when
none brings punctuation after a blank that was shown. -/
theorem increments_eq_iff {texts : List Str} (hgrows : ([] :: texts).IsChain (· <+: ·)) :
    increments [] (texts.map sanitizeOutputText) = sanitizeOutputText (texts.getLastD []) ↔
      ([] :: texts).IsChain fun raw next ↦
        blankBeforePunctuation (visibleText raw) (visibleText next) = false := by
  have hlast : (texts.map sanitizeOutputText).getLastD [] =
      sanitizeOutputText (texts.getLastD []) :=
    @List.getLastD_map _ _ sanitizeOutputText texts []
  have hincrements := append_increments_iff [] (texts.map sanitizeOutputText)
  rw [← hlast, ← isChain_congr _ hgrows]
  · exact hincrements.trans (List.isChain_map sanitizeOutputText (l := [] :: texts))
  · intro raw next hraw
    exact sanitizeOutputText_prefix_iff hraw

end Runs

section Streams

variable {render : Json → Str} {loads : Str → Option Json}

/-- The deltas of a conversation without history, whose raw text only grows, add up to its
sanitized text exactly when no payload brings punctuation after a blank that was shown. -/
theorem deltas_add_up_iff {payloads texts : List Str}
    (htexts : rawTexts render [] loads payloads [] = .ok texts)
    (hgrows : ([] :: texts).IsChain (· <+: ·)) :
    emittedText (iterConversationPayloads render [] loads payloads []) =
        sanitizeOutputText (texts.getLastD []) ↔
      ([] :: texts).IsChain fun raw next ↦
        blankBeforePunctuation (visibleText raw) (visibleText next) = false := by
  rw [iterConversationPayloads, emittedText_iterPayloads htexts]
  exact increments_eq_iff hgrows

def appendEvent (text : String) : Json :=
  .obj [("p".toList, .str partsPath.toList), ("o".toList, .str "append".toList),
    ("v".toList, .str text.toList)]

/-- The payload of an event that appends a text without anything to escape. -/
def appendPayload (text : String) : Str :=
  ("\x7b\"p\": \"/message/content/parts/0\", \"o\": \"append\", \"v\": \"" ++ text ++
    "\"\x7d").toList

/-- Reads the payloads that append one of these texts. -/
def readAppends (texts : List String) (payload : Str) : Option Json :=
  (texts.find? fun text ↦ appendPayload text = payload).map appendEvent

theorem done_adds_up :
    emittedText (iterConversationPayloads (fun _ ↦ []) [] (readAppends ["Repo", " done."])
      [appendPayload "Repo", appendPayload " done.", "[DONE]".toList] []) =
    sanitizeOutputText "Repo done.".toList := by
  have htexts : rawTexts (fun _ ↦ []) [] (readAppends ["Repo", " done."])
      [appendPayload "Repo", appendPayload " done.", "[DONE]".toList] [] =
      .ok ["Repo".toList, "Repo done.".toList] := by rfl
  exact (deltas_add_up_iff htexts (by decide +kernel)).mpr (by decide +kernel)

/-- A blank is shown and the text sent again once a full stop follows. -/
theorem blank_does_not_add_up : ¬∀ (render : Json → Str) (loads : Str → Option Json)
    (payloads texts : List Str), rawTexts render [] loads payloads [] = .ok texts →
      ([] :: texts).IsChain (· <+: ·) →
      emittedText (iterConversationPayloads render [] loads payloads []) =
        sanitizeOutputText (texts.getLastD []) := by
  intro h
  have hadds := h (fun _ ↦ []) (readAppends ["Repo ", "."])
    [appendPayload "Repo ", appendPayload ".", "[DONE]".toList]
    ["Repo ".toList, "Repo .".toList] (by rfl) (by decide +kernel)
  revert hadds
  decide +kernel

end Streams

end AllAiTools.ChatGpt2Api.Protocol.TextDeltas
