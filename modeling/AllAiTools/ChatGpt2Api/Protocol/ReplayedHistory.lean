import AllAiTools.ChatGpt2Api.Protocol.TextDeltas

namespace AllAiTools.ChatGpt2Api.Protocol.ReplayedHistory

open Foundation.Increments Text Json Conversation Sanitized TextDeltas

section Strip

theorem stripHistory_nil (text : Str) : stripHistory text [] = text := by
  rw [stripHistory]
  cases text.length <;> simp [stripHistoryLoop]

theorem stripHistory_of_not_prefix {text historyText : Str} (h : ¬ historyText <+: text) :
    stripHistory text historyText = text := by
  rw [stripHistory]
  cases text.length with
  | zero => rfl
  | succ turns => simp [stripHistoryLoop, startsWith_iff, h]

theorem not_prefix_stripHistoryLoop {historyText : Str} (hne : historyText ≠ []) {turns : ℕ}
    {text : Str} (hturns : text.length ≤ turns) :
    ¬ historyText <+: stripHistoryLoop historyText turns text := by
  have hpos := List.length_pos_of_ne_nil hne
  induction turns generalizing text with
  | zero =>
    intro h
    have := h.length_le
    simp only [stripHistoryLoop] at this
    omega
  | succ turns ih =>
    rw [stripHistoryLoop]
    by_cases hpre : historyText ≠ [] ∧ startsWith text historyText
    · rw [if_pos hpre]
      apply ih
      rw [List.length_drop]
      omega
    · rw [if_neg hpre]
      intro h
      exact hpre ⟨hne, startsWith_iff.mpr h⟩

theorem not_prefix_stripHistory {historyText : Str} (hne : historyText ≠ []) (text : Str) :
    ¬ historyText <+: stripHistory text historyText :=
  not_prefix_stripHistoryLoop hne le_rfl

theorem stripHistory_self {historyText : Str} (hne : historyText ≠ []) :
    stripHistory historyText historyText = [] := by
  obtain ⟨turns, hturns⟩ := Nat.exists_eq_succ_of_ne_zero
    (List.length_pos_of_ne_nil hne).ne'
  have hstarts : startsWith historyText historyText = true :=
    startsWith_iff.mpr (List.prefix_refl historyText)
  rw [stripHistory, hturns, stripHistoryLoop, if_pos ⟨hne, hstarts⟩, List.drop_length]
  cases turns with
  | zero => rfl
  | succ turns => simp [stripHistoryLoop, startsWith_iff, hne]

theorem length_lt_flatten {history : List Str} (hne : ∀ h ∈ history, h ≠ [])
    (hmany : 2 ≤ history.length) {message : Str} (hmessage : message ∈ history) :
    message.length < history.flatten.length := by
  obtain ⟨before, after, rfl⟩ := List.append_of_mem hmessage
  simp only [List.flatten_append, List.flatten_cons, List.length_append]
  cases before with
  | cons other before =>
    have := List.length_pos_of_ne_nil (hne other (by simp))
    simp only [List.flatten_cons, List.length_append]
    omega
  | nil =>
    cases after with
    | cons other after =>
      have := List.length_pos_of_ne_nil (hne other (by simp))
      simp only [List.flatten_cons, List.length_append]
      omega
    | nil => simp at hmany

theorem assistantHistoryText_eq (messages : List Message) :
    assistantHistoryText messages = (assistantHistoryMessages messages).flatten := by
  induction messages with
  | nil => rfl
  | cons message messages ih =>
    simp only [assistantHistoryText, assistantHistoryMessages] at ih ⊢
    rw [List.map_cons, List.flatten_cons, ih, List.filter_cons]
    by_cases hrole : message.role = assistantRole.toList
    · by_cases hcontent : message.content = []
      · simp [hcontent]
      · simp [hrole, hcontent]
    · simp [hrole]

theorem assistantHistoryMessages_ne_nil (messages : List Message) :
    ∀ h ∈ assistantHistoryMessages messages, h ≠ [] := by
  intro h hmem
  obtain ⟨message, hmessage, rfl⟩ := List.mem_map.mp hmem
  have hkept := (List.mem_filter.mp hmessage).2
  simp only [decide_eq_true_eq] at hkept
  exact hkept.2

end Strip

section Events

/-- The message an event carries, by itself or under its `v`. -/
inductive Carries (message : Fields) : Fields → Prop
  | plain {event : Fields} : get event "message" = some (.obj message) → get event "v" = none →
      isText (get event "p") partsPath = false → Carries message event
  | value {event fields : Fields} : get event "message" = none → get event "v" = some (.obj fields) →
      get fields "message" = some (.obj message) → isText (get event "p") partsPath = false →
      Carries message event

/-- An event that carries a complete assistant message. -/
structure IsMessage (event : Fields) (text : Str) (message : Fields) : Prop where
  carries : Carries message event
  role : ∃ role, roleOf message = .ok role ∧ isText role assistantRole = true
  text_eq : assistantMessageText message = .ok text

/-- A patch that appends a text. -/
structure IsAppend (event : Fields) (text : Str) : Prop where
  no_message : get event "message" = none
  path : isText (get event "p") partsPath = true
  op : isText (get event "o") "append" = true
  value : get event "v" = some (.str text)

/-- The short form of a patch that appends a text. -/
structure IsShort (event : Fields) (text : Str) : Prop where
  no_message : get event "message" = none
  path : isTrue (get event "p") = false
  op : isTrue (get event "o") = false
  value : get event "v" = some (.str text)

variable {render : Json → Str} {historyText : Str} {event message : Fields} {text current : Str}

theorem candidates_of_text (h : get event "v" = some (.str text)) : candidates event = [event] := by
  simp [candidates, h]

theorem isAssistant_of_isText {role : Option Json} (h : isText role assistantRole = true) :
    isAssistant role = true := by
  cases role with
  | none => cases h
  | some role =>
    cases role with
    | str s =>
      have hs : s = assistantRole.toList := by simpa [isText] using h
      rw [hs]
      decide +kernel
    | _ => cases h

theorem IsMessage.firstAssistantText_eq (h : IsMessage event text message) :
    firstAssistantText (candidates event) = .ok text := by
  obtain ⟨hcarries, ⟨role, hrole, hassistant⟩, htext⟩ := h
  have hrole' := isAssistant_of_isText hassistant
  cases hcarries with
  | plain hmessage hv _ =>
    by_cases hempty : text = [] <;>
      simp [candidates, hv, firstAssistantText, hmessage, hrole, htext, hrole', hempty, bind,
        Except.bind, pure, Except.pure]
  | value hnone hv hmessage _ =>
    by_cases hempty : text = [] <;>
      simp [candidates, hv, firstAssistantText, hnone, hmessage, hrole, htext, hrole', hempty,
        bind, Except.bind, pure, Except.pure]

theorem IsMessage.eventAssistantText_eq (h : IsMessage event text message) :
    eventAssistantText historyText event = .ok (stripHistory text historyText) := by
  obtain ⟨hcarries, ⟨role, hrole, hassistant⟩, htext⟩ := h
  cases hcarries with
  | plain hmessage hv _ =>
    simp [eventAssistantText, candidates, hv, firstReplayedText, hmessage, hrole, htext,
      hassistant, bind, Except.bind, pure, Except.pure]
  | value hnone hv hmessage _ =>
    simp [eventAssistantText, candidates, hv, firstReplayedText, hnone, hmessage, hrole, htext,
      hassistant, bind, Except.bind, pure, Except.pure]

theorem applyOperations_eq (event : Fields) (current : Str) :
    applyOperations render historyText event current =
      match get event "v" with
      | some (.arr operations) => applyAll render historyText operations current
      | _ => current := by
  induction event with
  | nil => rfl
  | cons field event ih =>
    obtain ⟨key, value⟩ := field
    have hget : get ((key, value) :: event) "v" =
        if key = "v".toList then some value else get event "v" := by
      rw [Json.get, List.lookup_cons]
      by_cases hkey : key = "v".toList
      · rw [if_pos hkey, hkey, beq_self_eq_true]
      · rw [if_neg hkey, beq_false_of_ne (Ne.symm hkey)]
        rfl
    by_cases hkey : key = "v".toList
    · rw [hget, if_pos hkey]
      cases value <;> simp only [applyOperations, if_pos hkey]
    · rw [hget, if_neg hkey]
      cases value <;> simp only [applyOperations, if_neg hkey, ih]

theorem Carries.applyTextPatch_eq (h : Carries message event) (current : Str) :
    applyTextPatch render historyText (.obj event) current = current := by
  cases h with
  | plain _ hv hpath => simp [applyTextPatch, hpath, hv, applyOperations_eq]
  | value _ hv _ hpath => simp [applyTextPatch, hpath, hv, applyOperations_eq]

theorem IsMessage.assistantRawText_eq (h : IsMessage event text message) (current : Str) :
    assistantRawText render historyText event current =
      .ok (if text ≠ [] then stripHistory text historyText else current) := by
  rw [assistantRawText, h.firstAssistantText_eq]
  by_cases hempty : text = []
  · simp [hempty, h.carries.applyTextPatch_eq, bind, Except.bind, pure, Except.pure]
  · simp [hempty, bind, Except.bind, pure, Except.pure]

theorem firstAssistantText_of_none (h : get event "message" = none) :
    firstAssistantText [event] = .ok [] := by
  simp [firstAssistantText, h, pure, Except.pure]

theorem eventAssistantText_of_none (hvalue : get event "v" = some (.str text))
    (h : get event "message" = none) : eventAssistantText historyText event = .ok [] := by
  simp [eventAssistantText, candidates_of_text hvalue, firstReplayedText, h, pure, Except.pure]

theorem IsAppend.assistantRawText_eq (h : IsAppend event text) (current : Str) :
    assistantRawText render historyText event current = .ok (current ++ text) := by
  obtain ⟨hmessage, hpath, hop, hvalue⟩ := h
  have htext : textOf render (get event "v") = text := by
    by_cases hempty : text = [] <;> simp [textOf, hvalue, Json.isTrue, truthy, hempty]
  rw [assistantRawText, candidates_of_text hvalue, firstAssistantText_of_none hmessage]
  simp [applyTextPatch, hpath, applyPatchOp, hop, htext, bind, Except.bind, pure, Except.pure]

theorem isText_of_not_isTrue {value : Option Json} {s : String} (h : isTrue value = false)
    (hs : s.toList ≠ []) : isText value s = false := by
  cases value with
  | none => rfl
  | some value =>
    cases value with
    | str t =>
      have ht : t = [] := by simpa [Json.isTrue, truthy] using h
      rw [isText, ht]
      exact beq_false_of_ne (Ne.symm hs)
    | _ => rfl

theorem IsShort.assistantRawText_eq (h : IsShort event text) (hcurrent : current ≠ []) :
    assistantRawText render historyText event current = .ok (current ++ text) := by
  obtain ⟨hmessage, hpath, hop, hvalue⟩ := h
  have hnot : isText (get event "p") partsPath = false :=
    isText_of_not_isTrue hpath (by decide)
  rw [assistantRawText, candidates_of_text hvalue, firstAssistantText_of_none hmessage]
  simp [applyTextPatch, hnot, hvalue, hcurrent, hpath, hop, bind, Except.bind, pure, Except.pure]

end Events

section Replays

variable (loads : Str → Option Json)

/-- A payload that carries an event. -/
def Reads (payload : Str) (event : Fields) : Prop :=
  payload ≠ [] ∧ payload ≠ "[DONE]".toList ∧ loads payload = some (.obj event)

/-- The payloads of the messages of the history, in order. -/
def Replays (payloads history : List Str) : Prop :=
  List.Forall₂ (fun payload text ↦ ∃ event message, Reads loads payload event ∧
    IsMessage event text message) payloads history

/-- Payloads that say a text, from what is said already: complete messages that go on from one
another, and patches. With each payload the text it brings; `ok` is what the messages meet. -/
inductive Says (ok : Str → Prop) : Str → List Str → List Str → Prop
  | nil {text : Str} : Says ok text [] []
  | message {text next payload : Str} {event message : Fields} {payloads texts : List Str} :
      Reads loads payload event → IsMessage event next message → ok next → text <+: next →
      Says ok next payloads texts → Says ok text (payload :: payloads) (next :: texts)
  | append {text delta payload : Str} {event : Fields} {payloads texts : List Str} :
      Reads loads payload event → IsAppend event delta →
      Says ok (text ++ delta) payloads texts →
      Says ok text (payload :: payloads) ((text ++ delta) :: texts)
  | short {text delta payload : Str} {event : Fields} {payloads texts : List Str} :
      Reads loads payload event → IsShort event delta → text ≠ [] →
      Says ok (text ++ delta) payloads texts →
      Says ok text (payload :: payloads) ((text ++ delta) :: texts)

variable {loads} {render : Json → Str} {historyText : Str} {history : List Str}

theorem Says.grows {ok : Str → Prop} {text : Str} {payloads texts : List Str}
    (h : Says loads ok text payloads texts) : (text :: texts).IsChain (· <+: ·) := by
  induction h with
  | nil => exact List.isChain_singleton _
  | message _ _ _ hpre _ ih => exact List.isChain_cons_cons.mpr ⟨hpre, ih⟩
  | append _ _ _ ih => exact List.isChain_cons_cons.mpr ⟨List.prefix_append _ _, ih⟩
  | short _ _ _ _ ih => exact List.isChain_cons_cons.mpr ⟨List.prefix_append _ _, ih⟩

/-- A message of the history that no text of the upstream can be taken for. -/
def Unmatched (historyText : Str) (history : List Str) : Prop :=
  ∀ message ∈ history.head?, message ≠ [] ∧ ∀ text, stripHistory text historyText ≠ message

theorem iterPayloads_reads {payload : Str} {event : Fields} (h : Reads loads payload event)
    {payloads : List Str} {state : ConversationState} {t : Turn}
    (ht : turn render historyText event state history = .ok t) :
    iterPayloads render historyText loads (payload :: payloads) state history =
      t.events.map .ok ++ iterPayloads render historyText loads payloads t.state t.history := by
  obtain ⟨hempty, hdone, hloads⟩ := h
  rw [iterPayloads, if_neg hempty, if_neg hdone]
  simp only [hloads, ht]

/-- A payload that brings a text and is not replayed. -/
theorem emitted_cons {payload next : Str} {event : Fields} (h : Reads loads payload event)
    {payloads : List Str} {state : ConversationState}
    (hreplayed : NotReplayed historyText event history)
    (hnext : assistantRawText render historyText event state.rawText = .ok next) :
    emittedText (iterPayloads render historyText loads (payload :: payloads) state history) =
      increment state.text (sanitizeOutputText next) ++
        emittedText (iterPayloads render historyText loads payloads
          { text := sanitizeOutputText next, rawText := next } history) := by
  obtain ⟨t, ht, hstate, hhistory, hemitted⟩ := turn_eq hreplayed hnext
  rw [iterPayloads_reads h ht, emittedText_append, hemitted, hstate, hhistory]

theorem Unmatched.message (hunmatched : Unmatched historyText history) {event message : Fields}
    {text : Str} (h : IsMessage event text message) : NotReplayed historyText event history := by
  intro replayed hmem
  exact ⟨_, h.eventAssistantText_eq, (hunmatched replayed hmem).2 text⟩

theorem Unmatched.patch (hunmatched : Unmatched historyText history) {event : Fields} {text : Str}
    (hmessage : get event "message" = none) (hvalue : get event "v" = some (.str text)) :
    NotReplayed historyText event history := by
  intro replayed hmem
  exact ⟨[], eventAssistantText_of_none hvalue hmessage, (hunmatched replayed hmem).1.symm⟩

/-- An answer whose messages do not start with the whole history is emitted as if there were
none. -/
theorem Says.emitted (hunmatched : Unmatched historyText history) {payloads texts rest : List Str}
    {state : ConversationState}
    (h : Says loads (fun text ↦ stripHistory text historyText = text) state.rawText payloads
      texts) :
    ∃ state', emittedText (iterPayloads render historyText loads (payloads ++ rest) state history) =
      increments state.text (texts.map sanitizeOutputText) ++
        emittedText (iterPayloads render historyText loads rest state' history) := by
  generalize hraw : state.rawText = text at h
  induction h generalizing state with
  | nil => exact ⟨state, rfl⟩
  | @message text next payload event message payloads texts hreads hmessage hok hpre hsays ih =>
    have hnext : assistantRawText render historyText event state.rawText = .ok next := by
      rw [hmessage.assistantRawText_eq, hok]
      by_cases hempty : next = []
      · have htext : text = [] := List.prefix_nil.mp (hempty ▸ hpre)
        rw [if_neg (not_not_intro hempty), hraw, htext, hempty]
      · rw [if_pos hempty]
    obtain ⟨state', hrest⟩ := @ih { text := sanitizeOutputText next, rawText := next } rfl
    refine ⟨state', ?_⟩
    rw [List.cons_append, emitted_cons hreads (hunmatched.message hmessage) hnext, hrest,
      List.map_cons, increments_cons, List.append_assoc]
  | @append text delta payload event payloads texts hreads happend hsays ih =>
    subst hraw
    have hnext := @IsAppend.assistantRawText_eq render historyText event delta happend state.rawText
    obtain ⟨state', hrest⟩ := @ih
      { text := sanitizeOutputText (state.rawText ++ delta), rawText := state.rawText ++ delta } rfl
    refine ⟨state', ?_⟩
    rw [List.cons_append, emitted_cons hreads (hunmatched.patch happend.no_message happend.value)
      hnext, hrest, List.map_cons, increments_cons, List.append_assoc]
  | @short text delta payload event payloads texts hreads hshort htext hsays ih =>
    subst hraw
    have hnext := @IsShort.assistantRawText_eq render historyText event delta state.rawText hshort
      htext
    obtain ⟨state', hrest⟩ := @ih
      { text := sanitizeOutputText (state.rawText ++ delta), rawText := state.rawText ++ delta } rfl
    refine ⟨state', ?_⟩
    rw [List.cons_append, emitted_cons hreads (hunmatched.patch hshort.no_message hshort.value)
      hnext, hrest, List.map_cons, increments_cons, List.append_assoc]

/-- The messages of the history are skipped one after the other. -/
theorem Replays.skipped {payloads rest : List Str} (h : Replays loads payloads history)
    (hkept : ∀ message ∈ history, stripHistory message historyText = message) :
    ∀ state : ConversationState, history ≠ [] ∨ state = {} →
      iterPayloads render historyText loads (payloads ++ rest) state history =
        iterPayloads render historyText loads rest {} [] := by
  induction h with
  | nil =>
    intro state hstate
    rw [hstate.resolve_left (by simp)]
    rfl
  | @cons payload message payloads history hpayload _ ih =>
    intro state _
    obtain ⟨event, carried, hreads, hmessage⟩ := hpayload
    have hreplayed := @IsMessage.eventAssistantText_eq historyText event carried message hmessage
    rw [hkept message List.mem_cons_self] at hreplayed
    have hturn : turn render historyText event state (message :: history) =
        .ok { state := {}, history := history } := by
      simp [turn, hreplayed, bind, Except.bind, pure, Except.pure]
    rw [List.cons_append, iterPayloads_reads hreads hturn]
    exact ih (fun m hm ↦ hkept m (List.mem_cons_of_mem message hm)) {} (.inr rfl)

/-- A single message of the history is not skipped, and shows nothing. -/
theorem Replays.single {message : Str} (hne : message ≠ []) {payloads rest : List Str}
    (h : Replays loads payloads [message]) :
    emittedText (iterPayloads render message loads (payloads ++ rest) {} [message]) =
      emittedText (iterPayloads render message loads rest {} [message]) := by
  cases h with
  | @cons payload _ payloads _ hpayload hnil =>
    cases hnil
    obtain ⟨event, carried, hreads, hmessage⟩ := hpayload
    have hreplayed : NotReplayed message event [message] := by
      intro replayed hmem
      cases hmem
      refine ⟨_, hmessage.eventAssistantText_eq, ?_⟩
      rw [stripHistory_self hne]
      exact hne.symm
    have hnext := @IsMessage.assistantRawText_eq render message event carried message hmessage []
    rw [if_pos hne, stripHistory_self hne] at hnext
    rw [List.cons_append, List.nil_append, emitted_cons hreads hreplayed hnext]
    rfl

theorem Says.mono {ok ok' : Str → Prop} (himp : ∀ text, ok text → ok' text) {text : Str}
    {payloads texts : List Str} (h : Says loads ok text payloads texts) :
    Says loads ok' text payloads texts := by
  induction h with
  | nil => exact .nil
  | message hreads hmessage hok hpre _ ih =>
    exact .message hreads hmessage (himp _ hok) hpre ih
  | append hreads happend _ ih => exact .append hreads happend ih
  | short hreads hshort htext _ ih => exact .short hreads hshort htext ih

/-- After the history was replayed, an answer whose messages do not start with the whole of it is
emitted as if there were none. -/
theorem replayed_emitted (hne : ∀ message ∈ history, message ≠ []) {replays answer texts : List Str}
    (hreplays : Replays loads replays history)
    (hanswer : Says loads (fun text ↦ history = [] ∨ ¬ history.flatten <+: text) [] answer texts) :
    emittedText (iterPayloads render history.flatten loads
        (replays ++ (answer ++ ["[DONE]".toList])) {} history) =
      increments [] (texts.map sanitizeOutputText) := by
  have hsays : Says loads (fun text ↦ stripHistory text history.flatten = text) [] answer texts := by
    refine hanswer.mono fun text hok ↦ ?_
    rcases hok with hnil | hpre
    · rw [hnil]
      exact stripHistory_nil text
    · exact stripHistory_of_not_prefix hpre
  have hemitted {remaining : List Str} (hunmatched : Unmatched history.flatten remaining) :
      emittedText (iterPayloads render history.flatten loads (answer ++ ["[DONE]".toList]) {}
        remaining) = increments [] (texts.map sanitizeOutputText) := by
    obtain ⟨state', h⟩ := @Says.emitted loads render history.flatten remaining hunmatched answer
      texts ["[DONE]".toList] {} hsays
    rw [h]
    exact List.append_nil _
  by_cases hsingle : ∃ message, history = [message]
  · obtain ⟨message, rfl⟩ := hsingle
    have hmessage := hne message List.mem_cons_self
    rw [List.flatten_singleton] at hemitted ⊢
    rw [hreplays.single hmessage]
    apply hemitted
    intro replayed hmem
    cases hmem
    refine ⟨hmessage, fun text heq ↦ not_prefix_stripHistory hmessage text ?_⟩
    rw [heq]
  · rw [hreplays.skipped (fun message hmem ↦ ?_) {} (.inr rfl)]
    · exact hemitted (by simp [Unmatched])
    · have hmany : 2 ≤ history.length := by
        match history, hmem, hsingle with
        | [other], _, hsingle => exact absurd ⟨other, rfl⟩ hsingle
        | _ :: _ :: _, _, _ => simp
      apply stripHistory_of_not_prefix
      intro hpre
      exact absurd hpre.length_le (length_lt_flatten hne hmany hmem).not_ge

/-- Where no message of the answer starts with the whole history, the answer is emitted whole
after the history was replayed, exactly when no payload brings punctuation after a blank that was
shown. -/
theorem answer_emitted_iff {messages : List Message} {replays answer texts : List Str}
    (hreplays : Replays loads replays (assistantHistoryMessages messages))
    (hanswer : Says loads (fun text ↦ assistantHistoryMessages messages = [] ∨
      ¬ assistantHistoryText messages <+: text) [] answer texts) :
    emittedText (iterConversationPayloads render (assistantHistoryText messages) loads
        (replays ++ (answer ++ ["[DONE]".toList])) (assistantHistoryMessages messages)) =
        sanitizeOutputText (texts.getLastD []) ↔
      ([] :: texts).IsChain fun raw next ↦
        blankBeforePunctuation (visibleText raw) (visibleText next) = false := by
  rw [assistantHistoryText_eq] at hanswer ⊢
  rw [iterConversationPayloads,
    replayed_emitted (assistantHistoryMessages_ne_nil messages) hreplays hanswer]
  exact increments_eq_iff hanswer.grows

end Replays

section Conversations

def messageOf (text : String) : Fields :=
  [("author".toList, .obj [("role".toList, .str assistantRole.toList)]),
    ("content".toList, .obj [("parts".toList, .arr [.str text.toList])])]

def messageEvent (text : String) : Fields := [("message".toList, .obj (messageOf text))]

/-- The payload of a complete assistant message without anything to escape. -/
def messagePayload (text : String) : Str :=
  ("\x7b\"message\": \x7b\"author\": \x7b\"role\": \"assistant\"\x7d, " ++
    "\"content\": \x7b\"parts\": [\"" ++ text ++ "\"]\x7d\x7d\x7d").toList

/-- Reads the payloads of these messages. -/
def readMessages (texts : List String) (payload : Str) : Option Json :=
  (texts.find? fun text ↦ messagePayload text = payload).map fun text ↦ .obj (messageEvent text)

theorem isMessage_messageEvent (text : String) :
    IsMessage (messageEvent text) text.toList (messageOf text) where
  carries := .plain rfl rfl rfl
  role := ⟨some (.str assistantRole.toList), rfl, rfl⟩
  text_eq := by
    change Except.ok [text.toList].flatten = _
    rw [List.flatten_singleton]

theorem reads_message {texts : List String} {text : String}
    (h : (texts.find? fun other ↦ messagePayload other = messagePayload text) = some text) :
    Reads (readMessages texts) (messagePayload text) (messageEvent text) := by
  refine ⟨?_, ?_, ?_⟩
  · simp [messagePayload]
  · simp [messagePayload]
  · rw [readMessages, h]
    rfl

theorem well_emitted :
    emittedText (iterConversationPayloads (fun _ ↦ []) "Hi".toList (readMessages ["Hi", "Well"])
      [messagePayload "Hi", messagePayload "Well", "[DONE]".toList] ["Hi".toList]) =
    sanitizeOutputText "Well".toList := by
  have hhi : Reads (readMessages ["Hi", "Well"]) (messagePayload "Hi") (messageEvent "Hi") :=
    reads_message (by decide +kernel)
  have hwell : Reads (readMessages ["Hi", "Well"]) (messagePayload "Well") (messageEvent "Well") :=
    reads_message (by decide +kernel)
  have hreplays : Replays (readMessages ["Hi", "Well"]) [messagePayload "Hi"]
      (assistantHistoryMessages [⟨assistantRole.toList, "Hi".toList⟩]) :=
    .cons ⟨_, _, hhi, isMessage_messageEvent "Hi"⟩ .nil
  exact (@answer_emitted_iff _ (fun _ ↦ []) _ _ _ _ hreplays
    (.message hwell (isMessage_messageEvent "Well") (.inr (by decide +kernel)) (by decide +kernel)
      .nil)).mpr (by decide +kernel)

/-- An answer that equals the only assistant message before it is not emitted at all. -/
theorem repeated_not_emitted : ¬∀ (render : Json → Str) (loads : Str → Option Json)
    (messages : List Message) (replays answer texts : List Str),
    Replays loads replays (assistantHistoryMessages messages) →
      Says loads (fun _ ↦ True) [] answer texts →
      emittedText (iterConversationPayloads render (assistantHistoryText messages) loads
        (replays ++ (answer ++ ["[DONE]".toList])) (assistantHistoryMessages messages)) =
        sanitizeOutputText (texts.getLastD []) := by
  intro h
  have hhi : Reads (readMessages ["Hi"]) (messagePayload "Hi") (messageEvent "Hi") :=
    reads_message (by decide +kernel)
  have hemitted := h (fun _ ↦ []) (readMessages ["Hi"]) [⟨assistantRole.toList, "Hi".toList⟩]
    [messagePayload "Hi"] [messagePayload "Hi"] ["Hi".toList]
    (.cons ⟨_, _, hhi, isMessage_messageEvent "Hi"⟩ .nil)
    (.message hhi (isMessage_messageEvent "Hi") trivial List.nil_prefix .nil)
  revert hemitted
  decide +kernel

end Conversations

end AllAiTools.ChatGpt2Api.Protocol.ReplayedHistory
