import AllAiTools.ChatGpt2Api.Json

namespace AllAiTools.ChatGpt2Api.Protocol.Conversation

open Text Json

section Sanitize

def isInternalAnnotationPart (part : Str) : Bool :=
  let value := lower (strip part)
  value = [] || startsWith value "turn".toList || startsWith value "source".toList

def readableAnnotationPart (parts : List Str) : Str :=
  ((parts.map strip).find? fun value ↦ value ≠ [] && !isInternalAnnotationPart value).getD []

/-- The text of a rich annotation, by what stands between its markers. -/
def replaceAnnotation (payload : Str) : Str :=
  let parts := (payload.splitOn '\ue202').map strip
  let kind := lower (parts.headD [])
  let data := parts.tail
  if kind = "url".toList then
    let label := data.headD []
    let url := data.tail.headD []
    if label ≠ [] ∧ (startsWith url "http://".toList ∨ startsWith url "https://".toList) then
      label ++ " (".toList ++ url ++ ")".toList
    else if label ≠ [] then label else url
  else readableAnnotationPart data

/-- Replaces the closed annotations from the left; the payload of one that is open is kept. -/
def replaceAnnotations : Option Str → Str → Str
  | none, [] => []
  | none, c :: text =>
    if c = '\ue200' then replaceAnnotations (some []) text else c :: replaceAnnotations none text
  | some payload, [] => '\ue200' :: payload
  | some payload, c :: text =>
    if c = '\ue201' then replaceAnnotation payload ++ replaceAnnotations none text
    else replaceAnnotations (some (payload ++ [c])) text

/-- Drops an annotation that is never closed, with all that follows. -/
def dropUnclosed : Str → Str
  | [] => []
  | c :: text => if c = '\ue200' ∧ '\ue201' ∉ text then [] else c :: dropUnclosed text

def isPunctuation (c : Char) : Bool := c ∈ ['.', ',', ';', ':', '!', '?']

/-- Drops white space before punctuation. The blanks read last are held back. -/
def dropBlanks : Str → Str → Str
  | blanks, [] => blanks
  | blanks, c :: text =>
    if isSpace c then dropBlanks (blanks ++ [c]) text
    else if isPunctuation c then c :: dropBlanks [] text
    else blanks ++ c :: dropBlanks [] text

/-- The text without its annotations. -/
def visibleText (text : Str) : Str := dropUnclosed (replaceAnnotations none text)

def sanitizeOutputText (text : Str) : Str := dropBlanks [] (visibleText text)

end Sanitize

section Patches

/-- `while` the text starts with the history, within as many turns as the text has characters. -/
def stripHistoryLoop (historyText : Str) : ℕ → Str → Str
  | 0, text => text
  | turns + 1, text =>
    if historyText ≠ [] ∧ startsWith text historyText then
      stripHistoryLoop historyText turns (text.drop historyText.length)
    else text

def stripHistory (text historyText : Str) : Str := stripHistoryLoop historyText text.length text

-- `render` is `str` of a value that is no text.
variable (render : Json → Str) (historyText : Str)

/-- `str(value or "")`. -/
def textOf (value : Option Json) : Str :=
  if isTrue value then
    match value with
    | some (.str s) => s
    | some other => render other
    | none => []
  else []

def partsPath : String := "/message/content/parts/0"

def applyPatchOp (operation : Fields) (currentText : Str) : Str :=
  let value := textOf render (get operation "v")
  if isText (get operation "o") "append" then currentText ++ value
  else if isText (get operation "o") "replace" then stripHistory value historyText
  else currentText

mutual

/-- A patch that is no dictionary is skipped. -/
def applyTextPatch : Json → Str → Str
  | .obj event, currentText =>
    if isText (get event "p") partsPath then applyPatchOp render historyText event currentText
    else match get event "v" with
      | some (.str operations) =>
        if currentText ≠ [] ∧ !isTrue (get event "p") ∧ !isTrue (get event "o") then
          currentText ++ operations
        else currentText
      | _ => applyOperations event currentText
  | _, currentText => currentText

/-- The list of patches among the fields of an event. -/
def applyOperations : Fields → Str → Str
  | [], currentText => currentText
  | (key, .arr operations) :: event, currentText =>
    if key = "v".toList then applyAll operations currentText
    else applyOperations event currentText
  | (key, _) :: event, currentText =>
    if key = "v".toList then currentText else applyOperations event currentText

def applyAll : List Json → Str → Str
  | [], currentText => currentText
  | operation :: operations, currentText =>
    applyAll operations (applyTextPatch operation currentText)

end

end Patches

section Messages

def assistantRole : String := "assistant"

def assistantMessageText (message : Fields) : Except AttributeError Str := do
  let content ← orDict (get message "content")
  if !isTrue (get content "parts") then return []
  match get content "parts" with
  | some (.arr parts) =>
    return (parts.map fun part ↦ match part with | .str s => s | _ => []).flatten
  | _ => return []

/-- An event and the dictionary under its `v`. -/
def candidates (event : Fields) : List Fields :=
  match get event "v" with
  | some (.obj fields) => [event, fields]
  | _ => [event]

def roleOf (message : Fields) : Except AttributeError (Option Json) := do
  let author ← orDict (get message "author")
  return get author "role"

/-- `str(role or "").strip().lower() == "assistant"`. -/
def isAssistant (role : Option Json) : Bool :=
  match role with
  | some (.str s) => lower (strip s) == assistantRole.toList
  | _ => false

/-- The text of the first assistant message that has one. -/
def firstAssistantText : List Fields → Except AttributeError Str
  | [] => return []
  | candidate :: rest =>
    match get candidate "message" with
    | some (.obj message) => do
      if isAssistant (← roleOf message) then
        let text ← assistantMessageText message
        if text ≠ [] then return text else firstAssistantText rest
      else firstAssistantText rest
    | _ => firstAssistantText rest

variable (render : Json → Str) (historyText : Str)

def assistantRawText (event : Fields) (currentText : Str) : Except AttributeError Str := do
  let text ← firstAssistantText (candidates event)
  if text ≠ [] then return stripHistory text historyText
  else return applyTextPatch render historyText (.obj event) currentText

def firstReplayedText : List Fields → Except AttributeError Str
  | [] => return []
  | candidate :: rest =>
    match get candidate "message" with
    | some (.obj message) => do
      if isText (← roleOf message) assistantRole then
        let text ← assistantMessageText message
        return stripHistory text historyText
      else firstReplayedText rest
    | _ => firstReplayedText rest

def eventAssistantText (event : Fields) : Except AttributeError Str :=
  firstReplayedText historyText (candidates event)

end Messages

section Payloads

structure ConversationState where
  text : Str := []
  rawText : Str := []

/-- The events of a conversation, each with the text of the state it is made from. -/
inductive ConversationEvent
  | done (text : Str)
  | raw (text : Str)
  | event (text : Str)
  | delta (text delta : Str)
  deriving DecidableEq

/-- What one payload leaves: the state, how many messages of the history are still to be replayed
and the events it has caused. -/
structure Turn where
  state : ConversationState
  history : List Str
  events : List ConversationEvent := []

variable (render : Json → Str) (historyText : Str)

/-- One event of the upstream. -/
def turn (event : Fields) (state : ConversationState) (history : List Str) :
    Except AttributeError Turn := do
  let replayed ← match history with
    | [] => pure false
    | message :: _ => do pure ((← eventAssistantText historyText event) == message)
  if replayed then return { state := {}, history := history.tail }
  let nextRawText ← assistantRawText render historyText event state.rawText
  let nextText := sanitizeOutputText nextRawText
  if nextText ≠ state.text then
    let delta := if startsWith nextText state.text then nextText.drop state.text.length else nextText
    return { state := { text := nextText, rawText := nextRawText }, history
             events := [.delta nextText delta] }
  return { state := { text := state.text, rawText := nextRawText }, history
           events := [.event state.text] }

variable (loads : Str → Option Json)

/-- The events up to the end or to what the payloads raise. -/
def iterPayloads : List Str → ConversationState → List Str →
    List (Except AttributeError ConversationEvent)
  | [], _, _ => []
  | payload :: payloads, state, history =>
    if payload = [] then iterPayloads payloads state history
    else if payload = "[DONE]".toList then [.ok (.done state.text)]
    else match loads payload with
      | none => .ok (.raw state.text) :: iterPayloads payloads state history
      | some (.obj event) =>
        match turn render historyText event state history with
        | .error e => [.error e]
        | .ok t => t.events.map .ok ++ iterPayloads payloads t.state t.history
      | some _ => .ok (.event state.text) :: iterPayloads payloads state history

def iterConversationPayloads (payloads : List Str) (historyMessages : List Str) :
    List (Except AttributeError ConversationEvent) :=
  iterPayloads render historyText loads payloads {} historyMessages

/-- The deltas a client reads, one after the other. -/
def emittedText (events : List (Except AttributeError ConversationEvent)) : Str :=
  (events.map fun event ↦ match event with | .ok (.delta _ delta) => delta | _ => []).flatten

end Payloads

section History

/-- A message of the conversation as `normalize_messages` leaves it; only texts count here. -/
structure Message where
  role : Str
  content : Str

def assistantHistoryText (messages : List Message) : Str :=
  (messages.map fun item ↦ if item.role = assistantRole.toList then item.content else []).flatten

def assistantHistoryMessages (messages : List Message) : List Str :=
  (messages.filter fun item ↦ item.role = assistantRole.toList ∧ item.content ≠ []).map (·.content)

end History

end AllAiTools.ChatGpt2Api.Protocol.Conversation
