import AllAiTools.ChatGpt2Api.Json
import AllAiTools.ChatGpt2Api.Protocol.Conversation

namespace AllAiTools.ChatGpt2Api.Json

open Text

/-- A field goes before the first one whose key is not less. -/
def insertField (key : Str) (value : Json) : Fields → Fields
  | [] => [(key, value)]
  | field :: fields =>
    if key ≤ field.1 then (key, value) :: field :: fields
    else field :: insertField key value fields

mutual

/-- A value as `json.dumps` writes it with `sort_keys`: the order of its fields does not count. -/
def sorted : Json → Json
  | .arr items => .arr (sortedItems items)
  | .obj fields => .obj (sortedFields fields)
  | .null => .null
  | .bool value => .bool value
  | .num value => .num value
  | .str value => .str value

def sortedItems : List Json → List Json
  | [] => []
  | item :: items => sorted item :: sortedItems items

def sortedFields : Fields → Fields
  | [] => []
  | (key, value) :: fields => insertField key (sorted value) (sortedFields fields)

end

theorem lookup_cons_eq (key other : Str) (value : Json) (fields : Fields) :
    List.lookup other ((key, value) :: fields) =
      if other = key then some value else fields.lookup other := by
  rw [List.lookup_cons]
  by_cases h : other = key
  · simp [h]
  · rw [beq_false_of_ne h, if_neg h]

theorem lookup_insertField (key other : Str) (value : Json) (fields : Fields) :
    (insertField key value fields).lookup other =
      if other = key then some value else fields.lookup other := by
  induction fields with
  | nil => exact lookup_cons_eq key other value []
  | cons field fields ih =>
    rw [insertField]
    by_cases hle : key ≤ field.1
    · rw [if_pos hle, lookup_cons_eq]
    · have hne : key ≠ field.1 := fun h ↦ hle h.le
      rw [if_neg hle, lookup_cons_eq, ih, lookup_cons_eq]
      by_cases h : other = key
      · rw [if_pos h, if_pos h, if_neg (h ▸ hne)]
      · rw [if_neg h, if_neg h]

theorem lookup_sortedFields (key : Str) (fields : Fields) :
    (sortedFields fields).lookup key = (fields.lookup key).map sorted := by
  induction fields with
  | nil => rfl
  | cons field fields ih =>
    obtain ⟨other, value⟩ := field
    rw [sortedFields, lookup_insertField, ih, lookup_cons_eq]
    by_cases h : key = other
    · rw [if_pos h, if_pos h, Option.map_some]
    · rw [if_neg h, if_neg h]

theorem sortedItems_eq_map (items : List Json) : sortedItems items = items.map sorted := by
  induction items with
  | nil => rfl
  | cons item items ih => rw [sortedItems, ih, List.map_cons]

/-- Objects that are the same but for the order of their fields have the same fields. -/
theorem get_of_sorted_eq {fields fields' : Fields} (h : sorted (.obj fields) = sorted (.obj fields'))
    (key : String) : (get fields key).map sorted = (get fields' key).map sorted := by
  have hfields : sortedFields fields = sortedFields fields' := by
    rw [sorted, sorted] at h
    exact Json.obj.inj h
  rw [get, get, ← lookup_sortedFields, ← lookup_sortedFields, hfields]

end AllAiTools.ChatGpt2Api.Json

namespace AllAiTools.ChatGpt2Api.Protocol.TextRequests

open Text Json Conversation

abbrev Bytes := List UInt8

inductive Part
  | text (text : Str)
  | image (data : Bytes) (mime : Str)

inductive Content
  | text (text : Str)
  | parts (parts : List Part)

/-- A message as `normalize_messages` leaves it. -/
structure Message where
  role : Json
  content : Content

structure Settings where
  globalSystemPrompt : Str
  normalizeMessages : Bool
  dropAdjacentDuplicates : Bool
  dropAssistantHistory : Bool

/-- `str` of what is no text, `json.dumps`, and the two uses of `hashlib.sha256`. -/
structure Library where
  render : Json → Str
  dumps : Json → Str
  sha256 : Str → Str
  sha256Bytes : Bytes → Str

inductive Endpoint
  | chatCompletions
  | responses
  deriving DecidableEq

/-- A request as it arrives: its body, the settings it meets, and what the images of its parts are
decoded or downloaded to. -/
structure Request where
  endpoint : Endpoint
  body : Fields
  settings : Settings
  decode : Fields → Option (Bytes × Str)
  model_text : ∀ value, get body "model" = some value → value = .null ∨ ∃ text, value = .str text

variable (lib : Library) (request : Request)

/-- `value or default`. -/
def textOr (value : Option Json) (default : String) : Str :=
  if isTrue value then textOf lib.render value else default.toList

section Messages

def itemText : Json → Str
  | .str text => text
  | .obj item =>
    if textOf lib.render (get item "type") ∈
        ["text".toList, "input_text".toList, "output_text".toList] then
      textOf lib.render (get item "text")
    else []
  | _ => []

def messageText : Option Json → Str
  | some (.str text) => text
  | some (.arr items) => (items.map (itemText lib)).flatten
  | _ => []

def partImage : Json → Option (Bytes × Str)
  | .obj part =>
    if strip (textOf lib.render (get part "type")) ∈
        ["image_url".toList, "input_image".toList, "image".toList] then
      request.decode part
    else none
  | _ => none

def extractImages : Option Json → List (Bytes × Str)
  | some (.arr items) => items.filterMap (partImage lib request)
  | _ => []

def normalizeMessage (message : Fields) : Message :=
  let role := (get message "role").getD (.str "user".toList)
  let text := messageText lib (get message "content")
  let images :=
    if isText (some role) "user" then extractImages lib request (get message "content") else []
  ⟨role,
    if images.isEmpty then .text text
    else .parts ((if text = [] then [] else [.text text]) ++
      images.map fun image ↦ .image image.1 image.2)⟩

def systemMessage (text : Str) : Message := ⟨.str "system".toList, .text text⟩

def normalizeMessages (messages : List Fields) : List Message :=
  (if request.settings.globalSystemPrompt = [] then []
    else [systemMessage request.settings.globalSystemPrompt]) ++
    messages.map (normalizeMessage lib request)

/-- A part in the key: of an image only the digest and the length are written. -/
def partJson : Part → Json
  | .text text => .obj [("type".toList, .str "text".toList), ("text".toList, .str text)]
  | .image data mime =>
    .obj [("type".toList, .str "image".toList),
      ("data".toList, .obj [("__bytes_sha256__".toList, .str (lib.sha256Bytes data)),
        ("length".toList, .num data.length)]),
      ("mime".toList, .str mime)]

def contentJson : Content → Json
  | .text text => .str text
  | .parts parts => .arr (parts.map (partJson lib))

def messageJson (message : Message) : Json :=
  .obj [("role".toList, message.role), ("content".toList, contentJson lib message.content)]

def messageSignature (message : Message) : Str := lib.dumps (sorted (messageJson lib message))

def keepMessages (settings : Settings) : Str → List Message → List Message
  | _, [] => []
  | previous, message :: messages =>
    if settings.dropAssistantHistory ∧
        textOf lib.render (some message.role) = "assistant".toList then
      keepMessages settings previous messages
    else if settings.dropAdjacentDuplicates ∧ messageSignature lib message = previous then
      keepMessages settings previous messages
    else message :: keepMessages settings (messageSignature lib message) messages

def normalizeTextMessages (messages : List Message) : List Message :=
  if request.settings.normalizeMessages then keepMessages lib request.settings [] messages
  else messages

end Messages

section ResponseInput

def responseContentPartTypes : List Str :=
  ["text", "input_text", "output_text", "image_url", "input_image", "image"].map String.toList

def isResponseContentPart : Json → Bool
  | .obj part =>
    let partType := strip (textOf lib.render (get part "type"))
    partType ∈ responseContentPartTypes ||
      ((get part "image_url").isSome && partType ≠ "message".toList)
  | _ => false

/-- `extract_response_prompt([item])` where the content is no text and no list. -/
def itemPrompt (item : Fields) : Str :=
  if strip (textOf lib.render (get item "type")) = "input_text".toList then
    strip (textOf lib.render (get item "text"))
  else []

def itemContent (item : Fields) : Json :=
  match get item "content" with
  | some (.arr parts) => .arr parts
  | some (.str text) => .str text
  | content =>
    if itemPrompt lib item ≠ [] then .str (itemPrompt lib item)
    else if isTrue content then content.getD .null
    else .str []

/-- The message that is appended, if any. -/
def responseMessage (role : Option Json) : Json → List Fields
  | .str text =>
    if strip text = [] then []
    else [[("role".toList, .str (textOr lib role "user")), ("content".toList, .str (strip text))]]
  | .arr (part :: parts) =>
    [[("role".toList, .str (textOr lib role "user")), ("content".toList, .arr (part :: parts))]]
  | _ => []

def itemMessage : Json → List Fields
  | .obj item => responseMessage lib (get item "role") (itemContent lib item)
  | _ => []

/-- Parts that follow each other make one message. -/
def inputMessages : List Json → List Json → List Fields
  | pending, [] => responseMessage lib none (.arr pending)
  | pending, item :: items =>
    if isResponseContentPart lib item then inputMessages (pending ++ [item]) items
    else responseMessage lib none (.arr pending) ++ itemMessage lib item ++ inputMessages [] items

def instructionsText (body : Fields) : Str := strip (textOf lib.render (get body "instructions"))

def messagesFromInput (body : Fields) : List Fields :=
  (if instructionsText lib body = [] then []
    else [[("role".toList, .str "system".toList),
      ("content".toList, .str (instructionsText lib body))]]) ++
    match get body "input" with
    | some (.str text) => responseMessage lib none (.str text)
    | some (.obj item) =>
      if isResponseContentPart lib (.obj item) then responseMessage lib none (.arr [.obj item])
      else itemMessage lib (.obj item)
    | some (.arr items) => inputMessages lib [] items
    | _ => []

end ResponseInput

section Parts

def toolUnavailableSystemMessage : String :=
  "This compatibility backend cannot execute local tools, shell commands, web searches, " ++
  "or file operations. Do not claim to have run tools or inspected external resources. " ++
  "If a user asks you to use a tool, say that tool execution is unavailable through this backend."

def baseImageModels : List Str := ["gpt-image-2".toList, "codex-gpt-image-2".toList]

def prefixedImageModels : List Str :=
  ["plus-codex-gpt-image-2", "team-codex-gpt-image-2", "pro-codex-gpt-image-2"].map String.toList

def isSupportedImageModel (model : Str) : Bool :=
  lower (strip model) ∈ baseImageModels ++ prefixedImageModels

def isImageChatRequest (body : Fields) : Bool :=
  isSupportedImageModel (strip (textOf lib.render (get body "model"))) ||
    match get body "modalities" with
    | some (.arr modalities) =>
      modalities.any fun item ↦ lower (strip (textOf lib.render (some item))) = "image".toList
    | _ => false

def hasType (tool : Json) (type : String) : Bool :=
  match tool with
  | .obj tool => strip (textOf lib.render (get tool "type")) = type.toList
  | _ => false

def isDict : Json → Bool
  | .obj _ => true
  | _ => false

def toolsOf (body : Fields) : List Json :=
  match get body "tools" with
  | some (.arr tools) => tools
  | _ => []

def hasResponseImageGenerationTool (body : Fields) : Bool :=
  (toolsOf body).any (hasType lib · "image_generation") ||
    (get body "tool_choice").any (hasType lib · "image_generation")

def hasNonImageTools (body : Fields) : Bool :=
  (toolsOf body).any fun tool ↦ isDict tool && !hasType lib tool "image_generation"

def modelOf (body : Fields) : Str :=
  let model := strip (textOr lib (get body "model") "auto")
  if model = [] then "auto".toList else model

def dicts (items : List Json) : List Fields :=
  items.filterMap fun item ↦ match item with | .obj fields => some fields | _ => none

/-- `none` where a bad request is raised. -/
def chatMessagesFromBody (body : Fields) : Option (List Fields) :=
  match get body "messages" with
  | some (.arr (message :: messages)) => some (dicts (message :: messages))
  | _ =>
    let prompt := strip (textOf lib.render (get body "prompt"))
    if prompt = [] then none
    else some [[("role".toList, .str "user".toList), ("content".toList, .str prompt)]]

def withNotice (tools : Bool) (messages : List Message) : List Message :=
  if tools then systemMessage toolUnavailableSystemMessage.toList :: messages else messages

def textChatParts : Option (List Message) :=
  (chatMessagesFromBody lib request.body).map fun messages ↦
    withNotice (!(toolsOf request.body).isEmpty)
      (normalizeTextMessages lib request (normalizeMessages lib request messages))

def textResponseParts : List Message :=
  withNotice (hasNonImageTools lib request.body)
    (normalizeTextMessages lib request
      (normalizeMessages lib request (messagesFromInput lib request.body)))

/-- The messages of a request that is answered through the cache. -/
def cachedMessages : Option (List Message) :=
  match request.endpoint with
  | .chatCompletions =>
    if isImageChatRequest lib request.body then none else textChatParts lib request
  | .responses =>
    if hasResponseImageGenerationTool lib request.body then none
    else some (textResponseParts lib request)

end Parts

section Key

def cacheableTextKeys : List String :=
  ["frequency_penalty", "max_completion_tokens", "max_tokens", "metadata", "model",
    "presence_penalty", "reasoning_effort", "response_format", "seed", "stop", "temperature",
    "tool_choice", "tools", "top_p", "user"]

def streams : Bool := isTrue (get request.body "stream")

def canonicalBody (messages : List Message) : Fields :=
  (cacheableTextKeys.filterMap fun key ↦
    (get request.body key).map fun value ↦ (key.toList, value)) ++
    [("messages".toList, .arr (messages.map (messageJson lib))),
      ("stream".toList, .bool (streams request))]

def cacheKey (messages : List Message) : Str :=
  lib.sha256 (lib.dumps (sorted (.obj (canonicalBody lib request messages))))

end Key

end AllAiTools.ChatGpt2Api.Protocol.TextRequests
