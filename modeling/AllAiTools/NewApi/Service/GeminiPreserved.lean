import AllAiTools.Foundation.Linking
import AllAiTools.Foundation.Pieces
import AllAiTools.Foundation.Result
import AllAiTools.NewApi.Service.ConvertGemini

namespace AllAiTools.NewApi.Service.GeminiPreserved

open Foundation Linking Pieces Result Dto.OpenAIRequest ConvertGemini
open ConvertClaude (dataUrl)

variable {J : Type} (toJSONString : Option J → String)

section Statement

inductive Item where
  | text (s : String)
  | image (url mimeType : String)
  | call (name arguments : String)
  deriving DecidableEq

def Item.isCall : Item → Bool
  | .call _ _ => true
  | _ => false

/-- All that a part carries, a response apart. -/
def partItems (part : GeminiPart J) : List Item :=
  (if part.text ≠ "" then [.text part.text] else []) ++
  (part.inlineData.map fun d ↦ .image (dataUrl d.mimeType d.data) d.mimeType).toList ++
  (part.fileData.map fun d ↦ .image d.fileUri d.mimeType).toList ++
  (part.functionCall.map fun c ↦ .call c.functionName (toJSONString c.arguments)).toList

/-- The call or the response of a part; beside anything else a response is none. -/
def partStep (part : GeminiPart J) : Option (Step String) :=
  match part.functionCall with
  | some functionCall => some (.call functionCall.functionName)
  | none =>
    if partItems toJSONString part = [] then
      part.functionResponse.map fun response ↦ .response response.name
    else none

def contentSteps (content : GeminiChatContent J) : List (Step String) :=
  content.parts.filterMap (partStep toJSONString)

def mediaItem (media : MediaContent) : Item :=
  match media.imageUrl with
  | none => .text media.text
  | some image => .image image.url image.mimeType

def messageMedia (m : Message J) : List Item :=
  if m.role = "tool" then [] else m.parseContent.map mediaItem

def messageCalls (m : Message J) : List Item :=
  m.toolCalls.map fun call ↦ .call call.function.name call.function.arguments

def messageCallIds (m : Message J) : List String := m.toolCalls.map (·.id)

def messageResponseIds (m : Message J) : List String :=
  if m.role = "tool" then [m.toolCallId] else []

/-- After the system prompt the messages hold every text, image and call of the request once and
in order, the ids of the calls differ, and every response has that of the call it responds to. -/
structure Preserved (request : GeminiChatRequest J) (system out : List (Message J)) : Prop where
  media : out.flatMap messageMedia = system.flatMap messageMedia ++
    request.contents.flatMap fun content ↦ content.parts.flatMap fun part ↦
      (partItems toJSONString part).filter (!·.isCall)
  calls : out.flatMap messageCalls = request.contents.flatMap fun content ↦
    content.parts.flatMap fun part ↦ (partItems toJSONString part).filter (·.isCall)
  distinct : (out.flatMap messageCallIds).Nodup
  linked : Linked [] (joined (request.contents.flatMap (contentSteps toJSONString))
    (out.flatMap messageCallIds) (out.flatMap messageResponseIds))

def Preserves (request : GeminiChatRequest J) (info : RelayInfo) : Prop :=
  ∃ out, geminiToOpenAIRequest toJSONString request info = .ok out ∧
    Preserved toJSONString request (systemMessages request) out.messages

/-- Every part carries one thing only, and a content calls or else carries media. -/
def Plain (content : GeminiChatContent J) : Prop :=
  (∀ part ∈ content.parts, (partItems toJSONString part).length ≤ 1) ∧
  ((∀ part ∈ content.parts, part.functionCall = none) ∨
    ∀ part ∈ content.parts, ∀ item ∈ partItems toJSONString part, item.isCall)

def Silent (content : GeminiChatContent J) : Prop :=
  ∀ part ∈ content.parts, part.functionCall = none

/-- No stop sequences or room for four, plain contents of which one calls at most, and every call
responded to before the next one or never. -/
structure Convertible (request : GeminiChatRequest J) : Prop where
  stop : request.generationConfig.stopSequences.elems = [] ∨
    4 ≤ request.generationConfig.stopSequences.cap
  plain : ∀ content ∈ request.contents, Plain toJSONString content
  calls : request.contents.Pairwise fun content later ↦ Silent content ∨ Silent later
  prompt : Prompt (request.contents.map (contentSteps toJSONString))

end Statement

section Branches

/-- What the conversion takes a part for. -/
inductive Branch (J : Type) where
  | media (m : MediaContent)
  | call (functionCall : FunctionCall J)
  | response (functionResponse : GeminiFunctionResponse J)
  | nothing

def branch (part : GeminiPart J) : Branch J :=
  if part.text ≠ "" then .media { type := "text", text := part.text }
  else match part.inlineData with
  | some d => .media {
      type := "image_url"
      imageUrl := some ⟨dataUrl d.mimeType d.data, "auto", d.mimeType⟩ }
  | none => match part.fileData with
  | some d => .media { type := "image_url", imageUrl := some ⟨d.fileUri, "auto", d.mimeType⟩ }
  | none => match part.functionCall with
  | some functionCall => .call functionCall
  | none => match part.functionResponse with
  | some functionResponse => .response functionResponse
  | none => .nothing

def Branch.items : Branch J → List Item
  | .media m => [mediaItem m]
  | .call c => [.call c.functionName (toJSONString c.arguments)]
  | _ => []

def Branch.step : Branch J → Option (Step String)
  | .call c => some (.call c.functionName)
  | .response r => some (.response r.name)
  | _ => none

def Branch.mediaContents : Branch J → List MediaContent
  | .media m => [m]
  | _ => []

def toolCall (k : ℕ) (functionCall : FunctionCall J) : ToolCallRequest J where
  id := callId k
  type := "function"
  function := {
    name := functionCall.functionName
    arguments := toJSONString functionCall.arguments }

def toolMessage (k : ℕ) (functionResponse : GeminiFunctionResponse J) : Message J where
  role := "tool"
  toolCallId := callId k
  content := .text (toJSONString functionResponse.response)

/-- The calls of parts, numbered from `k + 1` on. -/
def callsFrom : ℕ → List (GeminiPart J) → List (ToolCallRequest J)
  | _, [] => []
  | k, part :: parts =>
    match branch part with
    | .call c => toolCall toJSONString (k + 1) c :: callsFrom (k + 1) parts
    | _ => callsFrom k parts

def responsesFrom : ℕ → List (GeminiPart J) → List (Message J)
  | _, [] => []
  | k, part :: parts =>
    match branch part with
    | .call _ => responsesFrom (k + 1) parts
    | .response r => toolMessage toJSONString k r :: responsesFrom k parts
    | _ => responsesFrom k parts

theorem convertPart_eq (collected : Collected J) (part : GeminiPart J) :
    convertPart toJSONString collected part = match branch part with
    | .media m => { collected with mediaContents := collected.mediaContents ++ [m] }
    | .call c => { collected with toolCalls := collected.toolCalls ++
        [toolCall toJSONString (collected.toolCalls.length + 1) c] }
    | .response r => { collected with toolMessages := collected.toolMessages ++
        [toolMessage toJSONString collected.toolCalls.length r] }
    | .nothing => collected := by
  rw [convertPart, branch]
  split_ifs with htext
  · rfl
  · cases part.inlineData with
    | some d => rfl
    | none =>
      cases part.fileData with
      | some d => rfl
      | none =>
        cases part.functionCall with
        | some c => rfl
        | none => cases part.functionResponse <;> rfl

theorem foldl_convertPart (parts : List (GeminiPart J)) (collected : Collected J) :
    parts.foldl (convertPart toJSONString) collected =
      ⟨collected.toolMessages ++ responsesFrom toJSONString collected.toolCalls.length parts,
        collected.mediaContents ++ parts.flatMap fun part ↦ (branch part).mediaContents,
        collected.toolCalls ++ callsFrom toJSONString collected.toolCalls.length parts⟩ := by
  induction parts generalizing collected with
  | nil => simp [responsesFrom, callsFrom]
  | cons part parts ih =>
    rw [List.foldl_cons, convertPart_eq, ih]
    cases hb : branch part <;>
      simp [responsesFrom, callsFrom, hb, Branch.mediaContents, List.flatMap_cons]

theorem partItems_take (part : GeminiPart J) :
    (partItems toJSONString part).take 1 = (branch part).items toJSONString := by
  rw [partItems, branch]
  split_ifs with htext
  · rfl
  · cases part.inlineData with
    | some d => rfl
    | none =>
      cases part.fileData with
      | some d => rfl
      | none =>
        cases part.functionCall with
        | some c => rfl
        | none => cases part.functionResponse <;> rfl

theorem partStep_eq {part : GeminiPart J} (h : (partItems toJSONString part).length ≤ 1) :
    partStep toJSONString part = (branch part).step := by
  rw [partItems] at h
  rw [partStep, partItems, branch]
  cases htext : decide (part.text = "") <;> cases hd : part.inlineData <;>
    cases hf : part.fileData <;> cases hc : part.functionCall <;>
    cases hr : part.functionResponse <;>
    simp_all [Branch.step]

end Branches

section Contents

/-- The steps of a content as the conversion takes its parts. -/
def branchSteps (content : GeminiChatContent J) : List (Step String) :=
  content.parts.filterMap fun part ↦ (branch part).step

theorem callsFrom_ids (k : ℕ) (parts : List (GeminiPart J)) :
    (callsFrom toJSONString k parts).map (·.id) =
      callIds callId k (parts.filterMap fun part ↦ (branch part).step) := by
  induction parts generalizing k with
  | nil => rfl
  | cons part parts ih =>
    cases hb : branch part with
    | call c => simp [callsFrom, hb, Branch.step, ih, toolCall]
    | media m => simp [callsFrom, hb, Branch.step, ih]
    | response r => simp [callsFrom, hb, Branch.step, ih]
    | nothing => simp [callsFrom, hb, Branch.step, ih]

theorem responsesFrom_ids (k : ℕ) (parts : List (GeminiPart J)) :
    (responsesFrom toJSONString k parts).flatMap messageResponseIds =
      responseIds callId k (parts.filterMap fun part ↦ (branch part).step) := by
  induction parts generalizing k with
  | nil => rfl
  | cons part parts ih =>
    cases hb : branch part with
    | call c => simp [responsesFrom, hb, Branch.step, ih]
    | media m => simp [responsesFrom, hb, Branch.step, ih]
    | response r => simp [responsesFrom, hb, Branch.step, ih, toolMessage, messageResponseIds]
    | nothing => simp [responsesFrom, hb, Branch.step, ih]

theorem callsFrom_items (k : ℕ) (parts : List (GeminiPart J)) :
    (callsFrom toJSONString k parts).map
        (fun call ↦ Item.call call.function.name call.function.arguments) =
      parts.flatMap fun part ↦ ((branch part).items toJSONString).filter (·.isCall) := by
  induction parts generalizing k with
  | nil => rfl
  | cons part parts ih =>
    cases hb : branch part with
    | call c => simp [callsFrom, hb, Branch.items, Item.isCall, ih, toolCall]
    | media m =>
      cases hm : m.imageUrl <;> simp [callsFrom, hb, Branch.items, mediaItem, hm, Item.isCall, ih]
    | response r => simp [callsFrom, hb, Branch.items, ih]
    | nothing => simp [callsFrom, hb, Branch.items, ih]

theorem responsesFrom_tool (k : ℕ) (parts : List (GeminiPart J)) :
    ∀ m ∈ responsesFrom toJSONString k parts, m.role = "tool" ∧ m.toolCalls = [] := by
  induction parts generalizing k with
  | nil => simp [responsesFrom]
  | cons part parts ih =>
    cases hb : branch part with
    | call c => simpa [responsesFrom, hb] using ih (k + 1)
    | media m => simpa [responsesFrom, hb] using ih k
    | response r => simpa [responsesFrom, hb, toolMessage] using ih k
    | nothing => simpa [responsesFrom, hb] using ih k

theorem convertGeminiRoleToOpenAI_ne_tool (role : String) :
    convertGeminiRoleToOpenAI role ≠ "tool" := by
  rw [convertGeminiRoleToOpenAI]
  split_ifs <;> decide

/-- The message that holds the media of a content, or its calls in their place. -/
def keptMessage (content : GeminiChatContent J) : Message J where
  role := convertGeminiRoleToOpenAI content.role
  toolCalls := callsFrom toJSONString 0 content.parts
  content := if (callsFrom toJSONString 0 content.parts).length > 0 then .null
    else messageContent (content.parts.flatMap fun part ↦ (branch part).mediaContents)

theorem keptMessage_role (content : GeminiChatContent J) :
    (keptMessage toJSONString content).role ≠ "tool" :=
  convertGeminiRoleToOpenAI_ne_tool content.role

theorem convertContent_eq (content : GeminiChatContent J) :
    convertContent toJSONString content = responsesFrom toJSONString 0 content.parts ++
      if (keptMessage toJSONString content).parseContent.length > 0 ∨
        (keptMessage toJSONString content).toolCalls.length > 0 then
        [keptMessage toJSONString content] else [] := by
  rw [convertContent, foldl_convertPart]
  rfl

/-- Reading off what an empty message does not have. -/
theorem convertContent_flatMap {β : Type} {f : Message J → List β}
    (hf : ∀ m : Message J, m.role ≠ "tool" → m.parseContent = [] → m.toolCalls = [] → f m = [])
    (content : GeminiChatContent J) : (convertContent toJSONString content).flatMap f =
      (responsesFrom toJSONString 0 content.parts).flatMap f ++
        f (keptMessage toJSONString content) := by
  rw [convertContent_eq, List.flatMap_append]
  split_ifs with hkept
  · simp
  · obtain ⟨hparse, hcalls⟩ := not_or.mp hkept
    have hnone := hf (keptMessage toJSONString content) (keptMessage_role toJSONString content)
      (by simpa using hparse) (by simpa using hcalls)
    simp [hnone]

theorem callsFrom_eq_nil (parts : List (GeminiPart J)) :
    callsFrom toJSONString 0 parts = [] ↔
      Callless (parts.filterMap fun part ↦ (branch part).step) := by
  rw [← @callIds_eq_nil _ _ callId 0, ← callsFrom_ids toJSONString, List.map_eq_nil_iff]

theorem text_mediaContents {part : GeminiPart J} {m : MediaContent}
    (hm : m ∈ (branch part).mediaContents) (htext : m.type = "text") :
    mediaItem m = .text m.text := by
  rw [branch] at hm
  split_ifs at hm with hpart
  · obtain rfl := by simpa [Branch.mediaContents] using hm
    rfl
  · cases hd : part.inlineData with
    | some d =>
      obtain rfl := by simpa [Branch.mediaContents, hd] using hm
      simp at htext
    | none =>
      cases hf : part.fileData with
      | some d =>
        obtain rfl := by simpa [Branch.mediaContents, hd, hf] using hm
        simp at htext
      | none =>
        cases hc : part.functionCall <;> cases hr : part.functionResponse <;>
          simp [Branch.mediaContents, hd, hf, hc, hr] at hm

theorem parse_messageContent {media : List MediaContent}
    (h : ∀ m ∈ media, m.type = "text" → mediaItem m = .text m.text) (m : Message J)
    (hm : m.content = messageContent media) :
    m.parseContent.map mediaItem = media.map mediaItem := by
  rw [Message.parseContent, hm]
  match media with
  | [] => rfl
  | [only] =>
    rw [messageContent]
    split_ifs with htext
    · exact congrArg ([·]) (h only List.mem_cons_self htext).symm
    · rfl
  | _ :: _ :: _ => rfl

theorem mediaContents_items (parts : List (GeminiPart J)) :
    (parts.flatMap fun part ↦ (branch part).mediaContents).map mediaItem =
      parts.flatMap fun part ↦ ((branch part).items toJSONString).filter (!·.isCall) := by
  rw [List.map_flatMap]
  congr 1
  funext part
  cases branch part with
  | media m => cases hm : m.imageUrl <;> simp [Branch.mediaContents, Branch.items, mediaItem, hm,
      Item.isCall]
  | call c => simp [Branch.mediaContents, Branch.items, Item.isCall]
  | response r => rfl
  | nothing => rfl

theorem content_media (content : GeminiChatContent J) :
    (convertContent toJSONString content).flatMap messageMedia =
      if callsFrom toJSONString 0 content.parts = [] then
        content.parts.flatMap fun part ↦ ((branch part).items toJSONString).filter (!·.isCall)
      else [] := by
  have hresponses : (responsesFrom toJSONString 0 content.parts).flatMap messageMedia = [] := by
    rw [List.flatMap_eq_nil_iff]
    intro m hm
    rw [messageMedia, if_pos (responsesFrom_tool toJSONString 0 _ m hm).1]
  rw [convertContent_flatMap toJSONString (fun m _ hc _ ↦ by simp [messageMedia, hc]), hresponses,
    List.nil_append, messageMedia, if_neg (keptMessage_role toJSONString content)]
  split_ifs with hcalls
  · rw [← mediaContents_items]
    refine parse_messageContent (fun m hm ↦ ?_) _ ?_
    · obtain ⟨part, _, hpart⟩ := List.mem_flatMap.mp hm
      exact text_mediaContents hpart
    · simp [keptMessage, hcalls]
  · have hlength := List.length_pos_iff.mpr hcalls
    simp [keptMessage, Message.parseContent, hlength]

theorem content_calls (content : GeminiChatContent J) :
    (convertContent toJSONString content).flatMap messageCalls =
      content.parts.flatMap fun part ↦ ((branch part).items toJSONString).filter (·.isCall) := by
  have hresponses : (responsesFrom toJSONString 0 content.parts).flatMap messageCalls = [] := by
    rw [List.flatMap_eq_nil_iff]
    intro m hm
    rw [messageCalls, (responsesFrom_tool toJSONString 0 _ m hm).2, List.map_nil]
  rw [convertContent_flatMap toJSONString (fun m _ _ hc ↦ by simp [messageCalls, hc]), hresponses,
    List.nil_append, messageCalls]
  exact callsFrom_items toJSONString 0 content.parts

theorem content_callIds (content : GeminiChatContent J) :
    (convertContent toJSONString content).flatMap messageCallIds =
      callIds callId 0 (branchSteps content) := by
  have hresponses : (responsesFrom toJSONString 0 content.parts).flatMap messageCallIds = [] := by
    rw [List.flatMap_eq_nil_iff]
    intro m hm
    rw [messageCallIds, (responsesFrom_tool toJSONString 0 _ m hm).2, List.map_nil]
  rw [convertContent_flatMap toJSONString (fun m _ _ hc ↦ by simp [messageCallIds, hc]),
    hresponses, List.nil_append, messageCallIds]
  exact callsFrom_ids toJSONString 0 content.parts

theorem content_responseIds (content : GeminiChatContent J) :
    (convertContent toJSONString content).flatMap messageResponseIds =
      responseIds callId 0 (branchSteps content) := by
  rw [convertContent_flatMap toJSONString (fun m hr _ _ ↦ by simp [messageResponseIds, hr]),
    messageResponseIds, if_neg (keptMessage_role toJSONString content), List.append_nil]
  exact responsesFrom_ids toJSONString 0 content.parts

end Contents

section Claims

theorem branch_call {part : GeminiPart J} {functionCall : FunctionCall J}
    (h : branch part = .call functionCall) : part.functionCall = some functionCall := by
  rw [branch] at h
  split_ifs at h
  cases hd : part.inlineData <;> cases hf : part.fileData <;> cases hc : part.functionCall <;>
    cases hr : part.functionResponse <;> simp_all

theorem callless_contentSteps (content : GeminiChatContent J) :
    Callless (contentSteps toJSONString content) ↔ Silent content := by
  have hstep (part : GeminiPart J) :
      (∃ name, partStep toJSONString part = some (.call name)) ↔ part.functionCall ≠ none := by
    rw [partStep]
    cases part.functionCall with
    | some c => simp
    | none =>
      simp only [ne_eq, not_true_eq_false, iff_false, not_exists]
      intro name
      split_ifs
      · cases part.functionResponse <;> simp
      · simp
  simp only [Callless, contentSteps, List.mem_filterMap, Silent]
  constructor
  · intro h part hpart
    by_contra hcall
    obtain ⟨name, hname⟩ := (hstep part).mpr hcall
    exact h name ⟨part, hpart, hname⟩
  · rintro h name ⟨part, hpart, hname⟩
    exact (hstep part).mp ⟨name, hname⟩ (h part hpart)

theorem contentSteps_eq {content : GeminiChatContent J}
    (h : ∀ part ∈ content.parts, (partItems toJSONString part).length ≤ 1) :
    contentSteps toJSONString content = branchSteps content :=
  List.filterMap_congr fun part hpart ↦ partStep_eq toJSONString (h part hpart)

theorem calls_kept_iff (content : GeminiChatContent J) :
    (convertContent toJSONString content).flatMap messageCalls =
        (content.parts.flatMap fun part ↦ (partItems toJSONString part).filter (·.isCall)) ↔
      ∀ part ∈ content.parts, ((partItems toJSONString part).take 1).filter (·.isCall) =
        (partItems toJSONString part).filter (·.isCall) := by
  simp only [content_calls, ← partItems_take]
  exact flatMap_eq_iff fun part _ ↦ length_filter_take_le

theorem length_calls_le (part : GeminiPart J) :
    ((partItems toJSONString part).filter (·.isCall)).length ≤ 1 := by
  rw [partItems]
  split_ifs <;> cases part.inlineData <;> cases part.fileData <;> cases part.functionCall <;>
    simp [Item.isCall]

/-- Once every part carries one thing only, no call is overlooked. -/
theorem silent_iff {content : GeminiChatContent J}
    (h : ∀ part ∈ content.parts, (partItems toJSONString part).length ≤ 1) :
    Silent content ↔ callsFrom toJSONString 0 content.parts = [] := by
  rw [← callless_contentSteps toJSONString, contentSteps_eq toJSONString h, callsFrom_eq_nil]
  rfl

theorem plain_iff (content : GeminiChatContent J) : Plain toJSONString content ↔
    (convertContent toJSONString content).flatMap messageMedia =
        (content.parts.flatMap fun part ↦ (partItems toJSONString part).filter (!·.isCall)) ∧
      (convertContent toJSONString content).flatMap messageCalls =
        content.parts.flatMap fun part ↦ (partItems toJSONString part).filter (·.isCall) := by
  rw [calls_kept_iff, content_media, Plain]
  simp only [← partItems_take]
  split_ifs with hcalls
  · rw [flatMap_eq_iff fun part _ ↦ length_filter_take_le, ← forall₂_and]
    have hone (part : GeminiPart J) := filters_take_one_iff (l := partItems toJSONString part)
      (p := Item.isCall)
    simp only [and_comm.trans (hone _)]
    exact and_iff_left_of_imp fun hone ↦ .inl ((silent_iff toJSONString hone).mpr hcalls)
  · rw [eq_comm (a := []), List.flatMap_eq_nil_iff]
    have hall (part : GeminiPart J) :
        (partItems toJSONString part).filter (!·.isCall) = [] ↔
          ∀ item ∈ partItems toJSONString part, item.isCall := by simp
    simp only [hall]
    constructor
    · rintro ⟨hone, hsilent | hall⟩
      · exact absurd ((silent_iff toJSONString hone).mp hsilent) hcalls
      · exact ⟨hall, fun part hpart ↦ (filters_take_one_iff.mpr (hone part hpart)).1⟩
    · rintro ⟨hall, _⟩
      refine ⟨fun part hpart ↦ ?_, .inr hall⟩
      have hone := length_calls_le toJSONString part
      rwa [List.filter_eq_self.mpr (hall part hpart)] at hone

theorem length_media_le (content : GeminiChatContent J) :
    ((convertContent toJSONString content).flatMap messageMedia).length ≤
      (content.parts.flatMap fun part ↦
        (partItems toJSONString part).filter (!·.isCall)).length := by
  rw [content_media]
  simp only [← partItems_take]
  split_ifs with hcalls
  · exact length_flatMap_le fun part _ ↦ length_filter_take_le
  · simp

theorem length_calls_kept_le (content : GeminiChatContent J) :
    ((convertContent toJSONString content).flatMap messageCalls).length ≤
      (content.parts.flatMap fun part ↦
        (partItems toJSONString part).filter (·.isCall)).length := by
  simp only [content_calls, ← partItems_take]
  exact length_flatMap_le fun part _ ↦ length_filter_take_le

/-- A conversation is kept exactly where all its contents are. -/
theorem all_plain_iff (contents : List (GeminiChatContent J)) :
    (∀ content ∈ contents, Plain toJSONString content) ↔
      (contents.flatMap fun content ↦
          (convertContent toJSONString content).flatMap messageMedia) =
        (contents.flatMap fun content ↦ content.parts.flatMap fun part ↦
          (partItems toJSONString part).filter (!·.isCall)) ∧
      (contents.flatMap fun content ↦
          (convertContent toJSONString content).flatMap messageCalls) =
        contents.flatMap fun content ↦ content.parts.flatMap fun part ↦
          (partItems toJSONString part).filter (·.isCall) := by
  rw [flatMap_eq_iff fun content _ ↦ length_media_le toJSONString content,
    flatMap_eq_iff fun content _ ↦ length_calls_kept_le toJSONString content, ← forall₂_and]
  simp only [plain_iff]

theorem callId_injective : Function.Injective callId := fun _ _ h ↦
  Nat.repr_inj.mp ((String.append_right_inj _).mp h)

theorem openAIStop_ok_iff (stopSequences : Slice String) :
    (∃ stop, openAIStop stopSequences = .ok stop) ↔
      (stopSequences.elems = [] ∨ 4 ≤ stopSequences.cap) := by
  by_cases helems : stopSequences.elems = []
  · simp [openAIStop, helems]
  · have hlength := List.length_pos_iff.mpr helems
    by_cases hcap : 4 ≤ stopSequences.cap
    · simp [openAIStop, Slice.upTo, hlength, hcap, Except.map]
    · simp [openAIStop, Slice.upTo, hlength, hcap, helems, Except.map]

theorem convert_ok_iff (request : GeminiChatRequest J) (info : RelayInfo) :
    (∃ out, geminiToOpenAIRequest toJSONString request info = .ok out) ↔
      (request.generationConfig.stopSequences.elems = [] ∨
        4 ≤ request.generationConfig.stopSequences.cap) := by
  rw [← openAIStop_ok_iff]
  constructor
  · rintro ⟨out, hout⟩
    obtain ⟨stop, hstop, _⟩ := bind_eq_ok.mp hout
    exact ⟨stop, hstop⟩
  · rintro ⟨stop, hstop⟩
    exact ⟨_, bind_eq_ok.mpr ⟨stop, hstop, rfl⟩⟩

theorem convert_messages {request : GeminiChatRequest J} {info : RelayInfo}
    {out : GeneralOpenAIRequest J}
    (h : geminiToOpenAIRequest toJSONString request info = .ok out) :
    out.messages = systemMessages request ++
      request.contents.flatMap (convertContent toJSONString) := by
  obtain ⟨stop, _, hout⟩ := bind_eq_ok.mp h
  cases pure_eq_ok.mp hout
  rfl

theorem systemMessages_flatMap {β : Type} {f : Message J → List β} (request : GeminiChatRequest J)
    (hf : ∀ m : Message J, m.role ≠ "tool" → m.toolCalls = [] → f m = []) :
    (systemMessages request).flatMap f = [] := by
  rw [systemMessages]
  cases request.systemInstructions with
  | none => rfl
  | some instructions => simpa using hf _ (by simp) rfl

theorem preserved_iff {request : GeminiChatRequest J} {info : RelayInfo}
    {out : GeneralOpenAIRequest J}
    (hout : geminiToOpenAIRequest toJSONString request info = .ok out) :
    Preserved toJSONString request (systemMessages request) out.messages ↔
      (∀ content ∈ request.contents, Plain toJSONString content) ∧
      request.contents.Pairwise (fun content later ↦ Silent content ∨ Silent later) ∧
      Prompt (request.contents.map (contentSteps toJSONString)) := by
  have happly {β : Type} (f : Message J → List β) : out.messages.flatMap f =
      (systemMessages request).flatMap f ++
        request.contents.flatMap fun content ↦ (convertContent toJSONString content).flatMap f := by
    rw [convert_messages toJSONString hout, List.flatMap_append, List.flatMap_assoc]
  have hcalls := happly messageCalls
  have hcallIds := happly messageCallIds
  have hresponseIds := happly messageResponseIds
  rw [systemMessages_flatMap request (fun m _ hc ↦ by simp [messageCalls, hc]),
    List.nil_append] at hcalls
  rw [systemMessages_flatMap request (fun m _ hc ↦ by simp [messageCallIds, hc]),
    List.nil_append] at hcallIds
  rw [systemMessages_flatMap request (fun m hr _ ↦ by simp [messageResponseIds, hr]),
    List.nil_append] at hresponseIds
  simp only [content_callIds] at hcallIds
  simp only [content_responseIds] at hresponseIds
  -- once everything is kept, the steps that the conversion takes are those of the parts
  have hids (hplain : ∀ content ∈ request.contents, Plain toJSONString content) :
      out.messages.flatMap messageCallIds =
        (request.contents.map (contentSteps toJSONString)).flatMap (callIds callId 0) ∧
      out.messages.flatMap messageResponseIds =
        (request.contents.map (contentSteps toJSONString)).flatMap (responseIds callId 0) := by
    have hsteps : request.contents.map branchSteps =
        request.contents.map (contentSteps toJSONString) :=
      List.map_congr_left fun content hc ↦ (contentSteps_eq toJSONString (hplain content hc).1).symm
    rw [hcallIds, hresponseIds, ← hsteps, List.flatMap_map, List.flatMap_map]
    exact ⟨rfl, rfl⟩
  have hdistinct : ((request.contents.map (contentSteps toJSONString)).flatMap
      (callIds callId 0)).Nodup ↔
        request.contents.Pairwise fun content later ↦ Silent content ∨ Silent later := by
    rw [nodup_callIds_iff callId_injective, List.pairwise_map]
    simp only [callless_contentSteps]
  have hlinked (hpairwise : (request.contents.map (contentSteps toJSONString)).Pairwise
      fun scope later ↦ Callless scope ∨ Callless later) :=
    linked_iff_prompt callId_injective hpairwise
  rw [← joined_labelsAll, ← nodup_callIds_iff callId_injective] at hlinked
  constructor
  · rintro ⟨hm, hc, hd, hl⟩
    rw [happly, List.append_cancel_left_eq] at hm
    have hplain := (all_plain_iff toJSONString request.contents).mpr ⟨hm, hcalls ▸ hc⟩
    obtain ⟨hcall, hresponse⟩ := hids hplain
    rw [hcall] at hd
    rw [hcall, hresponse] at hl
    exact ⟨hplain, hdistinct.mp hd, (hlinked hd).mp hl⟩
  · rintro ⟨hplain, hpairwise, hprompt⟩
    obtain ⟨hm, hc⟩ := (all_plain_iff toJSONString request.contents).mp hplain
    obtain ⟨hcall, hresponse⟩ := hids hplain
    have hd := hdistinct.mpr hpairwise
    refine ⟨?_, hcalls.trans hc, hcall ▸ hd, ?_⟩
    · rw [happly, hm]
    · rw [hcall, hresponse]
      exact (hlinked hd).mpr hprompt

/-- The conversion keeps everything and links every response exactly where the stop sequences are
none or have room for four behind them, every part carries one thing only, no content has both
calls and media, no two contents have calls, and no call is responded to after the next one or
in a later content. -/
theorem gemini_preserves_iff (request : GeminiChatRequest J) (info : RelayInfo) :
    Preserves toJSONString request info ↔ Convertible toJSONString request := by
  have hstop := convert_ok_iff toJSONString request info
  constructor
  · rintro ⟨out, hout, hkept⟩
    have hiff := preserved_iff toJSONString hout
    obtain ⟨hplain, hcalls, hprompt⟩ := hiff.mp hkept
    exact ⟨hstop.mp ⟨out, hout⟩, hplain, hcalls, hprompt⟩
  · intro h
    obtain ⟨out, hout⟩ := hstop.mpr h.stop
    exact ⟨out, hout, (preserved_iff toJSONString hout).mpr ⟨h.plain, h.calls, h.prompt⟩⟩

end Claims

section Examples

/-- A conversation with a tool call, its result and another call. -/
def twoCalls : GeminiChatRequest String where
  contents := [
    ⟨"user", [{ text := "How is the weather in Paris, and what time is it there?" }]⟩,
    ⟨"model", [{ functionCall := some ⟨"weather", some "\x7b\"city\":\"Paris\"\x7d"⟩ }]⟩,
    ⟨"user", [{ functionResponse := some ⟨"weather", some "\x7b\"sky\":\"clear\"\x7d"⟩ }]⟩,
    ⟨"model", [{ functionCall := some ⟨"time", some "\x7b\"city\":\"Paris\"\x7d"⟩ }]⟩]
  generationConfig := {
    temperature := none
    topP := none
    topK := none
    maxOutputTokens := none
    candidateCount := none
    stopSequences := ⟨[], []⟩ }
  tools := []
  systemInstructions := none

/-- Both calls are given the same id, and the result that of neither. -/
theorem twoCalls_not_preserved :
    ¬Preserves (fun j ↦ j.getD "null") twoCalls ⟨"gpt-4o", false⟩ := by
  rintro ⟨out, hout, hkept⟩
  cases hout
  exact absurd hkept.distinct (by decide +kernel)

end Examples

end AllAiTools.NewApi.Service.GeminiPreserved
