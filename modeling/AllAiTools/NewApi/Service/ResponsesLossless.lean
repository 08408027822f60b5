import AllAiTools.Foundation.Pieces
import AllAiTools.NewApi.Service.ChatToResponses

namespace AllAiTools.NewApi.Service.ResponsesLossless

open Foundation
open Relay.ChatViaResponses (Text trimSpace)
open ChatToResponses

variable {J : Type}

section Tokens

/-- A part of a conversation, however it is laid out. -/
inductive Token
  | text (s : Text)
  | image (url : Text)
  | audio (inputAudio : MessageInputAudio)
  | file (file : MessageFile)
  | video (videoUrl : MessageVideoUrl)
  | call (id name arguments : Text)
  | output (s : Text)
  deriving DecidableEq

def textToken (s : Text) : Option Token := if s = [] then none else some (.text s)

def partToken : MediaContent → Option Token
  | .text s => textToken s
  | .imageUrl v => some (.image v.url)
  | .inputAudio v => some (.audio v)
  | .file v => some (.file v)
  | .videoUrl v => some (.video v)
  | .other _ => none

def contentPartToken : ContentPart → Option Token
  | .text _ s => textToken s
  | .inputImage (.url url) => some (.image url)
  | .inputImage (.value v) => some (.image v.url)
  | .inputAudio v => some (.audio v)
  | .inputFile v => some (.file v)
  | .inputVideo v => some (.video v)
  | .other _ => none

def itemTokens : InputItem → List Token
  | .message _ (.text s) => (textToken s).toList
  | .message _ (.parts parts) => parts.filterMap contentPartToken
  | .functionCall callId name arguments => [.call callId name arguments]
  | .functionCallOutput _ output => [.output output]

def isText : MediaContent → Bool
  | .text _ => true
  | _ => false

def IsTool (msg : Message J) : Prop := trimSpace msg.role = toolRole ∨ trimSpace msg.role = functionRole

def IsSystem (msg : Message J) : Prop := trimSpace msg.role = systemRole ∨ trimSpace msg.role = developerRole

def IsAssistant (msg : Message J) : Prop := trimSpace msg.role = assistantRole

instance (msg : Message J) : Decidable (IsTool msg) := inferInstanceAs (Decidable (_ ∨ _))
instance (msg : Message J) : Decidable (IsSystem msg) := inferInstanceAs (Decidable (_ ∨ _))
instance (msg : Message J) : Decidable (IsAssistant msg) := inferInstanceAs (Decidable (_ = _))

def contentTokens (msg : Message J) : List Token := msg.parseContent.filterMap partToken

/-- What a message brings into the input: a system message what is no text, a tool message its
output, under a mark where it names no call. -/
def messageTokens (marshal : J → Text) (msg : Message J) : List Token :=
  if IsTool msg then
    if trimSpace msg.toolCallId = [] then [.text (missingCallId ++ toolOutput marshal msg)]
    else [.output (toolOutput marshal msg)]
  else if IsSystem msg then (msg.parseContent.filter (!isText ·)).filterMap partToken
  else contentTokens msg ++
    if IsAssistant msg then msg.toolCalls.map fun tc ↦ .call tc.id tc.name tc.arguments else []

def textsOf (msg : Message J) : List Text :=
  msg.parseContent.filterMap fun
    | .text s => if s = [] then none else some s
    | _ => none

/-- What a system message brings into the instructions. -/
def systemText (msg : Message J) : Option Text :=
  if IsSystem msg ∧ textsOf msg ≠ [] then some (Joined.joined '\n' (textsOf msg)) else none

/-- Everything in the messages stands once and in order in the request, and an output is linked to
the call that it answers. -/
structure Lossless (marshal : J → Text) (req : GeneralOpenAIRequest J) (out : OpenAIResponsesRequest) :
    Prop where
  input : out.input.flatMap itemTokens = req.messages.flatMap (messageTokens marshal)
  instructions : out.instructions.getD [] = paragraphs (req.messages.filterMap systemText)
  linked : ∀ msg ∈ req.messages, ∀ callId output,
    InputItem.functionCallOutput callId output ∈ convertMessage marshal msg →
      ∀ asked ∈ req.messages, IsAssistant asked → ∀ tc ∈ asked.toolCalls, tc.id = msg.toolCallId →
        ∃ name arguments, functionCallItem tc = some (.functionCall callId name arguments)

/-- A call that the conversion takes over as it is. -/
structure PlainCall (tc : ToolCallRequest) : Prop where
  id : trimSpace tc.id ≠ []
  type : tc.type = [] ∨ tc.type = functionType
  name : tc.name ≠ [] ∧ trimSpace tc.name = tc.name

structure Convertible (req : GeneralOpenAIRequest J) : Prop where
  role : ∀ msg ∈ req.messages, trimSpace msg.role = [] → contentTokens msg = []
  media : ∀ msg ∈ req.messages, IsSystem msg → (msg.parseContent.filter (!isText ·)).filterMap partToken = []
  calls : ∀ msg ∈ req.messages, IsAssistant msg → ∀ tc ∈ msg.toolCalls, PlainCall tc
  texts : ∀ msg ∈ req.messages, IsSystem msg → (∀ s ∈ textsOf msg, trimSpace s ≠ []) ∧
    trimSpace (Joined.joined '\n' (textsOf msg)) = Joined.joined '\n' (textsOf msg)
  links : ∀ msg ∈ req.messages, IsTool msg → ∀ asked ∈ req.messages, IsAssistant asked →
    ∀ tc ∈ asked.toolCalls, tc.id = msg.toolCallId → trimSpace msg.toolCallId ≠ [] →
      trimSpace msg.toolCallId = msg.toolCallId

end Tokens

section Input

variable (marshal : J → Text) (msg : Message J)

theorem contentPartToken_convertPart (role : Text) (p : MediaContent) :
    contentPartToken (convertPart role p) = partToken p := by
  cases p with
  | imageUrl v =>
    rw [convertPart, normalizeChatImageURLToString]
    by_cases hurl : v.url ≠ []
    · rw [if_pos hurl]
      rfl
    · rw [if_neg hurl]
      rfl
  | _ => rfl

theorem itemTokens_content (role : Text) :
    itemTokens (.message role (itemContent role msg)) = contentTokens msg := by
  rw [itemContent, contentTokens, Message.parseContent]
  cases msg.content with
  | null => rfl
  | text s =>
    change (partToken (.text s)).toList = [MediaContent.text s].filterMap partToken
    cases h : partToken (.text s) with
    | none => rw [List.filterMap_cons_none h]; rfl
    | some t => rw [List.filterMap_cons_some h]; rfl
  | value raw parts =>
    change (parts.map (convertPart role)).filterMap contentPartToken = parts.filterMap partToken
    rw [List.filterMap_map]
    exact List.filterMap_congr fun p _ ↦ contentPartToken_convertPart role p

/-- What the item of a call says. -/
def callTokens (tc : ToolCallRequest) : List Token := (functionCallItem tc).toList.flatMap itemTokens

theorem callTokens_length_le (tc : ToolCallRequest) :
    (callTokens tc).length ≤ [Token.call tc.id tc.name tc.arguments].length := by
  rw [callTokens, functionCallItem]
  split
  · exact Nat.zero_le _
  · split
    · exact Nat.zero_le _
    · dsimp only
      split
      · exact Nat.zero_le _
      · exact le_refl _

theorem callTokens_eq_iff (tc : ToolCallRequest) :
    callTokens tc = [.call tc.id tc.name tc.arguments] ↔ PlainCall tc := by
  rw [callTokens, functionCallItem]
  constructor
  · intro h
    split at h
    · cases h
    · rename_i hid
      split at h
      · cases h
      · rename_i htype
        dsimp only at h
        split at h
        · cases h
        · rename_i hname
          have hsame : trimSpace tc.name = tc.name := by
            have hhead := (List.cons.inj h).1
            injection hhead
          refine ⟨hid, ?_, hsame ▸ hname, hsame⟩
          by_contra hnot
          exact htype (not_or.mp hnot)
  · intro h
    have hname : trimSpace tc.name ≠ [] := by
      rw [h.name.2]
      exact h.name.1
    rw [if_neg h.id, if_neg fun hne ↦ h.type.elim hne.1 hne.2]
    dsimp only
    rw [if_neg hname, h.name.2]
    rfl

theorem tokens_filterMap_calls (calls : List ToolCallRequest) :
    (calls.filterMap functionCallItem).flatMap itemTokens = calls.flatMap callTokens := by
  induction calls with
  | nil => rfl
  | cons tc calls ih =>
    rw [List.flatMap_cons, ← ih, callTokens]
    cases h : functionCallItem tc with
    | none => rw [List.filterMap_cons_none h]; rfl
    | some item => rw [List.filterMap_cons_some h, List.flatMap_cons]; simp

theorem callTokens_all_iff (calls : List ToolCallRequest) :
    calls.flatMap callTokens = calls.map (fun tc ↦ Token.call tc.id tc.name tc.arguments) ↔
      ∀ tc ∈ calls, PlainCall tc := by
  rw [← List.flatMap_singleton' (calls.map _), List.flatMap_map,
    Pieces.flatMap_eq_iff fun tc _ ↦ callTokens_length_le tc]
  exact forall₂_congr fun tc _ ↦ callTokens_eq_iff tc

theorem toolItem_tokens (h : IsTool msg) :
    itemTokens (toolItem marshal msg) = messageTokens marshal msg := by
  rw [messageTokens, if_pos h, toolItem]
  by_cases hid : trimSpace msg.toolCallId = []
  · rw [if_pos hid, if_pos hid]
    have hne : missingCallId ++ toolOutput marshal msg ≠ [] := fun hnil ↦
      absurd (List.append_eq_nil_iff.mp hnil).1 (by decide)
    change (textToken (missingCallId ++ toolOutput marshal msg)).toList = _
    rw [textToken, if_neg hne]
    rfl
  · rw [if_neg hid, if_neg hid]
    rfl

/-- What the items of a message say. -/
theorem convertMessage_tokens : (convertMessage marshal msg).flatMap itemTokens =
    if trimSpace msg.role = [] then []
    else if IsTool msg then messageTokens marshal msg
    else if IsSystem msg then []
    else contentTokens msg ++ if IsAssistant msg then msg.toolCalls.flatMap callTokens else [] := by
  rw [convertMessage]
  by_cases hblank : trimSpace msg.role = []
  · rw [if_pos hblank, if_pos hblank]
    rfl
  · rw [if_neg hblank, if_neg hblank]
    by_cases htool : IsTool msg
    · rw [if_pos htool, ← toolItem_tokens marshal msg htool]
      exact (congrArg (List.flatMap itemTokens) (if_pos htool)).trans (List.flatMap_singleton _ _)
    · rw [if_neg htool]
      refine (congrArg (List.flatMap itemTokens) (if_neg htool)).trans ?_
      by_cases hsystem : IsSystem msg
      · rw [if_pos hsystem]
        exact congrArg (List.flatMap itemTokens) (if_pos hsystem)
      · rw [if_neg hsystem]
        refine (congrArg (List.flatMap itemTokens) (if_neg hsystem)).trans ?_
        rw [List.flatMap_cons, itemTokens_content]
        refine congrArg (contentTokens msg ++ ·) ?_
        by_cases hassistant : IsAssistant msg
        · rw [if_pos hassistant, ← tokens_filterMap_calls]
          exact congrArg (List.flatMap itemTokens) (if_pos hassistant)
        · rw [if_neg hassistant]
          exact congrArg (List.flatMap itemTokens) (if_neg hassistant)

theorem not_tool_of_system (h : IsSystem msg) : ¬ IsTool msg := by
  rw [IsTool]
  obtain h | h := h <;> rw [h] <;> decide

theorem not_tool_of_assistant (h : IsAssistant msg) : ¬ IsTool msg ∧ ¬ IsSystem msg := by
  rw [IsAssistant] at h
  rw [IsTool, IsSystem, h]
  decide

theorem not_named_of_blank (h : trimSpace msg.role = []) :
    ¬ IsTool msg ∧ ¬ IsSystem msg ∧ ¬ IsAssistant msg := by
  rw [IsTool, IsSystem, IsAssistant, h]
  decide

theorem callTokens_length_le_all (calls : List ToolCallRequest) :
    (calls.flatMap callTokens).length ≤
      (calls.map fun tc ↦ Token.call tc.id tc.name tc.arguments).length := by
  rw [← List.flatMap_singleton' (calls.map _), List.flatMap_map]
  exact Pieces.length_flatMap_le fun tc _ ↦ callTokens_length_le tc

theorem convertMessage_tokens_le :
    ((convertMessage marshal msg).flatMap itemTokens).length ≤ (messageTokens marshal msg).length := by
  rw [convertMessage_tokens]
  split
  · exact Nat.zero_le _
  · split
    · exact le_refl _
    · rename_i htool
      split
      · exact Nat.zero_le _
      · rename_i hsystem
        rw [messageTokens, if_neg htool, if_neg hsystem, List.length_append, List.length_append]
        refine Nat.add_le_add_left ?_ _
        split
        · exact callTokens_length_le_all msg.toolCalls
        · exact le_refl _

theorem convertMessage_tokens_iff :
    (convertMessage marshal msg).flatMap itemTokens = messageTokens marshal msg ↔
      (trimSpace msg.role = [] → contentTokens msg = []) ∧
      (IsSystem msg → (msg.parseContent.filter (!isText ·)).filterMap partToken = []) ∧
      (IsAssistant msg → ∀ tc ∈ msg.toolCalls, PlainCall tc) := by
  rw [convertMessage_tokens]
  by_cases hblank : trimSpace msg.role = []
  · obtain ⟨htool, hsystem, hassistant⟩ := not_named_of_blank msg hblank
    rw [if_pos hblank, messageTokens, if_neg htool, if_neg hsystem, if_neg hassistant, List.append_nil,
      eq_comm]
    exact ⟨fun h ↦ ⟨fun _ ↦ h, fun h' ↦ absurd h' hsystem, fun h' ↦ absurd h' hassistant⟩,
      fun h ↦ h.1 hblank⟩
  · rw [if_neg hblank]
    by_cases htool : IsTool msg
    · rw [if_pos htool]
      refine iff_of_true rfl ⟨fun h ↦ absurd h hblank, fun h ↦ ?_, fun h ↦ ?_⟩
      · exact absurd htool (not_tool_of_system msg h)
      · exact absurd htool (not_tool_of_assistant msg h).1
    · rw [if_neg htool, messageTokens, if_neg htool]
      by_cases hsystem : IsSystem msg
      · rw [if_pos hsystem, if_pos hsystem, eq_comm]
        exact ⟨fun h ↦ ⟨fun h' ↦ absurd h' hblank, fun _ ↦ h,
          fun h' ↦ absurd hsystem (not_tool_of_assistant msg h').2⟩, fun h ↦ h.2.1 hsystem⟩
      · rw [if_neg hsystem, if_neg hsystem, List.append_cancel_left_eq]
        by_cases hassistant : IsAssistant msg
        · rw [if_pos hassistant, if_pos hassistant, callTokens_all_iff]
          exact ⟨fun h ↦ ⟨fun h' ↦ absurd h' hblank, fun h' ↦ absurd h' hsystem, fun _ ↦ h⟩,
            fun h ↦ h.2.2 hassistant⟩
        · rw [if_neg hassistant, if_neg hassistant]
          exact iff_of_true rfl ⟨fun h ↦ absurd h hblank, fun h ↦ absurd h hsystem,
            fun h ↦ absurd h hassistant⟩

end Input

section Instructions

variable (msg : Message J)

theorem trimSpace_sublist (s : Text) : (trimSpace s).Sublist s := by
  have htail : ((s.dropWhile Common.Str.isSpace).reverse.dropWhile Common.Str.isSpace).Sublist
      (s.dropWhile Common.Str.isSpace).reverse := List.dropWhile_sublist _
  have hall := htail.reverse
  rw [List.reverse_reverse] at hall
  exact hall.trans (List.dropWhile_sublist _)

theorem systemLines_eq : systemLines msg.parseContent =
    Joined.joined '\n' ((textsOf msg).filter fun s ↦ trimSpace s ≠ []) := by
  rw [systemLines, textsOf]
  refine congrArg (Joined.joined '\n') ?_
  induction msg.parseContent with
  | nil => rfl
  | cons p parts ih =>
    cases p with
    | text s =>
      rw [List.filterMap_cons, List.filterMap_cons]
      by_cases hempty : s = []
      · have hblank : trimSpace s = [] := by rw [hempty]; rfl
        dsimp only
        rw [if_pos hempty, if_pos hblank]
        exact ih
      · dsimp only
        rw [if_neg hempty]
        by_cases hblank : trimSpace s = []
        · rw [if_pos hblank, List.filter_cons_of_neg (by simpa using hblank)]
          exact ih
        · rw [if_neg hblank, List.filter_cons_of_pos (by simpa using hblank), ← ih]
    | _ => exact ih

theorem instructionsPart_eq : instructionsPart msg =
    if trimSpace (systemLines msg.parseContent) = [] then none
    else some (trimSpace (systemLines msg.parseContent)) := by
  rw [instructionsPart, Message.parseContent]
  cases msg.content with
  | null => rfl
  | value raw parts => rfl
  | text s =>
    have hlines : trimSpace (systemLines [.text s]) = trimSpace s := by
      rw [systemLines, List.filterMap_cons]
      by_cases hblank : trimSpace s = []
      · dsimp only
        rw [if_pos hblank, hblank]
        rfl
      · dsimp only
        rw [if_neg hblank]
        exact congrArg trimSpace (Joined.joined_singleton '\n' s)
    dsimp only
    rw [hlines]

theorem mem_textsOf {s : Text} (h : s ∈ textsOf msg) : s ≠ [] := by
  obtain ⟨p, -, hp⟩ := List.mem_filterMap.mp h
  cases p with
  | text t =>
    dsimp only at hp
    split at hp
    · cases hp
    · rename_i hne
      obtain rfl := Option.some.inj hp
      exact hne
  | _ => cases hp

/-- A system text gives all that its texts say, on lines of their own, or less. -/
theorem systemLines_length_le :
    (systemLines msg.parseContent).length ≤ (Joined.joined '\n' (textsOf msg)).length := by
  rw [systemLines_eq]
  exact Pieces.intercalate_filter_length_le ['\n'] _ _

theorem joined_textsOf_ne_nil (h : textsOf msg ≠ []) : Joined.joined '\n' (textsOf msg) ≠ [] := fun hnil ↦
  h ((Pieces.intercalate_eq_nil ['\n'] fun _ ↦ mem_textsOf msg).mp hnil)

theorem systemLines_eq_iff : systemLines msg.parseContent = Joined.joined '\n' (textsOf msg) ↔
    ∀ s ∈ textsOf msg, trimSpace s ≠ [] := by
  rw [systemLines_eq, ← List.filterMap_eq_filter]
  have hpick := Pieces.intercalate_filterMap_eq_iff ['\n'] (f := Option.guard fun s ↦ trimSpace s ≠ [])
    (g := some) (l := textsOf msg) ?_ ?_ ?_
  · rw [List.filterMap_some] at hpick
    refine hpick.trans (forall₂_congr fun s _ ↦ ?_)
    rw [Option.guard_eq_some_iff, decide_eq_true_eq, and_iff_right rfl]
  · intro s hs h
    rw [Option.guard_eq_some_iff] at h
    exact mem_textsOf msg hs h.1
  · intro s hs h
    exact mem_textsOf msg hs (Option.some.inj h)
  · intro s _ t h
    rw [Option.guard_eq_some_iff] at h
    exact ⟨s, rfl, h.1 ▸ le_refl _⟩

theorem convertInstructions_eq_iff : convertInstructions msg = systemText msg ↔
    (IsSystem msg → (∀ s ∈ textsOf msg, trimSpace s ≠ []) ∧
      trimSpace (Joined.joined '\n' (textsOf msg)) = Joined.joined '\n' (textsOf msg)) := by
  by_cases hsystem : IsSystem msg
  · rw [forall_prop_of_true hsystem]
    have hconvert : convertInstructions msg = instructionsPart msg := if_pos hsystem
    rw [hconvert, instructionsPart_eq]
    by_cases hnone : textsOf msg = []
    · have hlines : systemLines msg.parseContent = [] := by
        rw [systemLines_eq, hnone]
        rfl
      have hempty : systemText msg = none := if_neg fun h ↦ h.2 hnone
      rw [hlines, hnone, hempty]
      exact iff_of_true rfl ⟨fun _ h ↦ by (cases h), rfl⟩
    · have hsome : systemText msg = some (Joined.joined '\n' (textsOf msg)) := if_pos ⟨hsystem, hnone⟩
      rw [hsome]
      constructor
      · intro h
        split at h
        · cases h
        · have hsame := Option.some.inj h
          have hlen := congrArg List.length hsame
          have hle := systemLines_length_le msg
          have htrim := (trimSpace_sublist (systemLines msg.parseContent)).length_le
          have huncut := (trimSpace_sublist (systemLines msg.parseContent)).eq_of_length (by omega)
          have hlines : systemLines msg.parseContent = Joined.joined '\n' (textsOf msg) := huncut ▸ hsame
          exact ⟨(systemLines_eq_iff msg).mp hlines, hlines ▸ huncut⟩
      · rintro ⟨hvisible, htrim⟩
        rw [(systemLines_eq_iff msg).mpr hvisible, htrim, if_neg (joined_textsOf_ne_nil msg hnone)]
  · have hconvert : convertInstructions msg = none := if_neg hsystem
    rw [hconvert, systemText, if_neg fun h ↦ hsystem h.1]
    exact iff_of_true rfl fun h ↦ absurd h hsystem

/-- What is converted of a system message is never longer than its texts. -/
theorem convertInstructions_length_le {s : Text} (h : convertInstructions msg = some s) :
    s ≠ [] ∧ ∃ t, systemText msg = some t ∧ s.length ≤ t.length := by
  by_cases hsystem : IsSystem msg
  · have hconvert : convertInstructions msg = instructionsPart msg := if_pos hsystem
    rw [hconvert, instructionsPart_eq] at h
    split at h
    · cases h
    · rename_i hne
      obtain rfl := Option.some.inj h
      have hsome : textsOf msg ≠ [] := by
        intro hnone
        rw [systemLines_eq, hnone] at hne
        exact hne rfl
      refine ⟨hne, _, if_pos ⟨hsystem, hsome⟩, ?_⟩
      exact (trimSpace_sublist _).length_le.trans (systemLines_length_le msg)
  · rw [show convertInstructions msg = none from if_neg hsystem] at h
    cases h

theorem systemText_ne_nil : systemText msg ≠ some [] := by
  rw [systemText]
  split
  · rename_i h
    exact fun hnil ↦ joined_textsOf_ne_nil msg h.2 (Option.some.inj hnil)
  · exact fun h ↦ by cases h

/-- The instructions are the texts of the system messages exactly when each is converted whole. -/
theorem instructions_eq_iff (messages : List (Message J)) :
    paragraphs (messages.filterMap convertInstructions) = paragraphs (messages.filterMap systemText) ↔
      ∀ msg ∈ messages, convertInstructions msg = systemText msg := by
  refine Pieces.intercalate_filterMap_eq_iff _ (fun msg _ h ↦ ?_) (fun msg _ ↦ systemText_ne_nil msg)
    fun msg _ s h ↦ (convertInstructions_length_le msg h).2
  exact (convertInstructions_length_le msg h).1 rfl

end Instructions

section Claim

variable {marshal : J → Text} {req : GeneralOpenAIRequest J} {out : OpenAIResponsesRequest}

theorem functionCallItem_plain {tc : ToolCallRequest} (h : PlainCall tc) :
    functionCallItem tc = some (.functionCall tc.id tc.name tc.arguments) := by
  have hname : trimSpace tc.name ≠ [] := by
    rw [h.name.2]
    exact h.name.1
  rw [functionCallItem, if_neg h.id, if_neg fun hne ↦ h.type.elim hne.1 hne.2]
  dsimp only
  rw [if_neg hname, h.name.2]

theorem functionCallItem_id {tc : ToolCallRequest} {callId name arguments : Text}
    (h : functionCallItem tc = some (.functionCall callId name arguments)) : callId = tc.id := by
  rw [functionCallItem] at h
  split at h
  · cases h
  · split at h
    · cases h
    · dsimp only at h
      split at h
      · cases h
      · injection Option.some.inj h with hid
        exact hid.symm

theorem functionCallItem_not_output {tc : ToolCallRequest} {callId output : Text} :
    functionCallItem tc ≠ some (.functionCallOutput callId output) := by
  intro h
  rw [functionCallItem] at h
  split at h
  · cases h
  · split at h
    · cases h
    · dsimp only at h
      split at h
      · cases h
      · cases h

/-- Only a tool message that names its call becomes an output, under the trimmed name. -/
theorem output_mem_convertMessage {msg : Message J} {callId output : Text}
    (h : InputItem.functionCallOutput callId output ∈ convertMessage marshal msg) :
    IsTool msg ∧ trimSpace msg.toolCallId ≠ [] ∧ callId = trimSpace msg.toolCallId := by
  rw [convertMessage] at h
  split at h
  · cases h
  · split at h
    · rename_i htool
      rw [List.mem_singleton, toolItem] at h
      split at h
      · cases h
      · rename_i hid
        injection h with hcall _
        exact ⟨htool, hid, hcall⟩
    · split at h
      · cases h
      · rw [List.mem_cons] at h
        obtain h | h := h
        · cases h
        · split at h
          · obtain ⟨tc, -, htc⟩ := List.mem_filterMap.mp h
            exact absurd htc functionCallItem_not_output
          · cases h

theorem tool_output_mem {msg : Message J} (htool : IsTool msg) (hid : trimSpace msg.toolCallId ≠ []) :
    InputItem.functionCallOutput (trimSpace msg.toolCallId) (toolOutput marshal msg) ∈
      convertMessage marshal msg := by
  have hrole : trimSpace msg.role ≠ [] := fun hblank ↦ (not_named_of_blank msg hblank).1 htool
  have hitem : convertMessage marshal msg = [toolItem marshal msg] :=
    (if_neg hrole).trans (if_pos htool)
  rw [hitem, toolItem, if_neg hid]
  exact List.mem_singleton_self _

theorem accepted_eq (h : chatCompletionsRequestToResponsesRequest marshal req = .ok out) :
    out.input = req.messages.flatMap (convertMessage marshal) ∧
      out.instructions.getD [] = paragraphs (req.messages.filterMap convertInstructions) := by
  rw [chatCompletionsRequestToResponsesRequest] at h
  split at h
  · cases h
  · split at h
    · cases h
    · obtain rfl := Except.ok.inj h
      refine ⟨rfl, ?_⟩
      dsimp only
      split
      · rfl
      · rename_i hnone
        rw [not_not.mp hnone]
        rfl

/-- The conversion of an accepted request loses nothing exactly when no message is without a role,
the system messages are texts that stay as they are, the calls are functions with an identifier
and a trimmed name, and no output answers a call by an identifier that is trimmed on the way. -/
theorem lossless_iff (h : chatCompletionsRequestToResponsesRequest marshal req = .ok out) :
    Lossless marshal req out ↔ Convertible req := by
  obtain ⟨hinput, hinstructions⟩ := accepted_eq h
  have htokens : out.input.flatMap itemTokens = req.messages.flatMap (messageTokens marshal) ↔
      ∀ msg ∈ req.messages, (convertMessage marshal msg).flatMap itemTokens = messageTokens marshal msg := by
    rw [hinput, List.flatMap_assoc]
    exact Pieces.flatMap_eq_iff fun msg _ ↦ convertMessage_tokens_le marshal msg
  constructor
  · intro hlossless
    have heach := fun msg hmsg ↦
        (convertMessage_tokens_iff marshal msg).mp (htokens.mp hlossless.input msg hmsg)
    have htexts := (instructions_eq_iff req.messages).mp (hinstructions.symm.trans hlossless.instructions)
    refine ⟨fun msg hmsg ↦ (heach msg hmsg).1, fun msg hmsg ↦ (heach msg hmsg).2.1,
      fun msg hmsg ↦ (heach msg hmsg).2.2,
      fun msg hmsg ↦ (convertInstructions_eq_iff msg).mp (htexts msg hmsg), ?_⟩
    intro msg hmsg htool asked hasked hassistant tc htc hanswers hid
    obtain ⟨name, arguments, hitem⟩ := hlossless.linked msg hmsg _ _ (tool_output_mem htool hid) asked hasked
      hassistant tc htc hanswers
    rw [functionCallItem_id hitem, hanswers]
  · intro hconvertible
    refine ⟨htokens.mpr fun msg hmsg ↦ (convertMessage_tokens_iff marshal msg).mpr
      ⟨hconvertible.role msg hmsg, hconvertible.media msg hmsg, hconvertible.calls msg hmsg⟩, ?_, ?_⟩
    · refine hinstructions.trans ((instructions_eq_iff req.messages).mpr fun msg hmsg ↦ ?_)
      exact (convertInstructions_eq_iff msg).mpr (hconvertible.texts msg hmsg)
    · intro msg hmsg callId output hmem asked hasked hassistant tc htc hanswers
      obtain ⟨htool, hid, rfl⟩ := output_mem_convertMessage hmem
      refine ⟨tc.name, tc.arguments, ?_⟩
      rw [hconvertible.links msg hmsg htool asked hasked hassistant tc htc hanswers hid, ← hanswers]
      exact functionCallItem_plain (hconvertible.calls asked hasked hassistant tc htc)

def calledRequest (id : Text) : GeneralOpenAIRequest Unit where
  model := ['m']
  messages :=
    [{ role := systemRole, content := .text ['b'] },
      { role := userRole, content := .value () [.text ['h'], .imageUrl ⟨['u'], []⟩] },
      { role := assistantRole, toolCalls := [⟨id, functionType, ['f'], []⟩] },
      { role := toolRole, content := .text ['o'], toolCallId := id }]

def calledResponse (id callId : Text) : OpenAIResponsesRequest where
  model := ['m']
  input :=
    [.message userRole (.parts [.text "input_text".toList ['h'], .inputImage (.url ['u'])]),
      .message assistantRole (.text []), .functionCall id ['f'] [], .functionCallOutput callId ['o']]
  instructions := some ['b']

theorem lossless_called :
    Lossless (fun _ ↦ []) (calledRequest ['c'])
      (calledResponse ['c'] ['c']) ↔ Convertible (calledRequest ['c']) :=
  lossless_iff (by rfl)

/-- A blank in the identifier of a call parts it from its output. -/
theorem lossless_not :
    ¬ ∀ (marshal : Unit → Text) (req : GeneralOpenAIRequest Unit) (out : OpenAIResponsesRequest),
    chatCompletionsRequestToResponsesRequest marshal req = .ok out → Lossless marshal req out := by
  intro h
  have hlossless := h (fun _ ↦ []) (calledRequest [' ', 'c']) (calledResponse [' ', 'c'] ['c']) (by rfl)
  have hasked := hlossless.linked { role := toolRole, content := .text ['o'], toolCallId := [' ', 'c'] }
    (by simp [calledRequest]) ['c'] ['o'] (by decide)
    { role := assistantRole, toolCalls := [⟨[' ', 'c'], functionType, ['f'], []⟩] } (by simp [calledRequest])
    (by decide) ⟨[' ', 'c'], functionType, ['f'], []⟩ (by simp) rfl
  obtain ⟨name, arguments, hitem⟩ := hasked
  exact absurd (functionCallItem_id hitem) (by decide)

end Claim

end AllAiTools.NewApi.Service.ResponsesLossless
