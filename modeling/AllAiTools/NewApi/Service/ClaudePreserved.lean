import AllAiTools.Foundation.Pieces
import AllAiTools.Foundation.Result
import AllAiTools.NewApi.Service.ConvertClaude

namespace AllAiTools.NewApi.Service.ClaudePreserved

open Foundation Result Pieces Dto.OpenAIRequest ConvertClaude

variable {J : Type} (codec : Codec J)

section Statement

def IsText (block : ClaudeMediaMessage J) : Prop := block.type = "text" ∨ block.type = "input_text"

instance (block : ClaudeMediaMessage J) : Decidable (IsText block) :=
  inferInstanceAs (Decidable (_ ∨ _))

/-- The address of an image: its own, or that of its data. -/
def sourceUrl (source : ClaudeMessageSource J) : String :=
  if source.url ≠ "" then source.url else dataUrl source.mediaType (source.data.format codec)

def blockTexts (block : ClaudeMediaMessage J) : List String :=
  if IsText block then [block.text.getD ""] else []

def blockImages (block : ClaudeMediaMessage J) : List (Option String) :=
  if block.type = "image" then [block.source.map (sourceUrl codec)] else []

def blockCalls (block : ClaudeMediaMessage J) : List (String × String × String) :=
  if block.type = "tool_use" then [(block.id, block.name, codec.toJSONString block.input)] else []

def blockResults (block : ClaudeMediaMessage J) : List String :=
  if block.type = "tool_result" then [block.toolUseId] else []

/-- The blocks of a message; a text is a single one. -/
def blocksOf (m : ClaudeMessage J) : List (ClaudeMediaMessage J) :=
  match m.content with
  | .text s => [{ type := "text", text := some s }]
  | .blocks l => l
  | .unreadable _ => []

/-- A tool message is one that names its tool. -/
def partTexts (m : Message J) : List String :=
  if m.name.isSome then [] else (m.parseContent.filter (·.type = "text")).map (·.text)

def partImages (m : Message J) : List (Option String) :=
  (m.parseContent.filter (·.type = "image_url")).map fun part ↦ part.imageUrl.map (·.url)

def partCalls (m : Message J) : List (String × String × String) :=
  m.toolCalls.map fun call ↦ (call.id, call.function.name, call.function.arguments)

def partResults (m : Message J) : List String := if m.name.isSome then [m.toolCallId] else []

/-- After the system prompt the messages hold every text, image, tool call and tool result of the
request once and in order. -/
structure Preserved (request : ClaudeRequest J) (system out : List (Message J)) : Prop where
  texts : out.flatMap partTexts =
    system.flatMap partTexts ++ request.messages.flatMap fun m ↦ (blocksOf m).flatMap blockTexts
  images : out.flatMap partImages =
    system.flatMap partImages ++
      request.messages.flatMap fun m ↦ (blocksOf m).flatMap (blockImages codec)
  calls : out.flatMap partCalls =
    system.flatMap partCalls ++
      request.messages.flatMap fun m ↦ (blocksOf m).flatMap (blockCalls codec)
  results : out.flatMap partResults =
    system.flatMap partResults ++ request.messages.flatMap fun m ↦ (blocksOf m).flatMap blockResults

def Readable (request : ClaudeRequest J) : Prop :=
  ∀ m ∈ request.messages, ∀ e, m.content ≠ .unreadable e

/-- A request whose messages can be read is converted without loss. -/
def Preserves (request : ClaudeRequest J) (info : RelayInfo) : Prop :=
  Readable request → ∃ out, claudeToOpenAIRequest codec request info = .ok out ∧
    Preserved codec request (systemMessages request info) out.messages

/-- An image whose data the message carries itself. -/
def Embedded (block : ClaudeMediaMessage J) : Prop :=
  ∃ source, block.source = some source ∧
    sourceUrl codec source = dataUrl source.mediaType (source.data.format codec)

/-- No message has tool calls beside texts or images, and every image is embedded. -/
def Apart (m : ClaudeMessage J) : Prop :=
  ((∀ block ∈ blocksOf m, block.type ≠ "tool_use") ∨
    ∀ block ∈ blocksOf m, ¬IsText block ∧ block.type ≠ "image") ∧
  ∀ block ∈ blocksOf m, block.type = "image" → Embedded codec block

end Statement

section Blocks

variable (request : ClaudeRequest J)

def blockMedia (block : ClaudeMediaMessage J) : List MediaContent :=
  if IsText block then
    [{ type := "text", text := block.text.getD "", cacheControl := block.cacheControl }]
  else if block.type = "image" then
    (block.source.map fun source ↦
      { type := "image_url"
        imageUrl := some { url := dataUrl source.mediaType (source.data.format codec) } }).toList
  else []

def blockToolCalls (block : ClaudeMediaMessage J) : List (ToolCallRequest J) :=
  if block.type = "tool_use" then
    [{ id := block.id
       type := "function"
       function := { name := block.name, arguments := codec.toJSONString block.input } }]
  else []

def blockToolMessages (block : ClaudeMediaMessage J) : List (Message J) :=
  if block.type = "tool_result" then [toolMessage codec request block] else []

/-- An image without a source, which the conversion does not survive. -/
def Sourceless (block : ClaudeMediaMessage J) : Prop :=
  block.type = "image" ∧ block.source = none

theorem convertBlock_ok (parts : Parts J) {block : ClaudeMediaMessage J}
    (h : ¬Sourceless block) :
    convertBlock codec request parts block = .ok
      ⟨parts.toolMessages ++ blockToolMessages codec request block,
        parts.toolCalls ++ blockToolCalls codec block,
        parts.mediaMessages ++ blockMedia codec block⟩ := by
  by_cases htext : IsText block
  · rcases htext with htype | htype <;>
      simp [convertBlock, blockToolMessages, blockToolCalls, blockMedia, IsText, htype]
  have hplain : block.type ≠ "text" ∧ block.type ≠ "input_text" := not_or.mp htext
  by_cases himage : block.type = "image"
  · cases hs : block.source with
    | none => exact absurd ⟨himage, hs⟩ h
    | some source =>
      simp [convertBlock, blockToolMessages, blockToolCalls, blockMedia, IsText, himage, hs]
  · by_cases huse : block.type = "tool_use"
    · simp [convertBlock, blockToolMessages, blockToolCalls, blockMedia, IsText, huse]
    · by_cases hresult : block.type = "tool_result"
      · simp [convertBlock, blockToolMessages, blockToolCalls, blockMedia, IsText, hresult]
      · simp [convertBlock, blockToolMessages, blockToolCalls, blockMedia, IsText, hplain.1,
          hplain.2, himage, huse, hresult]

theorem convertBlock_panic (parts : Parts J) {block : ClaudeMediaMessage J} (h : Sourceless block) :
    convertBlock codec request parts block = .error .panic := by
  simp [convertBlock, h.1, h.2]

/-- The loop over the blocks of a message, on top of what was there. -/
theorem convertBlocks_ok (parts : Parts J) {l : List (ClaudeMediaMessage J)}
    (h : ∀ block ∈ l, ¬Sourceless block) :
    l.foldlM (convertBlock codec request) parts = .ok
      ⟨parts.toolMessages ++ l.flatMap (blockToolMessages codec request),
        parts.toolCalls ++ l.flatMap (blockToolCalls codec),
        parts.mediaMessages ++ l.flatMap (blockMedia codec)⟩ := by
  induction l generalizing parts with
  | nil => simp [pure, Except.pure]
  | cons block l ih =>
    rw [List.foldlM_cons, convertBlock_ok codec request parts (h block List.mem_cons_self),
      bind_ok, ih _ fun b hb ↦ h b (List.mem_cons_of_mem block hb)]
    simp only [List.flatMap_cons, List.append_assoc]

theorem convertBlocks_panic (parts : Parts J) {l : List (ClaudeMediaMessage J)}
    (h : ∃ block ∈ l, Sourceless block) :
    l.foldlM (convertBlock codec request) parts = .error .panic := by
  induction l generalizing parts with
  | nil => simp at h
  | cons block l ih =>
    rw [List.foldlM_cons]
    by_cases hb : Sourceless block
    · rw [convertBlock_panic codec request parts hb, bind_error]
    · obtain ⟨other, ho, hs⟩ := h
      have hmem : other ∈ l := (List.mem_cons.mp ho).resolve_left fun he ↦ hb (he ▸ hs)
      rw [convertBlock_ok codec request parts hb, bind_ok]
      exact ih _ ⟨other, hmem, hs⟩

end Blocks

section Messages

variable (request : ClaudeRequest J)

/-- The message made of what is kept of a message's texts, images and tool calls. -/
def keptMessage (m : ClaudeMessage J) : Message J :=
  let toolCalls := (blocksOf m).flatMap (blockToolCalls codec)
  let media := (blocksOf m).flatMap (blockMedia codec)
  match m.content with
  | .text s => { role := m.role, content := .text s }
  | _ => {
    role := m.role
    toolCalls := toolCalls
    content := if media ≠ [] ∧ toolCalls = [] then .media media else .null }

/-- What a message with all its images becomes. -/
def pieces (m : ClaudeMessage J) : List (Message J) :=
  (blocksOf m).flatMap (blockToolMessages codec request) ++
    if (keptMessage codec m).parseContent ≠ [] ∨ (keptMessage codec m).toolCalls.length > 0 then
      [keptMessage codec m]
    else []

theorem convertMessage_ok {m : ClaudeMessage J} (hr : ∀ e, m.content ≠ .unreadable e)
    (h : ∀ block ∈ blocksOf m, ¬Sourceless block) :
    convertMessage codec request m = .ok (pieces codec request m) := by
  cases hc : m.content with
  | text s =>
    simp [convertMessage, pieces, keptMessage, hc, blocksOf, blockToolMessages,
      Message.parseContent]
  | blocks l =>
    have hl : blocksOf m = l := by rw [blocksOf, hc]
    rw [hl] at h
    have hconv := convertBlocks_ok codec request ⟨[], [], []⟩ h
    simp only [List.nil_append] at hconv
    simp [convertMessage, pieces, keptMessage, hc, hl, ClaudeMessage.parseContent,
      Except.mapError, bind_ok, hconv, pure, Except.pure]
  | unreadable e => exact absurd hc (hr e)

theorem convertMessage_panic {m : ClaudeMessage J} (h : ∃ block ∈ blocksOf m, Sourceless block) :
    convertMessage codec request m = .error .panic := by
  obtain ⟨block, hb, hs⟩ := h
  cases hc : m.content with
  | text s =>
    have hl : block = { type := "text", text := some s } := by simpa [blocksOf, hc] using hb
    rw [hl] at hs
    simp [Sourceless] at hs
  | blocks l =>
    have hl : blocksOf m = l := by rw [blocksOf, hc]
    rw [hl] at hb
    simp [convertMessage, hc, ClaudeMessage.parseContent, Except.mapError, bind_ok,
      convertBlocks_panic codec request ⟨[], [], []⟩ ⟨block, hb, hs⟩]
  | unreadable e => simp [blocksOf, hc] at hb

theorem mapM_ok {α β ε : Type} {f : α → Except ε β} {g : α → β} {l : List α}
    (h : ∀ a ∈ l, f a = .ok (g a)) : l.mapM f = .ok (l.map g) := by
  induction l with
  | nil => rfl
  | cons a l ih =>
    rw [List.mapM_cons, h a List.mem_cons_self, bind_ok,
      ih fun b hb ↦ h b (List.mem_cons_of_mem a hb), bind_ok]
    rfl

theorem mapM_error {α β ε : Type} {f : α → Except ε β} {l : List α} {a : α} {e : ε} (ha : a ∈ l)
    (h : f a = .error e) : ∀ bs, l.mapM f ≠ .ok bs := by
  induction l with
  | nil => simp at ha
  | cons b l ih =>
    intro bs hbs
    rw [List.mapM_cons] at hbs
    obtain ⟨c, hc, hbs⟩ := bind_eq_ok.mp hbs
    obtain ⟨cs, hcs, _⟩ := bind_eq_ok.mp hbs
    rcases List.mem_cons.mp ha with rfl | ha
    · rw [h] at hc
      cases hc
    · exact ih ha cs hcs

/-- A readable request is converted exactly where no image lacks its source, and each message
becomes its pieces. -/
theorem convert_ok_iff {info : RelayInfo} (hr : Readable request) :
    (∃ out, claudeToOpenAIRequest codec request info = .ok out) ↔
      ∀ m ∈ request.messages, ∀ block ∈ blocksOf m, ¬Sourceless block := by
  constructor
  · rintro ⟨out, h⟩ m hm block hb hs
    obtain ⟨messages, hmessages, _⟩ := bind_eq_ok.mp h
    exact mapM_error hm (convertMessage_panic codec request ⟨block, hb, hs⟩) messages hmessages
  · intro h
    have hmap := mapM_ok fun m hm ↦ convertMessage_ok codec request (hr m hm) (h m hm)
    simp only [claudeToOpenAIRequest, hmap, bind_ok]
    exact ⟨_, rfl⟩

theorem convert_messages {info : RelayInfo} {out : GeneralOpenAIRequest J} (hr : Readable request)
    (h : claudeToOpenAIRequest codec request info = .ok out) :
    out.messages = systemMessages request info ++
      request.messages.flatMap (pieces codec request) := by
  have hsources := (convert_ok_iff codec request hr).mp ⟨out, h⟩
  have hmap := mapM_ok fun m hm ↦ convertMessage_ok codec request (hr m hm) (hsources m hm)
  simp only [claudeToOpenAIRequest, hmap, bind_ok] at h
  cases pure_eq_ok.mp h
  simp only [List.flatMap]

end Messages

section Parts

variable (request : ClaudeRequest J)

def callsOf (m : ClaudeMessage J) : List (ToolCallRequest J) :=
  (blocksOf m).flatMap (blockToolCalls codec)

/-- The images of a block as the conversion writes them. -/
def writtenImages (block : ClaudeMediaMessage J) : List (Option String) :=
  ((blockMedia codec block).filter (·.type = "image_url")).map fun part ↦ part.imageUrl.map (·.url)

theorem media_texts (block : ClaudeMediaMessage J) :
    ((blockMedia codec block).filter (·.type = "text")).map (·.text) = blockTexts block := by
  rw [blockMedia, blockTexts]
  split_ifs with htext himage
  · simp
  · cases block.source <;> simp
  · simp

theorem keptMessage_name (m : ClaudeMessage J) : (keptMessage codec m).name = none := by
  cases hc : m.content <;> simp [keptMessage, hc]

theorem keptMessage_toolCalls (m : ClaudeMessage J) :
    (keptMessage codec m).toolCalls = callsOf codec m := by
  cases hc : m.content <;> simp [keptMessage, callsOf, hc, blocksOf, blockToolCalls]

/-- Beside tool calls the content is not kept. -/
theorem keptMessage_content (m : ClaudeMessage J) : (keptMessage codec m).parseContent =
    if callsOf codec m = [] then (blocksOf m).flatMap (blockMedia codec) else [] := by
  cases hc : m.content with
  | text s =>
    simp [keptMessage, hc, callsOf, blocksOf, blockToolCalls, blockMedia, IsText,
      Message.parseContent, contentTypeText]
  | blocks l =>
    simp only [keptMessage, hc, callsOf]
    by_cases hcalls : (blocksOf m).flatMap (blockToolCalls codec) = []
    · by_cases hmedia : (blocksOf m).flatMap (blockMedia codec) = []
      · simp [hcalls, hmedia, Message.parseContent]
      · simp [hcalls, hmedia, Message.parseContent]
    · simp [hcalls, Message.parseContent]
  | unreadable e => simp [keptMessage, hc, callsOf, blocksOf, Message.parseContent]

/-- Reading off something that an empty message does not have: the tool messages have theirs, then
the kept message its own. -/
theorem pieces_flatMap {β : Type} {f : Message J → List β}
    (hf : ∀ m : Message J, m.name = none → m.parseContent = [] → m.toolCalls = [] → f m = [])
    (m : ClaudeMessage J) : (pieces codec request m).flatMap f =
      ((blocksOf m).flatMap (blockToolMessages codec request)).flatMap f ++
        f (keptMessage codec m) := by
  rw [pieces, List.flatMap_append]
  split_ifs with hkept
  · simp
  · obtain ⟨hcontent, hcalls⟩ := not_or.mp hkept
    have hnone := hf (keptMessage codec m) (keptMessage_name codec m) (by simpa using hcontent)
      (by simpa using hcalls)
    simp [hnone]

theorem toolMessages_flatMap {β : Type} {f : Message J → List β} {m : ClaudeMessage J}
    (hf : ∀ block, f (toolMessage codec request block) = []) :
    ((blocksOf m).flatMap (blockToolMessages codec request)).flatMap f = [] := by
  simp only [List.flatMap_eq_nil_iff, List.mem_flatMap, blockToolMessages]
  rintro message ⟨block, _, hm⟩
  split_ifs at hm with hresult
  · rw [List.mem_singleton.mp hm]
    exact hf block
  · simp at hm

theorem pieces_texts (m : ClaudeMessage J) : (pieces codec request m).flatMap partTexts =
    if callsOf codec m = [] then (blocksOf m).flatMap blockTexts else [] := by
  rw [pieces_flatMap codec request (fun m _ hc _ ↦ by simp [partTexts, hc]),
    toolMessages_flatMap codec request (by simp [partTexts, toolMessage]), List.nil_append,
    partTexts, keptMessage_name, keptMessage_content]
  split_ifs with hcalls
  · cases hcalls
  · cases hcalls
  · simp [List.filter_flatMap, List.map_flatMap, media_texts]
  · simp

theorem pieces_images (m : ClaudeMessage J) : (pieces codec request m).flatMap partImages =
    if callsOf codec m = [] then (blocksOf m).flatMap (writtenImages codec) else [] := by
  have htool (block : ClaudeMediaMessage J) :
      partImages (toolMessage codec request block) = [] := by
    cases hc : block.content with
    | none => simp [partImages, toolMessage, hc, Message.parseContent, contentTypeText]
    | some value =>
      cases value <;> simp [partImages, toolMessage, hc, Message.parseContent, contentTypeText]
  rw [pieces_flatMap codec request (fun m _ hc _ ↦ by simp [partImages, hc]),
    toolMessages_flatMap codec request htool, List.nil_append, partImages, keptMessage_content]
  split_ifs with hcalls
  · simp only [List.filter_flatMap, List.map_flatMap]
    rfl
  · rfl

theorem pieces_calls (m : ClaudeMessage J) : (pieces codec request m).flatMap partCalls =
    (blocksOf m).flatMap (blockCalls codec) := by
  rw [pieces_flatMap codec request (fun m _ _ ht ↦ by simp [partCalls, ht]),
    toolMessages_flatMap codec request (fun _ ↦ rfl), List.nil_append, partCalls,
    keptMessage_toolCalls, callsOf, List.map_flatMap]
  congr 1
  funext block
  rw [blockToolCalls, blockCalls]
  split_ifs <;> rfl

theorem pieces_results (m : ClaudeMessage J) : (pieces codec request m).flatMap partResults =
    (blocksOf m).flatMap blockResults := by
  rw [pieces_flatMap codec request (fun m hn _ _ ↦ by simp [partResults, hn]), partResults,
    keptMessage_name]
  simp only [Option.isSome_none, Bool.false_eq_true, if_false, List.append_nil,
    List.flatMap_assoc]
  congr 1
  funext block
  rw [blockToolMessages, blockResults]
  split_ifs <;> simp [partResults, toolMessage]

theorem callsOf_eq_nil (m : ClaudeMessage J) :
    callsOf codec m = [] ↔ ∀ block ∈ blocksOf m, block.type ≠ "tool_use" := by
  simp only [callsOf, List.flatMap_eq_nil_iff, blockToolCalls]
  refine forall₂_congr fun block _ ↦ ?_
  split_ifs with h <;> simp [h]

theorem texts_eq_nil (m : ClaudeMessage J) :
    (blocksOf m).flatMap blockTexts = [] ↔ ∀ block ∈ blocksOf m, ¬IsText block := by
  simp only [List.flatMap_eq_nil_iff, blockTexts]
  refine forall₂_congr fun block _ ↦ ?_
  split_ifs with h <;> simp [h]

theorem images_eq_nil (m : ClaudeMessage J) :
    (blocksOf m).flatMap (blockImages codec) = [] ↔
      ∀ block ∈ blocksOf m, block.type ≠ "image" := by
  simp only [List.flatMap_eq_nil_iff, blockImages]
  refine forall₂_congr fun block _ ↦ ?_
  split_ifs with h <;> simp [h]

/-- An image that is not without its source is written as it is exactly where it is embedded. -/
theorem writtenImages_eq {block : ClaudeMediaMessage J} (hs : ¬Sourceless block) :
    writtenImages codec block = blockImages codec block ↔
      (block.type = "image" → Embedded codec block) := by
  by_cases himage : block.type = "image"
  · cases hsource : block.source with
    | none => exact absurd ⟨himage, hsource⟩ hs
    | some source =>
      simp [writtenImages, blockMedia, blockImages, IsText, himage, hsource, Embedded, eq_comm]
  · have hnone : writtenImages codec block = [] := by
      rw [writtenImages, blockMedia]
      split_ifs <;> simp
    simp [hnone, blockImages, himage]

theorem length_writtenImages (block : ClaudeMediaMessage J) :
    (writtenImages codec block).length ≤ (blockImages codec block).length := by
  by_cases himage : block.type = "image"
  · cases hsource : block.source <;>
      simp [writtenImages, blockMedia, blockImages, IsText, himage, hsource]
  · have hnone : writtenImages codec block = [] := by
      rw [writtenImages, blockMedia]
      split_ifs <;> simp
    simp [hnone]

end Parts

section Claims

variable (request : ClaudeRequest J)

theorem kept_texts_iff (m : ClaudeMessage J) :
    (pieces codec request m).flatMap partTexts = (blocksOf m).flatMap blockTexts ↔
      callsOf codec m = [] ∨ ∀ block ∈ blocksOf m, ¬IsText block := by
  rw [pieces_texts, ← texts_eq_nil]
  split_ifs with hcalls
  · simp [hcalls]
  · rw [eq_comm]
    simp only [hcalls, false_or]

theorem kept_images_iff {m : ClaudeMessage J} (hs : ∀ block ∈ blocksOf m, ¬Sourceless block) :
    (pieces codec request m).flatMap partImages = (blocksOf m).flatMap (blockImages codec) ↔
      (callsOf codec m = [] ∨ ∀ block ∈ blocksOf m, block.type ≠ "image") ∧
        ∀ block ∈ blocksOf m, block.type = "image" → Embedded codec block := by
  rw [pieces_images, ← images_eq_nil codec]
  split_ifs with hcalls
  · rw [flatMap_eq_iff fun block _ ↦ length_writtenImages codec block]
    simp only [hcalls, true_or, true_and]
    exact forall₂_congr fun block hb ↦ writtenImages_eq codec (hs block hb)
  · simp only [hcalls, false_or]
    constructor
    · intro h
      refine ⟨h.symm, fun block hb himage ↦ ?_⟩
      exact absurd himage ((images_eq_nil codec m).mp h.symm block hb)
    · rintro ⟨h, _⟩
      exact h.symm

theorem length_kept_texts (m : ClaudeMessage J) :
    ((pieces codec request m).flatMap partTexts).length ≤
      ((blocksOf m).flatMap blockTexts).length := by
  rw [pieces_texts]
  split_ifs <;> simp

theorem length_kept_images (m : ClaudeMessage J) :
    ((pieces codec request m).flatMap partImages).length ≤
      ((blocksOf m).flatMap (blockImages codec)).length := by
  rw [pieces_images]
  split_ifs
  · exact length_flatMap_le fun block _ ↦ length_writtenImages codec block
  · simp

theorem apart_iff {m : ClaudeMessage J} (hs : ∀ block ∈ blocksOf m, ¬Sourceless block) :
    Apart codec m ↔
      (pieces codec request m).flatMap partTexts = (blocksOf m).flatMap blockTexts ∧
      (pieces codec request m).flatMap partImages = (blocksOf m).flatMap (blockImages codec) := by
  rw [kept_texts_iff, kept_images_iff codec request hs, Apart, callsOf_eq_nil]
  constructor
  · rintro ⟨h | h, hembedded⟩
    · exact ⟨.inl h, .inl h, hembedded⟩
    · exact ⟨.inr fun block hb ↦ (h block hb).1, .inr fun block hb ↦ (h block hb).2, hembedded⟩
  · rintro ⟨htexts, himages, hembedded⟩
    refine ⟨?_, hembedded⟩
    rcases htexts with h | htexts
    · exact .inl h
    · rcases himages with h | himages
      · exact .inl h
      · exact .inr fun block hb ↦ ⟨htexts block hb, himages block hb⟩

/-- A readable request is converted without loss exactly where no message has tool calls beside
texts or images, of which the conversion keeps the calls alone, and every image carries its own
data, the only kind it reads. -/
theorem claude_preserves_iff (info : RelayInfo) : Preserves codec request info ↔
    (Readable request → ∀ m ∈ request.messages, Apart codec m) := by
  refine imp_congr_right fun hr ↦ ?_
  by_cases hs : ∀ m ∈ request.messages, ∀ block ∈ blocksOf m, ¬Sourceless block
  · obtain ⟨out, hout⟩ := (@convert_ok_iff J codec request info hr).mpr hs
    have hmessages := convert_messages codec request hr hout
    have happly {β : Type} (f : Message J → List β) : out.messages.flatMap f =
        (systemMessages request info).flatMap f ++
          request.messages.flatMap fun m ↦ (pieces codec request m).flatMap f := by
      rw [hmessages, List.flatMap_append, List.flatMap_assoc]
    have htexts := flatMap_eq_iff (l := request.messages)
      fun m _ ↦ length_kept_texts codec request m
    have himages := flatMap_eq_iff (l := request.messages)
      fun m _ ↦ length_kept_images codec request m
    constructor
    · rintro ⟨out', hout', hpreserved⟩ m hm
      rw [hout] at hout'
      cases hout'
      have ht := hpreserved.texts
      have hi := hpreserved.images
      rw [happly, List.append_cancel_left_eq] at ht hi
      exact (apart_iff codec request (hs m hm)).mpr ⟨htexts.mp ht m hm, himages.mp hi m hm⟩
    · intro h
      refine ⟨out, hout, ?_, ?_, ?_, ?_⟩
      · rw [happly, List.append_cancel_left_eq]
        exact htexts.mpr fun m hm ↦ ((apart_iff codec request (hs m hm)).mp (h m hm)).1
      · rw [happly, List.append_cancel_left_eq]
        exact himages.mpr fun m hm ↦ ((apart_iff codec request (hs m hm)).mp (h m hm)).2
      · rw [happly]
        simp only [pieces_calls]
      · rw [happly]
        simp only [pieces_results]
  · constructor
    · rintro ⟨out, hout, _⟩
      exact absurd ((convert_ok_iff codec request hr).mp ⟨out, hout⟩) hs
    · intro h
      refine absurd (fun m hm block hb hsourceless ↦ ?_) hs
      obtain ⟨source, hsource, _⟩ := (h m hm).2 block hb hsourceless.1
      rw [hsourceless.2] at hsource
      cases hsource

end Claims

section Examples

def codecOne : Codec String := ⟨fun j ↦ j.getD "null", id, fun j ↦ j.getD "null"⟩

/-- An assistant's turn that says something and calls a tool. -/
def textAndCall : ClaudeRequest String where
  model := "claude-sonnet-4-5"
  system := .absent
  messages := [⟨"assistant", .blocks [{ type := "text", text := some "Let me look that up." },
    { type := "tool_use", id := "toolu_1", name := "search", input := some "\x7b\"q\":\"lean\"\x7d" }]⟩]
  maxTokens := some 1024
  stopSequences := []
  temperature := none
  topP := none
  topK := none
  stream := none
  tools := []
  efforts := ""
  thinking := none

/-- The text is lost. -/
theorem textAndCall_not_preserved :
    ¬Preserves codecOne textAndCall ⟨false, "claude-sonnet-4-5", "claude-sonnet-4-5"⟩ := by
  intro h
  have hr : Readable textAndCall := by
    intro m hm e
    obtain rfl := List.mem_singleton.mp hm
    simp
  obtain ⟨out, hout, hpreserved⟩ := h hr
  have hsome : claudeToOpenAIRequest codecOne textAndCall
      ⟨false, "claude-sonnet-4-5", "claude-sonnet-4-5"⟩ = .ok out := hout
  cases hsome
  exact absurd hpreserved.texts (by decide +kernel)

end Examples

end AllAiTools.NewApi.Service.ClaudePreserved
