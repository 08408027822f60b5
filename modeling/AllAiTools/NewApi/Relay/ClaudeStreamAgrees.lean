import AllAiTools.Foundation.Grouping
import AllAiTools.NewApi.Relay.RelayClaude

namespace AllAiTools.NewApi.Relay.RelayClaude

open Dto.OpenAIResponse Foundation

section Messages

/-- JSON as it is written and read, which an empty text is not. -/
structure Codec (J : Type) where
  marshal : Option J → Text
  unmarshal : Text → Option J
  emptyObject : J
  unmarshal_marshal : ∀ j, unmarshal (marshal (some j)) = some j
  unmarshal_nil : unmarshal [] = none

variable {J : Type}

/-- A tool in use, with the pieces its input is streamed in; there may be none for an empty one. -/
structure ToolUse (codec : Codec J) where
  id : String
  name : Text
  input : J
  partials : List Text
  reads : codec.unmarshal partials.flatten = some input ∨
    partials.flatten = [] ∧ input = codec.emptyObject

inductive ThinkingDelta
  | thinking (piece : Text)
  | signature

def ThinkingDelta.text : ThinkingDelta → Text
  | thinking piece => piece
  | signature => []

/-- A block of a message, with the pieces it is streamed in. -/
inductive Block (codec : Codec J)
  | text (start : Text) (pieces : List Text)
  | thinking (pieces : List ThinkingDelta)
  | toolUse (tool : ToolUse codec)

variable {codec : Codec J}

def Block.text? : Block codec → Option Text
  | .text start pieces => some (start ++ pieces.flatten)
  | _ => none

def Block.thinking? : Block codec → Option Text
  | .thinking pieces => some (pieces.flatMap ThinkingDelta.text)
  | _ => none

def Block.tool? : Block codec → Option (ToolUse codec)
  | .toolUse tool => some tool
  | _ => none

def textBlock (text : Text) : ClaudeMediaMessage J where
  type := "text"
  text := some text

def thinkingBlock (thinking : Text) : ClaudeMediaMessage J where
  type := "thinking"
  thinking := some thinking

def toolBlock (tool : ToolUse codec) (input : J) : ClaudeMediaMessage J where
  type := "tool_use"
  id := tool.id
  name := tool.name
  input := some input

/-- A block as it stands in a response that is not streamed. -/
def Block.message : Block codec → ClaudeMediaMessage J
  | .text start pieces => textBlock (start ++ pieces.flatten)
  | .thinking pieces => thinkingBlock (pieces.flatMap ThinkingDelta.text)
  | .toolUse tool => toolBlock tool tool.input

def textDelta (piece : Text) : ClaudeMediaMessage J where
  type := "text_delta"
  text := some piece

def inputDelta (piece : Text) : ClaudeMediaMessage J where
  type := "input_json_delta"
  partialJson := some piece

def ThinkingDelta.message : ThinkingDelta → ClaudeMediaMessage J
  | thinking piece => { type := "thinking_delta", thinking := some piece }
  | signature => { type := "signature_delta" }

/-- A block as it is when its stream begins. -/
def Block.start : Block codec → ClaudeMediaMessage J
  | .text start _ => textBlock start
  | .thinking _ => thinkingBlock []
  | .toolUse tool => toolBlock tool codec.emptyObject

def Block.deltas : Block codec → List (ClaudeMediaMessage J)
  | .text _ pieces => pieces.map textDelta
  | .thinking pieces => pieces.map ThinkingDelta.message
  | .toolUse tool => tool.partials.map inputDelta

def blockStart (index : ℕ) (contentBlock : ClaudeMediaMessage J) : ClaudeResponse J where
  type := "content_block_start"
  index := some index
  contentBlock := some contentBlock

def blockDelta (index : ℕ) (delta : ClaudeMediaMessage J) : ClaudeResponse J where
  type := "content_block_delta"
  index := some index
  delta := some delta

def blockStop (index : ℕ) : ClaudeResponse J where
  type := "content_block_stop"
  index := some index

def Block.events (index : ℕ) (block : Block codec) : List (ClaudeResponse J) :=
  blockStart index block.start :: block.deltas.map (blockDelta index) ++ [blockStop index]

def messageStart : ClaudeResponse J where
  type := "message_start"

def messageDelta (stopReason : String) : ClaudeResponse J where
  type := "message_delta"
  delta := some { type := "", stopReason := some stopReason }

def messageStop : ClaudeResponse J where
  type := "message_stop"

def eventsOf (blocks : List (Block codec)) (stopReason : String) : List (ClaudeResponse J) :=
  messageStart :: (blocks.zipIdx.flatMap fun block ↦ block.1.events block.2) ++
    [messageDelta stopReason, messageStop]

def responseOf (blocks : List (Block codec)) (stopReason : String) : ClaudeResponse J where
  type := "message"
  content := blocks.map Block.message
  stopReason := stopReason

end Messages

section Property

variable {J : Type} {codec : Codec J}

structure Called (J : Type) where
  id : String
  name : Text
  arguments : Option J

/-- What a client reads of an answer. -/
@[ext]
structure Answer (J : Type) where
  content : Text
  reasoning : Text
  calls : List (Called J)

def Converted.delta? : Converted → Option Delta
  | .chunk choice => some choice.delta
  | _ => none

def deltasOf (events : List (ClaudeResponse J)) : List Delta :=
  events.filterMap fun event ↦ (streamResponseClaude2OpenAI event).delta?

def fragmentsOf (deltas : List Delta) : List ToolCallResponse :=
  deltas.flatMap (·.toolCalls.getD [])

/-- A call put together from its fragments. -/
def assembled (codec : Codec J) (fragments : List ToolCallResponse) : Called J where
  id := ((fragments.map (·.id)).find? (· ≠ "")).getD ""
  name := fragments.flatMap (·.function.name)
  arguments := codec.unmarshal (fragments.flatMap (·.function.arguments))

def callIndices (events : List (ClaudeResponse J)) : List (Option ℤ) :=
  ((fragmentsOf (deltasOf events)).map (·.index)).eraseDups

def isSignature (event : ClaudeResponse J) : Bool := event.delta.any (·.type = "signature_delta")

/-- The chunks of a stream put together, without the separators for signatures. -/
def accumulated (codec : Codec J) (events : List (ClaudeResponse J)) : Answer J where
  content := (deltasOf events).flatMap (·.content.getD [])
  reasoning := (deltasOf (events.filter (!isSignature ·))).flatMap (·.reasoningContent.getD [])
  calls := (callIndices events).map fun index ↦
    assembled codec ((fragmentsOf (deltasOf events)).filter (·.index = index))

def answered (codec : Codec J) (choice : OpenAITextResponseChoice) : Answer J where
  content := choice.message.stringContent
  reasoning := choice.message.reasoningContent.getD []
  calls := choice.message.toolCalls.map fun call ↦ {
    id := call.id
    name := call.function.name
    arguments := codec.unmarshal call.function.arguments }

def textOf (blocks : List (Block codec)) : Text := (blocks.filterMap Block.text?).flatten

def thinkingOf (blocks : List (Block codec)) : Text := (blocks.filterMap Block.thinking?).flatten

structure Agrees (blocks : List (Block codec)) (stopReason : String) : Prop where
  same : answered codec (responseClaude2OpenAI codec.marshal (responseOf blocks stopReason)) =
    accumulated codec (eventsOf blocks stopReason)
  text_kept : (accumulated codec (eventsOf blocks stopReason)).content = textOf blocks
  thinking_kept : (accumulated codec (eventsOf blocks stopReason)).reasoning = thinkingOf blocks
  indices : callIndices (eventsOf blocks stopReason) =
    (List.range (blocks.filterMap Block.tool?).length).map fun k : ℕ ↦ some (k : ℤ)

/-- Nothing but the last text and one thinking, tools in front with an input that is written. -/
structure Plain (blocks : List (Block codec)) : Prop where
  texts : ∀ text ∈ (blocks.filterMap Block.text?).dropLast, text = []
  thinkings : (∀ text ∈ (blocks.filterMap Block.thinking?).dropLast, text = []) ∨
    (blocks.head?.bind Block.thinking?).isSome ∧
      ∀ text ∈ (blocks.filterMap Block.thinking?).tail, text = []
  tools_first : blocks.Pairwise fun before after ↦
    after.tool?.isSome → before.tool?.isSome
  inputs : ∀ tool ∈ blocks.filterMap Block.tool?, tool.partials.flatten ≠ []

end Property

section Stream

variable {J : Type} {codec : Codec J}

def deltaAt (event : ClaudeResponse J) : Delta :=
  (streamResponseClaude2OpenAI event).delta?.getD {}

/-- What is read of the chunks is read event by event. -/
theorem flatMap_deltasOf {β : Type} (read : Delta → List β) (hread : read {} = [])
    (events : List (ClaudeResponse J)) :
    (deltasOf events).flatMap read = events.flatMap fun event ↦ read (deltaAt event) := by
  induction events with
  | nil => rfl
  | cons event events ih =>
    rw [deltasOf, List.filterMap_cons, List.flatMap_cons, ← ih, deltaAt]
    cases (streamResponseClaude2OpenAI event).delta? with
    | none => exact (congrArg (· ++ _) hread).symm
    | some delta => rfl

theorem flatMap_eventsOf {β : Type} {read : ClaudeResponse J → List β}
    (hstart : read messageStart = []) (hend : ∀ stopReason, read (messageDelta stopReason) = [])
    (hstop : read messageStop = []) (blocks : List (Block codec)) (stopReason : String) :
    (eventsOf blocks stopReason).flatMap read =
      blocks.zipIdx.flatMap fun block ↦ (block.1.events block.2).flatMap read := by
  rw [eventsOf, List.flatMap_append, List.flatMap_cons, hstart, List.nil_append,
    List.flatMap_assoc, List.flatMap_cons, hend, List.flatMap_cons, hstop]
  exact List.append_nil _

theorem flatMap_events {β : Type} {read : ClaudeResponse J → List β}
    (hstop : ∀ index, read (blockStop index) = []) (index : ℕ) (block : Block codec) :
    (block.events index).flatMap read =
      read (blockStart index block.start) ++
        block.deltas.flatMap fun delta ↦ read (blockDelta index delta) := by
  rw [Block.events, List.flatMap_append, List.flatMap_cons, List.flatMap_map,
    List.flatMap_singleton, hstop, List.append_nil]

theorem flatMap_zipIdx {α β : Type} (read : α → List β) (l : List α) :
    (l.zipIdx.flatMap fun p ↦ read p.1) = l.flatMap read := by
  have hfst : l.zipIdx.map Prod.fst = l := List.zipIdx_map_fst 0 l
  conv_rhs => rw [← hfst, List.flatMap_map]

theorem flatMap_nothing {α β : Type} (l : List α) : l.flatMap (fun _ ↦ ([] : List β)) = [] :=
  List.flatMap_eq_nil_iff.mpr fun _ _ ↦ rfl

theorem block_content (block : Block codec) (index : ℕ) :
    (block.events index).flatMap (fun event ↦ (deltaAt event).content.getD []) =
      block.text?.getD [] := by
  rw [flatMap_events fun _ ↦ rfl]
  cases block with
  | text start pieces =>
    rw [Block.deltas, List.flatMap_map]
    exact congrArg (start ++ ·) (List.flatMap_id' (L := pieces))
  | thinking pieces =>
    rw [Block.deltas, List.flatMap_map]
    refine List.flatMap_eq_nil_iff.mpr fun piece _ ↦ ?_
    cases piece <;> rfl
  | toolUse tool =>
    rw [Block.deltas, List.flatMap_map]
    exact flatMap_nothing tool.partials

theorem stream_content (blocks : List (Block codec)) (stopReason : String) :
    (accumulated codec (eventsOf blocks stopReason)).content = textOf blocks := by
  rw [accumulated, flatMap_deltasOf (fun delta ↦ delta.content.getD []) rfl,
    flatMap_eventsOf rfl (fun _ ↦ rfl) rfl, textOf, Picking.flatten_filterMap]
  simp only [block_content]
  exact flatMap_zipIdx (fun block ↦ block.text?.getD []) blocks

/-- The reasoning of an event, unless it is for a signature. -/
def reasoningAt (event : ClaudeResponse J) : Text :=
  if isSignature event then [] else (deltaAt event).reasoningContent.getD []

theorem block_reasoning (block : Block codec) (index : ℕ) :
    (block.events index).flatMap reasoningAt = block.thinking?.getD [] := by
  rw [flatMap_events fun _ ↦ rfl]
  cases block with
  | text start pieces =>
    rw [Block.deltas, List.flatMap_map]
    exact flatMap_nothing pieces
  | thinking pieces =>
    rw [Block.deltas, List.flatMap_map]
    refine congrArg (List.flatMap · pieces) (funext fun piece ↦ ?_)
    cases piece <;> rfl
  | toolUse tool =>
    rw [Block.deltas, List.flatMap_map]
    exact flatMap_nothing tool.partials

theorem flatMap_filter {α β : Type} (p : α → Bool) (read : α → List β) (l : List α) :
    (l.filter p).flatMap read = l.flatMap fun a ↦ if p a then read a else [] := by
  induction l with
  | nil => rfl
  | cons a l ih =>
    rw [List.filter_cons, List.flatMap_cons, ← ih]
    split
    · rw [List.flatMap_cons]
    · rfl

theorem stream_reasoning (blocks : List (Block codec)) (stopReason : String) :
    (accumulated codec (eventsOf blocks stopReason)).reasoning = thinkingOf blocks := by
  have hread : (accumulated codec (eventsOf blocks stopReason)).reasoning =
      (eventsOf blocks stopReason).flatMap reasoningAt := by
    rw [accumulated, flatMap_deltasOf (fun delta ↦ delta.reasoningContent.getD []) rfl,
      flatMap_filter]
    refine congrArg (List.flatMap · _) (funext fun event ↦ ?_)
    rw [reasoningAt]
    cases isSignature event <;> rfl
  rw [hread, flatMap_eventsOf rfl (fun _ ↦ rfl) rfl, thinkingOf, Picking.flatten_filterMap]
  simp only [block_reasoning]
  exact flatMap_zipIdx (fun block ↦ block.thinking?.getD []) blocks

end Stream

section Calls

variable {J : Type} {codec : Codec J}

def startFragment (index : ℕ) (tool : ToolUse codec) : ToolCallResponse where
  index := some index
  id := tool.id
  function := { name := tool.name, arguments := [] }

def inputFragment (index : ℕ) (piece : Text) : ToolCallResponse where
  index := some index
  id := ""
  function := { name := [], arguments := piece }

def toolFragments (index : ℕ) (tool : ToolUse codec) : List ToolCallResponse :=
  startFragment index tool :: tool.partials.map (inputFragment index)

theorem block_fragments (block : Block codec) (index : ℕ) :
    (block.events index).flatMap (fun event ↦ (deltaAt event).toolCalls.getD []) =
      (block.tool?.map (toolFragments index)).getD [] := by
  rw [flatMap_events fun _ ↦ rfl]
  cases block with
  | text start pieces =>
    rw [Block.deltas, List.flatMap_map]
    exact flatMap_nothing pieces
  | thinking pieces =>
    rw [Block.deltas, List.flatMap_map]
    refine List.flatMap_eq_nil_iff.mpr fun piece _ ↦ ?_
    cases piece <;> rfl
  | toolUse tool =>
    rw [Block.deltas, List.flatMap_map]
    exact congrArg (startFragment index tool :: ·)
      (List.map_eq_flatMap (f := inputFragment index) (l := tool.partials)).symm

theorem stream_fragments (blocks : List (Block codec)) (stopReason : String) :
    fragmentsOf (deltasOf (eventsOf blocks stopReason)) =
      (Picking.picked Block.tool? blocks 0).flatMap fun p ↦ toolFragments p.2 p.1 := by
  rw [fragmentsOf, flatMap_deltasOf (fun delta ↦ delta.toolCalls.getD []) rfl,
    flatMap_eventsOf rfl (fun _ ↦ rfl) rfl]
  simp only [block_fragments]
  exact Picking.flatMap_picked toolFragments blocks 0

def groupsOf (blocks : List (Block codec)) : List (Option ℤ × List ToolCallResponse) :=
  (Picking.picked Block.tool? blocks 0).map fun p ↦ (some (p.2 : ℤ), toolFragments p.2 p.1)

theorem grouped_fragments (blocks : List (Block codec)) :
    Grouping.Grouped (fun fragment : ToolCallResponse ↦ fragment.index) (groupsOf blocks) where
  nodup := by
    have hplaces := Picking.nodup_places (f := Block.tool?) blocks 0
    have hkeys : (groupsOf blocks).map (·.1) =
        ((Picking.picked Block.tool? blocks 0).map (·.2)).map fun k : ℕ ↦ some (k : ℤ) := by
      rw [groupsOf, List.map_map, List.map_map]
      rfl
    rw [hkeys]
    exact hplaces.map fun j k hjk ↦ Int.ofNat_inj.mp (Option.some.inj hjk)
  nonempty group hgroup := by
    obtain ⟨p, _, rfl⟩ := List.mem_map.mp hgroup
    exact List.cons_ne_nil _ _
  keyed group hgroup fragment hfragment := by
    obtain ⟨p, _, rfl⟩ := List.mem_map.mp hgroup
    rcases List.mem_cons.mp hfragment with rfl | hinput
    · rfl
    · obtain ⟨piece, _, rfl⟩ := List.mem_map.mp hinput
      rfl

theorem stream_groups (blocks : List (Block codec)) (stopReason : String) :
    fragmentsOf (deltasOf (eventsOf blocks stopReason)) = (groupsOf blocks).flatMap (·.2) := by
  rw [stream_fragments, groupsOf, List.flatMap_map]

theorem stream_indices (blocks : List (Block codec)) (stopReason : String) :
    callIndices (eventsOf blocks stopReason) = (groupsOf blocks).map (·.1) := by
  rw [callIndices, stream_groups]
  exact (grouped_fragments blocks).keys

def streamedCall (tool : ToolUse codec) : Called J where
  id := tool.id
  name := tool.name
  arguments := codec.unmarshal tool.partials.flatten

theorem assembled_toolFragments (index : ℕ) (tool : ToolUse codec) :
    assembled codec (toolFragments index tool) = streamedCall tool := by
  have hid : (((toolFragments index tool).map (·.id)).find? (· ≠ "")).getD "" = tool.id := by
    by_cases hempty : tool.id = ""
    · have hnone : ((toolFragments index tool).map (·.id)).find? (· ≠ "") = none := by
        refine List.find?_eq_none.mpr fun id hid ↦ ?_
        obtain ⟨fragment, hfragment, rfl⟩ := List.mem_map.mp hid
        rcases List.mem_cons.mp hfragment with rfl | hinput
        · exact fun h ↦ of_decide_eq_true h hempty
        · obtain ⟨piece, _, rfl⟩ := List.mem_map.mp hinput
          simp [inputFragment]
      rw [hnone, hempty]
      rfl
    · have hfirst : ((toolFragments index tool).map (·.id)).find? (· ≠ "") = some tool.id :=
        List.find?_cons_of_pos (decide_eq_true hempty)
      rw [hfirst]
      rfl
  have hname : (toolFragments index tool).flatMap (·.function.name) = tool.name := by
    rw [toolFragments, List.flatMap_cons, List.flatMap_map]
    exact (congrArg (tool.name ++ ·) (flatMap_nothing tool.partials)).trans (List.append_nil _)
  have harguments : (toolFragments index tool).flatMap (·.function.arguments) =
      tool.partials.flatten := by
    rw [toolFragments, List.flatMap_cons, List.flatMap_map]
    exact List.flatMap_id' (L := tool.partials)
  rw [assembled, hid, hname, harguments]
  rfl

theorem stream_calls (blocks : List (Block codec)) (stopReason : String) :
    (accumulated codec (eventsOf blocks stopReason)).calls =
      (blocks.filterMap Block.tool?).map streamedCall := by
  have hgroup : ∀ group ∈ groupsOf blocks,
      assembled codec ((fragmentsOf (deltasOf (eventsOf blocks stopReason))).filter
        (·.index = group.1)) = assembled codec group.2 := by
    intro group hmem
    rw [stream_groups]
    exact congrArg _ ((grouped_fragments blocks).filter_eq hmem)
  rw [accumulated, stream_indices, List.map_map, ← Picking.map_fst_picked blocks 0, List.map_map]
  refine (List.map_congr_left hgroup).trans ?_
  rw [groupsOf, List.map_map]
  exact List.map_congr_left fun p _ ↦ assembled_toolFragments p.2 p.1

end Calls

section Response

variable {J : Type} {codec : Codec J}

def toolRequest (tool : ToolUse codec) : ToolCallRequest where
  id := tool.id
  function := { name := tool.name, arguments := codec.marshal (some tool.input) }

/-- Of the texts and of the thinking the last is kept. -/
theorem foldl_readBlock (blocks : List (Block codec)) (read : Read) :
    (blocks.map Block.message).foldl (readBlock codec.marshal) read = {
      responseText := ((blocks.filterMap Block.text?).getLast?).getD read.responseText
      thinkingContent := ((blocks.filterMap Block.thinking?).getLast?).getD read.thinkingContent
      tools := read.tools ++ (blocks.filterMap Block.tool?).map toolRequest } := by
  induction blocks generalizing read with
  | nil => exact congrArg (Read.mk _ _) (List.append_nil _).symm
  | cons block blocks ih =>
    rw [List.map_cons, List.foldl_cons, ih]
    cases block with
    | text start pieces =>
      simp only [List.filterMap_cons, Block.text?, Block.thinking?, Block.tool?,
        List.getLast?_cons, Option.getD_some]
      rfl
    | thinking pieces =>
      simp only [List.filterMap_cons, Block.text?, Block.thinking?, Block.tool?,
        List.getLast?_cons, Option.getD_some]
      rfl
    | toolUse tool =>
      simp only [List.filterMap_cons, Block.text?, Block.thinking?, Block.tool?, List.map_cons]
      exact congrArg (Read.mk _ _) (List.append_assoc read.tools [toolRequest tool] _)

theorem answered_content (blocks : List (Block codec)) (stopReason : String) :
    (answered codec (responseClaude2OpenAI codec.marshal (responseOf blocks stopReason))).content =
      ((blocks.filterMap Block.text?).getLast?).getD [] := by
  rw [answered, responseClaude2OpenAI, responseOf, foldl_readBlock]
  cases blocks with
  | nil => rfl
  | cons block blocks =>
    cases block with
    | text start pieces =>
      simp only [List.filterMap_cons, Block.text?, List.getLast?_cons]
      rfl
    | thinking pieces => rfl
    | toolUse tool => rfl

theorem answered_calls (blocks : List (Block codec)) (stopReason : String) :
    (answered codec (responseClaude2OpenAI codec.marshal (responseOf blocks stopReason))).calls =
      (blocks.filterMap Block.tool?).map fun tool ↦ {
        id := tool.id
        name := tool.name
        arguments := some tool.input } := by
  rw [answered, responseClaude2OpenAI, responseOf, foldl_readBlock, List.nil_append, List.map_map]
  refine List.map_congr_left fun tool _ ↦ ?_
  exact congrArg (Called.mk tool.id tool.name) (codec.unmarshal_marshal tool.input)

theorem reasoning_getD (thinkingContent responseThinking : Text) :
    (if thinkingContent ≠ [] then some thinkingContent
      else if 0 < responseThinking.length then some responseThinking else none).getD [] =
      if thinkingContent ≠ [] then thinkingContent else responseThinking := by
  split
  · rfl
  · cases responseThinking <;> rfl

/-- Where the last thinking is empty, the first block stands in for it. -/
theorem answered_reasoning (blocks : List (Block codec)) (stopReason : String) :
    (answered codec (responseClaude2OpenAI codec.marshal (responseOf blocks stopReason))).reasoning =
      if ((blocks.filterMap Block.thinking?).getLast?).getD [] ≠ [] then
        ((blocks.filterMap Block.thinking?).getLast?).getD []
      else (blocks.head?.bind Block.thinking?).getD [] := by
  have hfirst : (((blocks.map Block.message).head?).bind (·.thinking)).getD [] =
      (blocks.head?.bind Block.thinking?).getD [] := by
    rw [List.head?_map]
    cases blocks with
    | nil => rfl
    | cons block blocks => cases block <;> rfl
  rw [answered, responseClaude2OpenAI, responseOf, foldl_readBlock, hfirst]
  exact reasoning_getD _ _

end Response

section Result

variable {J : Type} {codec : Codec J}

theorem flatten_eq_last_iff (l : List Text) :
    l.flatten = l.getLast?.getD [] ↔ ∀ text ∈ l.dropLast, text = [] := by
  induction l using List.reverseRecOn with
  | nil => simp
  | append_singleton l last _ =>
    rw [List.flatten_append, List.getLast?_concat, List.dropLast_concat, List.flatten_singleton,
      Option.getD_some, List.append_left_eq_self, List.flatten_eq_nil_iff]

theorem flatten_eq_first_iff (l : List Text) :
    l.flatten = l.head?.getD [] ↔ ∀ text ∈ l.tail, text = [] := by
  cases l with
  | nil => simp
  | cons first l =>
    rw [List.flatten_cons, List.head?_cons, Option.getD_some, List.append_right_eq_self,
      List.flatten_eq_nil_iff, List.tail_cons]

/-- A first thinking that stands in for an empty last one is the first block. -/
theorem reasoning_iff (blocks : List (Block codec)) :
    (if ((blocks.filterMap Block.thinking?).getLast?).getD [] ≠ [] then
        ((blocks.filterMap Block.thinking?).getLast?).getD []
      else (blocks.head?.bind Block.thinking?).getD []) = thinkingOf blocks ↔
    (∀ text ∈ (blocks.filterMap Block.thinking?).dropLast, text = []) ∨
      (blocks.head?.bind Block.thinking?).isSome ∧
        ∀ text ∈ (blocks.filterMap Block.thinking?).tail, text = [] := by
  have hlast := flatten_eq_last_iff (blocks.filterMap Block.thinking?)
  have hhead : ∀ first, blocks.head?.bind Block.thinking? = some first →
      (blocks.filterMap Block.thinking?).head? = some first := by
    intro first hfirst
    cases blocks with
    | nil => exact absurd hfirst (Option.some_ne_none first).symm
    | cons block blocks =>
      have hblock : block.thinking? = some first := hfirst
      rw [List.filterMap_cons, hblock, List.head?_cons]
  rw [thinkingOf]
  generalize blocks.filterMap Block.thinking? = texts at hlast hhead ⊢
  split
  · next hne =>
    refine (eq_comm.trans hlast).trans (or_iff_left_of_imp ?_).symm
    rintro ⟨hsome, htail⟩
    obtain ⟨first, hfirst⟩ := Option.isSome_iff_exists.mp hsome
    have hflatten := (flatten_eq_first_iff texts).mpr htail
    cases texts with
    | nil => exact absurd rfl hne
    | cons text texts =>
      cases texts with
      | nil => exact fun _ h ↦ absurd h List.not_mem_nil
      | cons other texts =>
        refine absurd (htail _ ?_) hne
        rw [List.getLast?_cons_cons, List.tail_cons, List.getLast?_cons, Option.getD_some]
        cases hrest : texts.getLast? with
        | none => exact List.mem_cons_self
        | some last => exact List.mem_cons_of_mem other (List.mem_of_getLast? hrest)
  · next hempty =>
    rw [not_not.mp hempty] at hlast
    cases hfirst : blocks.head?.bind Block.thinking? with
    | none =>
      refine (eq_comm.trans hlast).trans (or_iff_left_of_imp ?_).symm
      rintro ⟨hsome, -⟩
      exact absurd hsome Bool.false_ne_true
    | some first =>
      have hflatten := flatten_eq_first_iff texts
      rw [hhead first hfirst] at hflatten
      refine (eq_comm.trans hflatten).trans ((or_iff_right_of_imp ?_).trans
        (and_iff_right rfl)).symm
      intro hdrop
      refine ⟨rfl, fun text htext ↦ ?_⟩
      exact List.flatten_eq_nil_iff.mp (hlast.mpr hdrop) text (List.mem_of_mem_tail htext)

theorem inputs_iff (blocks : List (Block codec)) :
    ((blocks.filterMap Block.tool?).map fun tool ↦
        (⟨tool.id, tool.name, some tool.input⟩ : Called J)) =
        (blocks.filterMap Block.tool?).map streamedCall ↔
      ∀ tool ∈ blocks.filterMap Block.tool?, tool.partials.flatten ≠ [] := by
  rw [List.map_inj_left]
  refine forall₂_congr fun tool _ ↦ ?_
  have hsame : (⟨tool.id, tool.name, some tool.input⟩ : Called J) = streamedCall tool ↔
      some tool.input = codec.unmarshal tool.partials.flatten :=
    ⟨congrArg Called.arguments, congrArg (Called.mk tool.id tool.name)⟩
  rw [hsame]
  constructor
  · intro hread hnil
    rw [hnil, codec.unmarshal_nil] at hread
    exact Option.some_ne_none _ hread
  · intro hne
    exact (tool.reads.resolve_right fun h ↦ hne h.1).symm

/-- Both ways agree exactly on messages with one text, one thinking and the tools in front. -/
theorem agrees_iff_plain (blocks : List (Block codec)) (stopReason : String) :
    Agrees blocks stopReason ↔ Plain blocks := by
  have hcontent := answered_content blocks stopReason
  have hreasoning := answered_reasoning blocks stopReason
  have hcalls := answered_calls blocks stopReason
  have hindices : callIndices (eventsOf blocks stopReason) =
      (List.range (blocks.filterMap Block.tool?).length).map (fun k : ℕ ↦ some (k : ℤ)) ↔
      blocks.Pairwise fun before after ↦ after.tool?.isSome → before.tool?.isSome := by
    have hkeys : (groupsOf blocks).map (·.1) =
        ((Picking.picked Block.tool? blocks 0).map (·.2)).map fun k : ℕ ↦ some (k : ℤ) := by
      rw [groupsOf, List.map_map, List.map_map]
      rfl
    have hinj : Function.Injective fun k : ℕ ↦ some (k : ℤ) := fun j k hjk ↦
      Int.ofNat_inj.mp (Option.some.inj hjk)
    rw [stream_indices, hkeys, (List.map_injective_iff.mpr hinj).eq_iff, List.range_eq_range']
    exact Picking.places_eq_range'_iff blocks 0
  constructor
  · intro h
    have htext := (congrArg Answer.content h.same).trans h.text_kept
    have hthinking := (congrArg Answer.reasoning h.same).trans h.thinking_kept
    have hcall := (congrArg Answer.calls h.same).trans (stream_calls blocks stopReason)
    rw [hcontent] at htext
    rw [hreasoning] at hthinking
    rw [hcalls] at hcall
    exact ⟨(flatten_eq_last_iff _).mp htext.symm, (reasoning_iff blocks).mp hthinking,
      hindices.mp h.indices, (inputs_iff blocks).mp hcall⟩
  · intro h
    refine ⟨?_, stream_content blocks stopReason, stream_reasoning blocks stopReason,
      hindices.mpr h.tools_first⟩
    have htext := hcontent.trans ((flatten_eq_last_iff _).mpr h.texts).symm
    have hthinking := hreasoning.trans ((reasoning_iff blocks).mpr h.thinkings)
    have hcall := hcalls.trans ((inputs_iff blocks).mpr h.inputs)
    exact Answer.ext (htext.trans (stream_content blocks stopReason).symm)
      (hthinking.trans (stream_reasoning blocks stopReason).symm)
      (hcall.trans (stream_calls blocks stopReason).symm)

/-- JSON with no value but an object without fields. -/
def emptyObjects : Codec Unit where
  marshal _ := ['\x7b', '\x7d']
  unmarshal text := if text = ['\x7b', '\x7d'] then some () else none
  emptyObject := ()
  unmarshal_marshal _ := if_pos rfl
  unmarshal_nil := if_neg (List.cons_ne_nil _ _).symm

def twoTexts : List (Block emptyObjects) := [.text [] [['a']], .text [] [['b']]]

theorem two_texts_disagree : ¬ Agrees twoTexts "end_turn" := by
  intro h
  have hcontent := congrArg Answer.content h.same
  have hanswered : (answered emptyObjects (responseClaude2OpenAI emptyObjects.marshal
      (responseOf twoTexts "end_turn"))).content = ['b'] := answered_content twoTexts "end_turn"
  rw [hanswered, h.text_kept] at hcontent
  exact absurd hcontent (by decide)

end Result

end AllAiTools.NewApi.Relay.RelayClaude
