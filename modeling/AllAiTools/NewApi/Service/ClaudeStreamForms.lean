import AllAiTools.NewApi.Service.StreamOpenAI2Claude

namespace AllAiTools.NewApi.Service.ClaudeStreamForms

open Dto.OpenAIResponse (Text Function ToolCallResponse)
open StreamOpenAI2Claude

section Form

inductive BlockType
  | text
  | thinking
  | toolUse
  deriving DecidableEq

def ContentBlock.blockType : ContentBlock → BlockType
  | .text => .text
  | .thinking => .thinking
  | .toolUse _ _ => .toolUse

def BlockDelta.blockType : BlockDelta → BlockType
  | .textDelta _ => .text
  | .thinkingDelta _ => .thinking
  | .inputJsonDelta _ => .toolUse

/-- How far a message has come; of its blocks those that are open have their type. -/
inductive Form
  | fresh
  | started (blocks : List (Option BlockType))
  | answered
  | ended

/-- A client takes an event, or it cannot: blocks are started in order, get deltas of their type as long
as they are open, and are all stopped before the message is. -/
def Form.receive : Form → ClaudeResponse → Option Form
  | .fresh, .messageStart _ _ _ => some (.started [])
  | .started blocks, .contentBlockStart index contentBlock =>
    if index = blocks.length then some (.started (blocks ++
      [some (ContentBlock.blockType contentBlock)])) else none
  | .started blocks, .contentBlockDelta index delta =>
    if 0 ≤ index ∧ blocks[index.toNat]? = some (some (BlockDelta.blockType delta)) then some (.started blocks)
    else none
  | .started blocks, .contentBlockStop index =>
    if 0 ≤ index ∧ (blocks[index.toNat]?.join).isSome then some (.started (blocks.set index.toNat none)) else none
  | .started blocks, .messageDelta _ _ => if blocks.all (·.isNone) then some .answered else none
  | .answered, .messageStop => some .ended
  | _, _ => none

def Form.receiveAll (form : Form) (events : List ClaudeResponse) :
    Option Form := events.foldlM Form.receive form

/-- Events that a client can take from the start of a message to its end. -/
def WellFormed (events : List ClaudeResponse) : Prop := Form.fresh.receiveAll events = some .ended

end Form

section Telling

/-- What is being told: nothing, a text, or calls, of which so many are started and one is the last. -/
inductive Voice
  | silent
  | text
  | thinking
  | tools (started : ℕ) (maxOffset : ℤ)

inductive Phase
  | speaking (voice : Voice)
  | closed

namespace Voice

/-- Every call that was told of is started. -/
def ready : Voice → Bool
  | .tools started maxOffset => started = maxOffset + 1
  | _ => true

def close (voice : Voice) (usable : Bool) :
    Option Phase := if voice.ready && usable then some .closed else none

def say : Voice → BlockDelta → Option Voice
  | .text, .textDelta _ => some .text
  | .thinking, .thinkingDelta _ => some .thinking
  | voice, .textDelta _ => if voice.ready then some .text else none
  | voice, .thinkingDelta _ => if voice.ready then some .thinking else none
  | _, .inputJsonDelta _ => none

/-- A call starts with a fragment that names it, in the order of the calls. -/
def fragment (started : ℕ) (p : ℤ × ToolCallResponse) : Option ℕ :=
  if p.2.function.name ≠ [] then if p.1 = started then some (started + 1) else none
  else if p.2.function.arguments ≠ [] then if 0 ≤ p.1 ∧ p.1 < started then some started else none
  else some started

def call (voice : Voice) (toolCalls : List ToolCallResponse) : Option Voice :=
  let (started, maxOffset) :=
    match voice with
    | .tools started maxOffset => (started, maxOffset)
    | _ => (0, 0)
  ((offsets toolCalls).foldlM fragment started).map fun started ↦
    .tools started ((offsets toolCalls).foldl (fun maxOffset p ↦ max maxOffset p.1) maxOffset)

def first (delta : Delta) : Voice :=
  match spoken delta with
  | none => if delta.toolCalls = [] then .silent else .tools 1 0
  | some (.thinkingDelta _) => .thinking
  | some _ => .text

def next (voice : Voice) (delta : Delta) : Option Voice :=
  match delta.toolCalls, spoken delta with
  | [], none => some voice
  | [], some said => voice.say said
  | toolCalls, _ => voice.call toolCalls

/-- The first chunk; a message can only end with a usage. -/
def begins (usable : Bool) (chunk : ChatCompletionsStreamResponse) : Option Phase :=
  match chunk.choices with
  | [] => some (.speaking .silent)
  | choice :: _ =>
    if choice.finished then (first choice.delta).close usable else some (.speaking (first choice.delta))

def continues (usable : Bool) (voice : Voice) (chunk : ChatCompletionsStreamResponse) : Option Phase :=
  match chunk.choices with
  | [] => if usable then voice.close true else some (.speaking voice)
  | choice :: _ =>
    if choice.finished then
      if chunk.usage.isNone then some (.speaking voice)
      else (voice.next choice.delta).bind fun voice ↦ voice.close true
    else (voice.next choice.delta).map .speaking

end Voice

def Phase.hear (usable : Bool) : Phase → ChatCompletionsStreamResponse → Option Phase
  | .closed, _ => some .closed
  | .speaking voice, chunk => voice.continues usable chunk

/-- The chunks after the first; the last can be closed with the usage that is billed. -/
def Phase.hearAll (usable : Bool) (phase : Phase) : List (Option ChatCompletionsStreamResponse) → Option Phase
  | [] => some phase
  | [none] => some phase
  | [some chunk] => phase.hear true chunk
  | none :: rest => phase.hearAll usable rest
  | some chunk :: rest => do
    let usable := usable || chunk.usage.isSome
    (← phase.hear usable chunk).hearAll usable rest

/-- Chunks that a message can be told by: the first of at least three begins it, or one of two does and
ends it as well. -/
def Regular : List (Option ChatCompletionsStreamResponse) → Prop
  | [] | [_] | none :: _ :: _ :: _ | [none, none] => False
  | [some chunk, _] => Voice.begins chunk.usage.isSome chunk = some .closed
  | [none, some chunk] => Voice.begins true chunk = some .closed
  | some chunk :: rest =>
    ((Voice.begins chunk.usage.isSome chunk).bind fun phase ↦ phase.hearAll chunk.usage.isSome rest) =
      some .closed

end Telling

section Client

@[simp] theorem receiveAll_nil (form : Form) : form.receiveAll [] = some form := rfl

@[simp] theorem receiveAll_cons (form : Form) (event : ClaudeResponse) (events : List ClaudeResponse) :
    form.receiveAll (event :: events) = (form.receive event).bind fun form ↦ form.receiveAll events :=
  List.foldlM_cons

theorem receiveAll_append (form : Form) (first rest : List ClaudeResponse) :
    form.receiveAll (first ++ rest) = (form.receiveAll first).bind fun form ↦ form.receiveAll rest :=
  List.foldlM_append

/-- Blocks of which only the last are open. -/
def opened (before : ℕ) (type : BlockType) (count : ℕ) : List (Option BlockType) :=
  List.replicate before none ++ List.replicate count (some type)

theorem opened_length (before : ℕ) (type : BlockType) (count : ℕ) :
    (opened before type count).length = before + count := by
  rw [opened, List.length_append, List.length_replicate, List.length_replicate]

theorem opened_get (before : ℕ) (type : BlockType) (count i : ℕ) :
    (opened before type count)[i]? =
      if i < before then some none else if i < before + count then some (some type) else none := by
  rw [opened, List.getElem?_append, List.length_replicate, List.getElem?_replicate, List.getElem?_replicate]
  by_cases hi : i < before
  · rw [if_pos hi, if_pos hi, if_pos hi]
  · rw [if_neg hi, if_neg hi]
    by_cases hi' : i < before + count
    · rw [if_pos hi', if_pos (by omega)]
    · rw [if_neg hi', if_neg (by omega)]

theorem opened_zero (before : ℕ) (type : BlockType) : opened before type 0 = List.replicate before none := by
  rw [opened, List.replicate_zero, List.append_nil]

theorem opened_succ (before : ℕ) (type : BlockType) (count : ℕ) :
    opened before type count ++ [some type] = opened before type (count + 1) := by
  rw [opened, opened, List.append_assoc, ← List.replicate_succ']

theorem opened_set (before : ℕ) (type : BlockType) (count : ℕ) :
    (opened before type (count + 1)).set before none = opened (before + 1) type count := by
  rw [opened, opened, List.set_append_right _ _ (by simp), List.length_replicate, Nat.sub_self,
    List.replicate_succ, List.set_cons_zero, List.replicate_succ', List.append_assoc, List.singleton_append]

theorem opened_all (before : ℕ) (type : BlockType) (count : ℕ) :
    (opened before type count).all (·.isNone) = decide (count = 0) := by
  cases count with
  | zero => simp [opened]
  | succ count => simp [opened]

theorem receive_start (before : ℕ) (type : BlockType) (count : ℕ) (index : ℤ) (block : ContentBlock)
    (htype : ContentBlock.blockType block = type) :
    (Form.started (opened before type count)).receive (.contentBlockStart index block) =
      if index = before + count then some (.started (opened before type (count + 1))) else none := by
  rw [Form.receive, opened_length, htype, opened_succ, Nat.cast_add]

theorem receive_delta (before : ℕ) (type : BlockType) (count : ℕ) (index : ℤ) (delta : BlockDelta)
    (htype : BlockDelta.blockType delta = type) :
    (Form.started (opened before type count)).receive (.contentBlockDelta index delta) =
      if before ≤ index ∧ index < before + count then some (.started (opened before type count)) else none := by
  rw [Form.receive, htype]
  by_cases hindex : before ≤ index ∧ index < before + count
  · have hget : (opened before type count)[index.toNat]? = some (some type) := by
      rw [opened_get, if_neg (by omega), if_pos (by omega)]
    rw [if_pos hindex, if_pos ⟨by omega, hget⟩]
  · rw [if_neg hindex, if_neg]
    intro ⟨hpos, heq⟩
    rw [opened_get] at heq
    split at heq
    · cases heq
    · split at heq
      · omega
      · cases heq

theorem receive_stop (before : ℕ) (type : BlockType) (count : ℕ) :
    (Form.started (opened before type count)).receive (.contentBlockStop before) =
      if count = 0 then none else some (.started (opened (before + 1) type (count - 1))) := by
  have hget : (opened before type count)[(before : ℤ).toNat]? = if count =
      0 then none else some (some type) := by
    rw [Int.toNat_natCast, opened_get, if_neg (Nat.lt_irrefl before)]
    by_cases hcount : count = 0
    · rw [if_pos hcount, if_neg (by omega)]
    · rw [if_neg hcount, if_pos (by omega)]
  rw [Form.receive, hget]
  cases count with
  | zero => rw [if_pos rfl, if_pos rfl, if_neg (fun h ↦ absurd h.2 (by simp))]
  | succ count =>
    rw [if_neg (Nat.succ_ne_zero count), if_neg (Nat.succ_ne_zero count),
      if_pos ⟨Int.natCast_nonneg before, rfl⟩, Int.toNat_natCast, opened_set]
    rfl

/-- Blocks are stopped one after the other. -/
theorem receive_stops (before : ℕ) (type : BlockType) (count stops : ℕ) :
    (Form.started (opened before type count)).receiveAll
        ((List.range stops).map fun (offset : ℕ) ↦ .contentBlockStop (before + offset)) =
      if stops ≤ count then some (.started (opened (before + stops) type (count - stops))) else none := by
  induction stops with
  | zero => rfl
  | succ stops ih =>
    rw [List.range_succ, List.map_append, receiveAll_append, ih]
    by_cases hle : stops ≤ count
    · have hstop := receive_stop (before + stops) type (count - stops)
      rw [Nat.cast_add] at hstop
      rw [if_pos hle, Option.bind_some, List.map_singleton, receiveAll_cons, hstop]
      by_cases hlt : stops + 1 ≤ count
      · rw [if_neg (by omega), if_pos hlt, Nat.sub_sub, Nat.add_assoc]
        rfl
      · rw [if_pos (by omega), if_neg hlt]
        rfl
    · rw [if_neg hle, if_neg (by omega)]
      rfl

end Client

section Simulation

/-- The state of a converter and of a client, by what is being told. -/
def Agrees (info : RelayInfo) (blocks : List (Option BlockType)) : Voice → Prop
  | .silent => info.lastMessagesType = .none ∧ ∃ before : ℕ, info.index = before ∧
    blocks = opened before .text 0
  | .text => info.lastMessagesType = .text ∧ ∃ before : ℕ, info.index = before ∧
    blocks = opened before .text 1
  | .thinking =>
    info.lastMessagesType = .thinking ∧ ∃ before : ℕ, info.index = before ∧ blocks = opened before .thinking 1
  | .tools started maxOffset =>
    info.lastMessagesType = .tools ∧ info.toolCallMaxIndexOffset = maxOffset ∧ 0 ≤ maxOffset ∧
      started ≤ maxOffset + 1 ∧
      ∃ before : ℕ, info.toolCallBaseIndex = before ∧ blocks = opened before .toolUse started

variable {info : RelayInfo} {blocks : List (Option BlockType)} {voice : Voice}

/-- The open blocks can be stopped exactly if every call is started. -/
theorem Agrees.stop (h : Agrees info blocks voice) :
    ∃ before : ℕ, (Form.started blocks).receiveAll (stopOpenBlocks info) =
        (if voice.ready then some (.started (opened before .text 0)) else none) ∧
      (voice.ready = true → (advance info).lastMessagesType = .none ∧ (advance info).index = before) := by
  cases voice with
  | silent =>
    obtain ⟨hlast, before, hindex, rfl⟩ := h
    refine ⟨before, ?_, fun _ ↦ ?_⟩
    · rw [stopOpenBlocks, hlast]
      rfl
    · rw [advance, hlast]
      exact ⟨hlast, hindex⟩
  | text =>
    obtain ⟨hlast, before, hindex, rfl⟩ := h
    refine ⟨before + 1, ?_, fun _ ↦ ?_⟩
    · rw [stopOpenBlocks, hlast, hindex]
      dsimp only
      rw [receiveAll_cons, receive_stop]
      rfl
    · rw [advance, hlast]
      refine ⟨rfl, ?_⟩
      rw [hindex, Nat.cast_add]
      rfl
  | thinking =>
    obtain ⟨hlast, before, hindex, rfl⟩ := h
    refine ⟨before + 1, ?_, fun _ ↦ ?_⟩
    · rw [stopOpenBlocks, hlast, hindex]
      dsimp only
      rw [receiveAll_cons, receive_stop, if_neg Nat.one_ne_zero, Nat.sub_self, opened_zero, opened_zero]
      rfl
    · rw [advance, hlast]
      refine ⟨rfl, ?_⟩
      rw [hindex, Nat.cast_add]
      rfl
  | tools started maxOffset =>
    obtain ⟨hlast, hmax, hpos, hstarted, before, hbase, rfl⟩ := h
    refine ⟨before + started, ?_, fun hready ↦ ?_⟩
    · rw [stopOpenBlocks, hlast, hbase, hmax]
      dsimp only
      rw [receive_stops, Voice.ready]
      by_cases hready : (started : ℤ) = maxOffset + 1
      · have htoNat : (maxOffset + 1).toNat = started := by omega
        rw [htoNat, if_pos (Nat.le_refl _), if_pos (decide_eq_true hready), Nat.sub_self, opened_zero,
          opened_zero]
      · rw [if_neg (by omega), if_neg (by simp [hready])]
    · rw [Voice.ready, decide_eq_true_iff] at hready
      rw [advance, hlast]
      refine ⟨rfl, ?_⟩
      dsimp only
      rw [hbase, hmax, Nat.cast_add, hready]
      omega

/-- A client has come as far as what is being told, or has failed with it. -/
def Follows (info : RelayInfo) (form : Option Form) : Option Voice → Prop
  | none => form = none
  | some voice => ∃ blocks, form = some (.started blocks) ∧ Agrees info blocks voice

def FollowsTo (info : RelayInfo) (form : Option Form) : Option Phase → Prop
  | none => form = none
  | some (.speaking voice) => (∃ blocks, form = some (.started blocks) ∧ Agrees info blocks voice) ∧
    info.done = false
  | some .closed => form = some .ended ∧ info.done = true

theorem Agrees.silent {before : ℕ} (hlast : info.lastMessagesType = .none) (hindex : info.index = before)
    (hblocks : blocks = opened before .text 0) : Agrees info blocks .silent :=
      ⟨hlast, before, hindex, hblocks⟩

/-- What the converter knows besides its blocks does not matter. -/
theorem Agrees.frame {info' : RelayInfo} (h : Agrees info blocks voice)
    (hlast : info'.lastMessagesType = info.lastMessagesType) (hindex : info'.index = info.index)
    (hbase : info'.toolCallBaseIndex = info.toolCallBaseIndex)
    (hmax : info'.toolCallMaxIndexOffset = info.toolCallMaxIndexOffset) : Agrees info' blocks voice := by
  cases voice with
  | silent =>
    rw [Agrees, hlast, hindex]
    exact h
  | text =>
    rw [Agrees, hlast, hindex]
    exact h
  | thinking =>
    rw [Agrees, hlast, hindex]
    exact h
  | tools started maxOffset =>
    rw [Agrees, hlast, hbase, hmax]
    exact h

def voiceOf : BlockDelta → Voice
  | .textDelta _ => .text
  | .thinkingDelta _ => .thinking
  | .inputJsonDelta _ => .silent

/-- The open blocks are stopped, and another is started for a text. -/
theorem Agrees.speak_new (h : Agrees info blocks voice) (delta : BlockDelta) (htype : typeOf delta ≠ .tools) :
    Follows { advance info with lastMessagesType := typeOf delta }
      ((Form.started blocks).receiveAll (stopOpenBlocks info ++
        [.contentBlockStart (advance info).index (blockOf delta),
          .contentBlockDelta (advance info).index delta]))
      (if voice.ready then some (voiceOf delta) else none) := by
  obtain ⟨before, hstop, hadvance⟩ := h.stop
  rw [receiveAll_append, hstop]
  cases hready : voice.ready with
  | false => rfl
  | true =>
    obtain ⟨-, hindex⟩ := hadvance hready
    have hstarted : (Form.started (opened before .text 0)).receiveAll
        [.contentBlockStart (advance info).index (blockOf delta),
          .contentBlockDelta (advance info).index delta] =
        some (.started (opened before (BlockDelta.blockType delta) 1)) := by
      have hzero : opened before .text 0 = opened before (BlockDelta.blockType delta) 0 := by
        rw [opened_zero, opened_zero]
      have hblock : ContentBlock.blockType (blockOf delta) = BlockDelta.blockType delta := by
        cases delta with
        | _ => rfl
      rw [hzero, receiveAll_cons, receive_start _ _ _ _ _ hblock, if_pos (by simp [hindex]), Option.bind_some,
        receiveAll_cons, receive_delta _ _ _ _ _ rfl, if_pos (by simp [hindex])]
      rfl
    rw [if_pos rfl, if_pos rfl, Option.bind_some, hstarted]
    refine ⟨_, rfl, ?_⟩
    cases delta with
    | textDelta text => exact ⟨rfl, before, hindex, rfl⟩
    | thinkingDelta thinking => exact ⟨rfl, before, hindex, rfl⟩
    | inputJsonDelta partialJson => exact absurd rfl htype

/-- More of the text that is being told. -/
theorem Agrees.speak_on {delta : BlockDelta} (h : Agrees info blocks (voiceOf delta))
    (htype : typeOf delta ≠ .tools) :
    info.lastMessagesType = typeOf delta ∧
      (Form.started blocks).receiveAll [.contentBlockDelta info.index delta] = some (.started blocks) := by
  cases delta with
  | textDelta text =>
    obtain ⟨hlast, before, hindex, rfl⟩ := h
    refine ⟨hlast, ?_⟩
    rw [receiveAll_cons, receive_delta before .text 1 info.index (.textDelta text) rfl,
      if_pos (by simp [hindex])]
    rfl
  | thinkingDelta thinking =>
    obtain ⟨hlast, before, hindex, rfl⟩ := h
    refine ⟨hlast, ?_⟩
    rw [receiveAll_cons, receive_delta before .thinking 1 info.index (.thinkingDelta thinking) rfl,
      if_pos (by simp [hindex])]
    rfl
  | inputJsonDelta partialJson => exact absurd rfl htype

theorem Agrees.type_of_ne (h : Agrees info blocks voice) {delta : BlockDelta} (htype : typeOf delta ≠ .tools)
    (hvoice : voice ≠ voiceOf delta) :
    info.lastMessagesType ≠ typeOf delta ∧
      voice.say delta = if voice.ready then some (voiceOf delta) else none := by
  cases delta with
  | textDelta text =>
    cases voice with
    | text => exact absurd rfl hvoice
    | silent => exact ⟨by simp [h.1, typeOf], rfl⟩
    | thinking => exact ⟨by simp [h.1, typeOf], rfl⟩
    | tools started maxOffset => exact ⟨by simp [h.1, typeOf], rfl⟩
  | thinkingDelta thinking =>
    cases voice with
    | thinking => exact absurd rfl hvoice
    | silent => exact ⟨by simp [h.1, typeOf], rfl⟩
    | text => exact ⟨by simp [h.1, typeOf], rfl⟩
    | tools started maxOffset => exact ⟨by simp [h.1, typeOf], rfl⟩
  | inputJsonDelta partialJson => exact absurd rfl htype

theorem say_voiceOf {delta : BlockDelta} (htype : typeOf delta ≠ .tools) :
    (voiceOf delta).say delta = some (voiceOf delta) := by
  cases delta with
  | textDelta text => rfl
  | thinkingDelta thinking => rfl
  | inputJsonDelta partialJson => exact absurd rfl htype

theorem Agrees.speak (h : Agrees info blocks voice) {delta : BlockDelta} (htype : typeOf delta ≠ .tools) :
    Follows (speak info delta).1 ((Form.started blocks).receiveAll (speak info delta).2)
      (voice.say delta) := by
  rw [StreamOpenAI2Claude.speak]
  by_cases hvoice : voice = voiceOf delta
  · subst hvoice
    obtain ⟨hlast, hreceive⟩ := h.speak_on htype
    rw [if_neg (not_not_intro hlast), hreceive, say_voiceOf htype]
    exact ⟨blocks, rfl, h⟩
  · obtain ⟨hlast, hsay⟩ := h.type_of_ne htype hvoice
    rw [if_pos hlast, hsay]
    exact h.speak_new delta htype

theorem receive_fragment (before started : ℕ) (p : ℤ × ToolCallResponse) :
    (Form.started (opened before .toolUse started)).receiveAll (toolEvents (before + p.1) p.2) =
      (Voice.fragment started p).map fun started ↦ .started (opened before .toolUse started) := by
  have harguments : ∀ count : ℕ, (Form.started (opened before .toolUse count)).receive
      (.contentBlockDelta (before + p.1) (.inputJsonDelta p.2.function.arguments)) =
        if 0 ≤ p.1 ∧ p.1 < count then some (.started (opened before .toolUse count)) else none := by
    intro count
    rw [receive_delta before .toolUse count (before + p.1) (.inputJsonDelta _) rfl]
    refine if_congr ?_ rfl rfl
    omega
  have hname : (Form.started (opened before .toolUse started)).receive
      (.contentBlockStart (before + p.1) (.toolUse p.2.id p.2.function.name)) =
        if p.1 = started then some (.started (opened before .toolUse (started + 1))) else none := by
    rw [receive_start before .toolUse started (before + p.1) (.toolUse _ _) rfl]
    refine if_congr ?_ rfl rfl
    omega
  rw [toolEvents, Voice.fragment]
  by_cases hnamed : p.2.function.name ≠ []
  · rw [if_pos hnamed, if_pos hnamed, List.singleton_append, receiveAll_cons, hname]
    by_cases hnext : p.1 = started
    · rw [if_pos hnext, if_pos hnext, Option.bind_some, Option.map_some]
      split
      · rw [receiveAll_cons, harguments, if_pos (by omega)]
        rfl
      · rfl
    · rw [if_neg hnext, if_neg hnext]
      rfl
  · rw [if_neg hnamed, if_neg hnamed, List.nil_append]
    split
    · rw [receiveAll_cons, harguments]
      split
      · rfl
      · rfl
    · rfl

theorem receive_fragments (before started : ℕ) (l : List (ℤ × ToolCallResponse)) :
    (Form.started (opened before .toolUse started)).receiveAll
        (l.flatMap fun p ↦ toolEvents (before + p.1) p.2) =
      (l.foldlM Voice.fragment started).map fun started ↦ .started (opened before .toolUse started) := by
  induction l generalizing started with
  | nil => rfl
  | cons p l ih =>
    rw [List.flatMap_cons, receiveAll_append, receive_fragment, List.foldlM_cons]
    cases Voice.fragment started p with
    | none => rfl
    | some started => exact ih started

theorem fragment_le {started started' : ℕ} {p : ℤ × ToolCallResponse}
    (h : Voice.fragment started p = some started') :
    started ≤ started' ∧ (started' = started ∨ started' = p.1 + 1) := by
  rw [Voice.fragment] at h
  split at h
  · split at h
    · next hnext =>
      obtain rfl := Option.some.inj h
      refine ⟨Nat.le_succ started, .inr ?_⟩
      rw [hnext, Nat.cast_add]
      rfl
    · cases h
  · split at h
    · split at h
      · exact ⟨Nat.le_of_eq (Option.some.inj h), .inl (Option.some.inj h).symm⟩
      · cases h
    · exact ⟨Nat.le_of_eq (Option.some.inj h), .inl (Option.some.inj h).symm⟩

/-- No more calls are started than up to the last that was told of. -/
theorem fragments_le {started started' : ℕ} {maxOffset : ℤ} {l : List (ℤ × ToolCallResponse)}
    (h : l.foldlM Voice.fragment started = some started') (hstarted : started ≤ maxOffset + 1) :
    started' ≤ l.foldl (fun maxOffset p ↦ max maxOffset p.1) maxOffset + 1 := by
  induction l generalizing started maxOffset with
  | nil =>
    obtain rfl := Option.some.inj h
    exact hstarted
  | cons p l ih =>
    rw [List.foldlM_cons] at h
    obtain ⟨next, hnext, hrest⟩ := Option.bind_eq_some_iff.mp h
    rw [List.foldl_cons]
    have hle := fragment_le hnext
    exact ih hrest (by omega)

theorem le_foldl_max (l : List (ℤ × ToolCallResponse)) (maxOffset : ℤ) :
    maxOffset ≤ l.foldl (fun maxOffset p ↦ max maxOffset p.1) maxOffset := by
  induction l generalizing maxOffset with
  | nil => exact Int.le_refl maxOffset
  | cons p l ih => exact (Int.le_max_left maxOffset p.1).trans (ih (max maxOffset p.1))

/-- Calls go on, from where they have come. -/
theorem follows_tools {info' : RelayInfo} {before started : ℕ} {maxOffset : ℤ}
    (toolCalls : List ToolCallResponse)
    (hlast : info'.lastMessagesType = .tools) (hbase : info'.toolCallBaseIndex = before)
    (hmax : info'.toolCallMaxIndexOffset =
    (offsets toolCalls).foldl (fun maxOffset p ↦ max maxOffset p.1) maxOffset)
    (hpos : 0 ≤ maxOffset) (hstarted : started ≤ maxOffset + 1) :
    Follows info'
      ((Form.started (opened before .toolUse started)).receiveAll
        ((offsets toolCalls).flatMap fun p ↦ toolEvents (before + p.1) p.2))
      (((offsets toolCalls).foldlM Voice.fragment started).map fun started ↦
        .tools started ((offsets toolCalls).foldl (fun maxOffset p ↦ max maxOffset p.1) maxOffset)) := by
  rw [receive_fragments]
  cases hfold : (offsets toolCalls).foldlM Voice.fragment started with
  | none => rfl
  | some started' =>
    refine ⟨_, rfl, hlast, hmax, ?_, fragments_le hfold hstarted, before, hbase, rfl⟩
    exact hpos.trans (le_foldl_max _ _)

theorem Agrees.call_new (h : Agrees info blocks voice) (hlast : info.lastMessagesType ≠ .tools)
    (hready : voice.ready = true) (toolCalls : List ToolCallResponse) :
    Follows (callTools info toolCalls).1 ((Form.started blocks).receiveAll (callTools info toolCalls).2)
      (((offsets toolCalls).foldlM Voice.fragment 0).map fun started ↦
        .tools started ((offsets toolCalls).foldl (fun maxOffset p ↦ max maxOffset p.1) 0)) := by
  obtain ⟨before, hstop, hadvance⟩ := h.stop
  obtain ⟨-, hindex⟩ := hadvance hready
  have hzero : opened before .text 0 = opened before .toolUse 0 := by rw [opened_zero, opened_zero]
  rw [callTools]
  simp only [if_pos hlast]
  rw [receiveAll_append, hstop, if_pos hready, Option.bind_some, hzero, hindex]
  exact follows_tools toolCalls rfl rfl rfl (Int.le_refl 0) (by omega)

theorem Agrees.call (h : Agrees info blocks voice) (toolCalls : List ToolCallResponse) :
    Follows (callTools info toolCalls).1 ((Form.started blocks).receiveAll (callTools info toolCalls).2)
      (voice.call toolCalls) := by
  cases voice with
  | silent => exact h.call_new (by simp [h.1]) rfl toolCalls
  | text => exact h.call_new (by simp [h.1]) rfl toolCalls
  | thinking => exact h.call_new (by simp [h.1]) rfl toolCalls
  | tools started maxOffset =>
    obtain ⟨hlast, hmax, hpos, hstarted, before, hbase, rfl⟩ := h
    rw [callTools]
    simp only [if_neg (not_not_intro hlast)]
    rw [List.nil_append, hbase, hmax]
    exact follows_tools toolCalls rfl rfl rfl hpos hstarted

/-- The message is ended exactly if its blocks can be stopped and there is a usage to end it with. -/
theorem Agrees.close (h : Agrees info blocks voice) (oaiUsage : Option Usage) (stopReason : String) :
    FollowsTo { info with done := true }
      ((Form.started blocks).receiveAll (stopOpenBlocks info ++ messageEnd oaiUsage stopReason))
      (voice.close oaiUsage.isSome) := by
  obtain ⟨before, hstop, -⟩ := h.stop
  rw [receiveAll_append, hstop, Voice.close]
  cases voice.ready with
  | false => rfl
  | true =>
    have hall : (opened before .text 0).all (·.isNone) = true := opened_all before .text 0
    rw [if_pos rfl, Option.bind_some]
    cases oaiUsage with
    | none => rfl
    | some oaiUsage =>
      refine ⟨?_, rfl⟩
      rw [messageEnd, List.singleton_append, receiveAll_cons, Form.receive, if_pos hall]
      rfl

end Simulation

section Chunks

variable {info : RelayInfo} {blocks : List (Option BlockType)} {voice : Voice}

theorem spoken_type {delta : Delta} {said : BlockDelta} (h : spoken delta = some said) :
    typeOf said ≠ .tools := by
  rw [spoken] at h
  split at h
  · obtain rfl := Option.some.inj h
    simp [typeOf]
  · split at h
    · obtain rfl := Option.some.inj h
      simp [typeOf]
    · cases h

/-- A part of a chunk is converted before the rest of it. -/
theorem Follows.bind {form : Form} {events : List ClaudeResponse} {voice : Option Voice} {info' : RelayInfo}
    {rest : List ClaudeResponse} {next : Voice → Option Phase}
    (h : Follows info (form.receiveAll events) voice)
    (hnext : ∀ blocks voice, Agrees info blocks voice →
      FollowsTo info' ((Form.started blocks).receiveAll rest) (next voice)) :
    FollowsTo info' (form.receiveAll (events ++ rest)) (voice.bind next) := by
  rw [receiveAll_append]
  cases voice with
  | none =>
    rw [show form.receiveAll events = none from h]
    rfl
  | some voice =>
    obtain ⟨blocks, hreceive, hagrees⟩ := h
    rw [hreceive]
    exact hnext blocks voice hagrees

theorem speakFirst_eq {delta : BlockDelta} (hlast : info.lastMessagesType ≠ typeOf delta) :
    speakFirst info delta = ({ advance info with lastMessagesType := typeOf delta },
      stopOpenBlocks info ++ [.contentBlockStart (advance info).index (blockOf delta),
        .contentBlockDelta (advance info).index delta]) := by
  rw [speakFirst]
  simp only [if_pos hlast]

/-- What the telling of a chunk does not change. -/
def kept (info : RelayInfo) : Bool × Option Usage × ℕ := (info.done, info.usage, info.sendResponseCount)

theorem advance_kept : kept (advance info) = kept info := by
  rw [advance]
  split
  · rfl
  · rfl
  · rfl
  · rfl

theorem speak_kept (delta : BlockDelta) : kept (speak info delta).1 = kept info := by
  rw [speak]
  split
  · exact advance_kept
  · rfl

theorem callTools_kept (toolCalls : List ToolCallResponse) :
    kept (callTools info toolCalls).1 = kept info := by
  rw [callTools]
  by_cases hlast : info.lastMessagesType ≠ .tools
  · simp only [if_pos hlast]
    exact advance_kept
  · simp only [if_neg hlast]
    rfl

theorem Agrees.tellNext (h : Agrees info blocks voice) (delta : Delta) :
    Follows (tellNext info delta).1 ((Form.started blocks).receiveAll (tellNext info delta).2)
      (voice.next delta) := by
  rw [StreamOpenAI2Claude.tellNext, Voice.next]
  cases htools : delta.toolCalls with
  | nil =>
    cases hspoken : spoken delta with
    | none => exact ⟨blocks, rfl, h⟩
    | some said => exact h.speak (spoken_type hspoken)
  | cons toolCall toolCalls => exact h.call (toolCall :: toolCalls)

theorem tellNext_kept (delta : Delta) : kept (tellNext info delta).1 = kept info := by
  rw [tellNext]
  split
  · rfl
  · exact speak_kept _
  · exact callTools_kept _

theorem callFirst_follows (toolCall : ToolCallResponse) :
    Follows (callFirst info toolCall).1 ((Form.started []).receiveAll (callFirst info toolCall).2)
      (some (.tools 1 0)) := by
  have hzero : ([] : List (Option BlockType)) = opened 0 .toolUse 0 := rfl
  refine ⟨opened 0 .toolUse 1, ?_, rfl, rfl, Int.le_refl 0, by decide, 0, rfl, rfl⟩
  rw [callFirst, receiveAll_cons, hzero, receive_start 0 .toolUse 0 0 (.toolUse _ _) rfl, if_pos (by decide),
    Option.bind_some]
  split
  · rw [receiveAll_cons, receive_delta 0 .toolUse 1 0 (.inputJsonDelta _) rfl, if_pos (by decide)]
    rfl
  · rfl

theorem first_of_spoken {delta : Delta} {said : BlockDelta} (h : spoken delta = some said) :
    Voice.first delta = voiceOf said := by
  have htype := spoken_type h
  rw [Voice.first, h]
  cases said with
  | textDelta text => rfl
  | thinkingDelta thinking => rfl
  | inputJsonDelta partialJson => exact absurd rfl htype

/-- A text after what the first chunk has told already. -/
theorem Agrees.speakFirst (h : Agrees info blocks voice) (hready : voice.ready = true) {delta : Delta}
    {said : BlockDelta} (hspoken : spoken delta = some said) (hlast : info.lastMessagesType ≠ typeOf said) :
    Follows (speakFirst info said).1 ((Form.started blocks).receiveAll (speakFirst info said).2)
      (some (Voice.first delta)) := by
  have hspeak := h.speak_new said (spoken_type hspoken)
  rw [if_pos hready] at hspeak
  rw [speakFirst_eq hlast, first_of_spoken hspoken]
  exact hspeak

/-- The first chunk of a message tells its first call, if it has one, and then its text. -/
theorem tellFirst_follows (hlast : info.lastMessagesType = .none) (hindex : info.index = 0) (delta : Delta) :
    Follows (tellFirst info delta).1 ((Form.started []).receiveAll (tellFirst info delta).2)
      (some (Voice.first delta)) := by
  have hsilent : Agrees info [] .silent := ⟨hlast, 0, hindex, rfl⟩
  rw [tellFirst]
  cases htools : delta.toolCalls with
  | nil =>
    cases hspoken : spoken delta with
    | none =>
      rw [Voice.first, hspoken, htools]
      exact ⟨[], rfl, hsilent⟩
    | some said =>
      have htype : info.lastMessagesType ≠ typeOf said := by
        intro heq
        have hne := spoken_type hspoken
        cases said <;> simp [hlast, typeOf] at heq hne
      exact hsilent.speakFirst rfl hspoken htype
  | cons toolCall toolCalls =>
    obtain ⟨blocks, hreceive, hagrees⟩ := callFirst_follows toolCall
    cases hspoken : spoken delta with
    | none =>
      rw [Voice.first, hspoken, htools]
      exact ⟨blocks, hreceive, hagrees⟩
    | some said =>
      have htype : (callFirst info toolCall).1.lastMessagesType ≠ typeOf said := (spoken_type hspoken).symm
      have hspeak := hagrees.speakFirst rfl hspoken htype
      dsimp only
      rw [receiveAll_append, hreceive]
      exact hspeak

theorem convertNext_follows (h : Agrees info blocks voice) (hdone : info.done = false) (usable : Bool)
    {chunk : ChatCompletionsStreamResponse} {choice : StreamChoice} {rest : List StreamChoice}
    (hchoices : chunk.choices = choice :: rest) :
    FollowsTo (convertNext info chunk.usage choice).1
      ((Form.started blocks).receiveAll (convertNext info chunk.usage choice).2)
      (voice.continues usable chunk) := by
  rw [convertNext, Voice.continues, hchoices]
  dsimp only
  cases hfinished : choice.finished with
  | false =>
    have htell := h.tellNext choice.delta
    have hdone' : (tellNext info choice.delta).1.done = false :=
        (congrArg Prod.fst (tellNext_kept choice.delta)).trans hdone
    rw [if_neg Bool.false_ne_true, if_neg Bool.false_ne_true]
    cases hnext : voice.next choice.delta with
    | none =>
      rw [hnext] at htell
      exact htell
    | some voice =>
      rw [hnext] at htell
      exact ⟨htell, hdone'⟩
  | true =>
    have hframe : Agrees { info with finishReason := choice.finishReason.getD "" } blocks voice :=
      h.frame rfl rfl rfl rfl
    rw [if_pos rfl, if_pos rfl]
    cases husage : chunk.usage with
    | none => exact ⟨⟨blocks, rfl, hframe⟩, hdone⟩
    | some usage =>
      exact (hframe.tellNext choice.delta).bind fun blocks voice h ↦ h.close _ _

theorem speakFirst_kept (delta : BlockDelta) : kept (speakFirst info delta).1 = kept info := by
  rw [speakFirst]
  by_cases hlast : info.lastMessagesType ≠ typeOf delta
  · simp only [if_pos hlast]
    exact advance_kept
  · simp only [if_neg hlast]
    rfl

theorem tellFirst_kept (delta : Delta) : kept (tellFirst info delta).1 = kept info := by
  rw [tellFirst]
  cases delta.toolCalls with
  | nil =>
    cases spoken delta with
    | none => rfl
    | some said => exact speakFirst_kept said
  | cons toolCall toolCalls =>
    cases spoken delta with
    | none => rfl
    | some said => exact speakFirst_kept said

theorem convertFirst_follows (hlast : info.lastMessagesType = .none) (hindex : info.index = 0)
    (hdone : info.done = false) {chunk : ChatCompletionsStreamResponse} {choice : StreamChoice}
    {rest : List StreamChoice} (hchoices : chunk.choices = choice :: rest) (usage : Option Usage) :
    FollowsTo (convertFirst info usage choice).1 ((Form.started []).receiveAll (convertFirst info usage choice).2)
      (Voice.begins (usage.or info.usage).isSome chunk) := by
  have htell := tellFirst_follows hlast hindex choice.delta
  have hkept : kept (tellFirst info choice.delta).1 = kept info := tellFirst_kept choice.delta
  rw [convertFirst, Voice.begins, hchoices]
  dsimp only
  cases hfinished : choice.finished with
  | false => exact ⟨htell, (congrArg Prod.fst hkept).trans hdone⟩
  | true =>
    obtain ⟨blocks, hreceive, hagrees⟩ := htell
    have hframe : Agrees { (tellFirst info choice.delta).1 with finishReason := choice.finishReason.getD "" } blocks
        (Voice.first choice.delta) := hagrees.frame rfl rfl rfl rfl
    have husage : (tellFirst info choice.delta).1.usage = info.usage := congrArg (·.2.1) hkept
    rw [if_pos rfl, if_pos rfl, receiveAll_append, hreceive, husage]
    exact hframe.close _ _

theorem convertFirst_kept (usage : Option Usage) (choice : StreamChoice) :
    (kept (convertFirst info usage choice).1).2 = (kept info).2 := by
  have hkept : (kept (tellFirst info choice.delta).1).2 = (kept info).2 :=
    congrArg Prod.snd (tellFirst_kept choice.delta)
  rw [convertFirst]
  dsimp only
  cases choice.finished with
  | false => exact hkept
  | true => exact hkept

theorem convertNext_kept (usage : Option Usage) (choice : StreamChoice) :
    (kept (convertNext info usage choice).1).2 = (kept info).2 := by
  have hkept : ∀ info', (kept (tellNext info' choice.delta).1).2 = (kept info').2 :=
    fun info' ↦ congrArg Prod.snd (tellNext_kept choice.delta)
  rw [convertNext]
  cases choice.finished with
  | false => exact hkept info
  | true =>
    cases usage with
    | none => rfl
    | some usage => exact hkept { info with finishReason := choice.finishReason.getD "" }

end Chunks

section Stream

variable {info : RelayInfo}

/-- The first chunk is converted as such, with a client that knows nothing of the message. -/
theorem stream_first (hcount : info.sendResponseCount = 1) (hlast : info.lastMessagesType = .none)
    (hindex : info.index = 0) (hdone : info.done = false) (chunk : ChatCompletionsStreamResponse) :
    FollowsTo (streamResponseOpenAI2Claude info chunk).1
      (Form.fresh.receiveAll (streamResponseOpenAI2Claude info chunk).2)
      (Voice.begins (chunk.usage.or info.usage).isSome chunk) := by
  rw [streamResponseOpenAI2Claude, if_neg (by simp [hdone]), if_pos hcount]
  cases hchoices : chunk.choices with
  | nil =>
    rw [Voice.begins, hchoices]
    exact ⟨⟨[], rfl, hlast, 0, hindex, rfl⟩, hdone⟩
  | cons choice rest =>
    dsimp only
    rw [receiveAll_cons]
    exact convertFirst_follows hlast hindex hdone hchoices chunk.usage

theorem stream_kept (chunk : ChatCompletionsStreamResponse) :
    (kept (streamResponseOpenAI2Claude info chunk).1).2 = (kept info).2 := by
  rw [streamResponseOpenAI2Claude]
  split
  · rfl
  · split
    · dsimp only
      split
      · rfl
      · exact convertFirst_kept chunk.usage _
    · split
      · rfl
      · rfl
      · exact convertNext_kept chunk.usage _

/-- A later chunk takes what is told as far as it says. -/
theorem stream_next (hcount : info.sendResponseCount ≠ 1) {form : Form} {phase : Phase}
    (h : FollowsTo info (some form) (some phase)) (chunk : ChatCompletionsStreamResponse) :
    FollowsTo (streamResponseOpenAI2Claude info chunk).1
      (form.receiveAll (streamResponseOpenAI2Claude info chunk).2)
      (phase.hear (chunk.usage.or info.usage).isSome chunk) := by
  cases phase with
  | closed =>
    obtain ⟨hform, hdone⟩ := h
    rw [streamResponseOpenAI2Claude, if_pos hdone]
    exact ⟨hform, hdone⟩
  | speaking voice =>
    obtain ⟨⟨blocks, hform, hagrees⟩, hdone⟩ := h
    obtain rfl := Option.some.inj hform
    rw [streamResponseOpenAI2Claude, if_neg (by simp [hdone]), if_neg hcount, Phase.hear]
    cases hchoices : chunk.choices with
    | nil =>
      rw [Voice.continues, hchoices]
      cases husage : chunk.usage.or info.usage with
      | none => exact ⟨⟨blocks, rfl, hagrees⟩, hdone⟩
      | some oaiUsage => exact hagrees.close (some oaiUsage) _
    | cons choice rest => exact convertNext_follows hagrees hdone _ hchoices

/-- What the client has taken of a stream, with what has been told of it. -/
structure Streaming (info : RelayInfo) (form : Form) (phase : Phase) (usable : Bool) : Prop where
  follows : FollowsTo info (some form) (some phase)
  count : 1 ≤ info.sendResponseCount
  usable : info.usage.isSome = usable

theorem FollowsTo.frame {info' : RelayInfo} {form : Option Form} {phase : Option Phase}
    (h : FollowsTo info form phase) (hlast : info'.lastMessagesType = info.lastMessagesType)
    (hindex : info'.index = info.index) (hbase : info'.toolCallBaseIndex = info.toolCallBaseIndex)
    (hmax : info'.toolCallMaxIndexOffset = info.toolCallMaxIndexOffset) (hdone : info'.done = info.done) :
    FollowsTo info' form phase := by
  cases phase with
  | none => exact h
  | some phase =>
    cases phase with
    | closed => exact ⟨h.1, hdone.trans h.2⟩
    | speaking voice =>
      obtain ⟨⟨blocks, hform, hagrees⟩, hopen⟩ := h
      exact ⟨⟨blocks, hform, hagrees.frame hlast hindex hbase hmax⟩, hdone.trans hopen⟩

theorem FollowsTo.form {form : Option Form} {phase : Phase} (h : FollowsTo info form (some phase)) :
    ∃ next, form = some next ∧ FollowsTo info (some next) (some phase) := by
  cases phase with
  | closed => exact ⟨.ended, h.1, rfl, h.2⟩
  | speaking voice =>
    obtain ⟨⟨blocks, hform, hagrees⟩, hdone⟩ := h
    exact ⟨.started blocks, hform, ⟨blocks, rfl, hagrees⟩, hdone⟩

/-- The client has the whole message exactly if it has been told. -/
theorem FollowsTo.ended_iff {form : Option Form} {phase : Option Phase} (h : FollowsTo info form phase) :
    form = some .ended ↔ phase = some .closed := by
  cases phase with
  | none =>
    rw [show form = none from h]
    simp
  | some phase =>
    cases phase with
    | closed => exact iff_of_true h.1 rfl
    | speaking voice =>
      obtain ⟨⟨blocks, hform, -⟩, -⟩ := h
      rw [hform]
      simp

theorem or_isSome (usage usage' : Option Usage) :
    (usage.or usage').isSome = (usage'.isSome || usage.isSome) := by
  rw [Bool.or_comm]
  cases usage with
  | none => rfl
  | some usage => rfl

theorem handle_next {form : Form} {phase : Phase} {usable : Bool} (h : Streaming info form phase usable)
    (chunk : ChatCompletionsStreamResponse) :
    FollowsTo (handleStreamFormat info (some chunk)).1 (form.receiveAll (handleStreamFormat info (some chunk)).2)
        (phase.hear (usable || chunk.usage.isSome) chunk) ∧
      (handleStreamFormat info (some chunk)).1.sendResponseCount = info.sendResponseCount + 1 ∧
      (handleStreamFormat info (some chunk)).1.usage.isSome = (usable || chunk.usage.isSome) := by
  have hcount : info.sendResponseCount + 1 ≠ 1 := by
    have hpos := h.count
    omega
  let heard : RelayInfo :=
    { info with
      sendResponseCount := info.sendResponseCount + 1
      usage := chunk.usage.or info.usage }
  have hheard : FollowsTo heard (some form) (some phase) := h.follows.frame rfl rfl rfl rfl rfl
  have hkept : (kept (streamResponseOpenAI2Claude heard chunk).1).2 = (kept heard).2 := stream_kept chunk
  have husage : heard.usage.isSome = (usable || chunk.usage.isSome) := by
    rw [← h.usable]
    exact or_isSome chunk.usage info.usage
  refine ⟨?_, congrArg Prod.snd hkept, ?_⟩
  · have hnext := stream_next hcount hheard chunk
    rw [or_isSome, husage, Bool.or_assoc, Bool.or_self] at hnext
    exact hnext
  · rw [← husage]
    exact congrArg (fun k ↦ k.1.isSome) hkept

theorem handle_none {form : Form} {phase : Phase} {usable : Bool} (h : Streaming info form phase usable) :
    Streaming (handleStreamFormat info none).1 form phase usable :=
  ⟨h.follows.frame rfl rfl rfl rfl rfl, Nat.le_succ_of_le h.count, h.usable⟩

theorem hearAll_none (usable : Bool) (phase : Phase) {rest : List (Option ChatCompletionsStreamResponse)}
    (h : rest ≠ []) : phase.hearAll usable (none :: rest) = phase.hearAll usable rest := by
  obtain ⟨chunk, rest, rfl⟩ := List.exists_cons_of_ne_nil h
  rw [Phase.hearAll]
  exact List.cons_ne_nil chunk rest

theorem hearAll_some (usable : Bool) (phase : Phase) (chunk : ChatCompletionsStreamResponse)
    {rest : List (Option ChatCompletionsStreamResponse)} (h : rest ≠ []) :
    phase.hearAll usable (some chunk :: rest) =
      (phase.hear (usable || chunk.usage.isSome) chunk).bind fun phase ↦
        phase.hearAll (usable || chunk.usage.isSome) rest := by
  obtain ⟨next, rest, rfl⟩ := List.exists_cons_of_ne_nil h
  rw [Phase.hearAll]
  · rfl
  · exact List.cons_ne_nil next rest

/-- The last chunk is converted with the usage that is billed. -/
theorem final_follows {form : Form} {phase : Phase} (usage : Usage)
    (h : FollowsTo info (some form) (some phase))
    (hcount : info.sendResponseCount ≠ 1) (last : Option ChatCompletionsStreamResponse) (usable : Bool) :
    form.receiveAll (handleFinalResponse usage info last).2 = some .ended ↔
      phase.hearAll usable [last] = some .closed := by
  cases last with
  | none => exact h.ended_iff
  | some chunk =>
    let billed : RelayInfo := { info with usage := some usage }
    have hbilled : FollowsTo billed (some form) (some phase) := h.frame rfl rfl rfl rfl rfl
    have husable : (chunk.usage.or billed.usage).isSome = true := or_isSome chunk.usage (some usage)
    have hlater : billed.sendResponseCount ≠ 1 := hcount
    have hnext := stream_next hlater hbilled chunk
    rw [husable] at hnext
    exact hnext.ended_iff

theorem hearAll_iff {form : Form} {phase : Phase} {usable : Bool} (usage : Usage)
    (middle : List (Option ChatCompletionsStreamResponse)) (last : Option ChatCompletionsStreamResponse)
    (h : Streaming info form phase usable) (hcount : 1 < info.sendResponseCount + middle.length) :
    form.receiveAll ((handleAll info middle).2 ++
      (handleFinalResponse usage (handleAll info middle).1 last).2) =
        some .ended ↔
      phase.hearAll usable (middle ++ [last]) = some .closed := by
  induction middle generalizing info form phase usable with
  | nil =>
    rw [List.length_nil] at hcount
    exact final_follows usage h.follows (by omega) last usable
  | cons data middle ih =>
    have hne : middle ++ [last] ≠ [] := List.append_ne_nil_of_right_ne_nil middle (List.cons_ne_nil last [])
    have hpos := h.count
    rw [List.length_cons] at hcount
    rw [handleAll, List.cons_append]
    dsimp only
    cases data with
    | none =>
      rw [hearAll_none usable phase hne]
      exact ih (handle_none h) (by simp only [handleStreamFormat]; omega)
    | some chunk =>
      obtain ⟨hfollows, hcounted, husable⟩ := handle_next h chunk
      rw [hearAll_some usable phase chunk hne, List.append_assoc, receiveAll_append]
      cases hhear : phase.hear (usable || chunk.usage.isSome) chunk with
      | none =>
        rw [hhear] at hfollows
        rw [show form.receiveAll (handleStreamFormat info (some chunk)).2 = none from hfollows]
        simp
      | some next =>
        rw [hhear] at hfollows
        obtain ⟨form', hform, hfollows⟩ := hfollows.form
        rw [hform]
        exact ih ⟨hfollows, by omega, husable⟩ (by omega)

end Stream

section Unstarted

variable {info : RelayInfo}

/-- Events that do not start a message. -/
def Unstarted (events : List ClaudeResponse) : Prop := ∀ id model usage, .messageStart id model usage ∉ events

theorem Unstarted.not_wellFormed {events : List ClaudeResponse} (h : Unstarted events) :
    ¬ WellFormed events := by
  intro hwell
  cases events with
  | nil => cases hwell
  | cons event events =>
    cases event with
    | messageStart id model usage => exact h id model usage List.mem_cons_self
    | _ => cases hwell

theorem Unstarted.append {first rest : List ClaudeResponse} (hfirst : Unstarted first)
    (hrest : Unstarted rest) :
    Unstarted (first ++ rest) := by
  intro id model usage hmem
  exact (List.mem_append.mp hmem).elim (hfirst id model usage) (hrest id model usage)

theorem unstarted_nil : Unstarted [] := fun _ _ _ hmem ↦ absurd hmem List.not_mem_nil

theorem unstarted_stops : Unstarted (stopOpenBlocks info) := by
  intro id model usage hmem
  rw [stopOpenBlocks] at hmem
  split at hmem
  · cases hmem
  · simp at hmem
  · simp at hmem
  · simp at hmem

theorem unstarted_toolEvents (index : ℤ) (toolCall : ToolCallResponse) :
    Unstarted (toolEvents index toolCall) := by
  intro id model usage hmem
  rw [toolEvents] at hmem
  obtain hmem | hmem := List.mem_append.mp hmem
  · split at hmem
    · simp at hmem
    · cases hmem
  · split at hmem
    · simp at hmem
    · cases hmem

theorem unstarted_tellNext (delta : Delta) : Unstarted (tellNext info delta).2 := by
  have hspeak : ∀ said, Unstarted (speak info said).2 := by
    intro said
    rw [speak]
    split
    · exact unstarted_stops.append fun _ _ _ hmem ↦ by simp at hmem
    · exact fun _ _ _ hmem ↦ by simp at hmem
  have hcall : ∀ toolCalls, Unstarted (callTools info toolCalls).2 := by
    intro toolCalls
    rw [callTools]
    refine Unstarted.append ?_ ?_
    · split
      · exact unstarted_stops
      · exact unstarted_nil
    · intro id model usage hmem
      obtain ⟨p, -, hp⟩ := List.mem_flatMap.mp hmem
      exact unstarted_toolEvents _ p.2 id model usage hp
  rw [tellNext]
  split
  · exact unstarted_nil
  · exact hspeak _
  · exact hcall _

theorem unstarted_messageEnd (oaiUsage : Option Usage) (stopReason : String) :
    Unstarted (messageEnd oaiUsage stopReason) := by
  intro id model usage hmem
  cases oaiUsage with
  | none => simp [messageEnd] at hmem
  | some oaiUsage => simp [messageEnd] at hmem

theorem unstarted_convertNext (usage : Option Usage) (choice : StreamChoice) :
    Unstarted (convertNext info usage choice).2 := by
  rw [convertNext]
  cases choice.finished with
  | false => exact unstarted_tellNext choice.delta
  | true =>
    cases usage with
    | none => exact unstarted_nil
    | some usage => exact (unstarted_tellNext choice.delta).append (unstarted_stops.append (unstarted_messageEnd _ _))

/-- Only the first chunk starts a message. -/
theorem unstarted_stream (hcount : info.sendResponseCount ≠ 1) (chunk : ChatCompletionsStreamResponse) :
    Unstarted (streamResponseOpenAI2Claude info chunk).2 := by
  rw [streamResponseOpenAI2Claude, if_neg hcount]
  split
  · exact unstarted_nil
  · split
    · exact unstarted_nil
    · exact unstarted_stops.append (unstarted_messageEnd _ _)
    · exact unstarted_convertNext chunk.usage _

theorem unstarted_final (hcount : info.sendResponseCount ≠ 1) (usage : Usage)
    (last : Option ChatCompletionsStreamResponse) : Unstarted (handleFinalResponse usage info last).2 := by
  cases last with
  | none => exact unstarted_nil
  | some chunk =>
    have hlater : ({ info with usage := some usage } : RelayInfo).sendResponseCount ≠ 1 := hcount
    exact unstarted_stream hlater chunk

theorem handle_count (data : Option ChatCompletionsStreamResponse) :
    (handleStreamFormat info data).1.sendResponseCount = info.sendResponseCount + 1 := by
  cases data with
  | none => rfl
  | some chunk => exact congrArg Prod.snd (stream_kept chunk)

theorem unstarted_all (hcount : 1 ≤ info.sendResponseCount)
    (chunks : List (Option ChatCompletionsStreamResponse)) :
    Unstarted (handleAll info chunks).2 ∧
      (handleAll info chunks).1.sendResponseCount = info.sendResponseCount + chunks.length := by
  induction chunks generalizing info with
  | nil => exact ⟨unstarted_nil, rfl⟩
  | cons data chunks ih =>
    have hcounted : (handleStreamFormat info data).1.sendResponseCount = info.sendResponseCount + 1 :=
      handle_count data
    obtain ⟨hrest, hlength⟩ := ih (by omega : 1 ≤ (handleStreamFormat info data).1.sendResponseCount)
    refine ⟨Unstarted.append ?_ hrest, ?_⟩
    · cases data with
      | none => exact unstarted_nil
      | some chunk => exact unstarted_stream (by dsimp only; omega) chunk
    · rw [handleAll, List.length_cons]
      dsimp only
      omega

end Unstarted

section Result

theorem oaiStream_eq (estimatePromptTokens : ℤ) (usage : Usage)
    (before : List (Option ChatCompletionsStreamResponse))
    (last : Option ChatCompletionsStreamResponse) :
    oaiStreamHandler estimatePromptTokens usage (before ++ [last]) =
      (handleAll { estimatePromptTokens := estimatePromptTokens } before).2 ++
        (handleFinalResponse usage (handleAll { estimatePromptTokens := estimatePromptTokens } before).1 last).2 := by
  rw [oaiStreamHandler, List.getLast?_concat, List.dropLast_concat]

theorem not_wellFormed_single (estimatePromptTokens : ℤ) (usage : Usage)
    (last : Option ChatCompletionsStreamResponse) :
    ¬ WellFormed (oaiStreamHandler estimatePromptTokens usage [last]) := by
  have heq := oaiStream_eq estimatePromptTokens usage [] last
  rw [List.nil_append] at heq
  rw [heq, handleAll, List.nil_append]
  exact (unstarted_final (by dsimp only; omega) usage last).not_wellFormed

theorem not_wellFormed_of_none (estimatePromptTokens : ℤ) (usage : Usage)
    {middle : List (Option ChatCompletionsStreamResponse)} (hmiddle : middle ≠ [])
    (last : Option ChatCompletionsStreamResponse) :
    ¬ WellFormed (oaiStreamHandler estimatePromptTokens usage (none :: middle ++ [last])) := by
  let start : RelayInfo := (handleStreamFormat { estimatePromptTokens := estimatePromptTokens } none).1
  have hlength : 0 < middle.length := List.length_pos_of_ne_nil hmiddle
  have hone : start.sendResponseCount = 1 := rfl
  obtain ⟨hunstarted, hcount⟩ := unstarted_all (Nat.le_of_eq hone.symm) middle
  have hlater : (handleAll start middle).1.sendResponseCount ≠ 1 := by omega
  rw [oaiStream_eq, handleAll]
  exact (hunstarted.append (unstarted_final hlater usage last)).not_wellFormed

/-- The first of several chunks. -/
theorem first_follows (estimatePromptTokens : ℤ) (chunk : ChatCompletionsStreamResponse) {info : RelayInfo}
    (hinfo : info = (handleStreamFormat { estimatePromptTokens := estimatePromptTokens } (some chunk)).1) :
    FollowsTo info (Form.fresh.receiveAll
        (handleStreamFormat { estimatePromptTokens := estimatePromptTokens } (some chunk)).2)
        (Voice.begins chunk.usage.isSome chunk) ∧
      info.usage.isSome = chunk.usage.isSome ∧ info.sendResponseCount = 1 := by
  let started : RelayInfo :=
    { estimatePromptTokens := estimatePromptTokens, sendResponseCount := 1, usage := chunk.usage.or none }
  have hcount : started.sendResponseCount = 1 := rfl
  have hfirst := stream_first hcount rfl rfl rfl chunk
  have husage : (chunk.usage.or started.usage).isSome = chunk.usage.isSome := by
    have hsame : started.usage.isSome = chunk.usage.isSome := congrArg Option.isSome Option.or_none
    rw [or_isSome, hsame, Bool.or_self]
  have hkept : (kept (streamResponseOpenAI2Claude started chunk).1).2 = (kept started).2 := stream_kept chunk
  rw [husage] at hfirst
  subst hinfo
  refine ⟨hfirst, ?_, congrArg Prod.snd hkept⟩
  have hsame := congrArg (fun k ↦ k.1.isSome) hkept
  exact hsame.trans (congrArg Option.isSome (Option.or_none))

/-- Of two chunks the second is converted as if it were the first. -/
theorem second_ended_iff {info : RelayInfo} {form : Form} {phase : Phase}
    (h : FollowsTo info (some form) (some phase)) (hcount : info.sendResponseCount = 1) (usage : Usage)
    (last : Option ChatCompletionsStreamResponse) :
    form.receiveAll (handleFinalResponse usage info last).2 = some .ended ↔ phase = .closed := by
  cases phase with
  | closed =>
    obtain ⟨hform, hdone⟩ := h
    obtain rfl := Option.some.inj hform
    refine iff_of_true ?_ rfl
    cases last with
    | none => rfl
    | some chunk =>
      rw [handleFinalResponse]
      dsimp only
      rw [streamResponseOpenAI2Claude, if_pos hdone]
      rfl
  | speaking voice =>
    obtain ⟨⟨blocks, hform, -⟩, hdone⟩ := h
    obtain rfl := Option.some.inj hform
    refine iff_of_false ?_ (by simp)
    cases last with
    | none => exact fun hended ↦ by cases hended
    | some chunk =>
      rw [handleFinalResponse]
      dsimp only
      rw [streamResponseOpenAI2Claude, if_neg (by simp [hdone]), if_pos hcount]
      split
      · exact fun hended ↦ by cases hended
      · exact fun hended ↦ by cases hended

theorem wellFormed_two (estimatePromptTokens : ℤ) (usage : Usage)
    (first last : Option ChatCompletionsStreamResponse) :
    WellFormed (oaiStreamHandler estimatePromptTokens usage [first, last]) ↔ Regular [first, last] := by
  have heq := oaiStream_eq estimatePromptTokens usage [first] last
  rw [List.singleton_append] at heq
  rw [heq]
  cases first with
  | none =>
    cases last with
    | none => exact iff_of_false (fun h ↦ by cases h) (fun h ↦ h)
    | some chunk =>
      let started : RelayInfo :=
        { estimatePromptTokens := estimatePromptTokens, sendResponseCount := 1, usage := some usage }
      have hcount : started.sendResponseCount = 1 := rfl
      have hfirst := stream_first hcount rfl rfl rfl chunk
      have husage : (chunk.usage.or started.usage).isSome = true := or_isSome chunk.usage (some usage)
      rw [husage] at hfirst
      exact hfirst.ended_iff
  | some chunk =>
    obtain ⟨hfollows, -, hcount⟩ := first_follows estimatePromptTokens chunk rfl
    simp only [handleAll, List.append_nil]
    rw [WellFormed, receiveAll_append, Regular]
    cases hbegins : Voice.begins chunk.usage.isSome chunk with
    | none =>
      rw [hbegins] at hfollows
      refine iff_of_false ?_ (by simp)
      rw [show Form.fresh.receiveAll _ = none from hfollows]
      simp
    | some phase =>
      rw [hbegins] at hfollows
      obtain ⟨form, hform, hfollows⟩ := hfollows.form
      rw [hform, Option.bind_some, Option.some.injEq]
      exact second_ended_iff hfollows hcount usage last

theorem wellFormed_many (estimatePromptTokens : ℤ) (usage : Usage) (chunk : ChatCompletionsStreamResponse)
    {middle : List (Option ChatCompletionsStreamResponse)} (hmiddle : middle ≠ [])
    (last : Option ChatCompletionsStreamResponse) :
    WellFormed (oaiStreamHandler estimatePromptTokens usage (some chunk :: middle ++ [last])) ↔
      ((Voice.begins chunk.usage.isSome chunk).bind fun phase ↦
        phase.hearAll chunk.usage.isSome (middle ++ [last])) = some .closed := by
  have hlength : 0 < middle.length := List.length_pos_of_ne_nil hmiddle
  obtain ⟨hfollows, husage, hcount⟩ := first_follows estimatePromptTokens chunk rfl
  rw [oaiStream_eq, handleAll]
  dsimp only
  rw [WellFormed, List.append_assoc, receiveAll_append]
  cases hbegins : Voice.begins chunk.usage.isSome chunk with
  | none =>
    rw [hbegins] at hfollows
    refine iff_of_false ?_ (by simp)
    rw [show Form.fresh.receiveAll _ = none from hfollows]
    simp
  | some phase =>
    rw [hbegins] at hfollows
    obtain ⟨form, hform, hfollows⟩ := hfollows.form
    rw [hform, Option.bind_some, Option.bind_some]
    exact hearAll_iff usage middle last ⟨hfollows, Nat.le_of_eq hcount.symm, husage⟩ (by omega)

/-- The events that a client of Claude is sent are well-formed exactly if its message can be told by the
chunks. -/
theorem wellFormed_iff (estimatePromptTokens : ℤ) (usage : Usage)
    (chunks : List (Option ChatCompletionsStreamResponse)) :
    WellFormed (oaiStreamHandler estimatePromptTokens usage chunks) ↔ Regular chunks := by
  cases chunks with
  | nil => exact iff_of_false (fun h ↦ by cases h) (fun h ↦ h)
  | cons first chunks =>
    cases chunks with
    | nil => exact iff_of_false (not_wellFormed_single estimatePromptTokens usage first) (by simp [Regular])
    | cons second chunks =>
      cases chunks with
      | nil => exact wellFormed_two estimatePromptTokens usage first second
      | cons third chunks =>
        obtain ⟨middle, last, hrest⟩ : ∃ middle last, third :: chunks = middle ++ [last] :=
          (List.eq_nil_or_concat' (third :: chunks)).resolve_left (List.cons_ne_nil third chunks)
        cases first with
        | none =>
          rw [hrest]
          refine iff_of_false ?_ ?_
          · exact not_wellFormed_of_none estimatePromptTokens usage (List.cons_ne_nil second middle) last
          · rw [← hrest]
            exact fun h ↦ h
        | some chunk =>
          rw [Regular, hrest]
          · exact wellFormed_many estimatePromptTokens usage chunk (List.cons_ne_nil second middle) last
          · exact List.cons_ne_nil second _
          · exact fun data h ↦ absurd (List.cons.inj h).2 (List.cons_ne_nil third chunks)

end Result

end AllAiTools.NewApi.Service.ClaudeStreamForms
