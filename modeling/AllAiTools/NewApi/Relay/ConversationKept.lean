import AllAiTools.Foundation.Pieces
import AllAiTools.NewApi.Relay.OpenAI2Claude

namespace AllAiTools.NewApi.Relay.ConversationKept

open Foundation
open ChatViaResponses (Text)
open Service.ChatToResponses (Content MediaContent ToolCallRequest systemRole assistantRole toolRole userRole)
open OpenAI2Claude

variable {J : Type}

section Spoken

/-- A message without a role is the user's. -/
def roleOf (m : Message J) : Text := if m.role = [] then userRole else m.role

def Speaks (m : Message J) : Prop := roleOf m = userRole ∨ roleOf m = assistantRole

instance (m : Message J) : Decidable (Speaks m) := inferInstanceAs (Decidable (_ ∨ _))

/-- The role and the text of a string that the next message may go on with. -/
abbrev Pending := Option (Text × Text)

/-- The text of a string, for which three dots stand where it is empty. -/
def stringOf : Content J → Option Text
  | .null => some dots
  | .text s => some (if s = [] then dots else s)
  | .value _ _ => none

def pendingOf (m : Message J) : Pending :=
  if Speaks m then (stringOf m.content).map fun t ↦ (roleOf m, t) else none

/-- The role, the text and its continuation, where a message goes on with one. -/
def continued (p : Pending) (m : Message J) : Option (Text × Text × Text) :=
  match p, m.content with
  | some (role, t), .text s => if roleOf m = role then some (role, t, s) else none
  | _, _ => none

def partText : MediaContent → Option Text
  | .text s => if s = [] then none else some s
  | _ => none

def textsOfParts (parts : List MediaContent) : List Text := parts.filterMap partText

def partTexts : Content J → List Text
  | .value _ parts => textsOfParts parts
  | _ => []

def spokenParts (m : Message J) : List Text := if Speaks m then partTexts m.content else []

/-- The texts of the user and the assistant: consecutive strings of one role are joined, an empty
content is three dots. -/
def spokenTexts (join : Text → Text → Text) : Pending → List (Message J) → List Text
  | p, [] => (p.map Prod.snd).toList
  | p, m :: messages =>
    match continued p m with
    | some (role, t, s) => spokenTexts join (some (role, join t s)) messages
    | none => (p.map Prod.snd).toList ++ (spokenParts m ++ spokenTexts join (pendingOf m) messages)

def plainJoin (t s : Text) : Text := t ++ ' ' :: s

def trimmedJoin (t s : Text) : Text := trimQuotes (plainJoin t s)

/-- No joined text begins with a quotation mark or ends with one. -/
def Untrimmed : Pending → List (Message J) → Prop
  | _, [] => True
  | p, m :: messages =>
    match continued p m with
    | some (role, t, s) => (t.head? ≠ some '"' ∧ s.getLast? ≠ some '"') ∧
        Untrimmed (some (role, plainJoin t s)) messages
    | none => Untrimmed (pendingOf m) messages

end Spoken

section Property

def toolCallsOf (m : Message J) : List ToolCallRequest :=
  if m.role = assistantRole then m.toolCalls.getD [] else []

/-- Where a call is made and where it is answered. -/
inductive Event
  | use (id : Text)
  | result (id : Text)

def eventsOf (m : Message J) : List Event :=
  if m.role = toolRole then [.result m.toolCallId] else (toolCallsOf m).map fun tc ↦ .use tc.id

/-- The arguments of a call, where an empty text is the empty object. -/
def inputOf (library : Library J) (arguments : Text) : Option J :=
  if arguments = [] then some library.emptyObject else library.unmarshalObject arguments

def expectedCalls (library : Library J) (m : Message J) : List (Text × Text × Option J) :=
  (toolCallsOf m).map fun tc ↦ (tc.id, tc.name, inputOf library tc.arguments)

def blockText : ClaudeBlock J → Option Text
  | .text s => some s
  | _ => none

def blockUse : ClaudeBlock J → Option (Text × Text × Option J)
  | .toolUse id name input => some (id, name, some input)
  | _ => none

def blockEvent : ClaudeBlock J → Option Event
  | .toolUse id _ _ => some (.use id)
  | .toolResult id _ => some (.result id)
  | _ => none

def allBlocks (messages : List (ClaudeMessage J)) : List (ClaudeBlock J) :=
  messages.flatMap fun m ↦ m.content.asBlocks

/-- The text that opens a conversation that the user does not begin. -/
def opening (messages : List (Message J)) : List Text :=
  match messages.find? fun m ↦ m.role ≠ systemRole with
  | some m => if roleOf m ≠ userRole then [dots] else []
  | none => []

/-- The messages for Claude hold the same conversation. -/
structure Keeps (library : Library J) (messages : List (Message J)) (request : ClaudeRequest J) : Prop where
  roles : ∀ m ∈ request.messages, m.role = userRole ∨ m.role = assistantRole
  texts : (allBlocks request.messages).filterMap blockText =
    opening messages ++ spokenTexts plainJoin none messages
  calls : (allBlocks request.messages).filterMap blockUse = messages.flatMap (expectedCalls library)
  answered : ∀ pre id content post, allBlocks request.messages = pre ++ .toolResult id content :: post →
    (∃ m ∈ messages, ∃ tc ∈ toolCallsOf m, tc.id = id) → ∃ name input, .toolUse id name input ∈ pre

/-- Two messages that the first loop makes one of. -/
def merges (a b : Message J) : Bool :=
  decide (a.role = b.role ∧ a.role ≠ toolRole) && isStringContent (fillContent a.content) &&
    isStringContent b.content

/-- Every call that is answered at all is made before. -/
def Answered (events : List Event) : Prop :=
  ∀ pre id post, events = pre ++ .result id :: post → .use id ∈ events → .use id ∈ pre

structure Orderly (library : Library J) (messages : List (Message J)) : Prop where
  roles : ∀ m ∈ messages, m.role = systemRole ∨ m.role = userRole ∨ m.role = assistantRole ∨ m.role = toolRole
  untrimmed : Untrimmed none messages
  apart : ∀ pre a b post, messages = pre ++ a :: b :: post → merges a b = true → toolCallsOf a = []
  arguments : ∀ m ∈ messages, ∀ tc ∈ toolCallsOf m, (library.unmarshalObject tc.arguments).isSome
  answered : Answered (messages.flatMap eventsOf)

end Property

section Formatting

/-- A message as the first loop keeps it, under a content. -/
def formatted (m : Message J) (content : Content J) : Message J where
  role := m.role
  content := fillContent content
  toolCallId := if m.role = toolRole then m.toolCallId else []
  toolCalls := if m.role = assistantRole then m.toolCalls else none

/-- The messages that no later one is joined to, from a first one on. -/
def survivors : Message J → List (Message J) → List (Message J)
  | a, [] => [a]
  | a, b :: messages => if merges a b then survivors b messages else a :: survivors b messages

theorem formatStep_first (m : Message J) :
    formatStep {} m = ⟨[formatted m m.content], formatted m m.content⟩ := by
  have hnot : ¬ (toolRole = m.role ∧ (toolRole : Text) ≠ toolRole ∧
      isStringContent (Content.null : Content J) = true ∧ isStringContent m.content = true) :=
    fun h ↦ h.2.1 rfl
  rw [formatStep]
  simp only [if_neg hnot]
  rfl

theorem formatStep_next (done : List (Message J)) {a : Message J} {c : Content J}
    (hc : isStringContent (fillContent c) = isStringContent (fillContent a.content)) (b : Message J) :
    formatStep ⟨done ++ [formatted a c], formatted a c⟩ b =
      if merges a b = true then
        ⟨done ++ [formatted b (.text (trimmedJoin (stringContent (fillContent c))
          (stringContent b.content)))],
          formatted b (.text (trimmedJoin (stringContent (fillContent c)) (stringContent b.content)))⟩
      else ⟨done ++ [formatted a c] ++ [formatted b b.content], formatted b b.content⟩ := by
  have hmerges : merges a b = true ↔ (formatted a c).role = b.role ∧ (formatted a c).role ≠ toolRole ∧
      isStringContent (formatted a c).content = true ∧ isStringContent b.content = true := by
    rw [merges, Bool.and_eq_true, Bool.and_eq_true, decide_eq_true_eq, ← hc, and_assoc, and_assoc]
    rfl
  by_cases h : merges a b = true
  · rw [if_pos h, formatStep]
    simp only [if_pos (hmerges.mp h), List.dropLast_concat]
    rfl
  · rw [if_neg h, formatStep]
    simp only [if_neg fun h' ↦ h (hmerges.mpr h')]
    rfl

theorem merges_string {a b : Message J} (h : merges a b = true) : isStringContent b.content = true := by
  rw [merges, Bool.and_eq_true] at h
  exact h.2

theorem isStringContent_fill {c : Content J} (h : isStringContent c = true) :
    isStringContent (fillContent c) = true := by
  cases c with
  | null => cases h
  | value raw parts => cases h
  | text s =>
    rw [fillContent]
    split <;> rfl

/-- The first loop keeps the role, the calls and the identifier of every message but those that
another one is joined to. -/
theorem foldl_survivors {β : Type} {g : Message J → List β}
    (hg : ∀ m c c', g (formatted m c) = g (formatted m c')) (messages done : List (Message J)) {a : Message J}
    {c : Content J} (hc : isStringContent (fillContent c) = isStringContent (fillContent a.content)) :
    (messages.foldl formatStep ⟨done ++ [formatted a c], formatted a c⟩).formatMessages.flatMap g =
      done.flatMap g ++ (survivors a messages).flatMap fun m ↦ g (formatted m m.content) := by
  induction messages generalizing done a c with
  | nil =>
    rw [List.foldl_nil, survivors, List.flatMap_append, List.flatMap_singleton, List.flatMap_singleton,
      hg a c a.content]
  | cons b messages ih =>
    rw [List.foldl_cons, formatStep_next done hc, survivors]
    by_cases h : merges a b = true
    · rw [if_pos h, if_pos h, ih done]
      rw [isStringContent_fill (merges_string h)]
      exact isStringContent_fill rfl
    · rw [if_neg h, if_neg h, ih _ rfl, List.flatMap_append, List.flatMap_singleton, hg a c a.content,
        List.append_assoc, List.flatMap_cons]

theorem formatMessages_survivors {β : Type} {g : Message J → List β}
    (hg : ∀ m c c', g (formatted m c) = g (formatted m c')) (m : Message J) (messages : List (Message J)) :
    (formatMessages (m :: messages)).flatMap g =
      (survivors m messages).flatMap fun m ↦ g (formatted m m.content) := by
  rw [formatMessages, List.foldl_cons, formatStep_first]
  exact foldl_survivors hg messages [] rfl

end Formatting

section Texts

/-- The texts of a content as the first loop keeps it. -/
def contentTexts : Content J → List Text
  | .null => []
  | .text s => [s]
  | .value _ parts => textsOfParts parts

def keptTexts (m : Message J) : List Text := if Speaks m then contentTexts m.content else []

theorem speaks_formatted (m : Message J) (c : Content J) : Speaks (formatted m c) ↔ Speaks m := Iff.rfl

theorem plainJoin_ne_nil (t s : Text) : plainJoin t s ≠ [] := by
  rw [plainJoin]
  exact List.append_ne_nil_of_right_ne_nil t (List.cons_ne_nil _ _)

theorem trimQuotes_keeps {c : Char} (hc : c ≠ '"') {s : Text} (hs : c ∈ s) : c ∈ trimQuotes s := by
  have hdrop : ∀ l : Text, c ∈ l → c ∈ l.dropWhile (· = '"') := by
    intro l hl
    have hl' := hl
    rw [← List.takeWhile_append_dropWhile (p := fun c ↦ decide (c = '"')) (l := l), List.mem_append] at hl'
    exact hl'.resolve_left fun h ↦ hc (by simpa using List.mem_takeWhile_imp h)
  rw [trimQuotes, List.mem_reverse]
  exact hdrop _ (List.mem_reverse.mpr (hdrop s hs))

/-- Whatever is trimmed, the space between two joined texts stays. -/
theorem trimmedJoin_ne_nil (t s : Text) : trimmedJoin t s ≠ [] := by
  have hspace : ' ' ∈ plainJoin t s := List.mem_append_right t List.mem_cons_self
  exact List.ne_nil_of_mem (trimQuotes_keeps (by decide) hspace)

theorem fillContent_fill (c : Content J) : fillContent (fillContent c) = fillContent c := by
  cases c with
  | null => rfl
  | value raw parts => rfl
  | text s =>
    by_cases hs : s = []
    · have hfill : fillContent (.text s : Content J) = .text dots := if_pos hs
      rw [hfill]
      rfl
    · have hfill : fillContent (.text s : Content J) = .text s := if_neg hs
      rw [hfill, hfill]

theorem stringOf_fill (c : Content J) : stringOf (fillContent c) = stringOf c := by
  cases c with
  | null => rfl
  | value raw parts => rfl
  | text s =>
    by_cases hs : s = []
    · have hfill : fillContent (.text s : Content J) = .text dots := if_pos hs
      rw [hfill, stringOf, stringOf, if_pos hs]
      rfl
    · have hfill : fillContent (.text s : Content J) = .text s := if_neg hs
      rw [hfill]

theorem pendingOf_formatted (m : Message J) (c : Content J) : pendingOf (formatted m c) =
    if Speaks m then (stringOf c).map fun t ↦ (roleOf m, t) else none := by
  rw [pendingOf]
  change (if Speaks m then (stringOf (fillContent c)).map fun t ↦ (roleOf m, t) else none) = _
  rw [stringOf_fill]

theorem partTexts_fill (c : Content J) : partTexts (fillContent c) = partTexts c := by
  cases c with
  | null => rfl
  | value raw parts => rfl
  | text s =>
    rw [fillContent]
    split <;> rfl

theorem spokenParts_formatted (m : Message J) (c : Content J) :
    spokenParts (formatted m c) = if Speaks m then partTexts c else [] := by
  rw [spokenParts]
  change (if Speaks m then partTexts (fillContent c) else []) = _
  rw [partTexts_fill]

theorem contentTexts_fill (c : Content J) :
    contentTexts (fillContent c) = partTexts c ++ (stringOf c).toList := by
  cases c with
  | null => rfl
  | value raw parts => exact (List.append_nil _).symm
  | text s =>
    rw [fillContent, stringOf]
    split <;> rfl

theorem keptTexts_formatted (m : Message J) (c : Content J) : keptTexts (formatted m c) =
    spokenParts (formatted m c) ++ ((pendingOf (formatted m c)).map Prod.snd).toList := by
  rw [spokenParts_formatted, pendingOf_formatted, keptTexts]
  change (if Speaks m then contentTexts (fillContent c) else []) = _
  by_cases hspeaks : Speaks m
  · rw [if_pos hspeaks, if_pos hspeaks, if_pos hspeaks, contentTexts_fill, Option.map_map]
    cases stringOf c <;> rfl
  · rw [if_neg hspeaks, if_neg hspeaks, if_neg hspeaks]
    rfl

theorem stringOf_eq (c : Content J) : stringOf c =
    if isStringContent (fillContent c) = true then some (stringContent (fillContent c)) else none := by
  cases c with
  | null => rfl
  | value raw parts => rfl
  | text s =>
    rw [fillContent, stringOf]
    split <;> rfl

theorem roleOf_named {m : Message J} (h : m.role ≠ []) : roleOf m = m.role := if_neg h

theorem Speaks.role_ne_tool {m : Message J} (h : Speaks m) : m.role ≠ toolRole := by
  intro htool
  have hrole : roleOf m = toolRole := (roleOf_named (by rw [htool]; decide)).trans htool
  rw [Speaks, hrole] at h
  exact absurd h (by decide)

theorem continued_some (role t : Text) (b : Message J) : continued (some (role, t)) b =
    if isStringContent b.content = true ∧ roleOf b = role then some (role, t, stringContent b.content)
    else none := by
  rw [continued.eq_def]
  cases b.content with
  | null => rfl
  | value raw parts => rfl
  | text s =>
    by_cases hrole : roleOf b = role
    · exact (if_pos hrole).trans (if_pos ⟨rfl, hrole⟩).symm
    · exact (if_neg hrole).trans (if_neg fun h ↦ hrole h.2).symm

/-- A string of a speaker is joined to the next one exactly when the first loop does so. -/
theorem continued_formatted {a b : Message J} {c : Content J} (ha : a.role ≠ []) (hb : b.role ≠ [])
    (hc : isStringContent (fillContent c) = isStringContent (fillContent a.content)) :
    continued (pendingOf (formatted a c)) b =
      if merges a b = true ∧ Speaks a then
        some (roleOf a, stringContent (fillContent c), stringContent b.content)
      else none := by
  have hmerges : merges a b = true ↔ (a.role = b.role ∧ a.role ≠ toolRole) ∧
      isStringContent (fillContent c) = true ∧ isStringContent b.content = true := by
    rw [merges, Bool.and_eq_true, Bool.and_eq_true, decide_eq_true_eq, ← hc,
      and_assoc (c := isStringContent b.content = true)]
  rw [pendingOf_formatted, stringOf_eq]
  by_cases hspeaks : Speaks a
  · rw [if_pos hspeaks]
    by_cases hstring : isStringContent (fillContent c) = true
    · rw [if_pos hstring, Option.map_some, continued_some, roleOf_named ha, roleOf_named hb]
      refine if_congr ?_ rfl rfl
      rw [hmerges]
      exact ⟨fun h ↦ ⟨⟨⟨h.2.symm, hspeaks.role_ne_tool⟩, hstring, h.1⟩, hspeaks⟩,
        fun h ↦ ⟨h.1.2.2, h.1.1.1.symm⟩⟩
    · rw [if_neg hstring, if_neg fun h ↦ hstring (hmerges.mp h.1).2.1]
      rfl
  · rw [if_neg hspeaks, if_neg fun h ↦ hspeaks h.2]
    rfl

theorem merges_role {a b : Message J} (h : merges a b = true) : a.role = b.role := by
  rw [merges, Bool.and_eq_true, Bool.and_eq_true, decide_eq_true_eq] at h
  exact h.1.1.1

theorem partTexts_of_string {c : Content J} (h : isStringContent (fillContent c) = true) :
    partTexts c = [] := by
  cases c with
  | null => rfl
  | text s => rfl
  | value raw parts => cases h

theorem spokenTexts_go {join : Text → Text → Text} {p : Pending} {m : Message J} {role t s : Text}
    (h : continued p m = some (role, t, s)) (messages : List (Message J)) :
    spokenTexts join p (m :: messages) = spokenTexts join (some (role, join t s)) messages := by
  rw [spokenTexts, h]

theorem spokenTexts_stop {join : Text → Text → Text} {p : Pending} {m : Message J} (h : continued p m = none)
    (messages : List (Message J)) : spokenTexts join p (m :: messages) =
      (p.map Prod.snd).toList ++ (spokenParts m ++ spokenTexts join (pendingOf m) messages) := by
  rw [spokenTexts, h]

/-- The texts that the first loop keeps are those of the conversation, each join trimmed. -/
theorem foldl_texts {messages : List (Message J)} (done : List (Message J)) {a : Message J} {c : Content J}
    (ha : a.role ≠ []) (hnamed : ∀ m ∈ messages, m.role ≠ [])
    (hc : isStringContent (fillContent c) = isStringContent (fillContent a.content)) :
    (messages.foldl formatStep ⟨done ++ [formatted a c], formatted a c⟩).formatMessages.flatMap keptTexts =
      done.flatMap keptTexts ++ (spokenParts (formatted a c) ++
        spokenTexts trimmedJoin (pendingOf (formatted a c)) messages) := by
  induction messages generalizing done a c with
  | nil =>
    rw [List.foldl_nil, List.flatMap_append, List.flatMap_singleton, keptTexts_formatted]
    rfl
  | cons b messages ih =>
    have hb := hnamed b List.mem_cons_self
    have hrest := fun m hm ↦ hnamed m (List.mem_cons_of_mem b hm)
    have hcontinued := continued_formatted ha hb hc
    rw [List.foldl_cons, formatStep_next done hc]
    by_cases hmerges : merges a b = true
    · have hstring : isStringContent (fillContent c) = true := by
        rw [merges, Bool.and_eq_true, Bool.and_eq_true] at hmerges
        rw [hc]
        exact hmerges.1.2
      have hsame : roleOf b = roleOf a := by
        rw [roleOf, roleOf, merges_role hmerges]
      have hspeaks : Speaks b ↔ Speaks a := by
        rw [Speaks, Speaks, hsame]
      have hjoined : stringOf (.text (trimmedJoin (stringContent (fillContent c)) (stringContent b.content)) :
          Content J) = some (trimmedJoin (stringContent (fillContent c)) (stringContent b.content)) := by
        rw [stringOf, if_neg (trimmedJoin_ne_nil _ _)]
      have hfill : isStringContent (fillContent (.text (trimmedJoin (stringContent (fillContent c))
          (stringContent b.content)) : Content J)) = isStringContent (fillContent b.content) := by
        rw [isStringContent_fill (merges_string hmerges)]
        exact isStringContent_fill rfl
      rw [if_pos hmerges, ih done hb hrest hfill, pendingOf_formatted b, hjoined, spokenParts_formatted,
        spokenParts_formatted, partTexts_of_string hstring, ite_self]
      have hnone : partTexts (.text (trimmedJoin (stringContent (fillContent c)) (stringContent b.content)) :
          Content J) = [] := rfl
      rw [hnone, ite_self]
      refine congrArg (done.flatMap keptTexts ++ ·) (congrArg ([] ++ ·) ?_)
      by_cases hspeaker : Speaks a
      · rw [if_pos ⟨hmerges, hspeaker⟩] at hcontinued
        rw [spokenTexts_go hcontinued, if_pos (hspeaks.mpr hspeaker), hsame]
        rfl
      · rw [if_neg fun h ↦ hspeaker h.2] at hcontinued
        have hpending : pendingOf (formatted a c) = none := by
          rw [pendingOf_formatted, if_neg hspeaker]
        have hsilent := fun h ↦ hspeaker (hspeaks.mp h)
        rw [spokenTexts_stop hcontinued, hpending, if_neg hsilent, spokenParts, if_neg hsilent, pendingOf,
          if_neg hsilent]
        rfl
    · rw [if_neg hmerges, ih _ hb hrest rfl]
      rw [if_neg fun h ↦ hmerges h.1] at hcontinued
      rw [spokenTexts_stop hcontinued, List.flatMap_append, List.flatMap_singleton, keptTexts_formatted,
        pendingOf_formatted b, spokenParts_formatted b]
      simp only [List.append_assoc]
      rfl

theorem formatMessages_texts {m : Message J} {messages : List (Message J)} (hm : m.role ≠ [])
    (hnamed : ∀ m ∈ messages, m.role ≠ []) : (formatMessages (m :: messages)).flatMap keptTexts =
      spokenTexts trimmedJoin none (m :: messages) := by
  rw [formatMessages, List.foldl_cons, formatStep_first]
  refine (foldl_texts [] hm hnamed rfl).trans ?_
  have hpending : pendingOf (formatted m m.content) = pendingOf m := by
    rw [pendingOf_formatted, pendingOf]
  have hparts : spokenParts (formatted m m.content) = spokenParts m := spokenParts_formatted m m.content
  rw [hpending, hparts, spokenTexts_stop rfl]
  rfl

end Texts

section Quotes

theorem trimQuotes_eq (s : Text) :
    trimQuotes s = (s.dropWhile (· = '"')).rdropWhile (· = '"') := by
  rw [trimQuotes, List.rdropWhile]

theorem trimQuotes_sublist (s : Text) : (trimQuotes s).Sublist s := by
  rw [trimQuotes_eq]
  exact (List.rdropWhile_prefix _ _).sublist.trans (List.dropWhile_sublist _)

theorem trimQuotes_eq_self_iff {s : Text} (hs : s ≠ []) :
    trimQuotes s = s ↔ s.head? ≠ some '"' ∧ s.getLast? ≠ some '"' := by
  have hhead : s.dropWhile (fun c ↦ decide (c = '"')) = s ↔ s.head? ≠ some '"' := by
    rw [List.dropWhile_eq_self_iff]
    cases s with
    | nil => exact absurd rfl hs
    | cons c s => simp
  have hlast : s.rdropWhile (fun c ↦ decide (c = '"')) = s ↔ s.getLast? ≠ some '"' := by
    rw [List.rdropWhile_eq_self_iff, List.getLast?_eq_getLast_of_ne_nil hs]
    simp [hs]
  rw [← hhead, ← hlast, trimQuotes_eq]
  constructor
  · intro h
    have hlen := congrArg List.length h
    have hright := (List.rdropWhile_prefix (fun c ↦ decide (c = '"')) (s.dropWhile fun c ↦ decide (c = '"'))).length_le
    have hleft := List.dropWhile_sublist (l := s) fun c ↦ decide (c = '"')
    have hdropped := hleft.eq_of_length (by have := hleft.length_le; omega)
    rw [hdropped] at h
    exact ⟨hdropped, h⟩
  · rintro ⟨hleft, hright⟩
    rw [hleft, hright]

theorem trimmedJoin_eq_iff {t : Text} (ht : t ≠ []) (s : Text) :
    trimmedJoin t s = plainJoin t s ↔ t.head? ≠ some '"' ∧ s.getLast? ≠ some '"' := by
  rw [trimmedJoin, trimQuotes_eq_self_iff (plainJoin_ne_nil t s), plainJoin, List.head?_append_of_ne_nil _ ht,
    List.getLast?_append_of_ne_nil _ (List.cons_ne_nil _ _), List.getLast?_cons]
  refine and_congr_right fun _ ↦ not_congr ?_
  cases s.getLast? with
  | none => simp
  | some c => simp

def total (l : List Text) : ℕ := (l.map List.length).sum

def weight (p : Pending) : ℕ := (p.map fun q ↦ q.2.length).getD 0

theorem total_append (l l' : List Text) : total (l ++ l') = total l + total l' := by
  simp [total]

theorem total_pending (p : Pending) : total (p.map Prod.snd).toList = weight p := by
  cases p <;> simp [total, weight]

theorem continued_role {p p' : Pending} (h : p.map Prod.fst = p'.map Prod.fst) (m : Message J) :
    (continued p m = none ∧ continued p' m = none) ∨ ∃ role t t' s,
      p = some (role, t) ∧ p' = some (role, t') ∧ continued p m = some (role, t, s) ∧
        continued p' m = some (role, t', s) := by
  cases p with
  | none =>
    cases p' with
    | none => exact .inl ⟨rfl, rfl⟩
    | some q' => cases h
  | some q =>
    cases p' with
    | none => cases h
    | some q' =>
      obtain ⟨role, t⟩ := q
      obtain ⟨role', t'⟩ := q'
      obtain rfl : role = role' := Option.some.inj h
      rw [continued_some, continued_some]
      by_cases hgo : isStringContent m.content = true ∧ roleOf m = role
      · exact .inr ⟨role, t, t', stringContent m.content, rfl, rfl, if_pos hgo, if_pos hgo⟩
      · exact .inl ⟨if_neg hgo, if_neg hgo⟩

theorem continued_pending {p : Pending} {m : Message J} {role t s : Text}
    (h : continued p m = some (role, t, s)) : p = some (role, t) := by
  cases p with
  | none => cases h
  | some q =>
    rw [continued_some] at h
    split at h
    · obtain ⟨rfl, hq⟩ := Prod.mk.inj (Option.some.inj h)
      exact congrArg some (Prod.ext rfl (Prod.mk.inj hq).1)
    · cases h

theorem pendingOf_ne_nil {m : Message J} {q : Text × Text} (h : pendingOf m = some q) : q.2 ≠ [] := by
  rw [pendingOf] at h
  split at h
  · obtain ⟨t, ht, rfl⟩ := Option.map_eq_some_iff.mp h
    cases hcontent : m.content with
    | null =>
      rw [hcontent] at ht
      obtain rfl := Option.some.inj ht
      exact List.cons_ne_nil _ _
    | value raw parts =>
      rw [hcontent] at ht
      cases ht
    | text s =>
      rw [hcontent, stringOf] at ht
      obtain rfl := Option.some.inj ht
      dsimp only
      split
      · exact List.cons_ne_nil _ _
      · assumption
  · cases h

/-- What trimming takes from a text is never made up for later. -/
theorem total_trimmed_le (messages : List (Message J)) {p p' : Pending}
    (h : p.map Prod.fst = p'.map Prod.fst) :
    total (spokenTexts trimmedJoin p messages) + weight p' ≤
      total (spokenTexts plainJoin p' messages) + weight p := by
  induction messages generalizing p p' with
  | nil =>
    rw [spokenTexts, spokenTexts, total_pending, total_pending, Nat.add_comm]
  | cons m messages ih =>
    obtain ⟨hstop, hstop'⟩ | ⟨role, t, t', s, rfl, rfl, hgo, hgo'⟩ := continued_role h m
    · have hrest := ih (p := pendingOf m) rfl
      rw [spokenTexts_stop hstop, spokenTexts_stop hstop']
      simp only [total_append, total_pending]
      omega
    · have hrest : total (spokenTexts trimmedJoin (some (role, trimmedJoin t s)) messages) +
          weight (some (role, plainJoin t' s)) ≤
            total (spokenTexts plainJoin (some (role, plainJoin t' s)) messages) +
              weight (some (role, trimmedJoin t s)) := ih rfl
      have hle := (trimQuotes_sublist (plainJoin t s)).length_le
      rw [spokenTexts_go hgo, spokenTexts_go hgo']
      simp only [weight, Option.map_some, Option.getD_some, trimmedJoin, plainJoin, List.length_append,
        List.length_cons] at hrest hle ⊢
      omega

/-- The texts survive whole exactly when nothing is trimmed where two of them are joined. -/
theorem spokenTexts_eq_iff (messages : List (Message J)) {p : Pending} (hp : ∀ q, p = some q → q.2 ≠ []) :
    spokenTexts trimmedJoin p messages = spokenTexts plainJoin p messages ↔ Untrimmed p messages := by
  induction messages generalizing p with
  | nil => exact iff_of_true rfl trivial
  | cons m messages ih =>
    have hpending := fun q ↦ pendingOf_ne_nil (m := m) (q := q)
    rw [Untrimmed]
    cases hcontinued : continued p m with
    | none =>
      rw [spokenTexts_stop hcontinued, spokenTexts_stop hcontinued, List.append_cancel_left_eq,
        List.append_cancel_left_eq]
      exact ih hpending
    | some next =>
      obtain ⟨role, t, s⟩ := next
      have ht : t ≠ [] := hp (role, t) (continued_pending hcontinued)
      dsimp only
      rw [spokenTexts_go hcontinued, spokenTexts_go hcontinued, ← trimmedJoin_eq_iff ht,
        ← ih (p := some (role, plainJoin t s)) fun q hq ↦ Option.some.inj hq ▸ plainJoin_ne_nil t s]
      constructor
      · intro heq
        have hle : total (spokenTexts trimmedJoin (some (role, trimmedJoin t s)) messages) +
            weight (some (role, plainJoin t s)) ≤
              total (spokenTexts plainJoin (some (role, plainJoin t s)) messages) +
                weight (some (role, trimmedJoin t s)) := total_trimmed_le messages rfl
        have hsub := trimQuotes_sublist (plainJoin t s)
        have hsame : trimmedJoin t s = plainJoin t s := by
          refine hsub.eq_of_length ?_
          have hlen := hsub.length_le
          rw [heq] at hle
          simp only [weight, Option.map_some, Option.getD_some, trimmedJoin] at hle
          omega
        exact ⟨hsame, hsame ▸ heq⟩
      · rintro ⟨hsame, heq⟩
        rw [hsame]
        exact heq

end Quotes

section Blocks

variable (library : Library J)

/-- The blocks of a message in the second loop. -/
def messageBlocks (m : Message J) : List (ClaudeBlock J) :=
  if m.role = systemRole then []
  else if m.role = toolRole then [.toolResult m.toolCallId m.content]
  else ((claudeContent library m).toOption.map ClaudeContent.asBlocks).getD []

/-- The block that stands before a conversation which another than the user begins. -/
def openingBlocks (messages : List (Message J)) : List (ClaudeBlock J) :=
  match messages.find? fun m ↦ m.role ≠ systemRole with
  | some m => if m.role ≠ userRole then [.text dots] else []
  | none => []

def Spoken (messages : List (ClaudeMessage J)) :
    Prop := ∀ m ∈ messages, m.role = userRole ∨ m.role = assistantRole

variable {library} {st st' : ClaudeState J} {m : Message J}

theorem allBlocks_append (l l' : List (ClaudeMessage J)) :
    allBlocks (l ++ l') = allBlocks l ++ allBlocks l' :=
  List.flatMap_append

theorem allBlocks_single (m : ClaudeMessage J) :
    allBlocks [m] = m.content.asBlocks := List.flatMap_singleton _ _

theorem spoken_append (l : List (ClaudeMessage J)) (m : ClaudeMessage J) :
    Spoken (l ++ [m]) ↔ Spoken l ∧ (m.role = userRole ∨ m.role = assistantRole) := by
  rw [Spoken, List.forall_mem_append, List.forall_mem_singleton]
  rfl

theorem addToolResult_blocks (l : List (ClaudeMessage J)) (m : Message J) :
    allBlocks (addToolResult l m) = allBlocks l ++ [.toolResult m.toolCallId m.content] := by
  rw [addToolResult]
  cases hlast : l.getLast? with
  | none => exact allBlocks_append l _
  | some last =>
    dsimp only
    split
    · rw [allBlocks_append]
      conv_rhs => rw [← List.dropLast_append_getLast? last hlast]
      rw [allBlocks_append, List.append_assoc, allBlocks_single, allBlocks_single]
      rfl
    · exact allBlocks_append l _

theorem addToolResult_spoken (l : List (ClaudeMessage J)) (m : Message J) :
    Spoken (addToolResult l m) ↔ Spoken l := by
  rw [addToolResult]
  cases hlast : l.getLast? with
  | none => exact (spoken_append l _).trans (and_iff_left (.inl rfl))
  | some last =>
    dsimp only
    split
    · conv_rhs => rw [← List.dropLast_append_getLast? last hlast]
      rw [spoken_append, spoken_append]
    · exact (spoken_append l _).trans (and_iff_left (.inl rfl))

/-- The messages with the opening one, where it is due. -/
def opened (st : ClaudeState J) (m : Message J) : List (ClaudeMessage J) :=
  if st.isFirstMessage ∧ m.role ≠ userRole then
    st.claudeMessages ++ [{ role := userRole, content := .blocks [.text dots] }]
  else st.claudeMessages

theorem opened_blocks (st : ClaudeState J) (m : Message J) : allBlocks (opened st m) =
    allBlocks st.claudeMessages ++ if st.isFirstMessage ∧ m.role ≠ userRole then [.text dots] else [] := by
  rw [opened]
  split
  · exact allBlocks_append _ _
  · exact (List.append_nil _).symm

theorem opened_spoken (st : ClaudeState J) (m : Message J) :
    Spoken (opened st m) ↔ Spoken st.claudeMessages := by
  rw [opened]
  split
  · exact (spoken_append _ _).trans (and_iff_left (.inl rfl))
  · rfl

theorem claudeStep_system (hm : m.role = systemRole) (h : claudeStep library st m = .ok st') :
    st'.claudeMessages = st.claudeMessages ∧ st'.isFirstMessage = st.isFirstMessage := by
  rw [claudeStep, if_pos hm] at h
  obtain rfl := Except.ok.inj h
  exact ⟨rfl, rfl⟩

/-- A round over a message of the conversation: what comes in, and under which role. -/
theorem claudeStep_message (hm : m.role ≠ systemRole) (h : claudeStep library st m = .ok st') :
    allBlocks st'.claudeMessages = allBlocks (opened st m) ++ messageBlocks library m ∧
      st'.isFirstMessage = false ∧
      (Spoken st'.claudeMessages ↔ Spoken st.claudeMessages ∧
        (m.role ≠ toolRole → m.role = userRole ∨ m.role = assistantRole)) ∧
      (m.role ≠ toolRole → ∃ content, claudeContent library m = .ok content) := by
  rw [claudeStep, if_neg hm] at h
  dsimp only at h
  by_cases htool : m.role = toolRole
  · rw [if_pos htool] at h
    obtain rfl := Except.ok.inj h
    refine ⟨?_, rfl, ?_, fun hne ↦ absurd htool hne⟩
    · rw [messageBlocks, if_neg hm, if_pos htool]
      exact addToolResult_blocks (opened st m) m
    · rw [← opened_spoken st m]
      exact (addToolResult_spoken (opened st m) m).trans (and_iff_left fun hne ↦ absurd htool hne).symm
  · rw [if_neg htool] at h
    cases hcontent : claudeContent library m with
    | error e =>
      rw [hcontent] at h
      cases h
    | ok content =>
      rw [hcontent] at h
      obtain rfl := Except.ok.inj h
      refine ⟨?_, rfl, ?_, fun _ ↦ ⟨content, rfl⟩⟩
      · rw [messageBlocks, if_neg hm, if_neg htool, hcontent]
        change allBlocks (opened st m ++ [{ role := m.role, content := content }]) = _
        rw [allBlocks_append, allBlocks_single]
        rfl
      · rw [← opened_spoken st m]
        refine (spoken_append (opened st m) _).trans (and_congr_right fun _ ↦ ?_)
        exact ⟨fun h _ ↦ h, fun h ↦ h htool⟩

/-- The second loop: the blocks in the order of the messages, and whose they are. -/
theorem claudeLoop_spec {messages : List (Message J)} (h : claudeLoop library messages st = .ok st') :
    allBlocks st'.claudeMessages = allBlocks st.claudeMessages ++
        ((if st.isFirstMessage then openingBlocks messages else []) ++
          messages.flatMap (messageBlocks library)) ∧
      (Spoken st'.claudeMessages ↔ Spoken st.claudeMessages ∧ ∀ m ∈ messages, m.role ≠ systemRole →
        m.role ≠ toolRole → m.role = userRole ∨ m.role = assistantRole) ∧
      ∀ m ∈ messages, m.role ≠ systemRole → m.role ≠ toolRole →
        ∃ content, claudeContent library m = .ok content := by
  induction messages generalizing st with
  | nil =>
    obtain rfl := Except.ok.inj h
    simp [openingBlocks]
  | cons m messages ih =>
    rw [claudeLoop] at h
    cases hstep : claudeStep library st m with
    | error e =>
      rw [hstep] at h
      cases h
    | ok st₁ =>
      rw [hstep] at h
      obtain ⟨hblocks, hspoken, hcontents⟩ := ih h
      rw [hblocks, hspoken, List.forall_mem_cons, List.forall_mem_cons, List.flatMap_cons]
      by_cases hm : m.role = systemRole
      · obtain ⟨hmessages, hfirst⟩ := claudeStep_system hm hstep
        have hopening : openingBlocks (m :: messages) = openingBlocks messages := by
          rw [openingBlocks, List.find?_cons_of_neg (by simpa using hm)]
          rfl
        have hnone : messageBlocks library m = [] := if_pos hm
        rw [hmessages, hfirst, hopening, hnone]
        refine ⟨rfl, and_congr_right fun _ ↦ ?_, fun hne ↦ absurd hm hne, hcontents⟩
        exact (and_iff_right fun hne ↦ absurd hm hne).symm
      · obtain ⟨hown, hfirst, hroles, hcontent⟩ := claudeStep_message hm hstep
        have hopening : openingBlocks (m :: messages) = if m.role ≠ userRole then [.text dots] else [] := by
          rw [openingBlocks, List.find?_cons_of_pos (by simpa using hm)]
        refine ⟨?_, ?_, fun _ ↦ hcontent, hcontents⟩
        · rw [hown, hfirst, opened_blocks, hopening, if_neg Bool.false_ne_true, List.nil_append,
            List.append_assoc, List.append_assoc]
          refine congrArg (allBlocks st.claudeMessages ++ ·) (congrArg (· ++ _) ?_)
          by_cases hst : st.isFirstMessage = true <;> simp [hst]
        · rw [hroles, and_assoc]
          refine and_congr_right fun _ ↦ and_congr_left fun _ ↦ ?_
          exact ⟨fun h _ ↦ h, fun h ↦ h hm⟩

end Blocks

section Contents

variable {library : Library J}

theorem mediaBlocks_file {part : MediaContent} {parts : List MediaContent} {blocks : List (ClaudeBlock J)}
    (hpart : ∀ s, part = .text s → False) (h : mediaBlocks library (part :: parts) = .ok blocks) :
    ∃ rest, mediaBlocks library parts = .ok rest ∧
      (blocks = rest ∨ ∃ mimeType data, blocks = mediaBlock mimeType data :: rest) := by
  rw [mediaBlocks.eq_3 _ _ _ hpart] at h
  cases hsource : toFileSource part with
  | none =>
    rw [hsource] at h
    exact ⟨blocks, h, .inl rfl⟩
  | some source =>
    rw [hsource] at h
    dsimp only at h
    cases hdata : library.getBase64Data source with
    | error e =>
      rw [hdata] at h
      cases h
    | ok loaded =>
      cases hrest : mediaBlocks library parts with
      | error e =>
        rw [hdata, hrest] at h
        cases h
      | ok rest =>
        rw [hdata, hrest] at h
        exact ⟨rest, rfl, .inr ⟨loaded.2, loaded.1, (Except.ok.inj h).symm⟩⟩

theorem mediaBlocks_text {s : Text} {parts : List MediaContent} {blocks : List (ClaudeBlock J)}
    (h : mediaBlocks library (.text s :: parts) = .ok blocks) :
    ∃ rest, mediaBlocks library parts = .ok rest ∧ blocks = if s ≠ [] then .text s :: rest else rest := by
  rw [mediaBlocks] at h
  cases hrest : mediaBlocks library parts with
  | error e =>
    rw [hrest] at h
    cases h
  | ok rest =>
    rw [hrest] at h
    exact ⟨rest, rfl, (Except.ok.inj h).symm⟩

/-- What the blocks of a list of parts say, besides files. -/
theorem mediaBlocks_spec {parts : List MediaContent} {blocks : List (ClaudeBlock J)}
    (h : mediaBlocks library parts = .ok blocks) :
    blocks.filterMap blockText = textsOfParts parts ∧ blocks.filterMap blockUse = [] ∧
      blocks.filterMap blockEvent = [] := by
  induction parts generalizing blocks with
  | nil =>
    obtain rfl := Except.ok.inj h
    exact ⟨rfl, rfl, rfl⟩
  | cons part parts ih =>
    by_cases htext : ∃ s, part = .text s
    · obtain ⟨s, rfl⟩ := htext
      obtain ⟨rest, hrest, rfl⟩ := mediaBlocks_text h
      obtain ⟨htexts, huses, hevents⟩ := ih hrest
      by_cases hs : s = []
      · have hskip : textsOfParts (.text s :: parts) = textsOfParts parts :=
          List.filterMap_cons_none (if_pos hs)
        rw [if_neg (not_not.mpr hs), hskip]
        exact ⟨htexts, huses, hevents⟩
      · have hkeep : textsOfParts (.text s :: parts) = s :: textsOfParts parts :=
          List.filterMap_cons_some (if_neg hs)
        rw [if_pos hs, hkeep, ← htexts]
        exact ⟨rfl, huses, hevents⟩
    · obtain ⟨rest, hrest, hblocks⟩ := mediaBlocks_file (fun s hs ↦ htext ⟨s, hs⟩) h
      have hskip : textsOfParts (part :: parts) = textsOfParts parts := by
        refine List.filterMap_cons_none ?_
        cases part with
        | text s => exact absurd ⟨s, rfl⟩ htext
        | _ => rfl
      rw [hskip]
      obtain ⟨htexts, huses, hevents⟩ := ih hrest
      obtain rfl | ⟨mimeType, data, rfl⟩ := hblocks
      · exact ⟨htexts, huses, hevents⟩
      · exact ⟨htexts, huses, hevents⟩

/-- The calls whose arguments are read, in the order in which they are made. -/
def madeCalls (library : Library J) (m : Message J) : List (Text × Text × Option J) :=
  (toolCallsOf m).filterMap fun tc ↦
    (library.unmarshalObject tc.arguments).map fun input ↦ (tc.id, tc.name, some input)

theorem toolUseBlocks_spec (calls : List ToolCallRequest) :
    (toolUseBlocks library calls).filterMap blockText = [] ∧
      (toolUseBlocks library calls).filterMap blockUse = calls.filterMap (fun tc ↦
        (library.unmarshalObject tc.arguments).map fun input ↦ (tc.id, tc.name, some input)) ∧
      (toolUseBlocks library calls).filterMap blockEvent = (calls.filterMap (fun tc ↦
        (library.unmarshalObject tc.arguments).map fun input ↦ (tc.id, tc.name, some input))).map
          fun call ↦ .use call.1 := by
  rw [toolUseBlocks, List.map_filterMap, List.filterMap_filterMap, List.filterMap_filterMap,
    List.filterMap_filterMap]
  refine ⟨?_, ?_, ?_⟩
  · refine List.filterMap_eq_nil_iff.mpr fun tc _ ↦ ?_
    cases library.unmarshalObject tc.arguments <;> rfl
  · refine List.filterMap_congr fun tc _ ↦ ?_
    cases library.unmarshalObject tc.arguments <;> rfl
  · refine List.filterMap_congr fun tc _ ↦ ?_
    cases library.unmarshalObject tc.arguments <;> rfl

theorem formatted_calls (m : Message J) (c : Content J) :
    (formatted m c).toolCalls.getD [] = toolCallsOf m := by
  rw [toolCallsOf]
  change (if m.role = assistantRole then m.toolCalls else none).getD [] = _
  split <;> rfl

theorem fillContent_string {c : Content J} (h : isStringContent (fillContent c) = true) :
    ∃ s, fillContent c = .text s ∧ s ≠ [] := by
  cases c with
  | null => exact ⟨dots, rfl, List.cons_ne_nil _ _⟩
  | value raw parts => cases h
  | text s =>
    by_cases hs : s = []
    · exact ⟨dots, if_pos hs, List.cons_ne_nil _ _⟩
    · exact ⟨s, if_neg hs, hs⟩

theorem textsOfParts_fill (c : Content J) :
    textsOfParts (parseContent (fillContent c)) = contentTexts (fillContent c) := by
  cases hfill : fillContent c with
  | null => rfl
  | value raw parts => rfl
  | text s =>
    obtain ⟨s', hs', hne⟩ := fillContent_string (c := c) (by rw [hfill]; rfl)
    rw [hfill] at hs'
    injection hs' with hs'
    exact List.filterMap_cons_some (if_neg (hs' ▸ hne))

theorem madeCalls_formatted (m : Message J) (c : Content J) :
    madeCalls library (formatted m c) = madeCalls library m := by
  have hcalls : toolCallsOf (formatted m c) = toolCallsOf m := by
    rw [← formatted_calls m c, toolCallsOf]
    by_cases h : m.role = assistantRole
    · exact if_pos h
    · have hnone : (formatted m c).toolCalls = none := if_neg h
      rw [hnone]
      exact if_neg h
  rw [madeCalls, madeCalls, hcalls]

/-- What the blocks of a formatted message of the conversation say. -/
theorem messageBlocks_spec {m : Message J} {c : Content J} (hsystem : m.role ≠ systemRole)
    (htool : m.role ≠ toolRole) (hspeaks : Speaks m) {content : ClaudeContent J}
    (h : claudeContent library (formatted m c) = .ok content) :
    (messageBlocks library (formatted m c)).filterMap blockText = keptTexts (formatted m c) ∧
      (messageBlocks library (formatted m c)).filterMap blockUse = madeCalls library m ∧
      (messageBlocks library (formatted m c)).filterMap blockEvent =
        (madeCalls library m).map fun call ↦ .use call.1 := by
  have hblocks : messageBlocks library (formatted m c) = content.asBlocks := by
    refine (if_neg hsystem).trans ((if_neg htool).trans ?_)
    rw [h]
    rfl
  have hkept : keptTexts (formatted m c) = contentTexts (fillContent c) := if_pos hspeaks
  rw [hblocks, hkept]
  rw [claudeContent] at h
  split at h
  · rename_i hstring
    obtain ⟨s, hs, hne⟩ := fillContent_string hstring.1
    have hcalls : toolCallsOf m = [] := by
      rw [← formatted_calls m c, Option.isNone_iff_eq_none.mp hstring.2]
      rfl
    obtain rfl := Except.ok.inj h
    have htext : stringContent (formatted m c).content = s := congrArg stringContent hs
    rw [madeCalls, hcalls, htext, hs, if_neg hne]
    exact ⟨rfl, rfl, rfl⟩
  · cases hmedia : mediaBlocks library (parseContent (formatted m c).content) with
    | error e =>
      rw [hmedia] at h
      cases h
    | ok blocks =>
      rw [hmedia] at h
      obtain rfl := Except.ok.inj h
      obtain ⟨htexts, huses, hevents⟩ := mediaBlocks_spec hmedia
      obtain ⟨hnone, hmade, hordered⟩ := toolUseBlocks_spec (toolCallsOf m)
      rw [← formatted_calls m c] at hnone hmade hordered
      rw [ClaudeContent.asBlocks, List.filterMap_append, List.filterMap_append, List.filterMap_append, htexts,
        huses, hevents, hnone, hmade, hordered, formatted_calls, List.append_nil, List.nil_append,
          List.nil_append]
      exact ⟨textsOfParts_fill c, rfl, rfl⟩

end Contents

section Roles

variable {library : Library J} {messages : List (Message J)}

theorem formatStep_mem {st : FormatState J} {b m : Message J} (h : m ∈ (formatStep st b).formatMessages) :
    m ∈ st.formatMessages ∨ ∃ c, m = formatted b c := by
  rw [formatStep] at h
  dsimp only at h
  obtain h | h := List.mem_append.mp h
  · refine .inl ?_
    split at h
    · exact List.mem_of_mem_dropLast h
    · exact h
  · exact .inr ⟨_, List.mem_singleton.mp h⟩

theorem mem_formatMessages {m : Message J} (h : m ∈ formatMessages messages) :
    ∃ m' ∈ messages, ∃ c, m = formatted m' c := by
  have hrun : ∀ (messages : List (Message J)) (st : FormatState J),
      m ∈ (messages.foldl formatStep st).formatMessages →
        m ∈ st.formatMessages ∨ ∃ m' ∈ messages, ∃ c, m = formatted m' c := by
    intro messages
    induction messages with
    | nil => exact fun st h ↦ .inl h
    | cons b messages ih =>
      intro st h
      obtain h | ⟨m', hm', hc⟩ := ih _ h
      · obtain h | hc := formatStep_mem h
        · exact .inl h
        · exact .inr ⟨b, List.mem_cons_self, hc⟩
      · exact .inr ⟨m', List.mem_cons_of_mem b hm', hc⟩
  exact (hrun messages {} h).resolve_left List.not_mem_nil

theorem find?_survivors (p : Text → Bool) (messages : List (Message J)) (a : Message J) :
    ((survivors a messages).map Message.role).find? p = ((a :: messages).map Message.role).find? p := by
  induction messages generalizing a with
  | nil => rfl
  | cons b messages ih =>
    rw [survivors]
    by_cases h : merges a b = true
    · rw [if_pos h, ih b, List.map_cons, List.map_cons, List.map_cons, merges_role h]
      cases hp : p b.role with
      | true => rw [List.find?_cons_of_pos hp, List.find?_cons_of_pos hp]
      | false => rw [List.find?_cons_of_neg (a := b.role) (l := b.role :: _) (Bool.eq_false_iff.mp hp)]
    · rw [if_neg h, List.map_cons, List.map_cons, List.find?_cons, List.find?_cons, ih b]

/-- The first loop leaves the first role of a kind as it was. -/
theorem find?_formatMessages (p : Text → Bool) (messages : List (Message J)) :
    ((formatMessages messages).map Message.role).find? p = (messages.map Message.role).find? p := by
  cases messages with
  | nil => rfl
  | cons m messages =>
    have hroles := formatMessages_survivors (g := fun m : Message J ↦ [m.role]) (fun _ _ _ ↦ rfl) m messages
    rw [← List.map_eq_flatMap] at hroles
    rw [hroles]
    exact (congrArg (List.find? p) List.map_eq_flatMap.symm).trans (find?_survivors p messages m)

theorem forall_formatMessages (messages : List (Message J)) (P : Text → Prop) [DecidablePred P] :
    (∀ m ∈ formatMessages messages, P m.role) ↔ ∀ m ∈ messages, P m.role := by
  have hnone : ∀ l : List (Message J),
      (∀ m ∈ l, P m.role) ↔ (l.map Message.role).find? (fun role ↦ decide (¬ P role)) = none := by
    intro l
    simp
  rw [hnone, hnone, find?_formatMessages]

/-- The text that opens the conversation for Claude, where the roles are the named ones. -/
theorem openingBlocks_text (hnamed : ∀ m ∈ messages, m.role ≠ []) :
    (openingBlocks (formatMessages messages)).filterMap blockText = opening messages := by
  have hopen : ∀ l : List (Message J), openingBlocks l =
      ((l.map Message.role).find? fun role ↦ decide (role ≠ systemRole)).elim []
        fun role ↦ if role ≠ userRole then [.text dots] else [] := by
    intro l
    rw [openingBlocks, List.find?_map]
    change _ = ((l.find? fun m ↦ decide (m.role ≠ systemRole)).map Message.role).elim [] _
    cases l.find? fun m ↦ decide (m.role ≠ systemRole) <;> rfl
  rw [hopen, find?_formatMessages, ← hopen, openingBlocks, opening]
  cases hfirst : messages.find? fun m ↦ decide (m.role ≠ systemRole) with
  | none => rfl
  | some m =>
    dsimp only
    rw [roleOf_named (hnamed m (List.mem_of_find?_eq_some hfirst))]
    split <;> rfl

end Roles

section Calls

variable {library : Library J} {messages : List (Message J)}

theorem adjacent_cons {P : Message J → Message J → Prop} {a b : Message J} :
    (∀ pre x y post, a :: b :: messages = pre ++ x :: y :: post → P x y) ↔
      P a b ∧ ∀ pre x y post, b :: messages = pre ++ x :: y :: post → P x y := by
  constructor
  · intro h
    refine ⟨h [] a b messages rfl, fun pre x y post heq ↦ h (a :: pre) x y post ?_⟩
    rw [heq]
    rfl
  · intro h pre x y post heq
    obtain ⟨hfirst, hrest⟩ := h
    cases pre with
    | nil =>
      injection heq with hx heq
      injection heq with hy heq
      exact hx ▸ hy ▸ hfirst
    | cons c pre =>
      injection heq with hc heq
      exact hrest pre x y post heq

theorem madeCalls_length_le (m : Message J) :
    (madeCalls library m).length ≤ (expectedCalls library m).length := by
  rw [expectedCalls, List.length_map]
  exact List.length_filterMap_le _ _

theorem inputOf_some {arguments : Text} {input : J} (h : library.unmarshalObject arguments = some input) :
    inputOf library arguments = some input := by
  have hne : arguments ≠ [] := by
    rintro rfl
    rw [library.unmarshal_nil] at h
    cases h
  exact (if_neg hne).trans h

/-- The calls of a message are made as they are exactly when all their arguments are read. -/
theorem madeCalls_eq_iff (m : Message J) : madeCalls library m = expectedCalls library m ↔
    ∀ tc ∈ toolCallsOf m, (library.unmarshalObject tc.arguments).isSome := by
  rw [madeCalls, expectedCalls]
  constructor
  · intro h tc htc
    have hlen := congrArg List.length h
    rw [List.length_map, List.length_filterMap_eq_countP, List.countP_eq_length] at hlen
    have hread := hlen tc htc
    rwa [Option.isSome_map] at hread
  · intro h
    rw [← List.filterMap_eq_map]
    refine List.filterMap_congr fun tc htc ↦ ?_
    obtain ⟨input, hinput⟩ := Option.isSome_iff_exists.mp (h tc htc)
    rw [Function.comp_apply, inputOf_some hinput, hinput]
    rfl

theorem survivors_length_le (messages : List (Message J)) (a : Message J) :
    ((survivors a messages).flatMap (madeCalls library)).length ≤
      ((a :: messages).flatMap (expectedCalls library)).length := by
  induction messages generalizing a with
  | nil =>
    rw [survivors, List.flatMap_singleton, List.flatMap_singleton]
    exact madeCalls_length_le a
  | cons b messages ih =>
    have hrest := ih b
    have ha : (madeCalls library a).length ≤ (expectedCalls library a).length := madeCalls_length_le a
    rw [survivors, List.flatMap_cons, List.length_append]
    split
    · omega
    · rw [List.flatMap_cons, List.length_append]
      omega

/-- Every call is made exactly when the arguments of all are read and no message with calls is joined
to the next one. -/
theorem survivors_calls_iff (messages : List (Message J)) (a : Message J) :
    (survivors a messages).flatMap (madeCalls library) = (a :: messages).flatMap (expectedCalls library) ↔
      (∀ pre x y post, a :: messages = pre ++ x :: y :: post → merges x y = true → toolCallsOf x = []) ∧
        ∀ m ∈ a :: messages, ∀ tc ∈ toolCallsOf m, (library.unmarshalObject tc.arguments).isSome := by
  induction messages generalizing a with
  | nil =>
    rw [survivors, List.flatMap_singleton, List.flatMap_singleton, madeCalls_eq_iff,
      List.forall_mem_singleton]
    refine (and_iff_right fun pre x y post heq ↦ ?_).symm
    have hlen := congrArg List.length heq
    simp only [List.length_append, List.length_cons, List.length_nil] at hlen
    omega
  | cons b messages ih =>
    have hle : ((survivors b messages).flatMap (madeCalls library)).length ≤
        ((b :: messages).flatMap (expectedCalls library)).length := survivors_length_le messages b
    rw [survivors, adjacent_cons, List.forall_mem_cons, List.flatMap_cons]
    by_cases h : merges a b = true
    · rw [if_pos h]
      have hempty : expectedCalls library a = [] ↔ toolCallsOf a = [] := List.map_eq_nil_iff
      constructor
      · intro heq
        have hlen := congrArg List.length heq
        rw [List.length_append] at hlen
        have hnone : expectedCalls library a = [] := List.eq_nil_of_length_eq_zero (by omega)
        have hcalls := hempty.mp hnone
        rw [hnone, List.nil_append] at heq
        obtain ⟨hapart, harguments⟩ := (ih b).mp heq
        refine ⟨⟨fun _ ↦ hcalls, hapart⟩, fun tc htc ↦ ?_, harguments⟩
        rw [hcalls] at htc
        exact absurd htc List.not_mem_nil
      · intro h'
        obtain ⟨⟨hfirst, hapart⟩, -, harguments⟩ := h'
        rw [hempty.mpr (hfirst h), List.nil_append]
        exact (ih b).mpr ⟨hapart, harguments⟩
    · have ha : (madeCalls library a).length ≤ (expectedCalls library a).length := madeCalls_length_le a
      rw [if_neg h, List.flatMap_cons]
      constructor
      · intro heq
        have hlen := congrArg List.length heq
        rw [List.length_append, List.length_append] at hlen
        obtain ⟨hown, hrest⟩ := List.append_inj heq (by omega)
        obtain ⟨hapart, harguments⟩ := (ih b).mp hrest
        exact ⟨⟨fun hmerges ↦ absurd hmerges h, hapart⟩, (madeCalls_eq_iff a).mp hown, harguments⟩
      · intro h'
        obtain ⟨⟨-, hapart⟩, hown, harguments⟩ := h'
        rw [(madeCalls_eq_iff a).mpr hown, (ih b).mpr ⟨hapart, harguments⟩]

end Calls

section Events

variable {library : Library J} {messages : List (Message J)}

/-- The events of a message whose calls with unread arguments are left out. -/
def keptEvents (library : Library J) (m : Message J) : List Event :=
  if m.role = toolRole then [.result m.toolCallId] else (madeCalls library m).map fun call ↦ .use call.1

theorem keptEvents_eq {m : Message J} (h : madeCalls library m = expectedCalls library m) :
    keptEvents library m = eventsOf m := by
  rw [keptEvents, eventsOf, h, expectedCalls, List.map_map]
  rfl

theorem eventsOf_merged {a b : Message J} (h : merges a b = true) (hcalls : toolCallsOf a = []) :
    eventsOf a = [] := by
  rw [merges, Bool.and_eq_true, Bool.and_eq_true, decide_eq_true_eq] at h
  rw [eventsOf, if_neg h.1.1.2, hcalls, List.map_nil]

theorem survivors_events {messages : List (Message J)} {a : Message J}
    (hapart : ∀ pre x y post, a :: messages = pre ++ x :: y :: post → merges x y = true → toolCallsOf x = [])
    (harguments : ∀ m ∈ a :: messages, ∀ tc ∈ toolCallsOf m, (library.unmarshalObject tc.arguments).isSome) :
    (survivors a messages).flatMap (keptEvents library) = (a :: messages).flatMap eventsOf := by
  induction messages generalizing a with
  | nil =>
    rw [List.forall_mem_singleton, ← madeCalls_eq_iff] at harguments
    rw [survivors, List.flatMap_singleton, List.flatMap_singleton, keptEvents_eq harguments]
  | cons b messages ih =>
    rw [adjacent_cons] at hapart
    rw [List.forall_mem_cons, ← madeCalls_eq_iff] at harguments
    have hrest := ih hapart.2 harguments.2
    rw [survivors, List.flatMap_cons, ← hrest]
    by_cases h : merges a b = true
    · rw [if_pos h, eventsOf_merged h (hapart.1 h), List.nil_append]
    · rw [if_neg h, List.flatMap_cons, keptEvents_eq harguments.1]

/-- Whatever the results of `P` are, they have their calls among the blocks before them as they have
them among the events before them. -/
theorem answered_blocks (blocks : List (ClaudeBlock J)) (P : Text → Prop) :
    (∀ pre id content post, blocks = pre ++ .toolResult id content :: post → P id →
        ∃ name input, .toolUse id name input ∈ pre) ↔
      ∀ pre id post, blocks.filterMap blockEvent = pre ++ .result id :: post → P id → .use id ∈ pre := by
  constructor
  · intro h pre id post hevents hid
    obtain ⟨before, rest, rfl, rfl, hrest⟩ := List.filterMap_eq_append_iff.mp hevents
    obtain ⟨silent, block, after, rfl, hsilent, hblock, rfl⟩ := List.filterMap_eq_cons_iff.mp hrest
    cases block with
    | text s => cases hblock
    | media type mediaType data => cases hblock
    | toolUse id name input => cases hblock
    | toolResult id' content =>
      obtain rfl : id' = id := Event.result.inj (Option.some.inj hblock)
      obtain ⟨name, input, huse⟩ := h (before ++ silent) id' content after (List.append_assoc _ _ _).symm hid
      obtain huse | huse := List.mem_append.mp huse
      · exact List.mem_filterMap.mpr ⟨_, huse, rfl⟩
      · cases hsilent _ huse
  · intro h pre id content post hblocks hid
    have hevents : blocks.filterMap blockEvent =
        pre.filterMap blockEvent ++ .result id :: post.filterMap blockEvent := by
      rw [hblocks, List.filterMap_append]
      rfl
    obtain ⟨block, hmem, hblock⟩ := List.mem_filterMap.mp (h _ id _ hevents hid)
    cases block with
    | text s => cases hblock
    | media type mediaType data => cases hblock
    | toolResult id content => cases hblock
    | toolUse id' name input =>
      obtain rfl : id' = id := Event.use.inj (Option.some.inj hblock)
      exact ⟨name, input, hmem⟩

theorem mem_events_iff (id : Text) :
    .use id ∈ messages.flatMap eventsOf ↔ ∃ m ∈ messages, ∃ tc ∈ toolCallsOf m, tc.id = id := by
  rw [List.mem_flatMap]
  refine exists_congr fun m ↦ and_congr_right fun _ ↦ ?_
  rw [eventsOf]
  by_cases htool : m.role = toolRole
  · have hnone : toolCallsOf m = [] := if_neg (by rw [htool]; decide)
    rw [if_pos htool, hnone]
    simp
  · rw [if_neg htool, List.mem_map]
    refine exists_congr fun tc ↦ and_congr_right fun _ ↦ ?_
    rw [Event.use.injEq]

end Events

section Kept

variable {library : Library J} {messages : List (Message J)}

def Named (m : Message J) : Prop :=
  m.role = systemRole ∨ m.role = userRole ∨ m.role = assistantRole ∨ m.role = toolRole

theorem Named.ne_nil {m : Message J} (h : Named m) : m.role ≠ [] := by
  intro hnil
  rw [Named, hnil] at h
  exact absurd h (by decide)

theorem silent_formatted (library : Library J) {m : Message J} (c : Content J) (hne : m.role ≠ [])
    (huser : m.role ≠ userRole)
    (hassistant : m.role ≠ assistantRole) :
    keptTexts (formatted m c) = [] ∧ madeCalls library (formatted m c) = [] := by
  have hsilent : ¬ Speaks (formatted m c) := by
    intro h
    rw [Speaks, roleOf_named (m := formatted m c) hne] at h
    exact h.elim huser hassistant
  have hcalls : toolCallsOf (formatted m c) = [] := if_neg hassistant
  rw [madeCalls, hcalls]
  exact ⟨if_neg hsilent, rfl⟩

theorem messageBlocks_kept {m : Message J} {c : Content J} (hm : Named m)
    (hcontent : m.role ≠ systemRole → m.role ≠ toolRole →
      ∃ content, claudeContent library (formatted m c) = .ok content) :
    (messageBlocks library (formatted m c)).filterMap blockText = keptTexts (formatted m c) ∧
      (messageBlocks library (formatted m c)).filterMap blockUse = madeCalls library (formatted m c) ∧
      (messageBlocks library (formatted m c)).filterMap blockEvent = keptEvents library (formatted m c) := by
  have hrole : (formatted m c).role = m.role := rfl
  by_cases hsystem : m.role = systemRole
  · have hblocks : messageBlocks library (formatted m c) = [] := if_pos hsystem
    obtain ⟨htexts, hcalls⟩ := silent_formatted library c hm.ne_nil
      (by rw [hsystem]; decide) (by rw [hsystem]; decide)
    rw [hblocks, htexts, keptEvents, hcalls, hrole, if_neg (by rw [hsystem]; decide)]
    exact ⟨rfl, rfl, rfl⟩
  by_cases htool : m.role = toolRole
  · have hblocks : messageBlocks library (formatted m c) =
        [.toolResult (formatted m c).toolCallId (formatted m c).content] :=
      (if_neg hsystem).trans (if_pos htool)
    obtain ⟨htexts, hcalls⟩ := silent_formatted library c hm.ne_nil
      (by rw [htool]; decide) (by rw [htool]; decide)
    rw [hblocks, htexts, keptEvents, hcalls, hrole, if_pos htool]
    exact ⟨rfl, rfl, rfl⟩
  · have hspeaks : Speaks m := by
      rw [Speaks, roleOf_named hm.ne_nil]
      obtain h | h | h | h := hm
      · exact absurd h hsystem
      · exact .inl h
      · exact .inr h
      · exact absurd h htool
    obtain ⟨content, hok⟩ := hcontent hsystem htool
    rw [keptEvents, hrole, if_neg htool, madeCalls_formatted]
    exact messageBlocks_spec hsystem htool hspeaks hok

theorem formatMessages_flatMap {α : Type} {f : ClaudeBlock J → Option α} {g : Message J → List α}
    (h : ∀ m ∈ formatMessages messages, (messageBlocks library m).filterMap f = g m) :
    ((formatMessages messages).flatMap (messageBlocks library)).filterMap f =
    (formatMessages messages).flatMap g := by
  rw [List.filterMap_flatMap]
  exact List.flatMap_congr h

theorem spokenTexts_formatMessages (hnamed : ∀ m ∈ messages, m.role ≠ []) :
    (formatMessages messages).flatMap keptTexts = spokenTexts trimmedJoin none messages := by
  cases messages with
  | nil => rfl
  | cons m messages =>
    rw [List.forall_mem_cons] at hnamed
    exact formatMessages_texts hnamed.1 hnamed.2

theorem calls_formatMessages_iff (library : Library J) (messages : List (Message J)) :
    (formatMessages messages).flatMap (madeCalls library) =
      messages.flatMap (expectedCalls library) ↔
    (∀ pre x y post, messages = pre ++ x :: y :: post → merges x y = true → toolCallsOf x = []) ∧
      ∀ m ∈ messages, ∀ tc ∈ toolCallsOf m, (library.unmarshalObject tc.arguments).isSome := by
  cases messages with
  | nil => simp [formatMessages]
  | cons m messages =>
    rw [formatMessages_survivors (g := madeCalls library) (fun _ _ _ ↦ rfl), ← survivors_calls_iff]
    simp only [madeCalls_formatted]

theorem events_formatMessages
    (hapart : ∀ pre x y post, messages = pre ++ x :: y :: post → merges x y = true → toolCallsOf x = [])
    (harguments : ∀ m ∈ messages, ∀ tc ∈ toolCallsOf m, (library.unmarshalObject tc.arguments).isSome) :
    (formatMessages messages).flatMap (keptEvents library) = messages.flatMap eventsOf := by
  cases messages with
  | nil => rfl
  | cons m messages =>
    rw [formatMessages_survivors (g := keptEvents library)
      (fun _ _ _ ↦ rfl), ← survivors_events hapart harguments]
    refine List.flatMap_congr fun m _ ↦ ?_
    rw [keptEvents, keptEvents, madeCalls_formatted]
    by_cases htool : m.role = toolRole
    · have hid : (formatted m m.content).toolCallId = m.toolCallId := if_pos htool
      rw [if_pos htool, hid]
      exact if_pos htool
    · rw [if_neg htool]
      exact if_neg htool

variable {request : ClaudeRequest J}

theorem request_run (h : requestOpenAI2ClaudeMessage library messages = .ok request) :
    ∃ st, claudeLoop library (formatMessages messages) {} = .ok st ∧
      request = { system := st.systemMessages, messages := st.claudeMessages } := by
  rw [requestOpenAI2ClaudeMessage] at h
  cases hst : claudeLoop library (formatMessages messages) {} with
  | error e =>
    rw [hst] at h
    cases h
  | ok st =>
    rw [hst] at h
    exact ⟨st, rfl, (Except.ok.inj h).symm⟩

theorem request_roles_iff (h : requestOpenAI2ClaudeMessage library messages = .ok request) :
    (∀ m ∈ request.messages, m.role = userRole ∨ m.role = assistantRole) ↔ ∀ m ∈ messages, Named m := by
  obtain ⟨st, hst, rfl⟩ := request_run h
  obtain ⟨-, hspoken, -⟩ := claudeLoop_spec hst
  have hroles := forall_formatMessages messages fun role ↦
    role ≠ systemRole → role ≠ toolRole → role = userRole ∨ role = assistantRole
  refine hspoken.trans ((and_iff_right (fun _ h ↦ absurd h List.not_mem_nil)).trans (hroles.trans ?_))
  refine forall₂_congr fun m _ ↦ ?_
  rw [Named]
  tauto

/-- What the messages for Claude hold of a conversation whose roles are the named ones. -/
theorem request_blocks (h : requestOpenAI2ClaudeMessage library messages = .ok request)
    (hnamed : ∀ m ∈ messages, Named m) :
    (allBlocks request.messages).filterMap blockText =
      opening messages ++ spokenTexts trimmedJoin none messages ∧
      (allBlocks request.messages).filterMap blockUse =
      (formatMessages messages).flatMap (madeCalls library) ∧
      (allBlocks request.messages).filterMap blockEvent =
      (formatMessages messages).flatMap (keptEvents library) := by
  obtain ⟨st, hst, rfl⟩ := request_run h
  obtain ⟨hblocks, -, hcontents⟩ := claudeLoop_spec hst
  have hkept : ∀ m ∈ formatMessages messages, (messageBlocks library m).filterMap blockText = keptTexts m ∧
      (messageBlocks library m).filterMap blockUse = madeCalls library m ∧
      (messageBlocks library m).filterMap blockEvent = keptEvents library m := by
    intro m hm
    obtain ⟨m', hm', c, rfl⟩ := mem_formatMessages hm
    exact messageBlocks_kept (hnamed m' hm') (hcontents _ hm)
  have hopening := openingBlocks_text fun m hm ↦ (hnamed m hm).ne_nil
  have hquiet : (openingBlocks (formatMessages messages)).filterMap blockUse = [] ∧
      (openingBlocks (formatMessages messages)).filterMap blockEvent = [] := by
    rw [openingBlocks]
    cases (formatMessages messages).find? fun m ↦ decide (m.role ≠ systemRole) with
    | none => exact ⟨rfl, rfl⟩
    | some m =>
      dsimp only
      split <;> exact ⟨rfl, rfl⟩
  have hstart : allBlocks st.claudeMessages =
      openingBlocks (formatMessages messages) ++
        (formatMessages messages).flatMap (messageBlocks library) := hblocks
  rw [hstart, List.filterMap_append, List.filterMap_append, List.filterMap_append, hopening, hquiet.1,
    hquiet.2,
    formatMessages_flatMap fun m hm ↦ (hkept m hm).1, formatMessages_flatMap fun m hm ↦ (hkept m hm).2.1,
    formatMessages_flatMap fun m hm ↦ (hkept m hm).2.2,
      spokenTexts_formatMessages fun m hm ↦ (hnamed m hm).ne_nil]
  exact ⟨rfl, rfl, rfl⟩

/-- The messages for Claude hold the conversation exactly when every role is a named one, no quotation
mark stands at an end of a joined text, no message with calls is joined to the next one, all arguments
are read as objects, and every call comes before its result. -/
theorem conversation_kept_iff (h : requestOpenAI2ClaudeMessage library messages = .ok request) :
    Keeps library messages request ↔ Orderly library messages := by
  have hroles := request_roles_iff h
  have hquotes := spokenTexts_eq_iff messages (p := none) fun q hq ↦ (Option.some_ne_none q hq.symm).elim
  have hcalls := calls_formatMessages_iff library messages
  have hanswered := answered_blocks (allBlocks request.messages) fun id ↦
    ∃ m ∈ messages, ∃ tc ∈ toolCallsOf m, tc.id = id
  constructor
  · intro hkeeps
    have hnamed := hroles.mp hkeeps.roles
    obtain ⟨htexts, huses, hevents⟩ := request_blocks h hnamed
    obtain ⟨hapart, harguments⟩ := hcalls.mp (huses.symm.trans hkeeps.calls)
    rw [hevents, events_formatMessages hapart harguments] at hanswered
    refine ⟨hnamed, hquotes.mp ?_, hapart, harguments, fun pre id post heq huse ↦ ?_⟩
    · exact List.append_cancel_left (htexts.symm.trans hkeeps.texts)
    · exact hanswered.mp hkeeps.answered pre id post heq ((mem_events_iff id).mp huse)
  · intro horderly
    obtain ⟨htexts, huses, hevents⟩ := request_blocks h horderly.roles
    rw [hevents, events_formatMessages horderly.apart horderly.arguments] at hanswered
    refine ⟨hroles.mpr horderly.roles, ?_, huses.trans (hcalls.mpr ⟨horderly.apart, horderly.arguments⟩), ?_⟩
    · rw [htexts, hquotes.mpr horderly.untrimmed]
    · refine hanswered.mpr fun pre id post heq hmade ↦ ?_
      exact horderly.answered pre id post heq ((mem_events_iff id).mpr hmade)

/-- Objects without fields, and no files. -/
def emptyObjects : Library Unit where
  unmarshalObject s := if s = "\x7b\x7d".toList then some () else none
  emptyObject := ()
  getBase64Data _ := .error ""
  unmarshal_nil := rfl

def calledChat (role arguments : Text) : List (Message Unit) :=
  [{ role := role, content := .text ['h'] },
    { role := assistantRole, toolCalls := some [⟨['c'], "function".toList, ['f'], arguments⟩] },
    { role := toolRole, content := .text ['o'], toolCallId := ['c'] }]

def calledMessages (role : Text) (calls : List (ClaudeBlock Unit)) : ClaudeRequest Unit where
  system := []
  messages :=
    [{ role := role, content := .string ['h'] },
      { role := assistantRole, content := .blocks (.text dots :: calls) },
      { role := userRole, content := .blocks [.toolResult ['c'] (.text ['o'])] }]

theorem conversation_kept_called :
    Keeps emptyObjects (calledChat userRole "\x7b\x7d".toList) (calledMessages userRole [.toolUse ['c'] ['f'] ()]) ↔
      Orderly emptyObjects (calledChat userRole "\x7b\x7d".toList) :=
  conversation_kept_iff (by rfl)

/-- A call without arguments is left out, its result stays. -/
theorem conversation_kept_not : ¬ ∀ (library : Library Unit) (messages : List (Message Unit))
    (request : ClaudeRequest Unit), requestOpenAI2ClaudeMessage library messages = .ok request →
      Keeps library messages request := by
  intro h
  have hcalls := (h emptyObjects (calledChat userRole []) (calledMessages userRole []) (by rfl)).calls
  exact absurd (congrArg List.length hcalls) (by decide)

end Kept

end AllAiTools.NewApi.Relay.ConversationKept
