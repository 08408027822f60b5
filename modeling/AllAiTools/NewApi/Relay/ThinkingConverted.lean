import AllAiTools.NewApi.Relay.RelayOpenAI

namespace AllAiTools.NewApi.Relay.ThinkingConverted

open Dto.OpenAIResponse (Text)
open RelayOpenAI

variable {ρ τ : Type}

abbrev Chunk (ρ τ : Type) := ChatCompletionsStreamResponse ρ τ

section Property

def contentOf (chunk : Chunk ρ τ) : Text := chunk.choices.flatMap fun choice ↦ choice.delta.getContentString

/-- All that is sent for the chunks, by the flags the stream is in. -/
def sent : ThinkingContentInfo → List (Chunk ρ τ) → List (Chunk ρ τ)
  | _, [] => []
  | info, chunk :: chunks =>
    (sendStreamData info chunk).1 ++ sent (sendStreamData info chunk).2 chunks

def content (chunks : List (Chunk ρ τ)) : Text := chunks.flatMap contentOf

def reasoning (chunks : List (Chunk ρ τ)) : Text := chunks.flatMap thinkingContent

/-- Reasoning does not come once content has begun. -/
def Ordered (chunks : List (Chunk ρ τ)) : Prop :=
  chunks.Pairwise fun a b ↦ hasContent a → hasThinkingContent b = false

/-- The client gets the reasoning between its tags, and the content behind it. -/
def Converts (chunks : List (Chunk ρ τ)) : Prop :=
  content (sent {} chunks) =
    if reasoning chunks = [] then content chunks
    else opening ++ reasoning chunks ++ closing ++ content chunks

/-- The first chunk with reasoning has a single choice and no content; there is content, and the
first chunk with it has a single choice and no reasoning. -/
def Apart (chunks : List (Chunk ρ τ)) : Prop :=
  (∀ chunk ∈ chunks.find? hasThinkingContent, chunk.choices.length = 1 ∧ hasContent chunk = false) ∧
    ∃ chunk ∈ chunks.find? hasContent,
      chunk.choices.length = 1 ∧ hasThinkingContent chunk = false

end Property

section Chunks

theorem contentOf_tagged (chunk : Chunk ρ τ) (s : Text) :
    contentOf (chunk.tagged s) = (List.replicate chunk.choices.length s).flatten := by
  obtain ⟨choices, rest⟩ := chunk
  unfold contentOf ChatCompletionsStreamResponse.tagged
  induction choices with
  | nil => rfl
  | cons choice choices ih =>
    rw [List.map_cons, List.flatMap_cons, List.length_cons, List.replicate_succ, List.flatten_cons]
    exact congrArg (s ++ ·) ih

theorem contentOf_eq_nil {chunk : Chunk ρ τ} (h : hasContent chunk = false) : contentOf chunk = [] := by
  apply List.flatMap_eq_nil_iff.mpr
  intro choice hchoice
  by_contra hne
  have hany : hasContent chunk = true := List.any_eq_true.mpr ⟨choice, hchoice, decide_eq_true hne⟩
  rw [h] at hany
  cases hany

theorem thinkingContent_eq_nil_iff {chunk : Chunk ρ τ} :
    thinkingContent chunk = [] ↔ hasThinkingContent chunk = false := by
  unfold thinkingContent hasThinkingContent
  rw [List.flatMap_eq_nil_iff, List.any_eq_false]
  simp

/-- What a choice shows after the pass. -/
def shown (choice : StreamChoice ρ) : Text :=
  if choice.delta.getReasoningContent ≠ [] then choice.delta.getReasoningContent
  else choice.delta.getContentString

theorem convertChoice_content (chunk : Chunk ρ τ) (choice : StreamChoice ρ) :
    (convertChoice chunk choice).delta.getContentString = shown choice := by
  unfold convertChoice shown
  split_ifs <;> rfl

/-- Whether the end of the reasoning is due before the chunk. -/
def due (info : ThinkingContentInfo) (chunk : Chunk ρ τ) : Bool :=
  hasContent chunk && !info.sendLastThinkingContent && info.hasSentThinkingContent

theorem processChoices_not_due {info : ThinkingContentInfo} {chunk : Chunk ρ τ}
    (h : due info chunk = false) (choices : List (StreamChoice ρ)) :
    processChoices chunk info choices = ([], choices.map (convertChoice chunk), info) := by
  induction choices with
  | nil => rfl
  | cons choice choices ih =>
    unfold due at h
    rw [processChoices, if_neg (by rw [h]; exact Bool.false_ne_true), ih]
    rfl

theorem processChoices_due {info : ThinkingContentInfo} {chunk : Chunk ρ τ}
    (h : due info chunk = true) {choices : List (StreamChoice ρ)} (hne : choices ≠ []) :
    processChoices chunk info choices =
      ([chunk.tagged closing], choices.map (convertChoice chunk),
        { info with sendLastThinkingContent := true }) := by
  cases choices with
  | nil => exact absurd rfl hne
  | cons choice choices =>
    have hafter : due { info with sendLastThinkingContent := true } chunk = false := by
      simp [due]
    unfold due at h
    rw [processChoices, if_pos h, processChoices_not_due hafter]
    rfl

theorem ne_nil_of_hasContent {chunk : Chunk ρ τ} (h : hasContent chunk = true) :
    chunk.choices ≠ [] := by
  obtain ⟨choice, hchoice, -⟩ := List.any_eq_true.mp h
  exact List.ne_nil_of_mem hchoice

/-- The content sent for a chunk that does not open the reasoning. -/
theorem send_later (info : ThinkingContentInfo) (chunk : Chunk ρ τ)
    (h : (info.isFirstThinkingContent && hasThinkingContent chunk) = false) :
    content (sendStreamData info chunk).1 =
        (if due info chunk then (List.replicate chunk.choices.length closing).flatten else []) ++
          chunk.choices.flatMap shown ∧
      (sendStreamData info chunk).2 =
        { info with sendLastThinkingContent := info.sendLastThinkingContent || due info chunk } := by
  unfold sendStreamData
  rw [if_neg (by rw [h]; exact Bool.false_ne_true)]
  have hshown : ∀ converted : Chunk ρ τ, converted.choices = chunk.choices.map (convertChoice chunk) →
      contentOf converted = chunk.choices.flatMap shown := by
    intro converted hconverted
    unfold contentOf
    rw [hconverted, List.flatMap_map]
    exact List.flatMap_congr fun choice _ ↦ convertChoice_content chunk choice
  by_cases hempty : chunk.choices = []
  · have hnot : due info chunk = false := by
      simp [due, hasContent, hempty]
    rw [if_pos (List.isEmpty_iff.mpr hempty), hnot]
    simp [content, contentOf, hempty]
  · rw [if_neg (by simpa using hempty)]
    by_cases hdue : due info chunk = true
    · rw [processChoices_due hdue hempty, if_pos hdue, hdue, Bool.or_true]
      refine ⟨?_, rfl⟩
      rw [content, List.flatMap_append, List.flatMap_singleton, List.flatMap_singleton, contentOf_tagged]
      exact congrArg _ (hshown _ rfl)
    · rw [Bool.not_eq_true] at hdue
      rw [processChoices_not_due hdue, hdue, Bool.or_false]
      refine ⟨?_, rfl⟩
      have hone := hshown { chunk with choices := chunk.choices.map (convertChoice chunk) } rfl
      simpa [content] using hone

theorem send_first (info : ThinkingContentInfo) (chunk : Chunk ρ τ)
    (h : (info.isFirstThinkingContent && hasThinkingContent chunk) = true) :
    content (sendStreamData info chunk).1 =
        (List.replicate chunk.choices.length (opening ++ thinkingContent chunk)).flatten ∧
      (sendStreamData info chunk).2 =
        { info with isFirstThinkingContent := false, hasSentThinkingContent := true } := by
  unfold sendStreamData
  rw [if_pos h]
  refine ⟨?_, rfl⟩
  rw [content, List.flatMap_singleton, contentOf_tagged]

theorem shown_of_quiet {chunk : Chunk ρ τ} (h : hasThinkingContent chunk = false) :
    chunk.choices.flatMap shown = contentOf chunk := by
  apply List.flatMap_congr
  intro choice hchoice
  have hnone : choice.delta.getReasoningContent = [] := by
    simpa using List.any_eq_false.mp h choice hchoice
  exact if_neg (not_not.mpr hnone)

theorem shown_of_silent {chunk : Chunk ρ τ} (h : hasContent chunk = false) :
    chunk.choices.flatMap shown = thinkingContent chunk := by
  apply List.flatMap_congr
  intro choice hchoice
  have hnone : choice.delta.getContentString = [] := by
    simpa using List.any_eq_false.mp h choice hchoice
  unfold shown
  split_ifs with hthinks
  · rfl
  · rw [hnone, not_not.mp hthinks]

end Chunks

section Phases

@[simp] theorem sent_nil (info : ThinkingContentInfo) : sent info ([] : List (Chunk ρ τ)) = [] := rfl

theorem content_sent_cons (info : ThinkingContentInfo) (chunk : Chunk ρ τ) (chunks : List (Chunk ρ τ)) :
    content (sent info (chunk :: chunks)) =
      content (sendStreamData info chunk).1 ++ content (sent (sendStreamData info chunk).2 chunks) := by
  rw [sent, content, List.flatMap_append]
  rfl

/-- The flags before any reasoning, between the tags, and behind them. -/
def thinking : ThinkingContentInfo := ⟨false, false, true⟩

def done : ThinkingContentInfo := ⟨false, true, true⟩

theorem due_start (chunk : Chunk ρ τ) : due {} chunk = false := by
  simp [due]

theorem due_thinking (chunk : Chunk ρ τ) : due thinking chunk = hasContent chunk := by
  simp [due, thinking]

theorem due_done (chunk : Chunk ρ τ) : due done chunk = false := by
  simp [due, done]

/-- Chunks without reasoning pass before any reasoning and behind it. -/
theorem sent_quiet {info : ThinkingContentInfo} {chunks : List (Chunk ρ τ)}
    (hinfo : ∀ chunk : Chunk ρ τ, due info chunk = false)
    (hquiet : ∀ chunk ∈ chunks, hasThinkingContent chunk = false) (rest : List (Chunk ρ τ)) :
    content (sent info (chunks ++ rest)) = content chunks ++ content (sent info rest) := by
  induction chunks with
  | nil => rfl
  | cons chunk chunks ih =>
    have hchunk := hquiet chunk List.mem_cons_self
    obtain ⟨hcontent, hnext⟩ := send_later info chunk (by rw [hchunk, Bool.and_false])
    rw [hinfo chunk] at hcontent hnext
    have hsame : (sendStreamData info chunk).2 = info := by
      rw [hnext, Bool.or_false]
    rw [List.cons_append, content_sent_cons, hcontent, hsame,
      ih fun chunk' hchunk' ↦ hquiet chunk' (List.mem_cons_of_mem chunk hchunk'), shown_of_quiet hchunk]
    simp [content]

/-- Chunks without content are sent as content between the tags. -/
theorem sent_silent {chunks rest : List (Chunk ρ τ)}
    (hsilent : ∀ chunk ∈ chunks, hasContent chunk = false) :
    content (sent thinking (chunks ++ rest)) = reasoning chunks ++ content (sent thinking rest) := by
  induction chunks with
  | nil => rfl
  | cons chunk chunks ih =>
    have hchunk := hsilent chunk List.mem_cons_self
    obtain ⟨hcontent, hnext⟩ := send_later thinking chunk rfl
    rw [due_thinking, hchunk] at hcontent hnext
    rw [List.cons_append, content_sent_cons, hcontent, hnext]
    change _ ++ content (sent thinking _) = _
    rw [ih fun chunk' hchunk' ↦ hsilent chunk' (List.mem_cons_of_mem chunk hchunk'), shown_of_silent hchunk]
    simp [reasoning]

theorem content_eq_nil {chunks : List (Chunk ρ τ)} (h : ∀ chunk ∈ chunks, hasContent chunk = false) :
    content chunks = [] :=
  List.flatMap_eq_nil_iff.mpr fun chunk hchunk ↦ contentOf_eq_nil (h chunk hchunk)

theorem reasoning_eq_nil {chunks : List (Chunk ρ τ)}
    (h : ∀ chunk ∈ chunks, hasThinkingContent chunk = false) : reasoning chunks = [] :=
  List.flatMap_eq_nil_iff.mpr fun chunk hchunk ↦ thinkingContent_eq_nil_iff.mpr (h chunk hchunk)

/-- Before the first chunk that something holds of, it holds of none. -/
theorem split_first {p : Chunk ρ τ → Bool} {chunks : List (Chunk ρ τ)} {chunk : Chunk ρ τ}
    (h : chunks.find? p = some chunk) :
    p chunk = true ∧ ∃ before after, chunks = before ++ chunk :: after ∧ ∀ c ∈ before, p c = false := by
  obtain ⟨hp, before, after, hchunks, hbefore⟩ := List.find?_eq_some_iff_append.mp h
  exact ⟨hp, before, after, hchunks, fun c hc ↦ by simpa using hbefore c hc⟩

/-- Behind the first chunk with reasoning, all chunks before it being without content. -/
theorem sent_opened {before after : List (Chunk ρ τ)} {chunk : Chunk ρ τ}
    (hbefore : ∀ c ∈ before, hasThinkingContent c = false) (hthinks : hasThinkingContent chunk = true) :
    content (sent {} (before ++ chunk :: after)) =
      content before ++ ((List.replicate chunk.choices.length (opening ++ thinkingContent chunk)).flatten ++
        content (sent thinking after)) := by
  obtain ⟨hcontent, hnext⟩ := send_first {} chunk (by rw [hthinks]; rfl)
  rw [sent_quiet due_start hbefore, content_sent_cons, hcontent, hnext]
  rfl

end Phases

section Sound

theorem quiet_after {before after : List (Chunk ρ τ)} {chunk : Chunk ρ τ}
    (hordered : Ordered (before ++ chunk :: after)) (hcontent : hasContent chunk = true) :
    ∀ c ∈ after, hasThinkingContent c = false := by
  intro c hc
  have hpair := (List.pairwise_append.mp hordered).2.1
  exact (List.pairwise_cons.mp hpair).1 c hc hcontent

theorem silent_before {before after : List (Chunk ρ τ)} {chunk : Chunk ρ τ}
    (hordered : Ordered (before ++ chunk :: after)) (hthinks : hasThinkingContent chunk = true) :
    ∀ c ∈ before, hasContent c = false := by
  intro c hc
  by_contra hcontent
  rw [Bool.not_eq_false] at hcontent
  have hquiet := (List.pairwise_append.mp hordered).2.2 c hc chunk List.mem_cons_self hcontent
  rw [hthinks] at hquiet
  cases hquiet

/-- The chunk that begins the content closes the reasoning. -/
theorem sent_closed {before after : List (Chunk ρ τ)} {chunk : Chunk ρ τ}
    (hordered : Ordered (before ++ chunk :: after)) (hbefore : ∀ c ∈ before, hasContent c = false)
    (hcontent : hasContent chunk = true) (hone : chunk.choices.length = 1)
    (hquiet : hasThinkingContent chunk = false) :
    content (sent thinking (before ++ chunk :: after)) =
      reasoning (before ++ chunk :: after) ++ closing ++ content (before ++ chunk :: after) := by
  have hafter := quiet_after hordered hcontent
  obtain ⟨hsent, hnext⟩ := send_later thinking chunk rfl
  rw [due_thinking, hcontent] at hsent hnext
  have hdone : content (sent done after) = content after := by
    have hrun := sent_quiet due_done hafter []
    rw [List.append_nil, sent_nil] at hrun
    rw [hrun]
    exact List.append_nil _
  rw [sent_silent hbefore, content_sent_cons, hsent, hnext]
  change _ ++ (_ ++ content (sent done after)) = _
  rw [hdone, hone, shown_of_quiet hquiet]
  have hreasoning : reasoning (before ++ chunk :: after) = reasoning before := by
    rw [reasoning, List.flatMap_append]
    have hnone := reasoning_eq_nil (List.forall_mem_cons.mpr ⟨hquiet, hafter⟩)
    rw [reasoning] at hnone
    rw [hnone, List.append_nil]
    rfl
  have hwhole : content (before ++ chunk :: after) = contentOf chunk ++ content after := by
    rw [content, List.flatMap_append]
    have hnone := content_eq_nil hbefore
    rw [content] at hnone
    rw [hnone]
    rfl
  rw [hreasoning, hwhole]
  simp

theorem converts_of_no_reasoning {chunks : List (Chunk ρ τ)} (h : reasoning chunks = []) :
    Converts chunks := by
  have hquiet : ∀ chunk ∈ chunks, hasThinkingContent chunk = false := fun chunk hchunk ↦
    thinkingContent_eq_nil_iff.mp (List.flatMap_eq_nil_iff.mp h chunk hchunk)
  have hrun := sent_quiet due_start hquiet []
  rw [List.append_nil, sent_nil] at hrun
  unfold Converts
  rw [if_pos h, hrun]
  exact List.append_nil _

theorem first_thinks {chunks : List (Chunk ρ τ)} (h : reasoning chunks ≠ []) :
    ∃ chunk, chunks.find? hasThinkingContent = some chunk := by
  rw [← Option.isSome_iff_exists, List.find?_isSome]
  by_contra hnone
  apply h
  apply reasoning_eq_nil
  intro chunk hchunk
  by_contra hthinks
  rw [Bool.not_eq_false] at hthinks
  exact hnone ⟨chunk, hchunk, hthinks⟩

theorem converts_of_apart {chunks : List (Chunk ρ τ)} (hordered : Ordered chunks)
    (h : reasoning chunks ≠ [] → Apart chunks) : Converts chunks := by
  by_cases hreasoning : reasoning chunks = []
  · exact converts_of_no_reasoning hreasoning
  obtain ⟨first, hfirst⟩ := first_thinks hreasoning
  obtain ⟨hfirst', switch, hswitch, hone', hquiet⟩ := h hreasoning
  obtain ⟨hone, hsilent⟩ := hfirst' first hfirst
  obtain ⟨hthinks, before, after, rfl, hbefore⟩ := split_first hfirst
  have hempty := silent_before hordered hthinks
  have hafter : after.find? hasContent = some switch := by
    have hnone : before.find? hasContent = none := List.find?_eq_none.mpr fun c hc ↦ by
      rw [hempty c hc]
      exact Bool.false_ne_true
    rw [Option.mem_def, List.find?_append, hnone, Option.none_or, List.find?_cons_of_neg] at hswitch
    · exact hswitch
    · rw [hsilent]
      exact Bool.false_ne_true
  obtain ⟨hcontent, middle, last, rfl, hmiddle⟩ := split_first hafter
  have hrest : Ordered (middle ++ switch :: last) := by
    have hpair := (List.pairwise_append.mp hordered).2.1
    exact (List.pairwise_cons.mp hpair).2
  unfold Converts
  rw [if_neg hreasoning, sent_opened hbefore hthinks, hone, sent_closed hrest hmiddle hcontent hone' hquiet]
  have hhead : reasoning before = [] := reasoning_eq_nil hbefore
  have hheadc : content before = [] := content_eq_nil hempty
  have hfirstc : contentOf first = [] := contentOf_eq_nil hsilent
  have hall : reasoning (before ++ first :: (middle ++ switch :: last)) =
      thinkingContent first ++ reasoning (middle ++ switch :: last) := by
    rw [reasoning, List.flatMap_append]
    rw [reasoning] at hhead
    rw [hhead]
    rfl
  have hallc : content (before ++ first :: (middle ++ switch :: last)) =
      content (middle ++ switch :: last) := by
    rw [content, List.flatMap_append]
    rw [content] at hheadc
    rw [hheadc, List.flatMap_cons, hfirstc]
    rfl
  rw [hall, hallc, hheadc]
  simp

end Sound

section Lost

/-- The content that reasoning in the same choice takes the place of. -/
def lost (chunk : Chunk ρ τ) : ℕ := if hasThinkingContent chunk then (contentOf chunk).length else 0

def Single (chunks : List (Chunk ρ τ)) : Prop := ∀ chunk ∈ chunks, chunk.choices.length ≤ 1

theorem shown_length {chunk : Chunk ρ τ} (h : chunk.choices.length ≤ 1) :
    (chunk.choices.flatMap shown).length + lost chunk =
      (thinkingContent chunk).length + (contentOf chunk).length := by
  unfold lost
  by_cases hthinks : hasThinkingContent chunk = true
  · rw [if_pos hthinks]
    obtain ⟨choice, hchoice, hreasoning⟩ := List.any_eq_true.mp hthinks
    have hne : choice.delta.getReasoningContent ≠ [] := of_decide_eq_true hreasoning
    have hone : chunk.choices = [choice] := by
      obtain ⟨other, hother⟩ := List.length_eq_one_iff.mp
        (le_antisymm h (List.length_pos_of_mem hchoice))
      rw [hother, List.mem_singleton] at hchoice
      rw [hother, hchoice]
    have hshown : chunk.choices.flatMap shown = thinkingContent chunk := by
      unfold thinkingContent
      rw [hone, List.flatMap_singleton, List.flatMap_singleton]
      exact if_pos hne
    rw [hshown]
  · rw [if_neg hthinks]
    rw [Bool.not_eq_true] at hthinks
    rw [shown_of_quiet hthinks, thinkingContent_eq_nil_iff.mpr hthinks]
    simp

theorem closing_length : closing.length = 10 := by decide

/-- Between the tags, nothing is sent but the reasoning, the end of it, and the content that is not
lost. -/
theorem sent_length (info : ThinkingContentInfo) (hfirst : info.isFirstThinkingContent = false)
    (hopen : info.hasSentThinkingContent = true) {chunks : List (Chunk ρ τ)} (h : Single chunks) :
    (content (sent info chunks)).length + (chunks.map lost).sum =
      (reasoning chunks).length + (content chunks).length +
        if !info.sendLastThinkingContent && chunks.any hasContent then 10 else 0 := by
  induction chunks generalizing info with
  | nil => simp [content, reasoning]
  | cons chunk chunks ih =>
    obtain ⟨hone, hrest⟩ := List.forall_mem_cons.mp h
    obtain ⟨hsent, hnext⟩ := send_later info chunk (by rw [hfirst, Bool.false_and])
    have hshown := shown_length hone
    have hcons := ih (sendStreamData info chunk).2 (by rw [hnext]; exact hfirst)
      (by rw [hnext]; exact hopen) hrest
    rw [hnext] at hcons
    rw [content_sent_cons, hsent, hnext, List.map_cons, List.sum_cons, List.any_cons]
    have hreasoning : (reasoning (chunk :: chunks)).length =
        (thinkingContent chunk).length + (reasoning chunks).length := by
      simp [reasoning]
    have hcontent : (content (chunk :: chunks)).length =
        (contentOf chunk).length + (content chunks).length := by
      simp [content]
    rw [List.length_append, List.length_append, hreasoning, hcontent]
    cases hsend : info.sendLastThinkingContent with
    | true =>
      have hnot : due info chunk = false := by
        rw [due, hsend, Bool.not_true, Bool.and_false, Bool.false_and]
      rw [hnot, hsend] at hcons
      rw [hnot]
      simp only [Bool.or_false, Bool.not_true, Bool.false_and, Bool.false_eq_true, if_false,
        List.length_nil] at hcons ⊢
      omega
    | false =>
      have hdue : due info chunk = hasContent chunk := by
        rw [due, hsend, hopen, Bool.not_false, Bool.and_true, Bool.and_true]
      rw [hdue, hsend] at hcons
      rw [hdue]
      cases hcontent : hasContent chunk with
      | true =>
        have hsingle : chunk.choices.length = 1 :=
          le_antisymm hone (List.length_pos_of_ne_nil (ne_nil_of_hasContent hcontent))
        rw [hcontent] at hcons
        simp only [Bool.or_true, Bool.not_true, Bool.not_false, Bool.true_and, Bool.true_or,
          Bool.false_and, Bool.false_eq_true, if_false, if_true, hsingle, List.replicate_one,
          List.flatten_singleton, closing_length] at hcons ⊢
        omega
      | false =>
        rw [hcontent] at hcons
        simp only [Bool.or_false, Bool.not_false, Bool.true_and, Bool.false_or, Bool.false_eq_true,
          if_false, List.length_nil] at hcons ⊢
        omega

theorem lost_eq_zero {chunk : Chunk ρ τ} (h : lost chunk = 0) (hcontent : hasContent chunk = true) :
    hasThinkingContent chunk = false := by
  by_contra hthinks
  unfold lost at h
  rw [if_pos (by simpa using hthinks), List.length_eq_zero_iff] at h
  obtain ⟨choice, hchoice, hne⟩ := List.any_eq_true.mp hcontent
  exact of_decide_eq_true hne (List.flatMap_eq_nil_iff.mp h choice hchoice)

theorem hasContent_of_ne {chunk : Chunk ρ τ} (h : contentOf chunk = []) : hasContent chunk = false := by
  by_contra hcontent
  rw [Bool.not_eq_false] at hcontent
  obtain ⟨choice, hchoice, hne⟩ := List.any_eq_true.mp hcontent
  exact of_decide_eq_true hne (List.flatMap_eq_nil_iff.mp h choice hchoice)

theorem apart_of_converts {chunks : List (Chunk ρ τ)} (hordered : Ordered chunks)
    (hsingle : Single chunks) (h : Converts chunks) (hreasoning : reasoning chunks ≠ []) :
    Apart chunks := by
  obtain ⟨first, hfirst⟩ := first_thinks hreasoning
  obtain ⟨hthinks, before, after, rfl, hbefore⟩ := split_first hfirst
  have hempty := silent_before hordered hthinks
  obtain ⟨-, hsingle'⟩ := List.forall_mem_append.mp hsingle
  obtain ⟨hone, hafter⟩ := List.forall_mem_cons.mp hsingle'
  have hlen : first.choices.length = 1 := by
    obtain ⟨choice, hchoice, -⟩ := List.any_eq_true.mp hthinks
    exact le_antisymm hone (List.length_pos_of_mem hchoice)
  unfold Converts at h
  rw [if_neg hreasoning, sent_opened hbefore hthinks, hlen] at h
  have hsent := sent_length thinking rfl rfl hafter
  have htotal := congrArg List.length h
  have hhead : reasoning before = [] := reasoning_eq_nil hbefore
  have hheadc : content before = [] := content_eq_nil hempty
  have hall : (reasoning (before ++ first :: after)).length =
      (thinkingContent first).length + (reasoning after).length := by
    rw [reasoning] at hhead ⊢
    rw [List.flatMap_append, hhead]
    simp [reasoning]
  have hallc : (content (before ++ first :: after)).length =
      (contentOf first).length + (content after).length := by
    rw [content] at hheadc ⊢
    rw [List.flatMap_append, hheadc]
    simp [content]
  rw [hheadc] at htotal
  simp only [List.nil_append, List.replicate_one, List.flatten_singleton, List.length_append, hall,
    hallc, closing_length] at htotal
  have hmark : (!thinking.sendLastThinkingContent && after.any hasContent) = true := by
    by_contra hnot
    rw [if_neg hnot] at hsent
    omega
  rw [if_pos hmark] at hsent
  have hfirstc : contentOf first = [] := List.eq_nil_of_length_eq_zero (by omega)
  have hlost : (after.map lost).sum = 0 := by omega
  have hsilent := hasContent_of_ne hfirstc
  refine ⟨?_, ?_⟩
  · intro chunk hchunk
    rw [hfirst] at hchunk
    cases hchunk
    exact ⟨hlen, hsilent⟩
  · have hany : after.any hasContent = true := (Bool.and_eq_true_iff.mp hmark).2
    obtain ⟨switch, hswitch⟩ : ∃ switch, after.find? hasContent = some switch := by
      rw [← Option.isSome_iff_exists, List.find?_isSome]
      exact List.any_eq_true.mp hany
    have hmem := List.mem_of_find?_eq_some hswitch
    have hcontent := List.find?_some hswitch
    have hnone : before.find? hasContent = none := List.find?_eq_none.mpr fun c hc ↦ by
      rw [hempty c hc]
      exact Bool.false_ne_true
    refine ⟨switch, ?_, ?_, ?_⟩
    · rw [Option.mem_def, List.find?_append, hnone, Option.none_or, List.find?_cons_of_neg]
      · exact hswitch
      · rw [hsilent]
        exact Bool.false_ne_true
    · exact le_antisymm (hafter switch hmem)
        (List.length_pos_of_ne_nil (ne_nil_of_hasContent hcontent))
    · have hzero := List.sum_eq_zero_iff.mp hlost (lost switch) (List.mem_map_of_mem hmem)
      exact lost_eq_zero hzero hcontent

/-- Reasoning and content are converted as they should be where they come apart, and with one choice
in a chunk only there. -/
theorem converts_iff {chunks : List (Chunk ρ τ)} (hordered : Ordered chunks) :
    ((reasoning chunks ≠ [] → Apart chunks) → Converts chunks) ∧
      (Single chunks → Converts chunks → reasoning chunks ≠ [] → Apart chunks) :=
  ⟨converts_of_apart hordered, apart_of_converts hordered⟩

def oneChoice (delta : Delta) : Chunk Unit Unit := ⟨[⟨delta, ()⟩], ()⟩

theorem converts_two :
    Converts [oneChoice { reasoning := some ['r'] }, oneChoice { content := some ['c'] }] :=
  (converts_iff (List.pairwise_pair.mpr (by decide))).1 fun _ ↦
    ⟨fun chunk hchunk ↦ by cases hchunk; decide, _, rfl, by decide, by decide⟩

/-- The content that comes in one chunk with the first reasoning is gone. -/
theorem converts_not :
    Ordered [oneChoice { content := some ['c'], reasoningContent := some ['r'] }] ∧
      ¬ Converts [oneChoice { content := some ['c'], reasoningContent := some ['r'] }] :=
  ⟨List.pairwise_singleton _ _, by unfold Converts; decide⟩

end Lost

end AllAiTools.NewApi.Relay.ThinkingConverted
