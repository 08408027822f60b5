import AllAiTools.NewApi.Relay.ToolCallsConverted

namespace AllAiTools.NewApi.Relay.ChatViaResponses

open HandlerState

variable {ι : Type} [DecidableEq ι] {calls : Calls ι} {s : HandlerState}

section Events

variable (calls) (hgoes : s.failed = false)

omit [DecidableEq ι]
include hgoes

theorem onEvent_text (delta : Text) :
    s.onEvent (eventOf calls (.text delta)) = s.onOutputTextDelta delta :=
  if_neg (Bool.eq_false_iff.mp hgoes)

theorem onEvent_added (k : ι) :
    s.onEvent (eventOf calls (.added k)) = s.onOutputItem (itemOf calls k []) :=
  if_neg (Bool.eq_false_iff.mp hgoes)

theorem onEvent_arguments (k : ι) (delta : Text) :
    s.onEvent (eventOf calls (.arguments k delta)) =
      s.onArgumentsDelta (calls.call k).itemId delta :=
  if_neg (Bool.eq_false_iff.mp hgoes)

theorem onEvent_done (k : ι) :
    s.onEvent (eventOf calls (.done k)) =
      s.onOutputItem (itemOf calls k (calls.call k).arguments) :=
  if_neg (Bool.eq_false_iff.mp hgoes)

end Events

section Quiet

theorem initial_inv : Inv calls initial ([] : List (Input ι)) where
  outputText := rfl
  failed := rfl
  sentStop := rfl
  canonical := rfl
  content := rfl
  stops _ := List.not_mem_nil
  saw := iff_of_false Bool.false_ne_true fun h ↦ h rfl
  sends := iff_of_true rfl fun _ h ↦ absurd h List.not_mem_nil
  ids _ h := absurd h List.not_mem_nil
  follows k := by
    refine ⟨fun _ ↦ rfl, fun h ↦ absurd h Bool.false_ne_true, fun _ ↦ rfl, rfl, ?_, fun _ ↦ ?_,
      rfl, rfl, fun h ↦ absurd h Bool.false_ne_true, fun _ ↦ ⟨rfl, ?_⟩, Nat.le_refl _,
      fun h ↦ absurd h Bool.false_ne_true, fun _ h ↦ absurd h Bool.false_ne_true⟩
    · exact iff_of_false (fun h ↦ h rfl) Bool.false_ne_true
    · exact iff_of_false (fun h ↦ h rfl) Bool.false_ne_true
    · change ([] : Text) = if (calls.call k).item = [] then [] else []
      rw [ite_self]

/-- A text without characters only starts the stream. -/
theorem Inv.silence {seen : List (Input ι)} (hinv : Inv calls s seen) :
    Inv calls (s.onOutputTextDelta []) (seen ++ [.text []]) := by
  obtain ⟨chunks, hstart, hcalls, hcontent, hstops⟩ := start_eq s
  have hstep : s.onOutputTextDelta [] = { s with sentStart := true, chunks := chunks } := hstart
  have hsends : (∀ input ∈ seen ++ [Input.text []], ¬ Sends calls input) ↔
      ∀ input ∈ seen, ¬ Sends calls input := by
    constructor
    · exact fun hnone input hinput ↦ hnone input (List.mem_append_left _ hinput)
    · intro hnone input hinput
      rcases List.mem_append.mp hinput with hold | hnew
      · exact hnone input hold
      · rw [List.mem_singleton.mp hnew]
        exact id
  rw [hstep]
  refine ⟨hinv.outputText, hinv.failed, hinv.sentStop, hinv.canonical, hcontent.trans hinv.content,
    fun reason h ↦ hinv.stops reason ((hstops reason).mp h), ?_, ?_, ?_, fun k ↦ ?_⟩
  · exact hcalls ▸ hinv.saw
  · exact (hcalls ▸ hinv.sends).trans hsends.symm
  · exact hcalls ▸ hinv.ids
  · have hview : viewOf calls { s with sentStart := true, chunks := chunks } k =
        viewOf calls s k := by
      simp only [viewOf, hcalls]
    rw [hview, progressOf_snoc, deltasOf_append]
    exact (List.append_nil (deltasOf k seen)).symm ▸ hinv.follows k

theorem Inv.step {seen : List (Input ι)} (hinv : Inv calls s seen) {input : Input ι}
    (hquiet : isTalk input = false)
    (hreceived : ∀ k, deltasOf k seen <+: (calls.call k).arguments) :
    Inv calls (s.onEvent (eventOf calls input)) (seen ++ [input]) := by
  cases input with
  | text delta =>
    have hdelta : delta = [] := by simpa [isTalk] using hquiet
    rw [onEvent_text calls hinv.failed, hdelta]
    exact hinv.silence
  | added k =>
    rw [onEvent_added calls hinv.failed]
    exact hinv.added k
  | arguments k delta =>
    rw [onEvent_arguments calls hinv.failed]
    exact hinv.arguments k delta
  | done k =>
    rw [onEvent_done calls hinv.failed]
    exact hinv.done k (hreceived k)

theorem read_snoc (events : List ResponsesEvent) (event : ResponsesEvent) :
    HandlerState.read (events ++ [event]) = (HandlerState.read events).onEvent event :=
  List.foldl_concat _ _ _ _

/-- The handler has what was read of every call, as long as there is no text. -/
theorem quiet_inv (seen : List (Input ι)) (hquiet : ∀ input ∈ seen, isTalk input = false)
    (hreceived : ∀ k, deltasOf k seen <+: (calls.call k).arguments) :
    Inv calls (HandlerState.read (seen.map (eventOf calls))) seen := by
  induction seen using List.reverseRecOn with
  | nil => exact initial_inv
  | append_singleton seen input ih =>
    have hbefore : ∀ k, deltasOf k seen <+: (calls.call k).arguments := by
      intro k
      have hall := hreceived k
      rw [deltasOf_append] at hall
      exact (List.prefix_append _ _).trans hall
    have hinv := ih (fun other hother ↦ hquiet other (List.mem_append_left _ hother)) hbefore
    rw [List.map_append]
    exact (read_snoc _ _).symm ▸
      hinv.step (hquiet input (List.mem_append_right _ List.mem_cons_self)) hbefore

end Quiet

section Talking

/-- The handler once there was text: nothing but text is sent any more. -/
structure Talking (s : HandlerState) (sent : List ToolCall) (seen : List (Input ι)) : Prop where
  spoken : s.outputText ≠ []
  failed : s.failed = false
  sentStop : s.sentStop = false
  stops : ∀ reason, ChatChunk.stop reason ∉ s.chunks
  calls : toolCallsOf s.chunks = sent
  content : contentOf s.chunks = textOf seen

omit [DecidableEq ι] in
theorem textOf_append (inputs inputs' : List (Input ι)) :
    textOf (inputs ++ inputs') = textOf inputs ++ textOf inputs' := by
  induction inputs with
  | nil => rfl
  | cons input inputs ih => cases input <;> simp [textOf, ih]

omit [DecidableEq ι] in
theorem textOf_quiet {seen : List (Input ι)} (hquiet : ∀ input ∈ seen, isTalk input = false) :
    textOf seen = [] := by
  induction seen with
  | nil => rfl
  | cons input seen ih =>
    have hrest := ih fun other hother ↦ hquiet other (List.mem_cons_of_mem _ hother)
    have hinput := hquiet input List.mem_cons_self
    cases input with
    | text delta =>
      have hdelta : delta = [] := by simpa [isTalk] using hinput
      rw [textOf, hdelta, hrest]
      rfl
    | added _ => exact hrest
    | arguments _ _ => exact hrest
    | done _ => exact hrest

omit [DecidableEq ι] in
theorem text_step {sent : List ToolCall} {seen : List (Input ι)} (hfailed : s.failed = false)
    (hstop : s.sentStop = false) (hstops : ∀ reason, ChatChunk.stop reason ∉ s.chunks)
    (hcalls : toolCallsOf s.chunks = sent) (hcontent : contentOf s.chunks = textOf seen)
    {delta : Text} (hdelta : delta ≠ []) :
    Talking (s.onOutputTextDelta delta) sent (seen ++ [.text delta]) := by
  obtain ⟨chunks, hstart, hcalls', hcontent', hstops'⟩ := start_eq s
  have hstep : s.onOutputTextDelta delta =
      { s with
        sentStart := true
        chunks := chunks ++ [.content delta]
        outputText := s.outputText ++ delta } := by
    rw [onOutputTextDelta, if_neg hdelta, hstart]
    rfl
  rw [hstep]
  refine ⟨?_, hfailed, hstop, fun reason h ↦ ?_, ?_, ?_⟩
  · exact List.append_ne_nil_of_right_ne_nil _ hdelta
  · refine hstops reason ((hstops' reason).mp ?_)
    simpa using h
  · rw [toolCallsOf_append, hcalls', hcalls]
    exact List.append_nil _
  · rw [contentOf_append, hcontent', hcontent, textOf_append]
    rfl

theorem sendToolCallDelta_spoken (hspoken : s.outputText ≠ []) (id name args : Text) :
    s.sendToolCallDelta id name args = s := by
  rw [sendToolCallDelta, if_pos hspoken, ite_self]

theorem onArgumentsDelta_spoken (hspoken : s.outputText ≠ []) (itemId delta : Text) :
    ∃ args, s.onArgumentsDelta itemId delta = { s with toolCallArgs := args } := by
  rw [onArgumentsDelta]
  generalize (if s.canonicalId (trimSpace itemId) = [] then trimSpace itemId
    else s.canonicalId (trimSpace itemId)) = callId
  split
  · exact ⟨s.toolCallArgs, rfl⟩
  · refine ⟨Function.update s.toolCallArgs callId (s.toolCallArgs callId ++ delta), ?_⟩
    apply sendToolCallDelta_spoken
    exact hspoken

omit [DecidableEq ι] in
theorem Talking.step {sent : List ToolCall} {seen : List (Input ι)} (h : Talking s sent seen)
    (input : Input ι) : Talking (s.onEvent (eventOf calls input)) sent (seen ++ [input]) := by
  have hitem : ∀ item, Talking (s.onOutputItem item) sent seen := by
    intro item
    rw [onOutputItem]
    split
    · exact h
    · have hlearned : (s.learn item).outputText ≠ [] := h.spoken
      rw [sendToolCallDelta_spoken hlearned]
      exact ⟨h.spoken, h.failed, h.sentStop, h.stops, h.calls, h.content⟩
  have hkeep : ∀ {s' : HandlerState} {input : Input ι}, Talking s' sent seen →
      textOf [input] = [] → Talking s' sent (seen ++ [input]) := by
    intro s' input h' hnil
    refine { h' with content := ?_ }
    rw [textOf_append, hnil, List.append_nil]
    exact h'.content
  cases input with
  | text delta =>
    rw [onEvent_text calls h.failed]
    by_cases hdelta : delta = []
    · obtain ⟨chunks, hstart, hcalls, hcontent, hstops⟩ := start_eq s
      have hstep : s.onOutputTextDelta [] = { s with sentStart := true, chunks := chunks } := hstart
      rw [hdelta, hstep]
      refine hkeep ?_ rfl
      exact ⟨h.spoken, h.failed, h.sentStop,
        fun reason hstop ↦ h.stops reason ((hstops reason).mp hstop), hcalls.trans h.calls,
        hcontent.trans h.content⟩
    · exact text_step h.failed h.sentStop h.stops h.calls h.content hdelta
  | added k =>
    rw [onEvent_added calls h.failed]
    exact hkeep (hitem _) rfl
  | done k =>
    rw [onEvent_done calls h.failed]
    exact hkeep (hitem _) rfl
  | arguments k delta =>
    rw [onEvent_arguments calls h.failed]
    obtain ⟨args, hstep⟩ := onArgumentsDelta_spoken h.spoken (calls.call k).itemId delta
    refine hkeep ?_ rfl
    rw [hstep]
    exact ⟨h.spoken, h.failed, h.sentStop, h.stops, h.calls, h.content⟩

omit [DecidableEq ι] in
variable (calls) in
theorem Talking.run {sent : List ToolCall} (inputs : List (Input ι)) :
    ∀ {s : HandlerState} {seen : List (Input ι)}, Talking s sent seen →
      Talking ((inputs.map (eventOf calls)).foldl onEvent s) sent (seen ++ inputs) := by
  induction inputs with
  | nil =>
    intro s seen h
    rw [List.append_nil]
    exact h
  | cons input inputs ih =>
    intro s seen h
    rw [List.append_cons]
    exact ih (h.step input)

end Talking

section Ends

/-- The last chunk is sent once, with the reason. -/
theorem finish_twice (hstop : s.sentStop = false) :
    toolCallsOf s.finish.finish.chunks = toolCallsOf s.chunks ∧
      contentOf s.finish.finish.chunks = contentOf s.chunks ∧
      ∀ reason, ChatChunk.stop reason ∈ s.finish.finish.chunks ↔
        .stop reason ∈ s.chunks ∨ reason = s.finishReason := by
  obtain ⟨chunks, hstart, hcalls, hcontent, hstops⟩ := start_eq s
  have honce : s.finish =
      { s with
        sentStart := true
        sentStop := true
        chunks := chunks ++ [.stop s.finishReason] } := by
    rw [finish, hstart]
    exact if_neg (Bool.eq_false_iff.mp hstop)
  have htwice : s.finish.finish = s.finish := by
    rw [honce]
    rfl
  rw [htwice, honce]
  refine ⟨?_, ?_, fun reason ↦ ?_⟩
  · rw [toolCallsOf_append, hcalls]
    exact List.append_nil _
  · rw [contentOf_append, hcontent]
    exact List.append_nil _
  · rw [List.mem_append, hstops, List.mem_singleton]
    exact or_congr_right ⟨fun h ↦ ChatChunk.stop.inj h, fun h ↦ congrArg _ h⟩

omit [DecidableEq ι] in
/-- What is left to do at the end of a stream. -/
theorem chunksOf_eq (inputs : List (Input ι))
    (hgoes : (HandlerState.read (inputs.map (eventOf calls))).failed = false) :
    chunksOf calls inputs =
      (HandlerState.read (inputs.map (eventOf calls))).finish.finish.chunks := by
  have hend : HandlerState.read (inputs.map (eventOf calls) ++ [.completed]) =
      (HandlerState.read (inputs.map (eventOf calls))).finish := by
    rw [read_snoc]
    exact if_neg (Bool.eq_false_iff.mp hgoes)
  have hfailed : (HandlerState.read (inputs.map (eventOf calls))).finish.failed = false := by
    obtain ⟨chunks, hstart, -⟩ := start_eq (HandlerState.read (inputs.map (eventOf calls)))
    rw [finish, hstart]
    dsimp only
    split
    · exact hgoes
    · exact hgoes
  rw [chunksOf, oaiResponsesToChatStream, hend]
  exact if_neg (Bool.eq_false_iff.mp hfailed)

omit [DecidableEq ι] in
/-- The inputs are what is quiet, and what comes from the first text on. -/
theorem quiet_append (inputs : List (Input ι)) :
    quiet inputs ++ inputs.dropWhile (fun input ↦ !isTalk input) = inputs :=
  List.takeWhile_append_dropWhile

omit [DecidableEq ι] in
theorem isTalk_quiet (inputs : List (Input ι)) : ∀ input ∈ quiet inputs, isTalk input = false := by
  intro input hinput
  have h := List.mem_takeWhile_imp hinput
  simpa using h

variable (stream : Stream calls)

theorem deltasOf_quiet (k : ι) :
    deltasOf k (quiet stream.inputs) <+: (calls.call k).arguments := by
  have hall := stream.adds_up k
  rw [← quiet_append stream.inputs, deltasOf_append] at hall
  exact ⟨_, hall⟩

theorem quiet_stream :
    Inv calls (HandlerState.read ((quiet stream.inputs).map (eventOf calls)))
      (quiet stream.inputs) :=
  quiet_inv _ (isTalk_quiet _) (deltasOf_quiet stream)

end Ends

section Indices

variable {seen : List (Input ι)}

/-- An index belongs to one identifier. -/
theorem Inv.index_iff (hinv : Inv calls s seen) {call other : ToolCall}
    (hcall : call ∈ toolCallsOf s.chunks) (hother : other ∈ toolCallsOf s.chunks) :
    other.index = call.index ↔ other.id = call.id := by
  obtain ⟨hmem, hindex, -⟩ := hinv.ids call hcall
  obtain ⟨hmem', hindex', -⟩ := hinv.ids other hother
  rw [hindex, hindex']
  exact List.idxOf_inj hmem'

theorem Inv.filter_index (hinv : Inv calls s seen) {call : ToolCall}
    (hcall : call ∈ toolCallsOf s.chunks) :
    (toolCallsOf s.chunks).filter (·.index = call.index) =
      (toolCallsOf s.chunks).filter (·.id = call.id) := by
  refine List.filter_congr fun other hother ↦ ?_
  simp only [hinv.index_iff hcall hother]

theorem exists_of_filter {sent : List ToolCall} {id : Text} (h : sent.filter (·.id = id) ≠ []) :
    ∃ call ∈ sent, call.id = id := by
  obtain ⟨call, hcall⟩ := List.exists_mem_of_ne_nil _ h
  obtain ⟨hmem, hid⟩ := List.mem_filter.mp hcall
  exact ⟨call, hmem, by simpa using hid⟩

/-- What is whole is so under the index of any part of it. -/
theorem Whole.at_call (hinv : Inv calls s seen) {k : ι} (hwhole : Whole calls k (toolCallsOf s.chunks))
    {call : ToolCall} (hcall : call ∈ toolCallsOf s.chunks) (hconcerns : Concerns calls k call) :
    namesOf ((toolCallsOf s.chunks).filter (·.id = call.id)) = [(calls.call k).called] ∧
      argumentsOf ((toolCallsOf s.chunks).filter (·.id = call.id)) = (calls.call k).arguments := by
  obtain ⟨index, hindex, hnames, hargs⟩ := hwhole
  have hthis : call.index = index := (hindex call hcall).mp hconcerns
  rw [← hthis, hinv.filter_index hcall] at hnames hargs
  exact ⟨hnames, hargs⟩

/-- A call whose parts all have its key is whole when its arguments are. -/
theorem whole_of_key (hinv : Inv calls s seen) {k : ι}
    (hkey : ∀ call ∈ toolCallsOf s.chunks, Concerns calls k call → call.id = (calls.call k).key)
    (hargs : (progressOf k seen).item = true →
      argumentsOf (viewOf calls s k).sent = (calls.call k).arguments)
    (hsome : ∃ call ∈ toolCallsOf s.chunks, Concerns calls k call) :
    Whole calls k (toolCallsOf s.chunks) := by
  obtain ⟨call, hcall, hconcerns⟩ := hsome
  have hid := hkey call hcall hconcerns
  have hfollows := hinv.follows k
  have hsent : (viewOf calls s k).sent ≠ [] :=
    List.ne_nil_of_mem (List.mem_filter.mpr ⟨hcall, by simpa using hid⟩)
  have hitem := hfollows.sent.mp hsent
  have hfilter : (toolCallsOf s.chunks).filter (·.index = call.index) = (viewOf calls s k).sent := by
    rw [hinv.filter_index hcall, hid]
    rfl
  refine ⟨call.index, fun other hother ↦ ?_, ?_, ?_⟩
  · rw [hinv.index_iff hcall hother, hid]
    exact ⟨hkey other hother, .inl⟩
  · rw [hfilter, hfollows.names, hitem]
    rfl
  · rw [hfilter]
    exact hargs hitem

/-- A call is sent as it has to be if and only if it is orderly. -/
theorem whole_iff (hinv : Inv calls s seen) (k : ι)
    (hall : deltasOf k seen = (calls.call k).arguments) :
    ((∃ call ∈ toolCallsOf s.chunks, Concerns calls k call) →
      Whole calls k (toolCallsOf s.chunks)) ↔ Orderly calls k seen := by
  have hfollows := hinv.follows k
  have hsent : (viewOf calls s k).sent = (toolCallsOf s.chunks).filter (·.id = (calls.call k).key) :=
    rfl
  rw [Orderly]
  by_cases hitem : (calls.call k).item = []
  · rw [if_neg (not_not.mpr hitem)]
    have hargs := (hfollows.args fun hne ↦ absurd hitem hne).2
    rw [if_pos hitem] at hargs
    constructor
    · intro hwhole hread
      obtain ⟨call, hcall, hid⟩ := exists_of_filter (hfollows.sent.mpr hread)
      have hat := (Whole.at_call hinv (hwhole ⟨call, hcall, .inl hid⟩) hcall (.inl hid)).2
      rw [hid, ← hsent, hargs] at hat
      cases hfinal : (progressOf k seen).final with
      | true => exact .inr rfl
      | false =>
        rw [hfinal] at hat
        exact .inl hat.symm
    · intro horderly
      refine whole_of_key hinv ?_ ?_
      · rintro call hcall (hid | hid)
        · exact hid
        · exact absurd (hid.trans hitem) (hinv.ids call hcall).2.2
      · intro hread
        rw [hargs]
        rcases horderly hread with hnil | hfinal
        · rw [hnil, ite_self]
        · exact if_pos hfinal
  · rw [if_pos hitem]
    constructor
    · intro hwhole
      constructor
      · by_contra hearly
        have hsome := (hfollows.early hitem).mpr (Bool.eq_true_of_not_eq_false hearly)
        obtain ⟨call, hcall, hid⟩ := exists_of_filter hsome
        have hat := (Whole.at_call hinv (hwhole ⟨call, hcall, .inr hid⟩) hcall (.inr hid)).1
        rw [hid] at hat
        exact absurd (hfollows.earlyNames.symm.trans hat) (List.cons_ne_nil _ _).symm
      · by_contra hlate
        have hover := hfollows.overfull hitem (Bool.eq_true_of_not_eq_false hlate)
        have hsome : (viewOf calls s k).sent ≠ [] := by
          intro hnil
          rw [hnil] at hover
          exact absurd hover (Nat.not_lt_zero _)
        obtain ⟨call, hcall, hid⟩ := exists_of_filter hsome
        have hat := (Whole.at_call hinv (hwhole ⟨call, hcall, .inl hid⟩) hcall (.inl hid)).2
        rw [hid, ← hsent] at hat
        rw [hat] at hover
        exact absurd hover (Nat.lt_irrefl _)
    · rintro ⟨hearly, hlate⟩
      refine whole_of_key hinv ?_ fun _ ↦ ?_
      · rintro call hcall (hid | hid)
        · exact hid
        · have hsome : (viewOf calls s k).early ≠ [] :=
            List.ne_nil_of_mem (List.mem_filter.mpr ⟨hcall, by simpa using hid⟩)
          have htrue := (hfollows.early hitem).mp hsome
          rw [hearly] at htrue
          exact absurd htrue Bool.false_ne_true
      · rw [(hfollows.args fun _ ↦ ⟨hearly, hlate⟩).2, if_neg hitem, hall, ite_self]

theorem item_of_mem (k : ι) (inputs : List (Input ι)) :
    ∀ progress : Progress, progress.item = true ∨ Input.added k ∈ inputs →
      (inputs.foldl (Progress.read k) progress).item = true := by
  induction inputs with
  | nil =>
    intro progress h
    exact h.resolve_right List.not_mem_nil
  | cons input inputs ih =>
    intro progress h
    refine ih _ ?_
    rcases h with hitem | hmem
    · left
      cases input with
      | text _ => exact hitem
      | arguments j delta => rw [Progress.read]; split <;> exact hitem
      | added j => rw [Progress.read]; split <;> first | rfl | exact hitem
      | done j => rw [Progress.read]; split <;> first | rfl | exact hitem
    · rcases List.mem_cons.mp hmem with rfl | hrest
      · left
        rw [Progress.read, if_pos rfl]
      · exact .inr hrest

end Indices

section Conversion

variable (stream : Stream calls)

/-- Without text every call has to be orderly. -/
theorem faithful_quiet (hquiet : ∀ input ∈ stream.inputs, isTalk input = false) :
    Faithful calls stream.inputs (chunksOf calls stream.inputs) ↔
      ∀ k, Orderly calls k stream.inputs := by
  have hinv : Inv calls (HandlerState.read (stream.inputs.map (eventOf calls))) stream.inputs :=
    quiet_inv _ hquiet fun k ↦ stream.adds_up k ▸ List.prefix_rfl
  obtain ⟨hcalls, hcontent, hstops⟩ := finish_twice hinv.sentStop
  rw [chunksOf_eq _ hinv.failed]
  generalize HandlerState.read (stream.inputs.map (eventOf calls)) = s at hinv hcalls hcontent hstops
  constructor
  · intro hfaithful k
    have hwhole := hfaithful.whole k
    rw [hcalls] at hwhole
    exact (whole_iff hinv k (stream.adds_up k)).mp hwhole
  · intro horderly
    refine ⟨?_, fun k ↦ ?_, ?_, ?_⟩
    · rw [hcontent, hinv.content, textOf_quiet hquiet]
    · rw [hcalls]
      exact (whole_iff hinv k (stream.adds_up k)).mpr (horderly k)
    · intro k before after hsplit _
      have hmem : Input.added k ∈ stream.inputs := by
        rw [hsplit]
        exact List.mem_append_right _ List.mem_cons_self
      have hsent := (hinv.follows k).sent.mpr (item_of_mem k _ _ (.inr hmem))
      obtain ⟨call, hcall, hid⟩ := exists_of_filter hsent
      exact ⟨call, hcalls ▸ hcall, .inl hid⟩
    · rw [hstops, hcalls, ← hinv.saw, finishReason, hinv.outputText]
      cases s.sawToolCall with
      | true => exact iff_of_true (.inr rfl) rfl
      | false =>
        refine iff_of_false ?_ Bool.false_ne_true
        rintro (hstop | hreason)
        · exact hinv.stops _ hstop
        · cases hreason

/-- With text no tool call may have been sent before it. -/
theorem faithful_talk {delta : Text} {later : List (Input ι)} (hdelta : delta ≠ [])
    (hsplit : stream.inputs = quiet stream.inputs ++ .text delta :: later) :
    Faithful calls stream.inputs (chunksOf calls stream.inputs) ↔
      ∀ input ∈ quiet stream.inputs, ¬ Sends calls input := by
  have hinv := quiet_stream stream
  have hfirst : Talking ((HandlerState.read ((quiet stream.inputs).map (eventOf calls))).onEvent
      (eventOf calls (.text delta)))
        (toolCallsOf (HandlerState.read ((quiet stream.inputs).map (eventOf calls))).chunks)
          (quiet stream.inputs ++ [.text delta]) := by
    rw [onEvent_text calls hinv.failed]
    exact text_step hinv.failed hinv.sentStop hinv.stops rfl
      (hinv.content.trans (textOf_quiet (isTalk_quiet _)).symm) hdelta
  have htalking := hfirst.run calls later
  have hread : (later.map (eventOf calls)).foldl onEvent
      ((HandlerState.read ((quiet stream.inputs).map (eventOf calls))).onEvent
        (eventOf calls (.text delta))) =
          HandlerState.read (stream.inputs.map (eventOf calls)) := by
    conv_rhs => rw [hsplit]
    rw [HandlerState.read, HandlerState.read, List.map_append, List.foldl_append]
    rfl
  have hseen : quiet stream.inputs ++ [Input.text delta] ++ later = stream.inputs := by
    rw [← List.append_cons, ← hsplit]
  rw [hread, hseen] at htalking
  obtain ⟨hcalls, hcontent, hstops⟩ := finish_twice htalking.sentStop
  have hreason : (HandlerState.read (stream.inputs.map (eventOf calls))).finishReason = .stop := by
    rw [finishReason, if_neg fun h ↦ htalking.spoken h.2]
  rw [hreason] at hstops
  rw [htalking.calls] at hcalls
  rw [chunksOf_eq _ htalking.failed, ← hinv.sends]
  have hstopped : FinishReason.toolCalls ≠ .stop := fun h ↦ nomatch h
  constructor
  · intro hfaithful
    by_contra hsome
    rcases (hstops _).mp (hfaithful.finishReason.mpr (hcalls ▸ hsome)) with hstop | hsame
    · exact htalking.stops _ hstop
    · exact hstopped hsame
  · intro hnone
    rw [hnone] at hcalls
    refine ⟨hcontent.trans htalking.content, ?_, ?_, ?_⟩
    · rintro k ⟨call, hcall, -⟩
      rw [hcalls] at hcall
      exact absurd hcall List.not_mem_nil
    · intro k before after hbefore hsilent
      have hmem : Input.added k ∈ quiet stream.inputs := by
        have hall : ∀ input ∈ before, (!isTalk input) = true := by
          intro input hinput
          cases input with
          | text delta => exact absurd hinput (hsilent delta)
          | added _ => rfl
          | arguments _ _ => rfl
          | done _ => rfl
        rw [hbefore, quiet, List.takeWhile_append_of_pos hall]
        exact List.mem_append_right _ List.mem_cons_self
      exact absurd trivial (hinv.sends.mp hnone _ hmem)
    · refine iff_of_false ?_ fun h ↦ h hcalls
      intro hstop
      rcases (hstops _).mp hstop with hbefore | hsame
      · exact htalking.stops _ hbefore
      · exact hstopped hsame

/-- A stream is converted faithfully if and only if no tool call is sent before its text and,
without any text, every call is orderly. -/
theorem conversion_faithful_iff :
    Faithful calls stream.inputs (chunksOf calls stream.inputs) ↔
      Convertible calls stream.inputs := by
  have hsplit := quiet_append stream.inputs
  rw [Convertible]
  cases hrest : stream.inputs.dropWhile fun input ↦ !isTalk input with
  | nil =>
    rw [hrest, List.append_nil] at hsplit
    have hquiet : ∀ input ∈ stream.inputs, isTalk input = false := hsplit ▸ isTalk_quiet _
    have hnone : stream.inputs.any isTalk = false := List.any_eq_false.mpr fun input hinput ↦
      Bool.eq_false_iff.mp (hquiet input hinput)
    rw [if_neg (Bool.eq_false_iff.mp hnone)]
    exact faithful_quiet stream hquiet
  | cons first later =>
    have htalk : isTalk first = true := by
      have h := List.head_dropWhile_not (fun input ↦ !isTalk input)
        (l := stream.inputs) (hrest ▸ List.cons_ne_nil _ _)
      simpa [hrest] using h
    have hmem : first ∈ stream.inputs := by
      rw [← hsplit, hrest]
      exact List.mem_append_right _ List.mem_cons_self
    rw [hrest] at hsplit
    rw [if_pos (List.any_eq_true.mpr ⟨first, hmem, htalk⟩)]
    cases first with
    | text delta => exact faithful_talk stream (by simpa [isTalk] using htalk) hsplit.symm
    | added _ => exact absurd htalk Bool.false_ne_true
    | arguments _ _ => exact absurd htalk Bool.false_ne_true
    | done _ => exact absurd htalk Bool.false_ne_true

end Conversion

section Cut

/-- One call. -/
def lookup : Calls Unit where
  call _ := ⟨['f', 'c'], ['c'], ['f'], ['\x7b', '\x7d']⟩
  key_ne _ := by decide
  called_ne _ := by decide
  key_inj _ _ _ := rfl
  item_inj _ _ _ _ := rfl
  item_ne_key _ _ := by decide

/-- Text between the arguments of a call. -/
def interrupted : Stream lookup where
  inputs := [.added (), .arguments () ['\x7b'], .text ['H', 'i'], .arguments () ['\x7d'], .done ()]
  adds_up _ := rfl

/-- A call that was begun is left unfinished, and the reason to stop does not tell of it. -/
theorem conversion_not_faithful :
    ¬ ∀ (ι : Type) [DecidableEq ι] (calls : Calls ι) (stream : Stream calls),
      Faithful calls stream.inputs (chunksOf calls stream.inputs) := by
  intro hall
  have hfaithful := hall Unit lookup interrupted
  have hstop : ChatChunk.stop .toolCalls ∉ chunksOf lookup interrupted.inputs := by decide
  exact hstop (hfaithful.finishReason.mpr (by decide))

end Cut

end AllAiTools.NewApi.Relay.ChatViaResponses
