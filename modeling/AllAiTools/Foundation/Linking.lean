import Mathlib

namespace AllAiTools.Foundation.Linking

variable {ν ι : Type}

section Events

inductive Step (ν : Type) where
  | call (name : ν)
  | response (name : ν)
  deriving DecidableEq

inductive Event (ν ι : Type) where
  | call (name : ν) (id : ι)
  | response (name : ν) (id : ι)

def Step.isResponse : Step ν → Bool
  | .call _ => false
  | .response _ => true

/-- Every response to an open call carries the id of the earliest one of its name, and closes it. -/
def Linked [DecidableEq ν] : List (ν × ι) → List (Event ν ι) → Prop
  | _, [] => True
  | calls, .call name id :: events => Linked (calls ++ [(name, id)]) events
  | calls, .response name id :: events =>
    match calls.find? (·.1 = name) with
    | none => Linked calls events
    | some call => call.2 = id ∧ Linked (calls.eraseP (·.1 = name)) events

/-- Calls are numbered from `k + 1` on; a response has the number of the last call. -/
def labels (f : ℕ → ι) : ℕ → List (Step ν) → List (Event ν ι)
  | _, [] => []
  | k, .call name :: steps => .call name (f (k + 1)) :: labels f (k + 1) steps
  | k, .response name :: steps => .response name (f k) :: labels f k steps

/-- The steps of scopes, numbered anew in each. -/
def labelsAll (f : ℕ → ι) (scopes : List (List (Step ν))) : List (Event ν ι) :=
  scopes.flatMap (labels f 0)

def Event.step : Event ν ι → Step ν
  | .call name _ => .call name
  | .response name _ => .response name

def Event.callId : Event ν ι → Option ι
  | .call _ id => some id
  | .response _ _ => none

def Event.responseId : Event ν ι → Option ι
  | .call _ _ => none
  | .response _ id => some id

/-- Steps with the ids that their calls and their responses were given. -/
def joined : List (Step ν) → List ι → List ι → List (Event ν ι)
  | .call name :: steps, id :: callIds, responseIds =>
    .call name id :: joined steps callIds responseIds
  | .response name :: steps, callIds, id :: responseIds =>
    .response name id :: joined steps callIds responseIds
  | _, _, _ => []

def Callless (scope : List (Step ν)) : Prop := ∀ name, .call name ∉ scope

/-- A call that is responded to at all is responded to in its scope before the next call. -/
def PromptIn : List (Step ν) → List (List (Step ν)) → Prop
  | [], _ => True
  | .call name :: steps, later =>
    (.response name ∈ steps ∨ (∃ scope ∈ later, .response name ∈ scope) →
      .response name ∈ steps.takeWhile Step.isResponse) ∧ PromptIn steps later
  | .response _ :: steps, later => PromptIn steps later

def Prompt : List (List (Step ν)) → Prop
  | [] => True
  | scope :: later => PromptIn scope later ∧ Prompt later

end Events

section Ids

variable {f : ℕ → ι}

theorem joined_events (events : List (Event ν ι)) :
    joined (events.map Event.step) (events.filterMap Event.callId)
      (events.filterMap Event.responseId) = events := by
  induction events with
  | nil => rfl
  | cons event events ih =>
    cases event with
    | call name id => exact congrArg (Event.call name id :: ·) ih
    | response name id => exact congrArg (Event.response name id :: ·) ih

theorem map_step_labels (k : ℕ) (steps : List (Step ν)) :
    (labels f k steps).map Event.step = steps := by
  induction steps generalizing k with
  | nil => rfl
  | cons step steps ih => cases step <;> simp [labels, Event.step, ih]

def callIds (f : ℕ → ι) (k : ℕ) (steps : List (Step ν)) : List ι :=
  (labels f k steps).filterMap Event.callId

@[simp]
theorem callIds_call (k : ℕ) (name : ν) (steps : List (Step ν)) :
    callIds f k (.call name :: steps) = f (k + 1) :: callIds f (k + 1) steps := rfl

@[simp]
theorem callIds_response (k : ℕ) (name : ν) (steps : List (Step ν)) :
    callIds f k (.response name :: steps) = callIds f k steps := rfl

def responseIds (f : ℕ → ι) (k : ℕ) (steps : List (Step ν)) : List ι :=
  (labels f k steps).filterMap Event.responseId

@[simp]
theorem responseIds_call (k : ℕ) (name : ν) (steps : List (Step ν)) :
    responseIds f k (.call name :: steps) = responseIds f (k + 1) steps := rfl

@[simp]
theorem responseIds_response (k : ℕ) (name : ν) (steps : List (Step ν)) :
    responseIds f k (.response name :: steps) = f k :: responseIds f k steps := rfl

theorem joined_labelsAll (scopes : List (List (Step ν))) :
    joined scopes.flatten (scopes.flatMap (callIds f 0)) (scopes.flatMap (responseIds f 0)) =
      labelsAll f scopes := by
  have hsteps : (labelsAll f scopes).map Event.step = scopes.flatten := by
    rw [labelsAll, List.map_flatMap]
    simp only [map_step_labels, List.flatMap_id']
  have hcalls : (labelsAll f scopes).filterMap Event.callId = scopes.flatMap (callIds f 0) := by
    rw [labelsAll, List.filterMap_flatMap]
    rfl
  have hresponses :
      (labelsAll f scopes).filterMap Event.responseId = scopes.flatMap (responseIds f 0) := by
    rw [labelsAll, List.filterMap_flatMap]
    rfl
  rw [← hsteps, ← hcalls, ← hresponses]
  exact joined_events _

theorem mem_callIds {k : ℕ} {steps : List (Step ν)} {id : ι} (h : id ∈ callIds f k steps) :
    ∃ i, k < i ∧ id = f i := by
  induction steps generalizing k with
  | nil => simp [callIds, labels] at h
  | cons step steps ih =>
    cases step with
    | call name =>
      rw [callIds_call, List.mem_cons] at h
      rcases h with rfl | h
      · exact ⟨k + 1, by omega, rfl⟩
      · obtain ⟨i, hi, heq⟩ := ih h
        exact ⟨i, by omega, heq⟩
    | response name =>
      rw [callIds_response] at h
      exact ih h

theorem nodup_callIds (hf : Function.Injective f) (k : ℕ) (steps : List (Step ν)) :
    (callIds f k steps).Nodup := by
  induction steps generalizing k with
  | nil => exact List.nodup_nil
  | cons step steps ih =>
    cases step with
    | call name =>
      rw [callIds_call, List.nodup_cons]
      refine ⟨fun hmem ↦ ?_, ih (k + 1)⟩
      obtain ⟨i, hi, heq⟩ := mem_callIds hmem
      have := hf heq
      omega
    | response name =>
      rw [callIds_response]
      exact ih k

theorem callless_call {name : ν} {steps : List (Step ν)} :
    ¬Callless (.call name :: steps) := fun h ↦ h name List.mem_cons_self

theorem callless_response {name : ν} {steps : List (Step ν)} :
    Callless (.response name :: steps) ↔ Callless steps := by
  simp [Callless]

theorem first_mem_callIds {k : ℕ} {steps : List (Step ν)} (h : ¬Callless steps) :
    f (k + 1) ∈ callIds f k steps := by
  induction steps with
  | nil => exact absurd (fun name hname ↦ by simp at hname) h
  | cons step steps ih =>
    cases step with
    | call name => simp
    | response name =>
      rw [callIds_response]
      exact ih (callless_response.not.mp h)

theorem callIds_callless {k : ℕ} {steps : List (Step ν)} (h : Callless steps) :
    callIds f k steps = [] := by
  induction steps with
  | nil => rfl
  | cons step steps ih =>
    cases step with
    | call name => exact absurd h callless_call
    | response name =>
      rw [callIds_response]
      exact ih (callless_response.mp h)

theorem callIds_eq_nil {k : ℕ} {steps : List (Step ν)} :
    callIds f k steps = [] ↔ Callless steps := by
  refine ⟨fun hnil ↦ ?_, callIds_callless⟩
  by_contra h
  have hfirst := first_mem_callIds (f := f) (k := k) h
  rw [hnil] at hfirst
  cases hfirst

/-- The ids differ exactly where no two scopes have calls. -/
theorem nodup_callIds_iff (hf : Function.Injective f) (scopes : List (List (Step ν))) :
    (scopes.flatMap (callIds f 0)).Nodup ↔
      scopes.Pairwise fun scope later ↦ Callless scope ∨ Callless later := by
  rw [List.nodup_flatMap, and_iff_right fun scope _ ↦ nodup_callIds hf 0 scope]
  have hiff (scope later : List (Step ν)) :
      (callIds f 0 scope).Disjoint (callIds f 0 later) ↔ Callless scope ∨ Callless later := by
    constructor
    · intro h
      by_contra hboth
      obtain ⟨hs, hl⟩ := not_or.mp hboth
      exact h (first_mem_callIds hs) (first_mem_callIds hl)
    · rintro (h | h)
      · simp [callIds_callless h]
      · simp [callIds_callless h]
  exact List.Pairwise.iff hiff

end Ids

section Responses

variable {calls : List (ν × ι)} {f : ℕ → ι}

theorem linked_response [DecidableEq ν] {name : ν} {id : ι} {events : List (Event ν ι)}
    (h : ∀ call ∈ calls, call.1 ≠ name) :
    Linked calls (.response name id :: events) ↔ Linked calls events := by
  have hnone : calls.find? (·.1 = name) = none := by
    rw [List.find?_eq_none]
    intro call hcall
    simpa using h call hcall
  simp only [Linked, hnone]

theorem not_linked_response [DecidableEq ν] {rest : List (ν × ι)} {name : ν} {id : ι}
    {events : List (Event ν ι)} (hid : ∀ call ∈ calls, call.2 ≠ id)
    (h : ∃ call ∈ calls, call.1 = name) :
    ¬Linked (calls ++ rest) (.response name id :: events) := by
  obtain ⟨call, hcall, hname⟩ := h
  cases hfind : calls.find? (·.1 = name) with
  | none => exact absurd hname (by simpa using List.find?_eq_none.mp hfind call hcall)
  | some found =>
    simp only [Linked, List.find?_append, hfind, Option.some_or]
    rintro ⟨heq, _⟩
    exact hid found (List.mem_of_find?_eq_some hfind) heq

theorem linked_response_last [DecidableEq ν] {name : ν} {id : ι} {events : List (Event ν ι)}
    (h : ∀ call ∈ calls, call.1 ≠ name) :
    Linked (calls ++ [(name, id)]) (.response name id :: events) ↔ Linked calls events := by
  have hfind : (calls ++ [(name, id)]).find? (·.1 = name) = some (name, id) := by
    have hnone : calls.find? (·.1 = name) = none :=
      List.find?_eq_none.mpr fun call hcall ↦ by simpa using h call hcall
    simp [List.find?_append, hnone]
  have herase : (calls ++ [(name, id)]).eraseP (·.1 = name) = calls := by
    rw [List.eraseP_append_right _ fun call hcall ↦ by simpa using h call hcall]
    simp
  simp only [Linked, hfind, herase, true_and]

theorem labels_callless {scope : List (Step ν)} (h : Callless scope) (k : ℕ) :
    ∀ event ∈ labels f k scope, ∃ name, .response name ∈ scope ∧ event = .response name (f k) := by
  induction scope with
  | nil => simp [labels]
  | cons step steps ih =>
    cases step with
    | call name => exact absurd h callless_call
    | response name =>
      intro event hevent
      rw [labels, List.mem_cons] at hevent
      rcases hevent with rfl | hevent
      · exact ⟨name, List.mem_cons_self, rfl⟩
      · obtain ⟨name', hmem, rfl⟩ := ih (callless_response.mp h) event hevent
        exact ⟨name', List.mem_cons_of_mem _ hmem, rfl⟩

theorem linked_callless_nil [DecidableEq ν] {scope : List (Step ν)} (h : Callless scope) (k : ℕ)
    (rest : List (Event ν ι)) :
    Linked [] (labels f k scope ++ rest) ↔ Linked [] rest := by
  induction scope with
  | nil => simp [labels]
  | cons step steps ih =>
    cases step with
    | call name => exact absurd h callless_call
    | response name =>
      rw [labels, List.cons_append, linked_response (by simp)]
      exact ih (callless_response.mp h)

/-- Responses that carry no open call's id must not be to an open call. -/
theorem linked_responses [DecidableEq ν] {events : List (Event ν ι)} {id : ι}
    (hevents : ∀ event ∈ events, ∃ name, event = .response name id)
    (hid : ∀ call ∈ calls, call.2 ≠ id) :
    Linked calls events ↔ ∀ call ∈ calls, .response call.1 id ∉ events := by
  induction events with
  | nil => simp [Linked]
  | cons event events ih =>
    obtain ⟨name, rfl⟩ := hevents event List.mem_cons_self
    have hrest := ih fun event hevent ↦ hevents event (List.mem_cons_of_mem _ hevent)
    by_cases hname : ∃ call ∈ calls, call.1 = name
    · have hnot : ¬Linked calls (.response name id :: events) := by
        simpa using @not_linked_response ν ι calls _ [] name id events hid hname
      obtain ⟨call, hcall, rfl⟩ := hname
      refine iff_of_false hnot fun h ↦ ?_
      exact h call hcall List.mem_cons_self
    · push Not at hname
      rw [linked_response hname, hrest]
      refine forall₂_congr fun call hcall ↦ ?_
      simp [hname call hcall]

end Responses

section Scopes

variable {f : ℕ → ι} {scopes : List (List (Step ν))}

theorem mem_labels_callless {scope : List (Step ν)} (h : Callless scope) (k : ℕ) {name : ν} :
    .response name (f k) ∈ labels f k scope ↔ .response name ∈ scope := by
  induction scope with
  | nil => simp [labels]
  | cons step steps ih =>
    cases step with
    | call name => exact absurd h callless_call
    | response name' =>
      rw [labels, List.mem_cons, List.mem_cons, ih (callless_response.mp h)]
      simp

theorem mem_labelsAll_callless (h : ∀ scope ∈ scopes, Callless scope) {name : ν} :
    .response name (f 0) ∈ labelsAll f scopes ↔ ∃ scope ∈ scopes, .response name ∈ scope := by
  rw [labelsAll, List.mem_flatMap]
  refine exists_congr fun scope ↦ and_congr_right fun hscope ↦ ?_
  exact mem_labels_callless (h scope hscope) 0

theorem labelsAll_callless (h : ∀ scope ∈ scopes, Callless scope) :
    ∀ event ∈ labelsAll f scopes, ∃ name, event = .response name (f 0) := by
  intro event hevent
  obtain ⟨scope, hscope, hmem⟩ := List.mem_flatMap.mp hevent
  obtain ⟨name, _, rfl⟩ := labels_callless (h scope hscope) 0 event hmem
  exact ⟨name, rfl⟩

/-- The open calls of a scope: those a later call came after, and the last one. -/
def opened (f : ℕ → ι) (k : ℕ) (stale : List (ν × ι)) (last : Option ν) : List (ν × ι) :=
  stale ++ (last.map fun name ↦ (name, f k)).toList

/-- What an open call still asks of the steps to come. -/
def PromptFrom (stale : List (ν × ι)) (last : Option ν) (steps : List (Step ν))
    (scopes : List (List (Step ν))) : Prop :=
  (∀ call ∈ stale, .response call.1 ∉ steps ∧ ∀ scope ∈ scopes, .response call.1 ∉ scope) ∧
  (∀ name ∈ last, (.response name ∈ steps ∨ ∃ scope ∈ scopes, .response name ∈ scope) →
    .response name ∈ steps.takeWhile Step.isResponse) ∧
  PromptIn steps scopes

theorem promptIn_callless {scope : List (Step ν)} (h : Callless scope) : PromptIn scope scopes := by
  induction scope with
  | nil => trivial
  | cons step steps ih =>
    cases step with
    | call name => exact absurd h callless_call
    | response name => exact ih (callless_response.mp h)

theorem promptFrom_call {k : ℕ} {stale : List (ν × ι)} {last : Option ν} {name : ν}
    {steps : List (Step ν)} :
    PromptFrom (opened f k stale last) (some name) steps scopes ↔
      PromptFrom stale last (.call name :: steps) scopes := by
  have hcall : (Step.call name :: steps).takeWhile Step.isResponse = [] := rfl
  have hmem (other : ν) : Step.response other ∈ Step.call name :: steps ↔
      Step.response other ∈ steps := by simp
  simp only [PromptFrom, PromptIn, hcall, hmem, opened, List.mem_append]
  constructor
  · rintro ⟨hopen, hname, hin⟩
    refine ⟨fun call hc ↦ hopen call (.inl hc), fun other hother ↦ ?_, hname name rfl, hin⟩
    have hquiet := hopen (other, f k) (.inr (by simpa using hother))
    rintro (hstep | ⟨scope, hscope, hr⟩)
    · exact absurd hstep hquiet.1
    · exact absurd hr (hquiet.2 scope hscope)
  · rintro ⟨hstale, hlast, hname, hin⟩
    refine ⟨?_, fun other hother ↦ ?_, hin⟩
    · rintro call (hc | hc)
      · exact hstale call hc
      · obtain ⟨other, hother, rfl⟩ := by simpa using hc
        have hquiet := hlast other hother
        simp only [List.not_mem_nil, imp_false, not_or, not_exists, not_and] at hquiet
        exact hquiet
    · cases hother
      exact hname

theorem not_promptFrom_stale {stale : List (ν × ι)} {last : Option ν} {name : ν}
    {steps : List (Step ν)} (h : ∃ call ∈ stale, call.1 = name) :
    ¬PromptFrom stale last (.response name :: steps) scopes := by
  obtain ⟨call, hcall, rfl⟩ := h
  intro hprompt
  exact (hprompt.1 call hcall).1 List.mem_cons_self

theorem promptFrom_last {stale : List (ν × ι)} {name : ν} {steps : List (Step ν)}
    (h : ∀ call ∈ stale, call.1 ≠ name) :
    PromptFrom stale (some name) (.response name :: steps) scopes ↔
      PromptFrom stale none steps scopes := by
  have hmem : ∀ call ∈ stale, (Step.response call.1 ∈ Step.response name :: steps ↔
      Step.response call.1 ∈ steps) := fun call hcall ↦ by simp [h call hcall]
  simp only [PromptFrom, PromptIn]
  refine and_congr (forall₂_congr fun call hcall ↦ ?_) (and_congr_left fun _ ↦ ?_)
  · rw [hmem call hcall]
  · simp [List.takeWhile_cons, Step.isResponse]

theorem promptFrom_other {stale : List (ν × ι)} {last : Option ν} {name : ν}
    {steps : List (Step ν)} (h : ∀ call ∈ stale, call.1 ≠ name) (hlast : name ∉ last) :
    PromptFrom stale last (.response name :: steps) scopes ↔
      PromptFrom stale last steps scopes := by
  have hmem {other : ν} (hne : other ≠ name) (l : List (Step ν)) :
      Step.response other ∈ Step.response name :: l ↔ Step.response other ∈ l := by simp [hne]
  have hwhile : (Step.response name :: steps).takeWhile Step.isResponse =
      .response name :: steps.takeWhile Step.isResponse := rfl
  simp only [PromptFrom, PromptIn, hwhile]
  refine and_congr (forall₂_congr fun call hcall ↦ ?_)
    (and_congr_left fun _ ↦ forall₂_congr fun other hother ↦ ?_)
  · rw [hmem (h call hcall)]
  · have hne : other ≠ name := fun heq ↦ hlast (heq ▸ hother)
    rw [hmem hne, hmem hne]

theorem linked_scope [DecidableEq ν] (hf : Function.Injective f)
    (hcallless : ∀ scope ∈ scopes, Callless scope)
    (steps : List (Step ν)) {k : ℕ} {stale : List (ν × ι)} {last : Option ν}
    (hstale : ∀ call ∈ stale, ∃ i, 0 < i ∧ i < k ∧ call.2 = f i) (hlast : last.isSome → 0 < k) :
    Linked (opened f k stale last) (labels f k steps ++ labelsAll f scopes) ↔
      PromptFrom stale last steps scopes := by
  induction steps generalizing k stale last with
  | nil =>
    have hid : ∀ call ∈ opened f k stale last, call.2 ≠ f 0 := by
      intro call hcall
      rcases List.mem_append.mp hcall with hcall | hcall
      · obtain ⟨i, hpos, _, hi⟩ := hstale call hcall
        rw [hi]
        exact hf.ne (by omega)
      · obtain ⟨name, hname, rfl⟩ := by simpa using hcall
        exact hf.ne (by have := hlast (by simp [hname]); omega)
    rw [labels, List.nil_append, linked_responses (labelsAll_callless hcallless) hid]
    simp only [mem_labelsAll_callless hcallless, PromptFrom, PromptIn, opened]
    cases last with
    | none => simp
    | some name =>
      simp only [Option.map_some, Option.toList_some, List.mem_append, List.mem_singleton]
      constructor
      · intro h
        refine ⟨fun call hcall ↦ ⟨by simp, ?_⟩, ?_, trivial⟩
        · simpa using h call (.inl hcall)
        · simpa using h (name, f k) (.inr rfl)
      · rintro ⟨hs, hl, _⟩ call (hcall | rfl)
        · simpa using (hs call hcall).2
        · simpa using hl
  | cons step steps ih =>
    cases step with
    | call name =>
      have hopen : ∀ call ∈ opened f k stale last, ∃ i, 0 < i ∧ i < k + 1 ∧ call.2 = f i := by
        intro call hcall
        rcases List.mem_append.mp hcall with hcall | hcall
        · obtain ⟨i, hpos, hi, heq⟩ := hstale call hcall
          exact ⟨i, hpos, by omega, heq⟩
        · obtain ⟨name', hname, rfl⟩ := by simpa using hcall
          exact ⟨k, hlast (by simp [hname]), by omega, rfl⟩
      rw [labels, List.cons_append, Linked, ← @promptFrom_call ν ι f scopes k]
      exact @ih (k + 1) _ (some name) hopen (by simp)
    | response name =>
      rw [labels, List.cons_append]
      by_cases hname : ∃ call ∈ stale, call.1 = name
      · refine iff_of_false (not_linked_response (fun call hcall ↦ ?_) hname)
          (not_promptFrom_stale hname)
        obtain ⟨i, _, hi, heq⟩ := hstale call hcall
        rw [heq]
        exact hf.ne (by omega)
      · push Not at hname
        by_cases hmem : name ∈ last
        · cases hmem
          rw [promptFrom_last hname, ← ih hstale (by simp)]
          simpa [opened] using linked_response_last hname
        · rw [promptFrom_other hname hmem, linked_response, ih hstale hlast]
          intro call hcall
          rcases List.mem_append.mp hcall with hcall | hcall
          · exact hname call hcall
          · obtain ⟨other, hother, rfl⟩ := by simpa using hcall
            exact fun heq ↦ hmem (heq ▸ hother)

/-- Where only one scope has calls, its numbers link every response to the earliest open call of
its name exactly where every call is responded to before the next one, or never. -/
theorem linked_iff_prompt [DecidableEq ν] (hf : Function.Injective f) {scopes : List (List (Step ν))}
    (h : scopes.Pairwise fun scope later ↦ Callless scope ∨ Callless later) :
    Linked [] (labelsAll f scopes) ↔ Prompt scopes := by
  induction scopes with
  | nil => simp [labelsAll, Linked, Prompt]
  | cons scope later ih =>
    rw [List.pairwise_cons] at h
    rw [Prompt, ← ih h.2, labelsAll, List.flatMap_cons]
    by_cases hscope : Callless scope
    · rw [linked_callless_nil hscope]
      exact (and_iff_right (promptIn_callless hscope)).symm
    · have hlater : ∀ other ∈ later, Callless other := fun other ho ↦
        (h.1 other ho).resolve_left hscope
      have hrun : Linked [] (labels f 0 scope ++ labelsAll f later) ↔
          PromptFrom ([] : List (ν × ι)) none scope later :=
        @linked_scope ν ι f later _ hf hlater scope 0 [] none (by simp) (by simp)
      have hrest : Linked [] (labelsAll f later) :=
        (linked_responses (labelsAll_callless hlater) (by simp)).mpr (by simp)
      have hprompt : PromptFrom ([] : List (ν × ι)) none scope later ↔ PromptIn scope later := by
        simp [PromptFrom]
      rw [and_iff_left hrest, ← hprompt]
      exact hrun

end Scopes

end AllAiTools.Foundation.Linking
