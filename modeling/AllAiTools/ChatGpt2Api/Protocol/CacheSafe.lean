import AllAiTools.ChatGpt2Api.Protocol.CompletionCache
import AllAiTools.Foundation.Run

namespace AllAiTools.ChatGpt2Api.Protocol.CompletionCache

open Foundation.Run

variable {K V E : Type}

section Objects

/-- Objects with these contents that nobody else can change. -/
structure Held (s : State K V E) (maker : Option ℕ) (objects : List ℕ) (contents : List V) :
    Prop where
  old : ∀ object ∈ objects, object < s.nextObject
  kept : ∀ object ∈ objects, object ∉ s.handed
  made : ∀ object ∈ objects, s.maker object = maker
  content : objects.map s.heap = contents

/-- What a step of a caller leaves of the objects, calls and computes. -/
structure Extends (c : Option ℕ) (s s' : State K V E) : Prop where
  objects : s.nextObject ≤ s'.nextObject
  heap : ∀ object < s.nextObject, object ∉ s.handed → s'.heap object = s.heap object
  maker : ∀ object < s.nextObject, s'.maker object = s.maker object
  handed : ∀ object < s.nextObject, object ∉ s.handed → (c = none ∨ s.maker object ≠ c) →
    object ∉ s'.handed
  calls : ∀ i inflight, s.calls i = some inflight →
    ∃ inflight', s'.calls i = some inflight' ∧ inflight'.key = inflight.key
  computed : s.computed ⊆ s'.computed
  failures : s.failures ⊆ s'.failures

theorem Extends.refl (c : Option ℕ) (s : State K V E) : Extends c s s :=
  ⟨le_rfl, fun _ _ _ ↦ rfl, fun _ _ ↦ rfl, fun _ _ h _ ↦ h, fun _ inflight h ↦ ⟨inflight, h, rfl⟩,
    List.Subset.refl _, List.Subset.refl _⟩

theorem Held.extend {c maker : Option ℕ} {s s' : State K V E} {objects : List ℕ}
    {contents : List V} (hheld : Held s maker objects contents) (hext : Extends c s s')
    (hmaker : c = none ∨ maker ≠ c) : Held s' maker objects contents where
  old object hobject := (hheld.old object hobject).trans_le hext.objects
  kept object hobject := by
    refine hext.handed object (hheld.old object hobject) (hheld.kept object hobject) ?_
    rwa [hheld.made object hobject]
  made object hobject := (hext.maker object (hheld.old object hobject)).trans
    (hheld.made object hobject)
  content := by
    rw [← hheld.content]
    exact List.map_congr_left fun object hobject ↦
      hext.heap object (hheld.old object hobject) (hheld.kept object hobject)

theorem Held.append {maker : Option ℕ} {s : State K V E} {objects objects' : List ℕ}
    {contents contents' : List V} (hheld : Held s maker objects contents)
    (hheld' : Held s maker objects' contents') :
    Held s maker (objects ++ objects') (contents ++ contents') where
  old object hobject := (List.mem_append.mp hobject).elim (hheld.old object) (hheld'.old object)
  kept object hobject := (List.mem_append.mp hobject).elim (hheld.kept object) (hheld'.kept object)
  made object hobject := (List.mem_append.mp hobject).elim (hheld.made object) (hheld'.made object)
  content := by rw [List.map_append, hheld.content, hheld'.content]

theorem held_fresh {s : State K V E} (hhanded : ∀ object ∈ s.handed, object < s.nextObject)
    (maker : Option ℕ) (contents : List V) :
    Held (s.allocate maker contents) maker (s.fresh contents) contents where
  old object hobject := by
    obtain ⟨i, hi, rfl⟩ := List.mem_range'.mp hobject
    simp only [State.allocate]
    omega
  kept object hobject hmem := by
    obtain ⟨i, hi, rfl⟩ := List.mem_range'.mp hobject
    have hlt := hhanded _ hmem
    omega
  made object hobject := by
    obtain ⟨i, hi, rfl⟩ := List.mem_range'.mp hobject
    simp [State.allocate]
  content := by
    refine List.ext_getElem (by simp [State.fresh]) fun n hn hn' ↦ ?_
    simp [State.fresh, State.allocate, hn']

/-- New objects are made, and of the old ones only the caller's own are handed out. -/
theorem extends_lend (s : State K V E) (c maker : Option ℕ) (contents : List V)
    (objects : List ℕ) (hobjects : ∀ object ∈ objects, s.nextObject ≤ object ∨
      (c ≠ none ∧ s.maker object = c)) :
    Extends c s ((s.allocate maker contents).handOut objects) where
  objects := Nat.le_add_right _ _
  heap _ hold _ := if_neg (Nat.not_le_of_lt hold)
  maker _ hold := if_neg (Nat.not_le_of_lt hold)
  handed object hold hkept hmaker hmem := by
    rcases List.mem_append.mp hmem with hlent | hbefore
    · rcases hobjects object hlent with hnew | hmade
      · exact absurd hold (Nat.not_lt_of_le hnew)
      · exact hmaker.elim hmade.1 fun hne ↦ hne hmade.2
    · exact hkept hbefore
  calls _ inflight h := ⟨inflight, h, rfl⟩
  computed := List.Subset.refl _
  failures := List.Subset.refl _

/-- Calls are made and settled, and computes come to something. -/
theorem Extends.goOn {c : Option ℕ} {s s' s'' : State K V E} (hext : Extends c s s')
    (hheap : s''.heap = s'.heap) (hnext : s''.nextObject = s'.nextObject)
    (hmaker : s''.maker = s'.maker) (hhanded : s''.handed = s'.handed)
    (hcalls : ∀ i inflight, s'.calls i = some inflight →
      ∃ inflight', s''.calls i = some inflight' ∧ inflight'.key = inflight.key)
    (hcomputed : s'.computed ⊆ s''.computed) (hfailures : s'.failures ⊆ s''.failures) :
    Extends c s s'' where
  objects := hext.objects.trans hnext.ge
  heap object hold hkept := (congrFun hheap object).trans (hext.heap object hold hkept)
  maker object hold := (congrFun hmaker object).trans (hext.maker object hold)
  handed object hold hkept hmade := hhanded ▸ hext.handed object hold hkept hmade
  calls i inflight h := by
    obtain ⟨inflight', h', hkey⟩ := hext.calls i inflight h
    obtain ⟨inflight'', h'', hkey'⟩ := hcalls i inflight' h'
    exact ⟨inflight'', h'', hkey'.trans hkey⟩
  computed _ h := hcomputed (hext.computed h)
  failures _ h := hfailures (hext.failures h)

end Objects

variable (requests : ℕ → Request K) (keysOf : V → List V)

section Invariant

/-- A value of a compute for that key, in objects nobody else can change. -/
structure Kept (s : State K V E) (maker : Option ℕ) (key : K) (value : Stored ℕ) : Prop where
  held : Held s maker value.parts (s.content value).parts
  computed : (key, s.content value) ∈ s.computed

theorem Kept.extend {c maker : Option ℕ} {s s' : State K V E} {key : K} {value : Stored ℕ}
    (hkept : Kept s maker key value) (hext : Extends c s s') (hmaker : c = none ∨ maker ≠ c) :
    Kept s' maker key value := by
  have hheld := hkept.held.extend hext hmaker
  have hcontent : s'.content value = s.content value :=
    congrArg (Stored.mk value.kind) hheld.content
  refine ⟨?_, ?_⟩
  · rwa [hcontent]
  · rw [hcontent]
    exact hext.computed hkept.computed

/-- An error of a compute for that key. -/
def Raised (s : State K V E) (key : K) (fault : Fault E) : Prop :=
  ∃ error, fault = .raised error ∧ (key, error) ∈ s.failures

def CallFor (s : State K V E) (i : ℕ) (key : K) : Prop :=
  ∃ inflight, s.calls i = some inflight ∧ inflight.key = key

/-- What holds of a caller where it stands. None replays a value. -/
def CallerOk (s : State K V E) (c : ℕ) : Prop :=
  (s.callers c).got = [] ∧
  match (s.callers c).pc with
  | .idle | .bypassing | .closed => (s.callers c).waitedOn = none
  | .computing i chunks produced | .yielding i chunks produced =>
    (s.callers c).waitedOn = none ∧ CallFor s i (requests c).key ∧ Held s none chunks produced
  | .failing i fault | .reporting i fault =>
    (s.callers c).waitedOn = none ∧ CallFor s i (requests c).key ∧
      (fault = .generatorExit ∨ Raised s (requests c).key fault)
  | .storing i value | .publishing i value =>
    (s.callers c).waitedOn = none ∧ CallFor s i (requests c).key ∧
      Kept s (if value.kind = .response then some c else none) (requests c).key value
  | .waiting i => CallFor s i (requests c).key
  | .replaying _ _ => False
  | .returned value =>
    (s.callers c).waitedOn ≠ none → ((requests c).key, value) ∈ s.computed
  | .raised fault => (s.callers c).waitedOn ≠ none → Raised s (requests c).key fault

def CallOk (s : State K V E) (inflight : InflightCall K E) : Prop :=
  ∀ result, inflight.settled = some result →
    match result with
    | .ok value => Kept s none inflight.key value
    | .error fault => fault = .generatorExit ∨ Raised s inflight.key fault

structure Inv (s : State K V E) : Prop where
  handed : ∀ object ∈ s.handed, object < s.nextObject
  entries : ∀ key entry, (key, entry) ∈ s.entries → Kept s none key entry.value
  calls : ∀ i inflight, s.calls i = some inflight → i < s.nextCall ∧ CallOk s inflight
  inflight : ∀ key i, s.inflight key = some i → CallFor s i key
  holder : ∀ guard, s.holder guard = none
  callers : ∀ c, CallerOk requests s c

theorem Raised.extend {c : Option ℕ} {s s' : State K V E} {key : K} {fault : Fault E}
    (hraised : Raised s key fault) (hext : Extends c s s') : Raised s' key fault := by
  obtain ⟨error, hfault, hmem⟩ := hraised
  exact ⟨error, hfault, hext.failures hmem⟩

theorem CallFor.extend {c : Option ℕ} {s s' : State K V E} {i : ℕ} {key : K}
    (hcall : CallFor s i key) (hext : Extends c s s') : CallFor s' i key := by
  obtain ⟨inflight, hinflight, hkey⟩ := hcall
  obtain ⟨inflight', hinflight', hkey'⟩ := hext.calls i inflight hinflight
  exact ⟨inflight', hinflight', hkey'.trans hkey⟩

theorem CallOk.extend {c : Option ℕ} {s s' : State K V E} {inflight : InflightCall K E}
    (hcall : CallOk s inflight) (hext : Extends c s s') : CallOk s' inflight := by
  intro result hresult
  have hok := hcall result hresult
  cases result with
  | ok value =>
    refine hok.extend hext ?_
    cases c with
    | none => exact .inl rfl
    | some c => exact .inr (Option.some_ne_none c).symm
  | error fault => exact hok.imp_right fun hraised ↦ hraised.extend hext

/-- A caller that does not act stays as it is. -/
theorem CallerOk.extend {c : Option ℕ} {d : ℕ} {s s' : State K V E}
    (hok : CallerOk requests s d) (hext : Extends c s s') (hother : c ≠ some d)
    (hsame : s'.callers d = s.callers d) : CallerOk requests s' d := by
  have hnone : c = none ∨ (none : Option ℕ) ≠ c := by
    cases c with
    | none => exact .inl rfl
    | some c => exact .inr (Option.some_ne_none c).symm
  refine ⟨hsame ▸ hok.1, ?_⟩
  have hpc := hok.2
  rw [hsame]
  cases hcase : (s.callers d).pc <;> rw [hcase] at hpc <;> dsimp only at hpc ⊢
  case computing | yielding =>
    exact ⟨hpc.1, hpc.2.1.extend hext, hpc.2.2.extend hext hnone⟩
  case failing | reporting =>
    exact ⟨hpc.1, hpc.2.1.extend hext, hpc.2.2.imp_right fun h ↦ h.extend hext⟩
  case storing i value | publishing i value =>
    refine ⟨hpc.1, hpc.2.1.extend hext, hpc.2.2.extend hext ?_⟩
    split
    · exact .inr hother.symm
    · exact hnone
  case waiting => exact hpc.extend hext
  case returned => exact fun h ↦ hext.computed (hpc h)
  case raised => exact fun h ↦ (hpc h).extend hext
  all_goals exact hpc

/-- What a step has to show when it keeps the rest. -/
theorem Inv.extend {c : Option ℕ} {s s' : State K V E} (hinv : Inv requests s)
    (hext : Extends c s s') (hhanded : ∀ object ∈ s'.handed, object < s'.nextObject)
    (hentries : ∀ key entry, (key, entry) ∈ s'.entries →
      (key, entry) ∈ s.entries ∨ Kept s' none key entry.value)
    (hnext : s.nextCall ≤ s'.nextCall)
    (hcalls : ∀ i inflight, s'.calls i = some inflight →
      s.calls i = some inflight ∨ (i < s'.nextCall ∧ CallOk s' inflight))
    (hinflight : ∀ key i, s'.inflight key = some i → s.inflight key = some i ∨ CallFor s' i key)
    (hholder : ∀ guard, s'.holder guard = none)
    (hothers : ∀ d, c ≠ some d → s'.callers d = s.callers d)
    (hcaller : ∀ d, c = some d → CallerOk requests s' d) : Inv requests s' where
  handed := hhanded
  entries key entry hentry := by
    rcases hentries key entry hentry with hold | hkept
    · refine (hinv.entries key entry hold).extend hext ?_
      cases c with
      | none => exact .inl rfl
      | some c => exact .inr (Option.some_ne_none c).symm
    · exact hkept
  calls i inflight hcall := by
    rcases hcalls i inflight hcall with hold | hnew
    · obtain ⟨hlt, hok⟩ := hinv.calls i inflight hold
      exact ⟨hlt.trans_le hnext, hok.extend hext⟩
    · exact hnew
  inflight key i hkey := by
    rcases hinflight key i hkey with hold | hnew
    · exact (hinv.inflight key i hold).extend hext
    · exact hnew
  holder := hholder
  callers d := by
    by_cases hd : c = some d
    · exact hcaller d hd
    · exact (hinv.callers d).extend requests hext hd (hothers d hd)

end Invariant

section Steps

variable {s : State K V E} {c : ℕ}

theorem setPc_callers_self (pc : Pc V E) :
    (s.setPc c pc).callers c = { s.callers c with pc := pc } := Function.update_self _ _ _

theorem setPc_callers_of_ne {d : ℕ} (hne : d ≠ c) (pc : Pc V E) :
    (s.setPc c pc).callers d = s.callers d := Function.update_of_ne hne _ _

/-- A caller goes on within itself, and its compute may have come to something. -/
theorem inv_move (hinv : Inv requests s) {computed : List (K × Stored V)} {failures : List (K × E)}
    (hcomputed : s.computed ⊆ computed) (hfailures : s.failures ⊆ failures) (pc : Pc V E)
    (hcaller : Extends (some c) s
        ({ s with computed := computed, failures := failures }.setPc c pc) →
      CallerOk requests ({ s with computed := computed, failures := failures }.setPc c pc) c) :
    Inv requests ({ s with computed := computed, failures := failures }.setPc c pc) := by
  have hext : Extends (some c) s
      ({ s with computed := computed, failures := failures }.setPc c pc) :=
    (Extends.refl _ s).goOn rfl rfl rfl rfl (fun _ inflight h ↦ ⟨inflight, h, rfl⟩)
      hcomputed hfailures
  refine hinv.extend requests hext hinv.handed (fun _ _ h ↦ .inl h) le_rfl (fun _ _ h ↦ .inl h)
    (fun _ _ h ↦ .inl h) hinv.holder ?_ ?_
  · exact fun d hd ↦ setPc_callers_of_ne (fun h ↦ hd (congrArg some h.symm)) pc
  · rintro d ⟨⟩
    exact hcaller hext

theorem resume_inv (hinv : Inv requests s) : Inv requests (resume s c) := by
  have hok := hinv.callers c
  rw [resume]
  cases hpc : (s.callers c).pc with
  | yielding i chunks produced =>
    refine inv_move requests hinv (List.Subset.refl _) (List.Subset.refl _) _ fun hext ↦ ?_
    rw [CallerOk, hpc] at hok
    rw [CallerOk, setPc_callers_self]
    exact ⟨hok.1, hok.2.1, hok.2.2.1.extend hext,
      hok.2.2.2.extend hext (.inr (Option.some_ne_none c).symm)⟩
  | replaying guard rest =>
    rw [CallerOk, hpc] at hok
    exact hok.2.elim
  | _ => exact hinv

theorem close_inv (hinv : Inv requests s) : Inv requests (close s c) := by
  have hok := hinv.callers c
  rw [close]
  cases hpc : (s.callers c).pc with
  | yielding i chunks produced =>
    refine inv_move requests hinv (List.Subset.refl _) (List.Subset.refl _) _ fun hext ↦ ?_
    rw [CallerOk, hpc] at hok
    rw [CallerOk, setPc_callers_self]
    exact ⟨hok.1, hok.2.1, hok.2.2.1.extend hext, .inl rfl⟩
  | replaying guard rest =>
    rw [CallerOk, hpc] at hok
    exact hok.2.elim
  | _ => exact hinv

theorem fail_inv (hinv : Inv requests s) (error : E) : Inv requests (fail requests s c error) := by
  have hok := hinv.callers c
  rw [fail]
  cases hpc : (s.callers c).pc with
  | computing i chunks produced =>
    refine inv_move requests hinv (List.Subset.refl _) (List.subset_cons_self _ _) _ fun hext ↦ ?_
    rw [CallerOk, hpc] at hok
    rw [CallerOk, setPc_callers_self]
    exact ⟨hok.1, hok.2.1, hok.2.2.1.extend hext, .inr ⟨error, rfl, List.mem_cons_self⟩⟩
  | _ => exact hinv

theorem finish_inv (hinv : Inv requests s) : Inv requests (finish requests s c) := by
  have hok := hinv.callers c
  rw [finish]
  cases hpc : (s.callers c).pc with
  | computing i chunks produced =>
    cases hkind : (requests c).kind with
    | response => exact hinv
    | stream =>
      refine inv_move requests hinv (List.subset_cons_self _ _) (List.Subset.refl _) _
        fun hext ↦ ?_
      rw [CallerOk, hpc] at hok
      have hheld := hok.2.2.2.extend hext (.inr (Option.some_ne_none c).symm)
      rw [CallerOk, setPc_callers_self]
      refine ⟨hok.1, hok.2.1, hok.2.2.1.extend hext, ?_, ?_⟩
      · have hparts := hheld.content
        exact ⟨hheld.old, hheld.kept, hheld.made, rfl⟩
      · have hcontent : s.content ⟨.stream, chunks⟩ = ⟨.stream, produced⟩ :=
          congrArg (Stored.mk Kind.stream) hok.2.2.2.content
        exact hcontent ▸ List.mem_cons_self
  | _ => exact hinv

theorem respond_inv (hinv : Inv requests s) (value : V) :
    Inv requests (respond requests s c value) := by
  have hok := hinv.callers c
  rw [respond]
  cases hpc : (s.callers c).pc with
  | computing i chunks produced =>
    cases hkind : (requests c).kind with
    | stream => exact hinv
    | response =>
      rw [CallerOk, hpc] at hok
      have hfresh := held_fresh hinv.handed (some c) [value]
      have hext : Extends (some c) s
          ({ s.allocate (some c) [value] with
            computed := ((requests c).key, ⟨.response, [value]⟩) :: s.computed }.setPc c
              (.storing i ⟨.response, s.fresh [value]⟩)) := by
        have hlend := extends_lend s (some c) (some c) [value] [] (by simp)
        exact hlend.goOn rfl rfl rfl rfl (fun _ inflight h ↦ ⟨inflight, h, rfl⟩)
          (List.subset_cons_self _ _) (List.Subset.refl _)
      refine hinv.extend requests hext (fun object h ↦ (hinv.handed object h).trans_le hext.objects)
        (fun _ _ h ↦ .inl h) le_rfl (fun _ _ h ↦ .inl h) (fun _ _ h ↦ .inl h) hinv.holder ?_ ?_
      · exact fun d hd ↦ setPc_callers_of_ne (fun h ↦ hd (congrArg some h.symm)) _
      · rintro d ⟨⟩
        rw [CallerOk, setPc_callers_self]
        refine ⟨hok.1, hok.2.1, hok.2.2.1.extend hext, ?_, ?_⟩
        · exact ⟨hfresh.old, hfresh.kept, hfresh.made, rfl⟩
        · have hcontent : (s.allocate (some c) [value]).content ⟨.response, s.fresh [value]⟩ =
              ⟨.response, [value]⟩ := congrArg (Stored.mk Kind.response) hfresh.content
          exact hcontent ▸ List.mem_cons_self
  | _ => exact hinv

theorem produce_inv (hinv : Inv requests s) (chunk : V) :
    Inv requests (produce requests s c chunk) := by
  have hok := hinv.callers c
  rw [produce]
  cases hpc : (s.callers c).pc with
  | computing i chunks produced =>
    cases hkind : (requests c).kind with
    | response => exact hinv
    | stream =>
      rw [CallerOk, hpc] at hok
      have hfresh := held_fresh hinv.handed none [chunk, chunk]
      have hext : Extends (some c) s
          (((s.allocate none [chunk, chunk]).handOut [s.nextObject]).setPc c
            (.yielding i (chunks ++ [s.nextObject + 1]) (produced ++ [chunk]))) := by
        have hlend := extends_lend s (some c) none [chunk, chunk] [s.nextObject] (by simp)
        exact hlend.goOn rfl rfl rfl rfl (fun _ inflight h ↦ ⟨inflight, h, rfl⟩)
          (List.Subset.refl _) (List.Subset.refl _)
      have hhanded : ∀ object ∈ s.nextObject :: s.handed, object < s.nextObject + 2 := by
        intro object hobject
        rcases List.mem_cons.mp hobject with rfl | hold
        · omega
        · have hlt := hinv.handed object hold
          omega
      refine hinv.extend requests hext hhanded
        (fun _ _ h ↦ .inl h) le_rfl (fun _ _ h ↦ .inl h) (fun _ _ h ↦ .inl h) hinv.holder ?_ ?_
      · exact fun d hd ↦ setPc_callers_of_ne (fun h ↦ hd (congrArg some h.symm)) _
      · rintro d ⟨⟩
        rw [CallerOk, setPc_callers_self]
        refine ⟨hok.1, hok.2.1, hok.2.2.1.extend hext, ?_⟩
        have hheld := hok.2.2.2.extend hext (.inr (Option.some_ne_none c).symm)
        refine hheld.append ⟨?_, ?_, ?_, ?_⟩
        · exact List.forall_mem_singleton.mpr (Nat.lt_succ_self _)
        · refine List.forall_mem_singleton.mpr fun hmem ↦ ?_
          rcases List.mem_cons.mp hmem with heq | hold
          · omega
          · have hlt := hinv.handed _ hold
            omega
        · exact List.forall_mem_singleton.mpr (if_pos (Nat.le_succ _))
        · simp [State.setPc, State.setCaller, State.handOut, State.allocate]
  | _ => exact hinv

theorem settle_calls_self (i : ℕ) (result : Except (Fault E) (Stored ℕ)) :
    (settle s i result).calls i =
      (s.calls i).map fun inflight ↦ { inflight with settled := some result } :=
  Function.update_self _ _ _

theorem settle_calls_of_ne {i j : ℕ} (hne : j ≠ i) (result : Except (Fault E) (Stored ℕ)) :
    (settle s i result).calls j = s.calls j := Function.update_of_ne hne _ _

theorem settle_calls {i j : ℕ} {result : Except (Fault E) (Stored ℕ)}
    {inflight : InflightCall K E} (hcall : (settle s i result).calls j = some inflight) :
    s.calls j = some inflight ∨
      (j = i ∧ ∃ old, s.calls i = some old ∧ inflight = { old with settled := some result }) := by
  by_cases hj : j = i
  · subst hj
    rw [settle_calls_self] at hcall
    obtain ⟨old, hold, hinflight⟩ := Option.map_eq_some_iff.mp hcall
    exact .inr ⟨rfl, old, hold, hinflight.symm⟩
  · rw [settle_calls_of_ne hj] at hcall
    exact .inl hcall

theorem settle_keys (i : ℕ) (result : Except (Fault E) (Stored ℕ)) (j : ℕ)
    (inflight : InflightCall K E) (hcall : s.calls j = some inflight) :
    ∃ inflight', (settle s i result).calls j = some inflight' ∧ inflight'.key = inflight.key := by
  by_cases hj : j = i
  · subst hj
    refine ⟨{ inflight with settled := some result }, ?_, rfl⟩
    rw [settle_calls_self, hcall]
    rfl
  · exact ⟨inflight, (settle_calls_of_ne hj result).trans hcall, rfl⟩

theorem report_inv (hinv : Inv requests s) : Inv requests (report s c) := by
  have hok := hinv.callers c
  rw [report]
  cases hpc : (s.callers c).pc with
  | reporting i fault =>
    dsimp only
    rw [if_neg (not_not.mpr (hinv.holder _))]
    rw [CallerOk, hpc] at hok
    obtain ⟨hgot, hwait, ⟨call, hcall, hkey⟩, hfault⟩ := hok
    have hext : Extends (some c) s ((settle s i (.error fault)).setPc c (.raised fault)) :=
      (Extends.refl _ s).goOn rfl rfl rfl rfl (settle_keys i _) (List.Subset.refl _)
        (List.Subset.refl _)
    refine hinv.extend requests hext hinv.handed (fun _ _ h ↦ .inl h) le_rfl ?_
      (fun _ _ h ↦ .inl h) hinv.holder ?_ ?_
    · intro j inflight hinflight
      refine (settle_calls hinflight).imp_right ?_
      rintro ⟨rfl, old, hold, rfl⟩
      refine ⟨(hinv.calls j old hold).1, ?_⟩
      rintro result ⟨⟩
      have hsame : old = call := Option.some.inj (hold.symm.trans hcall)
      rw [hsame, hkey]
      exact hfault.imp_right fun h ↦ h.extend hext
    · exact fun d hd ↦ setPc_callers_of_ne (fun h ↦ hd (congrArg some h.symm)) _
    · rintro d ⟨⟩
      rw [CallerOk, setPc_callers_self]
      exact ⟨hgot, fun h ↦ absurd hwait h⟩
  | _ => exact hinv

/-- A copy of a computed value, in a state that has it and has not handed it out. -/
theorem kept_copied {s' : State K V E} {key : K} {value : Stored ℕ}
    (hcomputed : (key, s.content value) ∈ s'.computed)
    (hheap : s'.heap = (s.withCopy value).heap)
    (hnext : s'.nextObject = (s.withCopy value).nextObject)
    (hmaker : s'.maker = (s.withCopy value).maker)
    (hhanded : ∀ object ∈ s'.handed, object < s.nextObject) :
    Kept s' none key (s.copied value) := by
  have hparts : (s.copied value).parts.map s'.heap = (s.content value).parts := by
    rw [hheap]
    refine List.ext_getElem ?_ fun n hn hn' ↦ ?_
    · simp [State.copied, State.fresh]
    · simp [State.copied, State.fresh, State.withCopy, State.allocate, hn']
  have hcontent : s'.content (s.copied value) = s.content value :=
    congrArg (Stored.mk value.kind) hparts
  refine ⟨⟨?_, ?_, ?_, rfl⟩, hcontent ▸ hcomputed⟩
  · intro object hobject
    obtain ⟨n, hn, rfl⟩ := List.mem_range'.mp hobject
    rw [hnext]
    simp only [State.withCopy, State.allocate]
    omega
  · intro object hobject hmem
    obtain ⟨n, hn, rfl⟩ := List.mem_range'.mp hobject
    have hlt := hhanded _ hmem
    omega
  · intro object hobject
    obtain ⟨n, hn, rfl⟩ := List.mem_range'.mp hobject
    rw [hmaker]
    simp [State.withCopy, State.allocate]

theorem publish_inv (hinv : Inv requests s) : Inv requests (publish s c) := by
  have hok := hinv.callers c
  rw [publish]
  cases hpc : (s.callers c).pc with
  | publishing i value =>
    dsimp only
    rw [if_neg (not_not.mpr (hinv.holder _))]
    rw [CallerOk, hpc] at hok
    obtain ⟨hgot, hwait, ⟨call, hcall, hkey⟩, hkept⟩ := hok
    have hlend := extends_lend s (some c) none (s.content value).parts
      (if value.kind = .response then value.parts else []) (by
        intro object hobject
        split at hobject
        · rename_i hkind
          rw [if_pos hkind] at hkept
          exact .inr ⟨Option.some_ne_none c, hkept.held.made object hobject⟩
        · cases hobject)
    have hext : Extends (some c) s
        (((settle (s.withCopy value) i (.ok (s.copied value))).handOut
          (if value.kind = .response then value.parts else [])).setPc c
            (.returned (s.content value))) :=
      hlend.goOn rfl rfl rfl rfl (settle_keys (s := s.withCopy value) i _) (List.Subset.refl _)
        (List.Subset.refl _)
    have hhanded : ∀ object ∈ (if value.kind = .response then value.parts else []) ++ s.handed,
        object < s.nextObject := by
      intro object hobject
      rcases List.mem_append.mp hobject with hlent | hold
      · split at hlent
        · exact hkept.held.old object hlent
        · cases hlent
      · exact hinv.handed object hold
    refine hinv.extend requests hext (fun object h ↦ (hhanded object h).trans_le hext.objects)
      (fun _ _ h ↦ .inl h) le_rfl ?_ (fun _ _ h ↦ .inl h) hinv.holder ?_ ?_
    · intro j inflight hinflight
      refine (settle_calls (s := s.withCopy value) hinflight).imp_right ?_
      rintro ⟨rfl, old, hold, rfl⟩
      refine ⟨(hinv.calls j old hold).1, ?_⟩
      rintro result ⟨⟩
      have hsame : old = call := Option.some.inj (hold.symm.trans hcall)
      rw [hsame, hkey]
      exact kept_copied hkept.computed rfl rfl rfl hhanded
    · exact fun d hd ↦ setPc_callers_of_ne (fun h ↦ hd (congrArg some h.symm)) _
    · rintro d ⟨⟩
      rw [CallerOk, setPc_callers_self]
      exact ⟨hgot, fun h ↦ absurd hwait h⟩
  | _ => exact hinv

theorem wait_inv (hinv : Inv requests s) {i : ℕ} (hcall : CallFor s i (requests c).key) :
    Inv requests (s.setCaller c { s.callers c with pc := .waiting i, waitedOn := some i }) := by
  have hext : Extends (some c) s
      (s.setCaller c { s.callers c with pc := .waiting i, waitedOn := some i }) :=
    (Extends.refl _ s).goOn rfl rfl rfl rfl (fun _ inflight h ↦ ⟨inflight, h, rfl⟩)
      (List.Subset.refl _) (List.Subset.refl _)
  have hself : (s.setCaller c { s.callers c with pc := .waiting i, waitedOn := some i }).callers c =
      { s.callers c with pc := .waiting i, waitedOn := some i } := Function.update_self _ _ _
  refine hinv.extend requests hext hinv.handed (fun _ _ h ↦ .inl h) le_rfl (fun _ _ h ↦ .inl h)
    (fun _ _ h ↦ .inl h) hinv.holder ?_ ?_
  · exact fun d hd ↦ Function.update_of_ne (fun h ↦ hd (congrArg some h.symm)) _ _
  · rintro d ⟨⟩
    rw [CallerOk, hself]
    exact ⟨(hinv.callers c).1, hcall.extend hext⟩

/-- A kept value is served whole, unless it has to be replayed. -/
theorem serve_inv (hinv : Inv requests s) {guard : Guard} {value : Stored ℕ}
    (hkept : Kept s none (requests c).key value)
    (hitems : (requests c).kind = .stream → itemsOf keysOf (s.content value) = [])
    (hwaited : (s.callers c).waitedOn ≠ none → (requests c).kind = .stream →
      s.content value = ⟨.stream, []⟩) :
    Inv requests (serve requests keysOf s c guard value) := by
  have hgot := (hinv.callers c).1
  rw [serve]
  cases hkind : (requests c).kind with
  | response =>
    have hlend := extends_lend s (some c) none (s.content value).parts (s.copied value).parts (by
      intro object hobject
      obtain ⟨n, hn, rfl⟩ := List.mem_range'.mp hobject
      exact .inl (by omega))
    have hext : Extends (some c) s (((s.withCopy value).handOut (s.copied value).parts).setPc c
        (.returned (s.content value))) :=
      hlend.goOn rfl rfl rfl rfl (fun _ inflight h ↦ ⟨inflight, h, rfl⟩) (List.Subset.refl _)
        (List.Subset.refl _)
    refine hinv.extend requests hext ?_ (fun _ _ h ↦ .inl h) le_rfl (fun _ _ h ↦ .inl h)
      (fun _ _ h ↦ .inl h) hinv.holder ?_ ?_
    · intro object hobject
      rcases List.mem_append.mp hobject with hnew | hold
      · obtain ⟨n, hn, rfl⟩ := List.mem_range'.mp hnew
        change _ < s.nextObject + (s.content value).parts.length
        omega
      · exact (hinv.handed object hold).trans_le hext.objects
    · exact fun d hd ↦ setPc_callers_of_ne (fun h ↦ hd (congrArg some h.symm)) _
    · rintro d ⟨⟩
      rw [CallerOk, setPc_callers_self]
      exact ⟨hgot, fun _ ↦ hkept.computed⟩
  | stream =>
    dsimp only
    rw [hitems hkind, replay, hgot]
    have hext : Extends (some c) s ((s.setHolder guard none).setPc c (.returned ⟨.stream, []⟩)) :=
      (Extends.refl _ s).goOn rfl rfl rfl rfl (fun _ inflight h ↦ ⟨inflight, h, rfl⟩)
        (List.Subset.refl _) (List.Subset.refl _)
    refine hinv.extend requests hext hinv.handed (fun _ _ h ↦ .inl h) le_rfl
      (fun _ _ h ↦ .inl h) (fun _ _ h ↦ .inl h) ?_ ?_ ?_
    · intro other
      by_cases hother : other = guard
      · exact hother ▸ Function.update_self _ _ _
      · exact (Function.update_of_ne hother _ _).trans (hinv.holder other)
    · exact fun d hd ↦ setPc_callers_of_ne (fun h ↦ hd (congrArg some h.symm)) _
    · rintro d ⟨⟩
      rw [CallerOk, setPc_callers_self]
      refine ⟨hgot, fun hwait ↦ ?_⟩
      rw [← hwaited hwait hkind]
      exact hkept.computed

theorem write_inv (hinv : Inv requests s) (object : ℕ) (value : V) :
    Inv requests (write s object value) := by
  rw [write]
  split
  · rename_i hobject
    have hext : Extends none s { s with heap := Function.update s.heap object value } := by
      refine ⟨le_rfl, ?_, fun _ _ ↦ rfl, fun _ _ h _ ↦ h, fun _ inflight h ↦ ⟨inflight, h, rfl⟩,
        List.Subset.refl _, List.Subset.refl _⟩
      intro other _ hkept
      refine Function.update_of_ne ?_ _ _
      rintro rfl
      exact hkept hobject
    exact hinv.extend requests hext hinv.handed (fun _ _ h ↦ .inl h) le_rfl (fun _ _ h ↦ .inl h)
      (fun _ _ h ↦ .inl h) hinv.holder (fun _ _ ↦ rfl) (fun _ h ↦ absurd h (Option.some_ne_none _).symm)
  · exact hinv

theorem clear_inv (hinv : Inv requests s) : Inv requests (clear s) := by
  rw [clear, if_neg (not_not.mpr (hinv.holder _))]
  have hext : Extends none s { s with entries := [], inflight := fun _ ↦ none } :=
    (Extends.refl _ s).goOn rfl rfl rfl rfl (fun _ inflight h ↦ ⟨inflight, h, rfl⟩)
      (List.Subset.refl _) (List.Subset.refl _)
  refine hinv.extend requests hext hinv.handed ?_ le_rfl (fun _ _ h ↦ .inl h) ?_ hinv.holder
    (fun _ _ ↦ rfl) (fun _ h ↦ absurd h (Option.some_ne_none _).symm)
  · exact fun _ _ h ↦ absurd h List.not_mem_nil
  · exact fun _ _ h ↦ absurd h (Option.some_ne_none _).symm

end Steps

section Entries

variable [DecidableEq K]

theorem mem_evict {maxEntries turns : ℕ} {entries : List (K × CacheEntry)}
    {entry : K × CacheEntry} (hentry : entry ∈ evict maxEntries turns entries) :
    entry ∈ entries := by
  induction turns generalizing entries with
  | zero => exact hentry
  | succ turns ih =>
    rw [evict] at hentry
    split at hentry
    · split at hentry
      · exact List.mem_of_mem_filter (ih hentry)
      · exact hentry
    · exact hentry

theorem mem_prune {now : ℚ} {maxEntries : ℕ} {entries : List (K × CacheEntry)}
    {entry : K × CacheEntry} (hentry : entry ∈ prune now maxEntries entries) : entry ∈ entries :=
  List.mem_of_mem_filter (mem_evict hentry)

theorem unlisted {inflight : K → Option ℕ} {key other : K} {i : ℕ}
    (h : Function.update inflight key none other = some i) : inflight other = some i := by
  by_cases hother : other = key
  · rw [hother, Function.update_self] at h
    cases h
  · rwa [Function.update_of_ne hother] at h

theorem mem_setEntry {key : K} {new : CacheEntry} {entries : List (K × CacheEntry)}
    {entry : K × CacheEntry} (hentry : entry ∈ setEntry key new entries) :
    entry = (key, new) ∨ entry ∈ entries := by
  rw [setEntry] at hentry
  split at hentry
  · obtain ⟨old, hold, heq⟩ := List.mem_map.mp hentry
    split at heq
    · exact .inl heq.symm
    · exact .inr (heq ▸ hold)
  · rcases List.mem_append.mp hentry with hold | hnew
    · exact .inr hold
    · exact .inl (List.mem_singleton.mp hnew)

end Entries

section Steps

variable [DecidableEq K] {s : State K V E} {c : ℕ}

theorem unlist_inv (hinv : Inv requests s) : Inv requests (unlist requests s c) := by
  have hok := hinv.callers c
  rw [unlist]
  cases hpc : (s.callers c).pc with
  | failing i fault =>
    dsimp only
    rw [if_neg (not_not.mpr (hinv.holder _))]
    rw [CallerOk, hpc] at hok
    have hext : Extends (some c) s
        ({ s with inflight := Function.update s.inflight (requests c).key none }.setPc c
          (.reporting i fault)) :=
      (Extends.refl _ s).goOn rfl rfl rfl rfl (fun _ inflight h ↦ ⟨inflight, h, rfl⟩)
        (List.Subset.refl _) (List.Subset.refl _)
    refine hinv.extend requests hext hinv.handed (fun _ _ h ↦ .inl h) le_rfl
      (fun _ _ h ↦ .inl h) ?_ hinv.holder ?_ ?_
    · exact fun _ _ h ↦ .inl (unlisted h)
    · exact fun d hd ↦ setPc_callers_of_ne (fun h ↦ hd (congrArg some h.symm)) _
    · rintro d ⟨⟩
      rw [CallerOk, setPc_callers_self]
      exact ⟨hok.1, hok.2.1, hok.2.2.1.extend hext, hok.2.2.2.imp_right fun h ↦ h.extend hext⟩
  | _ => exact hinv

theorem store_inv (hinv : Inv requests s) (computedAt now : ℚ) :
    Inv requests (store requests s c computedAt now) := by
  have hok := hinv.callers c
  rw [store]
  cases hpc : (s.callers c).pc with
  | storing i value =>
    dsimp only
    rw [if_neg (not_not.mpr (hinv.holder _))]
    rw [CallerOk, hpc] at hok
    obtain ⟨hgot, hwait, hcall, hkept⟩ := hok
    generalize hentries : prune now (requests c).settings.maxEntries (setEntry (requests c).key
      ⟨computedAt + (requests c).settings.ttlSeconds, s.copied value⟩ s.entries) = entries
    have hall : ∀ e, Extends e s
        ({ s.withCopy value with
          entries := entries
          inflight := Function.update s.inflight (requests c).key none }.setPc c
            (.publishing i value)) := fun e ↦
      (extends_lend s e none (s.content value).parts [] (by simp)).goOn rfl rfl rfl rfl
        (fun _ inflight h ↦ ⟨inflight, h, rfl⟩) (List.Subset.refl _) (List.Subset.refl _)
    have hext := hall (some c)
    refine hinv.extend requests hext (fun object h ↦ (hinv.handed object h).trans_le hext.objects)
      ?_ le_rfl (fun _ _ h ↦ .inl h) (fun _ _ h ↦ .inl (unlisted h)) hinv.holder ?_ ?_
    · intro key entry hentry
      have hmem : (key, entry) ∈ entries := hentry
      rw [← hentries] at hmem
      rcases mem_setEntry (mem_prune hmem) with hnew | hold
      · cases hnew
        exact .inr (kept_copied hkept.computed rfl rfl rfl hinv.handed)
      · exact .inl hold
    · exact fun d hd ↦ setPc_callers_of_ne (fun h ↦ hd (congrArg some h.symm)) _
    · rintro d ⟨⟩
      rw [CallerOk, setPc_callers_self]
      exact ⟨hgot, hwait, hcall.extend hext, hkept.extend (hall none) (.inl rfl)⟩
  | _ => exact hinv

theorem liveEntry_mem {now : ℚ} {entry : CacheEntry}
    (hlive : liveEntry requests s c now = some entry) :
    ((requests c).key, entry) ∈ prune now (requests c).settings.maxEntries s.entries := by
  obtain ⟨hlookup, -⟩ := Option.filter_eq_some_iff.mp hlive
  obtain ⟨before, after, hentries, -⟩ := List.lookup_eq_some_iff.mp hlookup
  rw [hentries]
  exact List.mem_append_right _ List.mem_cons_self

theorem pruned_inv (hinv : Inv requests s) (now : ℚ) (maxEntries : ℕ) :
    Inv requests { s with entries := prune now maxEntries s.entries } := by
  have hext : Extends none s { s with entries := prune now maxEntries s.entries } :=
    (Extends.refl _ s).goOn rfl rfl rfl rfl (fun _ inflight h ↦ ⟨inflight, h, rfl⟩)
      (List.Subset.refl _) (List.Subset.refl _)
  exact hinv.extend requests hext hinv.handed (fun _ _ h ↦ .inl (mem_prune h)) le_rfl
    (fun _ _ h ↦ .inl h) (fun _ _ h ↦ .inl h) hinv.holder (fun _ _ ↦ rfl)
    (fun _ h ↦ absurd h (Option.some_ne_none _).symm)

theorem own_inv (hinv : Inv requests s) (hwait : (s.callers c).waitedOn = none) :
    Inv requests (own requests s c) := by
  have hnew : s.calls s.nextCall = none := by
    by_contra h
    obtain ⟨inflight, hcall⟩ := Option.ne_none_iff_exists'.mp h
    exact lt_irrefl _ (hinv.calls _ inflight hcall).1
  have hcall : (own requests s c).calls s.nextCall = some ⟨(requests c).key, none⟩ :=
    Function.update_self _ _ _
  have hext : Extends (some c) s (own requests s c) := by
    refine (Extends.refl _ s).goOn rfl rfl rfl rfl ?_ (List.Subset.refl _) (List.Subset.refl _)
    intro i inflight h
    have hi : i ≠ s.nextCall := by
      rintro rfl
      exact absurd h (by simp [hnew])
    exact ⟨inflight, (Function.update_of_ne hi _ _).trans h, rfl⟩
  refine hinv.extend requests hext hinv.handed (fun _ _ h ↦ .inl h) (Nat.le_succ _) ?_ ?_
    hinv.holder ?_ ?_
  · intro i inflight h
    by_cases hi : i = s.nextCall
    · rw [hi, hcall] at h
      cases h
      refine .inr ⟨hi ▸ Nat.lt_succ_self _, fun _ h ↦ ?_⟩
      cases h
    · exact .inl ((Function.update_of_ne hi _ _).symm.trans h)
  · intro key i h
    have hinflight : (own requests s c).inflight = if (requests c).settings.dedupeInflight then
        Function.update s.inflight (requests c).key (some s.nextCall) else s.inflight := rfl
    rw [hinflight] at h
    split at h
    · by_cases hkey : key = (requests c).key
      · rw [hkey, Function.update_self] at h
        cases h
        exact .inr ⟨_, hcall, hkey.symm⟩
      · exact .inl ((Function.update_of_ne hkey _ _).symm.trans h)
    · exact .inl h
  · exact fun d hd ↦ setPc_callers_of_ne (fun h ↦ hd (congrArg some h.symm)) _
  · rintro d ⟨⟩
    rw [own, CallerOk, setPc_callers_self]
    refine ⟨(hinv.callers c).1, hwait, ⟨_, hcall, rfl⟩, ⟨?_, ?_, ?_, rfl⟩⟩ <;> simp

/-- No caller of a stream is about to replay a value, and no caller to learn that the owner of the
call it waits on was closed. -/
def Meets (s : State K V E) : Action V E → Prop
  | .call c now =>
    ∀ entry, liveEntry requests s c now = some entry → (requests c).kind = .stream →
      (s.callers c).pc = .idle → bypasses (requests c) = false →
      itemsOf keysOf (s.content entry.value) = []
  | .wake c =>
    ∀ i inflight, (s.callers c).pc = .waiting i → s.calls i = some inflight →
      inflight.settled ≠ some (.error .generatorExit) ∧
        ∀ value, inflight.settled = some (.ok value) → (requests c).kind = .stream →
          s.content value = ⟨.stream, []⟩
  | _ => True

theorem call_inv (hinv : Inv requests s) {now : ℚ} (hmeets : Meets requests keysOf s (.call c now)) :
    Inv requests (call requests keysOf s c now) := by
  have hok := hinv.callers c
  rw [call]
  cases hpc : (s.callers c).pc with
  | idle =>
    rw [CallerOk, hpc] at hok
    dsimp only
    split
    · refine inv_move requests hinv (List.Subset.refl _) (List.Subset.refl _) _ fun hext ↦ ?_
      rw [CallerOk, setPc_callers_self]
      exact hok
    · rename_i hbypass
      rw [if_neg (not_not.mpr (hinv.holder _))]
      have hpruned := pruned_inv requests hinv now (requests c).settings.maxEntries
      cases hlive : liveEntry requests s c now with
      | some entry =>
        have hkept := hpruned.entries _ _ (liveEntry_mem requests hlive)
        refine serve_inv requests keysOf hpruned hkept ?_ (fun hwait ↦ absurd hok.2 hwait)
        exact fun hkind ↦ hmeets entry hlive hkind hpc (Bool.eq_false_of_not_eq_true hbypass)
      | none =>
        dsimp only
        split
        · rename_i i hi
          have hcall : CallFor s i (requests c).key := by
            split at hi
            · exact hinv.inflight _ i hi
            · cases hi
          exact wait_inv requests hpruned hcall
        · exact own_inv requests hpruned hok.2
  | _ => exact hinv

theorem wake_inv (hinv : Inv requests s) (hmeets : Meets requests keysOf s (.wake c)) :
    Inv requests (wake requests keysOf s c) := by
  have hok := hinv.callers c
  rw [wake]
  cases hpc : (s.callers c).pc with
  | waiting i =>
    dsimp only
    rw [if_neg (not_not.mpr (hinv.holder _))]
    rw [CallerOk, hpc] at hok
    obtain ⟨hgot, inflight, hcall, hkey⟩ := hok
    obtain ⟨hclosed, hstream⟩ := hmeets i inflight hpc hcall
    have hcallOk := (hinv.calls i inflight hcall).2
    rw [hcall, Option.bind_some]
    cases hsettled : inflight.settled with
    | none => exact hinv
    | some result =>
      have hresult := hcallOk result hsettled
      cases result with
      | error fault =>
        refine inv_move requests hinv (List.Subset.refl _) (List.Subset.refl _) _ fun hext ↦ ?_
        rw [CallerOk, setPc_callers_self]
        refine ⟨hgot, fun _ ↦ ?_⟩
        rcases hresult with hexit | hraised
        · exact absurd (hexit ▸ hsettled) hclosed
        · exact hkey ▸ hraised.extend hext
      | ok value =>
        refine serve_inv requests keysOf hinv (hkey ▸ hresult) ?_ fun _ ↦ hstream value hsettled
        intro hkind
        rw [hstream value hsettled hkind]
        rfl
  | _ => exact hinv

theorem step_inv (hinv : Inv requests s) (action : Action V E)
    (hmeets : Meets requests keysOf s action) : Inv requests (step requests keysOf s action) := by
  cases action with
  | call c now => exact call_inv requests keysOf hinv hmeets
  | respond c value => exact respond_inv requests hinv value
  | produce c chunk => exact produce_inv requests hinv chunk
  | resume c => exact resume_inv requests hinv
  | close c => exact close_inv requests hinv
  | finish c => exact finish_inv requests hinv
  | fail c error => exact fail_inv requests hinv error
  | unlist c => exact unlist_inv requests hinv
  | report c => exact report_inv requests hinv
  | store c computedAt now => exact store_inv requests hinv computedAt now
  | publish c => exact publish_inv requests hinv
  | wake c => exact wake_inv requests keysOf hinv hmeets
  | write object value => exact write_inv requests hinv object value
  | clear => exact clear_inv requests hinv

omit [DecidableEq K] in
theorem initial_inv (heap : ℕ → V) : Inv requests (initial heap : State K V E) where
  handed _ h := absurd h List.not_mem_nil
  entries _ _ h := absurd h List.not_mem_nil
  calls _ _ h := absurd h (Option.some_ne_none _).symm
  inflight _ _ h := absurd h (Option.some_ne_none _).symm
  holder _ := rfl
  callers _ := ⟨rfl, rfl⟩

end Steps

section Safe

def Suspended : Pc V E → Bool
  | .yielding _ _ _ => true
  | .replaying _ _ => true
  | _ => false

/-- What the cache keeps: the values of its entries and of the calls that are done. -/
def Cached (s : State K V E) (value : Stored ℕ) : Prop :=
  (∃ key entry, (key, entry) ∈ s.entries ∧ entry.value = value) ∨
    ∃ i inflight, s.calls i = some inflight ∧ inflight.settled = some (.ok value)

/-- No caller is suspended with a guard in its hands, a caller that waited ends with a value or an
error of a compute for its key, and no consumer can change what is cached. -/
structure Safe (s : State K V E) : Prop where
  guards : ∀ c, Suspended (s.callers c).pc = true → ∀ guard, s.holder guard ≠ some c
  values : ∀ c value, (s.callers c).waitedOn ≠ none → (s.callers c).pc = .returned value →
    ((requests c).key, value) ∈ s.computed
  errors : ∀ c fault, (s.callers c).waitedOn ≠ none → (s.callers c).pc = .raised fault →
    ∃ error, fault = .raised error ∧ ((requests c).key, error) ∈ s.failures
  unaltered : ∀ object content value, Cached s value →
    (write s object content).content value = s.content value

theorem Inv.safe {s : State K V E} (hinv : Inv requests s) : Safe requests s where
  guards c _ guard := by
    rw [hinv.holder guard]
    exact (Option.some_ne_none c).symm
  values c value hwait hpc := by
    have hok := (hinv.callers c).2
    rw [hpc] at hok
    exact hok hwait
  errors c fault hwait hpc := by
    have hok := (hinv.callers c).2
    rw [hpc] at hok
    exact hok hwait
  unaltered object content value hcached := by
    have hheld : Held s none value.parts (s.content value).parts := by
      rcases hcached with ⟨key, entry, hentry, rfl⟩ | ⟨i, inflight, hcall, hsettled⟩
      · exact (hinv.entries key entry hentry).held
      · exact ((hinv.calls i inflight hcall).2 _ hsettled).held
    rw [write]
    split
    · rename_i hobject
      refine congrArg (Stored.mk value.kind) (List.map_congr_left fun other hother ↦ ?_)
      refine Function.update_of_ne ?_ _ _
      rintro rfl
      exact hheld.kept other hother hobject
    · rfl

variable [DecidableEq K]

/-- In every run without such steps the cache is safe all along. -/
theorem cache_safe (heap : ℕ → V) (trace first rest : List (Action V E))
    (htrace : Along (step requests keysOf) (Meets requests keysOf) (initial heap) trace)
    (hsplit : trace = first ++ rest) :
    Safe requests (run (step requests keysOf) (initial heap : State K V E) first) := by
  rw [hsplit, along_append] at htrace
  have hinv := htrace.1.invariant (Inv requests)
    (fun s action hs hmeets ↦ step_inv requests keysOf hs action hmeets)
    (initial_inv requests heap)
  exact hinv.safe requests

/-- Two callers of one stream. -/
def twins : ℕ → Request ℕ := fun _ ↦ ⟨.stream, 0, ⟨true, true, true, 60, 10⟩⟩

def served (trace : List (Action ℕ ℕ)) : State ℕ ℕ ℕ :=
  run (step twins fun _ ↦ []) (initial fun _ ↦ 0) trace

/-- The second caller finds the entry of the first and is suspended within the lock. -/
def entryHit : List (Action ℕ ℕ) :=
  [.call 0 0, .produce 0 7, .resume 0, .finish 0, .store 0 1 1, .publish 0, .call 1 2]

/-- The first caller's client goes away while the second one waits. -/
def ownerGone : List (Action ℕ ℕ) :=
  [.call 0 0, .produce 0 7, .call 1 1, .close 0, .unlist 0, .report 0, .wake 1]

theorem not_always_safe : ¬ Safe twins (served entryHit) ∧ ¬ Safe twins (served ownerGone) := by
  constructor
  · intro hsafe
    have hsuspended : Suspended ((served entryHit).callers 1).pc = true := by decide +kernel
    exact hsafe.guards 1 hsuspended .lock (by decide +kernel)
  · intro hsafe
    obtain ⟨error, hfault, -⟩ := hsafe.errors 1 .generatorExit (by decide +kernel) rfl
    cases hfault

/-- A caller of a response that waits for the value of another. -/
def answered : List (Action ℕ ℕ) :=
  [.call 0 0, .call 1 0, .respond 0 7, .store 0 1 1, .publish 0, .wake 1]

theorem answered_safe :
    Safe (fun _ ↦ (⟨.response, 0, ⟨true, true, true, 60, 10⟩⟩ : Request ℕ))
      (run (step (fun _ ↦ ⟨.response, 0, ⟨true, true, true, 60, 10⟩⟩) fun _ ↦ [])
        (initial fun _ ↦ 0 : State ℕ ℕ ℕ) answered) := by
  refine cache_safe _ _ _ answered _ [] ?_ rfl
  refine ⟨?_, ?_, trivial, trivial, trivial, ?_, trivial⟩
  · intro entry _ hkind
    cases hkind
  · intro entry _ hkind
    cases hkind
  · intro i inflight hpc hcall
    cases hpc
    cases hcall
    exact ⟨fun h ↦ (by cases h), fun _ _ hkind ↦ (by cases hkind)⟩

end Safe

end AllAiTools.ChatGpt2Api.Protocol.CompletionCache
