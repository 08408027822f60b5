import AllAiTools.NewApi.Relay.ModelMapped

namespace AllAiTools.NewApi.Relay.MappingIndependent

open Foundation.Chase Common.Str ModelMapped

section Loop

variable {modelMap : ModelMap} {originModelName : String}

/-- The loop over a mapping chases its redirections. -/
theorem follow_spec {fuel : ℕ} {a : String} {visited : List String} {mapped : Bool}
    (ha : a ∈ visited) (hmapped : mapped = true → a ≠ "") :
    match chase (redirect modelMap) fuel a visited with
    | none => follow modelMap originModelName fuel a visited mapped = none
    | some (.error _) => follow modelMap originModelName fuel a visited mapped = some .cycle
    | some (.ok b) =>
      (b = originModelName ∧
        follow modelMap originModelName fuel a visited mapped = some .unmapped) ∨
      ∃ m, follow modelMap originModelName fuel a visited mapped = some (.done b m) ∧
        (m = true → b ≠ "") ∧ (m = false → mapped = false ∧ b = a) := by
  induction fuel generalizing a visited mapped with
  | zero => rfl
  | succ fuel ih =>
    rw [chase, follow]
    cases hlookup : modelMap.lookup a with
    | none =>
      have hnone : redirect modelMap a = none := by simp [redirect, hlookup]
      simp only [hnone]
      exact .inr ⟨mapped, rfl, hmapped, fun hm ↦ ⟨hm, trivial⟩⟩
    | some b =>
      by_cases hempty : b = ""
      · have hnone : redirect modelMap a = none := by simp [redirect, hlookup, hempty]
        simp only [hnone, hempty, ↓reduceIte]
        exact .inr ⟨mapped, rfl, hmapped, fun hm ↦ ⟨hm, trivial⟩⟩
      · by_cases hself : b = a
        · have hnone : redirect modelMap a = none := by simp [redirect, hlookup, hself]
          have ha' : a ≠ "" := hself ▸ hempty
          simp only [hnone, hself, ha', ha, ↓reduceIte]
          by_cases horigin : a = originModelName
          · exact .inl ⟨horigin, if_pos horigin⟩
          · exact .inr ⟨true, if_neg horigin, fun _ ↦ ha', by simp⟩
        · have hsome : redirect modelMap a = some b :=
            redirect_eq_some.mpr ⟨hlookup, hempty, hself⟩
          simp only [hsome, hempty, hself, ↓reduceIte]
          by_cases hvisited : b ∈ visited
          · simp [hvisited]
          · simp only [hvisited, ↓reduceIte]
            have hrest := @ih b (b :: visited) true List.mem_cons_self (fun _ ↦ hempty)
            cases hchase : chase (redirect modelMap) fuel b (b :: visited) with
            | none => simpa only [hchase] using hrest
            | some r =>
              cases r with
              | error e => simpa only [hchase] using hrest
              | ok c =>
                simp only [hchase] at hrest ⊢
                refine hrest.imp_right fun h ↦ ?_
                obtain ⟨m, hm, hnonempty, hfalse⟩ := h
                exact ⟨m, hm, hnonempty, fun hm ↦ absurd (hfalse hm).1 (by simp)⟩

end Loop

section Names

theorem hasSuffix_iff {s suf : String} : hasSuffix s suf = true ↔ suf.toList <:+ s.toList := by
  simp [hasSuffix]

theorem hasSuffix_withCompactModelSuffix (s : String) :
    hasSuffix (withCompactModelSuffix s) compactModelSuffix = true := by
  rw [withCompactModelSuffix]
  by_cases h : hasSuffix s compactModelSuffix
  · rwa [if_pos h]
  · rw [if_neg h, hasSuffix_iff, String.toList_append]
    exact List.suffix_append s.toList compactModelSuffix.toList

theorem withCompactModelSuffix_of_hasSuffix {s : String}
    (h : hasSuffix s compactModelSuffix = true) : withCompactModelSuffix s = s := by
  rw [withCompactModelSuffix, if_pos h]

/-- The compact endpoint has its suffix on the name a request goes by. -/
def Named (info : RelayInfo) : Prop :=
  info.responsesCompact = true → hasSuffix info.originModelName compactModelSuffix = true

theorem genRelayInfo_named (responsesCompact : Bool) (model : String) :
    Named (genRelayInfo responsesCompact model) := by
  intro h
  simp only [genRelayInfo] at h ⊢
  rw [if_pos h]
  exact hasSuffix_withCompactModelSuffix model

/-- The name a request is billed under when it goes to an upstream model. -/
def billedName (info : RelayInfo) (upstream : String) : String :=
  if info.responsesCompact then withCompactModelSuffix upstream else info.originModelName

end Names

section Attempt

variable (info : RelayInfo) (modelMap : ModelMap)

/-- What an attempt leaves that went to an upstream model. -/
def served (upstream : String) (mapped : Bool) : RelayInfo :=
  { info with
    originModelName := billedName info upstream
    upstreamModelName := upstream
    isModelMapped := mapped
    requestModel := upstream }

def attempt : Option (Except String RelayInfo) :=
  modelMappedHelper (some modelMap) (initChannelMeta info)

variable {info modelMap}

theorem attempt_eq : attempt info modelMap =
    (follow modelMap info.originModelName (modelMap.length + 1) (mappingModelName info)
      [mappingModelName info] false).map fun
      | .cycle => .error "model_mapping_contains_cycle"
      | .unmapped => .ok (initChannelMeta info)
      | .done currentModel true =>
        .ok (setModelNames { initChannelMeta info with
          isModelMapped := true, upstreamModelName := currentModel })
      | .done _ false => .ok (setModelNames (initChannelMeta info)) := rfl

theorem chase_redirect (a : String) :
    (Cycles (redirect modelMap) a ∧
        chase (redirect modelMap) (modelMap.length + 1) a [a] = some (.error ())) ∨
      ∃ b, Ends (redirect modelMap) a b ∧
        chase (redirect modelMap) (modelMap.length + 1) a [a] = some (.ok b) :=
  @chase_spec _ _ _ (modelMap.map Prod.snd) redirect_mem (modelMap.length + 1) (by simp) a

theorem attempt_cycles (h : Cycles (redirect modelMap) (mappingModelName info)) :
    attempt info modelMap = some (.error "model_mapping_contains_cycle") := by
  have hfollow := @follow_spec modelMap info.originModelName (modelMap.length + 1)
    (mappingModelName info) [mappingModelName info] false (List.mem_singleton.mpr rfl) (by simp)
  rcases @chase_redirect modelMap (mappingModelName info) with ⟨-, hchase⟩ | ⟨b, hends, -⟩
  · rw [hchase] at hfollow
    rw [attempt_eq, hfollow]
    rfl
  · exact absurd h hends.not_cycles

theorem setModelNames_mapped {e : String} (he : e ≠ "") :
    setModelNames { initChannelMeta info with isModelMapped := true, upstreamModelName := e } =
      served info e true := by
  cases hcompact : info.responsesCompact <;>
    simp [setModelNames, served, billedName, initChannelMeta, hcompact, he]

theorem setModelNames_unmapped (hnamed : Named info) :
    setModelNames (initChannelMeta info) = served info (mappingModelName info) false := by
  cases hcompact : info.responsesCompact with
  | false =>
    simp [setModelNames, served, billedName, initChannelMeta, mappingModelName, hcompact]
  | true =>
    have hsuffix := hnamed hcompact
    simp [setModelNames, served, billedName, initChannelMeta, mappingModelName, hcompact, hsuffix]

theorem initChannelMeta_served (hnamed : Named info) :
    initChannelMeta info = served info info.originModelName false := by
  cases hcompact : info.responsesCompact with
  | false => simp [served, billedName, initChannelMeta, hcompact]
  | true =>
    have hname := withCompactModelSuffix_of_hasSuffix (hnamed hcompact)
    simp [served, billedName, initChannelMeta, hcompact, hname]

theorem attempt_ends (hnamed : Named info) {e : String}
    (h : Ends (redirect modelMap) (mappingModelName info) e) :
    ∃ mapped, attempt info modelMap = some (.ok (served info e mapped)) := by
  have hfollow := @follow_spec modelMap info.originModelName (modelMap.length + 1)
    (mappingModelName info) [mappingModelName info] false (List.mem_singleton.mpr rfl) (by simp)
  rcases @chase_redirect modelMap (mappingModelName info) with ⟨hcycles, -⟩ | ⟨b, hends, hchase⟩
  · exact absurd hcycles h.not_cycles
  · rw [hchase, hends.unique h] at hfollow
    rw [attempt_eq]
    rcases hfollow with ⟨horigin, hfollow⟩ | ⟨m, hfollow, hm, hkept⟩
    · refine ⟨false, ?_⟩
      rw [hfollow, horigin]
      exact congrArg _ (congrArg _ (initChannelMeta_served hnamed))
    · refine ⟨m, ?_⟩
      rw [hfollow]
      cases m with
      | false =>
        rw [(hkept rfl).2]
        exact congrArg _ (congrArg _ (setModelNames_unmapped hnamed))
      | true => exact congrArg _ (congrArg _ (setModelNames_mapped (hm rfl)))

end Attempt

section Retries

/-- What an attempt does with the map of its channel when it depends on the client's request
alone. -/
def Serves (requested : RelayInfo) (modelMap : ModelMap) :
    Option (Except String RelayInfo) → Prop
  | none => False
  | some (.error _) => Cycles (redirect modelMap) (mappingModelName requested)
  | some (.ok info) =>
    Ends (redirect modelMap) (mappingModelName requested) info.upstreamModelName ∧
      info.requestModel = info.upstreamModelName ∧
      info.originModelName = billedName requested info.upstreamModelName

/-- Every attempt does, whatever channels were tried before it. -/
def Independent (requested info : RelayInfo) (modelMaps : List ModelMap) : Prop :=
  ∀ p ∈ modelMaps.zip (attempts info modelMaps), Serves requested p.1 p.2

/-- The name the compact endpoint maps after an attempt that went to an upstream model. -/
def retriedName (upstream : String) : String :=
  trimSuffix (withCompactModelSuffix upstream) compactModelSuffix

/-- Each map sends the name it is given where it sends the requested one: a name that its first
attempt is given, and then what the attempt before has left. -/
def Agrees (requested : String) : String → List ModelMap → Prop
  | _, [] => True
  | name, modelMap :: modelMaps =>
    (∀ e, Ends (redirect modelMap) name e ↔ Ends (redirect modelMap) requested e) ∧
      ∀ e, Ends (redirect modelMap) requested e → Agrees requested (retriedName e) modelMaps

variable {requested info : RelayInfo}

theorem serves_iff (hnamed : Named info) (modelMap : ModelMap)
    (hbilled : ∀ e, billedName info e = billedName requested e) :
    Serves requested modelMap (attempt info modelMap) ↔
      ∀ e, Ends (redirect modelMap) (mappingModelName info) e ↔
        Ends (redirect modelMap) (mappingModelName requested) e := by
  rcases @chase_redirect modelMap (mappingModelName info) with ⟨hcycles, -⟩ | ⟨b, hends, -⟩
  · rw [attempt_cycles hcycles]
    constructor
    · intro hserves e
      exact ⟨fun h ↦ absurd hcycles h.not_cycles, fun h ↦ absurd hserves h.not_cycles⟩
    · intro hsame
      rcases @chase_redirect modelMap (mappingModelName requested) with ⟨h, -⟩ | ⟨e, he, -⟩
      · exact h
      · exact absurd hcycles ((hsame e).mpr he).not_cycles
  · obtain ⟨mapped, hattempt⟩ := attempt_ends hnamed hends
    rw [hattempt]
    constructor
    · intro hserves e
      have hb : Ends (redirect modelMap) (mappingModelName requested) b := hserves.1
      constructor
      · intro he
        rwa [he.unique hends]
      · intro he
        rwa [he.unique hb]
    · intro hsame
      exact ⟨(hsame b).mp hends, rfl, hbilled b⟩

theorem independent_cons (modelMap : ModelMap) (modelMaps : List ModelMap) :
    Independent requested info (modelMap :: modelMaps) ↔
      Serves requested modelMap (attempt info modelMap) ∧
        ∀ info', attempt info modelMap = some (.ok info') →
          Independent requested info' modelMaps := by
  rw [Independent, attempts]
  cases hattempt : attempt info modelMap with
  | none => simp [show modelMappedHelper _ _ = none from hattempt]
  | some r =>
    cases r with
    | error e => simp [show modelMappedHelper _ _ = some (.error e) from hattempt]
    | ok info' =>
      simp [show modelMappedHelper _ _ = some (.ok info') from hattempt, Independent]

theorem served_named (e : String) (mapped : Bool) : Named (served info e mapped) := by
  intro hcompact
  have hinfo : info.responsesCompact = true := hcompact
  simp only [served, billedName, hinfo, ↓reduceIte]
  exact hasSuffix_withCompactModelSuffix e

/-- An attempt that leaves the info with the name it was given is followed by others like it. -/
theorem independent_step (hnamed : Named info) {modelMap : ModelMap} {modelMaps : List ModelMap}
    (hbilled : ∀ e, billedName info e = billedName requested e) {P : String → Prop}
    (hrest : ∀ e mapped, Independent requested (served info e mapped) modelMaps ↔ P e) :
    Independent requested info (modelMap :: modelMaps) ↔
      (∀ e, Ends (redirect modelMap) (mappingModelName info) e ↔
        Ends (redirect modelMap) (mappingModelName requested) e) ∧
      ∀ e, Ends (redirect modelMap) (mappingModelName requested) e → P e := by
  rw [independent_cons, serves_iff hnamed modelMap hbilled]
  apply and_congr_right
  intro hsame
  constructor
  · intro h e he
    obtain ⟨mapped, hattempt⟩ := attempt_ends hnamed ((hsame e).mpr he)
    exact (hrest e mapped).mp (h _ hattempt)
  · intro h info' hattempt
    rcases @chase_redirect modelMap (mappingModelName info) with ⟨hcycles, -⟩ | ⟨b, hends, -⟩
    · rw [attempt_cycles hcycles] at hattempt
      cases hattempt
    · obtain ⟨mapped, hserved⟩ := attempt_ends hnamed hends
      rw [hserved] at hattempt
      cases hattempt
      exact (hrest b mapped).mpr (h b ((hsame b).mp hends))

theorem independent_iff_agrees (hnamed : Named info) (hcompact : info.responsesCompact = true)
    (hrequested : requested.responsesCompact = true) (modelMaps : List ModelMap) :
    Independent requested info modelMaps ↔
      Agrees (mappingModelName requested) (mappingModelName info) modelMaps := by
  induction modelMaps generalizing info with
  | nil => simp [Independent, Agrees]
  | cons modelMap modelMaps ih =>
    have hname (e : String) (mapped : Bool) :
        mappingModelName (served info e mapped) = retriedName e := by
      simp [mappingModelName, served, billedName, hcompact, retriedName,
        hasSuffix_withCompactModelSuffix]
    refine independent_step hnamed (fun e ↦ ?_) fun e mapped ↦ ?_
    · simp [billedName, hcompact, hrequested]
    · rw [ih (served_named e mapped) hcompact, hname]

theorem independent_normal (hinfo : info.responsesCompact = false)
    (hrequested : requested.responsesCompact = false)
    (horigin : info.originModelName = requested.originModelName) (modelMaps : List ModelMap) :
    Independent requested info modelMaps := by
  have hname : mappingModelName info = mappingModelName requested := by
    simp [mappingModelName, hinfo, hrequested, horigin]
  induction modelMaps generalizing info with
  | nil => simp [Independent]
  | cons modelMap modelMaps ih =>
    have hnamed : Named info := by
      intro hcompact
      exact absurd (hinfo.symm.trans hcompact) (by simp)
    have hrest (e : String) (mapped : Bool) :
        Independent requested (served info e mapped) modelMaps ↔ True := by
      refine iff_true_intro (ih hinfo ?_ ?_)
      · simp only [served, billedName, hinfo, Bool.false_eq_true, ↓reduceIte, horigin]
      · simp [mappingModelName, served, billedName, hinfo, hrequested, horigin]
    refine (independent_step hnamed (fun e ↦ ?_) hrest).mpr ⟨fun e ↦ ?_, fun _ _ ↦ trivial⟩
    · simp only [billedName, hinfo, hrequested, horigin]
    · rw [hname]

/-- The mapping of every attempt depends on the client's request alone, outside the compact mode
always, and in it exactly when every map sends what the attempt before it has left where it sends
the requested model. -/
theorem independent_iff (responsesCompact : Bool) (model : String) (modelMaps : List ModelMap) :
    let requested := genRelayInfo responsesCompact model
    Independent requested requested modelMaps ↔
      (responsesCompact = true →
        Agrees (mappingModelName requested) (mappingModelName requested) modelMaps) := by
  intro requested
  cases hcompact : responsesCompact with
  | false =>
    have hrequested : requested.responsesCompact = false := hcompact
    simp [independent_normal hrequested hrequested rfl modelMaps]
  | true =>
    have hrequested : requested.responsesCompact = true := hcompact
    simpa using independent_iff_agrees (genRelayInfo_named _ _) hrequested hrequested modelMaps

/-- The second channel of a compact request maps what the first has made of its model. -/
theorem compact_retry_not_independent :
    ¬∀ (responsesCompact : Bool) (model : String) (modelMaps : List ModelMap),
      Independent (genRelayInfo responsesCompact model) (genRelayInfo responsesCompact model)
        modelMaps := by
  intro h
  have hserves := h true "gpt-5" [[("gpt-5", "a")], [("gpt-5", "b")]]
    ([("gpt-5", "b")], some (.ok
      { responsesCompact := true
        originModelName := "a-openai-compact"
        upstreamModelName := "a"
        requestModel := "a" })) (by decide +kernel)
  have hends : Ends (redirect [("gpt-5", "b")]) "gpt-5" "b" :=
    ⟨.single (show redirect _ _ = some "b" by decide +kernel), by decide +kernel⟩
  have hname : mappingModelName (genRelayInfo true "gpt-5") = "gpt-5" := by decide +kernel
  have hab : "a" = "b" := (hname ▸ hserves.1).unique hends
  exact absurd hab (by decide)

end Retries

end AllAiTools.NewApi.Relay.MappingIndependent
