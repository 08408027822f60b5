import AllAiTools.NewApi.Controller.RelayRetry
import AllAiTools.NewApi.Model.ChannelChance

namespace AllAiTools.NewApi.Controller.CrossGroup

open Foundation Foundation.Lottery Model.Channels Model.Abilities Model.CachedChannels
  Model.ChannelChance Service.ChannelSelect RelayRetry

section Outcome

variable {cache : ChannelCache}

/-- The priorities of the channels that a group has for a model. -/
def priorities (cache : ChannelCache) (model group : String) : List ℤ :=
  (satisfied cache group model).map fun id ↦ (resolve cache id).getPriority

/-- The priority tiers of a group for a model, from the highest. -/
def tiers (cache : ChannelCache) (model group : String) : List ℤ :=
  distinctDescending (priorities cache model group)

theorem tiers_eq_nil {model group : String} :
    tiers cache model group = [] ↔ satisfied cache group model = [] := by
  rw [tiers, distinctDescending_eq_nil, priorities, List.map_eq_nil_iff]

theorem chooseChannel_finds {targets : List Channel} (n f a bound : ℕ)
    (hsum : (targets.map fun c ↦ c.getWeight * f + a).sum = bound) (hpos : 0 < bound) :
    ∃ channel ∈ targets, (match chooseChannel f a targets ((n % bound : ℕ) : ℤ) with
      | none => (.error "channel not found" : Except String (Option Channel))
      | some channel => .ok (some channel)) = .ok (some channel) := by
  have hsome := pick_isSome (hsum.symm ▸ Nat.mod_lt n hpos :
    n % bound < (targets.map fun c ↦ c.getWeight * f + a).sum)
  obtain ⟨channel, hc⟩ := Option.isSome_iff_exists.mp hsome
  refine ⟨channel, pick_mem hc, ?_⟩
  rw [chooseChannel_eq_pick, hc]

theorem drawChannel_outcome {targets : List Channel} (h : targets ≠ []) (n : ℕ) :
    ∃ channel ∈ targets, (drawChannel targets).outcome n = .ok (some channel) := by
  have hlen : 0 < targets.length := List.length_pos_iff.mpr h
  unfold drawChannel
  dsimp only
  by_cases hz : (targets.map (·.getWeight)).sum = 0
  · rw [if_pos hz]
    refine chooseChannel_finds n 1 100 _ ?_ (by omega)
    rw [List.sum_map_add, List.map_const', List.sum_replicate]
    simp [hz]
  · rw [if_neg hz]
    split_ifs
    · refine chooseChannel_finds n 100 0 _ ?_ (by omega)
      simp [List.sum_map_mul_right]
    · refine chooseChannel_finds n 1 0 _ ?_ (by omega)
      simp

/-- A group without channels for the model gives none, any other a channel of the retry's
tier. -/
theorem selector_outcome (h : Consistent cache) (group model : String) (retry n : ℕ) :
    tiers cache model group = [] ∧
        (getRandomSatisfiedChannel cache group model retry).outcome n = .ok none ∨
      tiers cache model group ≠ [] ∧ ∃ channel,
        (getRandomSatisfiedChannel cache group model retry).outcome n = .ok (some channel) ∧
        channel.getPriority = retryPriority (priorities cache model group) retry := by
  have hres := fun id hid ↦ @satisfied_resolves cache group model h id hid
  simp only [ne_eq, tiers_eq_nil]
  unfold getRandomSatisfiedChannel priorities
  cases hs : satisfied cache group model with
  | nil => exact .inl ⟨rfl, rfl⟩
  | cons id ids =>
    rw [hs] at hres
    refine .inr ⟨List.cons_ne_nil _ _, ?_⟩
    cases ids with
    | nil =>
      have hone := retryPriority_mem (List.cons_ne_nil (resolve cache id).getPriority []) retry
      rw [List.mem_singleton] at hone
      refine ⟨resolve cache id, ?_, hone.symm⟩
      dsimp only
      rw [(hres id List.mem_cons_self).1]
      rfl
    | cons id' ids =>
      have hne := targetChannels_ne_nil
        (List.cons_ne_nil (resolve cache id) ((id' :: ids).map (resolve cache))) retry
      obtain ⟨channel, hc, hout⟩ := drawChannel_outcome hne n
      refine ⟨channel, ?_, ?_⟩
      · dsimp only
        rw [lookUp_resolve fun j hj ↦ (hres j hj).1]
        dsimp only
        rw [List.map_cons, if_neg hne]
        exact hout
      · unfold targetChannels at hc
        have hp := (List.mem_filter.mp hc).2
        rw [decide_eq_true_eq, ← List.map_cons, List.map_map] at hp
        exact hp

end Outcome

section Plan

variable (cache : ChannelCache) (model : String)

/-- The attempts at one group: its place and the priority of each. -/
def rounds (r place : ℕ) (group : String) : List (ℕ × ℤ) :=
  if tiers cache model group = [] then []
  else (List.range (r + 1)).map fun retry ↦
    (place, retryPriority (priorities cache model group) retry)

/-- The attempts at the groups from a place on. -/
def plan (r : ℕ) : ℕ → List String → List (ℕ × ℤ)
  | _, [] => []
  | place, group :: groups => rounds cache model r place group ++ plan r (place + 1) groups

variable {cache model}

theorem plan_skip {skipped : List String} (h : ∀ group ∈ skipped, tiers cache model group = [])
    (r place : ℕ) (groups : List String) :
    plan cache model r place (skipped ++ groups) =
      plan cache model r (place + skipped.length) groups := by
  induction skipped generalizing place with
  | nil => rfl
  | cons group skipped ih =>
    have hnone : rounds cache model r place group = [] := if_pos (h group List.mem_cons_self)
    rw [List.cons_append, plan, hnone, List.nil_append,
      ih (fun g hg ↦ h g (List.mem_cons_of_mem group hg)), List.length_cons,
      Nat.add_right_comm, Nat.add_assoc]

theorem plan_none {groups : List String} (h : ∀ group ∈ groups, tiers cache model group = [])
    (r place : ℕ) : plan cache model r place groups = [] := by
  have hskip := plan_skip h r place []
  rwa [List.append_nil] at hskip

end Plan

section Select

variable (settings : Settings) {cache : ChannelCache} {model : String}

/-- The state after a channel of a group was selected. -/
def found (param : RetryParam) (ctx : Context) (place : ℕ) (group : String)
    (retry : ℕ) (channel : Channel) : Selected :=
  if ctx.tokenCrossGroupRetry ∧ settings.retryTimes ≤ retry then
    { channel := .ok (some channel)
      group
      place
      param := (param.setRetry 0).resetRetryNextTry
      ctx := { ctx with autoGroup := some group, autoGroupIndex := some (place + 1) } }
  else
    { channel := .ok (some channel)
      group
      place
      param
      ctx := { ctx with autoGroup := some group, autoGroupIndex := some place } }

/-- At a group with channels the selection stops, at one of the retry's tier. -/
theorem tryGroups_found (h : Consistent cache) (draws : ℕ → ℕ) (param : RetryParam)
    (hm : param.modelName = model) {group : String} (hg : tiers cache model group ≠ [])
    (ctx : Context) (moved : Bool) (i : ℕ) (groups : List String) :
    ∃ channel, channel.getPriority = retryPriority (priorities cache model group)
        (if moved then 0 else param.getRetry) ∧
      tryGroups settings cache draws param ctx moved i (group :: groups) =
        found settings param ctx i group (if moved then 0 else param.getRetry) channel := by
  subst hm
  rw [tryGroups]
  rcases selector_outcome h group param.modelName (if moved then 0 else param.getRetry) (draws i)
    with ⟨hnone, _⟩ | ⟨_, channel, hout, hp⟩
  · exact absurd hnone hg
  · refine ⟨channel, hp, ?_⟩
    rw [hout]
    rfl

theorem tryGroups_skip (h : Consistent cache) (draws : ℕ → ℕ) (param : RetryParam)
    (hm : param.modelName = model) {group : String} (hg : tiers cache model group = [])
    (ctx : Context) (moved : Bool) (i : ℕ) (groups : List String) :
    tryGroups settings cache draws param ctx moved i (group :: groups) =
      tryGroups settings cache draws (param.setRetry 0)
        { ctx with autoGroupIndex := some (i + 1) } true (i + 1) groups := by
  subst hm
  rw [tryGroups]
  rcases selector_outcome h group param.modelName (if moved then 0 else param.getRetry) (draws i)
    with ⟨_, hout⟩ | ⟨hsome, _⟩
  · rw [hout]
    rfl
  · exact absurd hg hsome

theorem first_group (cache : ChannelCache) (model : String) (groups : List String) :
    (∀ group ∈ groups, tiers cache model group = []) ∨
      ∃ skipped group rest, groups = skipped ++ group :: rest ∧
        (∀ g ∈ skipped, tiers cache model g = []) ∧ tiers cache model group ≠ [] := by
  induction groups with
  | nil => exact .inl (by simp)
  | cons group groups ih =>
    by_cases hg : tiers cache model group = []
    · rcases ih with hall | ⟨skipped, g, rest, rfl, hall, hsome⟩
      · exact .inl (List.forall_mem_cons.mpr ⟨hg, hall⟩)
      · exact .inr ⟨group :: skipped, g, rest, rfl, List.forall_mem_cons.mpr ⟨hg, hall⟩, hsome⟩
    · exact .inr ⟨[], group, groups, rfl, by simp, hg⟩

theorem tryGroups_none (h : Consistent cache) (draws : ℕ → ℕ) {param : RetryParam}
    (hm : param.modelName = model) {groups : List String}
    (hg : ∀ group ∈ groups, tiers cache model group = []) (ctx : Context) (moved : Bool) (i : ℕ) :
    (tryGroups settings cache draws param ctx moved i groups).channel = .ok none := by
  induction groups generalizing param ctx moved i with
  | nil => rfl
  | cons group groups ih =>
    rw [tryGroups_skip settings h draws param hm (hg group List.mem_cons_self)]
    have hset : (param.setRetry 0).modelName = model := hm
    exact ih hset (fun g hm ↦ hg g (List.mem_cons_of_mem group hm)) _ _ _

/-- A selection that starts a group anew takes the first group with channels, at its
highest tier. -/
theorem tryGroups_first (h : Consistent cache) (draws : ℕ → ℕ) {param : RetryParam}
    (hm : param.modelName = model) (hretry : param.retry = some 0) {skipped : List String}
    (hskip : ∀ g ∈ skipped, tiers cache model g = []) {group : String}
    (hg : tiers cache model group ≠ []) (rest : List String) (ctx : Context) (moved : Bool)
    (i : ℕ) :
    ∃ channel, channel.getPriority = retryPriority (priorities cache model group) 0 ∧
      tryGroups settings cache draws param ctx moved i (skipped ++ group :: rest) =
        found settings param ctx (i + skipped.length) group 0 channel := by
  have hzero : ∀ moved : Bool, (if moved then 0 else param.getRetry) = 0 := by
    intro moved
    rw [RetryParam.getRetry, hretry]
    cases moved <;> rfl
  induction skipped generalizing ctx moved i with
  | nil =>
    have hfound := tryGroups_found settings h draws param hm hg ctx moved i rest
    rwa [hzero] at hfound
  | cons g skipped ih =>
    have hset : param.setRetry 0 = param := by
      obtain ⟨token, name, retry, reset⟩ := param
      cases hretry
      rfl
    rw [List.cons_append, tryGroups_skip settings h draws param hm (hskip g List.mem_cons_self),
      hset, List.length_cons, Nat.add_comm skipped.length, ← Nat.add_assoc]
    exact ih (fun g' hg' ↦ hskip g' (List.mem_cons_of_mem g hg')) _ _ _

end Select

section Loop

variable (settings : Settings) (cache : ChannelCache) (rules : RetryRules) (world : World)
  (model user : String)

/-- Every attempt is made, and fails with an error that is retried while retries are left. -/
structure AllFail : Prop where
  setup : ∀ channel, world.setupContext channel = none
  retried : ∀ n retryTimes, 0 < retryTimes → shouldRetry rules (world.failure n) retryTimes = true

def visit (attempt : Attempt) : ℕ × ℤ := (attempt.place, attempt.channel.getPriority)

def paramAt (retry : ℕ) : RetryParam := ⟨"auto", model, some retry, false⟩

def contextAt (place : Option ℕ) (last : Option String) : Context := ⟨user, true, place, last⟩

/-- From a place and a retry on, the loop makes these attempts. -/
def Resumes (place retry : ℕ) (visits : List (ℕ × ℤ)) : Prop :=
  ∀ n last, ∃ fuel attempts,
    retryLoop settings cache rules world fuel n none (paramAt model retry)
      (contextAt user (some place) last) = some attempts ∧ attempts.map visit = visits

/-- From a place and a retry on, the selection finds a channel of a priority. -/
def Finds (start : Option ℕ) (retry place : ℕ) (priority : ℤ) : Prop :=
  ∀ n last, ∃ group channel, channel.getPriority = priority ∧
    cacheGetRandomSatisfiedChannel settings cache (world.draws n) (paramAt model retry)
      (contextAt user start last) =
        found settings (paramAt model retry) (contextAt user start last) place group retry channel

variable {settings cache rules world model user} {place retry place' r : ℕ} {priority : ℤ}
  {visits : List (ℕ × ℤ)}

theorem Resumes.stay (hf : AllFail rules world) (hr : settings.retryTimes = r) (hlt : retry < r)
    (hfinds : Finds settings cache world model user (some place) retry place' priority)
    (hnext : Resumes settings cache rules world model user place' (retry + 1) visits) :
    Resumes settings cache rules world model user place retry ((place', priority) :: visits) := by
  intro n last
  obtain ⟨group, channel, hp, hsel⟩ := hfinds n last
  obtain ⟨fuel, attempts, hloop, hvisits⟩ := hnext (n + 1) (some group)
  have hcond : ¬ ((contextAt user (some place) last).tokenCrossGroupRetry = true ∧
      settings.retryTimes ≤ retry) := by
    rintro ⟨_, hle⟩
    omega
  rw [found, if_neg hcond] at hsel
  refine ⟨fuel + 1, ⟨place', channel⟩ :: attempts, ?_, by rw [List.map_cons, hvisits, visit, hp]⟩
  have hretry : shouldRetry rules (world.failure n)
      (settings.retryTimes - (paramAt model retry).getRetry) = true :=
    hf.retried n _ (by rw [hr, paramAt, RetryParam.getRetry, Option.getD_some]; omega)
  rw [retryLoop, if_pos (by rw [hr, paramAt, RetryParam.getRetry, Option.getD_some]; omega),
    RelayRetry.getChannel]
  simp only [hsel, hf.setup, hretry, if_true]
  rw [show (paramAt model retry).increaseRetry = paramAt model (retry + 1) from rfl]
  exact congrArg (Option.map (⟨place', channel⟩ :: ·)) hloop

theorem Resumes.switch (hf : AllFail rules world) (hr : settings.retryTimes = r) (hpos : 0 < r)
    (hfinds : Finds settings cache world model user (some place) r place' priority)
    (hnext : Resumes settings cache rules world model user (place' + 1) 0 visits) :
    Resumes settings cache rules world model user place r ((place', priority) :: visits) := by
  intro n last
  obtain ⟨group, channel, hp, hsel⟩ := hfinds n last
  obtain ⟨fuel, attempts, hloop, hvisits⟩ := hnext (n + 1) (some group)
  have hcond : (contextAt user (some place) last).tokenCrossGroupRetry = true ∧
      settings.retryTimes ≤ r := ⟨rfl, hr.le⟩
  rw [found, if_pos hcond] at hsel
  refine ⟨fuel + 1, ⟨place', channel⟩ :: attempts, ?_, by rw [List.map_cons, hvisits, visit, hp]⟩
  have hretry : shouldRetry rules (world.failure n) (settings.retryTimes -
      ((paramAt model r).setRetry 0).resetRetryNextTry.getRetry) = true :=
    hf.retried n _ (by
      rw [hr]
      change (0 : ℤ) < r - (0 : ℕ)
      omega)
  rw [retryLoop, if_pos (by rw [hr, paramAt, RetryParam.getRetry, Option.getD_some]),
    RelayRetry.getChannel]
  simp only [hsel, hf.setup, hretry, if_true]
  exact congrArg (Option.map (⟨place', channel⟩ :: ·)) hloop

theorem select_auto {groups : List String} (hne : groups ≠ []) {start : Option ℕ}
    (hdrop : (getUserAutoGroup settings user).drop (start.getD 0) = groups) (draws : ℕ → ℕ)
    (retry : ℕ) (last : Option String) :
    cacheGetRandomSatisfiedChannel settings cache draws (paramAt model retry)
        (contextAt user start last) =
      tryGroups settings cache draws (paramAt model retry) (contextAt user start last) false
        (start.getD 0) groups := by
  have hauto : settings.autoGroups ≠ [] := by
    intro hnil
    rw [getUserAutoGroup, hnil, List.filter_nil, List.drop_nil] at hdrop
    exact hne hdrop.symm
  have htoken : (paramAt model retry).tokenGroup = "auto" := rfl
  rw [cacheGetRandomSatisfiedChannel, if_pos htoken, if_neg hauto, ← hdrop]
  rfl

theorem finds_within (h : Consistent cache) (world : World) {group : String} {rest : List String}
    (hdrop : (getUserAutoGroup settings user).drop place = group :: rest)
    (hg : tiers cache model group ≠ []) (retry : ℕ) :
    Finds settings cache world model user (some place) retry place
      (retryPriority (priorities cache model group) retry) := by
  intro n last
  obtain ⟨channel, hp, hfound⟩ := tryGroups_found settings h (world.draws n) (paramAt model retry)
    rfl hg (contextAt user (some place) last) false place rest
  have hselect := @select_auto settings cache model user _ (List.cons_ne_nil group rest)
    (some place) hdrop (world.draws n) retry last
  exact ⟨group, channel, hp, hselect.trans hfound⟩

theorem finds_first (h : Consistent cache) (world : World) {start : Option ℕ}
    {skipped rest : List String} {group : String}
    (hdrop : (getUserAutoGroup settings user).drop (start.getD 0) = skipped ++ group :: rest)
    (hskip : ∀ g ∈ skipped, tiers cache model g = []) (hg : tiers cache model group ≠ []) :
    Finds settings cache world model user start 0 (start.getD 0 + skipped.length)
      (retryPriority (priorities cache model group) 0) := by
  intro n last
  obtain ⟨channel, hp, hfound⟩ := tryGroups_first settings h (world.draws n)
    (rfl : (paramAt model 0).modelName = model) rfl hskip hg rest (contextAt user start last) false
    (start.getD 0)
  have hne : skipped ++ group :: rest ≠ [] := by simp
  exact ⟨group, channel, hp, (select_auto hne hdrop (world.draws n) 0 last).trans hfound⟩

/-- Where no group has a channel, the selection gives none. -/
theorem finds_none (h : Consistent cache) (draws : ℕ → ℕ) {start : Option ℕ}
    (hall : ∀ group ∈ (getUserAutoGroup settings user).drop (start.getD 0),
      tiers cache model group = []) (last : Option String) (channel : Channel) :
    (cacheGetRandomSatisfiedChannel settings cache draws (paramAt model 0)
      (contextAt user start last)).channel ≠ .ok (some channel) := by
  have htoken : (paramAt model 0).tokenGroup = "auto" := rfl
  rw [cacheGetRandomSatisfiedChannel, if_pos htoken]
  by_cases hauto : settings.autoGroups = []
  · rw [if_pos hauto]
    exact fun hc ↦ nomatch hc
  · rw [if_neg hauto]
    have hnone := tryGroups_none settings h draws (rfl : (paramAt model 0).modelName = model) hall
      (contextAt user start last) false (start.getD 0)
    intro hc
    cases hnone.symm.trans hc

/-- The rest of the attempts at a group, and then those at the groups after it. -/
theorem resumes_within (h : Consistent cache) (hf : AllFail rules world)
    (hr : settings.retryTimes = r) (hpos : 0 < r) {group : String} {rest : List String}
    (hdrop : (getUserAutoGroup settings user).drop place = group :: rest)
    (hg : tiers cache model group ≠ [])
    (hnext : Resumes settings cache rules world model user (place + 1) 0 visits) {left : ℕ}
    (hleft : retry + left = r) :
    Resumes settings cache rules world model user place retry
      ((List.range' retry (left + 1)).map
        (fun retry ↦ (place, retryPriority (priorities cache model group) retry)) ++ visits) := by
  induction left generalizing retry with
  | zero =>
    obtain rfl : retry = r := by omega
    exact Resumes.switch hf hr hpos (finds_within h world hdrop hg retry) hnext
  | succ left ih =>
    rw [List.range'_succ, List.map_cons, List.cons_append]
    exact Resumes.stay hf hr (by omega) (finds_within h world hdrop hg retry) (ih (by omega))

theorem Resumes.stop (hr : settings.retryTimes = r)
    (hnone : ∀ n last channel, (cacheGetRandomSatisfiedChannel settings cache (world.draws n)
      (paramAt model 0) (contextAt user (some place) last)).channel ≠ .ok (some channel)) :
    Resumes settings cache rules world model user place 0 [] := by
  intro n last
  refine ⟨1, [], ?_, rfl⟩
  rw [retryLoop, if_pos (by rw [hr, paramAt, RetryParam.getRetry, Option.getD_some]; omega),
    RelayRetry.getChannel]
  have hn := hnone n last
  generalize cacheGetRandomSatisfiedChannel settings cache (world.draws n) (paramAt model 0)
    (contextAt user (some place) last) = selected at hn
  obtain ⟨channel, group, place, param, ctx⟩ := selected
  cases channel with
  | error e => rfl
  | ok channel =>
    cases channel with
    | none => rfl
    | some channel => exact absurd rfl (hn channel)

/-- Where a group begins, the loop makes the attempts at all groups from there on. -/
theorem resumes_plan (h : Consistent cache) (hf : AllFail rules world)
    (hr : settings.retryTimes = r) (hpos : 0 < r) (place : ℕ) :
    Resumes settings cache rules world model user place 0
      (plan cache model r place ((getUserAutoGroup settings user).drop place)) := by
  induction hlen : ((getUserAutoGroup settings user).drop place).length using
    Nat.strong_induction_on generalizing place with
  | h len ih =>
    rcases first_group cache model ((getUserAutoGroup settings user).drop place) with
      hall | ⟨skipped, group, rest, hdrop, hskip, hg⟩
    · rw [plan_none hall]
      exact Resumes.stop hr fun n last channel ↦
        @finds_none settings cache model user h (world.draws n) (some place) hall last channel
    · have hdrop' : (getUserAutoGroup settings user).drop (place + skipped.length) =
          group :: rest := by
        rw [← List.drop_drop, hdrop, List.drop_left]
      have hrest : (getUserAutoGroup settings user).drop (place + skipped.length + 1) = rest := by
        rw [← List.drop_drop, hdrop', List.drop_one, List.tail_cons]
      have hshort : rest.length < len := by
        rw [← hlen, hdrop, List.length_append, List.length_cons]
        omega
      have hnext := ih rest.length hshort (place + skipped.length + 1) (by rw [hrest])
      rw [hrest] at hnext
      have hfirst := @finds_first settings cache model user h world (some place) skipped rest group
        hdrop hskip hg
      have hwithin := resumes_within h hf hr hpos hdrop' hg hnext (by omega : 1 + (r - 1) = r)
      have hstay := Resumes.stay hf hr hpos hfirst hwithin
      rw [hdrop, plan_skip hskip, plan, rounds, if_neg hg, List.range_eq_range', List.range'_succ,
        List.map_cons]
      rw [Nat.sub_add_cancel hpos] at hstay
      exact hstay

end Loop

section Request

variable {settings : Settings} {cache : ChannelCache} {rules : RetryRules} {world : World}
  {model user : String}

/-- The attempts of a request: all groups with one retry or more, else one attempt only. -/
def visited (settings : Settings) (cache : ChannelCache) (model user : String) : List (ℕ × ℤ) :=
  if settings.retryTimes < 0 then []
  else if settings.retryTimes = 0 then
    (plan cache model 0 0 (getUserAutoGroup settings user)).take 1
  else plan cache model settings.retryTimes.toNat 0 (getUserAutoGroup settings user)

theorem retryLoop_stop (n : ℕ) (attempt : Attempt) (ctx : Context) (fuel : ℕ)
    (h : settings.retryTimes = 0) :
    retryLoop settings cache rules world (fuel + 2) n (some attempt) (paramAt model 0) ctx =
      some [attempt] := by
  rw [retryLoop, if_pos (by rw [h, paramAt, RetryParam.getRetry, Option.getD_some]; rfl),
    RelayRetry.getChannel]
  dsimp only
  split_ifs
  · rw [retryLoop, if_neg]
    · rfl
    · rw [h]
      change ¬ ((1 : ℕ) : ℤ) ≤ 0
      omega
  · rfl

theorem relay_eq (fuel : ℕ) (user : String) :
    relay settings cache rules world fuel "auto" model (contextAt user none none) =
      match (cacheGetRandomSatisfiedChannel settings cache (world.draws 0) (paramAt model 0)
        (contextAt user none none)).channel with
      | .ok (some channel) => retryLoop settings cache rules world fuel 1
          (some ⟨(cacheGetRandomSatisfiedChannel settings cache (world.draws 0) (paramAt model 0)
            (contextAt user none none)).place, channel⟩) (paramAt model 0)
          (cacheGetRandomSatisfiedChannel settings cache (world.draws 0) (paramAt model 0)
            (contextAt user none none)).ctx
      | _ => some [] := rfl

/-- What a request whose attempts fail does. -/
theorem relay_visits (h : Consistent cache) (hf : AllFail rules world) (user : String) :
    ∃ fuel attempts, relay settings cache rules world fuel "auto" model (contextAt user none none) =
      some attempts ∧ attempts.map visit = visited settings cache model user := by
  rcases first_group cache model (getUserAutoGroup settings user) with
    hall | ⟨skipped, group, rest, hgroups, hskip, hg⟩
  · have hnone := @finds_none settings cache model user h (world.draws 0) none hall none
    refine ⟨0, [], ?_, ?_⟩
    · rw [relay_eq]
      split
      · rename_i channel hc
        exact absurd hc (hnone channel)
      · rfl
    · unfold visited
      rw [plan_none hall, plan_none hall]
      simp
  · obtain ⟨g, channel, hp, hselect⟩ := @finds_first settings cache model user h world none skipped
      rest group hgroups hskip hg 0 none
    have hplan : ∀ r, plan cache model r 0 (getUserAutoGroup settings user) =
        rounds cache model r skipped.length group ++
          plan cache model r (skipped.length + 1) rest := by
      intro r
      rw [hgroups, plan_skip hskip, Nat.zero_add, plan]
    have hplace : (none : Option ℕ).getD 0 + skipped.length = skipped.length := by simp
    rw [hplace] at hselect
    unfold found at hselect
    rcases lt_trichotomy settings.retryTimes 0 with hneg | hzero | hpos
    · have hcond : (contextAt user none none).tokenCrossGroupRetry = true ∧
          settings.retryTimes ≤ (0 : ℕ) := ⟨rfl, hneg.le⟩
      rw [if_pos hcond] at hselect
      refine ⟨1, [], ?_, ?_⟩
      · have hstop : ¬ (((paramAt model 0).getRetry : ℕ) : ℤ) ≤ settings.retryTimes := by
          change ¬ ((0 : ℕ) : ℤ) ≤ settings.retryTimes
          omega
        rw [relay_eq, hselect]
        dsimp only
        rw [retryLoop, if_neg hstop]
      · rw [visited, if_pos hneg]
        rfl
    · have hcond : (contextAt user none none).tokenCrossGroupRetry = true ∧
          settings.retryTimes ≤ (0 : ℕ) := ⟨rfl, hzero.le⟩
      rw [if_pos hcond] at hselect
      refine ⟨2, [⟨skipped.length, channel⟩], ?_, ?_⟩
      · rw [relay_eq, hselect]
        exact retryLoop_stop 1 _ _ 0 hzero
      · rw [visited, if_neg (by omega), if_pos hzero, hplan, rounds, if_neg hg]
        simp [visit, hp]
    · obtain ⟨r, hr⟩ := Int.eq_ofNat_of_zero_le hpos.le
      have hrpos : 0 < r := by omega
      have hcond : ¬ ((contextAt user none none).tokenCrossGroupRetry = true ∧
          settings.retryTimes ≤ (0 : ℕ)) := by
        rintro ⟨_, hle⟩
        exact absurd hpos (not_lt.mpr hle)
      rw [if_neg hcond] at hselect
      have hdrop : (getUserAutoGroup settings user).drop skipped.length = group :: rest := by
        rw [hgroups, List.drop_left]
      have hrest : (getUserAutoGroup settings user).drop (skipped.length + 1) = rest := by
        rw [← List.drop_drop, hdrop, List.drop_one, List.tail_cons]
      have hnext := @resumes_plan settings cache rules world model user r h hf hr hrpos
        (skipped.length + 1)
      rw [hrest] at hnext
      obtain ⟨fuel, attempts, hloop, hvisits⟩ := resumes_within h hf hr hrpos hdrop hg hnext
        (by omega : 1 + (r - 1) = r) 2 (some g)
      refine ⟨fuel + 1, ⟨skipped.length, channel⟩ :: attempts, ?_, ?_⟩
      · have hle : (((paramAt model 0).getRetry : ℕ) : ℤ) ≤ settings.retryTimes := hpos.le
        have hretry : shouldRetry rules (world.failure 1)
            (settings.retryTimes - (paramAt model 0).getRetry) = true :=
          hf.retried 1 _ (by
            change 0 < settings.retryTimes - (0 : ℕ)
            omega)
        rw [relay_eq, hselect]
        dsimp only
        rw [retryLoop, if_pos hle, RelayRetry.getChannel]
        dsimp only
        rw [if_pos hretry]
        exact congrArg (Option.map (⟨skipped.length, channel⟩ :: ·)) hloop
      · rw [visited, if_neg (by omega), if_neg (by omega), hr, Int.toNat_natCast, hplan, rounds,
          if_neg hg, List.range_eq_range', List.range'_succ, List.map_cons, List.map_cons, hvisits,
          Nat.sub_add_cancel hrpos, visit, hp]
        rfl

end Request

end AllAiTools.NewApi.Controller.CrossGroup
