import AllAiTools.NewApi.Service.TieredSettle

namespace AllAiTools.NewApi.Service.TieredPartition

open TieredSettle

/-- Counts that are not negative. -/
structure Counts (u : Usage) : Prop where
  prompt : 0 ≤ u.promptTokens
  completion : 0 ≤ u.completionTokens
  cached : 0 ≤ u.promptTokensDetails.cachedTokens
  created : 0 ≤ u.promptTokensDetails.cachedCreationTokens
  created5m : 0 ≤ u.claudeCacheCreation5mTokens
  created1h : 0 ≤ u.claudeCacheCreation1hTokens
  image : 0 ≤ u.promptTokensDetails.imageTokens
  audio : 0 ≤ u.promptTokensDetails.audioTokens
  imageOutput : 0 ≤ u.completionTokenDetails.imageTokens
  audioOutput : 0 ≤ u.completionTokenDetails.audioTokens

/-- Each count is at most the one it is part of. -/
structure Within (u : Usage) : Prop where
  cached : u.promptTokensDetails.cachedTokens ≤ u.promptTokens
  created : u.promptTokensDetails.cachedCreationTokens ≤ u.promptTokens
  split : u.claudeCacheCreation5mTokens + u.claudeCacheCreation1hTokens ≤
    u.promptTokensDetails.cachedCreationTokens
  image : u.promptTokensDetails.imageTokens ≤ u.promptTokens
  audio : u.promptTokensDetails.audioTokens ≤ u.promptTokens
  imageOutput : u.completionTokenDetails.imageTokens ≤ u.completionTokens
  audioOutput : u.completionTokenDetails.audioTokens ≤ u.completionTokens

section Partition

variable (usage : Usage) (isClaudeUsageSemantic : Bool) (usedVars : String → Bool)

/-- What the variables of the input's categories hold, where the expression uses them. -/
def inputApart (t : TokenParams) : ℚ :=
  (if usedVars "cr" then t.cr else 0) + (if usedVars "cc" then t.cc else 0) +
    (if usedVars "cc1h" then t.cc1h else 0) + (if usedVars "img" then t.img else 0) +
    (if usedVars "ai" then t.ai else 0)

def outputApart (t : TokenParams) : ℚ :=
  (if usedVars "img_o" then t.imgO else 0) + (if usedVars "ao" then t.ao else 0)

def cacheWrites : ℤ :=
  max usage.promptTokensDetails.cachedCreationTokens
    (usage.claudeCacheCreation5mTokens + usage.claudeCacheCreation1hTokens)

/-- All tokens of the input; Claude's prompt count leaves the cache out. -/
def inputTokens : ℤ :=
  if isClaudeUsageSemantic then
    usage.promptTokens + usage.promptTokensDetails.cachedTokens + cacheWrites usage
  else usage.promptTokens

/-- The parameters count every token of a usage once. -/
structure Partitions (t : TokenParams) : Prop where
  counted : 0 ≤ t.p ∧ 0 ≤ t.c ∧ 0 ≤ t.len ∧ 0 ≤ t.cr ∧ 0 ≤ t.cc ∧ 0 ≤ t.cc1h ∧ 0 ≤ t.img ∧
    0 ≤ t.imgO ∧ 0 ≤ t.ai ∧ 0 ≤ t.ao
  input : t.p + inputApart usedVars t = inputTokens usage isClaudeUsageSemantic
  output : t.c + outputApart usedVars t = usage.completionTokens
  len : ∀ otherVars, (buildTieredTokenParams usage isClaudeUsageSemantic otherVars).len = t.len

/-- The counts of the input that the expression has variables for. -/
def inputCounts : ℤ :=
  (if usedVars "cr" then usage.promptTokensDetails.cachedTokens else 0) +
    (if usedVars "cc" then if usage.usageSemantic = "anthropic" then
      usage.claudeCacheCreation5mTokens else usage.promptTokensDetails.cachedCreationTokens else 0) +
    (if usedVars "cc1h" then if usage.usageSemantic = "anthropic" then
      usage.claudeCacheCreation1hTokens else 0 else 0) +
    (if usedVars "img" then usage.promptTokensDetails.imageTokens else 0) +
    (if usedVars "ai" then usage.promptTokensDetails.audioTokens else 0)

def outputCounts : ℤ :=
  (if usedVars "img_o" then usage.completionTokenDetails.imageTokens else 0) +
    (if usedVars "ao" then usage.completionTokenDetails.audioTokens else 0)

/-- What the expression has variables for is what Claude's prompt count leaves out, and fits into
any other prompt count. -/
def Normal : Prop :=
  if isClaudeUsageSemantic then
    inputCounts usage usedVars = usage.promptTokensDetails.cachedTokens + cacheWrites usage ∧
      outputCounts usage usedVars = 0
  else inputCounts usage usedVars ≤ usage.promptTokens ∧
    outputCounts usage usedVars ≤ usage.completionTokens

end Partition

section Params

variable {usage : Usage} {isClaudeUsageSemantic : Bool} {usedVars : String → Bool}

theorem inputApart_params :
    inputApart usedVars (buildTieredTokenParams usage isClaudeUsageSemantic usedVars) =
      inputCounts usage usedVars := by
  simp only [inputApart, inputCounts, buildTieredTokenParams]
  push_cast
  rfl

theorem outputApart_params :
    outputApart usedVars (buildTieredTokenParams usage isClaudeUsageSemantic usedVars) =
      outputCounts usage usedVars := by
  simp only [outputApart, outputCounts, buildTieredTokenParams]
  push_cast
  rfl

theorem params_p : (buildTieredTokenParams usage isClaudeUsageSemantic usedVars).p =
    (max (usage.promptTokens - if isClaudeUsageSemantic then 0 else inputCounts usage usedVars) 0 :
      ℤ) := by
  cases isClaudeUsageSemantic with
  | true => simp [buildTieredTokenParams]
  | false =>
    simp only [buildTieredTokenParams, inputCounts, Bool.not_false, Bool.true_and,
      Bool.false_eq_true, if_false]
    push_cast
    ring_nf

theorem params_c : (buildTieredTokenParams usage isClaudeUsageSemantic usedVars).c =
    (max (usage.completionTokens - if isClaudeUsageSemantic then 0
      else outputCounts usage usedVars) 0 : ℤ) := by
  cases isClaudeUsageSemantic with
  | true => simp [buildTieredTokenParams]
  | false =>
    simp only [buildTieredTokenParams, outputCounts, Bool.not_false, Bool.true_and,
      Bool.false_eq_true, if_false]
    push_cast
    ring_nf

theorem input_iff (hprompt : 0 ≤ usage.promptTokens) :
    (buildTieredTokenParams usage isClaudeUsageSemantic usedVars).p +
        inputApart usedVars (buildTieredTokenParams usage isClaudeUsageSemantic usedVars) =
      inputTokens usage isClaudeUsageSemantic ↔
    if isClaudeUsageSemantic then
      inputCounts usage usedVars = usage.promptTokensDetails.cachedTokens + cacheWrites usage
    else inputCounts usage usedVars ≤ usage.promptTokens := by
  rw [params_p, inputApart_params, ← Int.cast_add, Int.cast_inj]
  unfold inputTokens
  cases isClaudeUsageSemantic with
  | true =>
    simp only [if_true]
    omega
  | false =>
    simp only [Bool.false_eq_true, if_false]
    omega

theorem output_iff (hcompletion : 0 ≤ usage.completionTokens) :
    (buildTieredTokenParams usage isClaudeUsageSemantic usedVars).c +
        outputApart usedVars (buildTieredTokenParams usage isClaudeUsageSemantic usedVars) =
      usage.completionTokens ↔
    if isClaudeUsageSemantic then outputCounts usage usedVars = 0
    else outputCounts usage usedVars ≤ usage.completionTokens := by
  rw [params_c, outputApart_params, ← Int.cast_add, Int.cast_inj]
  cases isClaudeUsageSemantic with
  | true =>
    simp only [if_true]
    omega
  | false =>
    simp only [Bool.false_eq_true, if_false]
    omega

theorem params_counted (h : Counts usage) :
    let t := buildTieredTokenParams usage isClaudeUsageSemantic usedVars
    0 ≤ t.p ∧ 0 ≤ t.c ∧ 0 ≤ t.len ∧ 0 ≤ t.cr ∧ 0 ≤ t.cc ∧ 0 ≤ t.cc1h ∧ 0 ≤ t.img ∧ 0 ≤ t.imgO ∧
      0 ≤ t.ai ∧ 0 ≤ t.ao := by
  have hprompt := h.prompt
  have hcached := h.cached
  have hcc : 0 ≤ if usage.usageSemantic = "anthropic" then usage.claudeCacheCreation5mTokens
      else usage.promptTokensDetails.cachedCreationTokens := by
    split_ifs
    · exact h.created5m
    · exact h.created
  have hcc1h : 0 ≤ if usage.usageSemantic = "anthropic" then usage.claudeCacheCreation1hTokens
      else 0 := by
    split_ifs
    · exact h.created1h
    · exact le_refl 0
  have hlen : 0 ≤ (buildTieredTokenParams usage isClaudeUsageSemantic usedVars).len := by
    simp only [buildTieredTokenParams]
    rw [Int.cast_nonneg_iff]
    split_ifs at hcc hcc1h ⊢ <;> omega
  exact ⟨le_max_right _ 0, le_max_right _ 0, hlen, Int.cast_nonneg_iff.mpr h.cached,
    Int.cast_nonneg_iff.mpr hcc, Int.cast_nonneg_iff.mpr hcc1h, Int.cast_nonneg_iff.mpr h.image,
    Int.cast_nonneg_iff.mpr h.imageOutput, Int.cast_nonneg_iff.mpr h.audio,
    Int.cast_nonneg_iff.mpr h.audioOutput⟩

/-- The parameters partition a usage just where what the expression has variables for is what the
prompt count leaves out, or fits into it. -/
theorem partitions_iff (h : Counts usage) :
    Partitions usage isClaudeUsageSemantic usedVars
        (buildTieredTokenParams usage isClaudeUsageSemantic usedVars) ↔
      Normal usage isClaudeUsageSemantic usedVars := by
  have hboth : Partitions usage isClaudeUsageSemantic usedVars
      (buildTieredTokenParams usage isClaudeUsageSemantic usedVars) ↔ _ ∧ _ :=
    ⟨fun hparts ↦ ⟨(input_iff h.prompt).mp hparts.input, (output_iff h.completion).mp hparts.output⟩,
      fun hnormal ↦ ⟨params_counted h, (input_iff h.prompt).mpr hnormal.1,
        (output_iff h.completion).mpr hnormal.2, fun _ ↦ rfl⟩⟩
  rw [hboth]
  unfold Normal
  cases isClaudeUsageSemantic <;> rfl

/-- Half of the prompt comes from the cache. -/
def cachedChat (usageSemantic : String) : Usage where
  promptTokens := 1000
  completionTokens := 20
  usageSemantic := usageSemantic
  promptTokensDetails := { cachedTokens := 500 }

theorem partitions_cached : Partitions (cachedChat "openai") false (· = "cr")
    (buildTieredTokenParams (cachedChat "openai") false (· = "cr")) := by
  apply (partitions_iff (by constructor <;> decide)).mpr
  exact ⟨by decide, by decide⟩

/-- What Claude reads from the cache is lost to an expression without a variable for it. -/
theorem partitions_not : ¬ ∀ (usage : Usage) (isClaudeUsageSemantic : Bool)
    (usedVars : String → Bool), Counts usage → Within usage →
      Partitions usage isClaudeUsageSemantic usedVars
        (buildTieredTokenParams usage isClaudeUsageSemantic usedVars) := by
  intro hall
  have hparts := hall (cachedChat "anthropic") true (fun v ↦ v = "p" || v = "c")
    (by constructor <;> decide) (by constructor <;> decide)
  have hinput := (input_iff (by decide)).mp hparts.input
  revert hinput
  decide

end Params

end AllAiTools.NewApi.Service.TieredPartition
