import AllAiTools.Foundation.Chase
import AllAiTools.NewApi.Common.Str

namespace AllAiTools.NewApi.Relay.ModelMapped

open Foundation.Chase Common.Str

def compactModelSuffix : String := "-openai-compact"

def withCompactModelSuffix (modelName : String) : String :=
  if hasSuffix modelName compactModelSuffix then modelName else modelName ++ compactModelSuffix

/-- `strings.TrimSuffix`. -/
def trimSuffix (s suf : String) : String :=
  if hasSuffix s suf then String.ofList (s.toList.take (s.toList.length - suf.toList.length)) else s

/-- What the mapping of a model reads and writes: of the request to the upstream only its
model. -/
structure RelayInfo where
  responsesCompact : Bool
  originModelName : String
  upstreamModelName : String := ""
  isModelMapped : Bool := false
  requestModel : String := ""
  deriving DecidableEq

/-- The request as the distributor takes it in: the compact endpoint adds its suffix. -/
def genRelayInfo (responsesCompact : Bool) (model : String) : RelayInfo where
  responsesCompact
  originModelName := if responsesCompact then withCompactModelSuffix model else model

/-- The channel was set up under the origin model name. -/
def initChannelMeta (info : RelayInfo) : RelayInfo :=
  { info with
    upstreamModelName := info.originModelName
    isModelMapped := false
    requestModel := info.originModelName }

def mappingModelName (info : RelayInfo) : String :=
  if info.responsesCompact ∧ hasSuffix info.originModelName compactModelSuffix then
    trimSuffix info.originModelName compactModelSuffix
  else info.originModelName

abbrev ModelMap := List (String × String)

/-- How the loop over the mapping is left. -/
inductive Exit
  | done (currentModel : String) (isModelMapped : Bool)
  | unmapped
  | cycle
  deriving DecidableEq

/-- One turn of the loop for each unit of fuel. -/
def follow (modelMap : ModelMap) (originModelName : String) :
    ℕ → String → List String → Bool → Option Exit
  | 0, _, _, _ => none
  | fuel + 1, currentModel, visitedModels, mapped =>
    match modelMap.lookup currentModel with
    | none => some (.done currentModel mapped)
    | some mappedModel =>
      if mappedModel = "" then some (.done currentModel mapped)
      else if mappedModel ∈ visitedModels then
        if mappedModel = currentModel then
          if currentModel = originModelName then some .unmapped else some (.done currentModel true)
        else some .cycle
      else follow modelMap originModelName fuel mappedModel (mappedModel :: visitedModels) true

/-- What follows the loop. -/
def setModelNames (info : RelayInfo) : RelayInfo :=
  let info :=
    if info.responsesCompact then
      let finalUpstreamModelName :=
        if info.isModelMapped ∧ info.upstreamModelName ≠ "" then info.upstreamModelName
        else mappingModelName info
      { info with
        upstreamModelName := finalUpstreamModelName
        originModelName := withCompactModelSuffix finalUpstreamModelName }
    else info
  { info with requestModel := info.upstreamModelName }

/-- A mapping that is not JSON is none. A loop that does not end within a turn for each entry of
the map and one more has no result. -/
def modelMappedHelper (modelMapping : Option ModelMap) (info : RelayInfo) :
    Option (Except String RelayInfo) :=
  match modelMapping with
  | none => some (.error "unmarshal_model_mapping_failed")
  | some modelMap =>
    (follow modelMap info.originModelName (modelMap.length + 1) (mappingModelName info)
      [mappingModelName info] info.isModelMapped).map fun
      | .cycle => .error "model_mapping_contains_cycle"
      | .unmapped => .ok { info with isModelMapped := false }
      | .done currentModel true =>
        .ok (setModelNames { info with isModelMapped := true, upstreamModelName := currentModel })
      | .done _ false => .ok (setModelNames { info with isModelMapped := false })

/-- The attempts of a request on the channels with these mappings. Each but the last fails at the
upstream; a mapping that fails is not retried. -/
def attempts : RelayInfo → List ModelMap → List (Option (Except String RelayInfo))
  | _, [] => []
  | info, modelMap :: modelMaps =>
    match modelMappedHelper (some modelMap) (initChannelMeta info) with
    | some (.ok info') => some (.ok info') :: attempts info' modelMaps
    | r => [r]

/-- The model another one is replaced by. -/
def redirect (modelMap : ModelMap) (model : String) : Option String :=
  (modelMap.lookup model).filter fun mapped ↦ mapped ≠ "" ∧ mapped ≠ model

theorem redirect_eq_some {modelMap : ModelMap} {model mapped : String} :
    redirect modelMap model = some mapped ↔
      modelMap.lookup model = some mapped ∧ mapped ≠ "" ∧ mapped ≠ model := by
  simp [redirect, Option.filter_eq_some_iff]

theorem redirect_mem {modelMap : ModelMap} (model mapped : String)
    (h : redirect modelMap model = some mapped) : mapped ∈ modelMap.map Prod.snd := by
  have hlookup := (redirect_eq_some.mp h).1
  induction modelMap with
  | nil => simp at hlookup
  | cons entry modelMap ih =>
    obtain ⟨key, value⟩ := entry
    rw [List.lookup_cons] at hlookup
    by_cases hkey : model == key
    · simp only [hkey, Option.some.injEq] at hlookup
      simp [hlookup]
    · simp only [hkey] at hlookup
      have hrest := ih (redirect_eq_some.mpr ⟨hlookup, (redirect_eq_some.mp h).2⟩) hlookup
      exact List.mem_cons_of_mem _ hrest

end AllAiTools.NewApi.Relay.ModelMapped
