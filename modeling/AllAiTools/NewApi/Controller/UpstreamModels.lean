import AllAiTools.Foundation.Dict
import AllAiTools.Foundation.Joined
import AllAiTools.Foundation.Sorting
import AllAiTools.NewApi.Model.AbilityUpdates

namespace AllAiTools.NewApi.Controller.UpstreamModels

open Foundation Common.Str Model Model.Channels Model.Abilities

/-- What the settings of a channel keep of the upstream model updates. -/
structure ChannelOtherSettings where
  autoSyncEnabled : Bool := false
  lastCheckTime : ℤ := 0
  lastDetectedModels : List String := []
  lastRemovedModels : List String := []
  ignoredModels : List String := []

/-- What is stored of a channel, and the abilities of all channels. -/
structure Stored where
  channel : Channel
  modelMapping : Option String
  settings : ChannelOtherSettings
  abilities : Table Ability.key

/-- `common.UnmarshalJsonStr` into a map of texts and `regexp.MatchString`. -/
structure Library where
  unmarshal : String → Option (List (String × String))
  matchString : String → String → Option Bool

section Names

def normalizeModelNames (models : List String) : List String :=
  (models.filterMap fun model ↦
    let trimmed := trimSpace model
    if trimmed = "" then none else some trimmed).eraseDups

def mergeModelNames (base appended : List String) : List String :=
  let merged := normalizeModelNames base
  merged ++ (normalizeModelNames appended).filter fun model ↦ model ∉ merged

def subtractModelNames (base removed : List String) : List String :=
  (normalizeModelNames base).filter fun model ↦ model ∉ normalizeModelNames removed

def intersectModelNames (base allowed : List String) : List String :=
  (normalizeModelNames base).filter fun model ↦ model ∈ normalizeModelNames allowed

/-- Add wins when the same model appears in both selected lists. -/
def applySelectedModelChanges (originModels addModels removeModels : List String) : List String :=
  let normalizedAdd := normalizeModelNames addModels
  let normalizedRemove := subtractModelNames (normalizeModelNames removeModels) normalizedAdd
  subtractModelNames (mergeModelNames originModels normalizedAdd) normalizedRemove

def getModels (channel : Channel) : List String :=
  if channel.models = "" then [] else split (trimChar channel.models ',') ','

/-- `strings.Join`. -/
def join (names : List String) : String := String.ofList (Joined.joined ',' (names.map String.toList))

end Names

section Detection

variable (library : Library)

/-- The sources and targets of the redirects, as the loop over the map meets its entries. -/
def normalizeChannelModelMapping (order : MapOrder (String × String)) (modelMapping : Option String) :
    Dict String String :=
  match modelMapping with
  | none => .empty
  | some mapping =>
    let rawMapping := trimSpace mapping
    if rawMapping = "" ∨ rawMapping = "\x7b\x7d" then .empty
    else match library.unmarshal rawMapping with
      | none => .empty
      | some parsed => (order.visit parsed).foldl (fun normalized entry ↦
          let normalizedSource := trimSpace entry.1
          let normalizedTarget := trimSpace entry.2
          if normalizedSource = "" ∨ normalizedTarget = "" then normalized
          else normalized.set normalizedSource normalizedTarget) .empty

/-- Whether an entry of the ignored models tells a model to be ignored. -/
def ignores (ignoredModel modelName : String) : Bool :=
  if hasPrefix ignoredModel "regex:" then
    library.matchString (trimSpace (trimPrefix ignoredModel "regex:")) modelName = some true
  else ignoredModel = modelName

def collectPendingUpstreamModelChangesFromModels (localModels upstreamModels ignoredModels : List String)
    (modelMapping : Dict String String) : List String × List String :=
  let localModels := normalizeModelNames localModels
  let upstreamModels := normalizeModelNames upstreamModels
  let normalizedIgnoredModels := normalizeModelNames ignoredModels
  let redirectSources := modelMapping.items.map Prod.fst
  let redirectTargets := modelMapping.items.map Prod.snd
  let pendingAdd := upstreamModels.filter fun modelName ↦
    !decide (modelName ∈ localModels ∨ modelName ∈ redirectTargets) &&
      !normalizedIgnoredModels.any fun ignoredModel ↦ ignores library ignoredModel modelName
  let pendingRemove := localModels.filter fun modelName ↦
    modelName ∉ redirectSources ∧ modelName ∉ upstreamModels
  (normalizeModelNames pendingAdd, normalizeModelNames pendingRemove)

structure Checked where
  stored : Stored
  modelsChanged : Bool := false
  autoAdded : ℕ := 0
  err : Option String := none

/-- A check; `fetched` is what the provider lists. -/
def checkAndPersistChannelUpstreamModelUpdates (order : MapOrder (String × String)) (now minInterval : ℤ)
    (fetched : Except String (List String)) (force allowAutoApply : Bool) (s : Stored) : Checked :=
  if !force ∧ s.settings.lastCheckTime > 0 ∧ now - s.settings.lastCheckTime < minInterval then
    { stored := s }
  else match fetched with
    | .error e => { stored := { s with settings := { s.settings with lastCheckTime := now } }, err := some e }
    | .ok upstreamModels =>
      let (pendingAddModels, pendingRemoveModels) := collectPendingUpstreamModelChangesFromModels library
        (getModels s.channel) upstreamModels s.settings.ignoredModels
        (normalizeChannelModelMapping library order s.modelMapping)
      if allowAutoApply ∧ s.settings.autoSyncEnabled ∧ pendingAddModels ≠ [] then
        let originModels := normalizeModelNames (getModels s.channel)
        let mergedModels := mergeModelNames originModels pendingAddModels
        let settings :=
          { s.settings with
            lastCheckTime := now
            lastDetectedModels := []
            lastRemovedModels := pendingRemoveModels }
        if mergedModels.length > originModels.length then
          let channel := { s.channel with models := join mergedModels }
          { stored :=
              { s with
                channel := channel
                settings := settings
                abilities := (AbilityUpdates.updateAbilities {} channel false s.abilities).abilities }
            modelsChanged := true
            autoAdded := mergedModels.length - originModels.length }
        else { stored := { s with settings := settings } }
      else
        { stored :=
            { s with
              settings :=
                { s.settings with
                  lastCheckTime := now
                  lastDetectedModels := pendingAddModels
                  lastRemovedModels := pendingRemoveModels } } }

end Detection

section Application

structure Applied where
  addedModels : List String
  removedModels : List String
  remainingModels : List String
  remainingRemoveModels : List String
  modelsChanged : Bool
  stored : Stored

def applyChannelUpstreamModelUpdates (now : ℤ)
    (addModelsInput ignoreModelsInput removeModelsInput : List String)
    (s : Stored) : Applied :=
  let pendingAddModels := normalizeModelNames s.settings.lastDetectedModels
  let pendingRemoveModels := normalizeModelNames s.settings.lastRemovedModels
  let addModels := intersectModelNames addModelsInput pendingAddModels
  let ignoreModels := intersectModelNames ignoreModelsInput pendingAddModels
  let removeModels := subtractModelNames (intersectModelNames removeModelsInput pendingRemoveModels) addModels
  let originModels := normalizeModelNames (getModels s.channel)
  let nextModels := applySelectedModelChanges originModels addModels removeModels
  let modelsChanged : Bool := originModels ≠ nextModels
  let channel := if modelsChanged then { s.channel with models := join nextModels } else s.channel
  let ignored := mergeModelNames s.settings.ignoredModels ignoreModels
  let remainingModels := subtractModelNames pendingAddModels (addModels ++ ignoreModels)
  let remainingRemoveModels := subtractModelNames pendingRemoveModels removeModels
  { addedModels := addModels
    removedModels := removeModels
    remainingModels := remainingModels
    remainingRemoveModels := remainingRemoveModels
    modelsChanged := modelsChanged
    stored :=
      { s with
        channel := channel
        settings :=
          { s.settings with
            ignoredModels := if addModels ≠ [] then subtractModelNames ignored addModels else ignored
            lastDetectedModels := remainingModels
            lastRemovedModels := remainingRemoveModels
            lastCheckTime := now }
        abilities := if modelsChanged then
            (AbilityUpdates.updateAbilities {} channel false s.abilities).abilities
          else s.abilities } }

end Application

end AllAiTools.NewApi.Controller.UpstreamModels
