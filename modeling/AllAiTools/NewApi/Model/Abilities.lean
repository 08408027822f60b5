import AllAiTools.Foundation.Table
import AllAiTools.NewApi.Common.Str
import AllAiTools.Foundation.Lottery
import AllAiTools.Foundation.Sorting

namespace AllAiTools.NewApi.Model.Channels

open Foundation Common.Str

def channelStatusEnabled : ℤ := 1
def channelStatusManuallyDisabled : ℤ := 2
def channelStatusAutoDisabled : ℤ := 3

/-- The state of a channel's keys, by the index of the key; a missing map is an empty one. -/
structure ChannelInfo where
  isMultiKey : Bool := false
  multiKeyStatusList : ℕ → Option ℤ := fun _ ↦ none
  multiKeyDisabledReason : ℕ → Option String := fun _ ↦ none
  multiKeyDisabledTime : ℕ → Option ℤ := fun _ ↦ none
  multiKeyPollingIndex : ℤ := 0
  multiKeyMode : String := ""

/-- The two entries of the free-form information that a status update writes. -/
structure OtherInfo where
  statusReason : Option String := none
  statusTime : Option ℤ := none
  deriving DecidableEq

structure Channel where
  id : ℤ
  key : String := ""
  status : ℤ := channelStatusEnabled
  weight : Option ℕ := some 0
  models : String := ""
  group : String := "default"
  priority : Option ℤ := some 0
  otherInfo : OtherInfo := {}
  channelInfo : ChannelInfo := {}
  keys : List String := []

namespace Channel

def getPriority (channel : Channel) : ℤ := channel.priority.getD 0

def getWeight (channel : Channel) : ℕ := channel.weight.getD 0

/-- `parse` reads a JSON array as the texts of its elements. -/
def getKeys (parse : String → Option (List String)) (channel : Channel) : List String :=
  if channel.key = "" then []
  else if channel.keys ≠ [] then channel.keys
  else
    let trimmed := trimSpace channel.key
    match if hasPrefix trimmed "[" then parse trimmed else none with
    | some res => res
    | none => split (trimChar channel.key '\n') '\n'

end Channel

/-- Names of models with a parameter in them are matched by their wildcard. -/
def handleThinkingBudgetModel (name pre wildcard : String) : String :=
  if hasPrefix name pre && contains name "-thinking-" then wildcard else name

def formatMatchingModelName (name : String) : String :=
  let name :=
    if hasPrefix name "gemini-2.5-flash-lite" then
      handleThinkingBudgetModel name "gemini-2.5-flash-lite" "gemini-2.5-flash-lite-thinking-*"
    else if hasPrefix name "gemini-2.5-flash" then
      handleThinkingBudgetModel name "gemini-2.5-flash" "gemini-2.5-flash-thinking-*"
    else if hasPrefix name "gemini-2.5-pro" then
      handleThinkingBudgetModel name "gemini-2.5-pro" "gemini-2.5-pro-thinking-*"
    else name
  let name := if hasPrefix name "gpt-4-gizmo" then "gpt-4-gizmo-*" else name
  if hasPrefix name "gpt-4o-gizmo" then "gpt-4o-gizmo-*" else name

end AllAiTools.NewApi.Model.Channels

namespace AllAiTools.NewApi.Model.Abilities

open Foundation Common.Str Channels

/-- A channel without a priority gets the column's default, zero. -/
structure Ability where
  group : String
  model : String
  channelId : ℤ
  enabled : Bool
  priority : ℤ
  weight : ℕ
  deriving DecidableEq

def Ability.key (a : Ability) : String × String × ℤ := (a.group, a.model, a.channelId)

structure Database where
  channels : Table Channel.id
  abilities : Table Ability.key

section AddAbilities

/-- The pairs of a group and a model that get an ability: the first of those that share
their key in the set. -/
def firstOfKey : List (String × String) → List String → List (String × String)
  | [], _ => []
  | (group, model) :: pairs, seen =>
    let key := group ++ "|" ++ model
    if key ∈ seen then firstOfKey pairs seen
    else (group, model) :: firstOfKey pairs (key :: seen)

def abilityPairs (channel : Channel) : List (String × String) :=
  firstOfKey ((split channel.models ',').flatMap fun model ↦
    (split channel.group ',').map fun group ↦ (group, model)) []

def abilityOf (channel : Channel) (pair : String × String) : Ability where
  group := pair.1
  model := pair.2
  channelId := channel.id
  enabled := channel.status = channelStatusEnabled
  priority := channel.getPriority
  weight := channel.getWeight

/-- `ON CONFLICT DO NOTHING`. -/
def createAbility (t : Table Ability.key) (a : Ability) : Table Ability.key := (t.insert a).getD t

def addAbilities (t : Table Ability.key) (channel : Channel) : Table Ability.key :=
  ((abilityPairs channel).map (abilityOf channel)).foldl createAbility t

/-- The abilities as `FixAbility` makes them anew from the channels. -/
def rebuilt (channels : Table Channel.id) : Table Ability.key :=
  channels.rows.foldl addAbilities .empty

end AddAbilities

section GetChannel

variable (db : Database)

/-- `WHERE group = ? AND model = ? AND enabled`. -/
def enabledFor (group model : String) : List Ability :=
  db.abilities.rows.filter fun a ↦ a.group = group ∧ a.model = model ∧ a.enabled

/-- `DISTINCT(priority) ... ORDER BY priority DESC`. -/
def distinctDescending (priorities : List ℤ) : List ℤ :=
  priorities.dedup.insertionSort (· ≥ ·)

def getPriority (group model : String) (retry : ℕ) : Except String ℤ :=
  let priorities := distinctDescending ((enabledFor db group model).map (·.priority))
  match priorities.getLast? with
  | none => .error "数据库一致性被破坏"
  | some last => .ok (priorities.getD retry last)

/-- The abilities that a retry chooses from: at first those with the highest priority. -/
def channelQuery (group model : String) (retry : ℕ) : Except String (List Ability) :=
  let rows := enabledFor db group model
  if retry = 0 then .ok (rows.filter fun a ↦ ∀ b ∈ rows, b.priority ≤ a.priority)
  else match getPriority db group model retry with
    | .error e => .error e
    | .ok priority => .ok (rows.filter fun a ↦ a.priority = priority)

/-- The loop over the abilities; the id of no channel is zero. -/
def chooseAbility : List Ability → ℤ → ℤ
  | [], _ => 0
  | ability :: abilities, weight =>
    let weight := weight - (ability.weight + 10)
    if weight ≤ 0 then ability.channelId else chooseAbility abilities weight

/-- The channel that the database path returns; `byWeight` is the order of the query. -/
def getChannel (byWeight : Sorting Ability) (group model : String) (retry : ℕ) :
    Lottery (Except String (Option Channel)) :=
  match channelQuery db group model retry with
  | .error e => .sure (.error e)
  | .ok rows =>
    let abilities := byWeight.sort (fun a ↦ a.weight) rows
    if abilities = [] then .sure (.ok none)
    else .draw (abilities.map fun a ↦ a.weight + 10).sum fun n ↦
      match db.channels.find (chooseAbility abilities n) with
      | none => .error "record not found"
      | some channel => .ok (some channel)

end GetChannel

end AllAiTools.NewApi.Model.Abilities
