import AllAiTools.NewApi.Model.Abilities

namespace AllAiTools.NewApi.Model.CachedChannels

open Foundation Common.Str Channels Abilities

/-- The cache: for a group and a model the ids of the enabled channels that list them,
and all channels by their id. -/
structure ChannelCache where
  group2model2channels : String → String → List ℤ
  channelsIDM : ℤ → Option Channel

section Init

/-- The id is appended to the list of one group and model. -/
def appendId (lists : String → String → List ℤ) (id : ℤ) (pair : String × String) :
    String → String → List ℤ := fun group model ↦
  if (group, model) = pair then lists group model ++ [id] else lists group model

def listChannel (lists : String → String → List ℤ) (channel : Channel) :
    String → String → List ℤ :=
  if channel.status ≠ channelStatusEnabled then lists
  else ((split channel.group ',').flatMap fun group ↦
    (split channel.models ',').map fun model ↦ (group, model)).foldl
      (fun lists pair ↦ appendId lists channel.id pair) lists

/-- A polling channel goes on where it was before the sync. -/
def keepPollingIndex (parse : String → Option (List String)) (old : ℤ → Option Channel)
    (channel : Channel) : Channel :=
  if channel.channelInfo.isMultiKey then
    let channel := { channel with keys := channel.getKeys parse }
    match if channel.channelInfo.multiKeyMode = "polling" then old channel.id else none with
    | none => channel
    | some oldChannel =>
      if oldChannel.channelInfo.isMultiKey ∧ oldChannel.channelInfo.multiKeyMode = "polling" then
        { channel with channelInfo := { channel.channelInfo with
            multiKeyPollingIndex := oldChannel.channelInfo.multiKeyPollingIndex } }
      else channel
  else channel

/-- The groups that get a map of their own are those with an ability; the code panics on
an enabled channel with another one. -/
def initChannelCache (parse : String → Option (List String)) (byPriority : Sorting ℤ)
    (old : ℤ → Option Channel) (db : Database) : Option ChannelCache :=
  if ∀ channel ∈ db.channels.rows, channel.status = channelStatusEnabled →
      ∀ group ∈ split channel.group ',', ∃ a ∈ db.abilities.rows, a.group = group then
    let lists := db.channels.rows.foldl listChannel fun _ _ ↦ []
    let priority (id : ℤ) : ℤ := ((db.channels.find id).map (·.getPriority)).getD 0
    some
      { group2model2channels := fun group model ↦ byPriority.sort priority (lists group model)
        channelsIDM := fun id ↦ (db.channels.find id).map (keepPollingIndex parse old) }
  else none

end Init

section Select

variable (cache : ChannelCache)

def missing (id : ℤ) : String :=
  "数据库一致性错误，渠道# " ++ toString id ++ " 不存在，请联系管理员修复"

/-- The channels of a list of ids, or the first id without one. -/
def lookUp : List ℤ → Except String (List Channel)
  | [] => .ok []
  | id :: ids =>
    match cache.channelsIDM id with
    | none => .error (missing id)
    | some channel => do
      let channels ← lookUp ids
      .ok (channel :: channels)

/-- The priority of a retry: the last one for a retry past the end. -/
def retryPriority (priorities : List ℤ) (retry : ℕ) : ℤ :=
  let sorted := distinctDescending priorities
  sorted.getD (if sorted.length ≤ retry then sorted.length - 1 else retry) 0

def targetChannels (channels : List Channel) (retry : ℕ) : List Channel :=
  let target := retryPriority (channels.map (·.getPriority)) retry
  channels.filter fun channel ↦ channel.getPriority = target

def chooseChannel (smoothingFactor smoothingAdjustment : ℕ) : List Channel → ℤ → Option Channel
  | [], _ => none
  | channel :: channels, randomWeight =>
    let randomWeight := randomWeight -
      (channel.getWeight * smoothingFactor + smoothingAdjustment : ℕ)
    if randomWeight < 0 then some channel
    else chooseChannel smoothingFactor smoothingAdjustment channels randomWeight

def drawChannel (targets : List Channel) : Lottery (Except String (Option Channel)) :=
  let sumWeight := (targets.map (·.getWeight)).sum
  let draw (sumWeight smoothingFactor smoothingAdjustment : ℕ) :
      Lottery (Except String (Option Channel)) :=
    .draw (sumWeight * smoothingFactor) fun n ↦
      match chooseChannel smoothingFactor smoothingAdjustment targets n with
      | none => .error "channel not found"
      | some channel => .ok (some channel)
  if sumWeight = 0 then draw (targets.length * 100) 1 100
  else if sumWeight / targets.length < 10 then draw sumWeight 100 0
  else draw sumWeight 1 0

/-- The ids for a model: those listed under its name, else those under the name that
stands for it. -/
def satisfied (group model : String) : List ℤ :=
  let channels := cache.group2model2channels group model
  if channels = [] then cache.group2model2channels group (formatMatchingModelName model)
  else channels

def getRandomSatisfiedChannel (group model : String) (retry : ℕ) :
    Lottery (Except String (Option Channel)) :=
  match satisfied cache group model with
  | [] => .sure (.ok none)
  | [id] =>
    match cache.channelsIDM id with
    | some channel => .sure (.ok (some channel))
    | none => .sure (.error (missing id))
  | ids =>
    match lookUp cache ids with
    | .error e => .sure (.error e)
    | .ok channels =>
      let targets := targetChannels channels retry
      if targets = [] then
        .sure (.error ("no channel found, group: " ++ group ++ ", model: " ++ model ++
          ", priority: " ++ toString (retryPriority (channels.map (·.getPriority)) retry)))
      else drawChannel targets

end Select

section Update

/-- A channel that is not enabled is taken out of every list: at its first place. -/
def cacheUpdateChannelStatus (cache : ChannelCache) (id status : ℤ) : ChannelCache where
  group2model2channels := fun group model ↦
    if status ≠ channelStatusEnabled then (cache.group2model2channels group model).erase id
    else cache.group2model2channels group model
  channelsIDM := fun i ↦
    if i = id then (cache.channelsIDM i).map fun channel ↦ { channel with status }
    else cache.channelsIDM i

end Update

end AllAiTools.NewApi.Model.CachedChannels
