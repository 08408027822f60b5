import AllAiTools.NewApi.Model.CachedChannels

namespace AllAiTools.NewApi.Model.ChannelStatus

open Foundation Common.Str Channels Abilities CachedChannels

def hasEnabledMultiKey (keys : List String) (statusList : ℕ → Option ℤ) : Bool :=
  (List.range keys.length).any fun i ↦
    match statusList i with
    | none => true
    | some status => status = channelStatusEnabled

def handlerMultiKeyUpdate (parse : String → Option (List String)) (now : ℤ) (channel : Channel)
    (usingKey : String) (status : ℤ) (reason : String) : Channel :=
  let keys := channel.getKeys parse
  if keys = [] then { channel with status }
  else
    match keys.idxOf? usingKey with
    | none =>
      if usingKey ≠ "" then channel
      else { channel with status, otherInfo := { statusReason := some reason, statusTime := some now } }
    | some keyIndex =>
      let info := channel.channelInfo
      let info :=
        if status = channelStatusEnabled then
          { info with multiKeyStatusList := Function.update info.multiKeyStatusList keyIndex none }
        else
          { info with
            multiKeyStatusList := Function.update info.multiKeyStatusList keyIndex (some status)
            multiKeyDisabledReason :=
              Function.update info.multiKeyDisabledReason keyIndex (some reason)
            multiKeyDisabledTime := Function.update info.multiKeyDisabledTime keyIndex (some now) }
      let channel := { channel with channelInfo := info }
      if ¬ hasEnabledMultiKey keys info.multiKeyStatusList then
        { channel with
          status := channelStatusAutoDisabled
          otherInfo := { statusReason := some "All keys are disabled", statusTime := some now } }
      else if status = channelStatusEnabled then { channel with status := channelStatusEnabled }
      else channel

/-- The cache and the database. -/
structure ChannelStore where
  cache : ChannelCache
  db : Database

/-- A call of `UpdateChannelStatus` for a channel, with the time, and whether the reads and
writes of the database succeed. -/
structure StatusCall where
  usingKey : String
  status : ℤ
  reason : String
  now : ℤ
  reachable : Bool

def updateAbilityStatus (t : Table Ability.key) (channelId : ℤ) (status : Bool) :
    Table Ability.key :=
  t.mapRows (fun a ↦ if a.channelId = channelId then { a with enabled := status } else a)
    (fun a ↦ by by_cases h : a.channelId = channelId <;> simp [h, Ability.key])

section Update

variable (parse : String → Option (List String)) (channelId : ℤ) (call : StatusCall)

/-- The cache after the call, or nothing where the call ends there. -/
def updateCached (cache : ChannelCache) : Option ChannelCache :=
  match cache.channelsIDM channelId with
  | none => none
  | some channelCache =>
    if channelCache.channelInfo.isMultiKey then
      let channel := handlerMultiKeyUpdate parse call.now channelCache call.usingKey call.status
        call.reason
      -- the cached channel is changed in place
      let cache := { cache with channelsIDM := Function.update cache.channelsIDM channelId channel }
      if channelCache.status ≠ channel.status then
        some (cacheUpdateChannelStatus cache channelId channel.status)
      else some cache
    else if channelCache.status = call.status then none
    else some (cacheUpdateChannelStatus cache channelId call.status)

def saveWithoutKey (db : Database) (channel : Channel) : Option Database :=
  if channel.id = 0 then none
  else if call.reachable then some { db with channels := db.channels.save channel }
  else none

/-- The database after the call, and what it reports. -/
def updateStored (db : Database) : Bool × Database :=
  match if call.reachable then db.channels.find channelId else none with
  | none => (false, db)
  | some channel =>
    if channel.status = call.status then (false, db)
    else
      let updated :=
        if channel.channelInfo.isMultiKey then
          handlerMultiKeyUpdate parse call.now channel call.usingKey call.status call.reason
        else
          { channel with
            otherInfo := { statusReason := some call.reason, statusTime := some call.now }
            status := call.status }
      let shouldUpdateAbilities :=
        ¬ channel.channelInfo.isMultiKey ∨ channel.status ≠ updated.status
      let saved := saveWithoutKey call db updated
      let db := saved.getD db
      -- deferred: the abilities change also where the save failed
      (saved.isSome,
        if shouldUpdateAbilities ∧ call.reachable then
          { db with abilities :=
              updateAbilityStatus db.abilities channelId (call.status = channelStatusEnabled) }
        else db)

/-- Abilities are written with the status of the call, not with that of the channel. -/
def updateChannelStatus (s : ChannelStore) : Bool × ChannelStore :=
  match updateCached parse channelId call s.cache with
  | none => (false, s)
  | some cache =>
    let (success, db) := updateStored parse channelId call s.db
    (success, { cache, db })

end Update

end AllAiTools.NewApi.Model.ChannelStatus
