import AllAiTools.NewApi.Model.ChannelStatus

namespace AllAiTools.NewApi.Model.PollingKeys

open Common.Str Channels ChannelStatus

section Polling

def multiKeyModeRandom : String := "random"
def multiKeyModePolling : String := "polling"

def getStatus (statusList : ℕ → Option ℤ) (idx : ℕ) : ℤ :=
  (statusList idx).getD channelStatusEnabled

def enabledIdx (keys : List String) (statusList : ℕ → Option ℤ) : List ℕ :=
  (List.range keys.length).filter fun i ↦ getStatus statusList i = channelStatusEnabled

/-- The first enabled key from a place on, around the list. -/
def nextEnabled (keys : List String) (statusList : ℕ → Option ℤ) (start : ℕ) : Option ℕ :=
  ((List.range keys.length).map fun i ↦ (start + i) % keys.length).find? fun idx ↦
    getStatus statusList idx = channelStatusEnabled

/-- The key with its index or an error, the copy afterwards and whether it is to be saved. -/
structure Polled where
  result : Except String (String × ℕ)
  channel : Channel
  saves : Bool

def handOut (keys : List String) (idx : ℕ) : Except String (String × ℕ) :=
  .ok (keys.getD idx "", idx)

/-- The next enabled key after the saved place, which moves on. -/
def pollKey (keys : List String) (channel : Channel) (channelInfo : ChannelInfo) : Polled :=
  let info := channel.channelInfo
  let start := channelInfo.multiKeyPollingIndex
  let start := if start < 0 ∨ start ≥ keys.length then 0 else start
  match nextEnabled keys info.multiKeyStatusList start.toNat with
  | some idx =>
    let info := { info with multiKeyPollingIndex := ((idx + 1) % keys.length : ℕ) }
    ⟨handOut keys idx, { channel with channelInfo := info }, true⟩
  | none => ⟨handOut keys ((enabledIdx keys info.multiKeyStatusList).headD 0), channel, true⟩

/-- Without the memory cache: `stored` is what the database holds, nothing where it cannot be read,
and `intn` the random choice. -/
def getNextEnabledKey (parse : String → Option (List String)) (channel : Channel)
    (stored : Option ChannelInfo) (intn : ℕ → ℕ) : Polled :=
  let info := channel.channelInfo
  let keys := channel.getKeys parse
  let enabled := enabledIdx keys info.multiKeyStatusList
  if ¬info.isMultiKey then ⟨.ok (channel.key, 0), channel, false⟩
  else if keys = [] then ⟨.error "no keys available", channel, false⟩
  else if enabled = [] then ⟨.error "no enabled keys", channel, false⟩
  else if info.multiKeyMode = multiKeyModeRandom then
    ⟨handOut keys (enabled.getD (intn enabled.length) 0), channel, false⟩
  else if info.multiKeyMode = multiKeyModePolling then
    match stored with
    | none => ⟨.error "record not found", channel, false⟩
    | some channelInfo => pollKey keys channel channelInfo
  else ⟨handOut keys (enabled.headD 0), channel, false⟩

end Polling

section Copies

/-- What a copy of the row is held for: polling, with a save due or not, or a status update, with
its change made already. -/
inductive Job where
  | poll (saves : Bool)
  | status (call : StatusCall)

structure Copy where
  channel : Channel
  job : Job

/-- The row of a channel and the copies that requests have read of it. -/
structure Shared where
  stored : Channel
  copies : ℕ → Option Copy

/-- A read or a write of the database; `reachable` and `written` tell whether it succeeds. -/
inductive Event where
  | load (i : ℕ)
  | poll (i : ℕ) (reachable : Bool) (intn : ℕ → ℕ)
  | saveChannelInfo (i : ℕ) (written : Bool)
  | readStatus (i : ℕ) (call : StatusCall)
  | saveWithoutKey (i : ℕ) (written : Bool)

variable (parse : String → Option (List String))

/-- What a status update makes of the copy it has read. -/
def changeStatus (channel : Channel) (call : StatusCall) : Channel :=
  if channel.channelInfo.isMultiKey then
    handlerMultiKeyUpdate parse call.now channel call.usingKey call.status call.reason
  else
    { channel with
      otherInfo := { statusReason := some call.reason, statusTime := some call.now }
      status := call.status }

/-- A copy that an event reads from the row. -/
def Shared.taken (s : Shared) : Event → Option (ℕ × Copy)
  | .load i => if (s.copies i).isNone then some (i, ⟨s.stored, .poll false⟩) else none
  | .readStatus i call =>
    if (s.copies i).isNone ∧ call.reachable ∧ s.stored.status ≠ call.status then
      some (i, ⟨changeStatus parse s.stored call, .status call⟩)
    else none
  | _ => none

/-- A copy that an event writes to the row, and the row afterwards. -/
def Shared.written (s : Shared) : Event → Option (ℕ × Copy × Channel)
  | .saveChannelInfo i true =>
    match s.copies i with
    | some ⟨channel, .poll true⟩ =>
      some (i, ⟨channel, .poll true⟩, { s.stored with channelInfo := channel.channelInfo })
    | _ => none
  | .saveWithoutKey i true =>
    match s.copies i with
    | some ⟨channel, .status call⟩ =>
      if channel.id ≠ 0 then
        some (i, ⟨channel, .status call⟩, { channel with key := s.stored.key })
      else none
    | _ => none
  | _ => none

/-- The place whose copy an event changes, with what it holds afterwards. -/
def Shared.changed (s : Shared) : Event → Option (ℕ × Option Copy)
  | .poll i reachable intn =>
    match s.copies i with
    | some ⟨channel, .poll false⟩ =>
      let polled := getNextEnabledKey parse channel
        (if reachable then some s.stored.channelInfo else none) intn
      some (i, some ⟨polled.channel, .poll polled.saves⟩)
    | _ => none
  | .saveChannelInfo i _ =>
    match s.copies i with
    | some ⟨channel, .poll true⟩ => some (i, some ⟨channel, .poll false⟩)
    | _ => none
  | .saveWithoutKey i _ =>
    match s.copies i with
    | some ⟨_, .status _⟩ => some (i, none)
    | _ => none
  | event => (s.taken parse event).map fun (i, copy) ↦ (i, some copy)

def Shared.step (s : Shared) (event : Event) : Shared where
  stored := ((s.written event).map (·.2.2)).getD s.stored
  copies := match s.changed parse event with
    | some (i, copy) => Function.update s.copies i copy
    | none => s.copies

end Copies

end AllAiTools.NewApi.Model.PollingKeys
