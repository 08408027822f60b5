import AllAiTools.NewApi.Model.Abilities

namespace AllAiTools.NewApi.Model.AbilityUpdates

open Foundation Common.Str Channels Abilities

/-- The statements of an update that fail, and how. -/
structure Faults where
  begin : Option String := none
  delete : Option String := none
  insert : List Ability → Option String := fun _ ↦ none
  commit : Option String := none

/-- What a call returns and the rows it leaves. -/
structure Outcome where
  err : Option String
  abilities : Table Ability.key

/-- The rows are inserted by fifty; a chunk that fails inserts none of its rows. -/
def createChunks (faults : Faults) (t : Table Ability.key) : List (List Ability) → Outcome
  | [] => ⟨none, t⟩
  | chunk :: chunks => match faults.insert chunk with
    | some e => ⟨some e, t⟩
    | none => createChunks faults (chunk.foldl createAbility t) chunks

variable (faults : Faults) (channel : Channel)

def channelAbilities : List Ability := (abilityPairs channel).map (abilityOf channel)

def addAbilities (t : Table Ability.key) : Outcome :=
  createChunks faults t ((channelAbilities channel).toChunks 50)

/-- `DELETE` of the rows of a channel. -/
def deleteAbilities (t : Table Ability.key) (id : ℤ) : Table Ability.key where
  rows := t.rows.filter (·.channelId ≠ id)
  nodup := t.nodup.sublist (List.filter_sublist.map _)

/-- The two steps of an update inside a transaction. -/
def replaceAbilities (t : Table Ability.key) : Outcome :=
  match faults.delete with
  | some e => ⟨some e, t⟩
  | none => addAbilities faults channel (deleteAbilities t channel.id)

/-- Without a transaction of the caller the update has one of its own, which a failure rolls
back; the caller of one that is given rolls it back. -/
def updateAbilities (inTx : Bool) (t : Table Ability.key) : Outcome :=
  if inTx then replaceAbilities faults channel t
  else match faults.begin with
    | some e => ⟨some e, t⟩
    | none => match replaceAbilities faults channel t with
      | ⟨some e, _⟩ => ⟨some e, t⟩
      | ⟨none, t'⟩ => match faults.commit with
        | some e => ⟨some e, t⟩
        | none => ⟨none, t'⟩

/-- The loop of a batch in its transaction. -/
def updateEach (faults : Channel → Faults) : List Channel → Table Ability.key → Outcome
  | [], t => ⟨none, t⟩
  | channel :: channels, t => match updateAbilities (faults channel) channel true t with
    | ⟨some e, t'⟩ => ⟨some e, t'⟩
    | ⟨none, t'⟩ => updateEach faults channels t'

/-- The abilities of the channels whose tag is set, all in one transaction. -/
def batchSetChannelTag (tx : Faults) (faults : Channel → Faults) (channels : List Channel)
    (t : Table Ability.key) : Outcome :=
  match tx.begin with
  | some e => ⟨some e, t⟩
  | none => match updateEach faults channels t with
    | ⟨some e, _⟩ => ⟨some e, t⟩
    | ⟨none, t'⟩ => match tx.commit with
      | some e => ⟨some e, t⟩
      | none => ⟨none, t'⟩

end AllAiTools.NewApi.Model.AbilityUpdates
