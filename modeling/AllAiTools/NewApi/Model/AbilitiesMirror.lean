import AllAiTools.NewApi.Model.AbilityUpdates

namespace AllAiTools.NewApi.Model.AbilitiesMirror

open Foundation Common.Str Channels AbilityUpdates
open Abilities hiding addAbilities

section Chunks

variable {α : Type}

theorem flatten_go (n : ℕ) (l : List α) (taken : Array α) (chunks : Array (List α)) :
    (List.toChunks.go n l taken chunks).flatten =
      chunks.toList.flatten ++ taken.toList ++ l := by
  induction l generalizing taken chunks with
  | nil => simp [List.toChunks.go]
  | cons a l ih =>
    rw [List.toChunks.go]
    split_ifs
    · rw [ih]
      simp
    · rw [ih]
      simp

theorem flatten_toChunks (n : ℕ) (l : List α) : (l.toChunks n).flatten = l := by
  cases l with
  | nil => cases n <;> rfl
  | cons a l =>
    cases n with
    | zero => simp [List.toChunks]
    | succ n =>
      rw [List.toChunks, flatten_go]
      · simp
      · exact Nat.succ_ne_zero n

end Chunks

section Pairs

/-- The text that the set of an update knows a pair by. -/
def joined (pair : String × String) : String := pair.1 ++ "|" ++ pair.2

theorem firstOfKey_cons (first : String × String) (pairs : List (String × String))
    (seen : List String) : firstOfKey (first :: pairs) seen =
      if joined first ∈ seen then firstOfKey pairs seen
      else first :: firstOfKey pairs (joined first :: seen) :=
  rfl

theorem mem_of_firstOfKey {pairs : List (String × String)} {seen : List String}
    {pair : String × String} (h : pair ∈ firstOfKey pairs seen) :
    pair ∈ pairs ∧ joined pair ∉ seen := by
  induction pairs generalizing seen with
  | nil => cases h
  | cons first pairs ih =>
    rw [firstOfKey_cons] at h
    split_ifs at h with hseen
    · obtain ⟨hmem, hfresh⟩ := ih h
      exact ⟨List.mem_cons_of_mem _ hmem, hfresh⟩
    · rcases List.mem_cons.mp h with rfl | hrest
      · exact ⟨List.mem_cons_self, hseen⟩
      · obtain ⟨hmem, hfresh⟩ := ih hrest
        exact ⟨List.mem_cons_of_mem _ hmem, fun hin ↦ hfresh (List.mem_cons_of_mem _ hin)⟩

theorem firstOfKey_nodup (pairs : List (String × String)) (seen : List String) :
    ((firstOfKey pairs seen).map joined).Nodup := by
  induction pairs generalizing seen with
  | nil => exact List.nodup_nil
  | cons first pairs ih =>
    rw [firstOfKey_cons]
    split_ifs with hseen
    · exact ih seen
    · rw [List.map_cons, List.nodup_cons]
      refine ⟨fun hmem ↦ ?_, ih _⟩
      obtain ⟨pair, hpair, hjoined⟩ := List.mem_map.mp hmem
      refine (mem_of_firstOfKey hpair).2 ?_
      rw [hjoined]
      exact List.mem_cons_self

/-- Where no two pairs share their text, every pair is kept. -/
theorem firstOfKey_mem {pairs : List (String × String)} {seen : List String}
    (hinj : ∀ p ∈ pairs, ∀ q ∈ pairs, joined p = joined q → p = q) {pair : String × String}
    (hmem : pair ∈ pairs) (hfresh : joined pair ∉ seen) : pair ∈ firstOfKey pairs seen := by
  induction pairs generalizing seen with
  | nil => cases hmem
  | cons first pairs ih =>
    have hrest : ∀ p ∈ pairs, ∀ q ∈ pairs, joined p = joined q → p = q := fun p hp q hq ↦
      hinj p (List.mem_cons_of_mem _ hp) q (List.mem_cons_of_mem _ hq)
    rw [firstOfKey_cons]
    by_cases hfirst : pair = first
    · subst hfirst
      rw [if_neg hfresh]
      exact List.mem_cons_self
    · have htail := List.mem_of_ne_of_mem hfirst hmem
      split_ifs with hseen
      · exact ih hrest htail hfresh
      · refine List.mem_cons_of_mem _ (ih hrest htail fun hin ↦ ?_)
        rcases List.mem_cons.mp hin with hsame | hold
        · exact hfirst (hinj pair hmem first List.mem_cons_self hsame)
        · exact hfresh hold

end Pairs

section Rows

variable (channel : Channel)

def groupsOf : List String := split channel.group ','

def modelsOf : List String := split channel.models ','

/-- No two different pairs of a group and a model read the same when they are joined. -/
def Separate : Prop :=
  ∀ group ∈ groupsOf channel, ∀ model ∈ modelsOf channel, ∀ group' ∈ groupsOf channel,
    ∀ model' ∈ modelsOf channel, joined (group, model) = joined (group', model') →
      group = group' ∧ model = model'

/-- One row for each pair of a group and a model, and the rows of other channels as before. -/
structure Mirrors (before after : Table Ability.key) : Prop where
  own : (after.rows.filter (·.channelId = channel.id)).Perm
    (((groupsOf channel).dedup ×ˢ (modelsOf channel).dedup).map (abilityOf channel))
  others : after.rows.filter (·.channelId ≠ channel.id) =
    before.rows.filter (·.channelId ≠ channel.id)

variable {channel}

theorem abilityOf_injective : Function.Injective (abilityOf channel) := by
  intro p q h
  exact Prod.ext (congrArg Ability.group h) (congrArg Ability.model h)

theorem mem_abilityPairs {pair : String × String} (h : pair ∈ abilityPairs channel) :
    pair.1 ∈ groupsOf channel ∧ pair.2 ∈ modelsOf channel := by
  obtain ⟨hmem, -⟩ := mem_of_firstOfKey h
  obtain ⟨model, hmodel, hpair⟩ := List.mem_flatMap.mp hmem
  obtain ⟨group, hgroup, rfl⟩ := List.mem_map.mp hpair
  exact ⟨hgroup, hmodel⟩

theorem abilityPairs_nodup : (abilityPairs channel).Nodup :=
  List.Nodup.of_map joined (firstOfKey_nodup _ _)

theorem abilityPairs_mem (h : Separate channel) {group model : String}
    (hgroup : group ∈ groupsOf channel) (hmodel : model ∈ modelsOf channel) :
    (group, model) ∈ abilityPairs channel := by
  refine firstOfKey_mem ?_ ?_ List.not_mem_nil
  · intro p hp q hq hjoined
    obtain ⟨model₁, hmodel₁, hp⟩ := List.mem_flatMap.mp hp
    obtain ⟨group₁, hgroup₁, rfl⟩ := List.mem_map.mp hp
    obtain ⟨model₂, hmodel₂, hq⟩ := List.mem_flatMap.mp hq
    obtain ⟨group₂, hgroup₂, rfl⟩ := List.mem_map.mp hq
    obtain ⟨rfl, rfl⟩ := h group₁ hgroup₁ model₁ hmodel₁ group₂ hgroup₂ model₂ hmodel₂ hjoined
    rfl
  · exact List.mem_flatMap.mpr ⟨model, hmodel, List.mem_map.mpr ⟨group, hgroup, rfl⟩⟩

/-- The rows of an update are those of the pairs just where the pairs read differently. -/
theorem channelAbilities_perm_iff :
    (channelAbilities channel).Perm
        (((groupsOf channel).dedup ×ˢ (modelsOf channel).dedup).map (abilityOf channel)) ↔
      Separate channel := by
  constructor
  · intro hperm group hgroup model hmodel group' hgroup' model' hmodel' hjoined
    have hmem (g m : String) (hg : g ∈ groupsOf channel) (hm : m ∈ modelsOf channel) :
        (g, m) ∈ abilityPairs channel := by
      have hrow : abilityOf channel (g, m) ∈ channelAbilities channel := by
        rw [hperm.mem_iff]
        refine List.mem_map_of_mem (List.mem_product.mpr ⟨?_, ?_⟩)
        · exact List.mem_dedup.mpr hg
        · exact List.mem_dedup.mpr hm
      obtain ⟨pair, hpair, hsame⟩ := List.mem_map.mp hrow
      exact abilityOf_injective hsame ▸ hpair
    have hsame := List.inj_on_of_nodup_map (firstOfKey_nodup _ _)
      (hmem group model hgroup hmodel) (hmem group' model' hgroup' hmodel') hjoined
    exact ⟨congrArg Prod.fst hsame, congrArg Prod.snd hsame⟩
  · intro hseparate
    refine List.Perm.map _ ?_
    have hnodup : ((groupsOf channel).dedup ×ˢ (modelsOf channel).dedup).Nodup :=
      (List.nodup_dedup _).product (List.nodup_dedup _)
    rw [List.perm_ext_iff_of_nodup abilityPairs_nodup hnodup]
    intro pair
    rw [List.mem_product, List.mem_dedup, List.mem_dedup]
    exact ⟨mem_abilityPairs, fun h ↦ abilityPairs_mem hseparate h.1 h.2⟩

end Rows

section Updates

variable {channel : Channel} {faults : Faults} {t : Table Ability.key}

theorem createChunks_ok {chunks : List (List Ability)}
    (h : (createChunks faults t chunks).err = none) :
    (createChunks faults t chunks).abilities = chunks.flatten.foldl createAbility t := by
  induction chunks generalizing t with
  | nil => rfl
  | cons chunk chunks ih =>
    rw [createChunks] at h ⊢
    split at h
    · cases h
    · rename_i hinsert
      rw [ih h, List.flatten_cons, List.foldl_append]

theorem createChunks_noFault (chunks : List (List Ability)) (t : Table Ability.key) :
    createChunks {} t chunks = ⟨none, chunks.flatten.foldl createAbility t⟩ := by
  induction chunks generalizing t with
  | nil => rfl
  | cons chunk chunks ih =>
    rw [List.flatten_cons, List.foldl_append]
    exact ih _

/-- Without a failure the rows by fifty are the rows at once. -/
theorem addAbilities_noFault :
    addAbilities {} channel t = ⟨none, Abilities.addAbilities t channel⟩ := by
  unfold addAbilities
  rw [createChunks_noFault, flatten_toChunks]
  rfl

theorem createAbility_fresh {a : Ability} (h : a.key ∉ t.rows.map Ability.key) :
    (createAbility t a).rows = a :: t.rows := by
  rw [createAbility, Table.insert, dif_neg h]
  rfl

/-- Rows with keys of their own come in, all of them. -/
theorem foldl_createAbility {l : List Ability}
    (h : (l.map Ability.key ++ t.rows.map Ability.key).Nodup) :
    (l.foldl createAbility t).rows = l.reverse ++ t.rows := by
  induction l generalizing t with
  | nil => rfl
  | cons a l ih =>
    rw [List.map_cons, List.cons_append, List.nodup_cons, List.mem_append, not_or] at h
    obtain ⟨⟨hl, ht⟩, hnodup⟩ := h
    have hrows := createAbility_fresh ht
    rw [List.foldl_cons, ih, hrows, List.reverse_cons, List.append_assoc]
    · rfl
    · rw [hrows, List.map_cons, List.nodup_middle, List.nodup_cons, List.mem_append]
      exact ⟨not_or.mpr ⟨hl, ht⟩, hnodup⟩

theorem channelAbilities_channelId {a : Ability} (h : a ∈ channelAbilities channel) :
    a.channelId = channel.id := by
  obtain ⟨pair, -, rfl⟩ := List.mem_map.mp h
  rfl

theorem channelAbilities_nodup : ((channelAbilities channel).map Ability.key).Nodup := by
  have hkey : ((channelAbilities channel).map Ability.key) =
      (abilityPairs channel).map fun pair ↦ (pair.1, pair.2, channel.id) := by
    rw [channelAbilities, List.map_map]
    rfl
  rw [hkey]
  refine abilityPairs_nodup.map fun p q h ↦ ?_
  simp only [Prod.mk.injEq, and_true] at h
  exact Prod.ext h.1 h.2

theorem addAbilities_rows (hfresh : ∀ a ∈ t.rows, a.channelId ≠ channel.id)
    (h : (addAbilities faults channel t).err = none) :
    (addAbilities faults channel t).abilities.rows =
      (channelAbilities channel).reverse ++ t.rows := by
  unfold addAbilities at h ⊢
  rw [createChunks_ok h, flatten_toChunks]
  refine foldl_createAbility ?_
  refine List.nodup_append.mpr ⟨channelAbilities_nodup, t.nodup, ?_⟩
  rintro k hk k' hk' rfl
  obtain ⟨a, ha, rfl⟩ := List.mem_map.mp hk
  obtain ⟨b, hb, hsame⟩ := List.mem_map.mp hk'
  refine hfresh b hb ?_
  rw [← channelAbilities_channelId ha]
  exact congrArg (·.2.2) hsame

theorem addAbilities_own (hfresh : ∀ a ∈ t.rows, a.channelId ≠ channel.id)
    (h : (addAbilities faults channel t).err = none) :
    (addAbilities faults channel t).abilities.rows.filter (·.channelId = channel.id) =
      (channelAbilities channel).reverse := by
  have hnone : t.rows.filter (·.channelId = channel.id) = [] :=
    List.filter_eq_nil_iff.mpr (by simpa using hfresh)
  rw [addAbilities_rows hfresh h, List.filter_append, hnone, List.append_nil]
  refine List.filter_eq_self.mpr fun a ha ↦ ?_
  exact decide_eq_true (channelAbilities_channelId (List.mem_reverse.mp ha))

theorem addAbilities_mirrors_iff (hfresh : ∀ a ∈ t.rows, a.channelId ≠ channel.id)
    (h : (addAbilities faults channel t).err = none) :
    Mirrors channel t (addAbilities faults channel t).abilities ↔ Separate channel := by
  have hrows := addAbilities_rows hfresh h
  have hown := addAbilities_own hfresh h
  have hothers : ((channelAbilities channel).reverse ++ t.rows).filter
      (·.channelId ≠ channel.id) = t.rows.filter (·.channelId ≠ channel.id) := by
    rw [List.filter_append, List.filter_eq_nil_iff.mpr, List.nil_append]
    intro a ha
    simp [channelAbilities_channelId (List.mem_reverse.mp ha)]
  rw [← channelAbilities_perm_iff]
  constructor
  · intro hmirrors
    have hperm := hmirrors.own
    rw [hown] at hperm
    exact (List.reverse_perm _).symm.trans hperm
  · intro hperm
    refine ⟨?_, ?_⟩
    · rw [hown]
      exact (List.reverse_perm _).trans hperm
    · rw [hrows, hothers]

theorem deleteAbilities_fresh :
    ∀ a ∈ (deleteAbilities t channel.id).rows, a.channelId ≠ channel.id := by
  intro a ha
  simpa using (List.mem_filter.mp ha).2

theorem deleteAbilities_others : (deleteAbilities t channel.id).rows.filter
    (·.channelId ≠ channel.id) = t.rows.filter (·.channelId ≠ channel.id) := by
  rw [deleteAbilities, List.filter_filter]
  simp

theorem replaceAbilities_mirrors_iff (h : (replaceAbilities faults channel t).err = none) :
    Mirrors channel t (replaceAbilities faults channel t).abilities ↔ Separate channel := by
  unfold replaceAbilities at h ⊢
  split at h
  · cases h
  · rename_i hdelete
    rw [← addAbilities_mirrors_iff deleteAbilities_fresh h]
    constructor
    · intro hmirrors
      exact ⟨hmirrors.own, hmirrors.others.trans deleteAbilities_others.symm⟩
    · intro hmirrors
      exact ⟨hmirrors.own, hmirrors.others.trans deleteAbilities_others⟩

/-- An update that succeeds has replaced the rows, in whichever transaction. -/
theorem updateAbilities_ok {inTx : Bool} (h : (updateAbilities faults channel inTx t).err = none) :
    (replaceAbilities faults channel t).err = none ∧
      (updateAbilities faults channel inTx t).abilities =
        (replaceAbilities faults channel t).abilities := by
  unfold updateAbilities at h ⊢
  cases inTx with
  | true => exact ⟨h, rfl⟩
  | false =>
    simp only [Bool.false_eq_true, if_false] at h ⊢
    split at h
    · cases h
    · split at h
      · cases h
      · rename_i hreplace
        split at h
        · cases h
        · rw [hreplace]
          exact ⟨rfl, rfl⟩

/-- The rows of a channel after an update in which no statement fails. -/
theorem updateAbilities_own :
    (updateAbilities {} channel false t).abilities.rows.filter (·.channelId = channel.id) =
      (channelAbilities channel).reverse := by
  have hadded : (addAbilities {} channel (deleteAbilities t channel.id)).err = none := by
    rw [addAbilities_noFault]
  have hreplaced : replaceAbilities {} channel t =
      ⟨none, (addAbilities {} channel (deleteAbilities t channel.id)).abilities⟩ := by
    change addAbilities {} channel (deleteAbilities t channel.id) = _
    rw [addAbilities_noFault]
  rw [updateAbilities, if_neg Bool.false_ne_true, hreplaced]
  exact addAbilities_own deleteAbilities_fresh hadded

/-- A failure in a transaction of its own leaves the rows as they were. -/
theorem updateAbilities_failed (h : (updateAbilities faults channel false t).err ≠ none) :
    (updateAbilities faults channel false t).abilities = t := by
  unfold updateAbilities at h ⊢
  simp only [Bool.false_eq_true, if_false] at h ⊢
  split at h
  · rfl
  · split at h
    · rfl
    · split at h
      · rfl
      · exact absurd rfl h

theorem batchSetChannelTag_failed {tx : Faults} {each : Channel → Faults} {channels : List Channel}
    (h : (batchSetChannelTag tx each channels t).err ≠ none) :
    (batchSetChannelTag tx each channels t).abilities = t := by
  unfold batchSetChannelTag at h ⊢
  split at h
  · rfl
  · split at h
    · rfl
    · split at h
      · rfl
      · exact absurd rfl h

end Updates

section Claim

variable (channel : Channel)

/-- The abilities are the pairs of the channel after every addition and every update, and a failure
leaves them alone. -/
structure AlwaysMirrors : Prop where
  added : ∀ (faults : Faults) (t : Table Ability.key), (∀ a ∈ t.rows, a.channelId ≠ channel.id) →
    (addAbilities faults channel t).err = none →
      Mirrors channel t (addAbilities faults channel t).abilities
  updated : ∀ (faults : Faults) (inTx : Bool) (t : Table Ability.key),
    (updateAbilities faults channel inTx t).err = none →
      Mirrors channel t (updateAbilities faults channel inTx t).abilities
  failed : ∀ (faults : Faults) (t : Table Ability.key),
    (updateAbilities faults channel false t).err ≠ none →
      (updateAbilities faults channel false t).abilities = t
  failed_batch : ∀ (tx : Faults) (faults : Channel → Faults) (channels : List Channel)
    (t : Table Ability.key), channel ∈ channels →
      (batchSetChannelTag tx faults channels t).err ≠ none →
        (batchSetChannelTag tx faults channels t).abilities = t

end Claim

end AllAiTools.NewApi.Model.AbilitiesMirror
