import AllAiTools.NewApi.Model.Candidates

namespace AllAiTools.NewApi.Model.SelectorsAgree

open Foundation Foundation.Lottery Common.Str Channels Abilities CachedChannels ChannelChance
  Candidates

section Database

variable {db : Database} {group model : String} {retry : ℕ}

/-- Every stored ability is of a channel. -/
def Referenced (db : Database) : Prop :=
  ∀ a ∈ db.abilities.rows, ∃ channel, db.channels.find a.channelId = some channel

theorem createAbility_mem {t : Table Ability.key} {a b : Ability}
    (h : b ∈ (createAbility t a).rows) : b = a ∨ b ∈ t.rows := by
  unfold createAbility at h
  cases hi : t.insert a with
  | none =>
    rw [hi] at h
    exact .inr h
  | some t' =>
    rw [hi, Option.getD_some, (Table.insert_eq_some hi).2] at h
    exact List.mem_cons.mp h

theorem createAbility_foldl_mem {l : List Ability} {t : Table Ability.key} {b : Ability}
    (h : b ∈ (l.foldl createAbility t).rows) : b ∈ l ∨ b ∈ t.rows := by
  induction l generalizing t with
  | nil => exact .inr h
  | cons a l ih =>
    rcases ih h with hl | ht
    · exact .inl (List.mem_cons_of_mem a hl)
    · rcases createAbility_mem ht with rfl | ht
      · exact .inl List.mem_cons_self
      · exact .inr ht

theorem rebuilt_mem {channels : List Channel} {t : Table Ability.key} {b : Ability}
    (h : b ∈ (channels.foldl addAbilities t).rows) :
    (∃ channel ∈ channels, b.channelId = channel.id) ∨ b ∈ t.rows := by
  induction channels generalizing t with
  | nil => exact .inr h
  | cons channel channels ih =>
    rcases ih h with ⟨c, hc, hb⟩ | ht
    · exact .inl ⟨c, List.mem_cons_of_mem channel hc, hb⟩
    · rcases createAbility_foldl_mem ht with hl | ht
      · obtain ⟨pair, _, rfl⟩ := List.mem_map.mp hl
        exact .inl ⟨channel, List.mem_cons_self, rfl⟩
      · exact .inr ht

theorem rebuilt_referenced (h : db.abilities = rebuilt db.channels) : Referenced db := by
  intro a ha
  rw [h] at ha
  rcases rebuilt_mem ha with ⟨channel, hc, he⟩ | hn
  · exact ⟨channel, he ▸ Table.find_of_mem hc⟩
  · cases hn

theorem chooseAbility_eq_pick {abilities : List Ability} (n : ℕ) :
    chooseAbility abilities n =
      ((pick (fun a ↦ a.weight + 10) abilities (n - 1)).map (·.channelId)).getD 0 := by
  induction abilities generalizing n with
  | nil => rfl
  | cons a abilities ih =>
    rw [chooseAbility, pick]
    by_cases hn : n - 1 < a.weight + 10
    · rw [if_pos hn, if_pos (by omega)]
      rfl
    · have hcast : (n : ℤ) - (a.weight + 10) = (n - (a.weight + 10) : ℕ) := by omega
      have hpred : n - 1 - (a.weight + 10) = n - (a.weight + 10) - 1 := by omega
      rw [if_neg hn, if_neg (by omega), hcast, hpred]
      exact ih _

/-- Where the rows stand in the database, the last distinct priority is the one that a
retry past the end takes. -/
theorem getPriority_eq {priorities : List ℤ} {last : ℤ}
    (h : (distinctDescending priorities).getLast? = some last) (retry : ℕ) :
    (distinctDescending priorities).getD retry last = retryPriority priorities retry := by
  have hne : distinctDescending priorities ≠ [] := by
    intro he
    rw [he] at h
    cases h
  have hlen : 0 < (distinctDescending priorities).length := List.length_pos_iff.mpr hne
  rw [List.getLast?_eq_getElem?] at h
  unfold retryPriority
  dsimp only
  by_cases hr : (distinctDescending priorities).length ≤ retry
  · rw [if_pos hr, List.getD_eq_default _ _ hr, List.getD_eq_getElem?_getD, h]
    rfl
  · rw [if_neg hr, List.getD_eq_getElem _ _ (by omega), List.getD_eq_getElem _ _ (by omega)]

/-- The first of the distinct priorities is the highest. -/
theorem retryPriority_zero {priorities : List ℤ} {p : ℤ} (hp : p ∈ priorities) :
    p = retryPriority priorities 0 ↔ ∀ q ∈ priorities, q ≤ p := by
  have hsorted : (distinctDescending priorities).Pairwise (· ≥ ·) :=
    List.pairwise_insertionSort _ _
  have hmem : ∀ q, q ∈ distinctDescending priorities ↔ q ∈ priorities := fun q ↦
    mem_distinctDescending
  unfold retryPriority
  dsimp only
  cases hd : distinctDescending priorities with
  | nil =>
    have hin := (hmem p).mpr hp
    rw [hd] at hin
    cases hin
  | cons top rest =>
    rw [hd] at hsorted hmem
    have htop : ∀ q ∈ priorities, q ≤ top := by
      intro q hq
      rcases List.mem_cons.mp ((hmem q).mpr hq) with rfl | hr
      · exact le_rfl
      · exact List.rel_of_pairwise_cons hsorted hr
    rw [if_neg (by simp), List.getD_cons_zero]
    constructor
    · rintro rfl
      exact htop
    · intro hmax
      exact le_antisymm (htop p hp) (hmax top ((hmem top).mp List.mem_cons_self))

theorem channelQuery_cases (db : Database) (group model : String) (retry : ℕ) :
    channelQuery db group model retry = .ok (databaseTier db group model retry) ∨
      databaseTier db group model retry = [] ∧ ∃ e, channelQuery db group model retry = .error e := by
  unfold channelQuery databaseTier
  dsimp only
  by_cases hr : retry = 0
  · subst hr
    rw [if_pos rfl]
    refine .inl (congrArg Except.ok (List.filter_congr fun a ha ↦ ?_))
    have hiff := retryPriority_zero (List.mem_map_of_mem (f := fun a : Ability ↦ a.priority) ha)
    simp only [List.forall_mem_map] at hiff
    simp only [hiff]
  · rw [if_neg hr]
    unfold getPriority
    dsimp only
    cases hl : (distinctDescending ((enabledFor db group model).map (·.priority))).getLast? with
    | none =>
      refine .inr ⟨?_, _, rfl⟩
      have hnil := List.getLast?_eq_none_iff.mp hl
      rw [distinctDescending_eq_nil, List.map_eq_nil_iff] at hnil
      rw [hnil]
      rfl
    | some last =>
      dsimp only
      rw [getPriority_eq hl]
      exact .inl rfl

def nominal (stored : List Ability) : ℕ := (stored.map fun a ↦ a.weight + 10).sum

def nominalOf (stored : List Ability) (i : ℤ) : ℕ :=
  weigh (fun a ↦ a.weight + 10) (·.channelId = i) stored

/-- One where the first, or the last, ability is of the channel. -/
def isFirst (stored : List Ability) (i : ℤ) : ℕ := if stored.head?.any (·.channelId = i) then 1 else 0
def isLast (stored : List Ability) (i : ℤ) : ℕ :=
  if stored.getLast?.any (·.channelId = i) then 1 else 0

theorem databaseTier_mem {a : Ability} (h : a ∈ databaseTier db group model retry) :
    a ∈ db.abilities.rows := by
  unfold databaseTier at h
  exact List.mem_of_mem_filter (List.mem_of_mem_filter h)

/-- With a channel for every ability, an answer is the channel of the ability chosen. -/
theorem answer_returns {stored : List Ability} (h : ∀ a ∈ stored, (db.channels.find a.channelId).isSome)
    {n : ℕ} (hn : (pick (fun a ↦ a.weight + 10) stored (n - 1)).isSome) (i : ℤ) :
    returns i (match db.channels.find (chooseAbility stored n) with
      | none => .error "record not found"
      | some channel => .ok (some channel)) =
        (pick (fun a ↦ a.weight + 10) stored (n - 1)).any (·.channelId = i) := by
  obtain ⟨a, ha⟩ := Option.isSome_iff_exists.mp hn
  obtain ⟨channel, hc⟩ := Option.isSome_iff_exists.mp (h a (pick_mem ha))
  have hid := Table.find_key hc
  rw [chooseAbility_eq_pick, ha, Option.map_some, Option.getD_some, hc]
  simp [returns, hid]

theorem nominal_pos {stored : List Ability} (h : stored ≠ []) : 0 < nominal stored := by
  cases stored with
  | nil => exact absurd rfl h
  | cons a stored =>
    rw [nominal, List.map_cons, List.sum_cons]
    omega

/-- The database path chooses each ability's channel by its weight and ten, with one
draw more for the first ability and one less for the last. -/
theorem getChannel_chance (h : Referenced db) (byWeight : Sorting Ability) (group model : String)
    (retry : ℕ) {stored : List Ability}
    (hs : byWeight.sort (fun a ↦ a.weight) (databaseTier db group model retry) = stored) (i : ℤ) :
    chance (returns i) (getChannel db byWeight group model retry) * nominal stored +
      isLast stored i = nominalOf stored i + isFirst stored i := by
  have hstored : ∀ a ∈ stored, (db.channels.find a.channelId).isSome := by
    intro a ha
    rw [← hs, Sorting.mem_sort] at ha
    obtain ⟨channel, hc⟩ := h a (databaseTier_mem ha)
    rw [hc]
    rfl
  have hempty : databaseTier db group model retry = [] ↔ stored = [] := by
    rw [← hs, Sorting.sort_eq_nil]
  unfold getChannel
  by_cases hnil : stored = []
  · have hzero : nominal stored = 0 ∧ isLast stored i = 0 ∧ nominalOf stored i = 0 ∧
        isFirst stored i = 0 := by
      subst hnil
      exact ⟨rfl, rfl, rfl, rfl⟩
    simp [hzero]
  · rcases channelQuery_cases db group model retry with hq | ⟨hq, _⟩
    · rw [hq]
      dsimp only
      rw [hs, if_neg hnil]
      obtain ⟨first, hf⟩ := Option.isSome_iff_exists.mp (List.isSome_head?.mpr hnil)
      have hl := List.getLast?_eq_some_getLast hnil
      generalize stored.getLast hnil = last at hl
      have hcount := countP_pick_pred (fun a : Ability ↦ a.weight + 10) (·.channelId = i) hf hl
        (by omega) (by omega)
      have hchance : (List.range (nominal stored)).countP (fun n : ℕ ↦ returns i
          (match db.channels.find (chooseAbility stored n) with
            | none => .error "record not found"
            | some channel => .ok (some channel))) =
          (List.range (nominal stored)).countP (fun n ↦
            (pick (fun a ↦ a.weight + 10) stored (n - 1)).any (·.channelId = i)) := by
        refine List.countP_congr fun n hn ↦ ?_
        have hlt : n - 1 < nominal stored := by
          have := List.mem_range.mp hn
          omega
        rw [answer_returns hstored (pick_isSome hlt)]
      have hpos : (nominal stored : ℚ) ≠ 0 := by exact_mod_cast (nominal_pos hnil).ne'
      have hfirst : isFirst stored i = if first.channelId = i then 1 else 0 := by
        simp [isFirst, hf]
      have hlast : isLast stored i = if last.channelId = i then 1 else 0 := by
        simp [isLast, hl]
      refine (congrArg (fun k : ℕ ↦ (k : ℚ) / nominal stored * nominal stored + isLast stored i)
        hchance).trans ?_
      rw [div_mul_cancel₀ _ hpos, hfirst, hlast]
      simp only [decide_eq_true_eq] at hcount
      exact_mod_cast hcount
    · exact absurd (hempty.mp hq) hnil

end Database

section Agree

variable {parse : String → Option (List String)} {byPriority : Sorting ℤ}
  {old : ℤ → Option Channel} {db : Database} {cache : ChannelCache}

theorem getChannel_empty (byWeight : Sorting Ability) {group model : String} {retry : ℕ}
    (h : databaseTier db group model retry = []) (i : ℤ) :
    chance (returns i) (getChannel db byWeight group model retry) = 0 := by
  unfold getChannel
  rcases channelQuery_cases db group model retry with hq | ⟨_, e, hq⟩
  · rw [hq, h]
    dsimp only
    rw [if_pos (byWeight.sort_eq_nil.mpr rfl)]
    rfl
  · rw [hq]
    rfl

/-- Some channel of a tier has a share. -/
theorem exists_share {targets : List Channel} (h : targets ≠ []) : ∃ i, 0 < tierChance targets i := by
  have hpos := total_pos h
  obtain ⟨c, hc, hs⟩ : ∃ c ∈ targets, 0 < share targets c := by
    by_contra hnone
    push Not at hnone
    have hzero : total targets = 0 := by
      refine List.sum_eq_zero_iff.mpr fun n hn ↦ ?_
      obtain ⟨c, hc, rfl⟩ := List.mem_map.mp hn
      exact Nat.le_zero.mp (hnone c hc)
    omega
  have hle : share targets c ≤ shareOf targets c.id :=
    List.single_le_sum (by simp) _ (List.mem_map_of_mem (List.mem_filter.mpr ⟨hc, by simp⟩))
  have hpart : 0 < shareOf targets c.id := by omega
  exact ⟨c.id, div_pos (by exact_mod_cast hpart) (by exact_mod_cast hpos)⟩

/-- The channel of the first ability can be chosen. -/
theorem exists_nominal {stored : List Ability} (h : stored ≠ []) :
    ∃ i, isLast stored i < nominalOf stored i + isFirst stored i := by
  obtain ⟨a, ha⟩ := List.exists_mem_of_ne_nil stored h
  have hle : a.weight + 10 ≤ nominalOf stored a.channelId :=
    List.single_le_sum (by simp) _ (List.mem_map.mpr
      ⟨a, List.mem_filter.mpr ⟨ha, by simp⟩, rfl⟩)
  have hlast : isLast stored a.channelId ≤ 1 := by
    unfold isLast
    split_ifs <;> omega
  exact ⟨a.channelId, by omega⟩

/-- Both paths return each channel with the same chance. -/
def Agree (cache : ChannelCache) (db : Database) (byWeight : Sorting Ability)
    (group model : String) (retry : ℕ) : Prop :=
  ∀ i, chance (returns i) (getRandomSatisfiedChannel cache group model retry) =
    chance (returns i) (getChannel db byWeight group model retry)

/-- The channels weigh what the abilities in their order do, each with ten more, the first
with one more still and the last with one less. -/
def Proportional (targets : List Channel) (stored : List Ability) : Prop :=
  (targets = [] ↔ stored = []) ∧ ∀ i,
    shareOf targets i * nominal stored + isLast stored i * total targets =
      (nominalOf stored i + isFirst stored i) * total targets

def noKeys : String → Option (List String) := fun _ ↦ none

def noneBefore : ℤ → Option Channel := fun _ ↦ none

def lone : Database where
  channels := .single { id := 1, models := "gpt-4o" }
  abilities := rebuilt (.single { id := 1, models := "gpt-4o" })

def pair : Database where
  channels := ⟨[{ id := 1, models := "gpt-4o", weight := some 5 }, { id := 2, models := "gpt-4o" }],
    by decide⟩
  abilities := rebuilt ⟨[{ id := 1, models := "gpt-4o", weight := some 5 },
    { id := 2, models := "gpt-4o" }], by decide⟩

end Agree

end AllAiTools.NewApi.Model.SelectorsAgree
