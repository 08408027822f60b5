import AllAiTools.NewApi.Model.CachedChannels

namespace AllAiTools.NewApi.Model.ChannelChance

open Foundation Foundation.Lottery Common.Str Channels Abilities CachedChannels

section Sorted

theorem distinctDescending_perm {l l' : List ℤ} (h : l.Perm l') :
    distinctDescending l = distinctDescending l' := by
  have hsorted : ∀ k : List ℤ, (distinctDescending k).Pairwise (· ≥ ·) :=
    fun k ↦ List.pairwise_insertionSort _ _
  have hperm : (distinctDescending l).Perm (distinctDescending l') :=
    ((List.perm_insertionSort _ _).trans h.dedup).trans (List.perm_insertionSort _ _).symm
  exact hperm.eq_of_pairwise (fun a b _ _ hab hba ↦ le_antisymm hba hab) (hsorted l) (hsorted l')

theorem mem_distinctDescending {l : List ℤ} {p : ℤ} : p ∈ distinctDescending l ↔ p ∈ l :=
  (List.perm_insertionSort _ _).mem_iff.trans List.mem_dedup

theorem distinctDescending_eq_nil {l : List ℤ} : distinctDescending l = [] ↔ l = [] := by
  constructor
  · intro h
    refine List.eq_nil_iff_forall_not_mem.mpr fun p hp ↦ ?_
    have hm := mem_distinctDescending.mpr hp
    rw [h] at hm
    cases hm
  · rintro rfl
    rfl

theorem retryPriority_perm {l l' : List ℤ} (h : l.Perm l') (retry : ℕ) :
    retryPriority l retry = retryPriority l' retry := by
  rw [retryPriority, distinctDescending_perm h, retryPriority]

theorem retryPriority_mem {l : List ℤ} (h : l ≠ []) (retry : ℕ) : retryPriority l retry ∈ l := by
  have hne : distinctDescending l ≠ [] := fun he ↦ h (distinctDescending_eq_nil.mp he)
  have hlen : 0 < (distinctDescending l).length := List.length_pos_iff.mpr hne
  have hlt : (if (distinctDescending l).length ≤ retry then (distinctDescending l).length - 1
      else retry) < (distinctDescending l).length := by
    split_ifs <;> omega
  rw [← mem_distinctDescending, retryPriority, List.getD_eq_getElem _ _ hlt]
  exact List.getElem_mem hlt

end Sorted

section Draw

/-- The answer is the channel with a given id. -/
def returns (i : ℤ) : Except String (Option Channel) → Bool
  | .ok (some channel) => channel.id = i
  | _ => false

/-- What a channel weighs in its tier: its weight, or as much as the others where no
channel has one. -/
def share (targets : List Channel) (channel : Channel) : ℕ :=
  if (targets.map (·.getWeight)).sum = 0 then 1 else channel.getWeight

def total (targets : List Channel) : ℕ := (targets.map (share targets)).sum

def shareOf (targets : List Channel) (i : ℤ) : ℕ := weigh (share targets) (·.id = i) targets

/-- The chance of a channel among those of its tier. -/
def tierChance (targets : List Channel) (i : ℤ) : ℚ := shareOf targets i / total targets

theorem total_pos {targets : List Channel} (h : targets ≠ []) : 0 < total targets := by
  unfold total share
  by_cases hz : (targets.map (·.getWeight)).sum = 0
  · simp only [if_pos hz, List.map_const', List.sum_replicate, smul_eq_mul, mul_one]
    exact List.length_pos_iff.mpr h
  · simp only [if_neg hz]
    exact Nat.pos_of_ne_zero hz

theorem chooseChannel_eq_pick (smoothingFactor smoothingAdjustment : ℕ) (targets : List Channel)
    (n : ℕ) : chooseChannel smoothingFactor smoothingAdjustment targets n =
      pick (fun c ↦ c.getWeight * smoothingFactor + smoothingAdjustment) targets n := by
  induction targets generalizing n with
  | nil => rfl
  | cons c targets ih =>
    rw [chooseChannel, pick]
    by_cases hn : n < c.getWeight * smoothingFactor + smoothingAdjustment
    · rw [if_pos hn, if_pos (by omega)]
    · have hcast : ((n : ℤ) - (c.getWeight * smoothingFactor + smoothingAdjustment : ℕ)) =
          (n - (c.getWeight * smoothingFactor + smoothingAdjustment) : ℕ) := by omega
      rw [if_neg hn, if_neg (by omega), hcast]
      exact ih _

theorem weigh_scale {α : Type} (k : ℕ) {w w' : α → ℕ} {l : List α} (h : ∀ a ∈ l, w' a = k * w a)
    (p : α → Bool) : weigh w' p l = k * weigh w p l := by
  induction l with
  | nil => rfl
  | cons a l ih =>
    rw [weigh_cons, weigh_cons, ih fun b hb ↦ h b (List.mem_cons_of_mem a hb),
      h a List.mem_cons_self]
    split_ifs <;> ring

/-- A draw with weights that are a multiple of the shares. -/
theorem draw_chance {targets : List Channel} {f a k : ℕ} (hk : 0 < k)
    (h : ∀ c ∈ targets, c.getWeight * f + a = k * share targets c) (i : ℤ) :
    chance (returns i) (.draw (k * total targets) fun n ↦ match chooseChannel f a targets n with
      | none => .error "channel not found"
      | some channel => .ok (some channel)) = tierChance targets i := by
  have hsum : (targets.map fun c ↦ c.getWeight * f + a).sum = k * total targets := by
    have hw := weigh_scale k h fun _ ↦ true
    rwa [weigh_true, weigh_true] at hw
  have hcount : (List.range (k * total targets)).countP (fun n : ℕ ↦ returns i
      (match chooseChannel f a targets (n : ℤ) with
        | none => .error "channel not found"
        | some channel => .ok (some channel))) = k * shareOf targets i := by
    rw [shareOf, ← weigh_scale k h, ← countP_pick, hsum]
    refine List.countP_congr fun n _ ↦ ?_
    rw [chooseChannel_eq_pick]
    cases pick (fun c : Channel ↦ c.getWeight * f + a) targets n with
    | none => simp [returns]
    | some c => simp [returns]
  have hk' : (k : ℚ) ≠ 0 := by exact_mod_cast hk.ne'
  rw [chance, hcount, tierChance]
  push_cast
  rw [mul_div_mul_left _ _ hk']

theorem drawChannel_chance (targets : List Channel) (i : ℤ) :
    chance (returns i) (drawChannel targets) = tierChance targets i := by
  unfold drawChannel
  dsimp only
  by_cases hz : (targets.map (·.getWeight)).sum = 0
  · have hshare : share targets = fun _ ↦ 1 := funext fun c ↦ if_pos hz
    have htotal : total targets = targets.length := by
      rw [total, hshare]
      simp
    have hbound : targets.length * 100 * 1 = 100 * total targets := by rw [htotal]; ring
    rw [if_pos hz, hbound]
    refine draw_chance (by decide) (fun c hc ↦ ?_) i
    have hw : c.getWeight = 0 := (List.sum_eq_zero_iff.mp hz) _ (List.mem_map_of_mem hc)
    simp [hw, hshare]
  · have hshare : share targets = fun c ↦ c.getWeight := funext fun c ↦ if_neg hz
    have htotal : total targets = (targets.map (·.getWeight)).sum := by
      rw [total, hshare]
    rw [if_neg hz]
    split_ifs
    · have hbound : (targets.map (·.getWeight)).sum * 100 = 100 * total targets := by
        rw [htotal]
        ring
      rw [hbound]
      refine draw_chance (by decide) (fun c _ ↦ ?_) i
      rw [hshare]
      ring
    · have hbound : (targets.map (·.getWeight)).sum * 1 = 1 * total targets := by
        rw [htotal]
        ring
      rw [hbound]
      refine draw_chance (by decide) (fun c _ ↦ ?_) i
      rw [hshare]
      ring

end Draw

section Select

variable {cache : ChannelCache} {group model : String} {retry : ℕ}

/-- Every listed id has its channel. -/
def Consistent (cache : ChannelCache) : Prop :=
  ∀ group model, ∀ id ∈ cache.group2model2channels group model,
    ∃ channel, cache.channelsIDM id = some channel ∧ channel.id = id

/-- The channel of an id. -/
def resolve (cache : ChannelCache) (id : ℤ) : Channel := (cache.channelsIDM id).getD { id := id }

theorem satisfied_resolves (h : Consistent cache) {id : ℤ} (hid : id ∈ satisfied cache group model) :
    cache.channelsIDM id = some (resolve cache id) ∧ (resolve cache id).id = id := by
  have hmem : ∃ m, id ∈ cache.group2model2channels group m := by
    unfold satisfied at hid
    dsimp only at hid
    split_ifs at hid
    · exact ⟨_, hid⟩
    · exact ⟨_, hid⟩
  obtain ⟨m, hm⟩ := hmem
  obtain ⟨channel, hc, hi⟩ := h group m id hm
  simp [resolve, hc, hi]

theorem lookUp_resolve {ids : List ℤ} (h : ∀ id ∈ ids, cache.channelsIDM id = some (resolve cache id)) :
    lookUp cache ids = .ok (ids.map (resolve cache)) := by
  induction ids with
  | nil => rfl
  | cons id ids ih =>
    rw [lookUp, h id List.mem_cons_self]
    dsimp only
    rw [ih fun j hj ↦ h j (List.mem_cons_of_mem id hj)]
    rfl

theorem targetChannels_ne_nil {channels : List Channel} (h : channels ≠ []) (retry : ℕ) :
    targetChannels channels retry ≠ [] := by
  have hne : channels.map (·.getPriority) ≠ [] := by simpa using h
  obtain ⟨channel, hc, hp⟩ := List.mem_map.mp (retryPriority_mem hne retry)
  exact List.ne_nil_of_mem (List.mem_filter.mpr ⟨hc, by simpa using hp⟩)

theorem targetChannels_perm {channels channels' : List Channel} (h : channels.Perm channels')
    (retry : ℕ) : (targetChannels channels retry).Perm (targetChannels channels' retry) := by
  unfold targetChannels
  rw [retryPriority_perm (h.map (·.getPriority))]
  exact h.filter _

theorem tierChance_perm {targets targets' : List Channel} (h : targets.Perm targets') (i : ℤ) :
    tierChance targets i = tierChance targets' i := by
  have hshare : share targets = share targets' := by
    funext c
    rw [share, (h.map _).sum_eq, share]
  rw [tierChance, shareOf, total, hshare, weigh_perm _ _ h, (h.map _).sum_eq]
  rfl

theorem tierChance_singleton (c : Channel) (i : ℤ) :
    tierChance [c] i = if c.id = i then 1 else 0 := by
  have hpos : 0 < share [c] c := by
    have h := total_pos (List.cons_ne_nil c [])
    simpa [total] using h
  have hne : (share [c] c : ℚ) ≠ 0 := by exact_mod_cast hpos.ne'
  unfold tierChance shareOf total
  rw [weigh_cons]
  by_cases hi : c.id = i
  · simp [hi, hne]
  · simp [hi]

/-- What the memory path returns, as chances among the channels of one priority. -/
theorem select_chance (h : Consistent cache) (group model : String) (retry : ℕ) (i : ℤ) :
    chance (returns i) (getRandomSatisfiedChannel cache group model retry) =
      tierChance (targetChannels ((satisfied cache group model).map (resolve cache)) retry) i := by
  have hres := fun id hid ↦ (@satisfied_resolves cache group model h id hid)
  unfold getRandomSatisfiedChannel
  cases hs : satisfied cache group model with
  | nil => simp [chance, returns, tierChance, shareOf, targetChannels]
  | cons id ids =>
    rw [hs] at hres
    obtain ⟨hfind, hkey⟩ := hres id List.mem_cons_self
    cases ids with
    | nil =>
      have htarget : targetChannels ([id].map (resolve cache)) retry = [resolve cache id] := by
        have hne := targetChannels_ne_nil (List.cons_ne_nil (resolve cache id) []) retry
        unfold targetChannels at hne ⊢
        dsimp only [List.map_cons, List.map_nil] at hne ⊢
        by_cases hp : (resolve cache id).getPriority =
            retryPriority [(resolve cache id).getPriority] retry
        · simp [hp.symm]
        · simp [hp] at hne
      rw [htarget, tierChance_singleton]
      dsimp only
      rw [hfind]
      simp [chance, returns]
    | cons id' ids =>
      dsimp only
      rw [lookUp_resolve fun j hj ↦ (hres j hj).1]
      dsimp only
      have hne := targetChannels_ne_nil
        (List.cons_ne_nil (resolve cache id) ((id' :: ids).map (resolve cache))) retry
      rw [List.map_cons, if_neg hne]
      exact drawChannel_chance _ i

end Select

end AllAiTools.NewApi.Model.ChannelChance
