import AllAiTools.Foundation.Pieces
import AllAiTools.NewApi.Controller.UpstreamModels
import AllAiTools.NewApi.Model.AbilitiesMirror

namespace AllAiTools.NewApi.Controller.UpstreamSettles

open Foundation Common.Str Model.Channels Model.Abilities Model.AbilitiesMirror UpstreamModels

section Names

variable {l l' : List String} {m : String}

/-- A name that normalizing leaves as it is. -/
def Clean (m : String) : Prop := m ≠ "" ∧ trimSpace m = m

theorem trimSpace_trimSpace (s : String) : trimSpace (trimSpace s) = trimSpace s := by
  rw [trimSpace, trimSpace, String.toList_ofList]
  exact congrArg String.ofList (Pieces.strip_strip isSpace s.toList)

theorem mem_normalize : m ∈ normalizeModelNames l ↔ m ≠ "" ∧ ∃ x ∈ l, trimSpace x = m := by
  rw [normalizeModelNames, List.mem_eraseDups, List.mem_filterMap]
  constructor
  · rintro ⟨x, hx, hm⟩
    by_cases hempty : trimSpace x = ""
    · rw [if_pos hempty] at hm
      cases hm
    · rw [if_neg hempty] at hm
      obtain rfl := Option.some.inj hm
      exact ⟨hempty, x, hx, rfl⟩
  · rintro ⟨hne, x, hx, rfl⟩
    exact ⟨x, hx, if_neg hne⟩

theorem clean_of_mem (h : m ∈ normalizeModelNames l) : Clean m := by
  obtain ⟨hne, x, -, rfl⟩ := mem_normalize.mp h
  exact ⟨hne, trimSpace_trimSpace x⟩

/-- A list of clean names without repetitions. -/
structure Normal (l : List String) : Prop where
  clean : ∀ m ∈ l, Clean m
  nodup : l.Nodup

theorem normal_normalize (l : List String) : Normal (normalizeModelNames l) :=
  ⟨fun _ ↦ clean_of_mem, Pieces.nodup_eraseDups _⟩

theorem Normal.filter (h : Normal l) (p : String → Bool) : Normal (l.filter p) :=
  ⟨fun m hm ↦ h.clean m (List.mem_of_mem_filter hm), h.nodup.filter p⟩

theorem Normal.normalize_eq (h : Normal l) : normalizeModelNames l = l := by
  have hkept : l.filterMap (fun model ↦
      if trimSpace model = "" then none else some (trimSpace model)) = l := by
    refine (List.filterMap_congr fun m hm ↦ ?_).trans List.filterMap_some
    obtain ⟨hne, htrim⟩ := h.clean m hm
    rw [htrim, if_neg hne]
  rw [normalizeModelNames]
  exact (congrArg List.eraseDups hkept).trans (Pieces.eraseDups_of_nodup h.nodup)

theorem mem_merge : m ∈ mergeModelNames l l' ↔ m ∈ normalizeModelNames l ∨ m ∈ normalizeModelNames l' := by
  rw [mergeModelNames, List.mem_append, List.mem_filter, decide_eq_true_eq]
  constructor
  · exact fun h ↦ h.imp id And.left
  · intro h
    by_cases hm : m ∈ normalizeModelNames l
    · exact .inl hm
    · exact h.imp_right (⟨·, hm⟩)

theorem mem_subtract :
    m ∈ subtractModelNames l l' ↔ m ∈ normalizeModelNames l ∧ m ∉ normalizeModelNames l' := by
  rw [subtractModelNames, List.mem_filter, decide_eq_true_eq]

theorem mem_intersect :
    m ∈ intersectModelNames l l' ↔ m ∈ normalizeModelNames l ∧ m ∈ normalizeModelNames l' := by
  rw [intersectModelNames, List.mem_filter, decide_eq_true_eq]

theorem normal_subtract (l l' : List String) : Normal (subtractModelNames l l') :=
  (normal_normalize l).filter _

theorem normal_intersect (l l' : List String) : Normal (intersectModelNames l l') :=
  (normal_normalize l).filter _

theorem normal_merge (l l' : List String) : Normal (mergeModelNames l l') := by
  refine ⟨fun m hm ↦ ?_, ?_⟩
  · obtain hm | hm := mem_merge.mp hm
    · exact clean_of_mem hm
    · exact clean_of_mem hm
  · refine (normal_normalize l).nodup.append ((normal_normalize l').nodup.filter _) fun m hm hm' ↦ ?_
    exact of_decide_eq_true (List.mem_filter.mp hm').2 hm

@[simp] theorem normalize_normalize (l : List String) :
    normalizeModelNames (normalizeModelNames l) = normalizeModelNames l :=
  (normal_normalize l).normalize_eq

theorem mem_applySelected {add remove : List String} (hl : Normal l) (hadd : Normal add)
    (hremove : Normal remove) : m ∈ applySelectedModelChanges l add remove ↔
      (m ∈ l ∨ m ∈ add) ∧ (m ∈ remove → m ∈ add) := by
  rw [applySelectedModelChanges, hadd.normalize_eq, hremove.normalize_eq, mem_subtract,
    (normal_merge _ _).normalize_eq, mem_merge, hl.normalize_eq, hadd.normalize_eq,
    (normal_subtract _ _).normalize_eq, mem_subtract, hremove.normalize_eq, hadd.normalize_eq]
  tauto

theorem applySelected_nil (hl : Normal l) : applySelectedModelChanges l [] [] = l := by
  have hnil : normalizeModelNames [] = [] := rfl
  simp [applySelectedModelChanges, mergeModelNames, subtractModelNames, hnil, hl.normalize_eq]

end Names

section Lists

variable {m n : String} {names : List String}

/-- The names of a channel's list, as a detection reads them. -/
def listed (channel : Channel) : List String := normalizeModelNames (getModels channel)

theorem mem_split {s p : String} {c : Char} : p ∈ split s c ↔ p.toList ∈ s.toList.splitOn c := by
  rw [split, List.mem_map]
  exact ⟨fun ⟨x, hx, h⟩ ↦ by rw [← h, String.toList_ofList]; exact hx,
    fun h ↦ ⟨p.toList, h, String.ofList_toList⟩⟩

theorem comma_not_mem_split {s p : String} (h : p ∈ split s ',') : ',' ∉ p.toList :=
  Joined.not_mem_of_mem_splitOn (mem_split.mp h)

theorem split_self (h : ',' ∉ n.toList) : split n ',' = [n] := by
  rw [split, List.splitOn_eq_singleton h]
  simp

theorem mem_of_mem_trimSpace {s : String} {c : Char} (h : c ∈ (trimSpace s).toList) : c ∈ s.toList := by
  rw [trimSpace, String.toList_ofList, List.mem_reverse] at h
  have h' := (List.dropWhile_sublist _).subset h
  rw [List.mem_reverse] at h'
  exact (List.dropWhile_sublist _).subset h'

theorem mem_listed {channel : Channel} :
    m ∈ listed channel ↔ m ≠ "" ∧ ∃ p ∈ modelsOf channel, trimSpace p = m := by
  have hblank : trimSpace "" = "" := by decide
  rw [listed, mem_normalize, getModels, modelsOf]
  refine and_congr_right fun hne ↦ ?_
  by_cases hempty : channel.models = ""
  · rw [if_pos hempty, hempty]
    constructor
    · rintro ⟨p, hp, -⟩
      cases hp
    · rintro ⟨p, hp, hm⟩
      rw [split_self (by decide), List.mem_singleton] at hp
      rw [hp, hblank] at hm
      exact absurd hm.symm hne
  · rw [if_neg hempty]
    refine exists_congr fun p ↦ and_congr_left fun hm ↦ ?_
    have hp : p.toList ≠ [] := by
      intro hnil
      rw [String.toList_eq_nil_iff.mp hnil, hblank] at hm
      exact hne hm.symm
    rw [mem_split, mem_split, trimChar, String.toList_ofList]
    exact Joined.mem_splitOn_strip hp _

theorem normal_listed (channel : Channel) : Normal (listed channel) := normal_normalize _

theorem comma_not_mem_listed {channel : Channel} (h : m ∈ listed channel) : ',' ∉ m.toList := by
  obtain ⟨-, p, hp, rfl⟩ := mem_listed.mp h
  exact fun hc ↦ comma_not_mem_split hp (mem_of_mem_trimSpace hc)

theorem split_join (hne : names ≠ []) : split (join names) ',' = names.flatMap (split · ',') := by
  rw [split, join, String.toList_ofList, Joined.splitOn_joined_flatMap (by simpa using hne), List.map_flatMap,
    List.flatMap_map]
  rfl

end Lists

section Rounds

variable (library : Library)

/-- What the administrator picks of the pending changes. -/
structure Selection where
  add : List String
  ignore : List String
  remove : List String

/-- The changes that are applied and ignored of the pending ones of a stored channel. -/
structure Picked where
  added : String → Prop
  ignored : String → Prop
  removed : String → Prop

def picked (sel : Selection) (s : Stored) : Picked where
  added m := m ∈ s.settings.lastDetectedModels ∧ m ∈ normalizeModelNames sel.add
  ignored m := m ∈ s.settings.lastDetectedModels ∧ m ∈ normalizeModelNames sel.ignore ∧
    m ∉ normalizeModelNames sel.add
  removed m := m ∈ s.settings.lastRemovedModels ∧ m ∈ normalizeModelNames sel.remove

/-- A detection that an administrator asks for. -/
def detected (order : MapOrder (String × String)) (now : ℤ) (upstreamModels : List String) (s : Stored) :
    Stored :=
  (checkAndPersistChannelUpstreamModelUpdates library order now 0 (.ok upstreamModels) true false s).stored

def applied (now : ℤ) (sel : Selection) (s : Stored) : Stored :=
  (applyChannelUpstreamModelUpdates now sel.add sel.ignore sel.remove s).stored

def sources (order : MapOrder (String × String)) (modelMapping : Option String) : List String :=
  (normalizeChannelModelMapping library order modelMapping).items.map Prod.fst

def targets (order : MapOrder (String × String)) (modelMapping : Option String) : List String :=
  (normalizeChannelModelMapping library order modelMapping).items.map Prod.snd

/-- The rows of a channel are those of the names in its list, each under the name that stands there. -/
structure AbilitiesMatch (channel : Channel) (abilities : Table Ability.key) : Prop where
  rows : (abilities.rows.filter (·.channelId = channel.id)).Perm
    (((groupsOf channel).dedup ×ˢ (modelsOf channel).dedup).map (abilityOf channel))
  models : ∀ m, m ∈ modelsOf channel ↔ m ∈ listed channel

/-- The picked changes are made, and a new detection finds the others. -/
structure Settled (order : MapOrder (String × String)) (s found changed again : Stored)
    (picks : Picked) : Prop where
  additions : ∀ m, m ∈ again.settings.lastDetectedModels ↔
    m ∈ found.settings.lastDetectedModels ∧ ¬ picks.added m ∧ ¬ picks.ignored m
  removals : ∀ m, m ∈ again.settings.lastRemovedModels ↔
    m ∈ found.settings.lastRemovedModels ∧ ¬ picks.removed m
  own : ∀ m ∈ listed changed.channel, m ∈ listed s.channel ∨ picks.added m
  redirects : ∀ m ∈ listed s.channel, m ∈ sources library order s.modelMapping → m ∈ listed changed.channel
  abilities : AbilitiesMatch changed.channel changed.abilities

end Rounds

section Detections

variable (library : Library) (order : MapOrder (String × String)) (now : ℤ) (upstreamModels : List String)
  (s : Stored) {m : String}

theorem mem_detected : m ∈ (detected library order now upstreamModels s).settings.lastDetectedModels ↔
    m ∈ normalizeModelNames upstreamModels ∧ m ∉ listed s.channel ∧
      m ∉ targets library order s.modelMapping ∧
      ¬ ∃ e ∈ normalizeModelNames s.settings.ignoredModels, ignores library e m = true := by
  have hstored : (detected library order now upstreamModels s).settings.lastDetectedModels =
      (collectPendingUpstreamModelChangesFromModels library (getModels s.channel) upstreamModels
        s.settings.ignoredModels (normalizeChannelModelMapping library order s.modelMapping)).1 := by
    simp [detected, checkAndPersistChannelUpstreamModelUpdates]
  rw [hstored, collectPendingUpstreamModelChangesFromModels,
    ((normal_normalize upstreamModels).filter _).normalize_eq,
    List.mem_filter, Bool.and_eq_true, Bool.not_eq_true', decide_eq_false_iff_not, not_or, Bool.not_eq_true',
    ← Bool.not_eq_true, List.any_eq_true, and_assoc]
  rfl

theorem mem_detected_removed : m ∈ (detected library order now upstreamModels s).settings.lastRemovedModels ↔
    m ∈ listed s.channel ∧ m ∉ sources library order s.modelMapping ∧
      m ∉ normalizeModelNames upstreamModels := by
  have hstored : (detected library order now upstreamModels s).settings.lastRemovedModels =
      (collectPendingUpstreamModelChangesFromModels library (getModels s.channel) upstreamModels
        s.settings.ignoredModels (normalizeChannelModelMapping library order s.modelMapping)).2 := by
    simp [detected, checkAndPersistChannelUpstreamModelUpdates]
  rw [hstored, collectPendingUpstreamModelChangesFromModels,
    ((normal_normalize (getModels s.channel)).filter _).normalize_eq, List.mem_filter, decide_eq_true_eq]
  rfl

/-- A detection only writes what it found and when. -/
theorem detected_eq : detected library order now upstreamModels s =
    { s with settings :=
        { s.settings with
          lastCheckTime := now
          lastDetectedModels := (detected library order now upstreamModels s).settings.lastDetectedModels
          lastRemovedModels := (detected library order now upstreamModels s).settings.lastRemovedModels } } := by
  simp [detected, checkAndPersistChannelUpstreamModelUpdates]

/-- The pending changes of a channel as a detection leaves them. -/
structure Pending (s : Stored) : Prop where
  added : Normal s.settings.lastDetectedModels
  removed : Normal s.settings.lastRemovedModels
  fresh : ∀ m ∈ s.settings.lastDetectedModels, m ∉ listed s.channel
  own : ∀ m ∈ s.settings.lastRemovedModels, m ∈ listed s.channel

theorem detected_pending : Pending (detected library order now upstreamModels s) := by
  have hchannel : (detected library order now upstreamModels s).channel = s.channel := by
    rw [detected_eq]
  refine ⟨?_, ?_, fun m hm ↦ ?_, fun m hm ↦ ?_⟩
  · simp only [detected, checkAndPersistChannelUpstreamModelUpdates]
    simpa [collectPendingUpstreamModelChangesFromModels] using normal_normalize _
  · simp only [detected, checkAndPersistChannelUpstreamModelUpdates]
    simpa [collectPendingUpstreamModelChangesFromModels] using normal_normalize _
  · rw [hchannel]
    exact ((mem_detected library order now upstreamModels s).mp hm).2.1
  · rw [hchannel]
    exact ((mem_detected_removed library order now upstreamModels s).mp hm).1

end Detections

section Changes

variable {s : Stored} (hpending : Pending s) (now : ℤ) (sel : Selection) {m : String}

/-- The names left in the list, with the applied ones. -/
def Kept (channel : Channel) (picks : Picked) (m : String) : Prop :=
  (m ∈ listed channel ∧ ¬ picks.removed m) ∨ picks.added m

def nextModels (sel : Selection) (s : Stored) : List String :=
  let addModels := intersectModelNames sel.add (normalizeModelNames s.settings.lastDetectedModels)
  applySelectedModelChanges (listed s.channel) addModels
    (subtractModelNames
      (intersectModelNames sel.remove (normalizeModelNames s.settings.lastRemovedModels)) addModels)

include hpending

theorem mem_addModels :
    m ∈ intersectModelNames sel.add (normalizeModelNames s.settings.lastDetectedModels) ↔
      (picked sel s).added m := by
  rw [mem_intersect, normalize_normalize, hpending.added.normalize_eq, and_comm]
  rfl

theorem removed_not_added (h : (picked sel s).removed m) : ¬ (picked sel s).added m :=
  fun hadded ↦ hpending.fresh m hadded.1 (hpending.own m h.1)

theorem mem_nextModels : m ∈ nextModels sel s ↔ Kept s.channel (picked sel s) m := by
  have hremoved : m ∈ subtractModelNames
      (intersectModelNames sel.remove (normalizeModelNames s.settings.lastRemovedModels))
      (intersectModelNames sel.add (normalizeModelNames s.settings.lastDetectedModels)) ↔
      (picked sel s).removed m := by
    rw [mem_subtract, (normal_intersect _ _).normalize_eq, (normal_intersect _ _).normalize_eq,
      mem_addModels hpending, mem_intersect, normalize_normalize, hpending.removed.normalize_eq]
    constructor
    · exact fun h ↦ ⟨h.1.2, h.1.1⟩
    · exact fun h ↦ ⟨⟨h.2, h.1⟩, removed_not_added hpending sel h⟩
  have hdisjoint := removed_not_added hpending sel (m := m)
  rw [nextModels, mem_applySelected (normal_listed s.channel) (normal_intersect _ _)
    (normal_subtract _ _), hremoved, mem_addModels hpending, Kept]
  tauto

theorem nextModels_eq_iff : listed s.channel = nextModels sel s ↔
    ∀ m, ¬ (picked sel s).added m ∧ ¬ (picked sel s).removed m := by
  constructor
  · intro hsame m
    have hmem : m ∈ listed s.channel ↔ Kept s.channel (picked sel s) m := by
      rw [hsame]
      exact mem_nextModels hpending sel
    constructor
    · exact fun hadded ↦ hpending.fresh m hadded.1 (hmem.mpr (.inr hadded))
    · intro hremoved
      obtain ⟨-, hnot⟩ | hadded := hmem.mp (hpending.own m hremoved.1)
      · exact hnot hremoved
      · exact removed_not_added hpending sel hremoved hadded
  · intro hnone
    have hadd : intersectModelNames sel.add (normalizeModelNames s.settings.lastDetectedModels) = [] :=
      List.eq_nil_iff_forall_not_mem.mpr fun m hm ↦ (hnone m).1 ((mem_addModels hpending sel).mp hm)
    have hremove : intersectModelNames sel.remove (normalizeModelNames s.settings.lastRemovedModels) =
        [] := by
      refine List.eq_nil_iff_forall_not_mem.mpr fun m hm ↦ (hnone m).2 ?_
      rw [mem_intersect, normalize_normalize, hpending.removed.normalize_eq] at hm
      exact ⟨hm.2, hm.1⟩
    rw [nextModels, hadd, hremove]
    exact (applySelected_nil (normal_listed s.channel)).symm

omit hpending in
theorem applied_channel : (applied now sel s).channel =
    if listed s.channel ≠ nextModels sel s then { s.channel with models := join (nextModels sel s) }
    else s.channel := by
  simp only [applied, applyChannelUpstreamModelUpdates, decide_eq_true_eq]
  rfl

omit hpending in
theorem applied_abilities : (applied now sel s).abilities =
    if listed s.channel ≠ nextModels sel s then
      (Model.AbilityUpdates.updateAbilities {} (applied now sel s).channel false s.abilities).abilities
    else s.abilities := by
  simp only [applied, applyChannelUpstreamModelUpdates, decide_eq_true_eq]
  rfl

theorem mem_applied_ignored : m ∈ normalizeModelNames (applied now sel s).settings.ignoredModels ↔
    (m ∈ normalizeModelNames s.settings.ignoredModels ∨ (picked sel s).ignored m) ∧
      ¬ (picked sel s).added m := by
  have hmerged : m ∈ mergeModelNames s.settings.ignoredModels
      (intersectModelNames sel.ignore (normalizeModelNames s.settings.lastDetectedModels)) ↔
        m ∈ normalizeModelNames s.settings.ignoredModels ∨
          m ∈ s.settings.lastDetectedModels ∧ m ∈ normalizeModelNames sel.ignore := by
    rw [mem_merge, (normal_intersect _ _).normalize_eq, mem_intersect, normalize_normalize,
      hpending.added.normalize_eq, and_comm (a := m ∈ normalizeModelNames sel.ignore)]
  have hadd := mem_addModels hpending sel (m := m)
  simp only [applied, applyChannelUpstreamModelUpdates]
  have hgoal : (m ∈ normalizeModelNames s.settings.ignoredModels ∨
      m ∈ s.settings.lastDetectedModels ∧ m ∈ normalizeModelNames sel.ignore) ∧ ¬ (picked sel s).added m ↔
      (m ∈ normalizeModelNames s.settings.ignoredModels ∨ (picked sel s).ignored m) ∧
        ¬ (picked sel s).added m := by
    simp only [picked]
    tauto
  rw [← hgoal]
  split
  · rw [(normal_subtract _ _).normalize_eq, mem_subtract, (normal_merge _ _).normalize_eq, hmerged,
      (normal_intersect _ _).normalize_eq, hadd]
  · rename_i hnone
    rw [(normal_merge _ _).normalize_eq, hmerged, ← hadd, not_not.mp hnone]
    simp

omit hpending in
theorem mem_pieces_of_kept (h : m ∈ listed s.channel) {p : String} (hp : p ∈ split m ',') : p = m := by
  rw [split_self (comma_not_mem_listed h)] at hp
  exact List.mem_singleton.mp hp

/-- The names of the list after an update: those left in it and the pieces of the applied ones. -/
theorem mem_listed_applied : m ∈ listed (applied now sel s).channel ↔
    (m ∈ listed s.channel ∧ ¬ (picked sel s).removed m) ∨
      ∃ a, (picked sel s).added a ∧ m ≠ "" ∧ ∃ p ∈ split a ',', trimSpace p = m := by
  have hnext := fun n ↦ mem_nextModels hpending sel (m := n)
  rw [applied_channel]
  by_cases hchanged : listed s.channel ≠ nextModels sel s
  · rw [if_pos hchanged, mem_listed]
    change m ≠ "" ∧ (∃ p ∈ split (join (nextModels sel s)) ',', trimSpace p = m) ↔ _
    by_cases hempty : nextModels sel s = []
    · have hnone : ∀ n, ¬ Kept s.channel (picked sel s) n := fun n hn ↦ by
        have := (hnext n).mpr hn
        rw [hempty] at this
        cases this
      refine iff_of_false ?_ ?_
      · rintro ⟨hne, p, hp, rfl⟩
        rw [hempty] at hp
        have : split (join []) ',' = [""] := by decide
        rw [this, List.mem_singleton] at hp
        rw [hp] at hne
        exact hne (by decide)
      · rintro (hleft | ⟨a, ha, -⟩)
        · exact hnone m (.inl hleft)
        · exact hnone a (.inr ha)
    · rw [split_join hempty]
      constructor
      · rintro ⟨hne, p, hp, rfl⟩
        obtain ⟨n, hn, hp⟩ := List.mem_flatMap.mp hp
        obtain ⟨hin, hleft⟩ | hadded := (hnext n).mp hn
        · rw [mem_pieces_of_kept hin hp, ((normal_listed _).clean n hin).2]
          exact .inl ⟨hin, hleft⟩
        · exact .inr ⟨n, hadded, hne, p, hp, rfl⟩
      · rintro (⟨hin, hleft⟩ | ⟨a, ha, hne, p, hp, rfl⟩)
        · obtain ⟨hne, htrim⟩ := (normal_listed _).clean m hin
          refine ⟨hne, m, List.mem_flatMap.mpr ⟨m, (hnext m).mpr (.inl ⟨hin, hleft⟩), ?_⟩, htrim⟩
          rw [split_self (comma_not_mem_listed hin)]
          exact List.mem_singleton_self m
        · exact ⟨hne, p, List.mem_flatMap.mpr ⟨a, (hnext a).mpr (.inr ha), hp⟩, rfl⟩
  · have hnone := (nextModels_eq_iff hpending sel).mp (not_not.mp hchanged)
    rw [if_neg hchanged]
    constructor
    · exact fun hin ↦ .inl ⟨hin, (hnone m).2⟩
    · rintro (⟨hin, -⟩ | ⟨a, ha, -⟩)
      · exact hin
      · exact absurd ha (hnone a).1

end Changes

section Storing

/-- The list comes back from its column name by name, and with its groups as as many abilities. -/
structure Storable (channel : Channel) (picks : Picked) : Prop where
  left : ∃ m, Kept channel picks m
  clean : ∀ a, picks.added a → ∀ p ∈ split a ',', Clean p
  separate : ∀ group ∈ groupsOf channel, ∀ model, Kept channel picks model → ',' ∉ model.toList →
    ∀ group' ∈ groupsOf channel, ∀ model', Kept channel picks model' → ',' ∉ model'.toList →
      joined (group, model) = joined (group', model') → group = group' ∧ model = model'

variable {s : Stored} (hpending : Pending s) (now : ℤ) (sel : Selection)

theorem applied_match_iff (hchanged : listed s.channel ≠ nextModels sel s) :
    AbilitiesMatch (applied now sel s).channel (applied now sel s).abilities ↔
      Separate (applied now sel s).channel ∧
        ∀ m, m ∈ modelsOf (applied now sel s).channel ↔ m ∈ listed (applied now sel s).channel := by
  have hrows : ((applied now sel s).abilities.rows.filter
      (·.channelId = (applied now sel s).channel.id)).Perm
        (((groupsOf (applied now sel s).channel).dedup ×ˢ (modelsOf (applied now sel s).channel).dedup).map
          (abilityOf (applied now sel s).channel)) ↔ Separate (applied now sel s).channel := by
    rw [applied_abilities, if_pos hchanged, updateAbilities_own, ← channelAbilities_perm_iff]
    exact ⟨(List.reverse_perm _).symm.trans, (List.reverse_perm _).trans⟩
  rw [← hrows]
  exact ⟨fun h ↦ ⟨h.rows, h.models⟩, fun h ↦ ⟨h.1, h.2⟩⟩

include hpending

/-- The models of the column after a change, where there are any. -/
theorem mem_modelsOf_applied (hchanged : listed s.channel ≠ nextModels sel s) {n : String}
    (hn : Kept s.channel (picked sel s) n) {m : String} :
    m ∈ modelsOf (applied now sel s).channel ↔ ∃ a, Kept s.channel (picked sel s) a ∧ m ∈ split a ',' := by
  have hne : nextModels sel s ≠ [] := List.ne_nil_of_mem ((mem_nextModels hpending sel).mpr hn)
  rw [applied_channel, if_pos hchanged]
  change m ∈ split (join (nextModels sel s)) ',' ↔ _
  rw [split_join hne, List.mem_flatMap]
  exact exists_congr fun a ↦ and_congr_left' (mem_nextModels hpending sel)

theorem applied_storable_iff (hchanged : listed s.channel ≠ nextModels sel s)
    (hwhole : ∀ a, (picked sel s).added a → ∀ p ∈ split a ',', trimSpace p ≠ "" →
      Kept s.channel (picked sel s) (trimSpace p)) :
    AbilitiesMatch (applied now sel s).channel (applied now sel s).abilities ↔
      Storable s.channel (picked sel s) := by
  have hgroups : groupsOf (applied now sel s).channel = groupsOf s.channel := by
    rw [applied_channel, if_pos hchanged]
    rfl
  rw [applied_match_iff now sel hchanged]
  constructor
  · rintro ⟨hseparate, hmodels⟩
    obtain ⟨n, hn⟩ : ∃ n, Kept s.channel (picked sel s) n := by
      by_contra hnone
      have hempty : nextModels sel s = [] := List.eq_nil_iff_forall_not_mem.mpr fun m hm ↦
        hnone ⟨m, (mem_nextModels hpending sel).mp hm⟩
      have hblank : "" ∈ modelsOf (applied now sel s).channel := by
        rw [applied_channel, if_pos hchanged, hempty]
        change "" ∈ split (join []) ','
        decide
      exact ((normal_listed _).clean "" ((hmodels "").mp hblank)).1 rfl
    have hmem := fun m ↦ mem_modelsOf_applied hpending now sel hchanged hn (m := m)
    refine ⟨⟨n, hn⟩, ?_, ?_⟩
    · intro a ha p hp
      exact (normal_listed _).clean p ((hmodels p).mp ((hmem p).mpr ⟨a, .inr ha, hp⟩))
    · intro group hgroup model hmodel hcomma group' hgroup' model' hmodel' hcomma' hjoined
      have hself : ∀ m, Kept s.channel (picked sel s) m → ',' ∉ m.toList →
          m ∈ modelsOf (applied now sel s).channel := by
        intro m hkept hm
        refine (hmem m).mpr ⟨m, hkept, ?_⟩
        rw [split_self hm]
        exact List.mem_singleton_self m
      rw [← hgroups] at hgroup hgroup'
      exact hseparate group hgroup model (hself model hmodel hcomma) group' hgroup' model'
        (hself model' hmodel' hcomma') hjoined
  · rintro ⟨⟨n, hn⟩, hclean, hseparate⟩
    have hmem := fun m ↦ mem_modelsOf_applied hpending now sel hchanged hn (m := m)
    have hkept : ∀ m ∈ modelsOf (applied now sel s).channel,
        Clean m ∧ Kept s.channel (picked sel s) m ∧ ',' ∉ m.toList := by
      intro m hm
      obtain ⟨a, ⟨hin, hleft⟩ | hadded, hp⟩ := (hmem m).mp hm
      · rw [mem_pieces_of_kept hin hp]
        exact ⟨(normal_listed _).clean a hin, .inl ⟨hin, hleft⟩, comma_not_mem_listed hin⟩
      · obtain ⟨hne, htrim⟩ := hclean a hadded m hp
        have hwhole' := hwhole a hadded m hp (by rwa [htrim])
        rw [htrim] at hwhole'
        exact ⟨⟨hne, htrim⟩, hwhole', comma_not_mem_split hp⟩
    constructor
    · intro group hgroup model hmodel group' hgroup' model' hmodel' hjoined
      rw [hgroups] at hgroup hgroup'
      obtain ⟨-, hmodel, hcomma⟩ := hkept model hmodel
      obtain ⟨-, hmodel', hcomma'⟩ := hkept model' hmodel'
      exact hseparate group hgroup model hmodel hcomma group' hgroup' model' hmodel' hcomma' hjoined
    · intro m
      rw [mem_listed]
      constructor
      · intro hm
        obtain ⟨⟨hne, htrim⟩, -⟩ := hkept m hm
        exact ⟨hne, m, hm, htrim⟩
      · rintro ⟨-, p, hp, rfl⟩
        obtain ⟨⟨-, htrim⟩, -⟩ := hkept p hp
        rwa [htrim]

end Storing

section Fixpoint

/-- What the two detections say of one name, by what is so of it: listed, pending for addition before
any name is told to be ignored, taken or covered by a redirect then and now. -/
theorem name_settled_iff {L U T T' S I I' A G D Piece Comma : Prop} (hA : A → U ∧ ¬ L ∧ ¬ T ∧ ¬ I)
    (hD : D → L ∧ ¬ S ∧ ¬ U) (hself : A → Comma ∨ Piece)
    (hPiece : Piece → ¬ Comma) :
    ((U ∧ ¬ (L ∧ ¬ D ∨ Piece) ∧ ¬ T' ∧ ¬ I' ↔ (U ∧ ¬ L ∧ ¬ T ∧ ¬ I) ∧ ¬ A ∧ ¬ G) ∧
      ((L ∧ ¬ D ∨ Piece) ∧ ¬ S ∧ ¬ U ↔ (L ∧ ¬ S ∧ ¬ U) ∧ ¬ D) ∧ (L ∧ ¬ D ∨ Piece → L ∨ A)) ↔
      (Piece → L ∧ ¬ D ∨ A) ∧ (U → ¬ L → (A → Comma) → (T' ∨ I' ↔ T ∨ I ∨ A ∨ G)) := by
  constructor
  · rintro ⟨hadd, hremove, hown⟩
    have hwhole : Piece → L ∧ ¬ D ∨ A := by
      intro hpiece
      by_cases hA' : A
      · exact .inr hA'
      · have hL : L := (hown (.inr hpiece)).resolve_right hA'
        refine .inl ⟨hL, fun hD' ↦ ?_⟩
        exact (hremove.mp ⟨.inr hpiece, (hD hD').2⟩).2 hD'
    refine ⟨hwhole, fun hU hL hcomma ↦ ?_⟩
    have hnot : ¬ (L ∧ ¬ D ∨ Piece) := by
      rintro (⟨hL', -⟩ | hpiece)
      · exact hL hL'
      · exact hPiece hpiece (hcomma ((hown (.inr hpiece)).resolve_left hL))
    rw [and_iff_right hU, and_iff_right hnot, and_iff_right hU, and_iff_right hL] at hadd
    rw [← not_iff_not, not_or, hadd, not_or, not_or, not_or, and_assoc]
  · rintro ⟨hwhole, htold⟩
    refine ⟨?_, ?_, ?_⟩
    · by_cases hL : L
      · refine iff_of_false (fun h ↦ h.2.1 (.inl ⟨hL, fun hD' ↦ (hD hD').2.2 h.1⟩)) fun h ↦ h.1.2.1 hL
      · by_cases hcomma : A → Comma
        · have hnot : ¬ (L ∧ ¬ D ∨ Piece) := by
            rintro (⟨hL', -⟩ | hpiece)
            · exact hL hL'
            · exact hPiece hpiece (hcomma ((hwhole hpiece).resolve_left fun h ↦ hL h.1))
          rw [and_assoc]
          refine and_congr_right fun hU ↦ ?_
          rw [and_iff_right hnot, and_iff_right hL, ← not_or, htold hU hL hcomma, not_or, not_or, not_or,
            and_assoc]
        · obtain ⟨hA', hplain⟩ := Classical.not_imp.mp hcomma
          exact iff_of_false (fun h ↦ h.2.1 (.inr ((hself hA').resolve_left hplain))) fun h ↦ h.2.1 hA'
    · constructor
      · rintro ⟨hlisted, hS, hU⟩
        have hL : L ∧ ¬ D := hlisted.elim id fun hpiece ↦ (hwhole hpiece).resolve_right fun hA' ↦
            hU (hA hA').1
        exact ⟨⟨hL.1, hS, hU⟩, hL.2⟩
      · exact fun h ↦ ⟨.inl ⟨h.1.1, h.2⟩, h.1.2⟩
    · rintro (⟨hL, -⟩ | hpiece)
      · exact .inl hL
      · exact (hwhole hpiece).imp And.left id

variable (library : Library) (order order' : MapOrder (String × String))

theorem mem_keys_entries {l : List (String × String)} {d : Dict String String} {m : String} :
    m ∈ (l.foldl (fun normalized entry ↦
      if trimSpace entry.1 = "" ∨ trimSpace entry.2 = "" then normalized
      else normalized.set (trimSpace entry.1) (trimSpace entry.2)) d).keys ↔
        m ∈ d.keys ∨ ∃ entry ∈ l, ¬ (trimSpace entry.1 = "" ∨ trimSpace entry.2 = "") ∧
          m = trimSpace entry.1 := by
  induction l generalizing d with
  | nil => simp
  | cons entry l ih =>
    rw [List.foldl_cons, ih, List.exists_mem_cons_iff]
    by_cases hblank : trimSpace entry.1 = "" ∨ trimSpace entry.2 = ""
    · rw [if_pos hblank]
      exact or_congr_right (or_iff_right fun h ↦ h.1 hblank).symm
    · rw [if_neg hblank, Dict.mem_keys_set, and_iff_right hblank]
      exact or_assoc.trans or_left_comm

/-- Whatever the order, the redirects have the same sources. -/
theorem mem_sources_iff (modelMapping : Option String) (m : String) :
    m ∈ sources library order' modelMapping ↔ m ∈ sources library order modelMapping := by
  cases modelMapping with
  | none => rfl
  | some mapping =>
    simp only [sources, normalizeChannelModelMapping]
    by_cases hempty : trimSpace mapping = "" ∨ trimSpace mapping = "\x7b\x7d"
    · rw [if_pos hempty, if_pos hempty]
    · rw [if_neg hempty, if_neg hempty]
      cases library.unmarshal (trimSpace mapping) with
      | none => rfl
      | some parsed =>
        change m ∈ Dict.keys _ ↔ m ∈ Dict.keys _
        rw [mem_keys_entries, mem_keys_entries]
        exact or_congr_right (exists_congr fun entry ↦
          and_congr_left' (order'.mem_visit.trans order.mem_visit.symm))

/-- No applied name falls into others at a comma, no name that is told to be ignored reads as a
pattern for others or not for itself, the targets of the redirects do not change with the order of
the map, and the abilities can follow the list. -/
structure Harmless (upstreamModels : List String) (s : Stored) (picks : Picked) : Prop where
  whole : ∀ a, picks.added a → ∀ p ∈ split a ',', trimSpace p ≠ "" → Kept s.channel picks (trimSpace p)
  told : ∀ u ∈ normalizeModelNames upstreamModels, u ∉ listed s.channel →
    (picks.added u → ',' ∈ u.toList) →
      (u ∈ targets library order' s.modelMapping ∨
          (∃ e, (e ∈ normalizeModelNames s.settings.ignoredModels ∨ picks.ignored e) ∧ ¬ picks.added e ∧
            ignores library e u = true) ↔
        u ∈ targets library order s.modelMapping ∨
          (∃ e ∈ normalizeModelNames s.settings.ignoredModels, ignores library e u = true) ∨
            picks.added u ∨ picks.ignored u)
  unchanged : (∀ m, ¬ picks.added m ∧ ¬ picks.removed m) → AbilitiesMatch s.channel s.abilities
  changed : (¬ ∀ m, ¬ picks.added m ∧ ¬ picks.removed m) → Storable s.channel picks

variable (now now' now'' : ℤ) (upstreamModels : List String) (s : Stored) (sel : Selection)

/-- After the picked changes a new detection finds exactly the others, with the list and the
abilities as they should be, exactly when no name is split or read as a pattern on the way. -/
theorem upstream_settled_iff :
    let found := detected library order now upstreamModels s
    let changed := applied now' sel found
    let again := detected library order' now'' upstreamModels changed
    Settled library order s found changed again (picked sel found) ↔
      Harmless library order order' upstreamModels s (picked sel found) := by
  intro found changed again
  have hfound : found = { s with settings := found.settings } :=
      detected_eq library order now upstreamModels s
  have hpending : Pending found := detected_pending library order now upstreamModels s
  have hchannel : found.channel = s.channel := by rw [hfound]
  have hmapping : changed.modelMapping = s.modelMapping := by
    change found.modelMapping = s.modelMapping
    rw [hfound]
  have hignored : found.settings.ignoredModels = s.settings.ignoredModels := by
    change (detected library order now upstreamModels s).settings.ignoredModels = _
    rw [detected_eq]
  have hlisted := fun m ↦ mem_listed_applied hpending now' sel (m := m)
  have hnew : ∀ m, m ∈ found.settings.lastDetectedModels ↔ _ :=
    fun m ↦ mem_detected library order now upstreamModels s
  have hgone : ∀ m, m ∈ found.settings.lastRemovedModels ↔ _ :=
    fun m ↦ mem_detected_removed library order now upstreamModels s
  have hagain : ∀ m, m ∈ again.settings.lastDetectedModels ↔ _ :=
    fun m ↦ mem_detected library order' now'' upstreamModels changed
  have hagaingone : ∀ m, m ∈ again.settings.lastRemovedModels ↔ _ :=
    fun m ↦ mem_detected_removed library order' now'' upstreamModels changed
  have hadded : ∀ m, (picked sel found).added m → ',' ∈ m.toList ∨
      ∃ a, (picked sel found).added a ∧ m ≠ "" ∧ ∃ p ∈ split a ',', trimSpace p = m := by
    intro m hm
    by_cases hcomma : ',' ∈ m.toList
    · exact .inl hcomma
    · obtain ⟨hne, htrim⟩ := hpending.added.clean m hm.1
      refine .inr ⟨m, hm, hne, m, ?_, htrim⟩
      rw [split_self hcomma]
      exact List.mem_singleton_self m
  have hname : ∀ m,
      ((m ∈ again.settings.lastDetectedModels ↔ m ∈ found.settings.lastDetectedModels ∧
          ¬ (picked sel found).added m ∧ ¬ (picked sel found).ignored m) ∧
        (m ∈ again.settings.lastRemovedModels ↔
          m ∈ found.settings.lastRemovedModels ∧ ¬ (picked sel found).removed m) ∧
        (m ∈ listed changed.channel → m ∈ listed s.channel ∨ (picked sel found).added m)) ↔
      ((∃ a, (picked sel found).added a ∧ m ≠ "" ∧ ∃ p ∈ split a ',', trimSpace p = m) →
        Kept s.channel (picked sel found) m) ∧
      (m ∈ normalizeModelNames upstreamModels → m ∉ listed s.channel →
        ((picked sel found).added m → ',' ∈ m.toList) →
          (m ∈ targets library order' s.modelMapping ∨
              (∃ e, (e ∈ normalizeModelNames s.settings.ignoredModels ∨ (picked sel found).ignored e) ∧
                ¬ (picked sel found).added e ∧ ignores library e m = true) ↔
            m ∈ targets library order s.modelMapping ∨
              (∃ e ∈ normalizeModelNames s.settings.ignoredModels, ignores library e m = true) ∨
                (picked sel found).added m ∨ (picked sel found).ignored m)) := by
    intro m
    have htold : (∃ e ∈ normalizeModelNames changed.settings.ignoredModels, ignores library e m = true) ↔
        ∃ e, (e ∈ normalizeModelNames s.settings.ignoredModels ∨ (picked sel found).ignored e) ∧
          ¬ (picked sel found).added e ∧ ignores library e m = true := by
      refine exists_congr fun e ↦ ?_
      rw [mem_applied_ignored hpending now' sel, hignored, and_assoc]
    rw [hagain, hagaingone, hnew, hgone, hlisted, htold, hmapping, hchannel,
      mem_sources_iff library order order' s.modelMapping]
    refine name_settled_iff (fun h ↦ (hnew m).mp h.1) (fun h ↦ (hgone m).mp h.1) (hadded m) ?_
    rintro ⟨a, -, -, p, hp, rfl⟩ hcomma
    exact comma_not_mem_split hp (mem_of_mem_trimSpace hcomma)
  have hsame := nextModels_eq_iff hpending sel
  have hstay : listed found.channel = nextModels sel found →
      changed.channel = s.channel ∧ changed.abilities = s.abilities := by
    intro h
    constructor
    · rw [← hchannel]
      exact (applied_channel now' sel).trans (if_neg (not_not.mpr h))
    · refine ((applied_abilities now' sel).trans (if_neg (not_not.mpr h))).trans ?_
      rw [hfound]
  constructor
  · intro h
    have hpair := fun m ↦ (hname m).mp ⟨h.additions m, h.removals m, h.own m⟩
    have hwhole : ∀ a, (picked sel found).added a → ∀ p ∈ split a ',', trimSpace p ≠ "" →
        Kept s.channel (picked sel found) (trimSpace p) :=
      fun a ha p hp hne ↦ (hpair (trimSpace p)).1 ⟨a, ha, hne, p, hp, rfl⟩
    refine ⟨hwhole, fun u hu hlocal hcomma ↦ (hpair u).2 hu hlocal hcomma, fun hnone ↦ ?_, fun hsome ↦ ?_⟩
    · obtain ⟨hch, hab⟩ := hstay (hsame.mpr hnone)
      rw [← hch, ← hab]
      exact h.abilities
    · rw [← hchannel]
      exact (applied_storable_iff hpending now' sel (fun heq ↦ hsome (hsame.mp heq))
        (hchannel.symm ▸ hwhole)).mp h.abilities
  · intro h
    have hpair := fun m ↦ (hname m).mpr
      ⟨fun ⟨a, ha, hne, p, hp, htrim⟩ ↦ htrim ▸ h.whole a ha p hp (htrim ▸ hne), h.told m⟩
    refine ⟨fun m ↦ (hpair m).1, fun m ↦ (hpair m).2.1, fun m ↦ (hpair m).2.2, fun m hm hsource ↦ ?_, ?_⟩
    · refine (hlisted m).mpr (.inl ⟨hchannel ▸ hm, fun hremoved ↦ ?_⟩)
      exact ((hgone m).mp hremoved.1).2.1 hsource
    · by_cases hnone : ∀ m, ¬ (picked sel found).added m ∧ ¬ (picked sel found).removed m
      · obtain ⟨hch, hab⟩ := hstay (hsame.mpr hnone)
        rw [hch, hab]
        exact h.unchanged hnone
      · refine (applied_storable_iff hpending now' sel (fun heq ↦ hnone (hsame.mp heq))
          (hchannel.symm ▸ h.whole)).mpr ?_
        rw [hchannel]
        exact h.changed hnone

/-- A channel with one model and its ability. -/
def singleModel : Stored where
  channel := { id := 1, models := "x" }
  modelMapping := none
  settings := {}
  abilities := .single (abilityOf { id := 1, models := "x" } ("default", "x"))

/-- A provider's model with a comma in its name becomes two models of the channel. -/
theorem upstream_settled_not : ¬ ∀ (library : Library) (order : MapOrder (String × String)) (s : Stored)
    (upstreamModels : List String) (sel : Selection), AbilitiesMatch s.channel s.abilities →
      let found := detected library order 1 upstreamModels s
      let changed := applied 2 sel found
      Settled library order s found changed (detected library order 3 upstreamModels changed)
        (picked sel found) := by
  intro h
  have hmatch : AbilitiesMatch singleModel.channel singleModel.abilities := by
    refine ⟨by decide, fun m ↦ ?_⟩
    have hmodels : modelsOf singleModel.channel = ["x"] := by decide
    have hlisted : listed singleModel.channel = ["x"] := by decide
    rw [hmodels, hlisted]
  have hsettled := h ⟨fun _ ↦ none, fun _ _ ↦ none⟩ .asListed singleModel ["x", "a,b"] ⟨["a,b"], [], []⟩ hmatch
  obtain hold | hadded := hsettled.own "a" (by decide)
  · exact absurd hold (by decide)
  · exact absurd hadded.1 (by decide)

end Fixpoint

end AllAiTools.NewApi.Controller.UpstreamSettles
