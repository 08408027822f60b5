import AllAiTools.Foundation.Rounding
import AllAiTools.NewApi.Relay.RemixRatios

namespace AllAiTools.NewApi.Relay.AdjustedQuota

open Foundation Foundation.Rounding Foundation.TruncatedProduct Types.Price HelperPrice RelayTask
  RemixRatios

section Loops

variable {floats : Floats}

theorem applyOtherRatios_eq (hexact : floats.nearest = id) (rows : List (String × ℚ)) (quota : ℤ) :
    applyOtherRatios floats rows quota = mulAll quota (rows.map Prod.snd) := by
  unfold applyOtherRatios
  rw [hexact]
  induction rows generalizing quota with
  | nil => rfl
  | cons named rows ih =>
    rw [List.foldl_cons, ih, List.map_cons, mulAll_cons]
    congr 1
    by_cases hone : named.2 = 1
    · rw [if_pos hone, hone, mul_one, truncate_intCast]
    · rw [if_neg hone]
      rfl

theorem foldl_divide (hexact : floats.nearest = id) {rows : List (String × ℚ)}
    (hpos : ∀ named ∈ rows, 0 < named.2) (quota : ℤ) :
    rows.foldl (fun (quota : ℤ) ratio ↦ if ratio.2 = 1 ∨ ratio.2 ≤ 0 then quota
      else truncate (floats.nearest (floats.nearest quota / ratio.2))) quota =
    mulAll quota ((rows.map Prod.snd).map (·⁻¹)) := by
  rw [hexact]
  induction rows generalizing quota with
  | nil => rfl
  | cons named rows ih =>
    rw [List.foldl_cons, ih fun n hn ↦ hpos n (List.mem_cons_of_mem _ hn), List.map_cons,
      List.map_cons, mulAll_cons]
    congr 1
    have hnamed := hpos named List.mem_cons_self
    by_cases hone : named.2 = 1
    · rw [if_pos (.inl hone), hone, inv_one, mul_one, truncate_intCast]
    · rw [if_neg (not_or.mpr ⟨hone, not_le.mpr hnamed⟩)]
      rfl

theorem foldl_multiply (hexact : floats.nearest = id) (rows : List (String × ℚ)) (x : ℚ) :
    rows.foldl (fun result ratio ↦ if ratio.2 = 1 then result
      else floats.nearest (result * ratio.2)) x = x * (rows.map Prod.snd).prod := by
  rw [hexact]
  induction rows generalizing x with
  | nil => simp
  | cons named rows ih =>
    rw [List.foldl_cons, ih, List.map_cons, List.prod_cons, ← mul_assoc]
    by_cases hone : named.2 = 1
    · rw [if_pos hone, hone, mul_one]
    · rw [if_neg hone]
      rfl

theorem recalc_eq (hexact : floats.nearest = id) (order : MapOrder (String × ℚ)) {p : PriceData}
    (hpos : ∀ named ∈ p.otherRatios.rows, 0 < named.2) (ratios : Ratios) :
    recalcQuotaFromRatios floats order p ratios =
      truncate (mulAll p.quota (((order.visit p.otherRatios.rows).map Prod.snd).map (·⁻¹)) *
        (ratios.rows.map Prod.snd).prod) := by
  have hvisit : ∀ named ∈ order.visit p.otherRatios.rows, 0 < named.2 := by
    intro named hnamed
    exact hpos named (order.mem_visit.mp hnamed)
  unfold recalcQuotaFromRatios
  dsimp only
  rw [foldl_divide hexact hvisit, foldl_multiply hexact,
    ((order.perm ratios.rows).map Prod.snd).prod_eq]
  rw [hexact]
  rfl

end Loops

section Submissions

/-- Every adaptor estimates these ratios. -/
def offering (env : Env) (ratios : Ratios) : Env :=
  { env with getTaskAdaptor := fun platform ↦
      (env.getTaskAdaptor platform).map fun a ↦ { a with estimateBilling := fun _ _ ↦ ratios } }

def withRatios (p : Prepared) (ratios : Ratios) : Prepared :=
  { p with adaptor := { p.adaptor with estimateBilling := fun _ _ ↦ ratios } }

variable (env : Env) (ctx : Context) (info : RelayInfo)

def submission (order : MapOrder (String × ℚ)) (ratios : Ratios) : Submission :=
  relayTaskSubmit (offering env ratios) order ctx info

/-- The loops over the ratios may take any order, and an adjustment to other ratios of the family
charges what a submission with them would have charged. -/
structure Agrees (maps : Set Ratios) : Prop where
  order_free : ∀ ratios ∈ maps, ∀ order order' : MapOrder (String × ℚ),
    (submission env ctx info order ratios).preConsumed =
      (submission env ctx info order' ratios).preConsumed
  same : ∀ ratios ∈ maps, ∀ order order' : MapOrder (String × ℚ),
    recalcQuotaFromRatios env.settings.floats order'
        (submission env ctx info order ratios).priceData ratios =
      (submission env ctx info order ratios).priceData.quota
  changed : ∀ ratios ∈ maps, ∀ adjusted ∈ maps, ∀ order order' order'' : MapOrder (String × ℚ),
    recalcQuotaFromRatios env.settings.floats order'
        (submission env ctx info order ratios).priceData adjusted =
      (submission env ctx info order'' adjusted).priceData.quota

variable {env ctx info} {p : Prepared}

theorem prepare_offering (hprep : prepare env ctx info = .ok p) (ratios : Ratios) :
    prepare (offering env ratios) ctx info = .ok (withRatios p ratios) := by
  have hprice : priceModel (offering env ratios) = priceModel env := rfl
  simp only [prepare] at hprep ⊢
  have hadaptor (platform : String) : (offering env ratios).getTaskAdaptor platform =
      (env.getTaskAdaptor platform).map fun a ↦ { a with estimateBilling := fun _ _ ↦ ratios } :=
    rfl
  rw [hadaptor, hprice]
  split at hprep
  · cases hprep
  · rename_i hplatform
    rw [hplatform]
    dsimp only [Option.map_some]
    split at hprep
    · cases hprep
    · split at hprep
      · cases hprep
      · cases hprep
        rfl

/-- The ratios that the price data of a submission ends with. -/
def submittedRows (p : Prepared) (ratios : Ratios) : List (String × ℚ) :=
  (addOtherRatios p.info.priceData ratios.rows).otherRatios.rows

theorem submittedRows_perm (hprep : prepare env ctx info = .ok p) {ratios : Ratios}
    (hpos : ∀ named ∈ ratios.rows, 0 < named.2) :
    (submittedRows p ratios).Perm ratios.rows := by
  have hrows := estimate_rows (offering env ratios) MapOrder.asListed
    (prepare_ratios _ (prepare_offering hprep ratios))
  have hfilter : ratios.rows.filter (0 < ·.2) = ratios.rows :=
    List.filter_eq_self.mpr fun named hnamed ↦ by simpa using hpos named hnamed
  rw [← hfilter]
  exact hrows

theorem submission_rows (hprep : prepare env ctx info = .ok p) (order : MapOrder (String × ℚ))
    (ratios : Ratios) : (submission env ctx info order ratios).priceData.otherRatios.rows =
      submittedRows p ratios := by
  rw [submission, submit_priceData _ order (prepare_offering hprep ratios)]
  rfl

theorem submission_quota (hexact : env.settings.floats.nearest = id)
    (hprep : prepare env ctx info = .ok p)
    (hpatch : p.info.originModelName ∉ env.settings.taskPricePatches)
    (order : MapOrder (String × ℚ)) (ratios : Ratios) :
    (submission env ctx info order ratios).priceData.quota =
      mulAll p.info.priceData.quota ((order.visit (submittedRows p ratios)).map Prod.snd) := by
  rw [submission, submit_priceData _ order (prepare_offering hprep ratios), estimate_quota]
  exact (if_neg hpatch).trans (applyOtherRatios_eq hexact _ _)

theorem preConsumed_eq (hprep : prepare env ctx info = .ok p) (order : MapOrder (String × ℚ)) :
    (relayTaskSubmit env order ctx info).preConsumed =
      if p.info.billing ∨ (addOtherRatios p.info.priceData p.estimated.rows).freeModel then none
      else some (estimate env order p).priceData.quota := by
  simp only [relayTaskSubmit, hprep]
  have hfree : (estimate env order p).priceData.freeModel =
      (addOtherRatios p.info.priceData p.estimated.rows).freeModel := rfl
  have hbilling : (estimate env order p).billing = p.info.billing := rfl
  rw [hfree, hbilling]
  split_ifs
  · rfl
  · split <;> rfl

/-- The base quota and the ratios make an integer, whichever of the ratios are left out. -/
def WholeBase (p : Prepared) (ratios : Ratios) : Prop :=
  Whole p.info.priceData.quota (ratios.rows.map Prod.snd)

theorem submittedRows_pos (hprep : prepare env ctx info = .ok p) {ratios : Ratios}
    (hpos : ∀ named ∈ ratios.rows, 0 < named.2) : ∀ named ∈ submittedRows p ratios, 0 < named.2 :=
  fun named hnamed ↦ hpos named ((submittedRows_perm hprep hpos).mem_iff.mp hnamed)

theorem visited_perm (hprep : prepare env ctx info = .ok p) {ratios : Ratios}
    (hpos : ∀ named ∈ ratios.rows, 0 < named.2) (order : MapOrder (String × ℚ)) :
    ((order.visit (submittedRows p ratios)).map Prod.snd).Perm (ratios.rows.map Prod.snd) :=
  ((order.perm _).trans (submittedRows_perm hprep hpos)).map Prod.snd

theorem recalc_submission (hexact : env.settings.floats.nearest = id)
    (hprep : prepare env ctx info = .ok p) {ratios : Ratios}
    (hpos : ∀ named ∈ ratios.rows, 0 < named.2) (order order' : MapOrder (String × ℚ))
    (adjusted : Ratios) :
    recalcQuotaFromRatios env.settings.floats order'
        (submission env ctx info order ratios).priceData adjusted =
      truncate (mulAll (submission env ctx info order ratios).priceData.quota
        (((order'.visit (submittedRows p ratios)).map Prod.snd).map (·⁻¹)) *
          (adjusted.rows.map Prod.snd).prod) := by
  have hrows := submission_rows hprep order ratios
  rw [recalc_eq hexact order' (by rw [hrows]; exact submittedRows_pos hprep hpos), hrows]

section Whole

variable (hexact : env.settings.floats.nearest = id) (hprep : prepare env ctx info = .ok p)
  (hpatch : p.info.originModelName ∉ env.settings.taskPricePatches) {ratios adjusted : Ratios}
  (hpos : ∀ named ∈ ratios.rows, 0 < named.2) (hadjusted : ∀ named ∈ adjusted.rows, 0 < named.2)

include hexact hprep hpatch hpos

theorem quota_of_whole (hwhole : WholeBase p ratios) (order : MapOrder (String × ℚ)) :
    ((submission env ctx info order ratios).priceData.quota : ℚ) =
      p.info.priceData.quota * (ratios.rows.map Prod.snd).prod := by
  have hvisited := visited_perm hprep hpos order
  rw [submission_quota hexact hprep hpatch, mulAll_of_whole (hwhole.perm hvisited),
    hvisited.prod_eq]

/-- The recalculation comes back to the base quota and multiplies once. -/
theorem recalc_of_whole (hwhole : WholeBase p ratios) (order order' : MapOrder (String × ℚ))
    (adjusted : Ratios) :
    recalcQuotaFromRatios env.settings.floats order'
        (submission env ctx info order ratios).priceData adjusted =
      truncate (p.info.priceData.quota * (adjusted.rows.map Prod.snd).prod) := by
  have hvisited := visited_perm hprep hpos order'
  have hquota := quota_of_whole hexact hprep hpatch hpos hwhole order
  rw [← hvisited.prod_eq] at hquota
  have hback := divAll_of_whole (hwhole.perm hvisited) (fun r hr ↦ ?_) hquota
  · rw [recalc_submission hexact hprep hpos, hback]
  · obtain ⟨named, hnamed, rfl⟩ := List.mem_map.mp hr
    exact submittedRows_pos hprep hpos named (order'.mem_visit.mp hnamed)

include hadjusted

theorem changed_of_whole (hwhole : WholeBase p ratios) (hwhole' : WholeBase p adjusted)
    (order order' order'' : MapOrder (String × ℚ)) :
    recalcQuotaFromRatios env.settings.floats order'
        (submission env ctx info order ratios).priceData adjusted =
      (submission env ctx info order'' adjusted).priceData.quota := by
  rw [recalc_of_whole hexact hprep hpatch hpos hwhole,
    ← quota_of_whole hexact hprep hpatch hadjusted hwhole' order'', truncate_intCast]

end Whole

end Submissions

section Stable

variable {env : Env} {ctx : Context} {info : RelayInfo} {p : Prepared} {maps : Set Ratios}

theorem whole_of_agrees (hexact : env.settings.floats.nearest = id)
    (hprep : prepare env ctx info = .ok p)
    (hpatch : p.info.originModelName ∉ env.settings.taskPricePatches)
    (hpos : ∀ ratios ∈ maps, ∀ named ∈ ratios.rows, 0 < named.2) {unit : Ratios}
    (hunit : unit ∈ maps) (hones : ∀ named ∈ unit.rows, named.2 = 1)
    (hagrees : Agrees env ctx info maps) {ratios : Ratios} (hratios : ratios ∈ maps) :
    WholeBase p ratios := by
  intro l hl
  obtain ⟨first, hfirst, rfl⟩ := List.sublist_map_iff.mp hl
  obtain ⟨rest, hrest⟩ := hfirst.exists_perm_append
  have hrows := submittedRows_perm hprep (hpos ratios hratios)
  have hlisted : (first ++ rest).Perm (submittedRows p ratios) := hrest.symm.trans hrows.symm
  have hone (l : List (String × ℚ)) (hl : ∀ named ∈ l, named ∈ unit.rows) :
      ∀ r ∈ l.map Prod.snd, r = 1 := by
    intro r hr
    obtain ⟨named, hnamed, rfl⟩ := List.mem_map.mp hr
    exact hones named (hl named hnamed)
  have hunits := submittedRows_perm hprep (hpos unit hunit)
  have hback := hagrees.changed ratios hratios unit hunit (.listing hlisted) .asListed .asListed
  rw [recalc_submission hexact hprep (hpos ratios hratios), submission_quota hexact hprep hpatch,
    submission_quota hexact hprep hpatch, MapOrder.listing_visit,
    List.prod_eq_one (hone unit.rows fun _ h ↦ h), mul_one, truncate_intCast,
    mulAll_of_ones (hone _ fun named hnamed ↦
      hunits.mem_iff.mp (MapOrder.asListed.mem_visit.mp hnamed))] at hback
  have hds : ((MapOrder.asListed.visit (submittedRows p ratios)).map Prod.snd).Perm
      ((first ++ rest).map Prod.snd) := (hlisted.symm).map Prod.snd
  refine prefix_whole_of_restored ?_ hds hback ?_
  · intro r hr
    obtain ⟨named, hnamed, rfl⟩ := List.mem_map.mp hr
    exact hpos ratios hratios named (hrest.mem_iff.mpr hnamed)
  · rw [List.map_append]
    exact List.prefix_append _ _

/-- The quota does not depend on how the ratios are applied just where no step of it cuts off a
fraction. -/
theorem agrees_iff (hexact : env.settings.floats.nearest = id)
    (hprep : prepare env ctx info = .ok p)
    (hpatch : p.info.originModelName ∉ env.settings.taskPricePatches)
    (hpos : ∀ ratios ∈ maps, ∀ named ∈ ratios.rows, 0 < named.2)
    (hunit : ∃ unit ∈ maps, ∀ named ∈ unit.rows, named.2 = 1) :
    Agrees env ctx info maps ↔ ∀ ratios ∈ maps, WholeBase p ratios := by
  constructor
  · intro hagrees ratios hratios
    obtain ⟨unit, hunit, hones⟩ := hunit
    exact whole_of_agrees hexact hprep hpatch hpos hunit hones hagrees hratios
  · intro hwhole
    have hchanged : ∀ ratios ∈ maps, ∀ adjusted ∈ maps, ∀ order order' order'',
        recalcQuotaFromRatios env.settings.floats order'
            (submission env ctx info order ratios).priceData adjusted =
          (submission env ctx info order'' adjusted).priceData.quota :=
      fun ratios hratios adjusted hadjusted ↦ changed_of_whole hexact hprep hpatch
        (hpos ratios hratios) (hpos adjusted hadjusted) (hwhole ratios hratios)
        (hwhole adjusted hadjusted)
    refine ⟨fun ratios hratios order order' ↦ ?_, fun ratios hratios order order' ↦
      hchanged ratios hratios ratios hratios order order' order, hchanged⟩
    have hquota : (submission env ctx info order ratios).priceData.quota =
        (submission env ctx info order' ratios).priceData.quota := by
      have h := quota_of_whole hexact hprep hpatch (hpos ratios hratios) (hwhole ratios hratios)
      exact_mod_cast (h order).trans (h order').symm
    have hprep' := prepare_offering hprep ratios
    rw [submission, submission, submit_priceData _ order hprep',
      submit_priceData _ order' hprep'] at hquota
    rw [submission, submission, preConsumed_eq hprep' order, preConsumed_eq hprep' order', hquota]

end Stable

section Sora

/-- A video of four seconds in the larger size. -/
def largeVideo : Ratios where
  rows := [("seconds", 4), ("size", 1.666667)]
  nodup := by decide

def lastFirst : MapOrder (String × ℚ) := ⟨List.reverse, List.reverse_perm⟩

theorem prepared_sora : prepare (soraEnv 1) remixContext (resolvedRemix 1) = .ok (preparedRemix 1) :=
  rfl

theorem agrees_seconds :
    Agrees (soraEnv 1) remixContext (resolvedRemix 1) {.empty, .single ("seconds", 4)} := by
  refine (agrees_iff rfl prepared_sora (by decide) ?_ ⟨.empty, .inl rfl, ?_⟩).mpr ?_
  · rintro ratios (rfl | rfl) named hnamed
    · cases hnamed
    · rw [List.mem_singleton.mp hnamed]
      norm_num
  · exact fun named hnamed ↦ absurd hnamed List.not_mem_nil
  · have hbase : (preparedRemix 1).info.priceData.quota = 500000 := by decide +kernel
    rintro ratios (rfl | rfl) l hl
    · rw [List.sublist_nil.mp hl]
      exact ⟨500000, by rw [hbase, List.prod_nil, mul_one]⟩
    · rcases List.sublist_singleton.mp hl with rfl | rfl
      · exact ⟨500000, by rw [hbase, List.prod_nil, mul_one]⟩
      · exact ⟨2000000, by rw [hbase]; norm_num⟩

/-- The larger size after the seconds costs two more than before them. -/
theorem agrees_not : ¬ ∀ (env : Env) (ctx : Context) (info : RelayInfo) (p : Prepared)
    (maps : Set Ratios), env.settings.floats.nearest = id → prepare env ctx info = .ok p →
      p.info.originModelName ∉ env.settings.taskPricePatches →
      (∀ ratios ∈ maps, ∀ named ∈ ratios.rows, 0 < named.2) → Agrees env ctx info maps := by
  intro hall
  have hpos : ∀ named ∈ largeVideo.rows, 0 < named.2 := by
    intro named hnamed
    rcases List.mem_pair.mp hnamed with rfl | rfl <;> norm_num
  have hagrees := hall (soraEnv 1) remixContext (resolvedRemix 1) (preparedRemix 1) {largeVideo} rfl
    prepared_sora (by decide) (fun ratios hratios ↦ by rw [hratios]; exact hpos)
  have horder := hagrees.order_free largeVideo rfl .asListed lastFirst
  have hlisted : (submission (soraEnv 1) remixContext (resolvedRemix 1) .asListed
      largeVideo).preConsumed = some 3333332 := by decide +kernel
  have hreversed : (submission (soraEnv 1) remixContext (resolvedRemix 1) lastFirst
      largeVideo).preConsumed = some 3333334 := by decide +kernel
  rw [hlisted, hreversed] at horder
  cases horder

end Sora

end AllAiTools.NewApi.Relay.AdjustedQuota
