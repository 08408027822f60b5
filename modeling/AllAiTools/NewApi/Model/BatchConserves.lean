import AllAiTools.Foundation.Run
import AllAiTools.NewApi.Model.BatchUpdate

namespace AllAiTools.NewApi.Model.BatchConserves

open Foundation BatchUpdate

section Column

/-- The stored value of an id; zero where there is no row. -/
def column (db : Database) : BatchUpdateType → ℤ → ℤ
  | .userQuota, id => ((db.users.find id).map (·.quota)).getD 0
  | .tokenQuota, id => ((db.tokens.find id).map (·.remainQuota)).getD 0
  | .usedQuota, id => ((db.users.find id).map (·.usedQuota)).getD 0
  | .channelUsedQuota, id => ((db.channels.find id).map (·.usedQuota)).getD 0
  | .requestCount, id => ((db.users.find id).map (·.requestCount)).getD 0

/-- What a write brings to an id. -/
def brings : Write → BatchUpdateType → ℤ → ℤ
  | .token key value, .tokenQuota, id => if key = id then value else 0
  | .channel key value, .channelUsedQuota, id => if key = id then value else 0
  | .user key value _ _, .userQuota, id => if key = id then value else 0
  | .user key _ value _, .usedQuota, id => if key = id then value else 0
  | .user key _ _ value, .requestCount, id => if key = id then value else 0
  | _, _, _ => 0

/-- The row that a write is for. -/
def found (db : Database) : Write → Bool
  | .token id _ => (db.tokens.find id).isSome
  | .channel id _ => (db.channels.find id).isSome
  | .user id _ _ _ => (db.users.find id).isSome

/-- A write with nothing to add. -/
def empty : Write → Prop
  | .token _ value => value = 0
  | .channel _ value => value = 0
  | .user _ quota usedQuota requestCount => quota = 0 ∧ usedQuota = 0 ∧ requestCount = 0

theorem empty_iff (w : Write) : empty w ↔ ∀ type id, brings w type id = 0 := by
  constructor
  · intro h type id
    cases w with
    | token key value => cases type <;> simp [brings, show value = 0 from h]
    | channel key value => cases type <;> simp [brings, show value = 0 from h]
    | user key quota usedQuota requestCount =>
      obtain ⟨h₁, h₂, h₃⟩ := h
      cases type <;> simp [brings, h₁, h₂, h₃]
  · intro h
    cases w with
    | token key value =>
      have hv := h .tokenQuota key
      simp only [brings, if_true] at hv
      exact hv
    | channel key value =>
      have hv := h .channelUsedQuota key
      simp only [brings, if_true] at hv
      exact hv
    | user key quota usedQuota requestCount =>
      have h₁ := h .userQuota key
      have h₂ := h .usedQuota key
      have h₃ := h .requestCount key
      simp only [brings, if_true] at h₁ h₂ h₃
      exact ⟨h₁, h₂, h₃⟩

variable {db : Database} {key id : ℤ}

theorem column_token {token : TokenRow} (hf : db.tokens.find key = some token) (value : ℤ)
    (type : BatchUpdateType) (id : ℤ) : column (increaseTokenQuota db key value) type id =
      column db type id + brings (.token key value) type id := by
  have hkey : token.id = key := Table.find_key hf
  unfold increaseTokenQuota
  rw [hf]
  cases type with
  | tokenQuota =>
    by_cases hid : key = id
    · subst hid
      simp [column, brings, hkey, hf]
    · simp [column, brings, Table.find_save, hkey, hid]
  | _ => simp [column, brings]

theorem column_channel {channel : ChannelRow} (hf : db.channels.find key = some channel)
    (value : ℤ) (type : BatchUpdateType) (id : ℤ) :
    column (updateChannelUsedQuota db key value) type id =
      column db type id + brings (.channel key value) type id := by
  have hkey : channel.id = key := Table.find_key hf
  unfold updateChannelUsedQuota
  rw [hf]
  cases type with
  | channelUsedQuota =>
    by_cases hid : key = id
    · subst hid
      simp [column, brings, hkey, hf]
    · simp [column, brings, Table.find_save, hkey, hid]
  | _ => simp [column, brings]

theorem column_user {user : UserRow} (hf : db.users.find key = some user)
    (quota usedQuota requestCount : ℤ) (type : BatchUpdateType) (id : ℤ) :
    column (updateUserQuotaUsedQuotaAndRequestCount db key quota usedQuota requestCount) type id =
      column db type id + brings (.user key quota usedQuota requestCount) type id := by
  have hkey : user.id = key := Table.find_key hf
  unfold updateUserQuotaUsedQuotaAndRequestCount
  by_cases hz : quota = 0 ∧ usedQuota = 0 ∧ requestCount = 0
  · rw [if_pos hz, (empty_iff (.user key quota usedQuota requestCount)).mp hz, add_zero]
  · rw [if_neg hz, hf]
    by_cases hid : key = id
    · subst hid
      cases type <;> simp [column, brings, hkey, hf]
    · cases type <;> simp [column, brings, Table.find_save, hkey, hid]

/-- A write that succeeds brings each id of its row what it is for, and nothing where the
row is missing. -/
theorem column_run (db : Database) (w : Write) (type : BatchUpdateType) (id : ℤ) :
    column (w.run db) type id = column db type id + if found db w then brings w type id else 0 := by
  cases w with
  | token key value =>
    rw [Write.run, found]
    rcases hf : db.tokens.find key with _ | token
    · simp [increaseTokenQuota, hf]
    · simp [column_token hf]
  | channel key value =>
    rw [Write.run, found]
    rcases hf : db.channels.find key with _ | channel
    · simp [updateChannelUsedQuota, hf]
    · simp [column_channel hf]
  | user key quota usedQuota requestCount =>
    rw [Write.run, found]
    rcases hf : db.users.find key with _ | user
    · simp [updateUserQuotaUsedQuotaAndRequestCount, hf]
    · simp [column_user hf]

end Column

section Stores

theorem valueOf_add (stores : BatchUpdateType → Pending) (type : BatchUpdateType) (id value : ℤ)
    (type' : BatchUpdateType) (id' : ℤ) :
    valueOf (addNewRecord stores type id value type') id' =
      valueOf (stores type') id' + if type = type' ∧ id = id' then value else 0 := by
  have hother : ∀ store, type' ≠ type → Function.update stores type store type' = stores type' :=
    fun store hne ↦ Function.update_of_ne hne _ _
  unfold addNewRecord
  by_cases ht : type = type'
  · subst ht
    cases hf : (stores type).find id with
    | none =>
      obtain ⟨store, hs⟩ : ∃ store, (stores type).insert (id, value) = some store :=
        Table.insert_of_find_none hf
      dsimp only
      rw [hs, Option.getD_some, Function.update_self, valueOf, Table.find_insert hs, valueOf]
      by_cases hid : id = id'
      · subst hid
        simp [hf]
      · simp [hid]
    | some pair =>
      obtain ⟨key, old⟩ := pair
      have hkey : key = id := Table.find_key hf
      dsimp only
      rw [Function.update_self, valueOf, Table.find_save, valueOf]
      by_cases hid : id = id'
      · subst hid
        simp [hf]
      · simp [hid]
  · have hne : ¬ (type = type' ∧ id = id') := fun h ↦ ht h.1
    rw [if_neg hne, add_zero]
    cases (stores type).find id with
    | none => exact congrArg (valueOf · id') (hother _ fun h ↦ ht h.symm)
    | some pair => exact congrArg (valueOf · id') (hother _ fun h ↦ ht h.symm)

theorem valueOf_missing {store : Pending} {id : ℤ} (h : id ∉ keys store) : valueOf store id = 0 := by
  rw [valueOf, Table.find_eq_none.mpr h]
  rfl

theorem sum_visit (order : MapOrder ℤ) {ids : List ℤ} (hnodup : ids.Nodup) (value : ℤ → ℤ) (id : ℤ)
    (hmissing : id ∉ ids → value id = 0) :
    ((order.visit ids).map fun key ↦ if key = id then value key else 0).sum = value id := by
  have hsum : ∀ l : List ℤ, l.Nodup → (l.map fun key ↦ if key = id then value key else 0).sum =
      if id ∈ l then value id else 0 := by
    intro l hl
    induction l with
    | nil => rfl
    | cons key l ih =>
      obtain ⟨hkey, hrest⟩ := List.nodup_cons.mp hl
      rw [List.map_cons, List.sum_cons, ih hrest]
      by_cases hid : key = id
      · subst hid
        simp [hkey]
      · have hne : id ≠ key := fun h ↦ hid h.symm
        simp [hid, hne]
  rw [hsum _ (order.nodup_visit hnodup)]
  by_cases hid : id ∈ ids
  · rw [if_pos (order.mem_visit.mpr hid)]
  · rw [if_neg (fun hin ↦ hid (order.mem_visit.mp hin)), hmissing hid]

/-- What writes bring to an id. -/
def bringAll (writes : List Write) (type : BatchUpdateType) (id : ℤ) : ℤ :=
  (writes.map fun w ↦ brings w type id).sum

/-- The writes of the plan bring each id what was pending for it. -/
theorem bringAll_plan (order : MapOrder ℤ) (stores : BatchUpdateType → Pending)
    (type : BatchUpdateType) (id : ℤ) :
    bringAll (plan order stores) type id = valueOf (stores type) id := by
  have hnodup : ∀ store : Pending, (keys store).Nodup := fun store ↦ store.nodup
  have hone : ∀ type, ((order.visit (keys (stores type))).map fun key ↦
      if key = id then valueOf (stores type) key else 0).sum = valueOf (stores type) id :=
    fun type ↦ sum_visit order (hnodup _) _ id valueOf_missing
  have hunion : ∀ store : Pending, (∀ key ∈ keys store, key ∈ keys (stores .userQuota) ++
      keys (stores .usedQuota) ++ keys (stores .requestCount)) →
      ((order.visit (keys (stores .userQuota) ++ keys (stores .usedQuota) ++
        keys (stores .requestCount)).dedup).map fun key ↦
          if key = id then valueOf store key else 0).sum = valueOf store id := by
    intro store hsub
    refine sum_visit order (List.nodup_dedup _) _ id fun hnot ↦ valueOf_missing fun hin ↦ ?_
    exact hnot (List.mem_dedup.mpr (hsub id hin))
  have hzero : ∀ ids : List ℤ, (ids.map fun _ ↦ (0 : ℤ)).sum = 0 := by
    intro ids
    simp
  unfold bringAll plan
  rw [List.map_append, List.map_append, List.map_map, List.map_map, List.map_map, List.sum_append,
    List.sum_append]
  cases type with
  | userQuota =>
    have h := hunion (stores .userQuota) fun key hk ↦ by simp [hk]
    simp only [Function.comp_def, brings, hzero]
    omega
  | tokenQuota =>
    have h := hone .tokenQuota
    simp only [Function.comp_def, brings, hzero]
    omega
  | usedQuota =>
    have h := hunion (stores .usedQuota) fun key hk ↦ by simp [hk]
    simp only [Function.comp_def, brings, hzero]
    omega
  | channelUsedQuota =>
    have h := hone .channelUsedQuota
    simp only [Function.comp_def, brings, hzero]
    omega
  | requestCount =>
    have h := hunion (stores .requestCount) fun key hk ↦ by simp [hk]
    simp only [Function.comp_def, brings, hzero]
    omega

end Stores

section Conserve

/-- What is pending for an id: in the stores, and with the flusher. -/
def pending (s : State) (type : BatchUpdateType) (id : ℤ) : ℤ :=
  valueOf (s.batchUpdateStores type) id +
    match s.flusher with
    | .swapping stores _ => valueOf (stores type) id
    | .writing writes => bringAll writes type id
    | _ => 0

/-- What an event adds to an id. -/
def adds : Event → BatchUpdateType → ℤ → ℤ
  | .add type id value, type', id' => if type = type' ∧ id = id' then value else 0
  | .tick _, _, _ => 0

/-- What is lost at an event: the values of a write that fails or finds no row. -/
def loses (s : State) : Event → BatchUpdateType → ℤ → ℤ
  | .add _ _ _, _, _ => 0
  | .tick succeeds, type, id =>
    match s.flusher with
    | .writing (write :: _) => if succeeds ∧ found s.db write then 0 else brings write type id
    | _ => 0

/-- Types whose store has yet to be swapped have nothing with the flusher. -/
def Unswapped (s : State) : Prop :=
  match s.flusher with
  | .swapping stores types => types.Nodup ∧ ∀ type ∈ types, stores type = .empty
  | _ => True

variable {order : MapOrder ℤ} {s : State}

theorem step_unswapped (h : Unswapped s) (e : Event) : Unswapped (step order s e) := by
  cases e with
  | add type id value => exact h
  | tick succeeds =>
    obtain ⟨stores, flusher, db⟩ := s
    cases flusher with
    | idle => trivial
    | checking types =>
      cases types with
      | nil => trivial
      | cons type types =>
        unfold step flush Unswapped
        dsimp only
        split_ifs
        · exact ⟨by decide, fun _ _ ↦ rfl⟩
        · trivial
    | swapping taken types =>
      cases types with
      | nil => trivial
      | cons type types =>
        obtain ⟨hnodup, hempty⟩ := h
        obtain ⟨hnot, hrest⟩ := List.nodup_cons.mp hnodup
        refine ⟨hrest, fun type' hm ↦ ?_⟩
        have hne : type' ≠ type := by
          rintro rfl
          exact hnot hm
        rw [Function.update_of_ne hne]
        exact hempty type' (List.mem_cons_of_mem type hm)
    | writing writes =>
      cases writes with
      | nil => trivial
      | cons write writes => trivial

/-- Each event keeps the sum of what is stored and what is pending, but for what it adds and
what is lost at it. -/
theorem total_step (h : Unswapped s) (e : Event) (type : BatchUpdateType) (id : ℤ) :
    column (step order s e).db type id + pending (step order s e) type id + loses s e type id =
      column s.db type id + pending s type id + adds e type id := by
  cases e with
  | add type' id' value =>
    have hvalue := valueOf_add s.batchUpdateStores type' id' value type id
    unfold pending loses adds
    dsimp only [step]
    rw [hvalue]
    ring
  | tick succeeds =>
    obtain ⟨stores, flusher, db⟩ := s
    have hempty : ∀ id, valueOf .empty id = 0 := fun _ ↦ rfl
    cases flusher with
    | idle => simp [step, flush, pending, loses, adds]
    | checking types =>
      cases types with
      | nil => simp [step, flush, pending, loses, adds]
      | cons type' types =>
        by_cases hrows : (stores type').rows ≠ []
        · simp [step, flush, pending, loses, adds, hrows, hempty]
        · simp [step, flush, pending, loses, adds, hrows]
    | swapping taken types =>
      cases types with
      | nil => simp [step, flush, pending, loses, adds, bringAll_plan]
      | cons type' types =>
        have htaken : taken type' = .empty := h.2 type' List.mem_cons_self
        by_cases ht : type = type'
        · subst ht
          simp [step, flush, pending, loses, adds, hempty, htaken]
        · simp [step, flush, pending, loses, adds, ht]
    | writing writes =>
      cases writes with
      | nil => simp [step, flush, pending, loses, adds, bringAll]
      | cons write writes =>
        have hrun := column_run db write type id
        cases succeeds with
        | false =>
          simp [step, flush, pending, loses, adds, bringAll]
          ring
        | true =>
          simp only [step, flush, pending, loses, adds, bringAll, if_true, List.map_cons,
            List.sum_cons, hrun, true_and]
          split_ifs <;> ring

end Conserve

section Runs

/-- A write that is made at an event succeeds and finds its row, or has nothing to add. -/
def Written (s : State) (e : Event) : Prop :=
  ∀ succeeds write writes, e = .tick succeeds → s.flusher = .writing (write :: writes) →
    (succeeds = true ∧ found s.db write = true) ∨ empty write

def added (events : List Event) (type : BatchUpdateType) (id : ℤ) : ℤ :=
  (events.map fun e ↦ adds e type id).sum

/-- With empty stores and no run of the flusher under way. -/
def start (db : Database) : State := ⟨fun _ ↦ .empty, .idle, db⟩

/-- At every point of a run, what is stored and what is pending make up the value at the start
and all that was added. -/
def Conserved (order : MapOrder ℤ) (db : Database) (events : List Event) : Prop :=
  ∀ first rest, events = first ++ rest → ∀ type id,
    column (Run.run (step order) (start db) first).db type id +
        pending (Run.run (step order) (start db) first) type id =
      column db type id + added first type id

theorem written_iff (s : State) (e : Event) : Written s e ↔ ∀ type id, loses s e type id = 0 := by
  obtain ⟨stores, flusher, db⟩ := s
  unfold Written loses
  cases e with
  | add type id value => exact iff_of_true (fun _ _ _ he ↦ nomatch he) fun _ _ ↦ rfl
  | tick succeeds =>
    cases flusher with
    | idle => exact iff_of_true (fun _ _ _ _ hw ↦ nomatch hw) fun _ _ ↦ rfl
    | checking types => exact iff_of_true (fun _ _ _ _ hw ↦ nomatch hw) fun _ _ ↦ rfl
    | swapping taken types => exact iff_of_true (fun _ _ _ _ hw ↦ nomatch hw) fun _ _ ↦ rfl
    | writing writes =>
      cases writes with
      | nil => exact iff_of_true (fun _ _ _ _ hw ↦ nomatch hw) fun _ _ ↦ rfl
      | cons write writes =>
        dsimp only
        by_cases hrow : succeeds = true ∧ found db write = true
        · simp only [if_pos hrow]
          refine iff_of_true (fun succeeds' write' writes' he hw ↦ ?_) fun _ _ ↦ trivial
          cases he
          cases hw
          exact .inl hrow
        · simp only [if_neg hrow]
          rw [← empty_iff]
          constructor
          · intro h
            exact (h succeeds write writes rfl rfl).resolve_left hrow
          · intro hempty succeeds' write' writes' he hw
            cases he
            cases hw
            exact .inr hempty

variable {order : MapOrder ℤ}

theorem run_unswapped {s : State} (h : Unswapped s) (events : List Event) :
    Unswapped (Run.run (step order) s events) := by
  induction events generalizing s with
  | nil => exact h
  | cons e events ih => exact ih (step_unswapped h e)

theorem run_conserved {s : State} (hs : Unswapped s) {events : List Event}
    (h : Run.Along (step order) Written s events) (type : BatchUpdateType) (id : ℤ) :
    column (Run.run (step order) s events).db type id +
        pending (Run.run (step order) s events) type id =
      column s.db type id + pending s type id + added events type id := by
  induction events generalizing s with
  | nil => simp [added]
  | cons e events ih =>
    obtain ⟨hwritten, hrest⟩ := h
    have hstep := @total_step order _ hs e type id
    have hlost := (written_iff s e).mp hwritten type id
    have hrun := ih (step_unswapped hs e) hrest
    have hadded : added (e :: events) type id = adds e type id + added events type id := rfl
    rw [Run.run_cons, hrun, hadded]
    omega

/-- Values are conserved at every point of a run exactly where each write of the flusher
succeeds and finds its row, or has nothing to add. -/
theorem batch_conserved_iff (order : MapOrder ℤ) (db : Database) (events : List Event) :
    Conserved order db events ↔ Run.Along (step order) Written (start db) events := by
  have hstart : Unswapped (start db) := trivial
  constructor
  · intro hall
    rw [Run.along_iff]
    intro first e rest he
    rw [written_iff]
    intro type id
    have hbefore := hall first (e :: rest) he type id
    have hafter := hall (first ++ [e]) rest (by rw [he, List.append_assoc, List.singleton_append])
      type id
    have hstep := @total_step order _ (@run_unswapped order _ hstart first) e type id
    have hadded : added (first ++ [e]) type id = added first type id + adds e type id := by
      simp [added]
    rw [Run.run_append, Run.run_cons, Run.run_nil, hadded] at hafter
    omega
  · rintro halong first rest rfl type id
    have hfirst := ((Run.along_append (start db) first rest).mp halong).1
    have hrun := run_conserved hstart hfirst type id
    have hpending : pending (start db) type id = 0 := rfl
    rw [hrun, hpending, add_zero]
    rfl

def oneUser : Database where
  users := .single { id := 1, quota := 100, usedQuota := 0, requestCount := 0 }
  tokens := .empty
  channels := .empty

/-- A write that fails loses what it was to bring. -/
theorem failed_write_loses :
    ¬ ∀ (order : MapOrder ℤ) (db : Database) (events : List Event), Conserved order db events := by
  intro hclaim
  have hend := hclaim .asListed oneUser
    (.add .userQuota 1 5 :: List.replicate 8 (.tick true) ++ [.tick false]) _ []
    (List.append_nil _).symm .userQuota 1
  exact absurd hend (by decide)

end Runs

end AllAiTools.NewApi.Model.BatchConserves
