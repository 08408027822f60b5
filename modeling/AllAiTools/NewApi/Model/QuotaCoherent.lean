import AllAiTools.Foundation.Run
import AllAiTools.NewApi.Model.UserCache

namespace AllAiTools.NewApi.Model.QuotaCoherent

open Foundation Run UserQuota UserCache

section Quotas

theorem find_addQuota (users : Table User.id) (id quota : ℤ) (others : User → User) (i : ℤ) :
    (addQuota users id quota others).find i = if i = id then
      (users.find i).map fun user ↦ { others user with id := user.id, quota := user.quota + quota }
      else users.find i := by
  unfold addQuota
  cases hf : users.find id with
  | none =>
    by_cases hi : i = id
    · simp [hi, hf]
    · rw [if_neg hi]
  | some user =>
    have hkey : user.id = id := Table.find_key hf
    by_cases hi : i = id
    · subst hi
      simp [hkey, hf]
    · rw [if_neg hi]
      exact Table.find_save_of_ne _ (by rw [hkey]; exact Ne.symm hi)

/-- What reaches the row of user `i` of an amount added for user `id`. -/
def received (db : Store) (id amount i : ℤ) : ℤ :=
  if i = id ∧ (db.users.find i).isSome then amount else 0

theorem quota_addQuota (db : Store) (id quota : ℤ) (others : User → User) (i : ℤ) :
    (((addQuota db.users id quota others).find i).map (·.quota)).getD 0 =
      quotaOf db i + received db id quota i := by
  rw [find_addQuota]
  simp only [quotaOf, received]
  by_cases hi : i = id
  · rw [if_pos hi]
    cases db.users.find i <;> simp [hi]
  · simp [hi]

theorem quota_updateQuota (db : Store) (id delta i : ℤ) :
    quotaOf (updateQuota id delta db) i = quotaOf db i + received db id delta i :=
  quota_addQuota db id delta _ i

variable (settings : Settings) (db : Store)

/-- The user a completed top-up is credited to, and the amount. -/
def completed (c : Completion) (fails : Option String) (tradeNo : String) : Option (ℤ × ℤ) :=
  if tradeNo = "" ∨ fails.isSome then none
  else match checkTopUp c tradeNo db with
    | .ok (some topUp) => some (topUp.userId, c.quotaToAdd topUp)
    | _ => none

/-- The user a call credits, and the amount, where the call goes through. -/
def accepted : Credit → Option (ℤ × ℤ)
  | .redeem now fails key userId =>
    if fails.isSome then none
    else (checkRedemption now key userId db).toOption.map fun code ↦ (userId, code.quota)
  | .recharge _ fails tradeNo customerId =>
    completed db (stripeCompletion settings.quota customerId) fails tradeNo
  | .rechargeCreem _ fails tradeNo customerEmail =>
    completed db (creemCompletion customerEmail) fails tradeNo
  | .rechargeWaffo _ fails tradeNo =>
    completed db (waffoCompletion settings.quota paymentProviderWaffo) fails tradeNo
  | .rechargeWaffoPancake _ fails tradeNo =>
    completed db (waffoCompletion settings.quota paymentProviderWaffoPancake) fails tradeNo
  | .manualCompleteTopUp _ fails tradeNo =>
    completed db (manualCompletion settings.quota) fails tradeNo
  | .transferAffQuotaToQuota fails userId quota =>
    if fails.isSome then none
    else (checkTransfer settings.quota settings.logQuota userId quota db).toOption.map
      fun _ ↦ (userId, quota)

/-- What an accepted credit, if any, adds to the stored quota of user `i`. -/
def share (credit : Option (ℤ × ℤ)) (i : ℤ) : ℤ :=
  match credit with
  | none => 0
  | some (id, amount) => received db id amount i

theorem quota_complete (c : Completion) (now : ℤ) (fails : Option String) {tradeNo : String}
    (ht : tradeNo ≠ "") (i : ℤ) :
    quotaOf (complete c now fails tradeNo db).2 i =
      quotaOf db i + share db (completed db c fails tradeNo) i := by
  simp only [complete, completed, ht, false_or]
  cases fails with
  | some e => rcases checkTopUp c tradeNo db with e' | _ | topUp <;> simp [share]
  | none =>
    rcases checkTopUp c tradeNo db with e' | _ | topUp
    · simp [share]
    · simp [share]
    · exact quota_addQuota db topUp.userId (c.quotaToAdd topUp) c.others i

theorem rechargeWith_snd (now : ℤ) (fails : Option String) (c : Completion) {tradeNo : String}
    (ht : tradeNo ≠ "") :
    (rechargeWith now fails c tradeNo db).2 = (complete c now fails tradeNo db).2 := by
  rw [rechargeWith, if_neg ht]
  rcases h : complete c now fails tradeNo db with ⟨_ | _, db'⟩ <;> rfl

theorem quota_rechargeWith (now : ℤ) (fails : Option String) (c : Completion) (tradeNo : String)
    (i : ℤ) :
    quotaOf (rechargeWith now fails c tradeNo db).2 i =
      quotaOf db i + share db (completed db c fails tradeNo) i := by
  by_cases ht : tradeNo = ""
  · simp [rechargeWith, completed, ht, share]
  · rw [rechargeWith_snd db now fails c ht]
    exact quota_complete db c now fails ht i

theorem quota_redeem (now : ℤ) (fails : Option String) (key : String) (userId i : ℤ) :
    quotaOf (redeem now fails key userId db).2 i =
      quotaOf db i + share db (accepted settings db (.redeem now fails key userId)) i := by
  simp only [redeem, accepted]
  cases checkRedemption now key userId db with
  | error e => cases fails <;> simp [share, Except.toOption]
  | ok code =>
    cases fails with
    | some e => simp [share]
    | none => exact quota_addQuota db userId code.quota _ i

theorem checkTransfer_find {userId quota : ℤ} {user : User}
    (h : checkTransfer settings.quota settings.logQuota userId quota db = .ok user) :
    db.users.find userId = some user := by
  unfold checkTransfer at h
  split_ifs at h
  cases hf : db.users.find userId with
  | none => simp [hf] at h
  | some user' =>
    simp only [hf] at h
    split_ifs at h
    exact congrArg some (Except.ok.inj h)

theorem quota_transfer (fails : Option String) (userId quota i : ℤ) :
    quotaOf (transferAffQuotaToQuota settings.quota settings.logQuota fails userId quota db).2 i =
      quotaOf db i +
        share db (accepted settings db (.transferAffQuotaToQuota fails userId quota)) i := by
  simp only [transferAffQuotaToQuota, accepted]
  cases hc : checkTransfer settings.quota settings.logQuota userId quota db with
  | error e => cases fails <;> simp [share, Except.toOption]
  | ok user =>
    cases fails with
    | some e => simp [share]
    | none =>
      have hf := checkTransfer_find settings db hc
      have hkey : user.id = userId := Table.find_key hf
      simp only [quotaOf, share, received, Except.toOption, Option.map_some, Table.find_save, hkey]
      by_cases hi : i = userId
      · simp [hi, hf]
      · simp [hi, Ne.symm hi]

/-- What a call that credits a user does to the stored quotas. -/
theorem quota_credit (call : Credit) (i : ℤ) :
    quotaOf (call.apply settings db) i =
      quotaOf db i + share db (accepted settings db call) i := by
  cases call with
  | redeem now fails key userId => exact quota_redeem settings db now fails key userId i
  | recharge now fails tradeNo customerId => exact quota_rechargeWith db now fails _ tradeNo i
  | rechargeCreem now fails tradeNo email => exact quota_rechargeWith db now fails _ tradeNo i
  | rechargeWaffo now fails tradeNo => exact quota_rechargeWith db now fails _ tradeNo i
  | rechargeWaffoPancake now fails tradeNo => exact quota_rechargeWith db now fails _ tradeNo i
  | transferAffQuotaToQuota fails userId quota =>
    exact quota_transfer settings db fails userId quota i
  | manualCompleteTopUp now fails tradeNo =>
    by_cases ht : tradeNo = ""
    · simp [Credit.apply, accepted, completed, manualCompleteTopUp, ht, share]
    · simp only [Credit.apply, accepted, manualCompleteTopUp, if_neg ht]
      exact quota_complete db _ now fails ht i

end Quotas

section Ledger

/-- What a job will add to the cached quota of user `id`, less what it will add to the stored
one. -/
def owed (id : ℤ) : Job → ℤ
  | .update i delta => if i = id then -delta else 0
  | .field i (.incrBy delta) | .fieldNow i (.incrBy delta) _ => if i = id then delta else 0
  | _ => 0

def pending (s : State) (id : ℤ) : ℤ := (s.jobs.map (owed id)).sum

/-- A cached quota differs from the stored one by what the jobs in hand make up for. -/
def Balanced (s : State) (id : ℤ) : Prop :=
  ∀ c, s.cache id = some c → c.quota + pending s id = quotaOf s.db id

def Ledger (s : State) : Prop := ∀ id, Balanced s id

@[simp] theorem pending_spawn (s : State) (jobs : List Job) (id : ℤ) :
    pending (s.spawn jobs) id = pending s id + (jobs.map (owed id)).sum := by
  simp [pending, State.spawn]

theorem pending_erase {s : State} {i : ℕ} {job : Job} (h : s.jobs[i]? = some job) (id : ℤ) :
    pending (s.release i) id = pending s id - owed id job := by
  obtain ⟨hi, hjob⟩ := List.getElem?_eq_some_iff.mp h
  have hperm := (List.getElem_cons_eraseIdx_perm hi).map (owed id)
  have hsum := hperm.sum_eq
  rw [List.map_cons, List.sum_cons, hjob] at hsum
  simp only [pending, State.release]
  omega

theorem balanced_congr {s s' : State} {id : ℤ} (hc : s'.cache id = s.cache id)
    (hp : pending s' id = pending s id) (hq : quotaOf s'.db id = quotaOf s.db id) :
    Balanced s' id ↔ Balanced s id := by
  simp only [Balanced, hc, hp, hq]

theorem Balanced.congr {s s' : State} {id : ℤ} (h : Balanced s id) (hc : s'.cache id = s.cache id)
    (hp : pending s' id = pending s id) (hq : quotaOf s'.db id = quotaOf s.db id) :
    Balanced s' id :=
  (balanced_congr hc hp hq).mpr h

/-- A step that is about one user keeps the ledger if it keeps the entry of that user. -/
theorem ledger_iff_at {s s' : State} (id : ℤ) (hs : Ledger s)
    (hother : ∀ i, i ≠ id → (Balanced s' i ↔ Balanced s i)) : Ledger s' ↔ Balanced s' id := by
  constructor
  · intro h
    exact h id
  · intro h i
    by_cases hi : i = id
    · exact hi ▸ h
    · exact (hother i hi).mpr (hs i)

theorem balanced_of_none {s : State} {id : ℤ} (h : s.cache id = none) : Balanced s id := by
  intro c hc
  rw [h] at hc
  cases hc

theorem balanced_iff_of_some {s : State} {id : ℤ} {c : Cached} (h : s.cache id = some c) :
    Balanced s id ↔ c.quota + pending s id = quotaOf s.db id := by
  simp [Balanced, h]

end Ledger

section Steps

variable (settings : Settings)

/-- The condition on the `ok` or failing next step of a job in hand. An increment of a quota that
is cached reaches both the row and the hash, or neither counts; a value read earlier is written
while it is the stored quota less what increments in hand will still add. -/
def JobMirrored (s : State) (ok : Bool) : Job → Prop
  | .update id delta =>
    delta = 0 ∨ s.cache id = none ∨ ok ∧ (s.db.users.find id).isSome
  | .field id (.incrBy delta) =>
    delta = 0 ∨ s.cache id = none ∨ ok ∧ ∃ c, s.cache id = some c ∧ 0 < c.ttl
  | .field _ (.set _) => True
  | .fieldNow id (.incrBy delta) _ =>
    if ok then s.cache id = none → pending s id = quotaOf s.db id
    else delta = 0 ∨ s.cache id = none
  | .fieldNow id (.set value) _ | .object id value =>
    ok → value + pending s id = quotaOf s.db id

/-- The condition on a step: a credit leaves out the users that are cached. -/
def Mirrored (s : State) : Event → Prop
  | .credit call => ∀ id, s.cache id = none ∨ share s.db (accepted settings s.db call) id = 0
  | .proceed i ok => ∀ job, s.jobs[i]? = some job → JobMirrored s ok job
  | _ => True

theorem ledger_credit {s : State} (hs : Ledger s) (call : Credit) :
    Ledger (step settings s (.credit call)) ↔ Mirrored settings s (.credit call) := by
  refine forall_congr' fun id ↦ ?_
  cases hc : s.cache id with
  | none =>
    have hnone : (step settings s (.credit call)).cache id = none := hc
    exact iff_of_true (balanced_of_none hnone) (.inl rfl)
  | some c =>
    have hsome : (step settings s (.credit call)).cache id = some c := hc
    have hbefore := (balanced_iff_of_some hc).mp (hs id)
    rw [balanced_iff_of_some hsome]
    have hquota : quotaOf (step settings s (.credit call)).db id =
        quotaOf s.db id + share s.db (accepted settings s.db call) id :=
      quota_credit settings s.db call id
    have hpending : pending (step settings s (.credit call)) id = pending s id := rfl
    rw [hquota, hpending]
    simp only [reduceCtorEq, false_or]
    omega

def Job.user : Job → ℤ
  | .update id _ | .field id _ | .fieldNow id _ _ | .object id _ => id

theorem owed_other {job : Job} {i : ℤ} (h : i ≠ Job.user job) : owed i job = 0 := by
  cases job with
  | update id delta => exact if_neg (Ne.symm h)
  | field id write =>
    cases write with
    | incrBy delta => exact if_neg (Ne.symm h)
    | set value => rfl
  | fieldNow id write ttl =>
    cases write with
    | incrBy delta => exact if_neg (Ne.symm h)
    | set value => rfl
  | object id quota => rfl

/-- The next step of a job leaves the other users alone. -/
theorem perform_other (job : Job) (s : State) {i : ℤ} (h : i ≠ Job.user job) :
    Balanced (perform settings job s) i ↔ Balanced s i := by
  cases job with
  | update id delta =>
    refine balanced_congr rfl rfl ?_
    rw [perform, quota_updateQuota, received, if_neg fun hi ↦ h hi.1, add_zero]
  | field id write =>
    simp only [perform, checkTTL]
    cases s.cache id with
    | none => exact Iff.rfl
    | some c =>
      dsimp only
      split_ifs with httl
      · have howed : owed i (.fieldNow id write c.ttl) = 0 := owed_other h
        exact balanced_congr rfl (by simp [howed]) rfl
      · exact Iff.rfl
  | fieldNow id write ttl => exact balanced_congr (Function.update_of_ne h _ _) rfl rfl
  | object id quota => exact balanced_congr (Function.update_of_ne h _ _) rfl rfl

variable {s : State} {i : ℕ} {job : Job}

theorem release_other (hj : s.jobs[i]? = some job) {id : ℤ} (h : id ≠ Job.user job) :
    Balanced (s.release i) id ↔ Balanced s id :=
  balanced_congr rfl (by rw [pending_erase hj, owed_other h, sub_zero]) rfl

theorem jobMirrored_false :
    JobMirrored s false job ↔ owed (Job.user job) job = 0 ∨ s.cache (Job.user job) = none := by
  cases job with
  | update id delta => simp [JobMirrored, owed, Job.user]
  | field id write => cases write <;> simp [JobMirrored, owed, Job.user]
  | fieldNow id write ttl => cases write <;> simp [JobMirrored, owed, Job.user]
  | object id quota => simp [JobMirrored, owed]

/-- A job that is given up takes what it would have added with it. -/
theorem ledger_given_up (hs : Ledger s) (hj : s.jobs[i]? = some job) :
    Balanced (s.release i) (Job.user job) ↔ JobMirrored s false job := by
  rw [jobMirrored_false]
  cases hc : s.cache (Job.user job) with
  | none => exact iff_of_true (balanced_of_none hc) (.inr rfl)
  | some c =>
    have hbefore := (balanced_iff_of_some hc).mp (hs _)
    have hcache : (s.release i).cache (Job.user job) = some c := hc
    have hdb : (s.release i).db = s.db := rfl
    rw [balanced_iff_of_some hcache, pending_erase hj, hdb]
    simp only [reduceCtorEq, or_false]
    omega

theorem ledger_update {id delta : ℤ} (hs : Ledger s) (hj : s.jobs[i]? = some (.update id delta)) :
    Balanced (perform settings (.update id delta) (s.release i)) id ↔
      JobMirrored s true (.update id delta) := by
  cases hc : s.cache id with
  | none => exact iff_of_true (balanced_of_none hc) (.inr (.inl hc))
  | some c =>
    have hbefore := (balanced_iff_of_some hc).mp (hs id)
    have hcache : (perform settings (.update id delta) (s.release i)).cache id = some c := hc
    have howed : owed id (.update id delta) = -delta := if_pos rfl
    have hpending : pending (perform settings (.update id delta) (s.release i)) id =
        pending s id + delta := (pending_erase hj id).trans (by rw [howed, sub_neg_eq_add])
    have hquota : quotaOf (perform settings (.update id delta) (s.release i)).db id =
        quotaOf s.db id + received s.db id delta id := quota_updateQuota s.db id delta id
    rw [balanced_iff_of_some hcache, hpending, hquota]
    simp only [JobMirrored, hc, reduceCtorEq, false_or, true_and, received]
    by_cases hrow : (s.db.users.find id).isSome
    · simp only [hrow, if_true, or_true, iff_true]
      omega
    · simp only [hrow, Bool.false_eq_true, if_false, or_false]
      omega

/-- A write of a field whose hash has a time to live stays in hand, any other is over. -/
theorem pending_checkTTL {id : ℤ} {write : FieldWrite} (hj : s.jobs[i]? = some (.field id write)) :
    pending (checkTTL id write (s.release i)) id =
      if ∃ c, s.cache id = some c ∧ 0 < c.ttl then pending s id
      else pending s id - owed id (.field id write) := by
  have hcache : (s.release i).cache id = s.cache id := rfl
  have hsame (ttl : ℕ) : owed id (.fieldNow id write ttl) = owed id (.field id write) := by
    cases write <;> rfl
  cases hc : s.cache id with
  | none => simp [checkTTL, hcache, hc, pending_erase hj]
  | some c =>
    by_cases httl : 0 < c.ttl
    · simp [checkTTL, hcache, hc, httl, pending_erase hj, hsame]
    · simp [checkTTL, hcache, hc, httl, pending_erase hj]

theorem checkTTL_db (id : ℤ) (write : FieldWrite) (s : State) : (checkTTL id write s).db = s.db := by
  unfold checkTTL
  cases s.cache id with
  | none => rfl
  | some c => dsimp only; split_ifs <;> rfl

theorem checkTTL_cache (id : ℤ) (write : FieldWrite) (s : State) :
    (checkTTL id write s).cache = s.cache := by
  unfold checkTTL
  cases s.cache id with
  | none => rfl
  | some c => dsimp only; split_ifs <;> rfl

theorem ledger_field {id : ℤ} {write : FieldWrite} (hs : Ledger s)
    (hj : s.jobs[i]? = some (.field id write)) :
    Balanced (perform settings (.field id write) (s.release i)) id ↔
      JobMirrored s true (.field id write) := by
  cases hc : s.cache id with
  | none =>
    refine iff_of_true (balanced_of_none ((congrFun (checkTTL_cache id write _) id).trans hc)) ?_
    cases write with
    | incrBy delta => exact .inr (.inl hc)
    | set value => trivial
  | some c =>
    have hbefore := (balanced_iff_of_some hc).mp (hs id)
    have hcache : (perform settings (.field id write) (s.release i)).cache id = some c :=
      (congrFun (checkTTL_cache id write _) id).trans hc
    have hdb : (perform settings (.field id write) (s.release i)).db = s.db :=
      checkTTL_db id write (s.release i)
    rw [balanced_iff_of_some hcache, hdb, perform, pending_checkTTL hj]
    simp only [hc, Option.some.injEq, exists_eq_left']
    cases write with
    | incrBy delta =>
      have howed : owed id (.field id (.incrBy delta)) = delta := if_pos rfl
      simp only [JobMirrored, hc, howed, reduceCtorEq, false_or, true_and, Option.some.injEq,
        exists_eq_left']
      by_cases httl : 0 < c.ttl
      · simp only [httl, if_true, or_true, hbefore]
      · simp only [httl, if_false, or_false]
        omega
    | set value =>
      have howed : owed id (.field id (.set value)) = 0 := rfl
      simp only [JobMirrored, howed, sub_zero, ite_self, hbefore]

theorem ledger_fieldNow {id : ℤ} {write : FieldWrite} {ttl : ℕ} (hs : Ledger s)
    (hj : s.jobs[i]? = some (.fieldNow id write ttl)) :
    Balanced (perform settings (.fieldNow id write ttl) (s.release i)) id ↔
      JobMirrored s true (.fieldNow id write ttl) := by
  have hcache : (perform settings (.fieldNow id write ttl) (s.release i)).cache id =
      some ⟨write.apply (s.cache id), ttl⟩ := Function.update_self _ _ _
  have hpending : pending (perform settings (.fieldNow id write ttl) (s.release i)) id =
      pending s id - owed id (.fieldNow id write ttl) := pending_erase hj id
  have hdb : (perform settings (.fieldNow id write ttl) (s.release i)).db = s.db := rfl
  rw [balanced_iff_of_some hcache, hpending, hdb]
  cases write with
  | set value => simp [JobMirrored, FieldWrite.apply, owed]
  | incrBy delta =>
    have howed : owed id (.fieldNow id (.incrBy delta) ttl) = delta := if_pos rfl
    rw [howed]
    cases hc : s.cache id with
    | none =>
      simp only [JobMirrored, FieldWrite.apply, hc, Option.map_none, Option.getD_none, if_true,
        true_imp_iff]
      omega
    | some c =>
      have hbefore := (balanced_iff_of_some hc).mp (hs id)
      simp only [JobMirrored, FieldWrite.apply, hc, Option.map_some, Option.getD_some, if_true,
        reduceCtorEq, false_imp_iff, iff_true]
      omega

theorem ledger_object {id quota : ℤ} (hj : s.jobs[i]? = some (.object id quota)) :
    Balanced (perform settings (.object id quota) (s.release i)) id ↔
      JobMirrored s true (.object id quota) := by
  have hpending : pending (perform settings (.object id quota) (s.release i)) id = pending s id :=
    (pending_erase hj id).trans (sub_zero _)
  have hdb : (perform settings (.object id quota) (s.release i)).db = s.db := rfl
  rw [balanced_iff_of_some (Function.update_self _ _ _), hpending, hdb]
  simp [JobMirrored]

theorem ledger_perform (hs : Ledger s) (hj : s.jobs[i]? = some job) :
    Balanced (perform settings job (s.release i)) (Job.user job) ↔ JobMirrored s true job := by
  cases job with
  | update id delta => exact ledger_update settings hs hj
  | field id write => exact ledger_field settings hs hj
  | fieldNow id write ttl => exact ledger_fieldNow settings hs hj
  | object id quota => exact ledger_object settings hj

theorem ledger_proceed (hs : Ledger s) (i : ℕ) (ok : Bool) :
    Ledger (step settings s (.proceed i ok)) ↔ Mirrored settings s (.proceed i ok) := by
  simp only [step, proceed, Mirrored]
  cases hj : s.jobs[i]? with
  | none => simpa using hs
  | some job =>
    simp only [Option.some.injEq, forall_eq']
    cases ok with
    | false =>
      rw [if_neg Bool.false_ne_true, ← ledger_given_up hs hj]
      exact ledger_iff_at _ hs fun id hid ↦ release_other hj hid
    | true =>
      rw [if_pos rfl, ← ledger_perform settings hs hj]
      exact ledger_iff_at _ hs fun id hid ↦
        (perform_other settings job _ hid).trans (release_other hj hid)

/-- Jobs that on balance add nothing can be started at any time. -/
theorem ledger_spawn (hs : Ledger s) {jobs : List Job}
    (h : ∀ id, (jobs.map (owed id)).sum = 0) : Ledger (s.spawn jobs) := by
  intro id
  refine (hs id).congr rfl ?_ rfl
  rw [pending_spawn, h id, add_zero]

theorem ledger_increase (hs : Ledger s) (id quota : ℤ) :
    Ledger (step settings s (.increaseUserQuota id quota)) := by
  simp only [step, increaseUserQuota]
  by_cases hq : quota < 0
  · simpa only [if_pos hq] using hs
  · simp only [if_neg hq]
    refine ledger_spawn hs fun i ↦ ?_
    by_cases hi : id = i <;> simp [cacheIncrUserQuota, owed, hi]

theorem ledger_decrease (hs : Ledger s) (id quota : ℤ) :
    Ledger (step settings s (.decreaseUserQuota id quota)) := by
  simp only [step, decreaseUserQuota]
  by_cases hq : quota < 0
  · simpa only [if_pos hq] using hs
  · simp only [if_neg hq]
    refine ledger_spawn hs fun i ↦ ?_
    by_cases hi : id = i <;> simp [cacheDecrUserQuota, cacheIncrUserQuota, owed, hi]

theorem ledger_getUserCache (hs : Ledger s) (redisOk : Bool) (fails : Option String) (id : ℤ) :
    Ledger (getUserCache redisOk fails id s).2 := by
  unfold getUserCache
  split
  · exact hs
  · cases getUserById fails id s.db with
    | error e => exact hs
    | ok user => exact ledger_spawn hs fun i ↦ rfl

theorem ledger_readQuota (hs : Ledger s) (fails : Option String) (id : ℤ) :
    Ledger (readQuota fails id s).2 := by
  cases fails with
  | some e => exact hs
  | none => exact ledger_spawn hs fun i ↦ rfl

theorem ledger_getUserQuota (hs : Ledger s) (redisOk : Bool) (fails fails' : Option String)
    (id : ℤ) (fromDB : Bool) : Ledger (getUserQuota redisOk fails fails' id fromDB s).2 := by
  have hcached := ledger_getUserCache hs redisOk fails id
  cases fromDB with
  | true => exact ledger_readQuota hs fails' id
  | false =>
    simp only [getUserQuota, Bool.false_eq_true, if_false]
    rcases hget : getUserCache redisOk fails id s with ⟨e | quota, s'⟩
    · rw [hget] at hcached
      exact ledger_readQuota hcached fails' id
    · rw [hget] at hcached
      exact hcached

theorem ledger_age (hs : Ledger s) (id : ℤ) (ttl : ℕ) :
    Ledger (step settings s (.age id ttl)) := by
  intro i
  by_cases hi : i = id
  · subst hi
    intro c hc
    simp only [step, Function.update_self, Option.map_eq_some_iff] at hc
    obtain ⟨old, hold, rfl⟩ := hc
    exact hs i old hold
  · exact (hs i).congr (Function.update_of_ne hi _ _) rfl rfl

theorem ledger_expire (hs : Ledger s) (id : ℤ) : Ledger (step settings s (.expire id)) := by
  intro i
  by_cases hi : i = id
  · exact balanced_of_none (by rw [hi]; exact Function.update_self _ _ _)
  · exact (hs i).congr (Function.update_of_ne hi _ _) rfl rfl

/-- A step keeps the ledger exactly when it meets the condition. -/
theorem ledger_step (s : State) (event : Event) (hs : Ledger s) :
    Ledger (step settings s event) ↔ Mirrored settings s event := by
  cases event with
  | increaseUserQuota id quota => exact iff_of_true (ledger_increase settings hs id quota) trivial
  | decreaseUserQuota id quota => exact iff_of_true (ledger_decrease settings hs id quota) trivial
  | getUserQuota redisOk fails fails' id fromDB =>
    exact iff_of_true (ledger_getUserQuota hs redisOk fails fails' id fromDB) trivial
  | credit call => exact ledger_credit settings hs call
  | proceed i ok => exact ledger_proceed settings hs i ok
  | age id ttl => exact iff_of_true (ledger_age settings hs id ttl) trivial
  | expire id => exact iff_of_true (ledger_expire settings hs id) trivial

end Steps

section Runs

variable (settings : Settings)

def Settled (s : State) : Prop := s.jobs = []

def Coherent (s : State) : Prop := ∀ id c, s.cache id = some c → c.quota = quotaOf s.db id

/-- With no job in hand a balanced ledger is a coherent cache. -/
theorem ledger_iff_coherent {s : State} (h : Settled s) : Ledger s ↔ Coherent s := by
  have hpending (id : ℤ) : pending s id = 0 := by
    rw [pending, h]
    rfl
  simp only [Ledger, Balanced, Coherent, hpending, add_zero]

/-- The ledger balances throughout a run exactly when every step meets the condition. -/
theorem ledger_throughout {s : State} (hs : Ledger s) (trace : List Event) :
    (∀ first rest, trace = first ++ rest → Ledger (run (step settings) s first)) ↔
      Along (step settings) (Mirrored settings) s trace :=
  throughout_iff Ledger (ledger_step settings) hs trace

/-- In a run whose steps meet the condition the cached quotas are the stored ones whenever no
write is left. -/
theorem settled_coherent {s : State} (hs : Settled s) (hc : Coherent s) {trace : List Event}
    (halong : Along (step settings) (Mirrored settings) s trace) (first rest : List Event)
    (htrace : trace = first ++ rest) (hend : Settled (run (step settings) s first)) :
    Coherent (run (step settings) s first) := by
  have hstart : Ledger s := (ledger_iff_coherent hs).mpr hc
  have hledger := (ledger_throughout settings hstart trace).mpr halong first rest htrace
  exact (ledger_iff_coherent hend).mp hledger

/-- One user, and a code for a quota of fifty. -/
def oneCode : State where
  db := {
    users := .single { id := 1, quota := 100 }
    redemptions := .single { id := 1, key := "code", quota := 50 }
    topUps := .empty }
  cache _ := none
  jobs := []

def minuteLong : Settings := ⟨⟨500000, fun _ ↦ 0⟩, fun _ ↦ "", 60⟩

def readThenIncrease : List Event := [.getUserQuota true none none 1 false, .proceed 0 true,
  .increaseUserQuota 1 5, .proceed 0 true, .proceed 0 true, .proceed 0 true]

theorem settled_coherent_readThenIncrease :
    Coherent (run (step minuteLong) oneCode readThenIncrease) := by
  have halong : Along (step minuteLong) (Mirrored minuteLong) oneCode readThenIncrease := by
    refine ⟨trivial, ?_, trivial, ?_, ?_, ?_, trivial⟩
    · rintro _ ⟨⟩
      exact fun _ ↦ rfl
    · rintro _ ⟨⟩
      exact .inr (.inr ⟨rfl, _, rfl, by decide⟩)
    · rintro _ ⟨⟩
      exact .inr (.inr ⟨rfl, rfl⟩)
    · rintro _ ⟨⟩
      rintro ⟨⟩
  have hsettled : Settled oneCode := rfl
  have hempty : Coherent oneCode := fun _ _ h ↦ nomatch h
  exact settled_coherent minuteLong hsettled hempty halong readThenIncrease []
    (List.append_nil _).symm rfl

/-- A redemption leaves a quota that is cached as it was. -/
theorem redeem_not_mirrored : ¬ ∀ (settings : Settings) (s : State) (trace : List Event),
    Settled s → Coherent s → Settled (run (step settings) s trace) →
      Coherent (run (step settings) s trace) := by
  intro h
  have hcoherent := h minuteLong oneCode [.getUserQuota true none none 1 false, .proceed 0 true,
    .credit (.redeem 5 none "code" 1)] rfl (fun _ _ h ↦ nomatch h) rfl
  have hquota : (100 : ℤ) = 150 := hcoherent 1 ⟨100, 60⟩ rfl
  omega

end Runs

end AllAiTools.NewApi.Model.QuotaCoherent
