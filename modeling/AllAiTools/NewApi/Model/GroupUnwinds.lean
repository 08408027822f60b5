import AllAiTools.NewApi.Model.SubscriptionGroup

namespace AllAiTools.NewApi.Model.GroupUnwinds

open Foundation Foundation.Run Foundation.ReadCommitted Common.Str Subscription OneShot
open SubscriptionGroup

/-- What the group upgrades of one user depend on. -/
@[ext] structure Account where
  group : String
  subs : List UserSubscription

def account (u : ℤ) (s : Ledger) : Account :=
  ⟨getUserGroupById s u, s.subs.filter (·.userId = u)⟩

/-- An active subscription with an upgrade group. -/
def Upgrades (sub : UserSubscription) : Prop := sub.status = .active ∧ sub.upgradeGroup ≠ ""

instance (sub : UserSubscription) : Decidable (Upgrades sub) :=
  inferInstanceAs (Decidable (_ ∧ _))

def upgraded (subs : List UserSubscription) : List UserSubscription := subs.filter (Upgrades ·)

/-- The group a user belongs in: the base group once no upgrade is active, the
upgrade group of an active one until then. -/
def Belongs (base : String) (active : List UserSubscription) (group : String) : Prop :=
  if active = [] then group = base else ∃ sub ∈ active, sub.upgradeGroup = group

instance (base : String) (active : List UserSubscription) (group : String) :
    Decidable (Belongs base active group) := by
  unfold Belongs
  infer_instance

/-- The subscription is the one whose upgrade the user's group shows, and it knows a
group to go back to. -/
def Undoes (group : String) (sub : UserSubscription) : Prop :=
  trimSpace sub.upgradeGroup ≠ "" ∧ group = trimSpace sub.upgradeGroup ∧
    trimSpace sub.prevUserGroup ≠ "" ∧ trimSpace sub.prevUserGroup ≠ group

instance (group : String) (sub : UserSubscription) : Decidable (Undoes group sub) :=
  inferInstanceAs (Decidable (_ ∧ _ ∧ _ ∧ _))

/-- The group after the subscription `consulted`, if any, has been undone. -/
def fallBack (group : String) (consulted : Option UserSubscription) : String :=
  match consulted with
  | none => group
  | some sub => if Undoes group sub then trimSpace sub.prevUserGroup else group

/-- Where the upgrades of `active` stay, the group stored with the consulted
subscription is the right one if it is gone back to, and the present one if not. -/
structure Lands (base : String) (active : List UserSubscription) (group : String)
    (consulted : Option UserSubscription) : Prop where
  back : ∀ sub ∈ consulted, Undoes group sub → Belongs base active (trimSpace sub.prevUserGroup)
  stay : (∀ sub ∈ consulted, ¬ Undoes group sub) → Belongs base active group

theorem belongs_fallBack {base group : String} {active : List UserSubscription}
    {consulted : Option UserSubscription} :
    Belongs base active (fallBack group consulted) ↔ Lands base active group consulted := by
  cases consulted with
  | none =>
    refine ⟨fun h ↦ ⟨fun sub hs ↦ (by cases hs), fun _ ↦ h⟩, fun h ↦ h.stay fun sub hs ↦ (by cases hs)⟩
  | some sub =>
    by_cases hu : Undoes group sub
    · rw [fallBack, if_pos hu]
      refine ⟨fun h ↦ ⟨?_, fun hn ↦ absurd hu (hn sub rfl)⟩, fun h ↦ h.back sub rfl hu⟩
      rintro _ ⟨⟩ _
      exact h
    · rw [fallBack, if_neg hu]
      refine ⟨fun h ↦ ⟨?_, fun _ ↦ h⟩, fun h ↦ h.stay ?_⟩
      · rintro _ ⟨⟩ hu'
        exact absurd hu' hu
      · rintro _ ⟨⟩
        exact hu

section View

variable {u v : ℤ} {s : Ledger}

/-- The user exists, and subscriptions have their primary keys. -/
structure Known (u : ℤ) (s : Ledger) : Prop where
  pos : 0 < u
  user : (s.users.find u).isSome
  keys : (s.subs.map (·.id)).Nodup

theorem updateUser_subs (v : ℤ) (f : User → User) : (updateUser s v f).subs = s.subs := by
  unfold updateUser
  split <;> rfl

theorem find_setGroup (v : ℤ) (g : String) (k : ℤ) :
    (setGroup s v g).users.find k =
      if v = k then (s.users.find k).map (fun w ↦ { w with group := g }) else s.users.find k := by
  unfold setGroup updateUser
  cases hf : s.users.find v with
  | none =>
    by_cases hk : v = k
    · subst hk
      simp [hf]
    · simp [hk]
  | some w =>
    have hkey : w.id = v := Table.find_key hf
    by_cases hk : v = k
    · subst hk
      simp [hkey, hf]
    · simp [Table.find_save, hkey, hk]

theorem known_setGroup (h : Known u s) (v : ℤ) (g : String) : Known u (setGroup s v g) := by
  refine ⟨h.pos, ?_, ?_⟩
  · rw [find_setGroup]
    split_ifs
    · rw [Option.isSome_map]
      exact h.user
    · exact h.user
  · rw [setGroup, updateUser_subs]
    exact h.keys

theorem account_setGroup_self (h : Known u s) (g : String) :
    account u (setGroup s u g) = ⟨g, (account u s).subs⟩ := by
  obtain ⟨w, hw⟩ := Option.isSome_iff_exists.mp h.user
  have hg : getUserGroupById (setGroup s u g) u = g := by
    simp [getUserGroupById, find_setGroup, hw]
  rw [account, hg, setGroup, updateUser_subs, account]

theorem account_setGroup_of_ne (h : v ≠ u) (g : String) :
    account u (setGroup s v g) = account u s := by
  have hg : getUserGroupById (setGroup s v g) u = getUserGroupById s u := by
    simp [getUserGroupById, find_setGroup, h]
  rw [account, hg, setGroup, updateUser_subs, account]

/-- Changing the rows of one user, owners kept. -/
theorem filter_map_owner (g : UserSubscription → UserSubscription)
    (hg : ∀ b, (g b).userId = b.userId) (u : ℤ) (subs : List UserSubscription) :
    (subs.map g).filter (·.userId = u) = (subs.filter (·.userId = u)).map g := by
  rw [List.filter_map]
  congr 1
  refine List.filter_congr fun b _ ↦ ?_
  simp [hg b]

theorem account_mapSubs (g : UserSubscription → UserSubscription)
    (hg : ∀ b, (g b).userId = b.userId) :
    account u { s with subs := s.subs.map g } = ⟨(account u s).group, (account u s).subs.map g⟩ := by
  rw [account, filter_map_owner g hg u]
  rfl

end View

section Downgrade

variable {u v : ℤ} {s : Ledger} {f : Failures} {now : ℤ} {sub : UserSubscription}

/-- The subscription whose end a downgrade looks at: none while another upgraded one
of the user is seen to run on. -/
def consulted (f : Failures) (now : ℤ) (active : List UserSubscription)
    (sub : UserSubscription) : Option UserSubscription :=
  if f.findActive = false ∧ ∃ a ∈ active, now < a.endTime then none else some sub

/-- The upgraded subscriptions that the end of one leaves. -/
def others (a : Account) (id : ℤ) : List UserSubscription := (upgraded a.subs).filter (·.id ≠ id)

theorem exists_running_iff (now : ℤ) (id : ℤ) :
    (∃ a ∈ s.subs, Running u now a ∧ a.id ≠ id) ↔
      ∃ a ∈ others (account u s) id, now < a.endTime := by
  constructor
  · rintro ⟨a, ha, ⟨hu, hs, he, hg⟩, hid⟩
    exact ⟨a, by simp [others, upgraded, account, Upgrades, ha, hu, hs, hg, hid], he⟩
  · rintro ⟨a, ha, he⟩
    simp only [others, upgraded, account, List.mem_filter, decide_eq_true_eq] at ha
    obtain ⟨⟨⟨hm, hu⟩, hs, hg⟩, hid⟩ := ha
    exact ⟨a, hm, ⟨hu, hs, he, hg⟩, hid⟩

theorem downgrade_eq (hpos : 0 < sub.userId) :
    downgradeUserGroupForSubscriptionTx f s sub now =
      if Undoes (getUserGroupById s sub.userId) sub ∧
          ¬ (f.findActive = false ∧ ∃ a ∈ s.subs, Running sub.userId now a ∧ a.id ≠ sub.id) then
        .ok (trimSpace sub.prevUserGroup, setGroup s sub.userId (trimSpace sub.prevUserGroup))
      else .ok ("", s) := by
  have hn : ¬ sub.userId ≤ 0 := by omega
  unfold downgradeUserGroupForSubscriptionTx getUserGroupByIdTx
  simp only [if_neg hn]
  by_cases hup : trimSpace sub.upgradeGroup = ""
  · rw [if_pos hup, if_neg fun h ↦ h.1.1 hup]
  rw [if_neg hup]
  by_cases hcur : getUserGroupById s sub.userId ≠ trimSpace sub.upgradeGroup
  · rw [if_pos hcur, if_neg fun h ↦ hcur h.1.2.1]
  rw [if_neg hcur]
  by_cases hrun : f.findActive = false ∧ ∃ a ∈ s.subs, Running sub.userId now a ∧ a.id ≠ sub.id
  · rw [if_pos hrun, if_neg fun h ↦ h.2 hrun]
  rw [if_neg hrun]
  by_cases hprev : trimSpace sub.prevUserGroup = "" ∨
      trimSpace sub.prevUserGroup = getUserGroupById s sub.userId
  · rw [if_pos hprev, if_neg fun h ↦ hprev.elim h.1.2.2.1 h.1.2.2.2]
  · have hu := not_or.mp hprev
    rw [if_neg hprev, if_pos ⟨⟨hup, not_not.mp hcur, hu.1, hu.2⟩, hrun⟩]

/-- A downgrade touches the group only, and goes back where the consulted
subscription says. -/
theorem downgrade_cases (f : Failures) (now : ℤ) (h : Known u s) (hs : sub.userId = u) :
    ∃ target s', downgradeUserGroupForSubscriptionTx f s sub now = .ok (target, s') ∧
      s'.subs = s.subs ∧ Known u s' ∧
      account u s' = ⟨fallBack (account u s).group
        (consulted f now (others (account u s) sub.id) sub), (account u s).subs⟩ := by
  subst hs
  simp only [downgrade_eq h.pos, exists_running_iff, consulted]
  by_cases hrun : f.findActive = false ∧ ∃ a ∈ others (account sub.userId s) sub.id, now < a.endTime
  · rw [if_neg fun hc ↦ hc.2 hrun, if_pos hrun]
    exact ⟨_, _, rfl, rfl, h, rfl⟩
  rw [if_neg hrun, fallBack]
  by_cases hu : Undoes (account sub.userId s).group sub
  · rw [if_pos ⟨hu, hrun⟩]
    rw [if_pos hu]
    exact ⟨_, _, rfl, updateUser_subs _ _, known_setGroup h _ _, account_setGroup_self h _⟩
  · rw [if_neg fun hc ↦ hu hc.1]
    rw [if_neg hu]
    exact ⟨_, _, rfl, rfl, h, rfl⟩

/-- A downgrade is about the owner of its subscription. -/
theorem downgrade_owner {target : String} {s' : Ledger}
    (h : downgradeUserGroupForSubscriptionTx f s sub now = .ok (target, s')) :
    s' = s ∨ ∃ g, s' = setGroup s sub.userId g := by
  by_cases hpos : 0 < sub.userId
  · rw [downgrade_eq hpos] at h
    split_ifs at h
    · cases h
      exact .inr ⟨_, rfl⟩
    · cases h
      exact .inl rfl
  · have hn : sub.userId ≤ 0 := by omega
    unfold downgradeUserGroupForSubscriptionTx getUserGroupByIdTx at h
    simp only [if_pos hn] at h
    split_ifs at h
    cases h
    exact .inl rfl

end Downgrade

section Operations

variable {u : ℤ} {s : Ledger} {f : Failures} {now : ℤ}

theorem findSub_id {id : ℤ} {sub : UserSubscription} (h : findSub s id = some sub) : sub.id = id := by
  simpa using List.find?_some h

theorem findSub_mem {id : ℤ} {sub : UserSubscription} (h : findSub s id = some sub) :
    sub ∈ s.subs := List.mem_of_find?_eq_some h

/-- No other row has the primary key of a row that was found. -/
theorem unique_key (hk : (s.subs.map (·.id)).Nodup) {a b : UserSubscription} (ha : a ∈ s.subs)
    (hb : b ∈ s.subs) (h : a.id = b.id) : a = b :=
  List.inj_on_of_nodup_map hk ha hb h

/-- Rows that stop being active upgrades, the others left alone. -/
theorem upgraded_map {g : UserSubscription → UserSubscription} {p : UserSubscription → Prop}
    [DecidablePred p] (hp : ∀ b, p b → ¬ Upgrades (g b)) (hn : ∀ b, ¬ p b → g b = b)
    (subs : List UserSubscription) :
    upgraded (subs.map g) = (upgraded subs).filter (fun b ↦ ¬ p b) := by
  induction subs with
  | nil => rfl
  | cons b subs ih =>
    unfold upgraded at ih ⊢
    by_cases hb : p b
    · have hg := hp b hb
      rw [List.map_cons, List.filter_cons_of_neg (by simpa using hg), ih]
      by_cases hu : Upgrades b
      · rw [List.filter_cons_of_pos (by simpa using hu), List.filter_cons_of_neg (by simpa using hb)]
      · rw [List.filter_cons_of_neg (by simpa using hu)]
    · rw [List.map_cons, hn b hb]
      by_cases hu : Upgrades b
      · rw [List.filter_cons_of_pos (by simpa using hu), List.filter_cons_of_pos (by simpa using hu),
          List.filter_cons_of_pos (by simpa using hb), ih]
      · rw [List.filter_cons_of_neg (by simpa using hu), List.filter_cons_of_neg (by simpa using hu), ih]

theorem upgraded_cancel (id : ℤ) (subs : List UserSubscription) :
    upgraded (subs.map fun b ↦ if b.id = id then cancel now b else b) =
      (upgraded subs).filter (·.id ≠ id) := by
  refine upgraded_map (p := fun b ↦ b.id = id) (fun b hb hu ↦ ?_) (fun b hb ↦ if_neg hb) subs
  rw [if_pos hb] at hu
  cases hu.1

theorem upgraded_expire (subs : List UserSubscription) :
    upgraded (subs.map (expire now)) = (upgraded subs).filter (¬ Due now ·) := by
  refine upgraded_map (p := Due now) (fun b hb hu ↦ ?_) (fun b hb ↦ if_neg hb) subs
  rw [if_pos hb] at hu
  cases hu.1

/-- The call ends the subscription `sub` of the user. -/
structure Ends (u : ℤ) (f : Failures) (s : Ledger) (id : ℤ) (sub : UserSubscription) : Prop where
  id_pos : 0 < id
  found : findSub s id = some sub
  owner : sub.userId = u
  commits : f.rollback = false

theorem cancel_owner (id : ℤ) (b : UserSubscription) :
    (if b.id = id then cancel now b else b).userId = b.userId := by
  split_ifs <;> rfl

theorem cancel_key (id : ℤ) (b : UserSubscription) :
    (if b.id = id then cancel now b else b).id = b.id := by
  split_ifs <;> rfl

theorem known_updateSub (now : ℤ) (h : Known u s) (id : ℤ) : Known u (updateSub s id (cancel now)) := by
  refine ⟨h.pos, h.user, ?_⟩
  have hkeys : ((s.subs.map fun b ↦ if b.id = id then cancel now b else b).map (·.id)) =
      s.subs.map (·.id) := by
    rw [List.map_map]
    exact List.map_congr_left fun b _ ↦ cancel_key id b
  rw [updateSub, hkeys]
  exact h.keys

theorem known_deleteSub (h : Known u s) (id : ℤ) : Known u (deleteSub s id) :=
  ⟨h.pos, h.user, (List.filter_sublist.map _).nodup h.keys⟩

theorem account_updateSub (id : ℤ) : account u (updateSub s id (cancel now)) =
    ⟨(account u s).group,
      (account u s).subs.map fun b ↦ if b.id = id then cancel now b else b⟩ :=
  account_mapSubs _ (cancel_owner id)

theorem account_deleteSub (id : ℤ) : account u (deleteSub s id) =
    ⟨(account u s).group, (account u s).subs.filter (·.id ≠ id)⟩ := by
  simp only [account, deleteSub, List.filter_filter, Bool.and_comm]
  rfl

/-- The rows of a user are not touched through a primary key of somebody else. -/
theorem others_key (h : Known u s) {id : ℤ} {sub b : UserSubscription}
    (hf : findSub s id = some sub) (ho : sub.userId ≠ u) (hb : b ∈ (account u s).subs) :
    b.id ≠ id := by
  intro he
  have hm := List.mem_filter.mp hb
  have hsame : b = sub := unique_key h.keys hm.1 (findSub_mem hf) (he.trans (findSub_id hf).symm)
  exact ho (hsame ▸ of_decide_eq_true hm.2)

theorem account_updateSub_of_ne (now : ℤ) (h : Known u s) {id : ℤ} {sub : UserSubscription}
    (hf : findSub s id = some sub) (ho : sub.userId ≠ u) :
    account u (updateSub s id (cancel now)) = account u s := by
  rw [account_updateSub]
  refine Account.ext rfl ?_
  refine (List.map_congr_left fun b hb ↦ ?_).trans (List.map_id _)
  rw [if_neg (others_key h hf ho hb), id_eq]

theorem account_deleteSub_of_ne (h : Known u s) {id : ℤ} {sub : UserSubscription}
    (hf : findSub s id = some sub) (ho : sub.userId ≠ u) :
    account u (deleteSub s id) = account u s := by
  rw [account_deleteSub]
  refine Account.ext rfl (List.filter_eq_self.mpr fun b hb ↦ ?_)
  simpa using others_key h hf ho hb

/-- What a step leaves of one user: the upgrades `active` and the group that the
consulted subscription decides. -/
structure Closed (a b : Account) (active : List UserSubscription)
    (consulted : Option UserSubscription) : Prop where
  active : upgraded b.subs = active
  group : b.group = fallBack a.group consulted

theorem fallBack_cancel (group : String) (active : List UserSubscription) (sub : UserSubscription) :
    fallBack group (consulted f now active (cancel now sub)) =
      fallBack group (consulted f now active sub) := by
  unfold consulted
  split_ifs <;> rfl

theorem others_updateSub (id : ℤ) :
    others (account u (updateSub s id (cancel now))) id = others (account u s) id := by
  rw [others, account_updateSub, upgraded_cancel, others, List.filter_filter]
  congr 1
  funext b
  simp

/-- A call that ends a subscription rolls back, or has written all it had to. -/
theorem endUserSubscription_cases (f : Failures) (s : Ledger) (id now : ℤ)
    (before : UserSubscription → Ledger) (row : UserSubscription → UserSubscription)
    (after : Ledger → Ledger) :
    (endUserSubscription f s id now before row after).2 = s ∨
      ∃ sub target s', Ends sub.userId f s id sub ∧
        downgradeUserGroupForSubscriptionTx f (before sub) (row sub) now = .ok (target, s') ∧
        (endUserSubscription f s id now before row after).2 = after s' := by
  unfold endUserSubscription inTransaction
  by_cases hid : id ≤ 0
  · rw [if_pos hid]
    exact .inl rfl
  rw [if_neg hid]
  cases hf : f.rollback with
  | true => exact .inl rfl
  | false =>
    cases hfind : findSub s id with
    | none => exact .inl rfl
    | some sub =>
      cases hd : downgradeUserGroupForSubscriptionTx f (before sub) (row sub) now with
      | error e =>
        refine .inl ?_
        simp [hd]
      | ok r =>
        refine .inr ⟨sub, r.1, r.2, ⟨by omega, hfind, rfl, hf⟩, hd, ?_⟩
        simp [hd]

theorem endUserSubscription_of_ends {id : ℤ} {sub : UserSubscription} (he : Ends u f s id sub)
    {before : UserSubscription → Ledger} {row : UserSubscription → UserSubscription}
    {after : Ledger → Ledger} {target : String} {s' : Ledger}
    (hd : downgradeUserGroupForSubscriptionTx f (before sub) (row sub) now = .ok (target, s')) :
    (endUserSubscription f s id now before row after).2 = after s' := by
  have hid : ¬ id ≤ 0 := by have := he.id_pos; omega
  simp [endUserSubscription, inTransaction, if_neg hid, he.commits, he.found, hd]

theorem invalidate_closed (h : Known u s) {id : ℤ} {sub : UserSubscription}
    (he : Ends u f s id sub) :
    Closed (account u s) (account u (adminInvalidateUserSubscription f s id now).2)
      (others (account u s) id) (consulted f now (others (account u s) id) sub) := by
  have hkey := findSub_id he.found
  obtain ⟨target, s', hd, _, _, ha⟩ := downgrade_cases f now
    (known_updateSub now h sub.id) (show (cancel now sub).userId = u from he.owner)
  have hs' : (adminInvalidateUserSubscription f s id now).2 = s' :=
    endUserSubscription_of_ends he hd
  rw [hs', ha]
  refine ⟨?_, ?_⟩
  · dsimp only
    rw [account_updateSub, upgraded_cancel, hkey, others]
  · dsimp only
    rw [fallBack_cancel, cancel, hkey, others_updateSub, account_updateSub]

theorem delete_closed (h : Known u s) {id : ℤ} {sub : UserSubscription} (he : Ends u f s id sub) :
    Closed (account u s) (account u (adminDeleteUserSubscription f s id now).2)
      (others (account u s) id) (consulted f now (others (account u s) id) sub) := by
  have hkey := findSub_id he.found
  obtain ⟨target, s', hd, _, _, ha⟩ := downgrade_cases f now h he.owner
  have hs' : (adminDeleteUserSubscription f s id now).2 = deleteSub s' id :=
    endUserSubscription_of_ends he hd
  rw [hs', account_deleteSub, ha]
  refine ⟨?_, ?_⟩
  · dsimp only
    rw [others, upgraded, upgraded, List.filter_comm]
  · dsimp only
    rw [hkey]

theorem invalidate_known (h : Known u s) (f : Failures) (id now : ℤ) :
    Known u (adminInvalidateUserSubscription f s id now).2 := by
  unfold adminInvalidateUserSubscription
  rcases endUserSubscription_cases f s id now (fun sub ↦ updateSub s sub.id (cancel now))
    (cancel now) (fun s' ↦ s') with he | ⟨sub, target, s', _, hd, he⟩
  · rwa [he]
  rw [he]
  have hk := known_updateSub now h sub.id
  rcases downgrade_owner hd with hs | ⟨g, hs⟩
  · rwa [hs]
  · rw [hs]
    exact known_setGroup hk _ _

theorem delete_known (h : Known u s) (f : Failures) (id now : ℤ) :
    Known u (adminDeleteUserSubscription f s id now).2 := by
  unfold adminDeleteUserSubscription
  rcases endUserSubscription_cases f s id now (fun _ ↦ s) (fun sub ↦ sub)
    (fun s' ↦ deleteSub s' id) with he | ⟨sub, target, s', _, hd, he⟩
  · rwa [he]
  rw [he]
  refine known_deleteSub ?_ id
  rcases downgrade_owner hd with hs | ⟨g, hs⟩
  · rwa [hs]
  · rw [hs]
    exact known_setGroup h _ _

/-- A call that ends no subscription of the user leaves the user's account. -/
theorem invalidate_frame (now : ℤ) (h : Known u s) {id : ℤ} (hn : ∀ sub, ¬ Ends u f s id sub) :
    account u (adminInvalidateUserSubscription f s id now).2 = account u s := by
  unfold adminInvalidateUserSubscription
  rcases endUserSubscription_cases f s id now (fun sub ↦ updateSub s sub.id (cancel now))
    (cancel now) (fun s' ↦ s') with he | ⟨sub, target, s', hends, hd, he⟩
  · rw [he]
  have hkey := findSub_id hends.found
  have hne : sub.userId ≠ u := fun ho ↦ hn sub ⟨hends.id_pos, hends.found, ho, hends.commits⟩
  have hrow := account_updateSub_of_ne now h hends.found hne
  rw [he]
  rw [hkey] at hd
  rcases downgrade_owner hd with hs | ⟨g, hs⟩
  · rw [hs, hrow]
  · rw [hs]
    exact (account_setGroup_of_ne hne g).trans hrow

theorem delete_frame (now : ℤ) (h : Known u s) {id : ℤ} (hn : ∀ sub, ¬ Ends u f s id sub) :
    account u (adminDeleteUserSubscription f s id now).2 = account u s := by
  unfold adminDeleteUserSubscription
  rcases endUserSubscription_cases f s id now (fun _ ↦ s) (fun sub ↦ sub)
    (fun s' ↦ deleteSub s' id) with he | ⟨sub, target, s', hends, hd, he⟩
  · rw [he]
  have hne : sub.userId ≠ u := fun ho ↦ hn sub ⟨hends.id_pos, hends.found, ho, hends.commits⟩
  rw [he]
  rcases downgrade_owner hd with hs | ⟨g, hs⟩
  · rw [hs, account_deleteSub_of_ne h hends.found hne]
  · have hf : findSub (setGroup s sub.userId g) id = some sub := by
      rw [findSub, setGroup, updateUser_subs]
      exact hends.found
    rw [hs, account_deleteSub_of_ne (known_setGroup h _ _) hf hne, account_setGroup_of_ne hne]

end Operations

section Expiry

variable {u v : ℤ} {s : Ledger} {f : Failures} {now : ℤ}

theorem expire_owner (b : UserSubscription) : (expire now b).userId = b.userId := by
  unfold expire
  split_ifs <;> rfl

theorem expire_key (b : UserSubscription) : (expire now b).id = b.id := by
  unfold expire
  split_ifs <;> rfl

theorem known_markExpired (h : Known u s) (v now : ℤ) : Known u (markExpired s v now) := by
  refine ⟨h.pos, h.user, ?_⟩
  have hkeys : (markExpired s v now).subs.map (·.id) = s.subs.map (·.id) := by
    rw [markExpired, List.map_map]
    refine List.map_congr_left fun b _ ↦ ?_
    dsimp only [Function.comp]
    split_ifs
    · exact expire_key b
    · rfl
  rw [hkeys]
  exact h.keys

theorem account_markExpired (u v now : ℤ) : account u (markExpired s v now) =
    if v = u then ⟨(account u s).group, (account u s).subs.map (expire now)⟩ else account u s := by
  have ho : ∀ b : UserSubscription,
      (if b.userId = v then expire now b else b).userId = b.userId := by
    intro b
    split_ifs
    · exact expire_owner b
    · rfl
  rw [markExpired, account_mapSubs _ ho]
  by_cases hv : v = u
  · subst hv
    rw [if_pos rfl]
    refine Account.ext rfl (List.map_congr_left fun b hb ↦ ?_)
    rw [if_pos (of_decide_eq_true (List.mem_filter.mp hb).2)]
  · rw [if_neg hv]
    refine Account.ext rfl ((List.map_congr_left fun b hb ↦ ?_).trans (List.map_id _))
    have hu : b.userId = u := of_decide_eq_true (List.mem_filter.mp hb).2
    rw [if_neg fun he ↦ hv (he.symm.trans hu), id_eq]

/-- The row an expiry looks at is one of the user's own. -/
theorem lastExpired_filter (f : Failures) (subs : List UserSubscription) (u now : ℤ) :
    lastExpired f subs u now = lastExpired f (subs.filter (·.userId = u)) u now := by
  have hrun : (∃ a ∈ subs, Running u now a) ↔
      ∃ a ∈ subs.filter (·.userId = u), Running u now a := by
    constructor
    · rintro ⟨a, ha, hr⟩
      exact ⟨a, List.mem_filter.mpr ⟨ha, by simpa using hr.1⟩, hr⟩
    · rintro ⟨a, ha, hr⟩
      exact ⟨a, (List.mem_filter.mp ha).1, hr⟩
  simp only [lastExpired, hrun, List.filter_filter]
  congr 4
  funext a
  by_cases ha : a.userId = u <;> simp [ha]

/-- What an expiry does to an account. -/
def expireAccount (f : Failures) (u now : ℤ) (a : Account) : Account :=
  ⟨fallBack a.group (lastExpired f (a.subs.map (expire now)) u now), a.subs.map (expire now)⟩

theorem expireUser_eq (hpos : 0 < v) (hf : f.rollback = false) :
    expireUserSubscriptions f s v now =
      (.ok (s.subs.filter fun b ↦ b.userId = v ∧ Due now b).length,
        match lastExpired f (markExpired s v now).subs v now with
        | none => markExpired s v now
        | some last =>
          if Undoes (getUserGroupById (markExpired s v now) v) last then
            setGroup (markExpired s v now) v (trimSpace last.prevUserGroup)
          else markExpired s v now) := by
  have hn : ¬ v ≤ 0 := by omega
  unfold expireUserSubscriptions inTransaction getUserGroupByIdTx
  simp only [hf, if_neg hn, Bool.false_eq_true, if_false]
  cases lastExpired f (markExpired s v now).subs v now with
  | none => rfl
  | some last =>
    dsimp only
    by_cases hempty : trimSpace last.upgradeGroup = "" ∨ trimSpace last.prevUserGroup = ""
    · rw [if_pos hempty, if_neg fun h ↦ hempty.elim h.1 h.2.2.1]
    rw [if_neg hempty]
    by_cases hcur : getUserGroupById (markExpired s v now) v ≠ trimSpace last.upgradeGroup ∨
        getUserGroupById (markExpired s v now) v = trimSpace last.prevUserGroup
    · rw [if_pos hcur, if_neg fun h ↦ hcur.elim (fun hc ↦ hc h.2.1) (fun hc ↦ h.2.2.2 hc.symm)]
    · have he := not_or.mp hempty
      have hc := not_or.mp hcur
      rw [if_neg hcur, if_pos ⟨he.1, not_not.mp hc.1, he.2, fun h ↦ hc.2 h.symm⟩]

/-- A user's part of the sweep touches nothing but this user's rows and group. -/
theorem expireUser_cases (f : Failures) (s : Ledger) (v now : ℤ) :
    (expireUserSubscriptions f s v now).2 = s ∨
      (expireUserSubscriptions f s v now).2 = markExpired s v now ∨
      ∃ g, (expireUserSubscriptions f s v now).2 = setGroup (markExpired s v now) v g := by
  cases hf : f.rollback with
  | true => exact .inl (by simp [expireUserSubscriptions, inTransaction, hf])
  | false =>
    by_cases hpos : 0 < v
    · rw [expireUser_eq hpos hf]
      cases lastExpired f (markExpired s v now).subs v now with
      | none => exact .inr (.inl rfl)
      | some last =>
        dsimp only
        split_ifs
        · exact .inr (.inr ⟨_, rfl⟩)
        · exact .inr (.inl rfl)
    · have hn : v ≤ 0 := by omega
      unfold expireUserSubscriptions inTransaction getUserGroupByIdTx
      simp only [hf, if_pos hn, Bool.false_eq_true, if_false]
      cases lastExpired f (markExpired s v now).subs v now with
      | none => exact .inr (.inl rfl)
      | some last =>
        dsimp only
        by_cases he : trimSpace last.upgradeGroup = "" ∨ trimSpace last.prevUserGroup = ""
        · rw [if_pos he]
          exact .inr (.inl rfl)
        · rw [if_neg he]
          exact .inl rfl

theorem expireUser_known (h : Known u s) (f : Failures) (v now : ℤ) :
    Known u (expireUserSubscriptions f s v now).2 := by
  have hm := known_markExpired h v now
  rcases expireUser_cases f s v now with he | he | ⟨g, he⟩
  · rwa [he]
  · rwa [he]
  · rw [he]
    exact known_setGroup hm v g

theorem expireUser_self (h : Known u s) (hf : f.rollback = false) :
    account u (expireUserSubscriptions f s u now).2 = expireAccount f u now (account u s) := by
  have hm := known_markExpired h u now
  have ha : account u (markExpired s u now) =
      ⟨(account u s).group, (account u s).subs.map (expire now)⟩ := by
    rw [account_markExpired, if_pos rfl]
  have hlast : lastExpired f (markExpired s u now).subs u now =
      lastExpired f ((account u s).subs.map (expire now)) u now := by
    rw [lastExpired_filter]
    exact congrArg (fun a ↦ lastExpired f a.subs u now) ha
  have hgroup : getUserGroupById (markExpired s u now) u = (account u s).group := rfl
  rw [expireUser_eq h.pos hf, hlast, hgroup, expireAccount]
  cases lastExpired f ((account u s).subs.map (expire now)) u now with
  | none => exact ha
  | some last =>
    dsimp only [fallBack]
    split_ifs
    · rw [account_setGroup_self hm, ha]
    · exact ha

theorem expireUser_of_ne (f : Failures) (s : Ledger) (now : ℤ) (hv : v ≠ u) :
    account u (expireUserSubscriptions f s v now).2 = account u s := by
  have hm : account u (markExpired s v now) = account u s := by
    rw [account_markExpired, if_neg hv]
  rcases expireUser_cases f s v now with he | he | ⟨g, he⟩
  · rw [he]
  · rw [he, hm]
  · rw [he, account_setGroup_of_ne hv, hm]

theorem expireUser_result (f : Failures) (s : Ledger) (now : ℤ) (hpos : 0 < v) :
    (∃ e, f.rollback = true ∧ expireUserSubscriptions f s v now = (.error e, s)) ∨
      f.rollback = false ∧ ∃ count, (expireUserSubscriptions f s v now).1 = .ok count := by
  cases hf : f.rollback with
  | true =>
    exact .inl ⟨"database error", rfl, by
      simp only [expireUserSubscriptions, inTransaction, hf, if_true]⟩
  | false => exact .inr ⟨rfl, _, by rw [expireUser_eq hpos hf]⟩

/-- The users whose part of a sweep is committed: those before the first one whose
transaction the database fails. -/
def swept (fault : ℤ → Failures) (users : List ℤ) : List ℤ :=
  users.takeWhile fun v ↦ (fault v).rollback = false

theorem sweep_known (fault : ℤ → Failures) (now : ℤ) {users : List ℤ} {n : ℕ} {s : Ledger}
    (h : Known u s) : Known u (sweep fault now users n s).2 := by
  induction users generalizing n s with
  | nil => exact h
  | cons v users ih =>
    have hv := expireUser_known h (fault v) v now
    rw [sweep]
    cases hr : expireUserSubscriptions (fault v) s v now with
    | mk r s' =>
      rw [hr] at hv
      cases r with
      | error e => exact hv
      | ok count => exact ih hv

theorem sweep_of_notMem (fault : ℤ → Failures) (now : ℤ) {users : List ℤ} (hu : u ∉ users) {n : ℕ}
    {s : Ledger} : account u (sweep fault now users n s).2 = account u s := by
  induction users generalizing n s with
  | nil => rfl
  | cons v users ih =>
    have hv : v ≠ u := (List.ne_of_not_mem_cons hu).symm
    have he := expireUser_of_ne (fault v) s now hv
    rw [sweep]
    cases hr : expireUserSubscriptions (fault v) s v now with
    | mk r s' =>
      rw [hr] at he
      cases r with
      | error e => exact he
      | ok count => exact (ih (List.not_mem_of_not_mem_cons hu)).trans he

/-- A sweep treats a user it commits once, and the others not at all. -/
theorem sweep_account (fault : ℤ → Failures) (now : ℤ) {users : List ℤ} (hd : users.Nodup)
    (hpos : ∀ v ∈ users, 0 < v) {n : ℕ} {s : Ledger} (h : Known u s) :
    account u (sweep fault now users n s).2 =
      if u ∈ swept fault users then expireAccount (fault u) u now (account u s)
      else account u s := by
  induction users generalizing n s with
  | nil => rfl
  | cons v users ih =>
    obtain ⟨hnot, hd⟩ := List.nodup_cons.mp hd
    have hv := hpos v List.mem_cons_self
    have hk := expireUser_known h (fault v) v now
    rcases expireUser_result (fault v) s now hv with
      ⟨e, hf, hr⟩ | ⟨hf, count, hr⟩
    · rw [sweep, hr, swept, List.takeWhile_cons_of_neg (by simp [hf])]
      rfl
    · have hs : sweep fault now (v :: users) n s =
          sweep fault now users (n + count) (expireUserSubscriptions (fault v) s v now).2 := by
        rw [sweep]
        cases hp : expireUserSubscriptions (fault v) s v now with
        | mk r s' =>
          rw [hp] at hr
          cases hr
          rfl
      rw [hs, swept, List.takeWhile_cons_of_pos (by simp [hf]), ← swept]
      by_cases huv : v = u
      · subst huv
        rw [sweep_of_notMem fault now hnot, expireUser_self h hf, if_pos List.mem_cons_self]
      · rw [ih hd (fun w hw ↦ hpos w (List.mem_cons_of_mem v hw)) hk,
          expireUser_of_ne (fault v) s now huv]
        have hiff : u ∈ v :: swept fault users ↔ u ∈ swept fault users := by
          simp [Ne.symm huv]
        simp only [hiff]

/-- The users whose subscriptions a call expires. -/
def expiredUsers (order : MapOrder ℤ) (fault : ℤ → Failures) (s : Ledger) (limit now : ℤ) :
    List ℤ := swept fault (order.visit (dueUsers s limit now))

theorem dueUsers_pos {limit : ℤ} (h : v ∈ dueUsers s limit now) : 0 < v := by
  simp only [dueUsers, List.mem_dedup, List.mem_filter, decide_eq_true_eq] at h
  exact h.2

theorem expireDue_account (h : Known u s) (order : MapOrder ℤ) (fault : ℤ → Failures)
    (limit now : ℤ) :
    account u (expireDueSubscriptions order fault s limit now).2 =
      if u ∈ expiredUsers order fault s limit now then
        expireAccount (fault u) u now (account u s)
      else account u s := by
  unfold expireDueSubscriptions
  by_cases hdue : dueSubs s limit now = []
  · have hnone : dueUsers s limit now = [] := by simp [dueUsers, hdue]
    have hvisit : order.visit (dueUsers s limit now) = [] := by
      rw [hnone]
      exact (order.perm []).eq_nil
    rw [if_pos hdue, expiredUsers, hvisit]
    rfl
  · rw [if_neg hdue]
    refine sweep_account fault now (order.nodup_visit (List.nodup_dedup _)) (fun v hv ↦ ?_) h
    exact dueUsers_pos ((order.mem_visit).mp hv)

theorem expireDue_known (h : Known u s) (order : MapOrder ℤ) (fault : ℤ → Failures)
    (limit now : ℤ) : Known u (expireDueSubscriptions order fault s limit now).2 := by
  unfold expireDueSubscriptions
  split_ifs
  · exact h
  · exact sweep_known fault now h

end Expiry

section Purchase

variable {u : ℤ} {s : Ledger} {env : Env} {fails : List Bool} {v : ℤ} {plan : SubscriptionPlan}
  {source : String}

def addSub (s : Ledger) (sub : UserSubscription) : Ledger :=
  { s with subs := { sub with id := nextSubId s.subs } :: s.subs }

/-- What a purchase leaves: nothing, or an active subscription, for an upgrade with
the user in its group. -/
def Purchased (v : ℤ) (s s' : Ledger) : Prop :=
  s' = s ∨ ∃ sub ledger, s' = addSub ledger sub ∧ sub.userId = v ∧ sub.status = .active ∧
    ((sub.upgradeGroup = "" ∨ getUserGroupById s v = sub.upgradeGroup) ∧ ledger = s ∨
      sub.upgradeGroup ≠ "" ∧ ledger = setGroup s v sub.upgradeGroup)

theorem purchase_cases (env : Env) (fails : List Bool) (s : Ledger) (v : ℤ)
    (plan : SubscriptionPlan) (source : String) :
    Purchased v s (purchase env fails s v plan source).2 := by
  let Q : Except String Unit × Ledger → Prop := fun r ↦ Purchased v s r.2
  have hfail : ∀ e fails, Q ((fail e).alone rules s [] fails) := fun e fails ↦ .inl rfl
  have hback : ∀ e b fails, Q ((fail e).alone rules s b fails) := fun e b fails ↦ .inl rfl
  have hwrite : ∀ b fails sub, Purchased v s (addSub (rules.applyAll b s) sub) →
      Q ((Program.write (.createSub (.order source) sub) (finish id) (fail "database error")).alone
        rules s b fails) := by
    intro b fails sub h
    have happly : rules.applyAll (b ++ [.createSub (.order source) sub]) s =
        addSub (rules.applyAll b s) sub := List.foldl_append
    refine alone_write (Q := Q) (alone_commit (Q := Q) ?_ (hback _ _ _)) (hback _ _ _)
    rw [happly]
    exact h
  have hcreate : ∀ fails, Q ((createForPlan env (.order source) v plan source (finish id)).alone
      rules s [] fails) := by
    intro fails
    unfold createForPlan
    cases calcPlanEndTime env plan with
    | error e => exact hfail _ _
    | ok endTime =>
      unfold createUserSubscription
      dsimp only
      by_cases hup : trimSpace plan.upgradeGroup = ""
      · rw [if_pos hup]
        exact hwrite _ _ _ (.inr ⟨_, _, rfl, rfl, rfl, .inl ⟨.inl hup, rfl⟩⟩)
      rw [if_neg hup]
      refine alone_query (Q := Q) ?_ (hback _ _ _)
      by_cases hg : getUserGroupById (rules.applyAll [] s) v = trimSpace plan.upgradeGroup
      · rw [if_pos hg]
        exact hwrite _ _ _ (.inr ⟨_, _, rfl, rfl, rfl, .inl ⟨.inr hg, rfl⟩⟩)
      · rw [if_neg hg]
        refine alone_write (Q := Q) (hwrite _ _ _ ?_) (hback _ _ _)
        exact .inr ⟨_, _, rfl, rfl, rfl, .inr ⟨hup, rfl⟩⟩
  show Q _
  unfold purchase createUserSubscriptionFromPlanTx
  dsimp only
  split_ifs
  · exact hfail _ _
  · exact hfail _ _
  · refine alone_query (Q := Q) ?_ (hback _ _ _)
    split_ifs
    · exact hfail _ _
    · exact hcreate _
  · exact hcreate _

theorem max_key_ge (subs : List UserSubscription) {b : UserSubscription} (hb : b ∈ subs) :
    b.id < nextSubId subs := by
  unfold nextSubId
  induction subs with
  | nil => cases hb
  | cons a subs ih =>
    simp only [List.map_cons, List.foldr_cons]
    rcases List.mem_cons.mp hb with rfl | hb
    · omega
    · have := ih hb
      omega

theorem known_addSub (h : Known u s) (sub : UserSubscription) : Known u (addSub s sub) := by
  refine ⟨h.pos, h.user, List.nodup_cons.mpr ⟨fun hm ↦ ?_, h.keys⟩⟩
  obtain ⟨b, hb, he⟩ := List.mem_map.mp hm
  have hlt := max_key_ge s.subs hb
  dsimp only at he
  omega

theorem account_addSub_of_ne {sub : UserSubscription} (h : sub.userId ≠ u) :
    account u (addSub s sub) = account u s := by
  refine Account.ext rfl ?_
  simp [account, addSub, h]

theorem account_addSub_self {sub : UserSubscription} (h : sub.userId = u) :
    account u (addSub s sub) =
      ⟨(account u s).group, { sub with id := nextSubId s.subs } :: (account u s).subs⟩ := by
  refine Account.ext rfl ?_
  simp [account, addSub, h]

theorem Purchased.known (h : Known u s) {s' : Ledger} (hp : Purchased v s s') : Known u s' := by
  rcases hp with rfl | ⟨sub, _, rfl, _, _, ⟨_, rfl⟩ | ⟨_, rfl⟩⟩
  · exact h
  · exact known_addSub h sub
  · exact known_addSub (known_setGroup h _ _) sub

theorem Purchased.frame {s' : Ledger} (hp : Purchased v s s') (hv : v ≠ u) :
    account u s' = account u s := by
  rcases hp with rfl | ⟨sub, _, rfl, ho, _, ⟨_, rfl⟩ | ⟨_, rfl⟩⟩
  · rfl
  · exact account_addSub_of_ne (fun he ↦ hv (ho.symm.trans he))
  · rw [account_addSub_of_ne (fun he ↦ hv (ho.symm.trans he)), account_setGroup_of_ne hv]

/-- A user stays where they belong over a purchase of their own. -/
theorem Purchased.belongs (h : Known u s) {s' : Ledger} (hp : Purchased u s s') {base : String}
    (hb : Belongs base (upgraded (account u s).subs) (account u s).group) :
    Belongs base (upgraded (account u s').subs) (account u s').group := by
  rcases hp with rfl | ⟨sub, ledger, rfl, ho, hs, ⟨hg, rfl⟩ | ⟨hg, rfl⟩⟩
  · exact hb
  · rw [account_addSub_self ho]
    by_cases hempty : sub.upgradeGroup = ""
    · have hn : ¬ Upgrades { sub with id := nextSubId ledger.subs } := fun hu ↦ hu.2 hempty
      rwa [upgraded, List.filter_cons_of_neg (by simpa using hn)]
    · have hu : Upgrades { sub with id := nextSubId ledger.subs } := ⟨hs, hempty⟩
      rw [upgraded, List.filter_cons_of_pos (by simpa using hu), Belongs,
        if_neg (List.cons_ne_nil _ _)]
      exact ⟨_, List.mem_cons_self, (hg.resolve_left hempty).symm⟩
  · have hu : Upgrades { sub with id := nextSubId (setGroup s u sub.upgradeGroup).subs } := ⟨hs, hg⟩
    rw [account_addSub_self ho, account_setGroup_self h, upgraded,
      List.filter_cons_of_pos (by simpa using hu), Belongs, if_neg (List.cons_ne_nil _ _)]
    exact ⟨_, List.mem_cons_self, rfl⟩

end Purchase

section Runs

inductive Act
  | purchase (env : Env) (fails : List Bool) (userId : ℤ) (plan : SubscriptionPlan) (source : String)
  | expireDue (order : MapOrder ℤ) (fault : ℤ → Failures) (limit now : ℤ)
  | invalidate (f : Failures) (id now : ℤ)
  | delete (f : Failures) (id now : ℤ)

def Act.apply (s : Ledger) : Act → Ledger
  | .purchase env fails userId plan source =>
    (SubscriptionGroup.purchase env fails s userId plan source).2
  | .expireDue order fault limit now => (expireDueSubscriptions order fault s limit now).2
  | .invalidate f id now => (adminInvalidateUserSubscription f s id now).2
  | .delete f id now => (adminDeleteUserSubscription f s id now).2

/-- A point of a run, with the group the user had when no upgrade was active last. -/
structure Point where
  ledger : Ledger
  base : String

def nextBase (u : ℤ) (p : Point) : String :=
  if upgraded (account u p.ledger).subs = [] then (account u p.ledger).group else p.base

def step (u : ℤ) (p : Point) (a : Act) : Point := ⟨a.apply p.ledger, nextBase u p⟩

/-- The user is in the base group, or in the group of an active upgrade. -/
def Unwound (u : ℤ) (p : Point) : Prop :=
  Belongs p.base (upgraded (account u p.ledger).subs) (account u p.ledger).group

/-- What a step must find for the user's group to come out right: a purchase nothing,
the end of a subscription that the group the consulted row leads to is the base group,
or that of an upgrade which stays. -/
def Ok (u : ℤ) (p : Point) : Act → Prop
  | .purchase _ _ _ _ _ => True
  | .expireDue order fault limit now =>
    u ∈ expiredUsers order fault p.ledger limit now →
      Lands (nextBase u p) ((upgraded (account u p.ledger).subs).filter (¬ Due now ·))
        (account u p.ledger).group
        (lastExpired (fault u) ((account u p.ledger).subs.map (expire now)) u now)
  | .invalidate f id now | .delete f id now =>
    ∀ sub, Ends u f p.ledger id sub →
      Lands (nextBase u p) (others (account u p.ledger) id) (account u p.ledger).group
        (consulted f now (others (account u p.ledger) id) sub)

variable {u : ℤ} {p : Point} {a : Act}

theorem known_step (h : Known u p.ledger) (a : Act) : Known u (step u p a).ledger := by
  cases a with
  | purchase env fails v plan source => exact (purchase_cases env fails p.ledger v plan source).known h
  | expireDue order fault limit now => exact expireDue_known h order fault limit now
  | invalidate f id now => exact invalidate_known h f id now
  | delete f id now => exact delete_known h f id now

theorem known_run (h : Known u p.ledger) (trace : List Act) :
    Known u (run (step u) p trace).ledger := by
  induction trace generalizing p with
  | nil => exact h
  | cons a trace ih => exact ih (known_step h a)

/-- A user who belongs where they are still does relative to the next base group. -/
theorem Unwound.rebase (h : Unwound u p) :
    Belongs (nextBase u p) (upgraded (account u p.ledger).subs) (account u p.ledger).group := by
  unfold Unwound Belongs at h
  unfold nextBase Belongs
  by_cases hq : upgraded (account u p.ledger).subs = []
  · rw [if_pos hq, if_pos hq]
  · rw [if_neg hq] at h ⊢
    exact h

theorem Closed.belongs_iff {a b : Account} {active : List UserSubscription}
    {consulted : Option UserSubscription} (h : Closed a b active consulted) (base : String) :
    Belongs base (upgraded b.subs) b.group ↔ Lands base active a.group consulted := by
  rw [h.active, h.group, belongs_fallBack]

theorem unwound_step_iff (h : Known u p.ledger) (hu : Unwound u p) (a : Act) :
    Unwound u (step u p a) ↔ Ok u p a := by
  have hbase := hu.rebase
  cases a with
  | purchase env fails v plan source =>
    have hp := purchase_cases env fails p.ledger v plan source
    refine ⟨fun _ ↦ trivial, fun _ ↦ ?_⟩
    by_cases hv : v = u
    · subst hv
      exact hp.belongs h hbase
    · have hframe := hp.frame hv
      unfold Unwound step Act.apply
      rwa [hframe]
  | expireDue order fault limit now =>
    have ha := expireDue_account h order fault limit now
    unfold Unwound step Act.apply Ok
    dsimp only
    rw [ha]
    by_cases hm : u ∈ expiredUsers order fault p.ledger limit now
    · rw [if_pos hm, expireAccount, upgraded_expire, belongs_fallBack]
      exact ⟨fun hl _ ↦ hl, fun hl ↦ hl hm⟩
    · rw [if_neg hm]
      exact ⟨fun _ hn ↦ absurd hn hm, fun _ ↦ hbase⟩
  | invalidate f id now =>
    by_cases he : ∃ sub, Ends u f p.ledger id sub
    · obtain ⟨sub, he⟩ := he
      refine ((invalidate_closed h he).belongs_iff _).trans ⟨?_, fun hok ↦ hok sub he⟩
      rintro hl sub' he'
      rwa [← Option.some.inj (he.found.symm.trans he'.found)]
    · have hframe := invalidate_frame now h (not_exists.mp he)
      unfold Unwound step Act.apply
      rw [hframe]
      exact ⟨fun _ sub hs ↦ absurd ⟨sub, hs⟩ he, fun _ ↦ hbase⟩
  | delete f id now =>
    by_cases he : ∃ sub, Ends u f p.ledger id sub
    · obtain ⟨sub, he⟩ := he
      refine ((delete_closed h he).belongs_iff _).trans ⟨?_, fun hok ↦ hok sub he⟩
      rintro hl sub' he'
      rwa [← Option.some.inj (he.found.symm.trans he'.found)]
    · have hframe := delete_frame now h (not_exists.mp he)
      unfold Unwound step Act.apply
      rw [hframe]
      exact ⟨fun _ sub hs ↦ absurd ⟨sub, hs⟩ he, fun _ ↦ hbase⟩

def start (u : ℤ) (s : Ledger) : Point := ⟨s, (account u s).group⟩

/-- A user without subscriptions. -/
def newcomer : Ledger where
  redemptions := .empty
  topUps := .empty
  orders := .empty
  users := .single { id := 1 }
  plans := .empty
  subs := []

def clock (now : ℤ) : Env := ⟨now, 1, Rat.floor, (· + · * 31536000), (· + · * 2592000), .ticking⟩

/-- A plan of so many seconds with an upgrade group. -/
def groupPlan (id seconds : ℤ) (upgradeGroup : String) : SubscriptionPlan :=
  { id, durationUnit := "custom", customSeconds := seconds, upgradeGroup }

def buy (now : ℤ) (plan : SubscriptionPlan) : Act := .purchase (clock now) [] 1 plan "order"

def expireAt (now : ℤ) : Act := .expireDue .asListed (fun _ ↦ {}) 300 now

theorem newcomer_known : Known 1 newcomer := ⟨by decide, rfl, List.nodup_nil⟩

end Runs

end AllAiTools.NewApi.Model.GroupUnwinds
