import AllAiTools.NewApi.Service.Workspaces

namespace AllAiTools.NewApi.Service.Workspaces

open Foundation

section Owners

def roster (db : Db) (workspaceId : ℤ) : List WorkspaceMember :=
  db.members.rows.filter fun m ↦ m.workspaceId = workspaceId

/-- The one member with the role of an owner is the one the workspace names. -/
structure OneOwner (db : Db) (ws : Workspace) : Prop where
  one : ∃! m, m ∈ roster db ws.id ∧ m.role = workspaceRoleOwner
  named : ∀ m ∈ roster db ws.id, m.role = workspaceRoleOwner → m.userId = ws.ownerId

/-- What an operation that is under way has left unfinished in a workspace. -/
inductive Stage
  | fresh (ownerId : ℤ)
  | moving (oldOwnerId : ℤ) (newMember : WorkspaceMember)
  | lowering (oldMember newMember : WorkspaceMember)
  | raising (newMember : WorkspaceMember)

def Stage.newMember : Stage → Option WorkspaceMember
  | .fresh _ => none
  | .moving _ newMember => some newMember
  | .lowering _ newMember => some newMember
  | .raising newMember => some newMember

def Holds (members : List WorkspaceMember) (id userId : ℤ) : Prop :=
  ∃ m ∈ members, m.id = id ∧ m.userId = userId

theorem mem_roster {db : Db} {workspaceId : ℤ} {m : WorkspaceMember} :
    m ∈ roster db workspaceId ↔ m ∈ db.members.rows ∧ m.workspaceId = workspaceId := by
  rw [roster, List.mem_filter, decide_eq_true_iff]

/-- The owners among the members are the one given, if one is. -/
def OwnedBy (members : List WorkspaceMember) (userId : Option ℤ) : Prop :=
  ∀ m ∈ members, m.role = workspaceRoleOwner ↔ some m.userId = userId

def Settled (members : List WorkspaceMember) (ownerId : ℤ) : Prop :=
  OwnedBy members (some ownerId) ∧ ∃ m ∈ members, m.userId = ownerId

/-- What holds of a workspace while an operation on it is unfinished. -/
def Fits (members : List WorkspaceMember) (ownerId : ℤ) : Stage → Prop
  | .fresh owner => members = [] ∧ ownerId = owner
  | .moving old new => OwnedBy members (some old) ∧ (∃ m ∈ members, m.userId = old) ∧
      Holds members new.id new.userId ∧ ownerId = new.userId
  | .lowering old new => OwnedBy members (some old.userId) ∧ Holds members old.id old.userId ∧
      Holds members new.id new.userId ∧ ownerId = new.userId
  | .raising new => OwnedBy members none ∧ Holds members new.id new.userId ∧ ownerId = new.userId

theorem user_inj {db : Db} {workspaceId : ℤ} {m m' : WorkspaceMember}
    (hm : m ∈ roster db workspaceId) (hm' : m' ∈ roster db workspaceId) (h : m.userId = m'.userId) :
    m = m' := by
  obtain ⟨hrow, hw⟩ := mem_roster.mp hm
  obtain ⟨hrow', hw'⟩ := mem_roster.mp hm'
  refine List.inj_on_of_nodup_map db.placed hrow hrow' ?_
  rw [WorkspaceMember.place, WorkspaceMember.place, h, hw, hw']

theorem id_inj {db : Db} {m m' : WorkspaceMember} (hm : m ∈ db.members.rows)
    (hm' : m' ∈ db.members.rows) (h : m.id = m'.id) : m = m' :=
  List.inj_on_of_nodup_map db.members.nodup hm hm' h

theorem settled_iff {db : Db} {ws : Workspace} :
    OneOwner db ws ↔ Settled (roster db ws.id) ws.ownerId := by
  constructor
  · intro h
    obtain ⟨m, ⟨hm, hrole⟩, hone⟩ := h.one
    refine ⟨fun m' hm' ↦ ⟨fun hrole' ↦ congrArg some (h.named m' hm' hrole'), fun huser ↦ ?_⟩,
      m, hm, h.named m hm hrole⟩
    have hsame : m' = m := by
      refine user_inj hm' hm ?_
      rw [h.named m hm hrole]
      exact Option.some.inj huser
    rw [hsame]
    exact hrole
  · rintro ⟨howned, m, hm, huser⟩
    refine ⟨⟨m, ⟨hm, (howned m hm).mpr (congrArg some huser)⟩, ?_⟩, fun m' hm' hrole ↦
      Option.some.inj ((howned m' hm').mp hrole)⟩
    rintro m' ⟨hm', hrole⟩
    exact user_inj hm' hm ((Option.some.inj ((howned m' hm').mp hrole)).trans huser.symm)

/-- A member's row with another role, where it has the key `id`. -/
def withRole (id : ℤ) (role : String) (m : WorkspaceMember) : WorkspaceMember :=
  if m.id = id then { m with role := role } else m

theorem withRole_fields (id : ℤ) (role : String) (m : WorkspaceMember) :
    (withRole id role m).id = m.id ∧ (withRole id role m).workspaceId = m.workspaceId ∧
      (withRole id role m).userId = m.userId := by
  unfold withRole
  split_ifs <;> exact ⟨rfl, rfl, rfl⟩

theorem roster_updateRole (db : Db) {id : ℤ} (hid : id ≠ 0) (role : String) (workspaceId : ℤ) :
    roster (db.updateRole id role) workspaceId =
      (roster db workspaceId).map (withRole id role) := by
  have hrows : (db.updateRole id role).members.rows = db.members.rows.map (withRole id role) := by
    rw [Db.updateRole, if_neg hid]
    rfl
  rw [roster, roster, hrows, List.filter_map]
  refine congrArg (List.map (withRole id role)) (List.filter_congr fun m _ ↦ ?_)
  rw [Function.comp_apply]
  exact congrArg (fun w ↦ decide (w = workspaceId)) (withRole_fields id role m).2.1

theorem roster_deleteMember (db : Db) (id workspaceId : ℤ) :
    roster (db.deleteMember id) workspaceId =
      (roster db workspaceId).filter fun m ↦ m.id ≠ id := by
  have hrows : (db.deleteMember id).members.rows = db.members.rows.filter fun m ↦ m.id ≠ id := rfl
  rw [roster, roster, hrows, List.filter_filter, List.filter_filter]
  exact List.filter_congr fun m _ ↦ Bool.and_comm _ _

theorem Holds.map {members : List WorkspaceMember} {id userId : ℤ} (h : Holds members id userId)
    (k : ℤ) (role : String) : Holds (members.map (withRole k role)) id userId := by
  obtain ⟨m, hm, hid, huser⟩ := h
  obtain ⟨hid', _, huser'⟩ := withRole_fields k role m
  exact ⟨withRole k role m, List.mem_map_of_mem hm, hid'.trans hid, huser'.trans huser⟩

/-- A role that no owner loses and nobody gains. -/
theorem OwnedBy.map {members : List WorkspaceMember} {userId : Option ℤ} (h : OwnedBy members userId)
    {k : ℤ} {role : String} (hrole : role ≠ workspaceRoleOwner)
    (hspared : ∀ m ∈ members, m.id = k → m.role ≠ workspaceRoleOwner) :
    OwnedBy (members.map (withRole k role)) userId := by
  intro m' hm'
  obtain ⟨m, hm, rfl⟩ := List.mem_map.mp hm'
  rw [(withRole_fields k role m).2.2, ← h m hm]
  unfold withRole
  split_ifs with hid
  · exact iff_of_false hrole (hspared m hm hid)
  · exact Iff.rfl

/-- The one owner becomes an administrator. -/
theorem OwnedBy.lower {db : Db} {workspaceId id userId : ℤ}
    (h : OwnedBy (roster db workspaceId) (some userId)) (hold : Holds (roster db workspaceId) id userId) :
    OwnedBy ((roster db workspaceId).map (withRole id workspaceRoleAdmin)) none := by
  obtain ⟨owner, howner, hid, huser⟩ := hold
  intro m' hm'
  obtain ⟨m, hm, rfl⟩ := List.mem_map.mp hm'
  refine iff_of_false ?_ (by simp)
  unfold withRole
  split_ifs with hsame
  · exact (by decide : workspaceRoleAdmin ≠ workspaceRoleOwner)
  · intro hrole
    have hm' := Option.some.inj ((h m hm).mp hrole)
    have heq : m = owner := user_inj hm howner (hm'.trans huser.symm)
    exact hsame (heq ▸ hid)

/-- A member becomes the one owner where there is none. -/
theorem OwnedBy.raise {db : Db} {workspaceId id userId : ℤ}
    (h : OwnedBy (roster db workspaceId) none) (hnew : Holds (roster db workspaceId) id userId) :
    OwnedBy ((roster db workspaceId).map (withRole id workspaceRoleOwner)) (some userId) := by
  obtain ⟨owner, howner, hid, huser⟩ := hnew
  intro m' hm'
  obtain ⟨m, hm, rfl⟩ := List.mem_map.mp hm'
  rw [(withRole_fields id workspaceRoleOwner m).2.2]
  unfold withRole
  split_ifs with hsame
  · have heq : m = owner :=
      id_inj (mem_roster.mp hm).1 (mem_roster.mp howner).1 (hsame.trans hid.symm)
    exact iff_of_true rfl (congrArg some (heq ▸ huser))
  · refine iff_of_false (fun hrole ↦ ?_) fun hsome ↦ ?_
    · have hnone := (h m hm).mp hrole
      cases hnone
    · have heq : m = owner := user_inj hm howner ((Option.some.inj hsome).trans huser.symm)
      exact hsame (heq ▸ hid)

theorem Holds.filter {members : List WorkspaceMember} {id userId k : ℤ} (h : Holds members id userId)
    (hne : id ≠ k) : Holds (members.filter fun m ↦ m.id ≠ k) id userId := by
  obtain ⟨m, hm, hid, huser⟩ := h
  exact ⟨m, List.mem_filter.mpr ⟨hm, decide_eq_true (hid ▸ hne)⟩, hid, huser⟩

theorem OwnedBy.filter {members : List WorkspaceMember} {userId : Option ℤ}
    (h : OwnedBy members userId) (p : WorkspaceMember → Bool) : OwnedBy (members.filter p) userId :=
  fun m hm ↦ h m (List.mem_of_mem_filter hm)

/-- A change to a member that is spared keeps what holds of the workspace. -/
structure Spares (members members' : List WorkspaceMember) (id : ℤ) : Prop where
  owned : ∀ userId, OwnedBy members userId → OwnedBy members' userId
  holds : ∀ k userId, k ≠ id → Holds members k userId → Holds members' k userId
  empty : members = [] → members' = []

theorem spares_map {members : List WorkspaceMember} {id : ℤ} {role : String}
    (hrole : role ≠ workspaceRoleOwner)
    (hspared : ∀ m ∈ members, m.id = id → m.role ≠ workspaceRoleOwner) :
    Spares members (members.map (withRole id role)) id where
  owned _ h := h.map hrole hspared
  holds _ _ _ h := h.map id role
  empty h := by rw [h]; rfl

theorem spares_filter (members : List WorkspaceMember) (id : ℤ) :
    Spares members (members.filter fun m ↦ m.id ≠ id) id where
  owned _ h := h.filter _
  holds _ _ hne h := h.filter hne
  empty h := by rw [h]; rfl

/-- The owner is kept, as the member spared is none. -/
theorem Spares.owner {members members' : List WorkspaceMember} {id userId : ℤ}
    (h : Spares members members' id)
    (hspared : ∀ m ∈ members, m.id = id → m.role ≠ workspaceRoleOwner)
    (howned : OwnedBy members (some userId)) {m : WorkspaceMember} (hm : m ∈ members)
    (huser : m.userId = userId) : ∃ k, Holds members' k userId := by
  have hrole : m.role = workspaceRoleOwner := (howned m hm).mpr (congrArg some huser)
  have hne : m.id ≠ id := fun hid ↦ hspared m hm hid hrole
  exact ⟨m.id, h.holds m.id userId hne ⟨m, hm, rfl, huser⟩⟩

theorem Spares.settled {members members' : List WorkspaceMember} {id ownerId : ℤ}
    (h : Spares members members' id)
    (hspared : ∀ m ∈ members, m.id = id → m.role ≠ workspaceRoleOwner)
    (hsettled : Settled members ownerId) : Settled members' ownerId := by
  obtain ⟨howned, m, hm, huser⟩ := hsettled
  obtain ⟨_, m', hm', _, huser'⟩ := h.owner hspared howned hm huser
  exact ⟨h.owned _ howned, m', hm', huser'⟩

theorem Spares.fits {members members' : List WorkspaceMember} {id ownerId : ℤ} {st : Stage}
    (h : Spares members members' id)
    (hspared : ∀ m ∈ members, m.id = id → m.role ≠ workspaceRoleOwner)
    (hnew : ∀ m, st.newMember = some m → m.id ≠ id) (hfits : Fits members ownerId st) :
    Fits members' ownerId st := by
  cases st with
  | fresh owner => exact ⟨h.empty hfits.1, hfits.2⟩
  | moving old new =>
    obtain ⟨howned, ⟨m, hm, huser⟩, hholds, hid⟩ := hfits
    obtain ⟨_, m', hm', _, huser'⟩ := h.owner hspared howned hm huser
    exact ⟨h.owned _ howned, ⟨m', hm', huser'⟩, h.holds _ _ (hnew new rfl) hholds, hid⟩
  | lowering old new =>
    obtain ⟨howned, hold, hholds, hid⟩ := hfits
    obtain ⟨m, hm, hmid, huser⟩ := hold
    have hrole : m.role = workspaceRoleOwner := (howned m hm).mpr (congrArg some huser)
    have hne : old.id ≠ id := fun heq ↦ hspared m hm (hmid.trans heq) hrole
    exact ⟨h.owned _ howned, h.holds _ _ hne ⟨m, hm, hmid, huser⟩, h.holds _ _ (hnew new rfl) hholds,
      hid⟩
  | raising new =>
    obtain ⟨howned, hholds, hid⟩ := hfits
    exact ⟨h.owned _ howned, h.holds _ _ (hnew new rfl) hholds, hid⟩

end Owners

end AllAiTools.NewApi.Service.Workspaces
