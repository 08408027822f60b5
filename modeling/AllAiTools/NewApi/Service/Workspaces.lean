import AllAiTools.Foundation.Table

namespace AllAiTools.NewApi.Service.Workspaces

open Foundation

def workspaceRoleOwner : String := "owner"
def workspaceRoleAdmin : String := "admin"

section Storage

structure Workspace where
  id : ℤ
  name : String := ""
  slug : String
  description : String := ""
  ownerId : ℤ
  deriving DecidableEq

structure WorkspaceMember where
  id : ℤ := 0
  workspaceId : ℤ := 0
  userId : ℤ := 0
  role : String := ""
  deriving DecidableEq

structure WorkspaceInvitation where
  id : ℤ
  workspaceId : ℤ
  inviterId : ℤ
  email : String
  role : String
  token : String
  status : String
  expiresAt : ℤ
  deriving DecidableEq

def WorkspaceMember.place (m : WorkspaceMember) : ℤ × ℤ := (m.workspaceId, m.userId)

/-- The tables; `idx_ws_user` keeps the members of a workspace apart. -/
structure Db where
  workspaces : Table Workspace.id
  members : Table WorkspaceMember.id
  invitations : Table WorkspaceInvitation.id
  placed : (members.rows.map WorkspaceMember.place).Nodup

/-- Refused when the key or the slug is taken. -/
def Db.insertWorkspace (db : Db) (ws : Workspace) : Option Db :=
  if ws.slug ∈ db.workspaces.rows.map (·.slug) then none
  else (db.workspaces.insert ws).map fun workspaces ↦ { db with workspaces }

def Db.updateWorkspace (db : Db) (ws : Workspace) : Db :=
  { db with workspaces := db.workspaces.save ws }

def Db.insertMember (db : Db) (m : WorkspaceMember) : Option Db :=
  if h : m.place ∈ db.members.rows.map WorkspaceMember.place then none
  else
    match hinsert : db.members.insert m with
    | none => none
    | some members => some { db with
        members
        placed := by
          rw [(Table.insert_eq_some hinsert).2]
          exact List.nodup_cons.mpr ⟨h, db.placed⟩ }

/-- `WorkspaceMember.Update`; an update without a key is refused. -/
def Db.updateRole (db : Db) (id : ℤ) (role : String) : Db :=
  if id = 0 then db
  else { db with
    members := db.members.mapRows (fun m ↦ if m.id = id then { m with role := role } else m)
      fun m ↦ by split <;> rfl
    placed := by
      have hplace : WorkspaceMember.place ∘ (fun m : WorkspaceMember ↦
          if m.id = id then { m with role := role } else m) = WorkspaceMember.place := by
        funext m
        rw [Function.comp_apply]
        split <;> rfl
      rw [Table.mapRows, List.map_map, hplace]
      exact db.placed }

def Db.deleteMember (db : Db) (id : ℤ) : Db :=
  { db with
    members := db.members.remove id
    placed := db.placed.sublist (List.filter_sublist.map WorkspaceMember.place) }

def Db.insertInvitation (db : Db) (inv : WorkspaceInvitation) : Option Db :=
  if inv.token ∈ db.invitations.rows.map (·.token) then none
  else (db.invitations.insert inv).map fun invitations ↦ { db with invitations }

def Db.updateStatus (db : Db) (id : ℤ) (status : String) : Db :=
  { db with
    invitations := db.invitations.mapRows
      (fun inv ↦ if inv.id = id then { inv with status := status } else inv)
      fun inv ↦ by split <;> rfl }

/-- What a query hands back: a struct that is always there, as the query has filled it, and whether
there is an error. -/
structure Got (α : Type) where
  row : α
  err : Bool

def getWorkspaceMember (db : Db) (fails : Bool) (workspaceId userId : ℤ) : Got WorkspaceMember :=
  match if fails then none else db.members.rows.find? (·.place = (workspaceId, userId)) with
  | some m => ⟨m, false⟩
  | none => ⟨{}, true⟩

end Storage

section Operations

inductive Call
  | createWorkspace (name slug description : String) (ownerId : ℤ)
  | inviteMember (workspaceId inviterId : ℤ) (email role : String)
  | acceptInvitation (token : String) (userId : ℤ)
  | removeMember (workspaceId removerId targetUserId : ℤ)
  | updateMemberRole (workspaceId updaterId targetUserId : ℤ) (newRole : String)
  | transferOwnership (workspaceId currentOwnerId newOwnerId : ℤ)

/-- The statement an operation comes to next, with what it holds. -/
inductive Phase
  | start (call : Call)
  | createInsert (name slug description : String) (ownerId : ℤ)
  | createMember (workspaceId ownerId : ℤ)
  | inviteInsert (workspaceId inviterId : ℤ) (email role : String)
  | acceptExpired (inv : WorkspaceInvitation)
  | acceptExisting (inv : WorkspaceInvitation) (userId : ℤ)
  | acceptInsert (inv : WorkspaceInvitation) (userId : ℤ)
  | acceptUpdate (inv : WorkspaceInvitation)
  | removeTarget (remover : WorkspaceMember) (workspaceId targetUserId : ℤ)
  | removeDelete (target : WorkspaceMember)
  | updateTarget (workspaceId targetUserId : ℤ) (newRole : String)
  | updateWrite (target : WorkspaceMember) (newRole : String)
  | transferMember (ws : Workspace) (newOwnerId : ℤ)
  | transferWrite (ws : Workspace) (newMember : WorkspaceMember)
  | transferOld (ws : Workspace) (oldOwnerId : ℤ) (newMember : WorkspaceMember)
  | transferDown (ws : Workspace) (oldMember newMember : WorkspaceMember)
  | transferUp (ws : Workspace) (newMember : WorkspaceMember)

/-- What a statement meets: whether it fails, and the time, the count of keys and the text it would
be given. -/
structure Env where
  fails : Bool := false
  now : ℤ := 0
  keys : ℕ := 0
  text : String := ""

def Env.id (env : Env) : ℤ := env.keys + 1

/-- The tables after a statement, what the operation does next, if it goes on, and the invitation
that has added a member, if one has. -/
structure Outcome where
  db : Db
  next : Option Phase := none
  joined : Option ℤ := none

def start (env : Env) (db : Db) : Call → Outcome
  | .createWorkspace name slug description ownerId =>
    -- the pointer a query returns is never nil, whether it has found the slug or not
    if slug ≠ "" then ⟨db, none, none⟩
    else ⟨db, some (.createInsert name ("ws-" ++ env.text) description ownerId), none⟩
  | .inviteMember workspaceId inviterId email role =>
    let member := getWorkspaceMember db env.fails workspaceId inviterId
    if member.err then ⟨db, none, none⟩
    else if member.row.role ≠ workspaceRoleOwner ∧ member.row.role ≠ workspaceRoleAdmin then
      ⟨db, none, none⟩
    else ⟨db, some (.inviteInsert workspaceId inviterId email role), none⟩
  | .acceptInvitation token userId =>
    match if env.fails then none else db.invitations.rows.find? (·.token = token) with
    | none => ⟨db, none, none⟩
    | some inv =>
      if inv.status ≠ "pending" then ⟨db, none, none⟩
      else if inv.expiresAt < env.now then ⟨db, some (.acceptExpired inv), none⟩
      else ⟨db, some (.acceptExisting inv userId), none⟩
  | .removeMember workspaceId removerId targetUserId =>
    let remover := getWorkspaceMember db env.fails workspaceId removerId
    if remover.err then ⟨db, none, none⟩
    else ⟨db, some (.removeTarget remover.row workspaceId targetUserId), none⟩
  | .updateMemberRole workspaceId updaterId targetUserId newRole =>
    let updater := getWorkspaceMember db env.fails workspaceId updaterId
    if updater.err then ⟨db, none, none⟩
    else if updater.row.role ≠ workspaceRoleOwner then ⟨db, none, none⟩
    else ⟨db, some (.updateTarget workspaceId targetUserId newRole), none⟩
  | .transferOwnership workspaceId currentOwnerId newOwnerId =>
    match if env.fails ∨ workspaceId = 0 then none else db.workspaces.find workspaceId with
    | none => ⟨db, none, none⟩
    | some ws =>
      if ws.ownerId ≠ currentOwnerId then ⟨db, none, none⟩
      else ⟨db, some (.transferMember ws newOwnerId), none⟩

def proceed (env : Env) (db : Db) : Phase → Outcome
  | .start call => start env db call
  | .createInsert name slug description ownerId =>
    match if env.fails then none
        else db.insertWorkspace ⟨env.id, name, slug, description, ownerId⟩ with
    | none => ⟨db, none, none⟩
    | some db => ⟨db, some (.createMember env.id ownerId), none⟩
  | .createMember workspaceId ownerId =>
    match if env.fails then none
        else db.insertMember ⟨env.id, workspaceId, ownerId, workspaceRoleOwner⟩ with
    | none => ⟨db, none, none⟩
    | some db => ⟨db, none, none⟩
  | .inviteInsert workspaceId inviterId email role =>
    match if env.fails then none else db.insertInvitation
        ⟨env.id, workspaceId, inviterId, email, role, env.text, "pending", env.now + 7 * 24 * 3600⟩ with
    | none => ⟨db, none, none⟩
    | some db => ⟨db, none, none⟩
  | .acceptExpired inv => ⟨if env.fails then db else db.updateStatus inv.id "expired", none, none⟩
  | .acceptExisting inv userId =>
    -- the error is dropped, and the pointer is not nil when there is no such member
    let existing := some (getWorkspaceMember db env.fails inv.workspaceId userId).row
    if existing.isSome then ⟨db, some (.acceptUpdate inv), none⟩
    else ⟨db, some (.acceptInsert inv userId), none⟩
  | .acceptInsert inv userId =>
    match if env.fails then none
        else db.insertMember ⟨env.id, inv.workspaceId, userId, inv.role⟩ with
    | none => ⟨db, none, none⟩
    | some db => ⟨db, some (.acceptUpdate inv), some inv.id⟩
  | .acceptUpdate inv => ⟨if env.fails then db else db.updateStatus inv.id "accepted", none, none⟩
  | .removeTarget remover workspaceId targetUserId =>
    let target := getWorkspaceMember db env.fails workspaceId targetUserId
    if target.err then ⟨db, none, none⟩
    else if target.row.role = workspaceRoleOwner then ⟨db, none, none⟩
    else if remover.role ≠ workspaceRoleOwner ∧ remover.role ≠ workspaceRoleAdmin then
      ⟨db, none, none⟩
    else ⟨db, some (.removeDelete target.row), none⟩
  | .removeDelete target => ⟨if env.fails then db else db.deleteMember target.id, none, none⟩
  | .updateTarget workspaceId targetUserId newRole =>
    let target := getWorkspaceMember db env.fails workspaceId targetUserId
    if target.err then ⟨db, none, none⟩
    else if target.row.role = workspaceRoleOwner then ⟨db, none, none⟩
    else if newRole = workspaceRoleOwner then ⟨db, none, none⟩
    else ⟨db, some (.updateWrite target.row newRole), none⟩
  | .updateWrite target newRole =>
    ⟨if env.fails then db else db.updateRole target.id newRole, none, none⟩
  | .transferMember ws newOwnerId =>
    let newMember := getWorkspaceMember db env.fails ws.id newOwnerId
    if newMember.err then ⟨db, none, none⟩ else ⟨db, some (.transferWrite ws newMember.row), none⟩
  | .transferWrite ws newMember =>
    if env.fails then ⟨db, none, none⟩
    else ⟨db.updateWorkspace { ws with ownerId := newMember.userId },
      some (.transferOld ws ws.ownerId newMember), none⟩
  | .transferOld ws oldOwnerId newMember =>
    -- an error leaves an empty struct to downgrade
    ⟨db, some (.transferDown ws (getWorkspaceMember db env.fails ws.id oldOwnerId).row newMember), none⟩
  | .transferDown ws oldMember newMember =>
    ⟨if env.fails then db else db.updateRole oldMember.id workspaceRoleAdmin,
      some (.transferUp ws newMember), none⟩
  | .transferUp _ newMember =>
    ⟨if env.fails then db else db.updateRole newMember.id workspaceRoleOwner, none, none⟩

/-- The tables, the operations that are under way and the invitations that have added a member. -/
structure State where
  db : Db
  ops : ℕ → Option Phase := fun _ ↦ none
  joined : List ℤ := []

inductive Label
  | call (op : ℕ) (call : Call)
  | statement (op : ℕ) (env : Env)

def step (s : State) : Label → State
  | .call op call =>
    if (s.ops op).isSome then s
    else { s with ops := Function.update s.ops op (some (.start call)) }
  | .statement op env =>
    match s.ops op with
    | none => s
    | some phase =>
      let out := proceed env s.db phase
      ⟨out.db, Function.update s.ops op out.next, s.joined ++ out.joined.toList⟩

end Operations

end AllAiTools.NewApi.Service.Workspaces
