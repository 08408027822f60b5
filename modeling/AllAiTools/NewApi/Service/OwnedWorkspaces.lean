import AllAiTools.Foundation.Run
import AllAiTools.NewApi.Service.WorkspaceRosters

namespace AllAiTools.NewApi.Service.OwnedWorkspaces

open Foundation Foundation.Run Workspaces

section Property

structure InOrder (s : State) : Prop where
  owned : ∀ ws ∈ s.db.workspaces.rows, OneOwner s.db ws
  once : (s.db.members.rows.map WorkspaceMember.place).Nodup
  joined : ∀ inv, s.joined.count inv ≤ 1

/-- No operation is under way. -/
def Between (s : State) : Prop := ∀ op, s.ops op = none

/-- Tables to begin with: members are of workspaces that exist, and each has its owner. -/
structure Start where
  db : Db
  owned : ∀ ws ∈ db.workspaces.rows, OneOwner db ws
  homes : ∀ m ∈ db.members.rows, (db.workspaces.find m.workspaceId).isSome
  keys : ∀ m ∈ db.members.rows, m.id ≠ 0

end Property

section Condition

def stage : Phase → Option (ℤ × Stage)
  | .createMember workspaceId ownerId => some (workspaceId, .fresh ownerId)
  | .transferOld ws oldOwnerId newMember => some (ws.id, .moving oldOwnerId newMember)
  | .transferDown ws oldMember newMember => some (ws.id, .lowering oldMember newMember)
  | .transferUp ws newMember => some (ws.id, .raising newMember)
  | _ => none

/-- The operation `op` has left something unfinished in a workspace. -/
def Staged (s : State) (op : ℕ) (workspaceId : ℤ) (st : Stage) : Prop :=
  ∃ phase, s.ops op = some phase ∧ stage phase = some (workspaceId, st)

/-- The member is no owner, and is not about to become one. -/
def Spared (s : State) (id : ℤ) : Prop :=
  (∀ m ∈ s.db.members.rows, m.id = id → m.role ≠ workspaceRoleOwner) ∧
    ∀ op workspaceId st, Staged s op workspaceId st → ∀ m, st.newMember = some m → m.id ≠ id

/-- The statement an operation comes to does what it is for: the owner of a new workspace is added
under a new key, a transfer starts from the rows as they are stored and with no other unfinished, and
goes through, and no owner is removed or given another role meanwhile. -/
def Safe (s : State) : Label → Prop
  | .call _ _ => True
  | .statement op env =>
    match s.ops op with
    | some (.createMember _ _) => env.fails = false ∧ s.db.members.find env.id = none
    | some (.removeDelete target) => env.fails = false → Spared s target.id
    | some (.updateWrite target _) => env.fails = false → Spared s target.id
    | some (.transferWrite ws newMember) => env.fails = false →
      (∃ stored, s.db.workspaces.find ws.id = some stored ∧ stored.ownerId = ws.ownerId) ∧
        Holds (roster s.db ws.id) newMember.id newMember.userId ∧
        ∀ other st, ¬ Staged s other ws.id st
    | some (.transferOld _ _ _) => env.fails = false
    | some (.transferDown _ _ _) => env.fails = false
    | some (.transferUp _ _) => env.fails = false
    | _ => True

end Condition

section Invariant

/-- What an operation holds in memory. -/
def Held : Phase → Prop
  | .acceptInsert _ _ => False
  | .updateWrite _ newRole => newRole ≠ workspaceRoleOwner
  | _ => True

/-- A workspace is as the operation on it that is unfinished has left it, or in order. -/
structure WorkspaceInv (s : State) (ws : Workspace) : Prop where
  fits : ∀ op st, Staged s op ws.id st → Fits (roster s.db ws.id) ws.ownerId st
  settled : (∀ op st, ¬ Staged s op ws.id st) → Settled (roster s.db ws.id) ws.ownerId

structure Inv (s : State) : Prop where
  each : ∀ ws ∈ s.db.workspaces.rows, WorkspaceInv s ws
  alone : ∀ {op op' w st st'}, Staged s op w st → Staged s op' w st' → op = op'
  exist : ∀ {op w st}, Staged s op w st → (s.db.workspaces.find w).isSome
  held : ∀ op phase, s.ops op = some phase → Held phase
  homes : ∀ m ∈ s.db.members.rows, (s.db.workspaces.find m.workspaceId).isSome
  keys : ∀ m ∈ s.db.members.rows, m.id ≠ 0
  joined : s.joined = []

/-- The state after a statement of `op`. -/
def after (s : State) (op : ℕ) (db : Db) (next : Option Phase) : State :=
  { s with db := db, ops := Function.update s.ops op next }

theorem staged_after {s : State} {op : ℕ} {db : Db} {next : Option Phase} {other : ℕ} {w : ℤ}
    {st : Stage} : Staged (after s op db next) other w st ↔
      if other = op then next.bind stage = some (w, st) else Staged s other w st := by
  unfold Staged after
  dsimp only
  rw [Function.update_apply]
  split_ifs
  · exact Option.bind_eq_some_iff.symm
  · exact Iff.rfl

theorem staged_self {s : State} {op : ℕ} {phase : Phase} (hop : s.ops op = some phase) {w : ℤ}
    {st : Stage} : Staged s op w st ↔ stage phase = some (w, st) := by
  unfold Staged
  rw [hop]
  exact ⟨fun ⟨_, hphase, hst⟩ ↦ (Option.some.inj hphase) ▸ hst, fun hst ↦ ⟨phase, rfl, hst⟩⟩

theorem held_after {s : State} (h : Inv s) {op : ℕ} {db : Db} {next : Option Phase}
    (hnext : ∀ phase, next = some phase → Held phase) :
    ∀ other phase, (after s op db next).ops other = some phase → Held phase := by
  intro other phase hother
  dsimp only [after] at hother
  rw [Function.update_apply] at hother
  split_ifs at hother
  · exact hnext phase hother
  · exact h.held other phase hother

/-- A statement that leaves unfinished what was, and changes no workspace. -/
theorem Inv.keep {s : State} (h : Inv s) {op : ℕ} {db : Db} {next : Option Phase}
    (hstage : ∀ w st, next.bind stage = some (w, st) ↔ Staged s op w st)
    (hnext : ∀ phase, next = some phase → Held phase)
    (hworkspaces : db.workspaces = s.db.workspaces)
    (hfits : ∀ w ownerId st, (∃ op, Staged s op w st) → Fits (roster s.db w) ownerId st →
      Fits (roster db w) ownerId st)
    (hsettled : ∀ w ownerId, Settled (roster s.db w) ownerId → Settled (roster db w) ownerId)
    (hmembers : ∀ m ∈ db.members.rows, ∃ old ∈ s.db.members.rows,
      m.id = old.id ∧ m.workspaceId = old.workspaceId) : Inv (after s op db next) := by
  have hstaged : ∀ other w st, Staged (after s op db next) other w st ↔ Staged s other w st := by
    intro other w st
    rw [staged_after]
    split_ifs with hother
    · rw [hother, hstage]
    · exact Iff.rfl
  refine ⟨fun ws hws ↦ ⟨fun other st hst ↦ ?_, fun hnone ↦ ?_⟩, fun hst hst' ↦ ?_, fun hst ↦ ?_,
    held_after h hnext, fun m hm ↦ ?_, fun m hm ↦ ?_, h.joined⟩
  · have hold := (hstaged other ws.id st).mp hst
    exact hfits ws.id ws.ownerId st ⟨other, hold⟩
      ((h.each ws (hworkspaces ▸ hws)).fits other st hold)
  · exact hsettled ws.id ws.ownerId ((h.each ws (hworkspaces ▸ hws)).settled fun other st hst ↦
      hnone other st ((hstaged other ws.id st).mpr hst))
  · exact h.alone ((hstaged _ _ _).mp hst) ((hstaged _ _ _).mp hst')
  · have hexists := h.exist ((hstaged _ _ _).mp hst)
    exact hworkspaces ▸ hexists
  · obtain ⟨old, hold, _, hw⟩ := hmembers m hm
    rw [hw]
    exact hworkspaces ▸ h.homes old hold
  · obtain ⟨old, hold, hid, _⟩ := hmembers m hm
    rw [hid]
    exact h.keys old hold

/-- A statement that leaves another thing unfinished in one workspace, or nothing any more. -/
theorem Inv.move {s : State} (h : Inv s) {op : ℕ} {phase : Phase} (hop : s.ops op = some phase)
    {db : Db} {next : Option Phase} (w : ℤ)
    (hphase : ∀ w' st, stage phase = some (w', st) → w' = w)
    (hstage : ∀ w' st, next.bind stage = some (w', st) → w' = w)
    (halone : ∀ other st, other ≠ op → ¬ Staged s other w st)
    (hnext : ∀ phase, next = some phase → Held phase)
    (hrows : ∀ ws ∈ db.workspaces.rows, ws.id ≠ w → ws ∈ s.db.workspaces.rows)
    (hexist : ∀ w', (s.db.workspaces.find w').isSome → (db.workspaces.find w').isSome)
    (hroster : ∀ w', w' ≠ w → roster db w' = roster s.db w')
    (hfits : ∀ ws ∈ db.workspaces.rows, ws.id = w → ∀ st, next.bind stage = some (w, st) →
      Fits (roster db w) ws.ownerId st)
    (hsettled : ∀ ws ∈ db.workspaces.rows, ws.id = w → next.bind stage = none →
      Settled (roster db w) ws.ownerId)
    (hself : next.bind stage ≠ none → (db.workspaces.find w).isSome)
    (hhomes : ∀ m ∈ db.members.rows, (db.workspaces.find m.workspaceId).isSome)
    (hkeys : ∀ m ∈ db.members.rows, m.id ≠ 0) : Inv (after s op db next) := by
  have helse : ∀ w' st other, w' ≠ w → (Staged (after s op db next) other w' st ↔
      Staged s other w' st) := by
    intro w' st other hne
    rw [staged_after]
    split_ifs with hother
    · rw [hother, staged_self hop]
      exact iff_of_false (fun hst ↦ hne (hstage w' st hst)) fun hst ↦ hne (hphase w' st hst)
    · exact Iff.rfl
  have hhere : ∀ st other, Staged (after s op db next) other w st →
      other = op ∧ next.bind stage = some (w, st) := by
    intro st other hst
    rw [staged_after] at hst
    split_ifs at hst with hother
    · exact ⟨hother, hst⟩
    · exact absurd hst (halone other st hother)
  refine ⟨fun ws hws ↦ ?_, fun {other other' w' st st'} hst hst' ↦ ?_, fun {other w' st} hst ↦ ?_,
    held_after h hnext, hhomes, hkeys, h.joined⟩
  · by_cases hw : ws.id = w
    · refine ⟨fun other st hst ↦ ?_, fun hnone ↦ ?_⟩
      · rw [hw] at hst ⊢
        exact hfits ws hws hw st (hhere st other hst).2
      · rw [hw] at hnone ⊢
        refine hsettled ws hws hw ?_
        by_contra hsome
        obtain ⟨⟨w', st⟩, hst⟩ := Option.ne_none_iff_exists'.mp hsome
        have hw' := hstage w' st hst
        refine hnone op st (staged_after.mpr ?_)
        rw [if_pos rfl, hst, hw']
    · have hold := h.each ws (hrows ws hws hw)
      refine ⟨fun other st hst ↦ ?_, fun hnone ↦ ?_⟩
      · rw [after, hroster ws.id hw]
        exact hold.fits other st ((helse ws.id st other hw).mp hst)
      · rw [after, hroster ws.id hw]
        exact hold.settled fun other st hst ↦ hnone other st ((helse ws.id st other hw).mpr hst)
  · by_cases hw : w' = w
    · rw [hw] at hst hst'
      rw [(hhere st other hst).1, (hhere st' other' hst').1]
    · exact h.alone ((helse w' st other hw).mp hst) ((helse w' st' other' hw).mp hst')
  · by_cases hw : w' = w
    · rw [hw] at hst ⊢
      refine hself ?_
      rw [(hhere st other hst).2]
      exact Option.some_ne_none _
    · exact hexist w' (h.exist ((helse w' st other hw).mp hst))

end Invariant

section Steps

variable {s : State} {op : ℕ} {phase : Phase}

/-- A statement that changes no member and no workspace, and leaves nothing unfinished. -/
structure Quiet (db : Db) (out : Outcome) : Prop where
  members : out.db.members = db.members
  workspaces : out.db.workspaces = db.workspaces
  joined : out.joined = none
  next : ∀ N, out.next = some N → stage N = none ∧ Held N

theorem Quiet.done (db : Db) : Quiet db ⟨db, none, none⟩ :=
  ⟨rfl, rfl, rfl, fun _ hN ↦ by cases hN⟩

theorem Quiet.goes (db : Db) {N : Phase} (hstage : stage N = none) (hheld : Held N) :
    Quiet db ⟨db, some N, none⟩ :=
  ⟨rfl, rfl, rfl, fun _ hN ↦ Option.some.inj hN ▸ ⟨hstage, hheld⟩⟩

theorem Inv.quiet (h : Inv s) (hop : s.ops op = some phase) (hstage : stage phase = none)
    {out : Outcome} (hout : Quiet s.db out) : Inv (after s op out.db out.next) := by
  have hroster : ∀ w, roster out.db w = roster s.db w := fun w ↦ by
    rw [roster, roster, hout.members]
  have hnone : out.next.bind stage = none := by
    cases hnext : out.next with
    | none => rfl
    | some N => exact (hout.next N hnext).1
  refine h.keep ?_ (fun N hN ↦ (hout.next N hN).2) hout.workspaces ?_ ?_ ?_
  · intro w st
    rw [hnone, staged_self hop, hstage]
  · intro w ownerId st _ hfits
    rw [hroster]
    exact hfits
  · intro w ownerId hsettled
    rw [hroster]
    exact hsettled
  · intro m hm
    exact ⟨m, hout.members ▸ hm, rfl, rfl⟩

theorem start_quiet (env : Env) (db : Db) (c : Call) : Quiet db (start env db c) := by
  unfold start
  cases c with
  | createWorkspace name slug description ownerId =>
    dsimp only
    split_ifs
    · exact .done db
    · exact .goes db rfl trivial
  | inviteMember workspaceId inviterId email role =>
    dsimp only
    split_ifs
    · exact .done db
    · exact .done db
    · exact .goes db rfl trivial
  | acceptInvitation token userId =>
    dsimp only
    split
    · exact .done db
    · split_ifs
      · exact .done db
      · exact .goes db rfl trivial
      · exact .goes db rfl trivial
  | removeMember workspaceId removerId targetUserId =>
    dsimp only
    split_ifs
    · exact .done db
    · exact .goes db rfl trivial
  | updateMemberRole workspaceId updaterId targetUserId newRole =>
    dsimp only
    split_ifs
    · exact .done db
    · exact .done db
    · exact .goes db rfl trivial
  | transferOwnership workspaceId currentOwnerId newOwnerId =>
    dsimp only
    split
    · exact .done db
    · split_ifs
      · exact .done db
      · exact .goes db rfl trivial

/-- A member that is spared is removed or given another role. -/
theorem Inv.spare (h : Inv s) (hop : s.ops op = some phase) (hstage : stage phase = none) {db : Db}
    {id : ℤ} (hspared : Spared s id) (hworkspaces : db.workspaces = s.db.workspaces)
    (hspares : ∀ w, (∀ m ∈ roster s.db w, m.id = id → m.role ≠ workspaceRoleOwner) →
      Spares (roster s.db w) (roster db w) id)
    (hmembers : ∀ m ∈ db.members.rows, ∃ old ∈ s.db.members.rows,
      m.id = old.id ∧ m.workspaceId = old.workspaceId) : Inv (after s op db none) := by
  have hroles : ∀ w, ∀ m ∈ roster s.db w, m.id = id → m.role ≠ workspaceRoleOwner :=
    fun w m hm ↦ hspared.1 m (mem_roster.mp hm).1
  refine h.keep ?_ (fun N hN ↦ by cases hN) hworkspaces ?_ ?_ hmembers
  · intro w st
    rw [staged_self hop, hstage]
    rfl
  · rintro w ownerId st ⟨other, hst⟩ hfits
    exact (hspares w (hroles w)).fits (hroles w) (hspared.2 other w st hst) hfits
  · intro w ownerId hsettled
    exact (hspares w (hroles w)).settled (hroles w) hsettled

theorem members_updateRole (db : Db) (id : ℤ) (role : String) :
    ∀ m ∈ (db.updateRole id role).members.rows, ∃ old ∈ db.members.rows,
      m.id = old.id ∧ m.workspaceId = old.workspaceId := by
  intro m hm
  unfold Db.updateRole at hm
  split_ifs at hm
  · exact ⟨m, hm, rfl, rfl⟩
  · obtain ⟨old, hold, rfl⟩ := List.mem_map.mp hm
    obtain ⟨hid, hw, _⟩ := withRole_fields id role old
    exact ⟨old, hold, hid, hw⟩

theorem workspaces_updateRole (db : Db) (id : ℤ) (role : String) :
    (db.updateRole id role).workspaces = db.workspaces := by
  unfold Db.updateRole
  split_ifs <;> rfl

theorem getWorkspaceMember_found {db : Db} {fails : Bool} {w userId : ℤ}
    (h : (getWorkspaceMember db fails w userId).err = false) :
    (getWorkspaceMember db fails w userId).row ∈ roster db w ∧
      (getWorkspaceMember db fails w userId).row.userId = userId := by
  unfold getWorkspaceMember at h ⊢
  cases hfind : (if fails then none else db.members.rows.find? (·.place = (w, userId))) with
  | none =>
    rw [hfind] at h
    cases h
  | some m =>
    split_ifs at hfind
    have hplace : m.place = (w, userId) := by simpa using List.find?_some hfind
    obtain ⟨hw, huser⟩ := Prod.mk.inj hplace
    exact ⟨mem_roster.mpr ⟨List.mem_of_find?_eq_some hfind, hw⟩, huser⟩

theorem getWorkspaceMember_of_mem {db : Db} {w userId : ℤ} {m : WorkspaceMember}
    (hm : m ∈ roster db w) (huser : m.userId = userId) :
    (getWorkspaceMember db false w userId).err = false := by
  obtain ⟨hrow, hw⟩ := mem_roster.mp hm
  unfold getWorkspaceMember
  cases hfind : db.members.rows.find? (·.place = (w, userId)) with
  | none =>
    have hnot := List.find?_eq_none.mp hfind m hrow
    simp [WorkspaceMember.place, hw, huser] at hnot
  | some found => rfl

theorem insertWorkspace_some {db db' : Db} {ws : Workspace} (h : db.insertWorkspace ws = some db') :
    ∃ workspaces, db.workspaces.insert ws = some workspaces ∧ db' = { db with workspaces } := by
  unfold Db.insertWorkspace at h
  split_ifs at h
  obtain ⟨workspaces, hinsert, rfl⟩ := Option.map_eq_some_iff.mp h
  exact ⟨workspaces, hinsert, rfl⟩

theorem insertMember_some {db : Db} {m : WorkspaceMember} (hid : db.members.find m.id = none)
    (hplace : m.place ∉ db.members.rows.map WorkspaceMember.place) :
    ∃ db', db.insertMember m = some db' ∧ db'.workspaces = db.workspaces ∧
      db'.members.rows = m :: db.members.rows := by
  obtain ⟨members, hinsert⟩ := Table.insert_of_find_none hid
  unfold Db.insertMember
  rw [dif_neg hplace]
  split
  · rename_i hnone
    rw [hinsert] at hnone
    cases hnone
  · rename_i members' hsome
    exact ⟨_, rfl, rfl, (Table.insert_eq_some hsome).2⟩

/-- A new workspace has no members yet. -/
theorem Inv.createInsert (h : Inv s) {env : Env} {name slug description : String} {ownerId : ℤ}
    (hop : s.ops op = some (.createInsert name slug description ownerId)) {db : Db}
    (hdb : s.db.insertWorkspace ⟨env.id, name, slug, description, ownerId⟩ = some db) :
    Inv (after s op db (some (.createMember env.id ownerId))) := by
  obtain ⟨workspaces, hinsert, rfl⟩ := insertWorkspace_some hdb
  obtain ⟨hnone, hrows⟩ := Table.insert_eq_some hinsert
  have hfind := Table.find_insert hinsert
  have hkept : ∀ w, (s.db.workspaces.find w).isSome → (workspaces.find w).isSome := by
    intro w hw
    rw [hfind w]
    split_ifs
    · rfl
    · exact hw
  have hempty : roster s.db env.id = [] := by
    refine List.eq_nil_iff_forall_not_mem.mpr fun m hm ↦ ?_
    obtain ⟨hrow, hw⟩ := mem_roster.mp hm
    have hhome := h.homes m hrow
    rw [hw, hnone] at hhome
    cases hhome
  refine h.move hop env.id (fun _ _ hst ↦ by cases hst) (fun w st hst ↦ by cases hst; rfl) ?_
    (fun N hN ↦ by cases hN; trivial) ?_ hkept (fun _ _ ↦ rfl) ?_ (fun _ _ _ hst ↦ by cases hst) ?_
    (fun m hm ↦ hkept _ (h.homes m hm)) h.keys
  · intro other st _ hst
    have hexists := h.exist hst
    rw [hnone] at hexists
    cases hexists
  · intro ws hws hne
    dsimp only at hws
    rw [hrows] at hws
    rcases List.mem_cons.mp hws with rfl | hold
    · exact absurd rfl hne
    · exact hold
  · intro ws hws hid st hst
    cases hst
    refine ⟨hempty, ?_⟩
    have hself := Table.find_of_mem hws
    dsimp only at hself
    rw [hid, hfind, if_pos rfl] at hself
    rw [← Option.some.inj hself]
  · intro _
    rw [hfind, if_pos rfl]
    rfl

/-- The owner is the first member. -/
theorem Inv.createMember (h : Inv s) {env : Env} {w ownerId : ℤ}
    (hop : s.ops op = some (.createMember w ownerId)) (hid : s.db.members.find env.id = none) :
    ∃ db, s.db.insertMember ⟨env.id, w, ownerId, workspaceRoleOwner⟩ = some db ∧
      Inv (after s op db none) := by
  have hstaged : Staged s op w (.fresh ownerId) := (staged_self hop).mpr rfl
  obtain ⟨ws, hws⟩ := Option.isSome_iff_exists.mp (h.exist hstaged)
  have hkey : ws.id = w := Table.find_key hws
  obtain ⟨hempty, howner⟩ : Fits (roster s.db ws.id) ws.ownerId (.fresh ownerId) :=
    (h.each ws (Table.find_mem hws)).fits op _ (by rw [hkey]; exact hstaged)
  rw [hkey] at hempty
  have hplace : (w, ownerId) ∉ s.db.members.rows.map WorkspaceMember.place := by
    intro hmem
    obtain ⟨m, hm, hmplace⟩ := List.mem_map.mp hmem
    have hin : m ∈ roster s.db w := mem_roster.mpr ⟨hm, (Prod.mk.inj hmplace).1⟩
    rw [hempty] at hin
    cases hin
  let m : WorkspaceMember := ⟨env.id, w, ownerId, workspaceRoleOwner⟩
  obtain ⟨db, hdb, hworkspaces, hrows⟩ := insertMember_some (m := m) hid hplace
  have hroster : ∀ w', roster db w' = if w = w' then m :: roster s.db w' else roster s.db w' := by
    intro w'
    rw [roster, hrows, List.filter_cons]
    by_cases hw : w = w'
    · rw [if_pos hw, if_pos (decide_eq_true hw)]
      rfl
    · rw [if_neg hw, if_neg (by simpa using hw)]
      rfl
  refine ⟨db, hdb, h.move hop w (fun _ _ hst ↦ by cases hst; rfl) (fun _ _ hst ↦ by cases hst) ?_
    (fun _ hN ↦ by cases hN) (fun ws hws _ ↦ hworkspaces ▸ hws) (fun w' hw' ↦ hworkspaces ▸ hw') ?_
    (fun _ _ _ _ hst ↦ by cases hst) ?_ (fun hnext ↦ absurd rfl hnext) ?_ ?_⟩
  · exact fun other st hne hst ↦ hne (h.alone hst hstaged)
  · intro w' hne
    rw [hroster, if_neg (Ne.symm hne)]
  · intro ws' hws' hid' _
    rw [hroster, if_pos rfl, hempty]
    rw [hworkspaces] at hws'
    have hsame := Table.find_of_mem hws'
    rw [hid', hws] at hsame
    cases hsame
    rw [howner]
    refine ⟨?_, m, List.mem_cons_self, rfl⟩
    intro m' hm'
    rw [List.mem_singleton.mp hm']
    exact iff_of_true rfl rfl
  · rw [hrows, hworkspaces]
    exact List.forall_mem_cons.mpr ⟨h.exist hstaged, h.homes⟩
  · rw [hrows]
    refine List.forall_mem_cons.mpr ⟨?_, h.keys⟩
    have hpos : (m.id : ℤ) = env.keys + 1 := rfl
    omega

/-- An operation goes on with what it has left unfinished. -/
theorem Inv.advance (h : Inv s) (hop : s.ops op = some phase) {w : ℤ} {st : Stage}
    (hstage : stage phase = some (w, st)) {db : Db} {next : Option Phase}
    (hnext : ∀ w' st', next.bind stage = some (w', st') → w' = w)
    (hheld : ∀ N, next = some N → Held N) (hworkspaces : db.workspaces = s.db.workspaces)
    (hroster : ∀ w', w' ≠ w → roster db w' = roster s.db w')
    (hmembers : ∀ m ∈ db.members.rows, ∃ old ∈ s.db.members.rows,
      m.id = old.id ∧ m.workspaceId = old.workspaceId)
    (hfits : ∀ ownerId st', Fits (roster s.db w) ownerId st → next.bind stage = some (w, st') →
      Fits (roster db w) ownerId st')
    (hsettled : ∀ ownerId, Fits (roster s.db w) ownerId st → next.bind stage = none →
      Settled (roster db w) ownerId) : Inv (after s op db next) := by
  have hstaged : Staged s op w st := (staged_self hop).mpr hstage
  have hold : ∀ ws ∈ db.workspaces.rows, ws.id = w → Fits (roster s.db w) ws.ownerId st := by
    intro ws hws hid
    have hfit := (h.each ws (hworkspaces ▸ hws)).fits op st (hid ▸ hstaged)
    rw [hid] at hfit
    exact hfit
  refine h.move hop w (fun _ _ hst ↦ ?_) hnext ?_ hheld (fun ws hws _ ↦ hworkspaces ▸ hws)
    (fun w' hw' ↦ hworkspaces ▸ hw') hroster (fun ws hws hid st' ↦ hfits _ _ (hold ws hws hid))
    (fun ws hws hid ↦ hsettled _ (hold ws hws hid)) (fun _ ↦ hworkspaces ▸ h.exist hstaged) ?_ ?_
  · rw [hstage] at hst
    cases hst
    rfl
  · exact fun other st' hne hst ↦ hne (h.alone hst hstaged)
  · intro m hm
    obtain ⟨old, hmem, _, hw⟩ := hmembers m hm
    rw [hw]
    exact hworkspaces ▸ h.homes old hmem
  · intro m hm
    obtain ⟨old, hmem, hid, _⟩ := hmembers m hm
    rw [hid]
    exact h.keys old hmem

/-- The workspace names its new owner before the roles follow. -/
theorem Inv.transferWrite (h : Inv s) {ws stored : Workspace} {newMember : WorkspaceMember}
    (hop : s.ops op = some (.transferWrite ws newMember))
    (hstored : s.db.workspaces.find ws.id = some stored) (howner : stored.ownerId = ws.ownerId)
    (hholds : Holds (roster s.db ws.id) newMember.id newMember.userId)
    (halone : ∀ other st, ¬ Staged s other ws.id st) :
    Inv (after s op (s.db.updateWorkspace { ws with ownerId := newMember.userId })
      (some (.transferOld ws ws.ownerId newMember))) := by
  have hkey : stored.id = ws.id := Table.find_key hstored
  obtain ⟨howned, hmember⟩ : Settled (roster s.db ws.id) ws.ownerId := by
    have hsettled := (h.each stored (Table.find_mem hstored)).settled
    rw [hkey, howner] at hsettled
    exact hsettled halone
  have hfind : ∀ w, (s.db.workspaces.find w).isSome →
      ((s.db.workspaces.save { ws with ownerId := newMember.userId }).find w).isSome := by
    intro w hw
    rw [Table.find_save]
    split_ifs
    · rw [Option.isSome_map]
      exact hw
    · exact hw
  refine h.move hop ws.id (fun _ _ hst ↦ by cases hst) (fun _ _ hst ↦ by cases hst; rfl)
    (fun other st _ ↦ halone other st) (fun _ hN ↦ by cases hN; trivial) ?_ hfind (fun _ _ ↦ rfl) ?_
    (fun _ _ _ hst ↦ by cases hst) (fun _ ↦ hfind ws.id (by rw [hstored]; rfl))
    (fun m hm ↦ hfind _ (h.homes m hm)) h.keys
  · intro row hrow hne
    rcases Table.mem_save hrow with rfl | hold
    · exact absurd rfl hne
    · exact hold
  · intro row hrow hid st hst
    cases hst
    have hself := Table.find_of_mem hrow
    dsimp only [Db.updateWorkspace] at hself
    rw [hid, Table.find_save, if_pos rfl, hstored] at hself
    have hrow' : row.ownerId = newMember.userId := by rw [← Option.some.inj hself]
    exact ⟨howned, hmember, hholds, hrow'⟩

theorem Inv.transferOld (h : Inv s) {ws : Workspace} {old : ℤ} {newMember : WorkspaceMember}
    (hop : s.ops op = some (.transferOld ws old newMember)) :
    Inv (after s op s.db
      (some (.transferDown ws (getWorkspaceMember s.db false ws.id old).row newMember))) := by
  refine h.advance hop rfl (fun _ _ hst ↦ by cases hst; rfl) (fun _ hN ↦ by cases hN; trivial) rfl
    (fun _ _ ↦ rfl) (fun m hm ↦ ⟨m, hm, rfl, rfl⟩) ?_ (fun _ _ hst ↦ by cases hst)
  rintro ownerId st' ⟨howned, ⟨m, hm, huser⟩, hholds, hid⟩ ⟨⟩
  obtain ⟨hmem, hfound⟩ := getWorkspaceMember_found (getWorkspaceMember_of_mem hm huser)
  refine ⟨?_, ⟨_, hmem, rfl, rfl⟩, hholds, hid⟩
  rw [hfound]
  exact howned

theorem roster_withRole {w id : ℤ} (h : Inv s) {userId : ℤ} (hholds : Holds (roster s.db w) id userId)
    (role : String) : id ≠ 0 ∧ ∀ w', w' ≠ w →
      roster (s.db.updateRole id role) w' = roster s.db w' := by
  obtain ⟨m, hm, hid, _⟩ := hholds
  obtain ⟨hrow, hw⟩ := mem_roster.mp hm
  have hkey : id ≠ 0 := hid ▸ h.keys m hrow
  refine ⟨hkey, fun w' hne ↦ ?_⟩
  rw [roster_updateRole _ hkey]
  refine (List.map_congr_left fun m' hm' ↦ ?_).trans (List.map_id _)
  obtain ⟨hrow', hw'⟩ := mem_roster.mp hm'
  refine if_neg fun hsame ↦ hne ?_
  rw [← hw', ← hw, id_inj hrow' hrow (hsame.trans hid.symm)]

theorem Inv.transferDown (h : Inv s) {ws : Workspace} {oldMember newMember : WorkspaceMember}
    (hop : s.ops op = some (.transferDown ws oldMember newMember)) :
    Inv (after s op (s.db.updateRole oldMember.id workspaceRoleAdmin)
      (some (.transferUp ws newMember))) := by
  have hstaged : Staged s op ws.id (.lowering oldMember newMember) := (staged_self hop).mpr rfl
  obtain ⟨row, hrow⟩ := Option.isSome_iff_exists.mp (h.exist hstaged)
  have hkey : row.id = ws.id := Table.find_key hrow
  have hfits := (h.each row (Table.find_mem hrow)).fits op _ (hkey ▸ hstaged)
  rw [hkey] at hfits
  obtain ⟨hid, hroster⟩ := roster_withRole h hfits.2.1 workspaceRoleAdmin
  refine h.advance hop rfl (fun _ _ hst ↦ by cases hst; rfl) (fun _ hN ↦ by cases hN; trivial)
    (workspaces_updateRole _ _ _) hroster (members_updateRole _ _ _) ?_ (fun _ _ hst ↦ by cases hst)
  rintro ownerId st' ⟨howned, hold, hholds, howner⟩ ⟨⟩
  rw [roster_updateRole _ hid]
  exact ⟨howned.lower hold, hholds.map _ _, howner⟩

theorem Inv.transferUp (h : Inv s) {ws : Workspace} {newMember : WorkspaceMember}
    (hop : s.ops op = some (.transferUp ws newMember)) :
    Inv (after s op (s.db.updateRole newMember.id workspaceRoleOwner) none) := by
  have hstaged : Staged s op ws.id (.raising newMember) := (staged_self hop).mpr rfl
  obtain ⟨row, hrow⟩ := Option.isSome_iff_exists.mp (h.exist hstaged)
  have hkey : row.id = ws.id := Table.find_key hrow
  have hfits := (h.each row (Table.find_mem hrow)).fits op _ (hkey ▸ hstaged)
  rw [hkey] at hfits
  obtain ⟨hid, hroster⟩ := roster_withRole h hfits.2.1 workspaceRoleOwner
  refine h.advance hop rfl (fun _ _ hst ↦ by cases hst) (fun _ hN ↦ by cases hN)
    (workspaces_updateRole _ _ _) hroster (members_updateRole _ _ _) (fun _ _ _ hst ↦ by cases hst) ?_
  rintro ownerId ⟨howned, hholds, howner⟩ _
  rw [roster_updateRole _ hid, howner]
  obtain ⟨m, hm, _, huser⟩ := hholds.map newMember.id workspaceRoleOwner
  exact ⟨howned.raise hholds, m, hm, huser⟩

/-- A statement that changes only the invitations. -/
theorem Quiet.invites {db db' : Db} (hmembers : db'.members = db.members)
    (hworkspaces : db'.workspaces = db.workspaces) : Quiet db ⟨db', none, none⟩ :=
  ⟨hmembers, hworkspaces, rfl, fun _ hN ↦ by cases hN⟩

theorem insertInvitation_some {db db' : Db} {inv : WorkspaceInvitation}
    (h : db.insertInvitation inv = some db') :
    db'.members = db.members ∧ db'.workspaces = db.workspaces := by
  unfold Db.insertInvitation at h
  split_ifs at h
  obtain ⟨invitations, _, rfl⟩ := Option.map_eq_some_iff.mp h
  exact ⟨rfl, rfl⟩

/-- The statements that read, or that change only the invitations. -/
theorem proceed_quiet (env : Env) (db : Db) {phase : Phase} (hheld : Held phase)
    (hphase : ∀ name slug description ownerId,
      phase ≠ .createInsert name slug description ownerId)
    (hremove : ∀ target, phase ≠ .removeDelete target)
    (hwrite : ∀ target newRole, phase ≠ .updateWrite target newRole)
    (htransfer : ∀ ws newMember, phase ≠ .transferWrite ws newMember)
    (hstage : stage phase = none) : Quiet db (proceed env db phase) := by
  cases phase with
  | start c => exact start_quiet env db c
  | createInsert name slug description ownerId => exact absurd rfl (hphase _ _ _ _)
  | createMember w ownerId => cases hstage
  | inviteInsert workspaceId inviterId email role =>
    unfold proceed
    dsimp only
    split
    · exact .done db
    · rename_i db' hdb
      split_ifs at hdb
      obtain ⟨hmembers, hworkspaces⟩ := insertInvitation_some hdb
      exact .invites hmembers hworkspaces
  | acceptExpired inv =>
    unfold proceed
    dsimp only
    split_ifs
    · exact .done db
    · exact .invites rfl rfl
  | acceptExisting inv userId => exact .goes db rfl trivial
  | acceptInsert inv userId => exact hheld.elim
  | acceptUpdate inv =>
    unfold proceed
    dsimp only
    split_ifs
    · exact .done db
    · exact .invites rfl rfl
  | removeTarget remover workspaceId targetUserId =>
    unfold proceed
    dsimp only
    split_ifs
    · exact .done db
    · exact .done db
    · exact .done db
    · exact .goes db rfl trivial
  | removeDelete target => exact absurd rfl (hremove _)
  | updateTarget workspaceId targetUserId newRole =>
    unfold proceed
    dsimp only
    split_ifs with _ _ hrole
    · exact .done db
    · exact .done db
    · exact .done db
    · exact .goes db rfl hrole
  | updateWrite target newRole => exact absurd rfl (hwrite _ _)
  | transferMember ws newOwnerId =>
    unfold proceed
    dsimp only
    split_ifs
    · exact .done db
    · exact .goes db rfl trivial
  | transferWrite ws newMember => exact absurd rfl (htransfer _ _)
  | transferOld ws old newMember => cases hstage
  | transferDown ws oldMember newMember => cases hstage
  | transferUp ws newMember => cases hstage

theorem Inv.removeDelete (h : Inv s) {target : WorkspaceMember}
    (hop : s.ops op = some (.removeDelete target)) (hspared : Spared s target.id) :
    Inv (after s op (s.db.deleteMember target.id) none) := by
  refine h.spare hop rfl hspared rfl (fun w _ ↦ ?_) fun m hm ↦ ?_
  · rw [roster_deleteMember]
    exact spares_filter _ _
  · exact ⟨m, List.mem_of_mem_filter hm, rfl, rfl⟩

theorem Inv.updateWrite (h : Inv s) {target : WorkspaceMember} {newRole : String}
    (hop : s.ops op = some (.updateWrite target newRole)) (hspared : Spared s target.id) :
    Inv (after s op (s.db.updateRole target.id newRole) none) := by
  have hrole : newRole ≠ workspaceRoleOwner := h.held op _ hop
  by_cases hid : target.id = 0
  · rw [Db.updateRole, if_pos hid]
    exact h.quiet hop rfl (.done s.db)
  · refine h.spare hop rfl hspared (workspaces_updateRole _ _ _) (fun w hroles ↦ ?_)
      (members_updateRole _ _ _)
    rw [roster_updateRole _ hid]
    exact spares_map hrole hroles

/-- A statement that is safe keeps every workspace as it should be. -/
theorem proceed_inv (h : Inv s) {env : Env} (hop : s.ops op = some phase)
    (hsafe : Safe s (.statement op env)) : (proceed env s.db phase).joined = none ∧
      Inv (after s op (proceed env s.db phase).db (proceed env s.db phase).next) := by
  have hheld := h.held op phase hop
  have hquiet : ∀ out, stage phase = none → Quiet s.db out →
      out.joined = none ∧ Inv (after s op out.db out.next) :=
    fun out hstage hout ↦ ⟨hout.joined, h.quiet hop hstage hout⟩
  unfold Safe at hsafe
  simp only [hop] at hsafe
  cases phase with
  | createInsert name slug description ownerId =>
    unfold proceed
    dsimp only
    split
    · exact hquiet _ rfl (.done s.db)
    · rename_i db hdb
      split_ifs at hdb
      exact ⟨rfl, h.createInsert hop hdb⟩
  | createMember w ownerId =>
    obtain ⟨hfails, hid⟩ := hsafe
    obtain ⟨db, hdb, hinv⟩ := h.createMember hop hid
    unfold proceed
    simp only [hfails, hdb, Bool.false_eq_true, if_false]
    exact ⟨trivial, hinv⟩
  | removeDelete target =>
    unfold proceed
    dsimp only
    split_ifs with hfails
    · exact hquiet _ rfl (.done s.db)
    · exact ⟨rfl, h.removeDelete hop (hsafe (eq_false_of_ne_true hfails))⟩
  | updateWrite target newRole =>
    unfold proceed
    dsimp only
    split_ifs with hfails
    · exact hquiet _ rfl (.done s.db)
    · exact ⟨rfl, h.updateWrite hop (hsafe (eq_false_of_ne_true hfails))⟩
  | transferWrite ws newMember =>
    unfold proceed
    dsimp only
    split_ifs with hfails
    · exact hquiet _ rfl (.done s.db)
    · obtain ⟨⟨stored, hstored, howner⟩, hholds, halone⟩ := hsafe (eq_false_of_ne_true hfails)
      exact ⟨rfl, h.transferWrite hop hstored howner hholds halone⟩
  | transferOld ws old newMember =>
    unfold proceed
    rw [hsafe]
    exact ⟨rfl, h.transferOld hop⟩
  | transferDown ws oldMember newMember =>
    unfold proceed
    rw [hsafe]
    exact ⟨rfl, h.transferDown hop⟩
  | transferUp ws newMember =>
    unfold proceed
    rw [hsafe]
    exact ⟨rfl, h.transferUp hop⟩
  | _ =>
    exact hquiet _ rfl (proceed_quiet env s.db hheld (fun _ _ _ _ ↦ by simp) (fun _ ↦ by simp)
      (fun _ _ ↦ by simp) (fun _ _ ↦ by simp) rfl)

/-- A call is taken where none is under way. -/
theorem Inv.call (h : Inv s) (c : Call) (hop : s.ops op = none) :
    Inv (after s op s.db (some (.start c))) := by
  refine h.keep ?_ (fun N hN ↦ by cases hN; trivial) rfl (fun _ _ _ _ hfits ↦ hfits)
    (fun _ _ hsettled ↦ hsettled) fun m hm ↦ ⟨m, hm, rfl, rfl⟩
  intro w st
  refine iff_of_false (fun hst ↦ by cases hst) ?_
  rintro ⟨phase, hphase, _⟩
  rw [hop] at hphase
  cases hphase

theorem Inv.step (h : Inv s) {label : Label} (hsafe : Safe s label) : Inv (step s label) := by
  cases label with
  | call op c =>
    unfold Workspaces.step
    dsimp only
    split_ifs with hop
    · exact h
    · exact h.call c (Option.not_isSome_iff_eq_none.mp hop)
  | statement op env =>
    unfold Workspaces.step
    dsimp only
    cases hop : s.ops op with
    | none => exact h
    | some phase =>
      obtain ⟨hjoined, hinv⟩ := proceed_inv h hop hsafe
      dsimp only
      rw [hjoined, Option.toList_none, List.append_nil]
      exact hinv

theorem Start.inv (start : Start) : Inv { db := start.db } := by
  have hnone : ∀ op w st, ¬ Staged { db := start.db } op w st := by
    rintro op w st ⟨phase, hphase, _⟩
    cases hphase
  refine ⟨fun ws hws ↦ ⟨fun op st hst ↦ (hnone op _ _ hst).elim, fun _ ↦ ?_⟩,
    fun hst _ ↦ (hnone _ _ _ hst).elim, fun hst ↦ (hnone _ _ _ hst).elim, fun _ _ hop ↦ ?_,
    start.homes, start.keys, rfl⟩
  · exact settled_iff.mp (start.owned ws hws)
  · cases hop

theorem Inv.inOrder (h : Inv s) (hbetween : Between s) : InOrder s where
  owned ws hws := by
    refine settled_iff.mpr ((h.each ws hws).settled ?_)
    rintro op st ⟨phase, hphase, _⟩
    rw [hbetween op] at hphase
    cases hphase
  once := s.db.placed
  joined inv := by
    rw [h.joined, List.count_nil]
    exact Nat.zero_le 1

end Steps

section Runs

/-- In a run whose statements do what they are for, every workspace has its one owner whenever no
operation is under way, whoever calls what, and in whatever order the statements come. -/
theorem workspaces_owned (start : Start) {trace : List Label}
    (hsafe : Along step Safe { db := start.db } trace) {first rest : List Label}
    (htrace : trace = first ++ rest) (hbetween : Between (run step { db := start.db } first)) :
    InOrder (run step { db := start.db } first) := by
  rw [htrace] at hsafe
  have hfirst : Along step Safe { db := start.db } first := ((along_append _ _ _).mp hsafe).1
  have hinv : Inv (run step { db := start.db } first) :=
    hfirst.invariant Inv (fun _ _ h hok ↦ h.step hok) start.inv
  exact hinv.inOrder hbetween

def noRows : Db := ⟨Table.empty, Table.empty, Table.empty, List.nodup_nil⟩

def noWorkspaces : Start where
  db := noRows
  owned ws hws := by cases hws
  homes m hm := by cases hm
  keys m hm := by cases hm

/-- A workspace is created by user 7; its owner is the last to be stored. -/
def creation (fails : Bool) : List Label :=
  [.call 0 (.createWorkspace "team" "" "" 7), .statement 0 { text := "1" }, .statement 0 {},
    .statement 0 { fails }]

theorem creation_ends (fails : Bool) :
    Between (run step { db := noWorkspaces.db } (creation fails)) := by
  intro op
  cases fails with
  | false => cases op <;> rfl
  | true => cases op <;> rfl

theorem workspaces_owned_created :
    InOrder (run step { db := noWorkspaces.db } (creation false)) := by
  refine workspaces_owned noWorkspaces ?_ (List.append_nil (creation false)).symm
    (creation_ends false)
  exact ⟨trivial, trivial, trivial, ⟨rfl, rfl⟩, trivial⟩

theorem workspaces_unowned : ¬ ∀ (start : Start) (trace : List Label),
    Between (run step { db := start.db } trace) → InOrder (run step { db := start.db } trace) := by
  intro hall
  have hinOrder := hall noWorkspaces (creation true) (creation_ends true)
  have hws : (⟨1, "team", "ws-1", "", 7⟩ : Workspace) ∈
      (run step { db := noWorkspaces.db } (creation true)).db.workspaces.rows := List.mem_cons_self
  obtain ⟨m, ⟨hm, _⟩, _⟩ := (hinOrder.owned _ hws).one
  cases hm

end Runs

end AllAiTools.NewApi.Service.OwnedWorkspaces
