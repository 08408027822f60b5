import AllAiTools.Foundation.Result
import AllAiTools.Foundation.Run
import AllAiTools.ChatGpt2Api.Services.AuthService

namespace AllAiTools.ChatGpt2Api.Services.AuthKeysKept

open Foundation.Result Foundation.Run Text AuthService

section Statement

/-- The items with their last-used times left out. -/
def timeless (items : List Item) : List Item := items.map fun item ↦ { item with lastUsedAt := none }

def timelessRows (store : List Row) : List Row := store.map fun row ↦ { row with lastUsedAt := [] }

def storedIds (store : List Row) : List Str := store.map fun row ↦ strip row.id

def isAuthenticate : Operation → Bool
  | .authenticate _ => true
  | _ => false

variable (swallows : Bool) (hash : Str → Word) (adminKey : Str)

def step (s : Service) (op : Operation × Env) : Service := (operate swallows hash adminKey s op).1

/-- What a step owes to the keys, last-used times apart. -/
structure Keeps (s : Service) (op : Operation × Env) : Prop where
  leaves : ∀ id ∈ storedIds s.store, id ∉ storedIds (step swallows hash adminKey s op).store →
    ∃ keyId role, op.1 = .delete keyId role ∧ strip keyId = id
  raises : isAuthenticate op.1 = false →
    (∃ e, (operate swallows hash adminKey s op).2 = .raised e) →
    timeless (step swallows hash adminKey s op).items = timeless s.items ∧
      (step swallows hash adminKey s op).store = s.store
  succeeds : isAuthenticate op.1 = false → (operate swallows hash adminKey s op).2 = .success →
    timelessRows ((step swallows hash adminKey s op).items.map Item.row) =
      timelessRows (step swallows hash adminKey s op).store

/-- The store can be read and written by an operation that loads it, and a last-used time that
cannot be saved leaves it as it was. -/
def Healthy (s : Service) (op : Operation × Env) : Prop :=
  if isAuthenticate op.1 then ∀ left, op.2.save = .raised left → left = s.store
  else op.2.readable = true ∧ op.2.save = .done

/-- The store holds the items in memory, last-used times apart. -/
def Stored (s : Service) (items : List Item) : Prop :=
  s.store = items.map Item.row ∧ timeless s.items = timeless items

end Statement

section Steps

variable {swallows : Bool} {hash : Str → Word} {adminKey : Str} {env : Env} {s : Service}
  {items : List Item}

theorem normalizeRows_saved (n : ℕ) : normalizeRows env n (items.map Item.row) = items := by
  induction items generalizing n with
  | nil => rfl
  | cons item items ih => simp [normalizeRows, ih]

/-- What was saved is loaded. -/
theorem load_saved (hreadable : env.readable = true) :
    load swallows env (items.map Item.row) = items := by
  simp only [load, loadAuthKeys, hreadable, ↓reduceIte]
  exact normalizeRows_saved 0

theorem reloaded_eq (hstored : s.store = items.map Item.row) (hreadable : env.readable = true) :
    reloaded swallows env s = { s with items } := by
  rw [reloaded, hstored, load_saved hreadable]

/-- How an operation on these stored items ends: it saves others, or leaves the store alone. -/
def Settles (s : Service) (items : List Item) (changed : List Item → Prop)
    (r : Service × Outcome) : Prop :=
  (r.2 = .success ∧ changed r.1.items ∧ r.1.store = r.1.items.map Item.row) ∨
    (r.2 ≠ .success ∧ (r.1.items = items ∨ r.1 = s ∧ ∀ e, r.2 ≠ .raised e) ∧ r.1.store = s.store)

theorem saved_settles {changed : List Item → Prop} {items' : List Item} (h : changed items')
    (hsave : env.save = .done) : Settles s items changed (saved { s with items := items' } env) := by
  rw [saved, hsave]
  exact .inl ⟨rfl, h, rfl⟩

theorem reloaded_settles {changed : List Item → Prop} {o : Outcome} (ho : o ≠ .success) :
    Settles s items changed ({ s with items }, o) :=
  .inr ⟨ho, .inl rfl, rfl⟩

theorem createKey_settles (hstored : s.store = items.map Item.row)
    (hreadable : env.readable = true) (hsave : env.save = .done) (role : AuthRole) (name : Str) :
    Settles s items (fun items' ↦ ∃ item, items' = items ++ [item])
      (createKey swallows hash adminKey role name env s) := by
  rw [createKey, reloaded_eq hstored hreadable]
  cases hname : buildName items name role none with
  | error e => exact reloaded_settles (by simp)
  | ok normalizedName =>
    cases normalizedName with
    | none => exact reloaded_settles (by simp)
    | some normalizedName =>
      cases hkey : drawKeyHash hash adminKey items env.tokens with
      | none => exact reloaded_settles (by simp)
      | some result =>
        cases result with
        | error e => exact reloaded_settles (by simp)
        | ok keyHash => exact saved_settles ⟨_, rfl⟩ hsave

theorem updateItem_id {item next : Item} {updates : Updates}
    (h : updateItem hash adminKey items item updates = .ok (some next)) : next.id = item.id := by
  rw [updateItem] at h
  cases hname : updatedName items item updates with
  | error e => simp [hname] at h
  | ok name =>
    cases name with
    | none => simp [hname] at h
    | some name =>
      cases hkey : updatedKeyHash hash adminKey items item updates with
      | error e => simp [hname, hkey, Except.map] at h
      | ok keyHash =>
        simp only [hname, hkey, Except.map, Except.ok.injEq, Option.some.injEq] at h
        rw [← h]

theorem updateKey_settles (hstored : s.store = items.map Item.row)
    (hreadable : env.readable = true) (hsave : env.save = .done) (keyId : Str) (updates : Updates)
    (role : Option AuthRole) :
    Settles s items (fun items' ↦ items'.map Item.id = items.map Item.id)
      (updateKey swallows hash adminKey keyId updates role env s) := by
  rw [updateKey]
  cases hid : word? keyId with
  | none => exact .inr ⟨by simp, .inr ⟨rfl, by simp⟩, rfl⟩
  | some normalizedId =>
    simp only [reloaded_eq hstored hreadable]
    cases hindex : items.findIdx? (·.id = normalizedId) with
    | none => exact reloaded_settles (by simp)
    | some index =>
      cases hitem : items.find? (·.id = normalizedId) with
      | none => exact reloaded_settles (by simp)
      | some item =>
        dsimp only
        by_cases hrole : role.any (· ≠ item.role)
        · rw [if_pos hrole]
          exact reloaded_settles (by simp)
        · rw [if_neg hrole]
          cases hnext : updateItem hash adminKey items item updates with
          | error e => exact reloaded_settles (by simp)
          | ok next =>
            cases next with
            | none => exact reloaded_settles (by simp)
            | some next =>
              refine saved_settles ?_ hsave
              obtain ⟨hlt, hfound, -⟩ := List.findIdx?_eq_some_iff_getElem.mp hindex
              have hsame : next.id = items[index].id := by
                rw [updateItem_id hnext, show item.id = normalizedId by simpa using List.find?_some hitem]
                exact (of_decide_eq_true hfound).symm
              rw [List.map_set, hsame, ← List.getElem_map Item.id, List.set_getElem_self]
              rwa [List.length_map]

theorem deleteKey_settles (hstored : s.store = items.map Item.row)
    (hreadable : env.readable = true) (hsave : env.save = .done) (keyId : Str)
    (role : Option AuthRole) :
    Settles s items (fun items' ↦ ∀ item ∈ items, item.id.val ≠ strip keyId → item ∈ items')
      (deleteKey swallows keyId role env s) := by
  rw [deleteKey]
  cases hid : word? keyId with
  | none => exact .inr ⟨by simp, .inr ⟨rfl, by simp⟩, rfl⟩
  | some normalizedId =>
    simp only [reloaded_eq hstored hreadable]
    by_cases hlength : (items.filter fun item ↦
        !(item.id = normalizedId && role.all (· = item.role))).length = items.length
    · rw [if_pos hlength]
      have hleft := List.filter_eq_self.mpr (List.length_filter_eq_length_iff.mp hlength)
      rw [hleft]
      exact reloaded_settles (by simp)
    · rw [if_neg hlength]
      refine saved_settles (fun item hitem hne ↦ ?_) hsave
      have hother : item.id ≠ normalizedId := by
        intro heq
        exact hne (heq ▸ word?_eq_some hid)
      exact List.mem_filter.mpr ⟨hitem, by simp [hother]⟩

theorem findHash_some {keyHash : Word} {n index : ℕ} {item : Item}
    (h : findHash keyHash n items = .ok (some (index, item))) :
    ∃ k, index = n + k ∧ items[k]? = some item := by
  induction items generalizing n with
  | nil => cases h
  | cons other items ih =>
    rw [findHash] at h
    have hlater (hrest : findHash keyHash (n + 1) items = .ok (some (index, item))) :
        ∃ k, index = n + k ∧ (other :: items)[k]? = some item := by
      obtain ⟨k, hk, hitem⟩ := ih hrest
      exact ⟨k + 1, by omega, by simpa using hitem⟩
    by_cases henabled : other.enabled
    · simp only [henabled, Bool.not_true, Bool.false_eq_true, ↓reduceIte] at h
      obtain ⟨same, hsame, h⟩ := bind_eq_ok.mp h
      cases same with
      | true =>
        cases h
        exact ⟨0, rfl, rfl⟩
      | false => exact hlater h
    · simp only [henabled, Bool.not_false, ↓reduceIte] at h
      exact hlater h

/-- Authenticating changes a last-used time, and saves the items or leaves the store alone. -/
theorem authenticate_settles (hsave : ∀ left, env.save = .raised left → left = s.store)
    (rawKey : Str) :
    timeless (authenticate hash rawKey env s).1.items = timeless s.items ∧
      ((authenticate hash rawKey env s).1.store = s.store ∨
        (authenticate hash rawKey env s).1.store =
          (authenticate hash rawKey env s).1.items.map Item.row) := by
  rw [authenticate]
  by_cases hempty : strip rawKey = []
  · rw [if_pos hempty]
    exact ⟨rfl, .inl rfl⟩
  · rw [if_neg hempty]
    cases hfind : findHash (hash (strip rawKey)) 0 s.items with
    | error e => exact ⟨rfl, .inl rfl⟩
    | ok found =>
      cases found with
      | none => exact ⟨rfl, .inl rfl⟩
      | some found =>
        obtain ⟨index, item⟩ := found
        obtain ⟨k, hk, hitem⟩ := findHash_some hfind
        rw [Nat.zero_add] at hk
        have htimeless : timeless (s.items.set index { item with lastUsedAt := some env.nowIso }) =
            timeless s.items := by
          obtain ⟨hlt, hget⟩ := List.getElem?_eq_some_iff.mp hitem
          have hlen : k < (timeless s.items).length := by rwa [timeless, List.length_map]
          have hsame : (timeless s.items)[k] = { item with lastUsedAt := none } := by
            simp only [timeless, List.getElem_map, hget]
          rw [hk, timeless, List.map_set]
          exact hsame ▸ List.set_getElem_self hlen
        dsimp only
        split_ifs with hflush
        · cases hresult : env.save with
          | done => exact ⟨htimeless, .inr rfl⟩
          | raised left => exact ⟨htimeless, .inl (hsave left hresult)⟩
        · exact ⟨htimeless, .inl rfl⟩

theorem storedIds_saved : storedIds (items.map Item.row) = items.map fun item ↦ item.id.val := by
  rw [storedIds, List.map_map]
  exact List.map_congr_left fun item _ ↦ item.id.prop.2

theorem storedIds_timeless {items items' : List Item} (h : timeless items = timeless items') :
    storedIds (items.map Item.row) = storedIds (items'.map Item.row) := by
  have hids (l : List Item) : (timeless l).map (fun item ↦ item.id.val) =
      l.map fun item ↦ item.id.val := by
    rw [timeless, List.map_map]
    rfl
  rw [storedIds_saved, storedIds_saved, ← hids items, h, hids]

/-- A step that settles keeps what is stored: no key goes that stays among the changed items. -/
theorem Settles.keeps {changed : List Item → Prop} {op : Operation × Env}
    (hstored : Stored s items)
    (hsettles : Settles s items changed (operate swallows hash adminKey s op))
    (hleaves : ∀ items', changed items' → ∀ item ∈ items,
      item.id.val ∉ items'.map (fun item ↦ item.id.val) →
        ∃ keyId role, op.1 = .delete keyId role ∧ strip keyId = item.id.val) :
    Keeps swallows hash adminKey s op ∧
      ∃ items', Stored (step swallows hash adminKey s op) items' := by
  rcases hsettles with ⟨hsuccess, hchanged, hstore⟩ | ⟨hfailed, hitems, hstore⟩
  · refine ⟨⟨?_, ?_, ?_⟩, (operate swallows hash adminKey s op).1.items, hstore, rfl⟩
    · intro id hid hgone
      rw [hstored.1, storedIds_saved] at hid
      obtain ⟨item, hitem, rfl⟩ := List.mem_map.mp hid
      rw [step, hstore, storedIds_saved] at hgone
      exact hleaves _ hchanged item hitem hgone
    · intro _ hraised
      obtain ⟨e, he⟩ := hraised
      exact absurd (he.symm.trans hsuccess) (by simp)
    · intro _ _
      rw [step, hstore]
  · have hkept : timeless (step swallows hash adminKey s op).items = timeless items := by
      rcases hitems with hitems | ⟨hsame, -⟩
      · rw [step, hitems]
      · rw [step, hsame, hstored.2]
    refine ⟨⟨?_, ?_, ?_⟩, items, hstore.trans hstored.1, hkept⟩
    · intro id hid hgone
      rw [step, hstore] at hgone
      exact absurd hid hgone
    · intro _ _
      exact ⟨hkept.trans hstored.2.symm, hstore⟩
    · intro _ hsuccess
      exact absurd hsuccess hfailed

theorem keeps_step {op : Operation × Env} (hstored : Stored s items) (hhealthy : Healthy s op) :
    Keeps swallows hash adminKey s op ∧
      ∃ items', Stored (step swallows hash adminKey s op) items' := by
  obtain ⟨operation, env⟩ := op
  cases operation with
  | create role name =>
    obtain ⟨hreadable, hsave⟩ := hhealthy
    refine (createKey_settles hstored.1 hreadable hsave role name).keeps hstored ?_
    intro items' hchanged item hitem hgone
    obtain ⟨added, rfl⟩ := hchanged
    exact absurd (List.mem_map_of_mem (List.mem_append_left _ hitem)) hgone
  | update keyId updates role =>
    obtain ⟨hreadable, hsave⟩ := hhealthy
    refine (updateKey_settles hstored.1 hreadable hsave keyId updates role).keeps hstored ?_
    intro items' hchanged item hitem hgone
    have hvals (l : List Item) : l.map (fun item ↦ item.id.val) =
        (l.map Item.id).map Subtype.val := by rw [List.map_map]; rfl
    rw [hvals, hchanged, ← hvals] at hgone
    exact absurd (List.mem_map_of_mem hitem) hgone
  | delete keyId role =>
    obtain ⟨hreadable, hsave⟩ := hhealthy
    refine (deleteKey_settles hstored.1 hreadable hsave keyId role).keeps hstored ?_
    intro items' hchanged item hitem hgone
    refine ⟨keyId, role, rfl, ?_⟩
    by_contra hne
    exact hgone (List.mem_map_of_mem (hchanged item hitem (Ne.symm hne)))
  | authenticate rawKey =>
    have hsettles := @authenticate_settles hash env s hhealthy rawKey
    have hids : storedIds (authenticate hash rawKey env s).1.store = storedIds s.store := by
      rcases hsettles.2 with hstore | hstore
      · rw [hstore]
      · rw [hstore, hstored.1]
        exact storedIds_timeless (hsettles.1.trans hstored.2)
    refine ⟨⟨?_, fun h ↦ absurd h (by simp [isAuthenticate]), fun h ↦
      absurd h (by simp [isAuthenticate])⟩, ?_⟩
    · intro id hid hgone
      exact absurd (hids.symm ▸ hid) hgone
    · rcases hsettles.2 with hstore | hstore
      · exact ⟨items, hstore.trans hstored.1, hsettles.1.trans hstored.2⟩
      · exact ⟨_, hstore, rfl⟩

theorem keeps_run {trace : List (Operation × Env)} (hstored : Stored s items)
    (hhealthy : Along (step swallows hash adminKey) Healthy s trace) :
    Along (step swallows hash adminKey) (Keeps swallows hash adminKey) s trace := by
  induction trace generalizing s items with
  | nil => trivial
  | cons op trace ih =>
    obtain ⟨hkeeps, items', hstored'⟩ := @keeps_step swallows hash adminKey s items op hstored
      hhealthy.1
    exact ⟨hkeeps, ih hstored' hhealthy.2⟩

end Steps

section Runs

variable (swallows : Bool) (hash : Str → Word) (adminKey : Str)

/-- As long as every load succeeds and every save but that of a last-used time, a key leaves the
store through its own deletion only, an error changes nothing and a success is stored. -/
theorem keys_kept {env : Env} {items : List Item} {trace : List (Operation × Env)}
    (hreadable : env.readable = true)
    (hhealthy : Along (step swallows hash adminKey) Healthy (start swallows env items) trace) :
    Along (step swallows hash adminKey) (Keeps swallows hash adminKey)
      (start swallows env items) trace :=
  keeps_run ⟨rfl, congrArg timeless (load_saved hreadable)⟩ hhealthy

/-- The hash of one key. -/
def digest (key : Str) : Word :=
  if key = "sk-a".toList then
    ⟨"a4a6d307ad00fa67176e1099fdbc4f4a09bb527a7f24718a5030f2f173d11f7f".toList, by decide +kernel⟩
  else ⟨"unknown".toList, by decide +kernel⟩

def keyA : Item where
  id := ⟨"0123456789ab".toList, by decide +kernel⟩
  name := defaultName .user
  role := .user
  keyHash := digest "sk-a".toList
  enabled := true
  createdAt := ⟨"2026-01-01T00:00:00+00:00".toList, by decide +kernel⟩
  lastUsedAt := none

def env : Env where
  freshIds _ := ⟨"ba9876543210".toList, by decide +kernel⟩
  newId := ⟨"ba9876543210".toList, by decide +kernel⟩
  tokens := ["b".toList]
  now := 0
  nowIso := ⟨"2026-01-02T00:00:00+00:00".toList, by decide +kernel⟩

theorem deleted_kept : Along (step true digest []) (Keeps true digest []) (start true env [keyA])
    [(.authenticate "sk-a".toList, env), (.delete "0123456789ab".toList none, env)] :=
  keys_kept true digest [] rfl ⟨(fun _ h ↦ nomatch h), ⟨rfl, rfl⟩, trivial⟩

/-- A new key is created while the store cannot be read: the keys it holds are lost. -/
theorem unreadable_not_kept : ¬∀ (swallows : Bool) (hash : Str → Word) (adminKey : Str)
    (items : List Item) (first : Env) (trace : List (Operation × Env)),
    Along (step swallows hash adminKey) (Keeps swallows hash adminKey)
      (start swallows first items) trace := by
  intro h
  have hkeeps := (h true digest [] [keyA] env [(.create .user [], { env with readable := false })]).1
  obtain ⟨keyId, role, hdelete, -⟩ := hkeeps.leaves "0123456789ab".toList (by decide +kernel)
    (by decide +kernel)
  cases hdelete

end Runs

end AllAiTools.ChatGpt2Api.Services.AuthKeysKept
