import AllAiTools.ChatGpt2Api.Services.TokenAliases
import AllAiTools.ChatGpt2Api.Services.TokenRefresh

namespace AllAiTools.ChatGpt2Api.Services.TokensIssued

open Relation Text Foundation Foundation.Chase Foundation.Forwarding AccountService TokenRefresh
open TokenAliases (directory resolve_ends)

section Accounts

/-- An account goes from a token to another, and the others stay as they are or go. -/
def Within (s s' : Service) (old new : Word) : Prop :=
  ∀ k a, s'.accounts.get k = some a → k ≠ new → s.accounts.get k = some a ∧ k ≠ old

variable {s s' s'' : Service} {t u v : Word}

theorem Within.trans (h : Within s s' t u) (h' : Within s' s'' u v) : Within s s'' t v := by
  intro k a hget hk
  obtain ⟨hget', hu⟩ := h' k a hget hk
  exact h k a hget' hu

theorem within_self (h : ∀ k a, s'.accounts.get k = some a → k ≠ t → s.accounts.get k = some a) :
    Within s s' t t :=
  fun k a hget hk ↦ ⟨h k a hget hk, hk⟩

theorem Within.mem_keys (h : Within s s' t u) {k : Word} (hk : k ∈ s'.accounts.keys) (hu : k ≠ u) :
    k ∈ s.accounts.keys ∧ k ≠ t := by
  obtain ⟨a, ha⟩ := Option.isSome_iff_exists.mp ((s'.accounts.get_isSome k).mpr hk)
  obtain ⟨hget, ht⟩ := h k a ha hu
  exact ⟨Dict.mem_keys_of_get hget, ht⟩

theorem get_of_set {a : Account} (h : s'.accounts = s.accounts.set t a) {k : Word} {b : Account}
    (hget : s'.accounts.get k = some b) (hk : k ≠ t) : s.accounts.get k = some b := by
  rwa [h, Dict.get_set, Function.update_of_ne hk] at hget

theorem get_of_filter {p : Word × Account → Bool} (h : s'.accounts = s.accounts.filter p) {k : Word}
    {b : Account} (hget : s'.accounts.get k = some b) : s.accounts.get k = some b := by
  rw [h, Dict.get_filter_eq_some_iff] at hget
  exact hget.1

end Accounts

section Slots

/-- No slot is taken, and what a token was replaced by is of use no more. -/
structure Quiet (s : Service) : Prop where
  inflight : ∀ k, s.imageInflight k = 0
  apart : ∀ k ∈ s.tokenAliases.keys, k ∉ s.accounts.keys

/-- Only slots of one token are taken, which was not replaced. -/
structure Held (s : Service) (token : Word) (count : ℕ) : Prop where
  inflight : ∀ k, s.imageInflight k = if k = token then count else 0
  current : s.tokenAliases.get token = none
  apart : ∀ k ∈ s.tokenAliases.keys, k ∉ s.accounts.keys

/-- A token was replaced by others up to one. -/
def Leads (s : Service) (first last : Word) : Prop :=
  ReflTransGen (fun a b ↦ s.tokenAliases.get a = some b) first last

variable {s s' : Service} {t u : Word} {count : ℕ}

theorem Held.quiet (h : Held s t 0) : Quiet s where
  inflight k := by
    rw [h.inflight]
    exact ite_self 0
  apart := h.apart

theorem Quiet.held (h : Quiet s) (hcurrent : s.tokenAliases.get t = none) : Held s t 0 where
  inflight k := by
    rw [h.inflight]
    exact (ite_self 0).symm
  current := hcurrent
  apart := h.apart

theorem Quiet.current_of_mem (h : Quiet s) (ht : t ∈ s.accounts.keys) : s.tokenAliases.get t = none := by
  by_contra hsome
  obtain ⟨next, hnext⟩ := Option.ne_none_iff_exists'.mp hsome
  exact h.apart t (Dict.mem_keys_of_get hnext) ht

theorem Held.same (h : Held s t count) (hinflight : s'.imageInflight = s.imageInflight)
    (haliases : s'.tokenAliases = s.tokenAliases) (hkeys : ∀ k ∈ s'.accounts.keys, k ∈ s.accounts.keys) :
    Held s' t count where
  inflight := hinflight ▸ h.inflight
  current := haliases ▸ h.current
  apart k hk hmem := h.apart k (haliases ▸ hk) (hkeys k hmem)

theorem resolve_of_leads (h : Leads s u t) (hheld : Held s t count) : s.resolveAccessToken u = t := by
  refine resolve_ends (s := ⟨s, []⟩) ⟨?_, ?_⟩
  · refine ReflTransGen.mono (fun a b hlink ↦ Directory.link_iff.mpr ⟨?_, hlink⟩) _ _ h
    exact Bool.eq_false_iff.mpr (mt List.contains_iff_mem.mp (hheld.apart a (Dict.mem_keys_of_get hlink)))
  · rw [Directory.next]
    exact (congrArg _ hheld.current).trans (ite_self none)

theorem Held.resolve (h : Held s t count) : s.resolveAccessToken t = t := resolve_of_leads .refl h

theorem resolve_of_mem (h : t ∈ s.accounts.keys) : s.resolveAccessToken t = t := by
  refine resolve_ends (s := ⟨s, []⟩) ⟨.refl, ?_⟩
  exact Directory.next_current (List.contains_iff_mem.mpr h)

/-- A slot is given back by any token that leads to its account. -/
theorem Held.release (h : Held s t count) (hcount : count ≤ 1) (hleads : Leads s u t) :
    Quiet (s.releaseImageSlot u) where
  inflight k := by
    rw [Service.releaseImageSlot, resolve_of_leads hleads h]
    have ht : s.imageInflight t ≤ 1 := by
      rw [h.inflight, if_pos rfl]
      exact hcount
    simp only [Function.update_apply, if_pos ht]
    split
    · rfl
    · rename_i hk
      rw [h.inflight, if_neg hk]
  apart := h.apart

theorem Quiet.release (h : Quiet s) (token : Word) : Quiet (s.releaseImageSlot token) where
  inflight k := by
    have hle : s.imageInflight (s.resolveAccessToken token) ≤ 1 := by
      rw [h.inflight]
      exact Nat.zero_le 1
    rw [Service.releaseImageSlot]
    simp only [if_pos hle, Function.update_apply]
    split
    · rfl
    · exact h.inflight k
  apart := h.apart

end Slots

section Refresh

variable {jwtExp : Word → ℤ} {now : ℤ} {pool : Pool} {token : Word} {force : Bool}
  {answer : Option TokenData}

theorem saveItem_aliases (current : Account) (update : Credentials → Credentials) :
    (saveItem pool token current update).service.imageInflight = pool.service.imageInflight ∧
      (saveItem pool token current update).service.tokenAliases = pool.service.tokenAliases :=
  ⟨rfl, rfl⟩

/-- What a refresh does to an account that is there: nothing but to write it back, or a rotation. -/
theorem refresh_cases (jwtExp : Word → ℤ) (now : ℤ) (force : Bool) (answer : Option TokenData)
    (hself : pool.service.resolveAccessToken token = token) :
    ((refreshAccessToken jwtExp now pool token force answer).2 = token ∧
      ((refreshAccessToken jwtExp now pool token force answer).1.service = pool.service ∨
        ∃ current a, pool.service.accounts.get token = some current ∧
          (refreshAccessToken jwtExp now pool token force answer).1.service =
            { pool.service with accounts := pool.service.accounts.set token a })) ∨
    ∃ current new a, pool.service.accounts.get token = some current ∧ new ≠ token ∧
      (refreshAccessToken jwtExp now pool token force answer).2 = new ∧
      (refreshAccessToken jwtExp now pool token force answer).1.service =
        { pool.service with
          accounts := (pool.service.accounts.pop token).set new a
          tokenAliases := pool.service.tokenAliases.set token new
          imageInflight := Function.update (Function.update pool.service.imageInflight new
            (pool.service.imageInflight new + pool.service.imageInflight token)) token 0 } := by
  rw [refreshAccessToken, hself]
  cases hcurrent : pool.service.accounts.get token with
  | none => exact .inl ⟨rfl, .inl rfl⟩
  | some current =>
    dsimp only
    split
    · cases answer with
      | none => exact .inl ⟨rfl, .inr ⟨current, _, rfl, rfl⟩⟩
      | some data =>
        dsimp only
        rw [applyRefreshedTokens, Service.applyRefreshedTokens, Service.rotation, hself, hcurrent]
        cases hword : word? (orElse (some data.accessToken) token.val) with
        | none => exact .inl ⟨rfl, .inl rfl⟩
        | some new =>
          dsimp only
          by_cases hnew : new = token
          · subst hnew
            refine .inl ⟨rfl, .inr ⟨current, normalizeAccount current.fields, rfl, ?_⟩⟩
            simp
          · refine .inr ⟨current, new, normalizeAccount current.fields, rfl, hnew, rfl, ?_⟩
            simp [hnew]
    · exact .inl ⟨rfl, .inl rfl⟩

theorem issued_eq (jwtExp : Word → ℤ) (now : ℤ) (force : Bool) (answer : Option TokenData)
    (hself : pool.service.resolveAccessToken token = token) :
    issued jwtExp now pool token force answer =
      if (refreshAccessToken jwtExp now pool token force answer).2 = token then 0 else 1 := by
  rw [issued, hself]
  by_cases hnone : pool.service.accounts.get token = none
  · have hsame : (refreshAccessToken jwtExp now pool token force answer).2 = token := by
      rw [refreshAccessToken, hself, hnone]
    rw [if_pos (.inl hnone), if_pos hsame]
  · simp only [hnone, false_or]

theorem issued_le_one (jwtExp : Word → ℤ) (now : ℤ) (pool : Pool) (token : Word) (force : Bool)
    (answer : Option TokenData) : issued jwtExp now pool token force answer ≤ 1 := by
  rw [issued]
  split
  · exact Nat.zero_le 1
  · exact Nat.le_refl 1

theorem refresh_within (jwtExp : Word → ℤ) (now : ℤ) (force : Bool) (answer : Option TokenData)
    (hself : pool.service.resolveAccessToken token = token) :
    Within pool.service (refreshAccessToken jwtExp now pool token force answer).1.service token
      (refreshAccessToken jwtExp now pool token force answer).2 := by
  obtain ⟨hsame, hservice | ⟨current, a, -, hservice⟩⟩ | ⟨current, new, a, -, hnew, hsame, hservice⟩ :=
    refresh_cases jwtExp now force answer hself
  · rw [hsame, hservice]
    exact within_self fun k b hget _ ↦ hget
  · rw [hsame, hservice]
    exact within_self fun k b hget hk ↦ get_of_set rfl hget hk
  · rw [hsame, hservice]
    intro k b hget hk
    rw [Dict.get_set, Function.update_of_ne hk, Dict.pop, Dict.get_filter_eq_some_iff] at hget
    exact ⟨hget.1, of_decide_eq_true hget.2⟩

/-- A token of no account comes back as it is, and any other stands for its account's. -/
theorem refresh_any (jwtExp : Word → ℤ) (now : ℤ) (pool : Pool) (token : Word) (force : Bool)
    (answer : Option TokenData) :
    refreshAccessToken jwtExp now pool token force answer = (pool, token) ∨
    ∃ active ∈ pool.service.accounts.keys,
      Within pool.service (refreshAccessToken jwtExp now pool token force answer).1.service active
        (refreshAccessToken jwtExp now pool token force answer).2 ∧
      issued jwtExp now pool token force answer =
        if (refreshAccessToken jwtExp now pool token force answer).2 = active then 0 else 1 := by
  cases hget : pool.service.accounts.get (pool.service.resolveAccessToken token) with
  | none =>
    refine .inl ?_
    rw [refreshAccessToken, hget]
  | some current =>
    have hmem := Dict.mem_keys_of_get hget
    have hself := resolve_of_mem hmem
    have hsame : refreshAccessToken jwtExp now pool token force answer =
        refreshAccessToken jwtExp now pool (pool.service.resolveAccessToken token) force answer := by
      rw [refreshAccessToken, refreshAccessToken, hself, hget]
    refine .inr ⟨_, hmem, hsame ▸ refresh_within jwtExp now force answer hself, ?_⟩
    rw [issued, hget]
    simp

/-- The token after a refresh is none that was replaced before. -/
def FreshRefresh (jwtExp : Word → ℤ) (now : ℤ) (pool : Pool) (token : Word) (force : Bool)
    (answer : Option TokenData) : Prop :=
  (refreshAccessToken jwtExp now pool token force answer).2 ∉ pool.service.tokenAliases.keys

theorem refresh_held {count : ℕ} (h : Held pool.service token count)
    (hfresh : FreshRefresh jwtExp now pool token force answer) :
    Held (refreshAccessToken jwtExp now pool token force answer).1.service
        (refreshAccessToken jwtExp now pool token force answer).2 count ∧
      ∀ first, Leads pool.service first token →
        Leads (refreshAccessToken jwtExp now pool token force answer).1.service first
          (refreshAccessToken jwtExp now pool token force answer).2 := by
  rw [FreshRefresh] at hfresh
  obtain ⟨hsame, hservice | ⟨current, a, hcurrent, hservice⟩⟩ |
      ⟨current, new, a, hcurrent, hnew, hsame, hservice⟩ :=
    refresh_cases jwtExp now force answer h.resolve
  · rw [hsame, hservice]
    exact ⟨h, fun _ hleads ↦ hleads⟩
  · rw [hsame, hservice]
    refine ⟨h.same rfl rfl fun k hk ↦ ?_, fun _ hleads ↦ hleads⟩
    obtain rfl | hk := (pool.service.accounts.mem_keys_set token a).mp hk
    · exact Dict.mem_keys_of_get hcurrent
    · exact hk
  · rw [hsame] at hfresh
    rw [hsame, hservice]
    refine ⟨⟨fun k ↦ ?_, ?_, fun k hk hmem ↦ ?_⟩, fun first hleads ↦ ?_⟩
    · simp only [Function.update_apply, h.inflight, if_neg hnew, if_true, Nat.zero_add]
      by_cases hk : k = token
      · rw [if_pos hk, if_neg (hk ▸ Ne.symm hnew)]
      · simp only [if_neg hk]
    · rw [Dict.get_set, Function.update_of_ne hnew]
      by_contra hsome
      obtain ⟨next, hnext⟩ := Option.ne_none_iff_exists'.mp hsome
      exact hfresh (Dict.mem_keys_of_get hnext)
    · obtain rfl | hmem := (Dict.mem_keys_set _ new a).mp hmem
      · obtain rfl | hk := (Dict.mem_keys_set _ token k).mp hk
        · exact hnew rfl
        · exact hfresh hk
      · obtain ⟨hmem, hne⟩ := (Dict.mem_keys_pop _ token).mp hmem
        exact h.apart k (((Dict.mem_keys_set _ token new).mp hk).resolve_left hne) hmem
    · refine ReflTransGen.tail (ReflTransGen.mono (fun b c hlink ↦ ?_) _ _ hleads) ?_
      · have hb : b ≠ token := by
          rintro rfl
          rw [h.current] at hlink
          cases hlink
        rwa [Dict.get_set, Function.update_of_ne hb]
      · rw [Dict.get_set, Function.update_self]

end Refresh

section Updates

variable (config : Config) {s : Service} {token : Word}

theorem saveAccount_same (s : Service) (token : Word) (account : Account) :
    Within s (s.saveAccount config token account).1 token token ∧
      (s.saveAccount config token account).1.tokenAliases = s.tokenAliases ∧
      ∀ t a, (s.saveAccount config token account).2 = some (t, a) →
        t = token ∧ a = account ∧ (s.saveAccount config token account).1.accounts.get token = some a := by
  rw [Service.saveAccount]
  split
  · refine ⟨within_self fun k a hget _ ↦ get_of_filter rfl hget, rfl, fun t a hsome ↦ ?_⟩
    cases hsome
  · refine ⟨within_self fun k a hget hk ↦ get_of_set rfl hget hk, rfl, fun t a hsome ↦ ?_⟩
    obtain ⟨rfl, rfl⟩ := Prod.mk.inj (Option.some.inj hsome)
    refine ⟨rfl, rfl, ?_⟩
    rw [Dict.get_set, Function.update_self]

/-- An update leaves the slots, the aliases and the other accounts as they are. -/
theorem updateAccount_same (hself : s.resolveAccessToken token = token) (updates : Fields) :
    Within s (s.updateAccount config token updates).1 token token ∧
      (s.updateAccount config token updates).1.tokenAliases = s.tokenAliases ∧
      ∀ t a, (s.updateAccount config token updates).2 = some (t, a) → t = token := by
  rw [Service.updateAccount, hself]
  cases hcurrent : s.accounts.get token with
  | none => exact ⟨within_self fun k a hget _ ↦ hget, rfl, fun t a hsome ↦ by cases hsome⟩
  | some current =>
    obtain ⟨hwithin, haliases, hsome⟩ := saveAccount_same config s token
      (normalizeAccount (current.fields.merge updates))
    exact ⟨hwithin, haliases, fun t a h ↦ (hsome t a h).1⟩

theorem recordImageResult_same (hself : s.resolveAccessToken token = token) (success : Bool) :
    Within s (s.recordImageResult config token success) token token ∧
      (s.recordImageResult config token success).tokenAliases = s.tokenAliases := by
  rw [Service.recordImageResult, hself]
  cases hcurrent : s.accounts.get token with
  | none => exact ⟨within_self fun k a hget _ ↦ hget, rfl⟩
  | some current =>
    obtain ⟨hwithin, haliases, -⟩ := saveAccount_same config s token
      (Service.countResult current success)
    exact ⟨hwithin, haliases⟩

end Updates

section Reached

/-- What a turn made of a service and an account whose token it had: the account goes by another
token now, which the first leads to, with the slots it has. -/
structure Reached (s s' : Service) (first last : Word) (count : ℕ) : Prop where
  within : Within s s' first last
  held : Held s' last count
  leads : Leads s' first last

variable (config : Config) (autoRemoveInvalidAccounts : Bool) {jwtExp : Word → ℤ} {now : ℤ} {s : Service}
  {pool : Pool} {first token : Word} {count : ℕ}

theorem Reached.start (h : Held s token count) : Reached s s token token count where
  within := within_self fun _ _ hget _ ↦ hget
  held := h
  leads := .refl

theorem Reached.same (h : Reached s pool.service first token count) {s' : Service}
    (hwithin : Within pool.service s' token token) (hinflight : s'.imageInflight = pool.service.imageInflight)
    (haliases : s'.tokenAliases = pool.service.tokenAliases)
    (hkeys : ∀ k ∈ s'.accounts.keys, k ∈ pool.service.accounts.keys) : Reached s s' first token count where
  within := h.within.trans hwithin
  held := h.held.same hinflight haliases hkeys
  leads := by
    rw [Leads, haliases]
    exact h.leads

theorem Reached.refresh (h : Reached s pool.service first token count) {force : Bool}
    {answer : Option TokenData} (hfresh : FreshRefresh jwtExp now pool token force answer) :
    Reached s (refreshAccessToken jwtExp now pool token force answer).1.service first
      (refreshAccessToken jwtExp now pool token force answer).2 count := by
  obtain ⟨hheld, hleads⟩ := refresh_held h.held hfresh
  exact ⟨h.within.trans (refresh_within jwtExp now force answer h.held.resolve), hheld, hleads first h.leads⟩

theorem Reached.saveItem (h : Reached s pool.service first token count) {current : Account}
    (hcurrent : pool.service.accounts.get token = some current) (update : Credentials → Credentials) :
    Reached s (saveItem pool token current update).service first token count := by
  refine h.same (within_self fun k a hget hk ↦ get_of_set rfl hget hk) rfl rfl fun k hk ↦ ?_
  obtain rfl | hk := (Dict.mem_keys_set _ token _).mp hk
  · exact Dict.mem_keys_of_get hcurrent
  · exact hk

theorem Reached.updateAccount (h : Reached s pool.service first token count) (updates : Fields) :
    Reached s (pool.service.updateAccount config token updates).1 first token count := by
  obtain ⟨hwithin, haliases, -⟩ := updateAccount_same config h.held.resolve updates
  obtain ⟨hinflight, hkeys⟩ := @Service.updateAccount_spec config pool.service token updates
  exact h.same hwithin hinflight haliases hkeys

theorem Reached.fetched (h : Reached s pool.service first token count) (result : Fields) :
    Reached s (fetched config pool token result).1.service first token count ∧
      ∀ t a, (fetched config pool token result).2 = some (some (t, a)) → t = token := by
  have hsuccess : Reached s (recordRefreshSuccess pool token).service first token count := by
    rw [recordRefreshSuccess, h.held.resolve]
    cases hcurrent : pool.service.accounts.get token with
    | none => exact h
    | some current => exact h.saveItem hcurrent _
  refine ⟨hsuccess.updateAccount config result, fun t a hsome ↦ ?_⟩
  exact (updateAccount_same config hsuccess.held.resolve result).2.2 t a (Option.some.inj hsome)

theorem targets_val (token : Word) : s.targets [token.val] = [s.resolveAccessToken token] := by
  rw [Service.targets]
  simp

theorem quiet_deleteAccounts (h : Held s token count) : Quiet (s.deleteAccounts [token.val]) where
  inflight k := by
    rw [Service.deleteAccounts]
    simp only [targets_val, h.resolve, List.mem_singleton, h.inflight]
    by_cases hk : k = token
    · rw [if_pos hk]
    · rw [if_neg hk, if_neg hk]
  apart k hk hmem := by
    have halias : k ∈ s.tokenAliases.keys := Dict.mem_keys_filter hk
    exact h.apart k halias (Dict.mem_keys_filter hmem)

theorem quiet_updateAccount (h : Quiet s) (token : Word) (updates : Fields) :
    Quiet (s.updateAccount config token updates).1 := by
  obtain ⟨hinflight, hkeys⟩ := @Service.updateAccount_spec config s token updates
  refine ⟨fun k ↦ by rw [hinflight, h.inflight], fun k hk hmem ↦ h.apart k ?_ (hkeys k hmem)⟩
  have haliases : (s.updateAccount config token updates).1.tokenAliases = s.tokenAliases := by
    rw [Service.updateAccount]
    cases s.accounts.get (s.resolveAccessToken token) with
    | none => rfl
    | some current =>
      dsimp only
      rw [Service.saveAccount]
      split
      · rfl
      · rfl
  exact haliases ▸ hk

/-- What is removed is not available, the other accounts stay, and its slots are given back or still
held. -/
theorem Reached.remove (h : Reached s pool.service first token count) :
    Within s (removeInvalidToken config autoRemoveInvalidAccounts pool token).service first token ∧
      (∀ a, (removeInvalidToken config autoRemoveInvalidAccounts pool token).service.accounts.get token =
        some a → isImageAccountAvailable a = false) ∧
      (Quiet (removeInvalidToken config autoRemoveInvalidAccounts pool token).service ∨
        Reached s (removeInvalidToken config autoRemoveInvalidAccounts pool token).service first token count) := by
  have hself := h.held.resolve
  have habnormal (current : Account) :
      isImageAccountAvailable (normalizeAccount (current.fields.merge abnormalFields)) = false := rfl
  have hupdated : ∀ (s' : Service), s'.resolveAccessToken token = token → ∀ a,
      (s'.updateAccount config token abnormalFields).1.accounts.get token = some a →
        isImageAccountAvailable a = false := by
    intro s' hself' a hget
    rw [Service.updateAccount, hself'] at hget
    cases hcurrent : s'.accounts.get token with
    | none =>
      rw [hcurrent] at hget
      cases hcurrent.symm.trans hget
    | some current =>
      simp only [hcurrent] at hget
      have hstatus : (normalizeAccount (current.fields.merge abnormalFields)).status = abnormal := rfl
      rw [Service.saveAccount, if_neg fun hlimited ↦ absurd (hstatus.symm.trans hlimited.1)
        (by decide)] at hget
      rw [Dict.get_set, Function.update_self] at hget
      obtain rfl := Option.some.inj hget
      exact habnormal current
  have hdeleted : Within pool.service (pool.service.deleteAccounts [token.val]) token token :=
    within_self fun k a hget _ ↦ get_of_filter rfl hget
  have hgone : token ∉ (pool.service.deleteAccounts [token.val]).accounts.keys := by
    intro hmem
    obtain ⟨item, hitem, hkey⟩ := List.mem_map.mp hmem
    have hstays := (List.mem_filter.mp hitem).2
    rw [targets_val, hself, hkey] at hstays
    simp at hstays
  rw [removeInvalidToken]
  split
  · dsimp only
    split
    · refine ⟨h.within.trans hdeleted, fun a hget ↦ absurd (Dict.mem_keys_of_get hget) hgone, .inl ?_⟩
      exact quiet_deleteAccounts h.held
    · have hcurrent : (pool.service.deleteAccounts [token.val]).tokenAliases.get token = none := by
        by_contra hsome
        obtain ⟨next, hnext⟩ := Option.ne_none_iff_exists'.mp hsome
        have halias := (Dict.get_filter_eq_some_iff.mp hnext).1
        rw [h.held.current] at halias
        cases halias
      have hself' : (pool.service.deleteAccounts [token.val]).resolveAccessToken token = token :=
        ((quiet_deleteAccounts h.held).held hcurrent).resolve
      refine ⟨?_, hupdated _ hself', .inl (quiet_updateAccount config (quiet_deleteAccounts h.held) token _)⟩
      exact (h.within.trans hdeleted).trans (updateAccount_same config hself' abnormalFields).1
  · have hreached := h.updateAccount config abnormalFields
    exact ⟨hreached.within, hupdated _ hself, .inr hreached⟩

theorem Reached.invalidated (now : ℤ) (h : Reached s pool.service first token count) :
    Within s (invalidated config autoRemoveInvalidAccounts now pool token).service first token ∧
      (Quiet (invalidated config autoRemoveInvalidAccounts now pool token).service ∨
        Reached s (invalidated config autoRemoveInvalidAccounts now pool token).service first token count) := by
  have hseen : Reached s (recordInvalidTokenSeen now pool token).1.service first token count := by
    rw [recordInvalidTokenSeen, h.held.resolve]
    cases hcurrent : pool.service.accounts.get token with
    | none => exact h
    | some current => exact h.saveItem hcurrent _
  rw [TokenRefresh.invalidated]
  dsimp only
  split
  · obtain ⟨hwithin, -, hslots⟩ := hseen.remove config autoRemoveInvalidAccounts
    exact ⟨hwithin, hslots⟩
  · exact ⟨hseen.within, .inr hseen⟩

end Reached

end AllAiTools.ChatGpt2Api.Services.TokensIssued
