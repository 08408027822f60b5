import AllAiTools.ChatGpt2Api.Text
import AllAiTools.Foundation.Dict

namespace AllAiTools.ChatGpt2Api.Services.AccountService

open Text Foundation

section Accounts

/-- The fields of a dictionary that describes an account, where they are given. -/
structure Fields where
  type : Option Str
  status : Option Str
  quota : Option ℤ
  imageQuotaUnknown : Option Bool
  sourceType : Option Str
  exportType : Option Str
  success : Option ℤ
  fail : Option ℤ

structure Account where
  type : Str
  status : Str
  quota : ℕ
  imageQuotaUnknown : Bool
  sourceType : Str
  exportType : Str
  success : ℤ
  fail : ℤ

def Account.fields (account : Account) : Fields where
  type := some account.type
  status := some account.status
  quota := some account.quota
  imageQuotaUnknown := some account.imageQuotaUnknown
  sourceType := some account.sourceType
  exportType := some account.exportType
  success := some account.success
  fail := some account.fail

/-- `{**current, **updates}`. -/
def Fields.merge (current updates : Fields) : Fields where
  type := updates.type.or current.type
  status := updates.status.or current.status
  quota := updates.quota.or current.quota
  imageQuotaUnknown := updates.imageQuotaUnknown.or current.imageQuotaUnknown
  sourceType := updates.sourceType.or current.sourceType
  exportType := updates.exportType.or current.exportType
  success := updates.success.or current.success
  fail := updates.fail.or current.fail

def Fields.empty : Fields := ⟨none, none, none, none, none, none, none, none⟩

/-- `value or default`. -/
def orElse (value : Option Str) (default : Str) : Str :=
  if value.getD [] = [] then default else value.getD []

def free : Str := "free".toList

def web : Str := "web".toList

def codex : Str := "codex".toList

def normal : Str := "正常".toList

def limited : Str := "限流".toList

def disabled : Str := "禁用".toList

def abnormal : Str := "异常".toList

def normalizeSourceType (value : Str) : Str :=
  orElse (some (lower (strip (orElse (some value) web)))) web

def normalizeAccountType (value : Str) : Option Str :=
  let raw := strip value
  if raw = [] then none
  else
    let key := (lower raw).map fun c ↦ if c = '-' ∨ c = ' ' then '_' else c
    let compact := key.filter (· ≠ '_')
    let aliases : List (Str × Str) :=
      [(free, free), ("plus".toList, "Plus".toList), ("pro".toList, "Pro".toList),
        ("prolite".toList, "ProLite".toList), ("team".toList, "Team".toList),
        ("business".toList, "Team".toList), ("enterprise".toList, "Enterprise".toList)]
    some (((aliases.lookup compact).or (aliases.lookup key)).getD raw)

/-- `_normalize_account` for an item that has a token. -/
def normalizeAccount (item : Fields) : Account :=
  let isExport := lower (strip (item.type.getD [])) = codex
  let exportType := if isExport then codex else item.exportType.getD []
  { type := if isExport then free else orElse item.type free
    status := orElse item.status normal
    quota := (item.quota.getD 0).toNat
    imageQuotaUnknown := item.imageQuotaUnknown.getD false
    sourceType := normalizeSourceType
      (orElse item.sourceType (if lower (strip exportType) = codex then codex else []))
    exportType
    success := item.success.getD 0
    fail := item.fail.getD 0 }

def isImageAccountAvailable (account : Account) : Bool :=
  if [disabled, limited, abnormal].contains account.status then false
  else account.imageQuotaUnknown || 0 < account.quota

def accountMatchesPlanType (account : Account) : Option Str → Bool
  | none => true
  | some planType =>
    match normalizeAccountType planType, normalizeAccountType account.type with
    | some plan, some type => lower plan = lower type
    | _, _ => false

def accountMatchesSourceType (account : Account) : Option Str → Bool
  | none => true
  | some sourceType => normalizeSourceType account.sourceType = normalizeSourceType sourceType

def accountMatchesAnyPlanType (account : Account) (planTypes : List Str) : Bool :=
  planTypes.isEmpty ||
    match normalizeAccountType account.type with
    | some type => (planTypes.filterMap normalizeAccountType).contains type
    | none => false

/-- What a client asks of an account. -/
structure Wanted where
  planType : Option Str
  sourceType : Option Str
  planTypes : List Str

def Wanted.meets (wanted : Wanted) (account : Account) : Bool :=
  isImageAccountAvailable account && accountMatchesPlanType account wanted.planType &&
    accountMatchesAnyPlanType account wanted.planTypes &&
    accountMatchesSourceType account wanted.sourceType

end Accounts

structure Config where
  imageAccountConcurrency : ℕ
  autoRemoveRateLimitedAccounts : Bool
  concurrency_pos : 0 < imageAccountConcurrency

/-- The accounts by their tokens. `imageInflight` is zero where the dictionary has nothing. -/
structure Service where
  accounts : Dict Word Account
  imageInflight : Word → ℕ
  tokenAliases : Dict Word Word
  index : ℕ

namespace Service

variable (config : Config) (s : Service)

def resolveFrom (accounts : Dict Word Account) (aliases : Dict Word Word) :
    ℕ → List Word → Word → Word
  | 0, _, token => token
  | fuel + 1, seen, token =>
    if token ∈ accounts.keys ∨ token ∈ seen then token
    else match aliases.get token with
      | some next => resolveFrom accounts aliases fuel (token :: seen) next
      | none => token

/-- `_resolve_access_token_locked`: the loop sees no alias twice. -/
def resolveAccessToken (token : Word) : Word :=
  resolveFrom s.accounts s.tokenAliases s.tokenAliases.items.length [] token

def listReadyCandidateTokens (wanted : Wanted) (excluded : List Word) : List Word :=
  (s.accounts.items.filter fun item ↦ wanted.meets item.2 && item.1 ∉ excluded).map Prod.fst

def listAvailableCandidateTokens (wanted : Wanted) (excluded : List Word) : List Word :=
  (s.listReadyCandidateTokens wanted excluded).filter fun token ↦
    s.imageInflight token < max 1 config.imageAccountConcurrency

/-- The token that is handed out, with a slot of it; `none` while there is none to wait for. -/
def acquireNextCandidateToken (wanted : Wanted) (excluded : List Word) :
    Option (Word × Service) :=
  let tokens := s.listAvailableCandidateTokens config wanted excluded
  (tokens[s.index % tokens.length]?).map fun token ↦
    (token,
      { s with
        index := s.index + 1
        imageInflight := Function.update s.imageInflight token (s.imageInflight token + 1) })

def releaseImageSlot (token : Word) : Service :=
  let accessToken := s.resolveAccessToken token
  let currentInflight := s.imageInflight accessToken
  { s with
    imageInflight := Function.update s.imageInflight accessToken
      (if currentInflight ≤ 1 then 0 else currentInflight - 1) }

/-- The account that tokens are refreshed for, with its new token. -/
def rotation (oldAccessToken : Word) (accessToken : Str) : Option (Word × Word × Account) :=
  let oldToken := s.resolveAccessToken oldAccessToken
  match s.accounts.get oldToken, word? (orElse (some accessToken) oldToken.val) with
  | some current, some newToken => some (oldToken, newToken, current)
  | _, _ => none

def applyRefreshedTokens (oldAccessToken : Word) (accessToken : Str) : Service :=
  match s.rotation oldAccessToken accessToken with
  | some (oldToken, newToken, current) =>
    let rotated :=
      if newToken ≠ oldToken then
        { s with
          accounts := s.accounts.pop oldToken
          tokenAliases := s.tokenAliases.set oldToken newToken
          imageInflight := Function.update
            (Function.update s.imageInflight newToken
              (s.imageInflight newToken + s.imageInflight oldToken)) oldToken 0 }
      else s
    { rotated with
      accounts := rotated.accounts.set newToken (normalizeAccount current.fields) }
  | none => s

/-- What `delete_accounts` is to delete. -/
def targets (tokens : List Str) : List Word := (tokens.filterMap word?).map s.resolveAccessToken

def deleteAccounts (tokens : List Str) : Service :=
  let targetSet := s.targets tokens
  let accounts := s.accounts.filter fun item ↦ item.1 ∉ targetSet
  { accounts
    imageInflight := fun token ↦ if token ∈ targetSet then 0 else s.imageInflight token
    tokenAliases := s.tokenAliases.filter fun item ↦ item.1 ∉ targetSet && item.2 ∉ targetSet
    index :=
      if accounts.items.length < s.accounts.items.length then
        if accounts.items ≠ [] then s.index % accounts.items.length else 0
      else s.index }

/-- The payloads of each token, put together. -/
def dedupe (payloads : List (Str × Fields)) : Dict Word Fields :=
  payloads.foldl
    (fun deduped payload ↦ match word? payload.1 with
      | some token =>
        deduped.set token (((deduped.get token).getD Fields.empty).merge payload.2)
      | none => deduped)
    Dict.empty

def addAccountPayload (accounts : Dict Word Account) (token : Word) (payload : Fields) :
    Dict Word Account :=
  let current := ((accounts.get token).map Account.fields).getD Fields.empty
  accounts.set token <| normalizeAccount
    { current.merge payload with
      type := some (orElse payload.type (orElse current.type free)) }

def addAccountPayloads (payloads : List (Str × Fields)) : Service :=
  { s with
    accounts := (dedupe payloads).items.foldl
      (fun accounts item ↦ addAccountPayload accounts item.1 item.2) s.accounts }

/-- An account is written back, or goes if it ran into its limit. -/
def saveAccount (token : Word) (account : Account) : Service × Option (Word × Account) :=
  if account.status = limited ∧ config.autoRemoveRateLimitedAccounts then
    ({ s with accounts := s.accounts.pop token }, none)
  else ({ s with accounts := s.accounts.set token account }, some (token, account))

def updateAccount (token : Word) (updates : Fields) : Service × Option (Word × Account) :=
  let accessToken := s.resolveAccessToken token
  match s.accounts.get accessToken with
  | some current =>
    s.saveAccount config accessToken (normalizeAccount (current.fields.merge updates))
  | none => (s, none)

/-- What becomes of an account by a result. -/
def countResult (current : Account) (success : Bool) : Account :=
  normalizeAccount <| Account.fields <|
    if success then
      let quota := if current.imageQuotaUnknown then current.quota else current.quota - 1
      { current with
        success := current.success + 1
        quota
        status :=
          if !current.imageQuotaUnknown ∧ quota = 0 then limited
          else if current.status = limited then normal
          else current.status }
    else { current with fail := current.fail + 1 }

/-- What `mark_image_result` does after it has released the slot. -/
def recordImageResult (token : Word) (success : Bool) : Service :=
  let accessToken := s.resolveAccessToken token
  match s.accounts.get accessToken with
  | some current => (s.saveAccount config accessToken (countResult current success)).1
  | none => s

section Resolving

variable {accounts : Dict Word Account} {aliases : Dict Word Word}

/-- With every alias seen, the loop is over. -/
theorem resolveFrom_succ (fuel : ℕ) : ∀ (seen : List Word) (token : Word), seen.Nodup →
    seen ⊆ aliases.keys → aliases.items.length ≤ fuel + seen.length →
      resolveFrom accounts aliases (fuel + 1) seen token =
        resolveFrom accounts aliases fuel seen token := by
  induction fuel with
  | zero =>
    intro seen token hnodup hsub hlength
    rw [resolveFrom, resolveFrom]
    split
    · rfl
    · rename_i hgo
      have hperm : seen.Perm aliases.keys :=
        (List.subperm_of_subset hnodup hsub).perm_of_length_le (by simpa [Dict.keys] using hlength)
      have hnone : aliases.get token = none := by
        by_contra hsome
        obtain ⟨next, hnext⟩ := Option.ne_none_iff_exists'.mp hsome
        exact hgo (.inr (hperm.mem_iff.mpr (Dict.mem_keys_of_get hnext)))
      rw [hnone]
  | succ fuel ih =>
    intro seen token hnodup hsub hlength
    rw [resolveFrom, resolveFrom]
    split
    · rfl
    · rename_i hgo
      cases hnext : aliases.get token with
      | none => rfl
      | some next =>
        refine ih _ _ ?_ ?_ ?_
        · exact List.nodup_cons.mpr ⟨fun hseen ↦ hgo (.inr hseen), hnodup⟩
        · exact List.cons_subset.mpr ⟨Dict.mem_keys_of_get hnext, hsub⟩
        · rw [List.length_cons]
          omega

/-- The loop ends by itself: more turns than there are aliases change nothing. -/
theorem resolveFrom_enough (token : Word) (more : ℕ) :
    resolveFrom s.accounts s.tokenAliases (s.tokenAliases.items.length + more) [] token =
      s.resolveAccessToken token := by
  induction more with
  | zero => rfl
  | succ more ih =>
    rw [← ih, ← Nat.add_assoc]
    refine resolveFrom_succ _ _ _ List.nodup_nil (List.nil_subset _) ?_
    omega

end Resolving

section Specs

variable {config s}

theorem acquire_spec {wanted : Wanted} {excluded : List Word} {token : Word} {service : Service}
    (h : s.acquireNextCandidateToken config wanted excluded = some (token, service)) :
    token ∈ s.accounts.keys ∧ s.imageInflight token < config.imageAccountConcurrency ∧
      service = { s with
        index := s.index + 1
        imageInflight := Function.update s.imageInflight token (s.imageInflight token + 1) } := by
  rw [acquireNextCandidateToken, Option.map_eq_some_iff] at h
  obtain ⟨token', htoken, heq⟩ := h
  obtain ⟨rfl, rfl⟩ := Prod.mk.inj heq
  obtain ⟨hready, hfree⟩ := List.mem_filter.mp (List.mem_of_getElem? htoken)
  obtain ⟨item, hitem, hkey⟩ := List.mem_map.mp hready
  have hpos := config.concurrency_pos
  have hlt : s.imageInflight token' < max 1 config.imageAccountConcurrency := by simpa using hfree
  refine ⟨List.mem_map.mpr ⟨item, (List.mem_filter.mp hitem).1, hkey⟩, ?_, rfl⟩
  omega

theorem saveAccount_spec {token : Word} (htoken : token ∈ s.accounts.keys) (account : Account) :
    (s.saveAccount config token account).1.imageInflight = s.imageInflight ∧
      ∀ t ∈ (s.saveAccount config token account).1.accounts.keys, t ∈ s.accounts.keys := by
  rw [saveAccount]
  split
  · exact ⟨rfl, fun t ht ↦ ((s.accounts.mem_keys_pop token).mp ht).1⟩
  · refine ⟨rfl, fun t ht ↦ ?_⟩
    rcases (s.accounts.mem_keys_set token account).mp ht with rfl | hold
    · exact htoken
    · exact hold

theorem updateAccount_spec (token : Word) (updates : Fields) :
    (s.updateAccount config token updates).1.imageInflight = s.imageInflight ∧
      ∀ t ∈ (s.updateAccount config token updates).1.accounts.keys, t ∈ s.accounts.keys := by
  rw [updateAccount]
  cases hcurrent : s.accounts.get (s.resolveAccessToken token) with
  | none => exact ⟨rfl, fun _ ht ↦ ht⟩
  | some current => exact saveAccount_spec (Dict.mem_keys_of_get hcurrent) _

theorem recordImageResult_spec (token : Word) (success : Bool) :
    (s.recordImageResult config token success).imageInflight = s.imageInflight ∧
      ∀ t ∈ (s.recordImageResult config token success).accounts.keys, t ∈ s.accounts.keys := by
  rw [recordImageResult]
  cases hcurrent : s.accounts.get (s.resolveAccessToken token) with
  | none => exact ⟨rfl, fun _ ht ↦ ht⟩
  | some current => exact saveAccount_spec (Dict.mem_keys_of_get hcurrent) _

theorem mem_keys_addAccountPayloads (payloads : List (Str × Fields)) {token : Word} :
    token ∈ (s.addAccountPayloads payloads).accounts.keys ↔
      token ∈ s.accounts.keys ∨ token ∈ (dedupe payloads).keys := by
  have hfold : ∀ (items : List (Word × Fields)) (accounts : Dict Word Account),
      token ∈ (items.foldl (fun accounts item ↦ addAccountPayload accounts item.1 item.2)
        accounts).keys ↔ token ∈ accounts.keys ∨ token ∈ items.map Prod.fst := by
    intro items
    induction items with
    | nil => exact fun accounts ↦ by simp
    | cons item items ih =>
      intro accounts
      have hset (a : Account) : token ∈ (accounts.set item.1 a).keys ↔
          token = item.1 ∨ token ∈ accounts.keys := accounts.mem_keys_set item.1 a
      rw [List.foldl_cons, ih, addAccountPayload, hset, List.map_cons, List.mem_cons, or_assoc, or_left_comm]
  exact hfold _ _

theorem rotation_spec {oldAccessToken : Word} {accessToken : Str} {oldToken newToken : Word}
    {current : Account}
    (h : s.rotation oldAccessToken accessToken = some (oldToken, newToken, current)) :
    oldToken ∈ s.accounts.keys := by
  rw [rotation] at h
  split at h
  · rename_i hcurrent _
    obtain ⟨rfl, -⟩ := Prod.mk.inj (Option.some.inj h)
    exact Dict.mem_keys_of_get hcurrent
  · cases h

end Specs

end Service

end AllAiTools.ChatGpt2Api.Services.AccountService
