import AllAiTools.ChatGpt2Api.Services.AccountService
import AllAiTools.Foundation.Forwarding
import AllAiTools.Foundation.Run

namespace AllAiTools.ChatGpt2Api.Services.TokenAliases

open Relation Text Foundation Foundation.Chase Foundation.Forwarding Foundation.Run AccountService

section Steps

/-- The service, with every token ever given to an account, the latest first. The tokens are only for
saying what is true of them: nothing reads them. -/
structure State where
  service : Service
  past : List (Word × ℕ)

inductive Action
  | applyRefreshedTokens (oldAccessToken : Word) (accessToken : Str)
  | deleteAccounts (tokens : List Str)
  | updateAccount (token : Word) (updates : Fields)
  | recordImageResult (token : Word) (success : Bool)
  | addAccountPayloads (payloads : List (Str × Fields))

/-- The tokens as names of the accounts. -/
def directory (s : State) : Directory Word ℕ where
  current token := s.service.accounts.keys.contains token
  forward := s.service.tokenAliases.get
  past := s.past

variable (config : Config)

/-- New accounts are numbered by the tokens that were given before. -/
def enroll (past : List (Word × ℕ)) (tokens : List Word) : List (Word × ℕ) :=
  tokens.foldl (fun past token ↦ (token, past.length) :: past) past

def newTokens (service : Service) (payloads : List (Str × Fields)) : List Word :=
  (Service.dedupe payloads).keys.filter fun token ↦ !service.accounts.keys.contains token

/-- An account that is rotated is given its new token. -/
def rotated (s : State) (oldAccessToken : Word) (accessToken : Str) : List (Word × ℕ) :=
  match s.service.rotation oldAccessToken accessToken with
  | some (oldToken, newToken, _) =>
    if newToken ≠ oldToken then
      match (directory s).holder oldToken with
      | some account => (newToken, account) :: s.past
      | none => s.past
    else s.past
  | none => s.past

def step (s : State) : Action → State
  | .applyRefreshedTokens oldAccessToken accessToken =>
    ⟨s.service.applyRefreshedTokens oldAccessToken accessToken, rotated s oldAccessToken accessToken⟩
  | .deleteAccounts tokens => { s with service := s.service.deleteAccounts tokens }
  | .updateAccount token updates => { s with service := (s.service.updateAccount config token updates).1 }
  | .recordImageResult token success => { s with service := s.service.recordImageResult config token success }
  | .addAccountPayloads payloads =>
    ⟨s.service.addAccountPayloads payloads, enroll s.past (newTokens s.service payloads)⟩

def initial (accounts : Dict Word Account) : State where
  service := ⟨accounts, fun _ ↦ 0, Dict.empty, 0⟩
  past := enroll [] accounts.keys

end Steps

section Property

/-- The loop ends, every token of an account that is still there leads to its current token, and no
token, which is the account's that was given it last, leads to the current token of another. -/
structure Resolves (s : State) : Prop where
  ends : ∀ token more, Service.resolveFrom s.service.accounts s.service.tokenAliases
    (s.service.tokenAliases.items.length + more) [] token = s.service.resolveAccessToken token
  current : ∀ k ∈ s.service.accounts.keys, ∀ account, (directory s).holder k = some account →
    ∀ token, (token, account) ∈ s.past → s.service.resolveAccessToken token = k
  apart : ∀ token account, (directory s).holder token = some account → ∀ k ∈ s.service.accounts.keys,
    s.service.resolveAccessToken token = k → (directory s).holder k = some account

/-- No token of an account that is still there is added for another one. -/
def Separate (s : State) : Action → Prop
  | .addAccountPayloads payloads => ∀ token ∈ newTokens s.service payloads, ∀ account,
    (token, account) ∈ s.past → ¬ (directory s).Living account
  | _ => True

/-- No account is given a token that another one still there has had, or that a token of another account
has an alias to. -/
def Own (s : State) : Action → Prop
  | .applyRefreshedTokens oldAccessToken accessToken => ∀ oldToken newToken current account,
    s.service.rotation oldAccessToken accessToken = some (oldToken, newToken, current) →
      newToken ≠ oldToken → (directory s).holder oldToken = some account →
        (∀ other, (newToken, other) ∈ s.past → other ≠ account → ¬ (directory s).Living other) ∧
          ∀ token, s.service.tokenAliases.get token = some newToken →
            (directory s).holder token = some account
  | .addAccountPayloads payloads => ∀ token ∈ newTokens s.service payloads,
    (∀ account, (token, account) ∈ s.past → ¬ (directory s).Living account) ∧
      ∀ token', s.service.tokenAliases.get token' ≠ some token
  | _ => True

end Property

section Resolving

variable {s : State}

theorem resolveFrom_spec {fuel : ℕ} {seen : List Word} {token : Word} (hnodup : seen.Nodup)
    (hsub : seen ⊆ s.service.tokenAliases.keys)
    (hfuel : s.service.tokenAliases.items.length < fuel + seen.length)
    (hseen : ∀ t ∈ seen, TransGen (Link (directory s).next) t token) :
    let last := Service.resolveFrom s.service.accounts s.service.tokenAliases fuel seen token
    ReflTransGen (Link (directory s).next) token last ∧
      ((directory s).next last = none ∨ Cycles (directory s).next last) := by
  induction fuel generalizing seen token with
  | zero =>
    have hle := (List.subperm_of_subset hnodup hsub).length_le
    rw [Dict.keys, List.length_map] at hle
    omega
  | succ fuel ih =>
    dsimp only
    rw [Service.resolveFrom]
    by_cases hcurrent : token ∈ s.service.accounts.keys
    · rw [if_pos (.inl hcurrent)]
      exact ⟨.refl, .inl (Directory.next_current (List.contains_iff_mem.mpr hcurrent))⟩
    by_cases hmet : token ∈ seen
    · rw [if_pos (.inr hmet)]
      exact ⟨.refl, .inr ⟨token, .refl, hseen token hmet⟩⟩
    rw [if_neg (by simp [hcurrent, hmet])]
    cases hnext : s.service.tokenAliases.get token with
    | none =>
      have hend : (directory s).next token = none :=
        (if_neg fun h ↦ hcurrent (List.contains_iff_mem.mp h)).trans hnext
      exact ⟨.refl, .inl hend⟩
    | some next =>
      have hlink : Link (directory s).next token next :=
        Directory.link_iff.mpr ⟨Bool.eq_false_iff.mpr (mt List.contains_iff_mem.mp hcurrent), hnext⟩
      have hrest := ih (List.nodup_cons.mpr ⟨hmet, hnodup⟩)
        (List.cons_subset.mpr ⟨Dict.mem_keys_of_get hnext, hsub⟩)
        (by rw [List.length_cons]; omega)
        (by
          intro t ht
          obtain rfl | ht := List.mem_cons.mp ht
          · exact .single hlink
          · exact (hseen t ht).tail hlink)
      exact ⟨hrest.1.head hlink, hrest.2⟩

/-- Where the loop comes to: to an end of the aliases, or to a token on a ring of them. -/
theorem resolve_spec (s : State) (token : Word) :
    ReflTransGen (Link (directory s).next) token (s.service.resolveAccessToken token) ∧
      ((directory s).next (s.service.resolveAccessToken token) = none ∨
        Cycles (directory s).next (s.service.resolveAccessToken token)) := by
  rw [← s.service.resolveFrom_enough token 1]
  exact resolveFrom_spec List.nodup_nil (List.nil_subset _) (by simp) fun t ht ↦ absurd ht List.not_mem_nil

theorem resolve_ends {token k : Word} (h : Ends (directory s).next token k) :
    s.service.resolveAccessToken token = k := by
  obtain ⟨hpath, hlast⟩ := resolve_spec s token
  have hnone : (directory s).next (s.service.resolveAccessToken token) = none := by
    refine hlast.resolve_right fun hcycle ↦ h.not_cycles ?_
    obtain ⟨b, hb, hround⟩ := hcycle
    exact ⟨b, hpath.trans hb, hround⟩
  exact Ends.unique ⟨hpath, hnone⟩ h

theorem resolves_of_faithful (h : (directory s).Faithful) : Resolves s where
  ends := s.service.resolveFrom_enough
  current k hk account hholder token htoken :=
    resolve_ends (h.leads k account (List.contains_iff_mem.mpr hk) hholder token htoken)
  apart token account hholder k hk hresolve := by
    refine h.apart token account k hholder ?_ (List.contains_iff_mem.mpr hk)
    rw [← hresolve]
    exact (resolve_spec s token).1

end Resolving

section Invariant

variable {config : Config} {s : State}

/-- The tokens are the names of the accounts, and the accounts are numbered by them. -/
structure Inv (s : State) : Prop where
  names : (directory s).Inv
  bounded : (directory s).Bounded

theorem names_congr {d d' : Directory Word ℕ} (hinv : d.Inv)
    (hcurrent : ∀ t, d'.current t = true ↔ d.current t = true) (hforward : d'.forward = d.forward)
    (hpast : d'.past = d.past) : d'.Inv := by
  obtain ⟨current, forward, past⟩ := d
  obtain ⟨current', forward', past'⟩ := d'
  obtain rfl : forward' = forward := hforward
  obtain rfl : past' = past := hpast
  obtain rfl : current' = current := funext fun t ↦ Bool.eq_iff_iff.mpr (hcurrent t)
  exact hinv

/-- Accounts may go while the aliases stay. -/
theorem Inv.remove (hinv : Inv s) {service : Service}
    (hkeys : ∀ t ∈ service.accounts.keys, t ∈ s.service.accounts.keys)
    (haliases : service.tokenAliases = s.service.tokenAliases) : Inv { s with service := service } where
  names := by
    refine hinv.names.shrink rfl (fun t ht ↦ ?_) (fun t t' ht ↦ ?_) fun t t' k _ _ ht _ ↦ ?_
    · exact List.contains_iff_mem.mpr (hkeys t (List.contains_iff_mem.mp ht))
    · rwa [directory, haliases] at ht
    · rwa [directory, haliases]
  bounded := hinv.bounded

theorem saveAccount_aliases (token : Word) (account : Account) :
    (s.service.saveAccount config token account).1.tokenAliases = s.service.tokenAliases := by
  rw [Service.saveAccount]
  split <;> rfl

theorem Inv.updateAccount (hinv : Inv s) (token : Word) (updates : Fields) :
    Inv { s with service := (s.service.updateAccount config token updates).1 } := by
  refine hinv.remove (Service.updateAccount_spec token updates).2 ?_
  rw [Service.updateAccount]
  cases s.service.accounts.get (s.service.resolveAccessToken token) with
  | none => rfl
  | some current => exact saveAccount_aliases _ _

theorem Inv.recordImageResult (hinv : Inv s) (token : Word) (success : Bool) :
    Inv { s with service := s.service.recordImageResult config token success } := by
  refine hinv.remove (Service.recordImageResult_spec token success).2 ?_
  rw [Service.recordImageResult]
  cases s.service.accounts.get (s.service.resolveAccessToken token) with
  | none => rfl
  | some current => exact saveAccount_aliases _ _

/-- A token that leads to the current token of an account that stays is no target. -/
theorem not_target {tokens : List Str} {t k : Word} (hends : Ends (directory s).next t k)
    (hk : k ∉ s.service.targets tokens) : t ∉ s.service.targets tokens := by
  intro ht
  obtain ⟨token, -, rfl⟩ := List.mem_map.mp ht
  have hend : (directory s).next (s.service.resolveAccessToken token) = none :=
    (resolve_spec s token).2.resolve_right hends.not_cycles
  exact hk ((ends_of_none hend).mp hends ▸ ht)

theorem Inv.deleteAccounts (hinv : Inv s) (tokens : List Str) :
    Inv { s with service := s.service.deleteAccounts tokens } where
  names := by
    have hkeys : ∀ t, t ∈ (s.service.deleteAccounts tokens).accounts.keys →
        t ∈ s.service.accounts.keys ∧ t ∉ s.service.targets tokens := by
      intro t ht
      obtain ⟨item, hitem, rfl⟩ := List.mem_map.mp ht
      obtain ⟨hmem, htarget⟩ := List.mem_filter.mp hitem
      exact ⟨List.mem_map_of_mem hmem, by simpa using htarget⟩
    refine hinv.names.shrink rfl (fun t ht ↦ ?_) (fun t t' ht ↦ ?_) fun t t' k hk hends ht hcurrent ↦ ?_
    · exact List.contains_iff_mem.mpr (hkeys t (List.contains_iff_mem.mp ht)).1
    · exact Dict.get_eq_some_iff.mpr (List.mem_of_mem_filter (Dict.get_eq_some_iff.mp ht))
    · have hstays := (hkeys k (List.contains_iff_mem.mp hk)).2
      have hlink : Link (directory s).next t t' := Directory.link_iff.mpr ⟨hcurrent, ht⟩
      refine Dict.get_eq_some_iff.mpr (List.mem_filter.mpr ⟨Dict.get_eq_some_iff.mp ht, ?_⟩)
      simp [not_target hends hstays, not_target ((Ends.of_link hlink).mp hends) hstays]
  bounded := hinv.bounded

theorem Inv.applyRefreshedTokens (hinv : Inv s) {oldAccessToken : Word} {accessToken : Str}
    (hown : Own s (.applyRefreshedTokens oldAccessToken accessToken)) :
    Inv (step config s (.applyRefreshedTokens oldAccessToken accessToken)) := by
  rw [step, Service.applyRefreshedTokens, rotated]
  cases hrotation : s.service.rotation oldAccessToken accessToken with
  | none => exact hinv
  | some rotation =>
    obtain ⟨oldToken, newToken, current⟩ := rotation
    have hold := Service.rotation_spec hrotation
    dsimp only
    by_cases hsame : newToken = oldToken
    · rw [if_neg (not_not.mpr hsame), if_neg (not_not.mpr hsame)]
      refine hinv.remove (fun t ht ↦ ?_) rfl
      obtain rfl | ht := (s.service.accounts.mem_keys_set newToken _).mp ht
      · exact hsame ▸ hold
      · exact ht
    · obtain ⟨account, haccount⟩ := hinv.names.named oldToken (List.contains_iff_mem.mpr hold)
      obtain ⟨hfree, hlast⟩ := hown oldToken newToken current account hrotation hsame haccount
      rw [if_pos hsame, if_pos hsame, haccount]
      dsimp only
      have hrename := hinv.names.rename (List.contains_iff_mem.mpr hold) haccount hsame hfree hlast
      have hbounded : account ≤ s.past.length :=
        (hinv.bounded oldToken account (Directory.mem_past_of_holder haccount)).le
      refine ⟨names_congr hrename (fun t ↦ ?_) ?_ rfl, hinv.bounded.push hbounded rfl⟩
      · rw [directory, List.contains_iff_mem, Dict.mem_keys_set, Dict.mem_keys_pop, Directory.rename]
        by_cases hnew : t = newToken
        · simp [hnew]
        · by_cases ht : t = oldToken
          · simp [ht, Ne.symm hsame]
          · simp [hnew, ht, directory]
      · exact Dict.get_set _ _ _

theorem Inv.addAccountPayloads (hinv : Inv s) {payloads : List (Str × Fields)}
    (hown : Own s (.addAccountPayloads payloads)) : Inv (step config s (.addAccountPayloads payloads)) := by
  have hnodup : (newTokens s.service payloads).Nodup := (Service.dedupe payloads).nodup.filter _
  obtain ⟨hnames, hbounded⟩ := hinv.names.giveAll hinv.bounded hnodup (fun t ht ↦ (hown t ht).1)
    fun t ht ↦ (hown t ht).2
  obtain ⟨hcurrent, hforward, hpast⟩ :=
    Directory.giveAll_spec (directory s) (newTokens s.service payloads)
  constructor
  · refine names_congr hnames (fun t ↦ ?_) hforward.symm hpast.symm
    rw [hcurrent, directory, List.contains_iff_mem, directory, List.contains_iff_mem, step,
      Service.mem_keys_addAccountPayloads, newTokens, List.mem_filter, Bool.not_eq_true',
      ← Bool.not_eq_true, List.contains_iff_mem]
    tauto
  · intro t account ht
    have hlt := hbounded t account (hpast ▸ ht)
    rwa [hpast] at hlt

theorem step_inv (hinv : Inv s) {action : Action} (hown : Own s action) : Inv (step config s action) := by
  cases action with
  | applyRefreshedTokens oldAccessToken accessToken => exact hinv.applyRefreshedTokens hown
  | deleteAccounts tokens => exact hinv.deleteAccounts tokens
  | updateAccount token updates => exact hinv.updateAccount token updates
  | recordImageResult token success => exact hinv.recordImageResult token success
  | addAccountPayloads payloads => exact hinv.addAccountPayloads hown

theorem initial_inv (accounts : Dict Word Account) : Inv (initial accounts) := by
  have hempty : (⟨fun _ ↦ false, fun _ ↦ none, []⟩ : Directory Word ℕ).Inv := by
    refine ⟨fun t ht ↦ ?_, fun t i ht ↦ ?_, fun k i hk ↦ ?_, fun t t' ht ↦ ?_⟩
    · cases ht
    · cases ht
    · cases hk
    · cases ht
  have hnodup : accounts.keys.Nodup := accounts.nodup
  obtain ⟨hnames, hbounded⟩ := hempty.giveAll (fun t i ht ↦ by cases ht)
    hnodup (fun t _ i hi ↦ by cases hi) fun t _ t' ht ↦ by cases ht
  obtain ⟨hcurrent, hforward, hpast⟩ :=
    Directory.giveAll_spec (⟨fun _ ↦ false, fun _ ↦ none, []⟩ : Directory Word ℕ) accounts.keys
  constructor
  · refine names_congr hnames (fun t ↦ ?_) hforward.symm hpast.symm
    rw [hcurrent, directory, List.contains_iff_mem, initial]
    simp
  · intro t account ht
    have hlt := hbounded t account (hpast ▸ ht)
    rwa [hpast] at hlt

end Invariant

section Runs

variable (config : Config)

/-- In every run in which no account is given a token that another one still there has had, or that an
alias of another leads to, the aliases lead to the current tokens. -/
theorem aliases_resolve (accounts : Dict Word Account) {trace : List Action}
    (h : Along (step config) Own (initial accounts) trace) :
    Resolves (run (step config) (initial accounts) trace) :=
  resolves_of_faithful
    (h.invariant Inv (fun _ _ hinv hown ↦ step_inv hinv hown) (initial_inv accounts)).names.faithful

def tokenA : Word := ⟨['x'], by decide, by decide⟩

def tokenB : Word := ⟨['b'], by decide, by decide⟩

def plainAccount : Account := normalizeAccount Fields.empty

def oneAccount : Dict Word Account := Dict.empty.set tokenA plainAccount

def removing : Config := ⟨1, true, Nat.one_pos⟩

def limiting : Fields := { Fields.empty with status := some limited }

theorem aliases_resolve_rotated :
    Resolves (run (step removing) (initial oneAccount)
      [.applyRefreshedTokens tokenA ['b'], .updateAccount tokenA limiting]) := by
  refine aliases_resolve removing oneAccount ⟨fun oldToken newToken current account hrotation _ _ ↦ ?_,
    trivial,
    trivial⟩
  have hrotated : (initial oneAccount).service.rotation tokenA ['b'] =
      some (tokenA, tokenB, plainAccount) := by
    rfl
  obtain ⟨-, hnew⟩ := Prod.mk.inj (Option.some.inj (hrotated.symm.trans hrotation))
  obtain ⟨rfl, -⟩ := Prod.mk.inj hnew
  refine ⟨fun other hother ↦ ?_, fun token htoken ↦ ?_⟩
  · have hpast : (initial oneAccount).past = [(tokenA, 0)] := by rfl
    rw [hpast, List.mem_singleton] at hother
    exact absurd (Prod.mk.inj hother).1 (by decide)
  · cases htoken

theorem not_living {s : State} (h : s.service.accounts.keys = []) (account : ℕ) :
    ¬ (directory s).Living account := by
  intro hliving
  obtain ⟨token, htoken, -⟩ := hliving
  have hmem : token ∈ s.service.accounts.keys := List.contains_iff_mem.mp htoken
  rw [h] at hmem
  exact List.not_mem_nil hmem

/-- The alias of a token outlives the account that is removed at its limit, and leads to the account
that its next token is added for. -/
theorem aliases_resolve_not : ¬ ∀ (config : Config) (accounts : Dict Word Account) (trace : List Action),
    Along (step config) Separate (initial accounts) trace →
      Resolves (run (step config) (initial accounts) trace) := by
  intro h
  have hmet : Along (step removing) Separate (initial oneAccount) [.applyRefreshedTokens tokenA ['b'],
      .updateAccount tokenB limiting, .addAccountPayloads [(['b'], Fields.empty)]] := by
    exact ⟨trivial, trivial, fun _ _ account _ ↦ not_living rfl account, trivial⟩
  have hresolves := h removing oneAccount _ hmet
  exact absurd (hresolves.apart tokenA 0 (by decide) tokenB (by decide) (by decide)) (by decide)

end Runs

end AllAiTools.ChatGpt2Api.Services.TokenAliases
