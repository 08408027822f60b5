import AllAiTools.Foundation.Run
import AllAiTools.NewApi.Middleware.Auth

namespace AllAiTools.NewApi.Middleware.RotationKeeps

open Foundation Run Common.Str Model Model.Tokens Auth

section Keys

/-- What `GenerateKey` and `GetUUID` draw from: letters and digits, at least one. -/
def Plain (key : String) : Prop := key ≠ "" ∧ ∀ c ∈ key.toList, c.isAlphanum

/-- A key as the client holds it. -/
def WellFormed (key : String) : Prop := Plain key ∨ ∃ uuid, Plain uuid ∧ key = "sk-" ++ uuid

def stem (key : String) : String := trimPrefix key "sk-"

theorem not_isSpace_of_isAlphanum {c : Char} (h : c.isAlphanum) : isSpace c = false := by
  simp only [Char.isAlphanum, Char.isAlpha, Char.isUpper, Char.isLower, Char.isDigit,
    Bool.or_eq_true, Bool.and_eq_true, decide_eq_true_eq, UInt32.le_iff_toNat_le] at h
  have hn : c.toNat = c.val.toNat := rfl
  simp only [isSpace, List.mem_cons, List.not_mem_nil, or_false, Bool.or_eq_false_iff,
    decide_eq_false_iff_not, Bool.and_eq_false_iff, hn]
  simp at h
  omega

theorem trimSpace_eq {s : String} (h : ∀ c ∈ s.toList, isSpace c = false) : trimSpace s = s := by
  have hdrop : ∀ l : List Char, (∀ c ∈ l, isSpace c = false) → l.dropWhile isSpace = l := by
    intro l hl
    cases l with
    | nil => rfl
    | cons c l => rw [List.dropWhile_cons_of_neg (by simp [hl c List.mem_cons_self])]
  rw [trimSpace, hdrop _ h, hdrop _ (by simpa using h)]
  simp

theorem hasPrefix_append (pre s : String) : hasPrefix (pre ++ s) pre = true := by
  simp [hasPrefix]

theorem trimPrefix_append (pre s : String) : trimPrefix (pre ++ s) pre = s := by
  rw [trimPrefix, if_pos (hasPrefix_append pre s), String.toList_append, ← String.length_toList,
    List.drop_left, String.ofList_toList]

theorem Plain.notMem {key : String} (h : Plain key) : '-' ∉ key.toList := by
  intro hc
  exact absurd (h.2 '-' hc) (by decide)

@[simp] theorem Plain.stem_eq {key : String} (h : Plain key) : stem key = key := by
  have hp : ¬hasPrefix key "sk-" := by
    intro hp
    have hpre : "sk-".toList <+: key.toList := by simpa [hasPrefix] using hp
    exact h.notMem (hpre.subset (by decide))
  rw [stem, trimPrefix, if_neg hp]

@[simp] theorem stem_sk (uuid : String) : stem ("sk-" ++ uuid) = uuid := trimPrefix_append _ _

theorem WellFormed.stem_plain {key : String} (h : WellFormed key) : Plain (stem key) := by
  rcases h with hp | ⟨uuid, hu, rfl⟩
  · rwa [hp.stem_eq]
  · rwa [stem_sk]

theorem WellFormed.not_isSpace {key : String} (h : WellFormed key) :
    ∀ c ∈ key.toList, isSpace c = false := by
  intro c hc
  rcases h with hp | ⟨uuid, hu, rfl⟩
  · exact not_isSpace_of_isAlphanum (hp.2 c hc)
  · rw [String.toList_append, List.mem_append] at hc
    rcases hc with hc | hc
    · have hsk : c = 's' ∨ c = 'k' ∨ c = '-' := by simpa using hc
      rcases hsk with rfl | rfl | rfl <;> decide
    · exact not_isSpace_of_isAlphanum (hu.2 c hc)

theorem WellFormed.ne_empty {key : String} (h : WellFormed key) : key ≠ "" := by
  rcases h with hp | ⟨uuid, _, rfl⟩
  · exact hp.1
  · simp

theorem WellFormed.ne_midjourney {key : String} (h : WellFormed key) :
    key ≠ "midjourney-proxy" := by
  rintro rfl
  have hstem := h.stem_plain.notMem
  exact hstem (by decide)

/-- The request that presents a key as `Bearer <key>` and nothing else. -/
def presents (path key : String) : Request :=
  ⟨path, "", "", "", "", "Bearer " ++ key, ""⟩

theorem bearer_append {key : String} (h : WellFormed key) : bearer ("Bearer " ++ key) = key := by
  rw [bearer, if_pos (.inl (hasPrefix_append _ _))]
  have hdrop : String.ofList (("Bearer " ++ key).toList.drop 7) = key := by simp
  rw [hdrop, trimSpace_eq h.not_isSpace]

theorem keyParts_presents (path : String) {key : String} (h : WellFormed key) :
    keyParts (presents path key) = [stem key] := by
  have hauth : authorization (presents path key) = "Bearer " ++ key := by
    simp [authorization, presents]
  have hsplit : split (stem key) '-' = [stem key] := by
    rw [split, List.splitOn_eq_singleton h.stem_plain.notMem]
    simp
  simp only [keyParts, hauth, bearer_append h, h.ne_empty, h.ne_midjourney, or_self, if_false]
  exact hsplit

end Keys

section Runs

/-- A key handed out for a token, with the key it replaced and the time until which that one
stays good, where it comes from a rotation. -/
structure Issue where
  tokenId : ℤ
  key : String
  replaced : Option (String × ℤ)

/-- A state with the keys handed out so far, the newest first. -/
structure Point where
  state : State
  issued : List Issue

inductive Event where
  | addToken (fails : Option String) (id userId : ℤ) (key : String) (expiredTime remainQuota : ℤ)
    (unlimitedQuota : Bool) (allowIps : Option String) (group : String)
  | getTokenByIds (fails : Option String) (id userId : ℤ)
  | update (fails : Option String) (i : ℕ) (edit : Edit)
  | delete (fails : Option String) (i : ℕ)
  | rotateKey (fails : Option String) (i : ℕ) (uuid : String)
  | tokenAuth (env : Env) (faults : Faults) (request : Request)
  | proceed (i : ℕ) (ok : Bool)
  | expire (digest : String)
  | tick (seconds : ℕ)

variable (settings : Settings)

def dropHand (i : ℕ) (s : State) : State := { s with hands := s.hands.eraseIdx i }

/-- The call that has loaded the `i`-th token in hand goes on with it. -/
def withHand (i : ℕ) (s : State) (call : Token → State → State) : State :=
  match s.hands[i]? with
  | none => s
  | some token => call token (dropHand i s)

def stepState (s : State) : Event → State
  | .addToken fails id userId key expiredTime remainQuota unlimitedQuota allowIps group =>
    (insert fails (newToken id userId key expiredTime remainQuota unlimitedQuota allowIps group)
      s).getD s
  | .getTokenByIds fails id userId =>
    { s with hands := s.hands ++ (getTokenByIds fails id userId s).toList }
  | .update fails i edit => withHand i s fun token ↦ (edit.apply token).update settings fails
  | .delete fails i => withHand i s fun token ↦ token.delete settings fails
  | .rotateKey fails i uuid => withHand i s fun token s ↦
    ((token.rotateKey settings fails uuid s).map (·.2)).getD s
  | .tokenAuth env faults request => (tokenAuth settings env faults request s).2
  | .proceed i ok => proceed settings i ok s
  | .expire digest => { s with cache := Function.update s.cache digest none }
  | .tick seconds => { s with now := s.now + seconds }

/-- The key a step hands out. -/
def issues (s : State) : Event → List Issue
  | .addToken fails id userId key expiredTime remainQuota unlimitedQuota allowIps group =>
    match insert fails
      (newToken id userId key expiredTime remainQuota unlimitedQuota allowIps group) s with
    | some _ => [⟨id, key, none⟩]
    | none => []
  | .rotateKey fails i uuid => match s.hands[i]? with
    | none => []
    | some token => match token.rotateKey settings fails uuid (dropHand i s) with
      | some (newKey, _) => [⟨token.id, newKey, some (token.key, s.now + 86400 * 7)⟩]
      | none => []
  | _ => []

def step (p : Point) (event : Event) : Point where
  state := stepState settings p.state event
  issued := issues settings p.state event ++ p.issued

def start (now : ℤ) : Point := ⟨⟨Table.empty, fun _ ↦ none, [], [], now⟩, []⟩

/-- The key a step draws is made of letters and digits and was not drawn before, and the
database numbers a new token with a new id. -/
def Fresh (p : Point) : Event → Prop
  | .addToken _ id _ key _ _ _ _ _ =>
    Plain key ∧ ∀ issue ∈ p.issued, stem issue.key ≠ key ∧ issue.tokenId ≠ id
  | .rotateKey _ _ uuid => Plain uuid ∧ ∀ issue ∈ p.issued, stem issue.key ≠ uuid
  | _ => True

end Runs

section Ownership

def Issued (issued : List Issue) (id : ℤ) (key : String) : Prop :=
  ∃ issue ∈ issued, issue.tokenId = id ∧ issue.key = key

/-- A token, wherever it is held, holds keys handed out for it. -/
def Holds (issued : List Issue) (token : Token) : Prop :=
  Issued issued token.id token.key ∧
    (token.rotationKey = "" ∨ Issued issued token.id token.rotationKey)

def Job.Good (issued : List Issue) : Job → Prop
  | .set token | .rotated token => Holds issued token
  | .delete _ => True

/-- The keys in the tables, the cache and the hands of running calls are those of their
tokens. -/
structure Owned (settings : Settings) (s : State) (issued : List Issue) : Prop where
  rows : ∀ row ∈ s.db.rows, Holds issued row
  cache : ∀ digest token, s.cache digest = some token →
    ∃ key, Issued issued token.id key ∧ digest = settings.generateHMAC key
  jobs : ∀ job ∈ s.jobs, Job.Good issued job
  hands : ∀ token ∈ s.hands, Holds issued token

/-- No key is handed out twice, and a token's first key is the only one without a
predecessor. -/
structure Distinct (issued : List Issue) : Prop where
  rotated : ∀ issue ∈ issued, issue.replaced ≠ none → ∃ uuid, Plain uuid ∧ issue.key = "sk-" ++ uuid
  first : ∀ issue ∈ issued, issue.replaced = none → Plain issue.key
  stems : (issued.map fun issue ↦ stem issue.key).Nodup
  ids : issued.Pairwise fun a b ↦ a.tokenId = b.tokenId → a.replaced ≠ none

variable {settings : Settings} {issued issued' : List Issue} {s : State} {token : Token}

theorem Issued.mono {id : ℤ} {key : String} (hsub : issued ⊆ issued') (h : Issued issued id key) :
    Issued issued' id key := by
  obtain ⟨issue, hi, hid, hk⟩ := h
  exact ⟨issue, hsub hi, hid, hk⟩

theorem Holds.mono (hsub : issued ⊆ issued') (h : Holds issued token) : Holds issued' token :=
  ⟨h.1.mono hsub, h.2.imp_right (Issued.mono hsub)⟩

theorem Job.Good.mono (hsub : issued ⊆ issued') {job : Job} (h : Job.Good issued job) :
    Job.Good issued' job := by
  cases job with
  | set token => exact Holds.mono hsub h
  | delete key => trivial
  | rotated token => exact Holds.mono hsub h

theorem Owned.mono (hsub : issued ⊆ issued') (h : Owned settings s issued) :
    Owned settings s issued' where
  rows := fun row hr ↦ (h.rows row hr).mono hsub
  cache := fun digest token hc ↦ by
    obtain ⟨key, hk, hd⟩ := h.cache digest token hc
    exact ⟨key, hk.mono hsub, hd⟩
  jobs := fun job hj ↦ (h.jobs job hj).mono hsub
  hands := fun token ht ↦ (h.hands token ht).mono hsub

theorem Owned.spawn (h : Owned settings s issued) {job : Job} (hj : Job.Good issued job) :
    Owned settings (s.spawn settings job) issued := by
  rw [State.spawn]
  split_ifs
  · refine ⟨h.rows, h.cache, fun job' hj' ↦ ?_, h.hands⟩
    rcases List.mem_append.mp hj' with hj' | hj'
    · exact h.jobs job' hj'
    · rwa [List.mem_singleton.mp hj']
  · exact h

theorem Owned.db (h : Owned settings s issued) {db : Table Token.id}
    (hdb : ∀ row ∈ db.rows, Holds issued row) : Owned settings { s with db := db } issued :=
  ⟨hdb, h.cache, h.jobs, h.hands⟩

theorem Owned.uncache (h : Owned settings s issued) (digest : String) :
    Owned settings { s with cache := Function.update s.cache digest none } issued := by
  refine ⟨h.rows, fun digest' token hc ↦ ?_, h.jobs, h.hands⟩
  by_cases hd : digest' = digest
  · simp [hd] at hc
  · exact h.cache digest' token (by simpa [hd] using hc)

theorem Owned.cacheSetToken (h : Owned settings s issued) (ht : Holds issued token) :
    Owned settings (cacheSetToken settings token s) issued := by
  refine ⟨h.rows, fun digest cached hc ↦ ?_, h.jobs, h.hands⟩
  by_cases hd : digest = settings.generateHMAC token.key
  · subst hd
    obtain rfl : token.clean = cached := by simpa [Tokens.cacheSetToken] using hc
    exact ⟨token.key, ht.1, rfl⟩
  · exact h.cache digest cached (by simpa [Tokens.cacheSetToken, hd] using hc)

theorem Owned.perform (h : Owned settings s issued) {job : Job} (hj : Job.Good issued job)
    (ok : Bool) : Owned settings (perform settings job ok s) issued := by
  cases job with
  | set token =>
    cases ok with
    | true => exact h.cacheSetToken hj
    | false => exact h
  | delete key =>
    cases ok with
    | true => exact h.uncache _
    | false => exact h
  | rotated token =>
    cases ok with
    | true => exact (h.uncache _).spawn hj
    | false => exact h.spawn hj

theorem Owned.proceed (h : Owned settings s issued) (i : ℕ) (ok : Bool) :
    Owned settings (proceed settings i ok s) issued := by
  rw [Tokens.proceed]
  cases hj : s.jobs[i]? with
  | none => exact h
  | some job =>
    have hrest : Owned settings { s with jobs := s.jobs.eraseIdx i } issued :=
      ⟨h.rows, h.cache, fun job' hj' ↦ h.jobs job' (List.mem_of_mem_eraseIdx hj'), h.hands⟩
    exact hrest.perform (h.jobs job (List.mem_of_getElem? hj)) ok

theorem mem_updates {id : ℤ} {f : Token → Token} {db : Table Token.id} {row : Token}
    (h : row ∈ (updates id f db).rows) :
    row ∈ db.rows ∨ ∃ old ∈ db.rows, old.id = id ∧ row = { f old with id := id } := by
  rw [updates] at h
  cases hf : db.find id with
  | none =>
    rw [hf] at h
    exact .inl h
  | some old =>
    rw [hf] at h
    have hid : old.id = id := Table.find_key hf
    rcases Table.mem_save h with rfl | hr
    · exact .inr ⟨old, Table.find_mem hf, hid, by rw [hid]⟩
    · exact .inl hr

theorem Owned.updates (h : Owned settings s issued) {id : ℤ} {f : Token → Token}
    (hf : ∀ old ∈ s.db.rows, old.id = id → Holds issued { f old with id := id }) :
    Owned settings { s with db := updates id f s.db } issued := by
  refine h.db fun row hr ↦ ?_
  rcases mem_updates hr with hr | ⟨old, ho, hid, rfl⟩
  · exact h.rows row hr
  · exact hf old ho hid

end Ownership

section Lookup

variable {settings : Settings} {issued : List Issue} {s s' : State} {token : Token}
  {faults : Faults} {key : String}

/-- A token that a key can be looked up as. -/
def Found (settings : Settings) (s : State) (key : String) (token : Token) : Prop :=
  (∃ cached, s.cache (settings.generateHMAC key) = some cached ∧
    token = { cached with key := key }) ∨
  (token ∈ s.db.rows ∧ (token.key = key ∨ token.rotationKey = key))

theorem Owned.found (hmac : settings.generateHMAC.Injective) (h : Owned settings s issued)
    (hk : key ≠ "") (hf : Found settings s key token) : Issued issued token.id key := by
  rcases hf with ⟨cached, hc, rfl⟩ | ⟨hr, rfl | rfl⟩
  · obtain ⟨key', hi, hd⟩ := h.cache _ _ hc
    rwa [hmac hd]
  · exact (h.rows token hr).1
  · exact (h.rows token hr).2.resolve_left hk

/-- What a query can lead to: an error in the same state, a cached token in the same state, or
a row of the table, which is then on its way to the cache. -/
theorem getTokenBy_cases (settings : Settings) (query : Token → Bool) (redisOk : Bool)
    (fails : Option String) (key : String) (s : State) :
    (∃ e, getTokenBy settings query redisOk fails key s = (.error e, s)) ∨
    (∃ cached, s.cache (settings.generateHMAC key) = some cached ∧
      getTokenBy settings query redisOk fails key s = (.ok { cached with key := key }, s)) ∨
    (∃ row ∈ s.db.rows, query row ∧
      getTokenBy settings query redisOk fails key s = (.ok row, s.spawn settings (.set row))) := by
  simp only [getTokenBy]
  cases hc : cacheGetTokenByKey settings redisOk key s with
  | some token =>
    simp only [cacheGetTokenByKey] at hc
    split_ifs at hc
    obtain ⟨cached, hcached, rfl⟩ := Option.map_eq_some_iff.mp hc
    exact .inr (.inl ⟨cached, hcached, rfl⟩)
  | none =>
    cases fails with
    | some e => exact .inl ⟨_, rfl⟩
    | none =>
      cases hr : s.db.rows.find? query with
      | none => exact .inl ⟨_, rfl⟩
      | some row =>
        exact .inr (.inr ⟨row, List.mem_of_find?_eq_some hr, List.find?_some hr, rfl⟩)

theorem lookUp_cases (settings : Settings) (faults : Faults) (key : String) (s : State) :
    (∃ e, lookUp settings faults key s = (.error e, s)) ∨
    ∃ token, Found settings s key token ∧ (lookUp settings faults key s = (.ok token, s) ∨
      token ∈ s.db.rows ∧
        lookUp settings faults key s = (.ok token, s.spawn settings (.set token))) := by
  simp only [lookUp, getTokenByKey]
  rcases getTokenBy_cases settings (fun token ↦ token.key = key) faults.redisOk faults.byKey key s
    with ⟨e, he⟩ | ⟨cached, hc, he⟩ | ⟨row, hr, hq, he⟩
  · cases e with
    | failed e => exact .inl ⟨_, by rw [he]⟩
    | recordNotFound =>
      simp only [he, getTokenByRotationKey]
      rcases getTokenBy_cases settings
        (fun token ↦ token.rotationKey = key ∧ s.now < token.rotationExpiresAt) faults.redisOk
        faults.byRotationKey key s with he | ⟨cached, hc, he⟩ | ⟨row, hr, hq, he⟩
      · exact .inl he
      · exact .inr ⟨_, .inl ⟨cached, hc, rfl⟩, .inl he⟩
      · exact .inr ⟨row, .inr ⟨hr, .inr (of_decide_eq_true hq).1⟩, .inr ⟨hr, he⟩⟩
  · exact .inr ⟨_, .inl ⟨cached, hc, rfl⟩, .inl (by rw [he])⟩
  · exact .inr ⟨row, .inr ⟨hr, .inl (of_decide_eq_true hq)⟩, .inr ⟨hr, by rw [he]⟩⟩

/-- The token's own state, as `ValidateUserToken` checks it. -/
def Valid (now : ℤ) (token : Token) : Prop :=
  token.status = tokenStatusEnabled ∧ (token.expiredTime = -1 ∨ now ≤ token.expiredTime) ∧
    (token.unlimitedQuota ∨ 0 < token.remainQuota)

theorem checkToken_of_valid (h : Valid s.now token) :
    checkToken settings faults token s = (.ok token, s) := by
  obtain ⟨hstatus, hexpired, hquota⟩ := h
  have hexp : ¬(token.expiredTime ≠ -1 ∧ token.expiredTime < s.now) := by omega
  have hq : ¬(¬token.unlimitedQuota ∧ token.remainQuota ≤ 0) := by
    rintro ⟨hu, hr⟩
    rcases hquota with h | h
    · exact hu h
    · omega
  simp only [checkToken]
  rw [if_neg (not_not.mpr hstatus), if_neg hexp, if_neg hq]

/-- A checked token is the one that was found; one that is refused may have its status written. -/
theorem checkToken_cases (settings : Settings) (faults : Faults) (token : Token) (s : State) :
    checkToken settings faults token s = (.ok token, s) ∨
    ∃ s', checkToken settings faults token s = (.error .invalid, s') ∧ (s' = s ∨
      ¬settings.redisEnabled ∧ ∃ status, s' = selectUpdate settings faults.selectUpdate
        { token with status := status } s) := by
  simp only [checkToken]
  split_ifs with _ _ hr _ hr
  · exact .inr ⟨_, rfl, .inl rfl⟩
  · exact .inr ⟨_, rfl, .inl rfl⟩
  · exact .inr ⟨_, rfl, .inr ⟨hr, _, rfl⟩⟩
  · exact .inr ⟨_, rfl, .inl rfl⟩
  · exact .inr ⟨_, rfl, .inr ⟨hr, _, rfl⟩⟩
  · exact .inl rfl

/-- A key is accepted only as a token it can be looked up as. -/
theorem validateUserToken_found (h : (validateUserToken settings faults key s).1 = .ok token) :
    key ≠ "" ∧ Found settings s key token := by
  by_cases hk : key = ""
  · simp [validateUserToken, hk] at h
  · refine ⟨hk, ?_⟩
    rw [validateUserToken, if_neg hk] at h
    rcases lookUp_cases settings faults key s with ⟨e, he⟩ | ⟨found, hf, he⟩
    · rw [he] at h
      cases e <;> simp at h
    · obtain ⟨s', he'⟩ : ∃ s', lookUp settings faults key s = (.ok found, s') := by
        rcases he with he | ⟨_, he⟩
        · exact ⟨_, he⟩
        · exact ⟨_, he⟩
      rw [he'] at h
      simp only at h
      rcases checkToken_cases settings faults found s' with hc | ⟨s'', hc, _⟩
      · rw [hc] at h
        cases h
        exact hf
      · rw [hc] at h
        cases h

theorem Owned.selectUpdate (h : Owned settings s issued) (hr : ¬settings.redisEnabled)
    (fails : Option String) (token : Token) :
    Owned settings (selectUpdate settings fails token s) issued := by
  cases fails with
  | some e => exact h
  | none =>
    rw [Tokens.selectUpdate, State.spawn, if_neg hr]
    exact h.updates fun old ho hid ↦ hid ▸ h.rows old ho

theorem Owned.lookUp (h : Owned settings s issued) (faults : Faults) (key : String) :
    Owned settings (lookUp settings faults key s).2 issued := by
  rcases lookUp_cases settings faults key s with ⟨e, he⟩ | ⟨found, _, he | ⟨hr, he⟩⟩
  · rwa [he]
  · rwa [he]
  · rw [he]
    exact h.spawn (h.rows found hr)

theorem Owned.validateUserToken (h : Owned settings s issued) (faults : Faults) (key : String) :
    Owned settings (validateUserToken settings faults key s).2 issued := by
  have hl := h.lookUp faults key
  rw [Tokens.validateUserToken]
  split_ifs with hk
  · exact h
  · rcases hfound : Tokens.lookUp settings faults key s with ⟨e | token, s'⟩
    · rw [hfound] at hl
      cases e <;> exact hl
    · rw [hfound] at hl
      rcases checkToken_cases settings faults token s' with hc | ⟨s'', hc, rfl | ⟨hr, status, rfl⟩⟩
      · simpa only [hc] using hl
      · simpa only [hc] using hl
      · simpa only [hc] using hl.selectUpdate hr _ _

/-- `TokenAuth` after the validation lets the token pass or aborts. -/
theorem authorize_cases (env : Env) (token : Token) (parts : List String) :
    authorize env token parts = .ok token ∨ ∃ e, authorize env token parts = .error e := by
  rw [authorize]
  rcases checkClientIp env token with e | _
  · exact .inr ⟨e, rfl⟩
  rcases checkUser env token with e | user
  · exact .inr ⟨e, rfl⟩
  rcases hg : checkGroup env user token with e | _
  · exact .inr ⟨e, by simp [bind, Except.bind, hg]⟩
  rcases hs : setupContextForToken env token parts with e | _
  · exact .inr ⟨e, by simp [bind, Except.bind, hg]⟩
  · exact .inl (by simp [bind, Except.bind, pure, Except.pure, hg])

/-- A request is accepted only as a token its key can be looked up as. -/
theorem tokenAuth_found {env : Env} {path : String} (hw : WellFormed key)
    (h : (tokenAuth settings env faults (presents path key) s).1 = .ok token) :
    Found settings s (stem key) token := by
  simp only [tokenAuth, keyParts_presents path hw, List.headD_cons] at h
  cases hv : (Tokens.validateUserToken settings faults (stem key) s).1 with
  | error e =>
    rw [hv] at h
    cases e <;> simp [answer] at h
  | ok found =>
    rw [hv, answer] at h
    rcases authorize_cases env found [stem key] with ha | ⟨e, ha⟩
    · obtain rfl : found = token := by simpa [ha] using h
      exact (validateUserToken_found hv).2
    · simp [ha] at h

theorem Owned.tokenAuth (h : Owned settings s issued) (env : Env) (faults : Faults)
    (request : Request) : Owned settings (tokenAuth settings env faults request s).2 issued := by
  simp only [Auth.tokenAuth]
  exact h.validateUserToken faults ((keyParts request).headD "")

end Lookup

section Steps

variable {settings : Settings} {issued : List Issue} {s : State} {p : Point}

theorem Distinct.wellFormed (h : Distinct issued) {issue : Issue} (hi : issue ∈ issued) :
    WellFormed issue.key := by
  by_cases hr : issue.replaced = none
  · exact .inl (h.first issue hi hr)
  · exact .inr (h.rotated issue hi hr)

theorem Distinct.eq (h : Distinct issued) {a b : Issue} (ha : a ∈ issued) (hb : b ∈ issued)
    (hab : stem a.key = stem b.key) : a = b :=
  List.inj_on_of_nodup_map h.stems ha hb hab

theorem Distinct.cons (h : Distinct issued) {new : Issue}
    (hrotated : new.replaced ≠ none → ∃ uuid, Plain uuid ∧ new.key = "sk-" ++ uuid)
    (hfirst : new.replaced = none → Plain new.key)
    (hstem : ∀ issue ∈ issued, stem issue.key ≠ stem new.key)
    (hid : new.replaced = none → ∀ issue ∈ issued, issue.tokenId ≠ new.tokenId) :
    Distinct (new :: issued) where
  rotated := List.forall_mem_cons.mpr ⟨hrotated, h.rotated⟩
  first := List.forall_mem_cons.mpr ⟨hfirst, h.first⟩
  stems := by
    rw [List.map_cons, List.nodup_cons]
    refine ⟨fun hm ↦ ?_, h.stems⟩
    obtain ⟨issue, hi, he⟩ := List.mem_map.mp hm
    exact hstem issue hi he
  ids := by
    refine List.pairwise_cons.mpr ⟨fun issue hi he hr ↦ ?_, h.ids⟩
    exact hid hr issue hi he.symm

theorem insert_cases (fails : Option String) (token : Token) (s : State) :
    insert fails token s = none ∨
    ∃ db, db.rows = token :: s.db.rows ∧ insert fails token s = some { s with db := db } := by
  rw [Tokens.insert]
  split_ifs
  · exact .inl rfl
  · cases hdb : s.db.insert token with
    | none => exact .inl rfl
    | some db => exact .inr ⟨db, (Table.insert_eq_some hdb).2, rfl⟩

theorem Owned.insert (h : Owned settings s issued) {token : Token} (ht : Holds issued token)
    {db : Table Token.id} (hdb : db.rows = token :: s.db.rows) :
    Owned settings { s with db := db } issued := by
  refine h.db ?_
  rw [hdb]
  exact List.forall_mem_cons.mpr ⟨ht, h.rows⟩

theorem Owned.load (h : Owned settings s issued) (fails : Option String) (id userId : ℤ) :
    Owned settings { s with hands := s.hands ++ (getTokenByIds fails id userId s).toList }
      issued := by
  refine ⟨h.rows, h.cache, h.jobs, fun token ht ↦ ?_⟩
  rcases List.mem_append.mp ht with ht | ht
  · exact h.hands token ht
  · rw [Option.mem_toList, getTokenByIds] at ht
    split_ifs at ht
    exact h.rows token (Table.find_mem (Option.filter_eq_some_iff.mp ht).1)

theorem Owned.dropHand (h : Owned settings s issued) (i : ℕ) :
    Owned settings (RotationKeeps.dropHand i s) issued :=
  ⟨h.rows, h.cache, h.jobs, fun token ht ↦ h.hands token (List.mem_of_mem_eraseIdx ht)⟩

theorem Owned.withHand (h : Owned settings s issued) (i : ℕ) {call : Token → State → State}
    (hcall : ∀ token, Holds issued token → Owned settings (call token (RotationKeeps.dropHand i s)) issued) :
    Owned settings (withHand i s call) issued := by
  rw [RotationKeeps.withHand]
  cases hi : s.hands[i]? with
  | none => exact h
  | some token => exact hcall token (h.hands token (List.mem_of_getElem? hi))

theorem Owned.update (h : Owned settings s issued) {token : Token} (ht : Holds issued token)
    (fails : Option String) (edit : Edit) :
    Owned settings ((edit.apply token).update settings fails s) issued := by
  cases fails with
  | some e => exact h
  | none =>
    refine (h.updates fun old ho hid ↦ ?_).spawn ht
    exact ⟨hid ▸ (h.rows old ho).1, ht.2⟩

theorem Owned.delete (h : Owned settings s issued) (token : Token) (fails : Option String) :
    Owned settings (token.delete settings fails s) issued := by
  cases fails with
  | some e => exact h
  | none => exact (h.db fun row hr ↦ h.rows row (List.mem_of_mem_filter hr)).spawn trivial

theorem Owned.rotated (h : Owned settings s issued) {token : Token} (ht : Holds issued token)
    {uuid : String} {s' : State} {fails : Option String} {newKey : String}
    (hr : token.rotateKey settings fails uuid s = some (newKey, s')) :
    newKey = "sk-" ++ uuid ∧
      ∀ replaced, Owned settings s' (⟨token.id, "sk-" ++ uuid, replaced⟩ :: issued) := by
  simp only [Token.rotateKey] at hr
  split_ifs at hr
  obtain ⟨rfl, rfl⟩ := Prod.mk.inj (Option.some.inj hr)
  refine ⟨rfl, fun replaced ↦ ?_⟩
  have hold := h.mono (List.subset_cons_self ⟨token.id, "sk-" ++ uuid, replaced⟩ issued)
  have hnew : Holds (⟨token.id, "sk-" ++ uuid, replaced⟩ :: issued) (token.rotate uuid s.now) :=
    ⟨⟨_, List.mem_cons_self, rfl, rfl⟩, .inr (ht.1.mono (List.subset_cons_self _ _))⟩
  exact (hold.updates fun old ho hid ↦ hnew).spawn hnew

/-- Where the keys drawn so far are all different and held by their own tokens. -/
def Inv (settings : Settings) (p : Point) : Prop :=
  Owned settings p.state p.issued ∧ Distinct p.issued

theorem inv_start (now : ℤ) : Inv settings (start now) := by
  refine ⟨⟨?_, ?_, ?_, ?_⟩, ⟨?_, ?_, List.nodup_nil, List.Pairwise.nil⟩⟩ <;>
    simp [start, Table.empty]

theorem inv_step (h : Inv settings p) {event : Event} (hf : Fresh p event) :
    Inv settings (step settings p event) := by
  obtain ⟨ho, hd⟩ := h
  cases event with
  | addToken fails id userId key expiredTime remainQuota unlimitedQuota allowIps group =>
    obtain ⟨hplain, hnew⟩ := hf
    simp only [step, stepState, issues]
    rcases insert_cases fails (newToken id userId key expiredTime remainQuota unlimitedQuota
      allowIps group) p.state with hn | ⟨db, hdb, hs⟩
    · rw [hn]
      exact ⟨ho, hd⟩
    · rw [hs]
      refine ⟨?_, hd.cons (by simp) (fun _ ↦ hplain) (fun issue hi ↦ ?_)
        fun _ issue hi ↦ (hnew issue hi).2⟩
      · refine (ho.mono (List.subset_cons_self _ _)).insert ?_ hdb
        exact ⟨⟨_, List.mem_cons_self, rfl, rfl⟩, .inl rfl⟩
      · rw [hplain.stem_eq]
        exact (hnew issue hi).1
  | getTokenByIds fails id userId => exact ⟨ho.load fails id userId, hd⟩
  | update fails i edit =>
    exact ⟨ho.withHand i fun token ht ↦ (ho.dropHand i).update ht fails edit, hd⟩
  | delete fails i => exact ⟨ho.withHand i fun token _ ↦ (ho.dropHand i).delete token fails, hd⟩
  | rotateKey fails i uuid =>
    obtain ⟨hplain, hnew⟩ := hf
    simp only [step, stepState, issues, withHand]
    cases hi : p.state.hands[i]? with
    | none => exact ⟨ho, hd⟩
    | some token =>
      have ht := ho.hands token (List.mem_of_getElem? hi)
      simp only
      cases hr : token.rotateKey settings fails uuid (dropHand i p.state) with
      | none => exact ⟨ho.dropHand i, hd⟩
      | some result =>
        obtain ⟨newKey, s'⟩ := result
        obtain ⟨rfl, howned⟩ := (ho.dropHand i).rotated ht hr
        simp only [Option.map_some, Option.getD_some]
        refine ⟨howned _, hd.cons (fun _ ↦ ⟨uuid, hplain, rfl⟩) (by simp) (fun issue hi ↦ ?_)
          (by simp)⟩
        rw [stem_sk]
        exact hnew issue hi
  | tokenAuth env faults request =>
    have hauth := ho.tokenAuth env faults request
    simp only [Inv, step, stepState, issues, List.nil_append]
    exact ⟨hauth, hd⟩
  | proceed i ok => exact ⟨ho.proceed i ok, hd⟩
  | expire digest => exact ⟨ho.uncache digest, hd⟩
  | tick seconds => exact ⟨⟨ho.rows, ho.cache, ho.jobs, ho.hands⟩, hd⟩

end Steps

section Claims

variable {settings : Settings} {env : Env} {p : Point} {t : ℤ}

/-- The last key handed out for a token. -/
def current (p : Point) (t : ℤ) : Option Issue := p.issued.find? (·.tokenId = t)

/-- A request that presents a key is let through as token `t`, by the database or with the help
of the cache. -/
def Accepts (settings : Settings) (env : Env) (s : State) (path : String) (redisOk : Bool)
    (key : String) (t : ℤ) : Prop :=
  ∃ token, (tokenAuth settings env ⟨redisOk, none, none, none⟩ (presents path key) s).1 =
    .ok token ∧ token.id = t

/-- The last key of a token is accepted as this token, the one before it exactly until the time
recorded for it, and no key as another token than its own. -/
structure KeepsClient (settings : Settings) (env : Env) (p : Point) (t : ℤ) : Prop where
  current : ∀ issue, current p t = some issue → ∀ path redisOk,
    Accepts settings env p.state path redisOk issue.key t
  previous : ∀ issue key expiresAt, RotationKeeps.current p t = some issue →
    issue.replaced = some (key, expiresAt) → ∀ path redisOk,
      (Accepts settings env p.state path redisOk key t ↔ p.state.now < expiresAt)
  own : ∀ issue ∈ p.issued, ∀ path faults token,
    (tokenAuth settings env faults (presents path issue.key) p.state).1 = .ok token →
      token.id = issue.tokenId

/-- A `RotateKey` call for the token has succeeded. -/
def Rotated (p : Point) (t : ℤ) : Prop := ∃ issue ∈ p.issued, issue.tokenId = t ∧
  issue.replaced ≠ none

/-- The checks that do not look at the key. -/
def Admitted (env : Env) (now : ℤ) (token : Token) : Prop :=
  Valid now token ∧ checkClientIp env token = .ok () ∧
    ∃ user, checkUser env token = .ok user ∧ checkGroup env user token = .ok ()

/-- The token is there and in order, also as it is cached. -/
def Usable (env : Env) (s : State) (t : ℤ) : Prop :=
  (∃ row, s.db.find t = some row ∧ Admitted env s.now row) ∧
    ∀ digest cached, s.cache digest = some cached → cached.id = t → Admitted env s.now cached

theorem authorize_of_admitted {now : ℤ} {token : Token} (h : Admitted env now token)
    (part : String) : authorize env token [part] = .ok token := by
  obtain ⟨_, hip, user, huser, hgroup⟩ := h
  have hsetup : setupContextForToken env token [part] = .ok () := by
    simp [setupContextForToken]
  simp only [authorize, hip, huser, hgroup, hsetup, bind, Except.bind, pure, Except.pure]

/-- The keys a request can present and be accepted with are those that no rotation made. -/
theorem accepted_own (hmac : settings.generateHMAC.Injective) (h : Inv settings p)
    {issue : Issue} (hi : issue ∈ p.issued) {path : String} {faults : Faults} {token : Token}
    (ht : (tokenAuth settings env faults (presents path issue.key) p.state).1 = .ok token) :
    Plain issue.key ∧ token.id = issue.tokenId := by
  have hw := h.2.wellFormed hi
  have hplain := hw.stem_plain
  obtain ⟨other, ho, hid, hkey⟩ := h.1.found hmac hplain.1 (tokenAuth_found hw ht)
  have hsame : other = issue := h.2.eq ho hi (by rw [hkey, hplain.stem_eq])
  subst hsame
  exact ⟨hkey ▸ hplain, hid.symm⟩

theorem plain_sk {uuid : String} : ¬Plain ("sk-" ++ uuid) := by
  intro h
  exact h.notMem (by simp)

/-- A key that a rotation has handed out is refused. -/
theorem not_accepts_rotated (hmac : settings.generateHMAC.Injective) (h : Inv settings p)
    {issue : Issue} (hi : issue ∈ p.issued) (hr : issue.replaced ≠ none) (path : String)
    (redisOk : Bool) : ¬Accepts settings env p.state path redisOk issue.key t := by
  rintro ⟨token, ht, _⟩
  obtain ⟨uuid, _, hkey⟩ := h.2.rotated issue hi hr
  have hplain := (accepted_own hmac h hi ht).1
  rw [hkey] at hplain
  exact plain_sk hplain

theorem current_mem {issue : Issue} (h : current p t = some issue) :
    issue ∈ p.issued ∧ issue.tokenId = t :=
  ⟨List.mem_of_find?_eq_some h, by simpa using List.find?_some h⟩

/-- The last key of a token that was rotated comes from a rotation. -/
theorem current_replaced {issued : List Issue} {rotated : Issue}
    (h : issued.Pairwise fun a b ↦ a.tokenId = b.tokenId → a.replaced ≠ none)
    (hi : rotated ∈ issued) (hr : rotated.replaced ≠ none) :
    ∃ issue, issued.find? (·.tokenId = rotated.tokenId) = some issue ∧ issue.replaced ≠ none := by
  induction issued with
  | nil => simp at hi
  | cons issue issued ih =>
    rw [List.pairwise_cons] at h
    by_cases ht : issue.tokenId = rotated.tokenId
    · refine ⟨issue, by simp [ht], ?_⟩
      rcases List.mem_cons.mp hi with rfl | hi
      · exact hr
      · exact h.1 rotated hi ht
    · rcases List.mem_cons.mp hi with rfl | hi
      · exact absurd rfl ht
      · rw [List.find?_cons_of_neg (by simpa using ht)]
        exact ih h.2 hi

/-- A token without a rotation has one key. -/
theorem issue_unique (h : Distinct p.issued) (hr : ¬Rotated p t) {a b : Issue}
    (ha : a ∈ p.issued) (hb : b ∈ p.issued) (hat : a.tokenId = t) (hbt : b.tokenId = t) :
    a = b := by
  have hfirst : ∀ issue ∈ p.issued, issue.tokenId = t → issue.replaced = none := by
    intro issue hi hid
    by_contra hrep
    exact hr ⟨issue, hi, hid, hrep⟩
  have hpair : p.issued.Pairwise fun a b ↦
      ¬(a.tokenId = b.tokenId ∧ a.replaced = none ∧ b.replaced = none) :=
    h.ids.imp fun hab ⟨he, hn, _⟩ ↦ hab he hn
  have hsymm : Std.Symm fun a b : Issue ↦
      ¬(a.tokenId = b.tokenId ∧ a.replaced = none ∧ b.replaced = none) :=
    ⟨fun a b hab ⟨he, hb, ha⟩ ↦ hab ⟨he.symm, ha, hb⟩⟩
  by_contra hne
  exact hpair.forall ha hb hne
    ⟨hat.trans hbt.symm, hfirst a ha hat, hfirst b hb hbt⟩

theorem Admitted.withKey {now : ℤ} {token : Token} (h : Admitted env now token) (key : String) :
    Admitted env now { token with key := key } := h

/-- Without a rotation the key a usable token was created with finds it, in the cache or in the
table. -/
theorem lookUp_first (hmac : settings.generateHMAC.Injective) (h : Inv settings p)
    (hu : Usable env p.state t) (hr : ¬Rotated p t) {issue : Issue} (hi : issue ∈ p.issued)
    (ht : issue.tokenId = t) (redisOk : Bool) :
    ∃ token s', lookUp settings ⟨redisOk, none, none, none⟩ issue.key p.state = (.ok token, s') ∧
      s'.now = p.state.now ∧ token.id = t ∧ Admitted env p.state.now token := by
  obtain ⟨⟨row, hrow, hadm⟩, hcached⟩ := hu
  have hid : row.id = t := Table.find_key hrow
  have hown : ∀ id, Issued p.issued id issue.key → id = t := by
    rintro id ⟨other, ho, rfl, hk⟩
    rw [h.2.eq ho hi (by rw [hk]), ht]
  have hkey : row.key = issue.key := by
    obtain ⟨other, ho, hoid, hok⟩ := (h.1.rows row (Table.find_mem hrow)).1
    rw [← hok, issue_unique h.2 hr ho hi (hoid.trans hid) ht]
  simp only [lookUp, getTokenByKey, getTokenBy]
  cases hc : cacheGetTokenByKey settings redisOk issue.key p.state with
  | some token =>
    simp only [cacheGetTokenByKey] at hc
    split_ifs at hc
    obtain ⟨cached, hcache, rfl⟩ := Option.map_eq_some_iff.mp hc
    obtain ⟨key, hk, hd⟩ := h.1.cache _ _ hcache
    rw [← hmac hd] at hk
    have hct := hown _ hk
    exact ⟨_, _, rfl, rfl, hct, (hcached _ _ hcache hct).withKey _⟩
  | none =>
    cases hf : p.state.db.rows.find? (fun token ↦ token.key = issue.key) with
    | none =>
      have hno := List.find?_eq_none.mp hf row (Table.find_mem hrow)
      exact absurd hkey (by simpa using hno)
    | some found =>
      have hfk : found.key = issue.key := by simpa using List.find?_some hf
      have hfm := List.mem_of_find?_eq_some hf
      have hft := hown found.id (hfk ▸ (h.1.rows found hfm).1)
      have hsame := Table.find_of_mem hfm
      rw [hft, hrow] at hsame
      obtain rfl := Option.some.inj hsame
      refine ⟨_, _, rfl, ?_, hid, hadm⟩
      rw [State.spawn]
      split_ifs <;> rfl

/-- Until its first rotation a usable token is found by its key. -/
theorem accepts_first (hmac : settings.generateHMAC.Injective) (h : Inv settings p)
    (hu : Usable env p.state t) (hr : ¬Rotated p t) {issue : Issue} (hi : issue ∈ p.issued)
    (ht : issue.tokenId = t) (path : String) (redisOk : Bool) :
    Accepts settings env p.state path redisOk issue.key t := by
  have hrep : issue.replaced = none := by
    by_contra hrep
    exact hr ⟨issue, hi, ht, hrep⟩
  have hplain := h.2.first issue hi hrep
  obtain ⟨token, s', hl, hnow, hid, hadm⟩ := lookUp_first hmac h hu hr hi ht redisOk
  refine ⟨token, ?_, hid⟩
  have hvalid : Valid s'.now token := hnow ▸ hadm.1
  simp only [tokenAuth, keyParts_presents path (.inl hplain), List.headD_cons, hplain.stem_eq,
    validateUserToken, if_neg hplain.1, hl, checkToken_of_valid hvalid, answer,
    authorize_of_admitted hadm]

/-- After any fresh run a usable token's client is kept exactly when no rotation of the token has
succeeded: a key of `RotateKey` is stored with the prefix that `TokenAuth` takes off. -/
theorem keepsClient_iff (hmac : settings.generateHMAC.Injective) (now : ℤ) (trace : List Event)
    (hfresh : Along (step settings) Fresh (start now) trace)
    (hu : Usable env (run (step settings) (start now) trace).state t) :
    KeepsClient settings env (run (step settings) (start now) trace) t ↔
      ¬Rotated (run (step settings) (start now) trace) t := by
  have hinv : Inv settings (run (step settings) (start now) trace) :=
    hfresh.invariant (Inv settings) (fun _ _ h hf ↦ inv_step h hf) (inv_start now)
  generalize run (step settings) (start now) trace = p at hinv hu ⊢
  constructor
  · rintro hkeeps ⟨rotated, hi, rfl, hrep⟩
    obtain ⟨issue, hcur, hr⟩ := current_replaced hinv.2.ids hi hrep
    exact not_accepts_rotated hmac hinv (current_mem hcur).1 hr "" false
      (hkeeps.current issue hcur "" false)
  · intro hr
    refine ⟨fun issue hcur path redisOk ↦ ?_, fun issue key expiresAt hcur hrep ↦ ?_,
      fun issue hi path faults token ht ↦ (accepted_own hmac hinv hi ht).2⟩
    · obtain ⟨hi, ht⟩ := current_mem hcur
      exact accepts_first hmac hinv hu hr hi ht path redisOk
    · obtain ⟨hi, ht⟩ := current_mem hcur
      exact absurd ⟨issue, hi, ht, by simp [hrep]⟩ hr

end Claims

section Examples

def settingsOne : Settings := ⟨true, id⟩

def envOne : Env where
  isIpInCIDRList := fun _ ↦ some true
  getUserCache := fun _ ↦ .ok ⟨1, "default"⟩
  userUsableGroup := fun _ _ ↦ true
  containsGroupRatio := fun _ ↦ true
  isAdmin := fun _ ↦ false

/-- A token is created, loaded and rotated. -/
def rotateOnce : List Event :=
  [.addToken none 1 7 "G2tYpQe8LrVn5KsW0aZcXb3HdJf9MuTiO6gRkPlE1qSvNwBm" (-1) 500 false none "",
    .getTokenByIds none 1 7, .rotateKey none 0 "5f0e6c1d9b7a4832a1c4d8e2f3b6079c"]

def pointOne : Point := run (step settingsOne) (start 1700000000) rotateOnce

theorem plain_of_all {key : String} (hk : key ≠ "")
    (h : key.toList.all Char.isAlphanum = true) : Plain key :=
  ⟨hk, List.all_eq_true.mp h⟩

theorem fresh_rotateOnce : Along (step settingsOne) Fresh (start 1700000000) rotateOnce := by
  refine ⟨⟨plain_of_all (by decide) (by simp), by simp [start]⟩, trivial,
    ⟨plain_of_all (by decide) (by simp), ?_⟩, trivial⟩
  decide

theorem rotated_pointOne : Rotated pointOne 1 := by
  refine ⟨_, List.mem_cons_self, rfl, ?_⟩
  decide

theorem usable_pointOne : Usable envOne pointOne.state 1 := by
  refine ⟨⟨_, rfl, ⟨rfl, .inl rfl, .inr (by decide)⟩, rfl, ⟨1, "default"⟩, rfl, rfl⟩, ?_⟩
  intro digest cached hc
  cases hc

theorem keepsClient_iff_rotated :
    KeepsClient settingsOne envOne pointOne 1 ↔ ¬Rotated pointOne 1 :=
  @keepsClient_iff settingsOne envOne 1 Function.injective_id 1700000000 rotateOnce
    fresh_rotateOnce usable_pointOne

/-- The key the first rotation returns is refused. -/
theorem rotated_key_refused : ¬KeepsClient settingsOne envOne pointOne 1 := by
  intro h
  obtain ⟨token, ht, _⟩ := h.current _ rfl "/v1/chat/completions" true
  have hrefused : (tokenAuth settingsOne envOne ⟨true, none, none, none⟩
      (presents "/v1/chat/completions" "sk-5f0e6c1d9b7a4832a1c4d8e2f3b6079c") pointOne.state).1 =
      .error ⟨401, "token.invalid"⟩ := rfl
  exact absurd (hrefused.symm.trans ht) (by simp)

end Examples

end AllAiTools.NewApi.Middleware.RotationKeeps
