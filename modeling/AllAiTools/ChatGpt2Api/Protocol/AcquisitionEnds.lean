import AllAiTools.ChatGpt2Api.Services.TokensIssued
import AllAiTools.ChatGpt2Api.Protocol.AccountLoops

namespace AllAiTools.ChatGpt2Api.Protocol.AcquisitionEnds

open Text Foundation Foundation.Budget Services.AccountService Services.TokenRefresh Services.TokensIssued
  AccountLoops

section Fetch

variable (config : Config) (autoRemoveInvalidAccounts : Bool) {jwtExp : Word → ℤ} {now : ℤ} {pool : Pool}
  {answers : FetchAnswers} {token : Word} {count : ℕ}

/-- Both refreshes give a token that was not replaced before. -/
def FreshFetch (jwtExp : Word → ℤ) (now : ℤ) (pool : Pool) (answers : FetchAnswers) (token : Word) : Prop :=
  FreshRefresh jwtExp now pool token false answers.preflight ∧
    let next := refreshAccessToken jwtExp now pool token false answers.preflight
    answers.info = .invalidAccessToken → FreshRefresh jwtExp now next.1 next.2 true answers.forced

theorem issuedByFetch_le (token : Word) : issuedByFetch jwtExp now pool answers token ≤ 2 := by
  rw [issuedByFetch]
  have hfirst := issued_le_one jwtExp now pool token false answers.preflight
  split
  · exact Nat.add_le_add hfirst (issued_le_one jwtExp now _ _ true answers.forced)
  · omega

theorem fetch_spec (h : Held pool.service token count)
    (hfresh : FreshFetch jwtExp now pool answers token) :
    ∃ last, Within pool.service
        (fetchRemoteInfo config autoRemoveInvalidAccounts jwtExp now pool answers token).1.service token last ∧
      (last ≠ token → 1 ≤ issuedByFetch jwtExp now pool answers token) ∧
      (Quiet (fetchRemoteInfo config autoRemoveInvalidAccounts jwtExp now pool answers token).1.service ∨
        Reached pool.service
          (fetchRemoteInfo config autoRemoveInvalidAccounts jwtExp now pool answers token).1.service token last
          count) ∧
      ∀ t a, (fetchRemoteInfo config autoRemoveInvalidAccounts jwtExp now pool answers token).2 =
        some (some (t, a)) → t = last ∧ Reached pool.service
          (fetchRemoteInfo config autoRemoveInvalidAccounts jwtExp now pool answers token).1.service token last
          count := by
  obtain ⟨hfirst, hsecond⟩ := hfresh
  have hreach := (Reached.start h).refresh hfirst
  have hissued := issued_eq jwtExp now false answers.preflight h.resolve
  rw [fetchRemoteInfo, issuedByFetch, hissued]
  cases hinfo : answers.info with
  | result result =>
    obtain ⟨hfetched, hsome⟩ := hreach.fetched config result
    refine ⟨_, hfetched.within, fun hlast ↦ ?_, .inr hfetched, fun t a ht ↦ ⟨hsome t a ht, hfetched⟩⟩
    rw [if_neg hlast]
    exact Nat.le_add_right 1 _
  | raised =>
    refine ⟨_, hreach.within, fun hlast ↦ ?_, .inr hreach, fun t a ht ↦ by cases ht⟩
    rw [if_neg hlast]
    exact Nat.le_add_right 1 _
  | invalidAccessToken =>
    have hreach' := hreach.refresh (hsecond hinfo)
    have hissued' := issued_eq jwtExp now true answers.forced hreach.held.resolve
    dsimp only
    rw [hissued']
    split
    · rename_i hrotated
      cases answers.retry with
      | result result =>
        obtain ⟨hfetched, hsome⟩ := hreach'.fetched config result
        refine ⟨_, hfetched.within, fun hlast ↦ ?_, .inr hfetched, fun t a ht ↦ ⟨hsome t a ht, hfetched⟩⟩
        exact Nat.le_add_left 1 _
      | raised =>
        refine ⟨_, hreach'.within, fun hlast ↦ ?_, .inr hreach', fun t a ht ↦ by cases ht⟩
        exact Nat.le_add_left 1 _
      | invalidAccessToken =>
        obtain ⟨hwithin, hslots⟩ := hreach'.invalidated config autoRemoveInvalidAccounts now
        refine ⟨_, hwithin, fun hlast ↦ ?_, hslots, fun t a ht ↦ by cases ht⟩
        exact Nat.le_add_left 1 _
    · rename_i hsame
      rw [not_not.mp hsame] at hreach'
      obtain ⟨hwithin, hslots⟩ := hreach'.invalidated config autoRemoveInvalidAccounts now
      refine ⟨_, hwithin, fun hlast ↦ ?_, hslots, fun t a ht ↦ by cases ht⟩
      rw [if_neg hlast]
      exact Nat.le_add_right 1 _

end Fetch

section Ready

variable (config : Config) (wanted : Wanted) {s s' : Service} {t u k : Word} {attempted : List Word}

/-- The tokens of the accounts that are what is wanted. -/
def readyTokens (s : Service) : Finset Word := (s.listReadyCandidateTokens wanted []).toFinset

def untried (s : Service) (attempted : List Word) : ℕ := (readyTokens wanted s \ attempted.toFinset).card

theorem mem_listReady : k ∈ s.listReadyCandidateTokens wanted attempted ↔
    (∃ a, s.accounts.get k = some a ∧ wanted.meets a = true) ∧ k ∉ attempted := by
  rw [Service.listReadyCandidateTokens, List.mem_map]
  constructor
  · intro h
    obtain ⟨item, hitem, rfl⟩ := h
    obtain ⟨hmem, hmeets⟩ := List.mem_filter.mp hitem
    rw [Bool.and_eq_true, decide_eq_true_eq] at hmeets
    exact ⟨⟨item.2, Dict.get_eq_some_iff.mpr hmem, hmeets.1⟩, hmeets.2⟩
  · intro h
    obtain ⟨⟨a, hget, hmeets⟩, hnot⟩ := h
    refine ⟨(k, a), List.mem_filter.mpr ⟨Dict.get_eq_some_iff.mp hget, ?_⟩, rfl⟩
    rw [Bool.and_eq_true, decide_eq_true_eq]
    exact ⟨hmeets, hnot⟩

theorem mem_readyTokens : k ∈ readyTokens wanted s ↔
    ∃ a, s.accounts.get k = some a ∧ wanted.meets a = true := by
  rw [readyTokens, List.mem_toFinset, mem_listReady]
  exact and_iff_left List.not_mem_nil

theorem readyTokens_within (h : Within s s' t u) :
    readyTokens wanted s' ⊆ insert u ((readyTokens wanted s).erase t) := by
  intro k hk
  by_cases hu : k = u
  · exact Finset.mem_insert.mpr (.inl hu)
  · obtain ⟨a, hget, hmeets⟩ := (mem_readyTokens wanted).mp hk
    obtain ⟨hget', ht⟩ := h k a hget hu
    refine Finset.mem_insert.mpr (.inr (Finset.mem_erase.mpr ⟨ht, ?_⟩))
    exact (mem_readyTokens wanted).mpr ⟨a, hget', hmeets⟩

theorem card_readyTokens_le (s : Service) : (readyTokens wanted s).card ≤ s.accounts.items.length := by
  refine (List.toFinset_card_le _).trans ?_
  rw [Service.listReadyCandidateTokens, List.length_map]
  exact List.length_filter_le _ _

theorem untried_le (s : Service) (attempted : List Word) :
    untried wanted s attempted ≤ (readyTokens wanted s).card :=
  Finset.card_le_card Finset.sdiff_subset

/-- An account that is tried is one less to try, unless it has a new token. -/
theorem untried_within (h : Within s s' t u) (ht : t ∈ readyTokens wanted s) (hnot : t ∉ attempted)
    {issued : ℕ} (hissued : u ≠ t → 1 ≤ issued) :
    untried wanted s' (t :: attempted) + 1 ≤ untried wanted s attempted + issued := by
  have hmem : t ∈ readyTokens wanted s \ attempted.toFinset :=
    Finset.mem_sdiff.mpr ⟨ht, fun hin ↦ hnot (List.mem_toFinset.mp hin)⟩
  have hcard := Finset.card_erase_add_one hmem
  have hsub : readyTokens wanted s' \ (t :: attempted).toFinset ⊆
      insert u ((readyTokens wanted s \ attempted.toFinset).erase t) := by
    intro k hk
    obtain ⟨hready, hout⟩ := Finset.mem_sdiff.mp hk
    rw [List.mem_toFinset, List.mem_cons, not_or] at hout
    obtain rfl | hk := Finset.mem_insert.mp (readyTokens_within wanted h hready)
    · exact Finset.mem_insert_self k _
    · refine Finset.mem_insert_of_mem (Finset.mem_erase.mpr ⟨hout.1, Finset.mem_sdiff.mpr ⟨?_, ?_⟩⟩)
      · exact Finset.mem_of_mem_erase hk
      · exact fun hin ↦ hout.2 (List.mem_toFinset.mp hin)
  rw [untried, untried]
  by_cases hu : u = t
  · have hsub' : readyTokens wanted s' \ (t :: attempted).toFinset ⊆
        (readyTokens wanted s \ attempted.toFinset).erase t := by
      intro k hk
      obtain rfl | hk' := Finset.mem_insert.mp (hsub hk)
      · exact absurd (List.mem_toFinset.mpr (hu ▸ List.mem_cons_self)) (Finset.mem_sdiff.mp hk).2
      · exact hk'
    have hle := Finset.card_le_card hsub'
    omega
  · have hle := (Finset.card_le_card hsub).trans (Finset.card_insert_le u _)
    have hone := hissued hu
    omega

theorem card_readyTokens_within (h : Within s s' t u) :
    (readyTokens wanted s').card ≤ ((readyTokens wanted s).erase t).card + 1 :=
  (Finset.card_le_card (readyTokens_within wanted h)).trans (Finset.card_insert_le u _)

end Ready

section Acquire

variable (config : Config) (autoRemoveInvalidAccounts : Bool) (jwtExp : Word → ℤ) (wanted : Wanted)

/-- With no slot taken there is always one to acquire. -/
theorem acquire_of_quiet {s : Service} (hquiet : Quiet s) {attempted : List Word}
    (hready : s.listReadyCandidateTokens wanted attempted ≠ []) :
    ∃ t, s.acquireNextCandidateToken config wanted attempted = some (t,
      { s with index := s.index + 1, imageInflight := Function.update s.imageInflight t 1 }) ∧
      t ∈ readyTokens wanted s ∧ t ∉ attempted := by
  have hall : s.listAvailableCandidateTokens config wanted attempted =
      s.listReadyCandidateTokens wanted attempted := by
    rw [Service.listAvailableCandidateTokens]
    refine List.filter_eq_self.mpr fun k _ ↦ decide_eq_true ?_
    rw [hquiet.inflight]
    exact Nat.lt_of_lt_of_le Nat.one_pos (Nat.le_max_left 1 _)
  have hlt : s.index % (s.listReadyCandidateTokens wanted attempted).length <
      (s.listReadyCandidateTokens wanted attempted).length :=
    Nat.mod_lt _ (List.length_pos_iff.mpr hready)
  refine ⟨(s.listReadyCandidateTokens wanted attempted).get ⟨_, hlt⟩, ?_, ?_⟩
  · rw [Service.acquireNextCandidateToken, hall]
    rw [List.getElem?_eq_getElem hlt, Option.map_some, hquiet.inflight]
    rfl
  · obtain ⟨hmeets, hnot⟩ := (mem_listReady wanted).mp
      (List.get_mem (s.listReadyCandidateTokens wanted attempted) ⟨_, hlt⟩)
    exact ⟨(mem_readyTokens wanted).mpr hmeets, hnot⟩

theorem Quiet.acquired {s : Service} (hquiet : Quiet s) {t : Word} (ht : t ∈ s.accounts.keys) (index : ℕ) :
    Held { s with index, imageInflight := Function.update s.imageInflight t 1 } t 1 where
  inflight k := by
    simp only [Function.update_apply, hquiet.inflight]
  current := hquiet.current_of_mem ht
  apart := hquiet.apart

/-- What is refreshed in a turn gets a token that was not replaced before. -/
def FreshAcquire (s : Available) (turn : FetchTurn) : Prop :=
  ∀ t service, s.pool.service.acquireNextCandidateToken config wanted s.attemptedTokens = some (t, service) →
    FreshFetch jwtExp turn.now (setService s.pool service) turn.answers t

/-- The account is returned, or its slot is given back. -/
theorem checkAccount_cases (s : Available) (turn : FetchTurn) (pool : Pool) (token : Word) :
    (∃ t a, (fetchRemoteInfo config autoRemoveInvalidAccounts jwtExp turn.now pool turn.answers token).2 =
        some (some (t, a)) ∧
      checkAccount config autoRemoveInvalidAccounts jwtExp wanted s turn pool token = .returned
        (fetchRemoteInfo config autoRemoveInvalidAccounts jwtExp turn.now pool turn.answers token).1 t) ∨
    checkAccount config autoRemoveInvalidAccounts jwtExp wanted s turn pool token = .again
      ⟨setService (fetchRemoteInfo config autoRemoveInvalidAccounts jwtExp turn.now pool turn.answers token).1
        ((fetchRemoteInfo config autoRemoveInvalidAccounts jwtExp turn.now pool turn.answers
          token).1.service.releaseImageSlot token), token :: s.attemptedTokens⟩ := by
  rw [checkAccount]
  cases hsome : (fetchRemoteInfo config autoRemoveInvalidAccounts jwtExp turn.now pool turn.answers token).2 with
  | none =>
    simp only [hsome]
    exact .inr trivial
  | some account =>
    cases account with
    | none =>
      simp only [hsome]
      exact .inr trivial
    | some item =>
      simp only [hsome]
      split
      · exact .inl ⟨item.1, item.2, rfl, rfl⟩
      · exact .inr rfl

theorem acquireTurn_spec {s : Available} {turn : FetchTurn} (hquiet : Quiet s.pool.service)
    (hfresh : FreshAcquire config jwtExp wanted s turn) :
    acquireTurn config autoRemoveInvalidAccounts jwtExp wanted s turn = .raised ∨
    ∃ t last pool, t ∈ readyTokens wanted s.pool.service ∧ t ∉ s.attemptedTokens ∧
      Within s.pool.service pool.service t last ∧
      (last ≠ t → 1 ≤ issuedByAcquire config jwtExp wanted s turn) ∧
      ((acquireTurn config autoRemoveInvalidAccounts jwtExp wanted s turn = .returned pool last ∧
          Held pool.service last 1) ∨
        (acquireTurn config autoRemoveInvalidAccounts jwtExp wanted s turn =
            .again ⟨pool, t :: s.attemptedTokens⟩ ∧ Quiet pool.service)) := by
  rw [acquireTurn]
  by_cases hready : s.pool.service.listReadyCandidateTokens wanted s.attemptedTokens = []
  · exact .inl (if_pos hready)
  refine .inr ?_
  obtain ⟨t, hacquire, ht, hnot⟩ := acquire_of_quiet config wanted hquiet hready
  have hmem : t ∈ s.pool.service.accounts.keys := by
    obtain ⟨a, hget, -⟩ := (mem_readyTokens wanted).mp ht
    exact Dict.mem_keys_of_get hget
  have hheld := Quiet.acquired hquiet hmem (s.pool.service.index + 1)
  obtain ⟨last, hwithin, hissued, hslots, hsome⟩ := @fetch_spec config autoRemoveInvalidAccounts jwtExp
    turn.now (setService s.pool { s.pool.service with
      index := s.pool.service.index + 1
      imageInflight := Function.update s.pool.service.imageInflight t 1 }) turn.answers t 1 hheld
    (hfresh t _ hacquire)
  rw [if_neg hready, issuedByAcquire, hacquire]
  obtain ⟨t', a, hreturned, heq⟩ | heq := checkAccount_cases config autoRemoveInvalidAccounts jwtExp wanted s
    turn (setService s.pool { s.pool.service with
      index := s.pool.service.index + 1
      imageInflight := Function.update s.pool.service.imageInflight t 1 }) t
  · obtain ⟨rfl, hreached⟩ := hsome t' a hreturned
    exact ⟨t, t', _, ht, hnot, hwithin, hissued, .inl ⟨heq, hreached.held⟩⟩
  · refine ⟨t, last, _, ht, hnot, ?_, hissued, .inr ⟨heq, ?_⟩⟩
    · exact hwithin
    · obtain hquiet' | hreached := hslots
      · exact hquiet'.release t
      · exact hreached.held.release (Nat.le_refl 1) hreached.leads

end Acquire

section Bounds

variable (config : Config) (autoRemoveInvalidAccounts : Bool) (jwtExp : Word → ℤ) (wanted : Wanted)

theorem issuedByAcquire_le (s : Available) (turn : FetchTurn) :
    issuedByAcquire config jwtExp wanted s turn ≤ 2 := by
  rw [issuedByAcquire]
  split
  · exact issuedByFetch_le _
  · exact Nat.zero_le 2

/-- Every turn tries another account, or one with a new token. -/
theorem available_turn {s next : Available} {turn : FetchTurn} (hquiet : Quiet s.pool.service)
    (hfresh : FreshAcquire config jwtExp wanted s turn)
    (hnext : (acquireTurn config autoRemoveInvalidAccounts jwtExp wanted s turn).again? = some next) :
    Quiet next.pool.service ∧ untried wanted next.pool.service next.attemptedTokens + 1 ≤
      untried wanted s.pool.service s.attemptedTokens + 1 * issuedByAcquire config jwtExp wanted s turn := by
  obtain hraised | ⟨t, last, pool, ht, hnot, hwithin, hissued, ⟨hreturned, -⟩ | ⟨hagain, hquiet'⟩⟩ :=
    acquireTurn_spec config autoRemoveInvalidAccounts jwtExp wanted hquiet hfresh
  · rw [hraised] at hnext
    cases hnext
  · rw [hreturned] at hnext
    cases hnext
  · rw [hagain] at hnext
    obtain rfl := Option.some.inj hnext
    rw [Nat.one_mul]
    exact ⟨hquiet', untried_within wanted hwithin ht hnot hissued⟩

theorem available_taken_le {s : Available} (hquiet : Quiet s.pool.service) {turns : List FetchTurn}
    (hfresh : (getAvailableAccessToken config autoRemoveInvalidAccounts jwtExp wanted).Along
      (FreshAcquire config jwtExp wanted) s turns) :
    (getAvailableAccessToken config autoRemoveInvalidAccounts jwtExp wanted).taken s turns ≤
      s.pool.service.accounts.items.length +
        (getAvailableAccessToken config autoRemoveInvalidAccounts jwtExp wanted).spent s turns + 1 := by
  have hturn : ∀ (s : Available) (turn : FetchTurn) (next : Available), Quiet s.pool.service →
      FreshAcquire config jwtExp wanted s turn →
      (getAvailableAccessToken config autoRemoveInvalidAccounts jwtExp wanted).turn s turn = some next →
        Quiet next.pool.service ∧ untried wanted next.pool.service next.attemptedTokens + 1 ≤
          untried wanted s.pool.service s.attemptedTokens +
            1 * (getAvailableAccessToken config autoRemoveInvalidAccounts jwtExp wanted).cost s turn :=
    fun s turn next hinv hok hnext ↦
      available_turn config autoRemoveInvalidAccounts jwtExp wanted hinv hok hnext
  have hle := Loop.taken_le hturn hquiet hfresh
  have hcard := (untried_le wanted s.pool.service s.attemptedTokens).trans
    (card_readyTokens_le wanted s.pool.service)
  omega

end Bounds

section Image

variable (config : Config) (autoRemoveInvalidAccounts : Bool) (jwtExp : Word → ℤ) (wanted : Wanted)

/-- The slots are as the state has them, and no more accounts are ready than at the start. -/
def ImageInv (n : ℕ) : ImageState → Prop
  | .acquiring available =>
    Quiet available.pool.service ∧ (readyTokens wanted available.pool.service).card ≤ n
  | .streaming pool token =>
    Held pool.service token 1 ∧ ((readyTokens wanted pool.service).erase token).card + 1 ≤ n

/-- An account that is lost counts for more turns than are needed to try the others. -/
def imageMeasure (n : ℕ) : ImageState → ℕ
  | .acquiring available =>
    (n + 2) * (readyTokens wanted available.pool.service).card +
      untried wanted available.pool.service available.attemptedTokens
  | .streaming pool token => (n + 2) * (((readyTokens wanted pool.service).erase token).card + 1)

def FreshImage (s : ImageState) (turn : ImageTurn) : Prop :=
  match s with
  | .acquiring available => FreshAcquire config jwtExp wanted available turn.fetch
  | .streaming pool token => turn.outcome = .raised false true →
    FreshRefresh jwtExp turn.fetch.now (markFailed config pool token) token true turn.forced

theorem markFailed_reached {pool : Pool} {token : Word} (h : Held pool.service token 1) :
    Reached pool.service (markFailed config pool token).service token token 0 := by
  have hquiet : Quiet (pool.service.releaseImageSlot token) := h.release (Nat.le_refl 1) .refl
  have hheld : Held (pool.service.releaseImageSlot token) token 0 := hquiet.held h.current
  obtain ⟨hwithin, haliases⟩ := recordImageResult_same config hheld.resolve false
  obtain ⟨hinflight, hkeys⟩ :=
    @Service.recordImageResult_spec config (pool.service.releaseImageSlot token) token false
  exact ⟨hwithin, hheld.same hinflight haliases hkeys, .refl⟩

theorem meets_of_available {a : Account} (h : isImageAccountAvailable a = false) :
    wanted.meets a = false := by
  rw [Wanted.meets, h]
  rfl

theorem acquiring_turn {n : ℕ} {available : Available} {turn : ImageTurn} {next : ImageState}
    (hinv : ImageInv wanted n (.acquiring available))
    (hfresh : FreshImage config jwtExp wanted (.acquiring available) turn)
    (hnext : imageTurn config autoRemoveInvalidAccounts jwtExp wanted turn (.acquiring available) =
      some next) :
    ImageInv wanted n next ∧ imageMeasure wanted n next + 1 ≤ imageMeasure wanted n (.acquiring available) +
      (n + 2) * issuedByImage config jwtExp wanted turn (.acquiring available) := by
  obtain ⟨hquiet, hcard⟩ := hinv
  obtain hraised | ⟨t, last, pool, ht, hnot, hwithin, hissued, hcases⟩ :=
    acquireTurn_spec config autoRemoveInvalidAccounts jwtExp wanted hquiet hfresh
  · rw [imageTurn, hraised] at hnext
    cases hnext
  have herase := Finset.card_erase_add_one ht
  have hready := card_readyTokens_within wanted hwithin
  have huntried := untried_within wanted hwithin ht hnot hissued
  obtain ⟨hreturned, hheld⟩ | ⟨hagain, hquiet'⟩ := hcases
  · rw [imageTurn, hreturned] at hnext
    obtain rfl := Option.some.inj hnext
    have hsub : (readyTokens wanted pool.service).erase last ⊆
        (readyTokens wanted available.pool.service).erase t := by
      intro k hk
      obtain ⟨hne, hk⟩ := Finset.mem_erase.mp hk
      exact (Finset.mem_insert.mp (readyTokens_within wanted hwithin hk)).resolve_left hne
    have hle := Finset.card_le_card hsub
    have hpos : 1 ≤ untried wanted available.pool.service available.attemptedTokens := by
      refine Finset.card_pos.mpr ⟨t, Finset.mem_sdiff.mpr ⟨ht, fun hin ↦ hnot ?_⟩⟩
      exact List.mem_toFinset.mp hin
    refine ⟨⟨hheld, by omega⟩, ?_⟩
    have hmul := Nat.mul_le_mul_left (n + 2)
      (show ((readyTokens wanted pool.service).erase last).card + 1 ≤
        (readyTokens wanted available.pool.service).card by omega)
    simp only [imageMeasure]
    omega
  · rw [imageTurn, hagain] at hnext
    obtain rfl := Option.some.inj hnext
    have hle : (readyTokens wanted pool.service).card ≤ (readyTokens wanted available.pool.service).card := by
      omega
    refine ⟨⟨hquiet', hle.trans hcard⟩, ?_⟩
    have hmul := Nat.mul_le_mul_left (n + 2) hle
    have hprice := Nat.le_mul_of_pos_left (issuedByAcquire config jwtExp wanted available turn.fetch)
      (show 0 < n + 2 by omega)
    simp only [imageMeasure, issuedByImage]
    omega

theorem streamTurn_cases {pool : Pool} {token : Word} {turn : ImageTurn} {next : ImageState}
    (h : streamTurn config autoRemoveInvalidAccounts jwtExp turn pool token = some next) :
    turn.outcome = .raised false true ∧
      (((refreshImage config jwtExp turn pool token).2 ≠ token ∧
          next = .acquiring ⟨(refreshImage config jwtExp turn pool token).1, []⟩) ∨
        ((refreshImage config jwtExp turn pool token).2 = token ∧
          next = .acquiring ⟨removeInvalidToken config autoRemoveInvalidAccounts
            (refreshImage config jwtExp turn pool token).1 token, []⟩)) := by
  rw [streamTurn] at h
  split at h
  · rename_i houtcome
    by_cases hsame : (refreshImage config jwtExp turn pool token).2 = token
    · simp only [hsame, ne_eq, not_true_eq_false, if_false] at h
      exact ⟨houtcome, .inr ⟨hsame, (Option.some.inj h).symm⟩⟩
    · simp only [ne_eq, hsame, not_false_eq_true, if_true] at h
      exact ⟨houtcome, .inl ⟨hsame, (Option.some.inj h).symm⟩⟩
  · cases h

theorem streaming_turn {n : ℕ} {pool : Pool} {token : Word} {turn : ImageTurn} {next : ImageState}
    (hinv : ImageInv wanted n (.streaming pool token))
    (hfresh : FreshImage config jwtExp wanted (.streaming pool token) turn)
    (hnext : imageTurn config autoRemoveInvalidAccounts jwtExp wanted turn (.streaming pool token) =
      some next) :
    ImageInv wanted n next ∧
      imageMeasure wanted n next + 1 ≤ imageMeasure wanted n (.streaming pool token) +
        (n + 2) * issuedByImage config jwtExp wanted turn (.streaming pool token) := by
  obtain ⟨hheld, hcard⟩ := hinv
  obtain ⟨houtcome, hcases⟩ := streamTurn_cases config autoRemoveInvalidAccounts jwtExp hnext
  have hmark := markFailed_reached config hheld
  have hreach : Reached pool.service (refreshImage config jwtExp turn pool token).1.service token
      (refreshImage config jwtExp turn pool token).2 0 := hmark.refresh (hfresh houtcome)
  have hissued : issued jwtExp turn.fetch.now (markFailed config pool token) token true turn.forced =
      if (refreshImage config jwtExp turn pool token).2 = token then 0 else 1 :=
    issued_eq jwtExp turn.fetch.now true turn.forced hmark.held.resolve
  have hexpand := Nat.mul_add_one (n + 2) ((readyTokens wanted pool.service).erase token).card
  obtain ⟨hrotated, rfl⟩ | ⟨hsame, rfl⟩ := hcases
  · have hready := card_readyTokens_within wanted hreach.within
    have huntried := (untried_le wanted (refreshImage config jwtExp turn pool token).1.service []).trans
      (hready.trans hcard)
    refine ⟨⟨hreach.held.quiet, hready.trans hcard⟩, ?_⟩
    have hmul := Nat.mul_le_mul_left (n + 2) hready
    simp only [imageMeasure, issuedByImage, houtcome, hissued, if_neg hrotated]
    omega
  · rw [hsame] at hreach
    obtain ⟨hwithin, hgone, hslots⟩ := hreach.remove config autoRemoveInvalidAccounts
    have hsub : readyTokens wanted (removeInvalidToken config autoRemoveInvalidAccounts
        (refreshImage config jwtExp turn pool token).1 token).service ⊆
          (readyTokens wanted pool.service).erase token := by
      intro k hk
      obtain rfl | hk' := Finset.mem_insert.mp (readyTokens_within wanted hwithin hk)
      · obtain ⟨a, hget, hmeets⟩ := (mem_readyTokens wanted).mp hk
        rw [meets_of_available wanted (hgone a hget)] at hmeets
        cases hmeets
      · exact hk'
    have hready := Finset.card_le_card hsub
    have huntried := (untried_le wanted (removeInvalidToken config autoRemoveInvalidAccounts
      (refreshImage config jwtExp turn pool token).1 token).service []).trans hready
    have hquiet : Quiet (removeInvalidToken config autoRemoveInvalidAccounts
        (refreshImage config jwtExp turn pool token).1 token).service :=
      hslots.elim id fun hreached ↦ hreached.held.quiet
    refine ⟨⟨hquiet, hready.trans ((Nat.le_succ _).trans hcard)⟩, ?_⟩
    have hmul := Nat.mul_le_mul_left (n + 2) hready
    simp only [imageMeasure]
    omega

theorem image_taken_le {s : Available} (hquiet : Quiet s.pool.service) {turns : List ImageTurn}
    (hfresh : (streamImageOutputs config autoRemoveInvalidAccounts jwtExp wanted).Along
      (FreshImage config jwtExp wanted) (.acquiring s) turns) :
    let n := s.pool.service.accounts.items.length
    (streamImageOutputs config autoRemoveInvalidAccounts jwtExp wanted).taken (.acquiring s) turns ≤
      (n + 2) * (n + 1 +
        (streamImageOutputs config autoRemoveInvalidAccounts jwtExp wanted).spent (.acquiring s) turns) := by
  intro n
  have hturn : ∀ (s : ImageState) (turn : ImageTurn) (next : ImageState), ImageInv wanted n s →
      FreshImage config jwtExp wanted s turn →
      (streamImageOutputs config autoRemoveInvalidAccounts jwtExp wanted).turn s turn = some next →
        ImageInv wanted n next ∧ imageMeasure wanted n next + 1 ≤ imageMeasure wanted n s +
          (n + 2) * (streamImageOutputs config autoRemoveInvalidAccounts jwtExp wanted).cost s turn := by
    intro s turn next hinv hok hnext
    cases s with
    | acquiring available =>
      exact acquiring_turn config autoRemoveInvalidAccounts jwtExp wanted hinv hok hnext
    | streaming pool token =>
      exact streaming_turn config autoRemoveInvalidAccounts jwtExp wanted hinv hok hnext
  have hcard := card_readyTokens_le wanted s.pool.service
  have hstart : ImageInv wanted n (.acquiring s) := ⟨hquiet, hcard⟩
  have hle := Loop.taken_le hturn hstart hfresh
  have huntried := (untried_le wanted s.pool.service s.attemptedTokens).trans hcard
  have hmul := Nat.mul_le_mul_left (n + 2) hcard
  have hmeasure : imageMeasure wanted n (.acquiring s) ≤ (n + 2) * n + n := Nat.add_le_add hmul huntried
  rw [Nat.mul_add, Nat.mul_add_one]
  omega

end Image

section Text

variable (config : Config) (autoRemoveInvalidAccounts : Bool) (jwtExp : Word → ℤ)

/-- The tokens of accounts that are none of some others. -/
def tokensBut (pool : Pool) (met : List Word) : Finset Word :=
  pool.service.accounts.keys.toFinset \ met.toFinset

/-- The accounts whose tokens the loop has not met. -/
def unmet (s : TextState) : ℕ := (tokensBut s.pool (s.token.toList ++ s.attemptedTokens)).card

theorem mem_tokensBut {pool : Pool} {met : List Word} {k : Word} :
    k ∈ tokensBut pool met ↔ k ∈ pool.service.accounts.keys ∧ k ∉ met := by
  rw [tokensBut, Finset.mem_sdiff, List.mem_toFinset, List.mem_toFinset]

theorem mem_keys_removeInvalidToken {pool : Pool} {token k : Word}
    (hk : k ∈ (removeInvalidToken config autoRemoveInvalidAccounts pool token).service.accounts.keys) :
    k ∈ pool.service.accounts.keys := by
  have hdeleted : ∀ k ∈ (pool.service.deleteAccounts [token.val]).accounts.keys,
      k ∈ pool.service.accounts.keys := fun k hk ↦ Dict.mem_keys_filter hk
  rw [removeInvalidToken] at hk
  split at hk
  · dsimp only at hk
    split at hk
    · exact hdeleted k hk
    · exact hdeleted k ((Service.updateAccount_spec token abnormalFields).2 k hk)
  · exact (Service.updateAccount_spec token abnormalFields).2 k hk

theorem not_contains_iff {tokens : List Word} {token : Word} :
    (!tokens.contains token) = true ↔ token ∉ tokens := by
  rw [Bool.not_eq_true', ← Bool.not_eq_true, List.contains_iff_mem]

theorem takesRefreshed_iff {jwtExp : Word → ℤ} {s : TextState} {turn : TextTurn} {token : Word} :
    takesRefreshed jwtExp s turn token = true ↔ (refreshText jwtExp s turn token).2 ≠ token ∧
      (refreshText jwtExp s turn token).2 ∉ token :: s.attemptedTokens := by
  rw [takesRefreshed, Bool.and_eq_true, decide_eq_true_eq, not_contains_iff]

theorem pickTextToken_spec {pool next : Pool} {excluded : List Word} {token : Word}
    (h : pickTextToken pool excluded = some (next, token)) :
    next.service.accounts = pool.service.accounts ∧ token ∈ pool.service.accounts.keys ∧
      token ∉ excluded := by
  rw [pickTextToken, Option.map_eq_some_iff] at h
  obtain ⟨token', htoken, heq⟩ := h
  obtain ⟨rfl, rfl⟩ := Prod.mk.inj heq
  obtain ⟨item, hitem, rfl⟩ := List.mem_map.mp (List.mem_of_getElem? htoken)
  obtain ⟨hmem, hout⟩ := List.mem_filter.mp hitem
  rw [Bool.and_eq_true, not_contains_iff] at hout
  exact ⟨rfl, List.mem_map_of_mem hmem, hout.2⟩

/-- A token that was met after a refresh is new, or one less to meet. -/
theorem card_refreshed {pool : Pool} {token : Word} {force : Bool} {answer : Option TokenData} {now : ℤ}
    {met : List Word} (hmet : (refreshAccessToken jwtExp now pool token force answer).2 ∉ met)
    (hne : (refreshAccessToken jwtExp now pool token force answer).2 ≠ token) :
    (tokensBut (refreshAccessToken jwtExp now pool token force answer).1
        ((refreshAccessToken jwtExp now pool token force answer).2 :: met)).card + 1 ≤
      (tokensBut pool met).card + issued jwtExp now pool token force answer := by
  obtain hsame | ⟨active, hactive, hwithin, hissued⟩ := refresh_any jwtExp now pool token force answer
  · rw [hsame] at hne
    exact absurd rfl hne
  have hsub : tokensBut (refreshAccessToken jwtExp now pool token force answer).1
      ((refreshAccessToken jwtExp now pool token force answer).2 :: met) ⊆
        (tokensBut pool met).erase active := by
    intro k hk
    obtain ⟨hmem, hnot⟩ := mem_tokensBut.mp hk
    rw [List.mem_cons, not_or] at hnot
    obtain ⟨hmem', hk'⟩ := hwithin.mem_keys hmem hnot.1
    exact Finset.mem_erase.mpr ⟨hk', mem_tokensBut.mpr ⟨hmem', hnot.2⟩⟩
  have hle := Finset.card_le_card hsub
  rw [hissued]
  split
  · rename_i hcurrent
    have hcard := Finset.card_erase_add_one (mem_tokensBut.mpr ⟨hactive, hcurrent ▸ hmet⟩)
    omega
  · exact Nat.add_le_add_right (hle.trans (Finset.card_erase_le)) 1

/-- An account whose token was not met is refreshed, and one less to meet. -/
theorem card_next (now : ℤ) (force : Bool) (answer : Option TokenData) {pool : Pool} {token : Word}
    {met : List Word} (hmem : token ∈ pool.service.accounts.keys) (hmet : token ∉ met) :
    (tokensBut (refreshAccessToken jwtExp now pool token force answer).1
        ((refreshAccessToken jwtExp now pool token force answer).2 :: met)).card + 1 ≤
      (tokensBut pool met).card := by
  have hwithin := refresh_within jwtExp now force answer (resolve_of_mem hmem)
  have hsub : tokensBut (refreshAccessToken jwtExp now pool token force answer).1
      ((refreshAccessToken jwtExp now pool token force answer).2 :: met) ⊆
        (tokensBut pool met).erase token := by
    intro k hk
    obtain ⟨hmem, hnot⟩ := mem_tokensBut.mp hk
    rw [List.mem_cons, not_or] at hnot
    obtain ⟨hmem', hk'⟩ := hwithin.mem_keys hmem hnot.1
    exact Finset.mem_erase.mpr ⟨hk', mem_tokensBut.mpr ⟨hmem', hnot.2⟩⟩
  have hle := Finset.card_le_card hsub
  have hcard := Finset.card_erase_add_one (mem_tokensBut.mpr ⟨hmem, hmet⟩)
  omega

/-- Refreshed to what was met, an account is no other to meet. -/
theorem tokensBut_refreshed {pool : Pool} {token : Word} {force : Bool} {answer : Option TokenData}
    {now : ℤ} {met : List Word} (hmet : (refreshAccessToken jwtExp now pool token force answer).2 ∈ met) :
    tokensBut (refreshAccessToken jwtExp now pool token force answer).1 met ⊆ tokensBut pool met := by
  intro k hk
  obtain ⟨hmem, hnot⟩ := mem_tokensBut.mp hk
  refine mem_tokensBut.mpr ⟨?_, hnot⟩
  obtain hsame | ⟨active, -, hwithin, -⟩ := refresh_any jwtExp now pool token force answer
  · rwa [hsame] at hmem
  · exact (hwithin.mem_keys hmem fun heq ↦ hnot (heq ▸ hmet)).1

/-- Every turn meets another token, of an account or a new one. -/
theorem text_turn {s next : TextState} {turn : TextTurn}
    (hnext : textTurn config autoRemoveInvalidAccounts jwtExp s turn = some next) :
    unmet next + 1 ≤ unmet s + 1 * issuedByText config autoRemoveInvalidAccounts jwtExp s turn := by
  rw [textTurn] at hnext
  rw [issuedByText]
  split at hnext
  · rename_i token htoken houtcome
    have hmet : unmet s = (tokensBut s.pool (token :: s.attemptedTokens)).card := by
      rw [unmet, htoken]
      rfl
    split at hnext
    · cases hnext
    rename_i hnot
    rw [hmet]
    simp only [if_neg hnot]
    split at hnext
    · rename_i htakes
      obtain rfl := Option.some.inj hnext
      rw [takesRefreshed_iff] at htakes
      have hcard := card_refreshed jwtExp htakes.2 htakes.1
      rw [Nat.one_mul]
      exact hcard.trans (Nat.add_le_add_left (Nat.le_add_right _ _) _)
    · rename_i htakes
      obtain ⟨⟨pool, candidate⟩, hpick, rfl⟩ := Option.map_eq_some_iff.mp hnext
      obtain ⟨haccounts, hmem, hout⟩ := pickTextToken_spec hpick
      have hback : (refreshText jwtExp s turn token).2 ∈ token :: s.attemptedTokens := by
        by_contra hnew
        refine htakes ?_
        rw [takesRefreshed_iff]
        exact ⟨fun heq ↦ hnew (List.mem_cons.mpr (.inl heq)), hnew⟩
      have hcard := card_next jwtExp turn.now false turn.preflight (haccounts ▸ hmem) hout
      have hsub : tokensBut pool (token :: s.attemptedTokens) ⊆
          tokensBut s.pool (token :: s.attemptedTokens) := by
        refine Finset.Subset.trans (fun k hk ↦ ?_) (tokensBut_refreshed jwtExp hback)
        obtain ⟨hk, hnotmet⟩ := mem_tokensBut.mp hk
        rw [haccounts] at hk
        exact mem_tokensBut.mpr ⟨mem_keys_removeInvalidToken config autoRemoveInvalidAccounts hk, hnotmet⟩
      have hle := Finset.card_le_card hsub
      exact (hcard.trans hle).trans (Nat.le_add_right _ _)
  · cases hnext

theorem text_taken_le (s : TextState) (turns : List TextTurn) :
    (streamTextDeltas config autoRemoveInvalidAccounts jwtExp).taken s turns ≤
      s.pool.service.accounts.items.length +
        (streamTextDeltas config autoRemoveInvalidAccounts jwtExp).spent s turns + 1 := by
  have hturn : ∀ (s : TextState) (turn : TextTurn) (next : TextState), True → True →
      (streamTextDeltas config autoRemoveInvalidAccounts jwtExp).turn s turn = some next →
        True ∧ unmet next + 1 ≤ unmet s +
          1 * (streamTextDeltas config autoRemoveInvalidAccounts jwtExp).cost s turn :=
    fun s turn next _ _ hnext ↦ ⟨trivial, text_turn config autoRemoveInvalidAccounts jwtExp hnext⟩
  have hle := Loop.taken_le hturn trivial (Loop.along_of_forall (fun _ _ ↦ trivial) s turns)
  have hcard : unmet s ≤ s.pool.service.accounts.items.length := by
    refine (Finset.card_le_card Finset.sdiff_subset).trans ((List.toFinset_card_le _).trans ?_)
    rw [Dict.keys, List.length_map]
  omega

end Text

section Claims

variable (config : Config) (autoRemoveInvalidAccounts : Bool) (jwtExp : Word → ℤ) (wanted : Wanted)

theorem issuedByText_le (s : TextState) (turn : TextTurn) :
    issuedByText config autoRemoveInvalidAccounts jwtExp s turn ≤ 2 := by
  rw [issuedByText]
  split
  · rename_i token _ _
    have hfirst := issued_le_one jwtExp turn.now s.pool token true turn.forced
    split
    · exact Nat.zero_le 2
    · split
      · omega
      · split
        · rename_i next _
          have hsecond := issued_le_one jwtExp turn.now next.1 next.2 false turn.preflight
          omega
        · omega
  · exact Nat.zero_le 2

theorem issuedByImage_le (s : ImageState) (turn : ImageTurn) :
    issuedByImage config jwtExp wanted turn s ≤ 2 := by
  cases s with
  | acquiring available => exact issuedByAcquire_le config jwtExp wanted available turn.fetch
  | streaming pool token =>
    rw [issuedByImage]
    split
    · exact (issued_le_one jwtExp _ _ _ true turn.forced).trans (Nat.le_succ 1)
    · exact Nat.zero_le 2

/-- On a set of runs the attempts are bounded by the number of accounts exactly when the new tokens
are that refreshes issue. At its start no slot is taken, and no refresh issues a token that was
replaced. -/
theorem acquisition_bounded_iff :
    (∀ runs : Set (Available × List FetchTurn),
      (∀ run ∈ runs, Quiet run.1.pool.service ∧
        (getAvailableAccessToken config autoRemoveInvalidAccounts jwtExp wanted).Along
          (FreshAcquire config jwtExp wanted) run.1 run.2) →
      ((getAvailableAccessToken config autoRemoveInvalidAccounts jwtExp wanted).Bounded runs ↔
        (getAvailableAccessToken config autoRemoveInvalidAccounts jwtExp wanted).Cheap runs)) ∧
    (∀ runs : Set (TextState × List TextTurn),
      (streamTextDeltas config autoRemoveInvalidAccounts jwtExp).Bounded runs ↔
        (streamTextDeltas config autoRemoveInvalidAccounts jwtExp).Cheap runs) ∧
    ∀ runs : Set (ImageState × List ImageTurn),
      (∀ run ∈ runs, ∃ available, run.1 = .acquiring available ∧ Quiet available.pool.service ∧
        (streamImageOutputs config autoRemoveInvalidAccounts jwtExp wanted).Along
          (FreshImage config jwtExp wanted) run.1 run.2) →
      ((streamImageOutputs config autoRemoveInvalidAccounts jwtExp wanted).Bounded runs ↔
        (streamImageOutputs config autoRemoveInvalidAccounts jwtExp wanted).Cheap runs) := by
  have hadd : ∀ n : ℕ, Monotone fun spent ↦ n + spent + 1 := fun n a b hab ↦
    Nat.add_le_add_right (Nat.add_le_add_left hab n) 1
  have hmul : ∀ n : ℕ, Monotone fun spent ↦ (n + 2) * (n + 1 + spent) := fun n a b hab ↦
    Nat.mul_le_mul_left _ (Nat.add_le_add_left hab _)
  refine ⟨fun runs hruns ↦ ?_, fun runs ↦ ?_, fun runs hruns ↦ ?_⟩
  · refine Loop.bounded_iff_cheap (fun run hrun ↦ ?_) hadd (issuedByAcquire_le config jwtExp wanted)
    obtain ⟨hquiet, hfresh⟩ := hruns run hrun
    exact available_taken_le config autoRemoveInvalidAccounts jwtExp wanted hquiet hfresh
  · refine Loop.bounded_iff_cheap (fun run _ ↦ ?_) hadd (issuedByText_le config autoRemoveInvalidAccounts jwtExp)
    exact text_taken_le config autoRemoveInvalidAccounts jwtExp run.1 run.2
  · refine Loop.bounded_iff_cheap (fun run hrun ↦ ?_) hmul (issuedByImage_le config jwtExp wanted)
    obtain ⟨available, hstart, hquiet, hfresh⟩ := hruns run hrun
    rw [hstart] at hfresh ⊢
    exact image_taken_le config autoRemoveInvalidAccounts jwtExp wanted hquiet hfresh

end Claims

section Example

def limitOne : Config := ⟨1, false, Nat.one_pos⟩

theorem strip_replicate (n : ℕ) : strip (List.replicate (n + 1) 'a') = List.replicate (n + 1) 'a' := by
  have hspace : isSpace 'a' = false := by decide
  have hleft : lstrip (List.replicate (n + 1) 'a') = List.replicate (n + 1) 'a' := by
    rw [lstrip, List.replicate_succ, List.dropWhile_cons_of_neg]
    rw [hspace]
    exact Bool.false_ne_true
  have hlast : (List.replicate (n + 1) 'a').rdropWhile isSpace = List.replicate (n + 1) 'a' := by
    rw [List.replicate_succ', List.rdropWhile_concat_neg]
    rw [hspace]
    exact Bool.false_ne_true
  rw [strip, hleft, rstrip, hlast]

/-- Tokens of different lengths. -/
def exampleToken (n : ℕ) : Word :=
  ⟨List.replicate (n + 1) 'a', by simp, strip_replicate n⟩

def exampleAccount : Account := normalizeAccount { Fields.empty with quota := some 1 }

/-- An account that can be refreshed. -/
def examplePool : Pool where
  service := ⟨Dict.empty.set (exampleToken 0) exampleAccount, fun _ ↦ 0, Dict.empty, 0⟩
  credentials := fun _ ↦ ⟨['r'], none, 0, none, none⟩

def noExpiry : Word → ℤ := fun _ ↦ 0

def anyAccount : Wanted := ⟨none, none, []⟩

theorem acquisition_bounded_iff_unspent :
    (getAvailableAccessToken limitOne true noExpiry anyAccount).Bounded
      {run | (Quiet run.1.pool.service ∧
          (getAvailableAccessToken limitOne true noExpiry anyAccount).Along
            (FreshAcquire limitOne noExpiry anyAccount) run.1 run.2) ∧
        (getAvailableAccessToken limitOne true noExpiry anyAccount).spent run.1 run.2 = 0} ∧
    (streamTextDeltas limitOne true noExpiry).Bounded
      {run | (streamTextDeltas limitOne true noExpiry).spent run.1 run.2 = 0} ∧
    (streamImageOutputs limitOne true noExpiry anyAccount).Bounded
      {run | (∃ available, run.1 = .acquiring available ∧ Quiet available.pool.service ∧
          (streamImageOutputs limitOne true noExpiry anyAccount).Along
            (FreshImage limitOne noExpiry anyAccount) run.1 run.2) ∧
        (streamImageOutputs limitOne true noExpiry anyAccount).spent run.1 run.2 = 0} := by
  obtain ⟨havailable, htext, himage⟩ := acquisition_bounded_iff limitOne true noExpiry anyAccount
  refine ⟨(havailable _ ?_).mpr ⟨fun _ ↦ 0, ?_⟩, (htext _).mpr ⟨fun _ ↦ 0, ?_⟩,
    (himage _ ?_).mpr ⟨fun _ ↦ 0, ?_⟩⟩
  · exact fun run hrun ↦ hrun.1
  · exact fun run hrun ↦ hrun.2.le
  · exact fun run hrun ↦ hrun.le
  · exact fun run hrun ↦ hrun.1
  · exact fun run hrun ↦ hrun.2.le

/-- The account has its `n`th token, and earlier ones were attempted. -/
structure Rotated (s : TextState) (n : ℕ) : Prop where
  token : s.token = some (exampleToken n)
  account : exampleToken n ∈ s.pool.service.accounts.keys
  refreshToken : (s.pool.credentials (exampleToken n)).refreshToken = ['r']
  attempted : ∀ token ∈ s.attemptedTokens, token.val.length < n + 1

/-- The token is invalid, and the refresh issues the next. -/
def rotating (n : ℕ) : TextTurn :=
  ⟨0, .raised false true, some ⟨(exampleToken (n + 1)).val, []⟩, none⟩

theorem length_exampleToken (n : ℕ) : (exampleToken n).val.length = n + 1 := List.length_replicate

theorem exampleToken_ne (n : ℕ) : exampleToken (n + 1) ≠ exampleToken n := by
  intro heq
  have hlength := congrArg (fun token ↦ token.val.length) heq
  simp only [length_exampleToken] at hlength
  omega

theorem refresh_rotates {pool : Pool} {n : ℕ} (hmem : exampleToken n ∈ pool.service.accounts.keys)
    (hrefresh : (pool.credentials (exampleToken n)).refreshToken = ['r']) :
    (refreshAccessToken noExpiry 0 pool (exampleToken n) true
        (some ⟨(exampleToken (n + 1)).val, []⟩)).2 = exampleToken (n + 1) ∧
      exampleToken (n + 1) ∈ (refreshAccessToken noExpiry 0 pool (exampleToken n) true
        (some ⟨(exampleToken (n + 1)).val, []⟩)).1.service.accounts.keys ∧
      ((refreshAccessToken noExpiry 0 pool (exampleToken n) true
        (some ⟨(exampleToken (n + 1)).val, []⟩)).1.credentials (exampleToken (n + 1))).refreshToken =
        ['r'] := by
  have hself := resolve_of_mem hmem
  obtain ⟨current, hcurrent⟩ := Option.isSome_iff_exists.mp ((pool.service.accounts.get_isSome _).mpr hmem)
  have hasks : asks noExpiry 0 pool (exampleToken n) true = true := by
    rw [asks, tokenNeedsRefresh, hrefresh]
    rfl
  have hword : word? (orElse (some (exampleToken (n + 1)).val) (exampleToken n).val) =
      some (exampleToken (n + 1)) := by
    rw [orElse, Option.getD_some, if_neg (exampleToken (n + 1)).2.1, word?_val]
  have hrotation : pool.service.rotation (exampleToken n) (exampleToken (n + 1)).val =
      some (exampleToken n, exampleToken (n + 1), current) := by
    rw [Service.rotation, hself, hcurrent, hword]
  rw [refreshAccessToken, hself, hcurrent]
  simp only [hasks, if_true, applyRefreshedTokens, hrotation, Function.update_self]
  refine ⟨trivial, ?_, hrefresh⟩
  rw [Service.applyRefreshedTokens, hrotation, Dict.mem_keys_set]
  exact .inl rfl

theorem Rotated.turn {s : TextState} {n : ℕ} (h : Rotated s n) :
    ∃ next, (streamTextDeltas limitOne true noExpiry).turn s (rotating n) = some next ∧
      Rotated next (n + 1) := by
  obtain ⟨hnew, hmem, hrefresh⟩ := refresh_rotates h.account h.refreshToken
  have hnot : exampleToken n ∉ s.attemptedTokens := by
    intro hattempted
    have hlt := h.attempted _ hattempted
    rw [length_exampleToken] at hlt
    exact Nat.lt_irrefl _ hlt
  have hattempted : ∀ token ∈ exampleToken n :: s.attemptedTokens, token.val.length < n + 1 + 1 := by
    intro token htoken
    obtain rfl | htoken := List.mem_cons.mp htoken
    · rw [length_exampleToken]
      exact Nat.lt_succ_self _
    · exact (h.attempted token htoken).trans (Nat.lt_succ_self _)
  have htakes : takesRefreshed noExpiry s (rotating n) (exampleToken n) = true := by
    rw [takesRefreshed_iff, refreshText, rotating, hnew]
    refine ⟨exampleToken_ne n, fun hmem ↦ ?_⟩
    have hlt := hattempted _ hmem
    rw [length_exampleToken] at hlt
    exact Nat.lt_irrefl _ hlt
  refine ⟨⟨(refreshText noExpiry s (rotating n) (exampleToken n)).1,
    some (refreshText noExpiry s (rotating n) (exampleToken n)).2, exampleToken n :: s.attemptedTokens⟩,
      ?_, ?_⟩
  · change textTurn limitOne true noExpiry s (rotating n) = _
    rw [textTurn, h.token]
    exact (if_neg fun h ↦ hnot (List.contains_iff_mem.mp h)).trans (if_pos htakes)
  · exact ⟨congrArg some hnew, hmem, hrefresh, hattempted⟩

theorem Rotated.taken {s : TextState} {n : ℕ} (h : Rotated s n) (turns : ℕ) :
    (streamTextDeltas limitOne true noExpiry).taken s ((List.range' n turns).map rotating) = turns := by
  induction turns generalizing s n with
  | zero => rfl
  | succ turns ih =>
    obtain ⟨next, hnext, hrotated⟩ := h.turn
    rw [List.range'_succ, List.map_cons, Loop.taken, hnext]
    exact congrArg Nat.succ (ih hrotated)

/-- Every refresh issues another token, and the conversation is tried again. -/
theorem acquisition_bounded_not : ¬ (streamTextDeltas limitOne true noExpiry).Bounded Set.univ := by
  rintro ⟨bound, hbound⟩
  have hstart : Rotated ⟨examplePool, some (exampleToken 0), []⟩ 0 :=
    ⟨rfl, List.mem_singleton_self _, rfl, fun token htoken ↦ absurd htoken List.not_mem_nil⟩
  obtain ⟨htaken, -⟩ := hbound (⟨examplePool, some (exampleToken 0), []⟩,
    (List.range' 0 (bound 1 + 1)).map rotating) trivial
  rw [hstart.taken] at htaken
  exact Nat.not_succ_le_self _ htaken

end Example

end AllAiTools.ChatGpt2Api.Protocol.AcquisitionEnds
