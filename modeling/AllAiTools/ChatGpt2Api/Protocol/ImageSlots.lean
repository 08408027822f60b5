import AllAiTools.ChatGpt2Api.Protocol.ImagePool
import AllAiTools.Foundation.Run
import AllAiTools.Foundation.Tally

namespace AllAiTools.ChatGpt2Api.Protocol.ImagePool

open Text Foundation Foundation.Run Foundation.Tally Services.AccountService

variable (config : Config) (requests : ℕ → ConversationRequest)

section Property

/-- The account a slot is still held of. -/
def Slot.heldOf (slot : Slot) : Option Word :=
  if slot.releases = 0 then some slot.account else none

structure Conserved (s : State) : Prop where
  counted : ∀ token ∈ s.service.accounts.keys,
    s.service.imageInflight token = tally Slot.heldOf s.slots token
  bounded : ∀ token ∈ s.service.accounts.keys,
    s.service.imageInflight token ≤ config.imageAccountConcurrency
  once : ∀ slot ∈ s.slots,
    slot.releases ≤ 1 ∧ (s.clients slot.client = .ended → slot.releases = 1)

end Property

section Conditions

variable (s : State)

/-- The slot that an action releases, and the token it is released by. -/
def releasing : Action → Option (ℕ × Word)
  | .fetchRaised c =>
    match s.clients c with
    | .fetching _ _ slot token => some (slot, token)
    | _ => none
  | .check c =>
    match s.clients c with
    | .fetched _ _ slot token account =>
      if account.any fun account ↦ (wantedBy requests c).meets account.2 then none
      else some (slot, token)
    | _ => none
  | .output c kind =>
    match s.clients c with
    | .streaming _ slot token _ =>
      if kind = .message ∧ (requests c).messageAsError then some (slot, token) else none
    | _ => none
  | .finish c =>
    match s.clients c with
    | .streaming _ slot token _ => some (slot, token)
    | _ => none
  | .raise c error =>
    match s.clients c with
    | .streaming _ slot token _ =>
      if error = .imagePollTimeout then none else some (slot, token)
    | _ => none
  | _ => none

/-- The token still leads to the account of the slot; if its count was dropped, to none that has
anything counted. -/
def LeadsBack (i : ℕ) (token : Word) : Prop :=
  ∀ slot, s.slots[i]? = some slot →
    if slot.dropped then s.service.imageInflight (s.service.resolveAccessToken token) = 0
    else s.service.resolveAccessToken token = slot.account

/-- No slot of the account that is still held had its count dropped. -/
def NothingDropped (token : Word) : Prop :=
  ∀ slot ∈ s.slots, slot.account = token → slot.releases = 0 → slot.dropped = false

def Pc.isSuspended : Pc → Bool
  | .suspended .. => true
  | _ => false

def Pc.isStreaming : Pc → Bool
  | .streaming .. => true
  | _ => false

/-- A step does not end a client that holds a slot, releases a slot where it is counted, and brings
in no token under which dropped slots are still held or too many would be counted. -/
structure Careful (action : Action) : Prop where
  close : ∀ c, action = .close c → (s.clients c).isSuspended = false
  timeout : ∀ c, action = .raise c .imagePollTimeout → (s.clients c).isStreaming = false
  leadsBack : ∀ i token, releasing requests s action = some (i, token) → LeadsBack s i token
  added : ∀ payloads, action = .addAccountPayloads payloads →
    ∀ token ∈ (Service.dedupe payloads).keys, NothingDropped s token
  rotated : ∀ oldAccessToken accessToken,
    action = .applyRefreshedTokens oldAccessToken accessToken →
    ∀ oldToken newToken current,
      s.service.rotation oldAccessToken accessToken = some (oldToken, newToken, current) →
      newToken ≠ oldToken → NothingDropped s newToken ∧
        s.service.imageInflight newToken + s.service.imageInflight oldToken ≤
          config.imageAccountConcurrency

end Conditions

section Invariant

/-- The account whose count has the slot in it. -/
def Slot.countedOf (slot : Slot) : Option Word :=
  if slot.releases = 0 ∧ slot.dropped = false then some slot.account else none

theorem Slot.heldOf_eq_some {slot : Slot} {token : Word} :
    slot.heldOf = some token ↔ slot.account = token ∧ slot.releases = 0 := by
  simp [Slot.heldOf, and_comm]

theorem Slot.countedOf_eq_some {slot : Slot} {token : Word} :
    slot.countedOf = some token ↔
      slot.account = token ∧ slot.releases = 0 ∧ slot.dropped = false := by
  simp [Slot.countedOf, and_comm]

/-- The slot a client holds where it stands. -/
def Pc.slot? : Pc → Option ℕ
  | .fetching _ _ slot _ => some slot
  | .fetched _ _ slot _ _ => some slot
  | .streaming _ slot _ _ => some slot
  | .suspended _ slot _ _ => some slot
  | _ => none

structure Inv (s : State) : Prop where
  counted : ∀ token, s.service.imageInflight token = tally Slot.countedOf s.slots token
  present : ∀ token ∈ s.service.accounts.keys, NothingDropped s token
  bounded : ∀ token, s.service.imageInflight token ≤ config.imageAccountConcurrency
  released : ∀ i slot, s.slots[i]? = some slot →
    slot.releases = if (s.clients slot.client).slot? = some i then 0 else 1
  owner : ∀ c i, (s.clients c).slot? = some i → ∃ slot, s.slots[i]? = some slot ∧ slot.client = c

variable {config} {s : State}

theorem initial_inv (accounts : Dict Word Account) : Inv config (initial accounts) where
  counted _ := rfl
  present _ _ slot hslot := absurd hslot List.not_mem_nil
  bounded _ := Nat.zero_le _
  released i slot hslot := by cases hslot
  owner c i hslot := by cases hslot

theorem Inv.conserved (hinv : Inv config s) : Conserved config s where
  counted token htoken := by
    rw [hinv.counted]
    refine tally_congr _ fun slot hslot ↦ ?_
    rw [Slot.countedOf_eq_some, Slot.heldOf_eq_some]
    constructor
    · exact fun h ↦ ⟨h.1, h.2.1⟩
    · exact fun h ↦ ⟨h.1, h.2, hinv.present token htoken slot hslot h.1 h.2⟩
  bounded token _ := hinv.bounded token
  once slot hslot := by
    obtain ⟨i, hi⟩ := List.mem_iff_getElem?.mp hslot
    have hreleased := hinv.released i slot hi
    constructor
    · rw [hreleased]
      split <;> omega
    · intro hended
      rw [hreleased, hended]
      rfl

/-- A step that leaves slots and counts alone, and brings in tokens of which nothing was dropped. -/
theorem Inv.rekey (hinv : Inv config s) {service : Service}
    (hinflight : service.imageInflight = s.service.imageInflight)
    (hpresent : ∀ token ∈ service.accounts.keys, NothingDropped s token) :
    Inv config { s with service } where
  counted token := (congrFun hinflight token).trans (hinv.counted token)
  present := hpresent
  bounded token := (congrFun hinflight token).trans_le (hinv.bounded token)
  released := hinv.released
  owner := hinv.owner

/-- A client moves on with what it holds, or with nothing if it held nothing. -/
theorem Inv.move (hinv : Inv config s) {service : Service}
    (hinflight : service.imageInflight = s.service.imageInflight)
    (hkeys : ∀ token ∈ service.accounts.keys, token ∈ s.service.accounts.keys) {c : ℕ} {pc : Pc}
    (hslot : pc.slot? = (s.clients c).slot?) : Inv config (setPc { s with service } c pc) := by
  have hservice := hinv.rekey hinflight fun token htoken ↦ hinv.present token (hkeys token htoken)
  have hclients : ∀ c', (Function.update s.clients c pc c').slot? = (s.clients c').slot? := by
    intro c'
    by_cases hc : c' = c
    · rw [hc, Function.update_self, hslot]
    · rw [Function.update_of_ne hc]
  refine ⟨hservice.counted, hservice.present, hservice.bounded, fun i slot hi ↦ ?_,
    fun c' i hc' ↦ ?_⟩
  · exact (hservice.released i slot hi).trans (by rw [setPc, hclients])
  · exact hservice.owner c' i ((hclients c').symm.trans hc')

/-- The slots go by other accounts, or lose their counts. -/
theorem Inv.relabel (hinv : Inv config s) {service : Service} {f : Slot → Slot}
    (hclient : ∀ slot, (f slot).client = slot.client)
    (hreleases : ∀ slot, (f slot).releases = slot.releases)
    (hcounted : ∀ token, service.imageInflight token = tally Slot.countedOf (s.slots.map f) token)
    (hpresent : ∀ token ∈ service.accounts.keys, ∀ slot ∈ s.slots, (f slot).account = token →
      slot.releases = 0 → (f slot).dropped = false)
    (hbounded : ∀ token, service.imageInflight token ≤ config.imageAccountConcurrency) :
    Inv config { s with service, slots := s.slots.map f } where
  counted := hcounted
  present token htoken slot hslot haccount hheld := by
    obtain ⟨held, hmem, rfl⟩ := List.mem_map.mp hslot
    exact hpresent token htoken held hmem haccount ((hreleases held).symm.trans hheld)
  bounded := hbounded
  released i slot hi := by
    obtain ⟨held, hold, rfl⟩ := Option.map_eq_some_iff.mp (List.getElem?_map.symm.trans hi)
    rw [hreleases, hclient]
    exact hinv.released i held hold
  owner c i hc := by
    obtain ⟨held, hold, hclient'⟩ := hinv.owner c i hc
    refine ⟨f held, ?_, (hclient held).trans hclient'⟩
    exact List.getElem?_map.trans (by rw [hold]; rfl)

/-- A slot is acquired of an account that has one free. -/
theorem Inv.acquire (hinv : Inv config s) {token : Word} {index : ℕ} {c : ℕ} {pc : Pc}
    (htoken : token ∈ s.service.accounts.keys)
    (hfree : s.service.imageInflight token < config.imageAccountConcurrency)
    (hnone : (s.clients c).slot? = none) (hpc : pc.slot? = some s.slots.length) :
    Inv config
      { service := { s.service with
          index := index
          imageInflight := Function.update s.service.imageInflight token
            (s.service.imageInflight token + 1) }
        clients := Function.update s.clients c pc
        slots := s.slots ++ [⟨c, token, false, 0⟩] } := by
  have hlength : ∀ c' i, (s.clients c').slot? = some i → i < s.slots.length := by
    intro c' i hc'
    obtain ⟨slot, hslot, -⟩ := hinv.owner c' i hc'
    exact (List.getElem?_eq_some_iff.mp hslot).1
  refine ⟨fun token' ↦ ?_, fun token' htoken' ↦ ?_, fun token' ↦ ?_, fun i slot hi ↦ ?_,
    fun c' i hc' ↦ ?_⟩
  · rw [tally_append, tally_singleton, ← hinv.counted]
    by_cases heq : token' = token
    · subst heq
      simp [Slot.countedOf]
    · simp [Slot.countedOf, heq, Ne.symm heq]
  · intro slot hslot haccount hreleases
    rcases List.mem_append.mp hslot with hold | hnew
    · exact hinv.present token' htoken' slot hold haccount hreleases
    · rw [List.mem_singleton.mp hnew]
  · have hbefore := hinv.bounded token'
    by_cases heq : token' = token
    · subst heq
      simpa using hfree
    · simpa [heq] using hbefore
  · rcases Nat.lt_or_ge i s.slots.length with hlt | hge
    · rw [List.getElem?_append_left hlt] at hi
      have hbefore := hinv.released i slot hi
      by_cases hc : slot.client = c
      · have hold : (s.clients slot.client).slot? ≠ some i := by
          rw [hc, hnone]
          exact fun h ↦ nomatch h
        have hnew : pc.slot? ≠ some i := by
          rw [hpc]
          exact fun h ↦ absurd (Option.some.inj h) hlt.ne'
        rw [if_neg hold] at hbefore
        simp only [hc, Function.update_self, if_neg hnew, hbefore]
      · simp only [Function.update_of_ne hc, hbefore]
    · rw [List.getElem?_append_right hge] at hi
      have hi' : i = s.slots.length := by
        have hlt := (List.getElem?_eq_some_iff.mp hi).1
        rw [List.length_singleton] at hlt
        omega
      rw [hi', Nat.sub_self] at hi
      rw [← Option.some.inj hi, hi']
      simp [hpc]
  · by_cases hc : c' = c
    · subst hc
      simp only [Function.update_self, hpc] at hc'
      exact ⟨⟨c', token, false, 0⟩, by rw [← Option.some.inj hc']; simp, rfl⟩
    · simp only [Function.update_of_ne hc] at hc'
      obtain ⟨slot, hslot, hclient⟩ := hinv.owner c' i hc'
      refine ⟨slot, ?_, hclient⟩
      rw [List.getElem?_append_left (hlength c' i hc')]
      exact hslot

/-- A slot is released where it is counted. -/
theorem Inv.release (hinv : Inv config s) {c i : ℕ} {token : Word} {pc : Pc}
    (hslot : (s.clients c).slot? = some i) (hback : LeadsBack s i token)
    (hpc : pc.slot? = none) : Inv config (release s c i token pc) := by
  obtain ⟨slot, hi, hclient⟩ := hinv.owner c i hslot
  have hheld : slot.releases = 0 := by
    rw [hinv.released i slot hi, hclient, hslot, if_pos rfl]
  have hleft : Slot.countedOf { slot with releases := slot.releases + 1 } = none :=
    if_neg fun h ↦ absurd h.1 (Nat.succ_ne_zero _)
  have htally := tally_leave Slot.countedOf
    (f := fun held : Slot ↦ { held with releases := held.releases + 1 }) hi hleft
  have hback := hback slot hi
  have hinflight : ∀ token', (s.service.releaseImageSlot token).imageInflight token' =
      tally Slot.countedOf
        (s.slots.modify i fun held ↦ { held with releases := held.releases + 1 }) token' := by
    intro token'
    have hleave := htally token'
    have hcounted := hinv.counted token'
    simp only [Service.releaseImageSlot]
    cases hdropped : slot.dropped with
    | true =>
      have hnone : Slot.countedOf slot = none := if_neg fun h ↦ by
        rw [hdropped] at h
        cases h.2
      rw [hdropped, if_pos rfl] at hback
      have hsame : tally Slot.countedOf (s.slots.modify i fun held ↦
          { held with releases := held.releases + 1 }) token' =
            tally Slot.countedOf s.slots token' := by simpa [hnone] using hleave
      rw [hsame, ← hcounted]
      by_cases heq : token' = s.service.resolveAccessToken token
      · rw [heq, Function.update_self, hback]
        rfl
      · rw [Function.update_of_ne heq]
    | false =>
      have hsome : Slot.countedOf slot = some slot.account := if_pos ⟨hheld, hdropped⟩
      rw [hdropped, if_neg Bool.false_ne_true] at hback
      rw [hsome] at hleave
      rw [hback]
      by_cases heq : token' = slot.account
      · rw [heq, Function.update_self]
        rw [heq] at hleave hcounted
        rw [if_pos rfl] at hleave
        split <;> omega
      · rw [Function.update_of_ne heq, hcounted]
        simpa [Ne.symm heq] using hleave.symm
  have hmodify : ∀ j slot', (s.slots.modify i fun held ↦
      { held with releases := held.releases + 1 })[j]? = some slot' →
        (j = i ∧ slot' = { slot with releases := slot.releases + 1 }) ∨
          (j ≠ i ∧ s.slots[j]? = some slot') := by
    intro j slot' hj
    rw [List.getElem?_modify] at hj
    by_cases hij : j = i
    · left
      rw [hij, hi] at hj
      exact ⟨hij, by simpa using hj.symm⟩
    · right
      simpa [hij, Ne.symm hij] using hj
  refine ⟨hinflight, fun token' htoken' ↦ ?_, fun token' ↦ ?_, fun j slot' hj ↦ ?_,
    fun c' j hc' ↦ ?_⟩
  · intro slot' hslot' haccount hreleases
    obtain ⟨j, hj⟩ := List.mem_iff_getElem?.mp hslot'
    rcases hmodify j slot' hj with ⟨-, rfl⟩ | ⟨-, hold⟩
    · exact absurd hreleases (Nat.succ_ne_zero _)
    · exact hinv.present token' htoken' slot' (List.mem_of_getElem? hold) haccount hreleases
  · refine le_trans ?_ (hinv.bounded token')
    rw [hinv.counted]
    have hleave := htally token'
    exact (hinflight token').trans_le (by omega)
  · rcases hmodify j slot' hj with ⟨rfl, rfl⟩ | ⟨hne, hold⟩
    · simp only [ImagePool.release, hclient, Function.update_self, hpc, hheld]
      rfl
    · have hbefore := hinv.released j slot' hold
      by_cases hc : slot'.client = c
      · have hother : (s.clients slot'.client).slot? ≠ some j := by
          rw [hc, hslot]
          exact fun h ↦ hne (Option.some.inj h).symm
        rw [if_neg hother] at hbefore
        simp only [ImagePool.release, hc, Function.update_self, hpc, hbefore]
        rfl
      · simp only [ImagePool.release, Function.update_of_ne hc, hbefore]
  · have hne : c' ≠ c := by
      rintro rfl
      simp only [ImagePool.release, Function.update_self, hpc] at hc'
      cases hc'
    simp only [ImagePool.release, Function.update_of_ne hne] at hc'
    obtain ⟨held, hheld', hclient'⟩ := hinv.owner c' j hc'
    refine ⟨held, ?_, hclient'⟩
    have hij : i ≠ j := by
      rintro rfl
      rw [hi] at hheld'
      exact hne (by rw [← hclient', ← hclient, Option.some.inj hheld'])
    exact (List.getElem?_modify_ne _ _ hij).trans hheld'

/-- The account of a rotated token keeps its slots. -/
theorem Inv.rotate (hinv : Inv config s) {oldAccessToken : Word} {accessToken : Str}
    (hcareful : ∀ oldToken newToken current,
      s.service.rotation oldAccessToken accessToken = some (oldToken, newToken, current) →
      newToken ≠ oldToken → NothingDropped s newToken ∧
        s.service.imageInflight newToken + s.service.imageInflight oldToken ≤
          config.imageAccountConcurrency) :
    Inv config (applyRefreshedTokens s oldAccessToken accessToken) := by
  rw [applyRefreshedTokens, Service.applyRefreshedTokens]
  cases hrotation : s.service.rotation oldAccessToken accessToken with
  | none => exact hinv
  | some rotation =>
    obtain ⟨oldToken, newToken, current⟩ := rotation
    have hold := Service.rotation_spec hrotation
    dsimp only
    by_cases hsame : newToken = oldToken
    · subst hsame
      have hslots : (s.slots.map fun slot ↦
          if slot.account = newToken then { slot with account := newToken } else slot) =
            s.slots := by
        refine (List.map_congr_left fun slot _ ↦ ?_).trans (List.map_id _)
        split
        · rename_i haccount
          rw [← haccount]
          rfl
        · rfl
      rw [hslots, if_neg (not_not.mpr rfl)]
      refine hinv.rekey rfl fun token htoken ↦ hinv.present token ?_
      rcases (s.service.accounts.mem_keys_set newToken _).mp htoken with rfl | hmem
      · exact hold
      · exact hmem
    · obtain ⟨hnothing, hbound⟩ := hcareful oldToken newToken current hrotation hsame
      rw [if_pos hsame]
      have hmoved : ∀ slot : Slot, ∀ token, (if slot.account = oldToken then
          { slot with account := newToken } else slot).countedOf = some token ↔
            (slot.countedOf = some token ∧ token ≠ oldToken) ∨
              (slot.countedOf = some oldToken ∧ token = newToken) := by
        intro slot token
        simp only [Slot.countedOf_eq_some]
        by_cases haccount : slot.account = oldToken
        · rw [if_pos haccount]
          grind
        · rw [if_neg haccount]
          grind
      refine hinv.relabel (fun slot ↦ ?_) (fun slot ↦ ?_) (fun token ↦ ?_)
        (fun token htoken slot hslot haccount hheld ↦ ?_) fun token ↦ ?_
      · split <;> rfl
      · split <;> rfl
      · dsimp only
        by_cases hto : token = newToken
        · subst hto
          rw [Function.update_of_ne hsame, Function.update_self, hinv.counted, hinv.counted,
            Nat.add_comm]
          refine (tally_move _ (Ne.symm hsame) fun slot _ ↦ (hmoved slot token).trans ?_).symm
          simp [hsame, or_comm]
        · by_cases hfrom : token = oldToken
          · rw [hfrom, Function.update_self]
            refine (tally_eq_zero _).mpr ?_ |>.symm
            intro slot hslot hcounted
            obtain ⟨held, -, rfl⟩ := List.mem_map.mp hslot
            have h := (hmoved held oldToken).mp hcounted
            simp [Ne.symm hsame] at h
          · rw [Function.update_of_ne hfrom, Function.update_of_ne hto, hinv.counted]
            refine (tally_map _ fun slot _ ↦ (hmoved slot token).trans ?_).symm
            simp [hfrom, hto]
      · have hpresent : slot.account = oldToken ∨ slot.account = newToken ∨
            slot.account ∈ s.service.accounts.keys := by
          rcases (Dict.mem_keys_set _ newToken _).mp htoken with hnew | hkept
          · by_cases h : slot.account = oldToken
            · exact .inl h
            · rw [if_neg h] at haccount
              exact .inr (.inl (haccount.trans hnew))
          · by_cases h : slot.account = oldToken
            · exact .inl h
            · rw [if_neg h] at haccount
              rw [haccount]
              exact .inr (.inr ((Dict.mem_keys_pop _ oldToken).mp hkept).1)
        have hdropped : slot.dropped = false := by
          rcases hpresent with h | h | h
          · exact hinv.present oldToken hold slot hslot h hheld
          · exact hnothing slot hslot h hheld
          · exact hinv.present _ h slot hslot rfl hheld
        split
        · exact hdropped
        · exact hdropped
      · have hbefore := hinv.bounded token
        dsimp only
        by_cases hfrom : token = oldToken
        · rw [hfrom, Function.update_self]
          exact Nat.zero_le _
        · rw [Function.update_of_ne hfrom]
          by_cases hto : token = newToken
          · rw [hto, Function.update_self]
            exact hbound
          · rw [Function.update_of_ne hto]
            exact hbefore

/-- The slots of what is deleted lose their counts. -/
theorem Inv.delete (hinv : Inv config s) (tokens : List Str) :
    Inv config (deleteAccounts s tokens) := by
  rw [deleteAccounts]
  simp only [List.contains_iff_mem]
  refine hinv.relabel (fun slot ↦ ?_) (fun slot ↦ ?_) (fun token ↦ ?_)
    (fun token htoken slot hslot haccount hheld ↦ ?_) fun token ↦ ?_
  · split <;> rfl
  · split <;> rfl
  · rw [Service.deleteAccounts]
    dsimp only
    by_cases htarget : token ∈ s.service.targets tokens
    · rw [if_pos htarget]
      refine ((tally_eq_zero _).mpr ?_).symm
      intro slot hslot hcounted
      obtain ⟨held, -, rfl⟩ := List.mem_map.mp hslot
      rw [Slot.countedOf_eq_some] at hcounted
      by_cases haccount : held.account ∈ s.service.targets tokens
      · rw [if_pos haccount] at hcounted
        exact nomatch hcounted.2.2
      · rw [if_neg haccount] at hcounted
        exact haccount (hcounted.1 ▸ htarget)
    · rw [if_neg htarget, hinv.counted]
      refine (tally_map _ fun slot _ ↦ ?_).symm
      rw [Slot.countedOf_eq_some, Slot.countedOf_eq_some]
      by_cases haccount : slot.account ∈ s.service.targets tokens
      · rw [if_pos haccount]
        exact ⟨fun h ↦ absurd (h.1 ▸ haccount) htarget, fun h ↦ absurd (h.1 ▸ haccount) htarget⟩
      · rw [if_neg haccount]
  · have hleft : token ∉ s.service.targets tokens := by
      obtain ⟨item, hitem, rfl⟩ := List.mem_map.mp htoken
      simpa using (List.mem_filter.mp hitem).2
    by_cases htarget : slot.account ∈ s.service.targets tokens
    · rw [if_pos htarget] at haccount
      exact absurd (haccount ▸ htarget) hleft
    · rw [if_neg htarget] at haccount ⊢
      exact hinv.present token (Dict.mem_keys_filter htoken) slot hslot haccount hheld
  · rw [Service.deleteAccounts]
    dsimp only
    split
    · exact Nat.zero_le _
    · exact hinv.bounded token

end Invariant

section Runs

variable {config} {s : State}

/-- A client ends, or goes on, without the slot it held. -/
theorem Careful.release {action : Action} (hcareful : Careful config requests s action)
    (hinv : Inv config s) {c i : ℕ} {token : Word} {pc : Pc}
    (hslot : (s.clients c).slot? = some i) (hreleasing : releasing requests s action = some (i, token))
    (hpc : pc.slot? = none) : Inv config (ImagePool.release s c i token pc) :=
  hinv.release hslot (hcareful.leadsBack i token hreleasing) hpc

theorem turn_slot (c index : ℕ) : (turn requests c index).slot? = none := by
  rw [turn]
  split
  · rfl
  · rfl

theorem Inv.client (hinv : Inv config s) {c : ℕ} {pc : Pc}
    (hslot : pc.slot? = (s.clients c).slot?) : Inv config (setPc s c pc) :=
  hinv.move rfl (fun _ htoken ↦ htoken) hslot

theorem Inv.step_acquire (hinv : Inv config s) (c : ℕ) :
    Inv config (ImagePool.acquire config requests s c) := by
  rw [ImagePool.acquire]
  split
  · rename_i index attempted hpc
    split
    · exact hinv.client (by rw [hpc]; rfl)
    · split
      · rename_i token service hacquired
        obtain ⟨htoken, hfree, rfl⟩ := Service.acquire_spec hacquired
        exact hinv.acquire htoken hfree (by rw [hpc]; rfl) rfl
      · exact hinv
  · exact hinv

theorem Inv.step_check (hinv : Inv config s) (c : ℕ)
    (hcareful : Careful config requests s (.check c)) : Inv config (check requests s c) := by
  rw [check]
  split
  · rename_i index attempted slot token account hpc
    split
    · exact hinv.client (by rw [hpc]; rfl)
    · rename_i hnone
      refine hcareful.release requests hinv (by rw [hpc]; rfl) ?_ rfl
      have hmeets : ¬ account.any (fun account ↦ (wantedBy requests c).meets account.2) = true := by
        cases account with
        | none => exact Bool.false_ne_true
        | some account => simpa [Option.filter_eq_none_iff] using hnone
      simp only [releasing, hpc, if_neg hmeets]
  · exact hinv

theorem Inv.step_output (hinv : Inv config s) (c : ℕ) (kind : OutputKind)
    (hcareful : Careful config requests s (.output c kind)) :
    Inv config (output requests s c kind) := by
  rw [output]
  split
  · rename_i index slot token outputs hpc
    split
    · rename_i herror
      refine hcareful.release requests hinv (by rw [hpc]; rfl) ?_ rfl
      simp only [releasing, hpc, if_pos herror]
    · exact hinv.client (by rw [hpc]; rfl)
  · exact hinv

theorem Inv.step_finish (hinv : Inv config s) (c : ℕ)
    (hcareful : Careful config requests s (.finish c)) : Inv config (finish s c) := by
  rw [finish]
  split
  · rename_i index slot token outputs hpc
    have hreleasing : releasing requests s (.finish c) = some (slot, token) := by
      simp only [releasing, hpc]
    split
    · exact hcareful.release requests hinv (by rw [hpc]; rfl) hreleasing rfl
    · exact hcareful.release requests hinv (by rw [hpc]; rfl) hreleasing rfl
  · exact hinv

theorem Inv.step_raise (hinv : Inv config s) (c : ℕ) (error : Raised)
    (hcareful : Careful config requests s (.raise c error)) : Inv config (raise s c error) := by
  rw [raise]
  split
  · rename_i index slot token outputs hpc
    cases error with
    | imagePollTimeout =>
      have hstreaming := hcareful.timeout c rfl
      rw [hpc] at hstreaming
      cases hstreaming
    | imageGeneration =>
      refine hcareful.release requests hinv (by rw [hpc]; rfl) ?_ rfl
      simp only [releasing, hpc, reduceCtorEq, if_false]
    | other message =>
      refine hcareful.release requests hinv (by rw [hpc]; rfl) ?_ rfl
      simp only [releasing, hpc, reduceCtorEq, if_false]
  · exact hinv

/-- Every careful step keeps the counts. -/
theorem Inv.step (hinv : Inv config s) {action : Action}
    (hcareful : Careful config requests s action) :
    Inv config (ImagePool.step config requests s action) := by
  cases action with
  | start c =>
    change Inv config (start requests s c)
    rw [start]
    split
    · rename_i hpc _
      exact hinv.client (by rw [hpc, turn_slot]; rfl)
    · rename_i hpc _
      exact hinv.client (by rw [hpc]; rfl)
    · exact hinv
  | acquire c => exact hinv.step_acquire requests c
  | fetchRaised c =>
    change Inv config (fetchRaised s c)
    rw [fetchRaised]
    split
    · rename_i index attempted slot token hpc
      refine hcareful.release requests hinv (by rw [hpc]; rfl) ?_ rfl
      simp only [releasing, hpc]
    · exact hinv
  | fetch c activeToken result =>
    change Inv config (fetch config s c activeToken result)
    rw [fetch]
    split
    · rename_i index attempted slot token hpc
      obtain ⟨hinflight, hkeys⟩ := Service.updateAccount_spec activeToken result
      exact hinv.move hinflight hkeys (by rw [hpc]; rfl)
    · exact hinv
  | check c => exact hinv.step_check requests c hcareful
  | output c kind => exact hinv.step_output requests c kind hcareful
  | resume c =>
    change Inv config (resume s c)
    rw [resume]
    split
    · rename_i index slot token outputs hpc
      exact hinv.client (by rw [hpc]; rfl)
    · exact hinv
  | close c =>
    change Inv config (close s c)
    rw [close]
    split
    · rename_i hpc
      have hsuspended := hcareful.close c rfl
      rw [hpc] at hsuspended
      cases hsuspended
    · exact hinv
  | finish c => exact hinv.step_finish requests c hcareful
  | raise c error => exact hinv.step_raise requests c error hcareful
  | record c =>
    change Inv config (record config requests s c)
    rw [record]
    split
    · rename_i token success next hpc
      obtain ⟨hinflight, hkeys⟩ := Service.recordImageResult_spec token success
      refine hinv.move hinflight hkeys ?_
      rw [hpc]
      cases next with
      | some index => exact turn_slot requests c index
      | none => rfl
    · exact hinv
  | applyRefreshedTokens oldAccessToken accessToken =>
    exact hinv.rotate (hcareful.rotated oldAccessToken accessToken rfl)
  | deleteAccounts tokens => exact hinv.delete tokens
  | addAccountPayloads payloads =>
    refine hinv.rekey rfl fun token htoken ↦ ?_
    rcases (Service.mem_keys_addAccountPayloads payloads).mp htoken with hold | hnew
    · exact hinv.present token hold
    · exact hcareful.added payloads rfl token hnew
  | updateAccount token updates =>
    obtain ⟨hinflight, hkeys⟩ := Service.updateAccount_spec token updates
    exact hinv.rekey hinflight fun token' htoken' ↦ hinv.present token' (hkeys token' htoken')

/-- In every state of a careful run the slots of every account are counted, no account has more of
them than it may, and what was acquired is released once by its client's end. -/
theorem slots_conserved (accounts : Dict Word Account) (trace : List Action)
    (hcareful : Along (step config requests) (Careful config requests) (initial accounts) trace) :
    Conserved config (run (step config requests) (initial accounts) trace) :=
  (hcareful.invariant (Inv config) (fun _ _ hinv hok ↦ hinv.step requests hok)
    (initial_inv accounts)).conserved

end Runs

section Attempts

def tokenA : Word := ⟨['a'], by decide⟩

def limitOne : Config := ⟨1, false, Nat.one_pos⟩

/-- Every client asks for one image. -/
def oneImage : ℕ → ConversationRequest := fun _ ↦ ⟨"gpt-image-2".toList, 1, false⟩

/-- One account, with five images left. -/
def pool : Dict Word Account where
  items := [(tokenA, ⟨free, normal, 5, false, web, [], 0, 0⟩)]
  nodup := List.nodup_singleton _

/-- The account cannot be asked for, and there is no other. -/
theorem slots_conserved_refused :
    Conserved limitOne (run (step limitOne oneImage) (initial pool)
      [.start 0, .acquire 0, .fetchRaised 0, .acquire 0]) := by
  have hstart : ∀ s, Careful limitOne oneImage s (.start 0) := fun s ↦
    ⟨nofun, nofun, nofun, nofun, nofun⟩
  have hacquire : ∀ s, Careful limitOne oneImage s (.acquire 0) := fun s ↦
    ⟨nofun, nofun, nofun, nofun, nofun⟩
  have hslots : (run (step limitOne oneImage) (initial pool) [.start 0, .acquire 0]).slots =
      [⟨0, tokenA, false, 0⟩] := by rfl
  refine slots_conserved oneImage pool _ ⟨hstart _, hacquire _, ⟨nofun, nofun, ?_, nofun, nofun⟩,
    hacquire _, trivial⟩
  intro i token hreleasing slot hslot
  have hheld : some (0, tokenA) = some (i, token) := hreleasing
  obtain ⟨rfl, rfl⟩ := Prod.mk.inj (Option.some.inj hheld)
  have hslot' : some ⟨0, tokenA, false, 0⟩ = some slot := (congrArg (·[0]?) hslots).symm.trans hslot
  rw [← Option.some.inj hslot']
  rfl

/-- A client whose image is not there in time ends with its slot. -/
theorem slots_not_conserved :
    ¬ ∀ (config : Config) (requests : ℕ → ConversationRequest) (accounts : Dict Word Account)
      (trace : List Action),
        Conserved config (run (step config requests) (initial accounts) trace) := by
  intro hall
  have hconserved := hall limitOne oneImage pool
    [.start 0, .acquire 0, .fetch 0 tokenA Fields.empty, .check 0, .raise 0 .imagePollTimeout]
  have hslots : (run (step limitOne oneImage) (initial pool)
      [.start 0, .acquire 0, .fetch 0 tokenA Fields.empty, .check 0,
        .raise 0 .imagePollTimeout]).slots = [⟨0, tokenA, false, 0⟩] := by rfl
  have hended : (run (step limitOne oneImage) (initial pool)
      [.start 0, .acquire 0, .fetch 0 tokenA Fields.empty, .check 0,
        .raise 0 .imagePollTimeout]).clients 0 = .ended := by rfl
  have hslot := hconserved.once ⟨0, tokenA, false, 0⟩ (hslots ▸ List.mem_singleton_self _)
  exact absurd (hslot.2 hended) Nat.zero_ne_one

end Attempts

end AllAiTools.ChatGpt2Api.Protocol.ImagePool
