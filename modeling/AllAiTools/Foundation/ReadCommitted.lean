import AllAiTools.Foundation.Run
import Mathlib

namespace AllAiTools.Foundation.ReadCommitted

open Run

/-- What a client of a database still has to do: a query sees the committed store
under the client's own writes, a write may be refused, and writes are published at a
commit only. Each statement says how the client goes on when it fails. -/
inductive Program (σ ω ε : Type)
  | done (result : Except ε Unit)
  | query (next : σ → Program σ ω ε) (failed : Program σ ω ε)
  | write (w : ω) (next refused : Program σ ω ε)
  | commit (next failed : Program σ ω ε)

/-- What a write does, which row it locks and when a unique index refuses it. -/
structure Rules (σ ω κ : Type) where
  apply : ω → σ → σ
  lock : ω → Option κ
  refuses : ω → σ → Bool

structure Client (σ ω ε : Type) where
  program : Program σ ω ε
  buffer : List ω := []
  committed : List ω := []

structure System (σ ω ε : Type) where
  store : σ
  clients : List (Client σ ω ε)

/-- A step names the client that moves and says whether its statement fails. -/
structure Move where
  client : ℕ
  fails : Bool
  deriving DecidableEq

variable {σ ω ε κ : Type}

def Rules.applyAll (r : Rules σ ω κ) (ws : List ω) (s : σ) : σ := ws.foldl (fun s w ↦ r.apply w s) s

/-- A program run alone on a store, with the statements that the database fails. -/
def Program.alone (r : Rules σ ω κ) : σ → List ω → List Bool → Program σ ω ε → Except ε Unit × σ
  | s, _, _, .done result => (result, s)
  | s, b, fails, .query next failed =>
    if fails.headD false then failed.alone r s b fails.tail
    else (next (r.applyAll b s)).alone r s b fails.tail
  | s, b, fails, .write w next refused =>
    if fails.headD false || r.refuses w (r.applyAll b s) then refused.alone r s b fails.tail
    else next.alone r s (b ++ [w]) fails.tail
  | s, b, fails, .commit next failed =>
    if fails.headD false then failed.alone r s [] fails.tail
    else next.alone r (r.applyAll b s) [] fails.tail

/-- Another client has an uncommitted write on the row. -/
def Rules.blocked [DecidableEq κ] (r : Rules σ ω κ) (clients : List (Client σ ω ε)) (i : ℕ) (w : ω) : Bool :=
  match r.lock w with
  | none => false
  | some k => clients.zipIdx.any fun c ↦ c.2 ≠ i && c.1.buffer.any fun w' ↦ r.lock w' = some k

/-- The client goes on with a program; one that returns rolls back what it wrote. -/
def Client.resume (c : Client σ ω ε) (buffer : List ω) : Program σ ω ε → Client σ ω ε
  | .done result => { c with program := .done result, buffer := [] }
  | program => { c with program, buffer }

def Rules.advance (r : Rules σ ω κ) (blocked : ω → Bool) (fails : Bool) (s : σ)
    (c : Client σ ω ε) : σ × Client σ ω ε :=
  match c.program with
  | .done _ => (s, c)
  | .query next failed =>
    (s, c.resume c.buffer (if fails then failed else next (r.applyAll c.buffer s)))
  | .write w next refused =>
    if fails then (s, c.resume c.buffer refused)
    else if blocked w then (s, c)
    else if r.refuses w (r.applyAll c.buffer s) then (s, c.resume c.buffer refused)
    else (s, c.resume (c.buffer ++ [w]) next)
  | .commit next failed =>
    if fails then (s, c.resume [] failed)
    else (r.applyAll c.buffer s,
      { c with committed := c.committed ++ c.buffer }.resume [] next)

def Rules.step [DecidableEq κ] (r : Rules σ ω κ) (sys : System σ ω ε) (m : Move) : System σ ω ε :=
  match sys.clients[m.client]? with
  | none => sys
  | some c =>
    let (store, c') := r.advance (r.blocked sys.clients m.client) m.fails sys.store c
    ⟨store, sys.clients.set m.client c'⟩

/-- A system whose clients have not moved yet. -/
def System.start (s : σ) (programs : List (Program σ ω ε)) : System σ ω ε :=
  ⟨s, programs.map fun p ↦ { program := p }⟩

/-- The writes that a step publishes, if it is a commit. -/
def System.commits (sys : System σ ω ε) (m : Move) : Option (List ω) :=
  match sys.clients[m.client]? with
  | none => none
  | some c =>
    match c.program with
    | .commit _ _ => if m.fails then none else some c.buffer
    | _ => none

/-- Every transaction that a program can commit, and what is left to do after it,
satisfy `P`. -/
def Program.Commits (P : List ω → Program σ ω ε → Prop) : List ω → Program σ ω ε → Prop
  | _, .done _ => True
  | b, .query next failed => (∀ s, (next s).Commits P b) ∧ failed.Commits P b
  | b, .write w next refused => next.Commits P (b ++ [w]) ∧ refused.Commits P b
  | b, .commit next failed => P b next ∧ next.Commits P [] ∧ failed.Commits P []

/-- A program that returns no error unless one of its statements fails. -/
def Program.Succeeds (r : Rules σ ω κ) : Program σ ω ε → Prop
  | .done result => result = .ok ()
  | .query next _ => ∀ s, (next s).Succeeds r
  | .write w next _ => (∀ s, r.refuses w s = false) ∧ next.Succeeds r
  | .commit next _ => next.Succeeds r

/-- A run in which every commit finds the store in a state its writes fit. -/
def FreshRun [DecidableEq κ] (r : Rules σ ω κ) (Fresh : σ → List ω → Prop) (sys : System σ ω ε)
    (trace : List Move) : Prop :=
  Along r.step (fun sys m ↦ ∀ b, sys.commits m = some b → Fresh sys.store b) sys trace

/-- The sum of a weight over a list of writes. -/
def weigh (weight : ω → ℤ) (ws : List ω) : ℤ := (ws.map weight).sum

/-- The weight of everything the clients have committed. -/
def System.total (weight : ω → ℤ) (sys : System σ ω ε) : ℤ :=
  (sys.clients.map fun c ↦ weigh weight c.committed).sum

variable {r : Rules σ ω κ} {P : List ω → Program σ ω ε → Prop} {Fresh : σ → List ω → Prop} {weight : ω → ℤ}
variable {sys : System σ ω ε} {c : Client σ ω ε}

@[simp] theorem weigh_nil : weigh weight [] = 0 := rfl

@[simp] theorem weigh_append (ws ws' : List ω) :
    weigh weight (ws ++ ws') = weigh weight ws + weigh weight ws' := by
  simp [weigh]

theorem total_start (s : σ) (programs : List (Program σ ω ε)) :
    (System.start s programs).total weight = 0 := by
  induction programs with
  | nil => rfl
  | cons p programs ih =>
    simp only [System.total, System.start, List.map_cons, List.sum_cons] at ih ⊢
    rw [ih]
    rfl

section Alone

variable {Q : Except ε Unit × σ → Prop} {s : σ} {b : List ω} {fails : List Bool}

@[simp] theorem alone_done (result : Except ε Unit) :
    (Program.done result).alone r s b fails = (result, s) := rfl

theorem alone_query {next : σ → Program σ ω ε} {failed : Program σ ω ε}
    (hn : Q ((next (r.applyAll b s)).alone r s b fails.tail))
    (hf : Q (failed.alone r s b fails.tail)) : Q ((Program.query next failed).alone r s b fails) := by
  rw [Program.alone]
  split
  · exact hf
  · exact hn

theorem alone_write {w : ω} {next refused : Program σ ω ε}
    (hn : Q (next.alone r s (b ++ [w]) fails.tail)) (hf : Q (refused.alone r s b fails.tail)) :
    Q ((Program.write w next refused).alone r s b fails) := by
  rw [Program.alone]
  split
  · exact hf
  · exact hn

theorem alone_commit {next failed : Program σ ω ε}
    (hn : Q (next.alone r (r.applyAll b s) [] fails.tail))
    (hf : Q (failed.alone r s [] fails.tail)) :
    Q ((Program.commit next failed).alone r s b fails) := by
  rw [Program.alone]
  split
  · exact hf
  · exact hn

end Alone

theorem resume_committed (buffer : List ω) (p : Program σ ω ε) :
    (c.resume buffer p).committed = c.committed := by
  cases p <;> rfl

theorem resume_commits {buffer : List ω} {p : Program σ ω ε} (h : p.Commits P buffer) :
    (c.resume buffer p).program.Commits P (c.resume buffer p).buffer := by
  cases p with
  | done result => trivial
  | query next failed => exact h
  | write w next refused => exact h
  | commit next failed => exact h

/-- A step keeps the store and what its client has committed, or it is a commit. -/
theorem advance_cases (blocked : ω → Bool) (fails : Bool) (s : σ) (c : Client σ ω ε) :
    ((r.advance blocked fails s c).1 = s ∧
        (r.advance blocked fails s c).2.committed = c.committed) ∨
      ∃ next failed, c.program = .commit next failed ∧ fails = false ∧
        r.advance blocked fails s c = (r.applyAll c.buffer s,
          { c with committed := c.committed ++ c.buffer }.resume [] next) := by
  unfold Rules.advance
  cases hp : c.program with
  | done result => exact .inl ⟨rfl, rfl⟩
  | query next failed => exact .inl ⟨rfl, resume_committed _ _⟩
  | write w next refused =>
    left
    dsimp only
    split_ifs
    · exact ⟨rfl, resume_committed _ _⟩
    · exact ⟨rfl, rfl⟩
    · exact ⟨rfl, resume_committed _ _⟩
    · exact ⟨rfl, resume_committed _ _⟩
  | commit next failed =>
    dsimp only
    cases fails with
    | true => exact .inl ⟨rfl, resume_committed _ _⟩
    | false => exact .inr ⟨next, failed, rfl, rfl, rfl⟩

theorem advance_commits {blocked : ω → Bool} {fails : Bool} {s : σ}
    (h : c.program.Commits P c.buffer) :
    (r.advance blocked fails s c).2.program.Commits P (r.advance blocked fails s c).2.buffer := by
  unfold Rules.advance
  cases hp : c.program with
  | done result =>
    dsimp only
    rw [hp]
    trivial
  | query next failed =>
    rw [hp] at h
    refine resume_commits ?_
    split_ifs
    · exact h.2
    · exact h.1 _
  | write w next refused =>
    have hkeep := h
    rw [hp] at h
    dsimp only
    split_ifs
    · exact resume_commits h.2
    · exact hkeep
    · exact resume_commits h.2
    · exact resume_commits h.1
  | commit next failed =>
    rw [hp] at h
    dsimp only
    split_ifs
    · exact resume_commits h.2.2
    · exact resume_commits h.2.1

theorem sum_map_set {α : Type} (f : α → ℤ) {l : List α} {i : ℕ} {a b : α} (h : l[i]? = some a) :
    ((l.set i b).map f).sum = (l.map f).sum - f a + f b := by
  induction l generalizing i with
  | nil => simp at h
  | cons x l ih =>
    cases i with
    | zero =>
      simp only [List.getElem?_cons_zero, Option.some.injEq] at h
      subst h
      simp only [List.set_cons_zero, List.map_cons, List.sum_cons]
      omega
    | succ i =>
      have hi := ih h
      simp only [List.set_cons_succ, List.map_cons, List.sum_cons]
      omega

/-- A client that has committed something can only return an error if one of its
statements fails afterwards. -/
def Settles (r : Rules σ ω κ) (weight : ω → ℤ) (c : Client σ ω ε) : Prop :=
  weigh weight c.committed = 0 ∨ c.program.Succeeds r

theorem resume_program (buffer : List ω) (p : Program σ ω ε) :
    (c.resume buffer p).program = p := by
  cases p <;> rfl

theorem Settles.advance {blocked : ω → Bool} {fails : Bool} {s : σ}
    (hp : c.program.Commits P c.buffer)
    (hP : ∀ b p, P b p → weigh weight b ≠ 0 → p.Succeeds r)
    (hfails : fails = true → weigh weight c.committed = 0) (h : Settles r weight c) :
    Settles r weight (r.advance blocked fails s c).2 := by
  rcases advance_cases (r := r) blocked fails s c with ⟨_, hcom⟩ | ⟨next, failed, hprog, _, heq⟩
  · by_cases hz : weigh weight c.committed = 0
    · exact .inl (hcom ▸ hz)
    right
    have hs : c.program.Succeeds r := h.resolve_left hz
    have hf : fails = false := by
      by_contra hne
      exact hz (hfails (by simpa using hne))
    subst hf
    unfold Rules.advance
    cases hprog : c.program with
    | done result =>
      rw [hprog] at hs
      dsimp only
      rw [hprog]
      exact hs
    | query next failed =>
      rw [hprog] at hs
      simp only [Bool.false_eq_true, if_false, resume_program]
      exact hs _
    | write w next refused =>
      have hkeep := hs
      rw [hprog] at hs
      simp only [Bool.false_eq_true, if_false, hs.1]
      split_ifs
      · exact hkeep
      · rw [resume_program]
        exact hs.2
    | commit next failed =>
      rw [hprog] at hs
      simp only [Bool.false_eq_true, if_false, resume_program]
      exact hs
  · rw [heq]
    unfold Settles
    rw [resume_committed, resume_program]
    by_cases hz : weigh weight c.buffer = 0
    · rcases h with h | h
      · left
        simp only [weigh_append]
        omega
      · rw [hprog] at h
        exact .inr h
    · rw [hprog] at hp
      exact .inr (hP _ _ hp.1 hz)

variable [DecidableEq κ]

/-- A state of a run: what the clients can still commit satisfies `P`, and what they
have committed is accounted for in the store. -/
structure Accounted (P : List ω → Program σ ω ε → Prop) (weight : ω → ℤ) (value : σ → ℤ) (v₀ : ℤ)
    (sys : System σ ω ε) : Prop where
  commits : ∀ c ∈ sys.clients, c.program.Commits P c.buffer
  total : v₀ + sys.total weight ≤ value sys.store

theorem Accounted.step {value : σ → ℤ} {v₀ : ℤ}
    (hcommit : ∀ s b p, P b p → Fresh s b → value s + weigh weight b ≤ value (r.applyAll b s))
    (h : Accounted P weight value v₀ sys) {m : Move}
    (hfresh : ∀ b, sys.commits m = some b → Fresh sys.store b) :
    Accounted P weight value v₀ (r.step sys m) := by
  unfold Rules.step
  split
  · exact h
  rename_i c hc
  have hmem : c ∈ sys.clients := List.mem_of_getElem? hc
  have hp := h.commits c hmem
  have htotal := h.total
  refine ⟨?_, ?_⟩
  · intro c' hc'
    rcases List.mem_or_eq_of_mem_set hc' with hold | rfl
    · exact h.commits c' hold
    · exact advance_commits hp
  simp only [System.total] at htotal ⊢
  rw [sum_map_set _ hc]
  rcases advance_cases (r := r) (r.blocked sys.clients m.client) m.fails sys.store c with
    ⟨hstore, hcom⟩ | ⟨next, failed, hprog, hok, heq⟩
  · rw [hstore, hcom]
    omega
  · rw [heq, resume_committed]
    have hb : sys.commits m = some c.buffer := by simp [System.commits, hc, hprog, hok]
    rw [hprog] at hp
    have hle := hcommit sys.store c.buffer next hp.1 (hfresh _ hb)
    simp only [weigh_append]
    omega

/-- If every commit that fits the store moves its value by at least the weight of its
writes, then over a run of such commits the value covers all that was committed. -/
theorem total_le (P : List ω → Program σ ω ε → Prop) (Fresh : σ → List ω → Prop) (weight : ω → ℤ)
    (value : σ → ℤ) {s₀ : σ} {programs : List (Program σ ω ε)}
    (hcommit : ∀ s b p, P b p → Fresh s b → value s + weigh weight b ≤ value (r.applyAll b s))
    (hp : ∀ p ∈ programs, p.Commits P []) {trace : List Move}
    (hrun : FreshRun r Fresh (System.start s₀ programs) trace) :
    value s₀ + (run r.step (System.start s₀ programs) trace).total weight ≤
      value (run r.step (System.start s₀ programs) trace).store := by
  have h₀ : Accounted P weight value (value s₀) (System.start s₀ programs) := by
    refine ⟨?_, ?_⟩
    · intro c hc
      obtain ⟨p, hmem, rfl⟩ := List.mem_map.mp hc
      exact hp p hmem
    · rw [total_start]
      exact (add_zero _).le
  exact (Along.invariant (Accounted P weight value (value s₀))
    (fun _ _ h hf ↦ h.step hcommit hf) h₀ hrun).total

/-- Where each commit moves the value by exactly the weight of its writes, the value
at the end is the initial one and all that was committed. -/
theorem total_eq (P : List ω → Program σ ω ε → Prop) (Fresh : σ → List ω → Prop) (weight : ω → ℤ)
    (value : σ → ℤ) {s₀ : σ} {programs : List (Program σ ω ε)}
    (hcommit : ∀ s b p, P b p → Fresh s b → value (r.applyAll b s) = value s + weigh weight b)
    (hp : ∀ p ∈ programs, p.Commits P []) {trace : List Move}
    (hrun : FreshRun r Fresh (System.start s₀ programs) trace) :
    value (run r.step (System.start s₀ programs) trace).store =
      value s₀ + (run r.step (System.start s₀ programs) trace).total weight := by
  have hle := total_le P Fresh weight value (fun s b p hb hf ↦ (hcommit s b p hb hf).ge) hp hrun
  have hneg (ws : List ω) : weigh (fun w ↦ -weight w) ws = -weigh weight ws := by
    simp only [weigh]
    rw [List.sum_neg, List.map_map]
    rfl
  have hge := total_le P Fresh (fun w ↦ -weight w) (fun s ↦ -value s)
    (fun s b p hb hf ↦ by rw [hcommit s b p hb hf, hneg]; omega) hp hrun
  have htotal (sys : System σ ω ε) : sys.total (fun w ↦ -weight w) = -sys.total weight := by
    simp only [System.total, hneg]
    rw [List.sum_neg, List.map_map]
    rfl
  rw [htotal] at hge
  omega

/-- What every fitting commit preserves holds of the store of every state reached. -/
theorem store_invariant {Inv : σ → Prop} {s₀ : σ} {programs : List (Program σ ω ε)}
    (hcommit : ∀ s b p, Inv s → P b p → Fresh s b → Inv (r.applyAll b s)) (h₀ : Inv s₀)
    (hp : ∀ p ∈ programs, p.Commits P []) {trace : List Move}
    (hrun : FreshRun r Fresh (System.start s₀ programs) trace) :
    Inv (run r.step (System.start s₀ programs) trace).store := by
  classical
  -- an invariant is a value that no commit takes from 0 to -1
  have hle := total_le P Fresh (fun _ ↦ 0) (fun s ↦ if Inv s then 0 else -1) ?_ hp hrun
  · by_contra hn
    have hz : (run r.step (System.start s₀ programs) trace).total (fun _ ↦ 0) = 0 := by
      simp [System.total, weigh]
    simp only [if_pos h₀, if_neg hn, hz] at hle
    omega
  · intro s b p hb hf
    have hw : weigh (fun _ : ω ↦ (0 : ℤ)) b = 0 := by simp [weigh]
    rw [hw]
    split_ifs with h₁ h₂ h₂
    · omega
    · exact absurd (hcommit s b p h₁ hb hf) h₂
    · omega
    · omega

/-- No statement fails for a client that has already committed something. -/
def NoLateFailure (weight : ω → ℤ) (sys : System σ ω ε) (m : Move) : Prop :=
  m.fails = true → ∀ c, sys.clients[m.client]? = some c → weigh weight c.committed = 0

theorem settles_run {s₀ : σ} {programs : List (Program σ ω ε)}
    (hP : ∀ b p, P b p → weigh weight b ≠ 0 → p.Succeeds r)
    (hp : ∀ p ∈ programs, p.Commits P []) {trace : List Move}
    (hrun : Along r.step (NoLateFailure weight) (System.start s₀ programs) trace) :
    ∀ c ∈ (run r.step (System.start s₀ programs) trace).clients, Settles r weight c := by
  have h₀ : ∀ c ∈ (System.start s₀ programs).clients,
      c.program.Commits P c.buffer ∧ Settles r weight c := by
    intro c hc
    obtain ⟨p, hmem, rfl⟩ := List.mem_map.mp hc
    exact ⟨hp p hmem, .inl rfl⟩
  have hinv := Along.invariant (fun sys : System σ ω ε ↦
    ∀ c ∈ sys.clients, c.program.Commits P c.buffer ∧ Settles r weight c) ?_ h₀ hrun
  · exact fun c hc ↦ (hinv c hc).2
  intro sys m h hlate
  unfold Rules.step
  split
  · exact h
  rename_i c hc
  have hcl := h c (List.mem_of_getElem? hc)
  intro c' hc'
  rcases List.mem_or_eq_of_mem_set hc' with hold | rfl
  · exact h c' hold
  · exact ⟨advance_commits hcl.1, hcl.2.advance hcl.1 hP fun hf ↦ hlate hf c hc⟩

/-- What the clients that have returned success have committed. -/
def System.granted (weight : ω → ℤ) (sys : System σ ω ε) : ℤ :=
  (sys.clients.map fun c ↦
    match c.program with
    | .done (.ok ()) => weigh weight c.committed
    | _ => 0).sum

def Client.returned (c : Client σ ω ε) : Bool :=
  match c.program with
  | .done _ => true
  | _ => false

/-- Every client has returned. -/
def System.Finished (sys : System σ ω ε) : Prop := ∀ c ∈ sys.clients, c.returned = true

instance (sys : System σ ω ε) : Decidable sys.Finished :=
  inferInstanceAs (Decidable (∀ c ∈ sys.clients, c.returned = true))

omit [DecidableEq κ] in
theorem granted_eq_total (h : ∀ c ∈ sys.clients, Settles r weight c) (hdone : sys.Finished) :
    sys.granted weight = sys.total weight := by
  unfold System.granted System.total
  congr 1
  refine List.map_congr_left fun c hc ↦ ?_
  have hs := h c hc
  have hreturned := hdone c hc
  unfold Settles at hs
  unfold Client.returned at hreturned
  cases hp : c.program with
  | done result =>
    rw [hp] at hs
    cases result with
    | ok u => rfl
    | error e =>
      have hz := hs.resolve_right (fun h ↦ by cases h)
      exact hz.symm
  | query next failed => simp [hp] at hreturned
  | write w next refused => simp [hp] at hreturned
  | commit next failed => simp [hp] at hreturned

end AllAiTools.Foundation.ReadCommitted

namespace AllAiTools.Foundation.CompareAndSet

variable {ρ κ : Type}

/-- An update of the whole row, whatever it has become. -/
def save (t : ρ) (failed : Bool) (row : ρ) : Except Unit Unit × ρ :=
  if failed then (.error (), row) else (.ok (), t)

/-- An update of the whole row that is guarded by its key; the answer says whether it
was won. -/
def compareAndSet [DecidableEq κ] (key : ρ → κ) (t : ρ) (expected : κ) (failed : Bool)
    (row : ρ) : Except Unit Bool × ρ :=
  if failed then (.error (), row)
  else if key row = expected then (.ok true, t)
  else (.ok false, row)

variable [DecidableEq κ]

/-- A guarded update is won over a row with the key it expects, and changes nothing
else. -/
theorem compareAndSet_cases (key : ρ → κ) (t : ρ) (expected : κ) (failed : Bool) (row : ρ) :
    (compareAndSet key t expected failed row = (.ok true, t) ∧ failed = false ∧
        key row = expected) ∨
      compareAndSet key t expected failed row = (.ok false, row) ∨
        compareAndSet key t expected failed row = (.error (), row) := by
  by_cases hf : failed = true
  · exact .inr (.inr (by rw [compareAndSet, if_pos hf]))
  · rw [compareAndSet, if_neg hf]
    by_cases h : key row = expected
    · rw [if_pos h]
      exact .inl ⟨rfl, by simpa using hf, h⟩
    · rw [if_neg h]
      exact .inr (.inl rfl)

/-- Whoever wins or loses, the row is the copy or stays as it was. -/
theorem compareAndSet_snd (key : ρ → κ) (t : ρ) (expected : κ) (failed : Bool) (row : ρ) :
    ((compareAndSet key t expected failed row).2 = t ∧ failed = false ∧ key row = expected) ∨
      (compareAndSet key t expected failed row).2 = row := by
  rcases compareAndSet_cases key t expected failed row with ⟨he, hf, hrow⟩ | he | he
  · exact .inl ⟨by rw [he], hf, hrow⟩
  · exact .inr (by rw [he])
  · exact .inr (by rw [he])

end AllAiTools.Foundation.CompareAndSet
