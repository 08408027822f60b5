import AllAiTools.Foundation.Pruning
import AllAiTools.NewApi.Relay.ParamOverride

namespace AllAiTools.NewApi.Relay.PrunesMatches

open Foundation Foundation.Doc ParamOverride

variable (lib : PathLibrary) (text : TextLibrary) (options : PruneObjectsOptions)
  (context : Option Json)

/-- The conditions hold of an object with these fields. -/
def hits (fields : List (Text × Json)) : Bool :=
  match shouldPruneObject lib text options context fields with
  | .ok shouldDrop => shouldDrop
  | .error _ => false

/-- The conditions can be compared with what an object with these fields holds. -/
def Compares (fields : List (Text × Json)) : Prop :=
  ∃ shouldDrop, shouldPruneObject lib text options context fields = .ok shouldDrop

/-- What the pruning of a node that is not the root gives. -/
def outcome (c : Json) : Json × Bool :=
  if c.isHit (hits lib text options context) then (.leaf .null, true)
  else (c.without (hits lib text options context), false)

section Nodes

variable {lib text options context}

theorem error_of_not_compares {fields : List (Text × Json)}
    (h : ¬ Compares lib text options context fields) :
    ∃ e, shouldPruneObject lib text options context fields = .error e := by
  cases hshould : shouldPruneObject lib text options context fields with
  | error e => exact ⟨e, rfl⟩
  | ok shouldDrop => exact absurd ⟨shouldDrop, hshould⟩ h

theorem Compares.eq_hits {fields : List (Text × Json)}
    (h : Compares lib text options context fields) :
    shouldPruneObject lib text options context fields =
      .ok (hits lib text options context fields) := by
  obtain ⟨shouldDrop, hshould⟩ := h
  rw [hshould, hits, hshould]

theorem pruneItems_ok {items : List Json}
    (hitems : ∀ c ∈ items, pruneObjectsNode lib text options context c false =
      .ok (outcome lib text options context c)) :
    pruneItems lib text options context items =
      .ok (withoutItems (hits lib text options context) items) := by
  induction items with
  | nil => rw [pruneItems, withoutItems]
  | cons item items ih =>
    have hrest := ih fun c hc ↦ hitems c (List.mem_cons_of_mem item hc)
    rw [pruneItems, withoutItems, hitems item List.mem_cons_self, hrest, outcome]
    cases item.isHit (hits lib text options context) with
    | true => rfl
    | false => rfl

theorem pruneFields_ok {fields : List (Text × Json)}
    (hfields : ∀ p ∈ fields, pruneObjectsNode lib text options context p.2 false =
      .ok (outcome lib text options context p.2)) :
    pruneFields lib text options context fields =
      .ok (withoutFields (hits lib text options context) fields) := by
  induction fields with
  | nil => rw [pruneFields, withoutFields]
  | cons p fields ih =>
    obtain ⟨key, c⟩ := p
    have hrest := ih fun q hq ↦ hfields q (List.mem_cons_of_mem (key, c) hq)
    rw [pruneFields, withoutFields, hfields (key, c) List.mem_cons_self, hrest, outcome]
    cases c.isHit (hits lib text options context) with
    | true => rfl
    | false => rfl

theorem pruneItems_error {items : List Json} {c : Json} (hc : c ∈ items)
    (herror : ∃ e, pruneObjectsNode lib text options context c false = .error e) :
    ∃ e, pruneItems lib text options context items = .error e := by
  induction items with
  | nil => cases hc
  | cons item items ih =>
    rw [pruneItems]
    cases hitem : pruneObjectsNode lib text options context item false with
    | error e => exact ⟨e, rfl⟩
    | ok next =>
      rcases List.mem_cons.mp hc with rfl | hc
      · obtain ⟨e, he⟩ := herror
        cases hitem.symm.trans he
      · obtain ⟨e, he⟩ := ih hc
        rw [he]
        exact ⟨e, rfl⟩

theorem pruneFields_error {fields : List (Text × Json)} {p : Text × Json} (hp : p ∈ fields)
    (herror : ∃ e, pruneObjectsNode lib text options context p.2 false = .error e) :
    ∃ e, pruneFields lib text options context fields = .error e := by
  induction fields with
  | nil => cases hp
  | cons q fields ih =>
    obtain ⟨key, c⟩ := q
    rw [pruneFields]
    cases hnode : pruneObjectsNode lib text options context c false with
    | error e => exact ⟨e, rfl⟩
    | ok next =>
      rcases List.mem_cons.mp hp with rfl | hp
      · obtain ⟨e, he⟩ := herror
        cases hnode.symm.trans he
      · obtain ⟨e, he⟩ := ih hp
        rw [he]
        exact ⟨e, rfl⟩

variable (hrecursive : options.recursive = true)

include hrecursive

/-- Where every comparison can be made, a node is pruned as `outcome` says. -/
theorem pruneObjectsNode_outcome {c : Json}
    (hself : ∀ fields, c = .obj fields → Compares lib text options context fields)
    (hinside : ∀ fields, c.isHit (hits lib text options context) = false →
      Inside (hits lib text options context) c (.obj fields) →
        Compares lib text options context fields) :
    pruneObjectsNode lib text options context c false =
      .ok (outcome lib text options context c) := by
  induction c using children_induction with
  | step c ih =>
    have hchild : c.isHit (hits lib text options context) = false → ∀ d ∈ c.children,
        pruneObjectsNode lib text options context d false =
          .ok (outcome lib text options context d) := by
      intro hkept d hd
      refine ih d hd ?_ ?_
      · rintro fields rfl
        exact hinside fields hkept (.child hd)
      · intro fields hkept' hin
        exact hinside fields hkept (hin.through hd hkept')
    cases c with
    | leaf s => rfl
    | arr items =>
      have hitems : ∀ d ∈ items, pruneObjectsNode lib text options context d false =
          .ok (outcome lib text options context d) := hchild rfl
      rw [pruneObjectsNode, pruneItems_ok hitems]
      rfl
    | obj fields =>
      rw [pruneObjectsNode, (hself fields rfl).eq_hits, outcome, isHit]
      cases hhit : hits lib text options context fields with
      | true => rfl
      | false =>
        have hfields : ∀ p ∈ fields, pruneObjectsNode lib text options context p.2 false =
            .ok (outcome lib text options context p.2) :=
          fun p hp ↦ hchild hhit p.2 (List.mem_map_of_mem hp)
        simp only [Except.bind, Bool.false_and, Bool.false_eq_true, if_false, hrecursive,
          Bool.not_true, pruneFields_ok hfields]
        rfl

/-- Where a comparison fails, the whole pruning fails. -/
theorem pruneObjectsNode_error {c : Json} {fields : List (Text × Json)}
    (h : ¬ Compares lib text options context fields)
    (hplace : c = .obj fields ∨ (c.isHit (hits lib text options context) = false ∧
      Inside (hits lib text options context) c (.obj fields))) :
    ∃ e, pruneObjectsNode lib text options context c false = .error e := by
  induction c using children_induction with
  | step c ih =>
    rcases hplace with rfl | ⟨hkept, hin⟩
    · obtain ⟨e, he⟩ := error_of_not_compares h
      rw [pruneObjectsNode, he]
      exact ⟨e, rfl⟩
    · obtain ⟨d, hd, hplace⟩ := inside_iff.mp hin
      have herror := ih d hd (hplace.imp_left Eq.symm)
      cases c with
      | leaf s => cases hd
      | arr items =>
        have hitem : d ∈ items := hd
        obtain ⟨e, he⟩ := pruneItems_error hitem herror
        rw [pruneObjectsNode, he]
        exact ⟨e, rfl⟩
      | obj fields' =>
        by_cases hself : Compares lib text options context fields'
        · obtain ⟨p, hp, rfl⟩ := List.mem_map.mp hd
          obtain ⟨e, he⟩ := pruneFields_error hp herror
          rw [isHit] at hkept
          rw [pruneObjectsNode, hself.eq_hits, hkept]
          simp only [Except.bind, Bool.false_and, Bool.false_eq_true, if_false, hrecursive,
            Bool.not_true, he]
          exact ⟨e, rfl⟩
        · obtain ⟨e, he⟩ := error_of_not_compares hself
          rw [pruneObjectsNode, he]
          exact ⟨e, rfl⟩

/-- An object whose conditions are looked at: the root, or one that no matching object hides. -/
def Visited (lib : PathLibrary) (text : TextLibrary) (options : PruneObjectsOptions)
    (context : Option Json) (d : Json) (fields : List (Text × Json)) : Prop :=
  d = .obj fields ∨ Inside (hits lib text options context) d (.obj fields)

theorem pruneObjectsNode_root {d : Json}
    (hall : ∀ fields, Visited lib text options context d fields →
      Compares lib text options context fields) :
    pruneObjectsNode lib text options context d true =
      .ok (d.without (hits lib text options context), false) := by
  have hchild : ∀ c ∈ d.children, pruneObjectsNode lib text options context c false =
      .ok (outcome lib text options context c) := by
    intro c hc
    refine pruneObjectsNode_outcome hrecursive ?_ ?_
    · rintro fields rfl
      exact hall fields (.inr (.child hc))
    · intro fields hkept hin
      exact hall fields (.inr (hin.through hc hkept))
  cases d with
  | leaf s => rfl
  | arr items =>
    have hitems : ∀ c ∈ items, pruneObjectsNode lib text options context c false =
        .ok (outcome lib text options context c) := hchild
    rw [pruneObjectsNode, pruneItems_ok hitems]
    rfl
  | obj fields =>
    have hfields : ∀ p ∈ fields, pruneObjectsNode lib text options context p.2 false =
        .ok (outcome lib text options context p.2) :=
      fun p hp ↦ hchild p.2 (List.mem_map_of_mem hp)
    rw [pruneObjectsNode, (hall fields (.inl rfl)).eq_hits]
    simp only [Except.bind, Bool.not_true, Bool.and_false, Bool.false_eq_true, if_false,
      hrecursive, pruneFields_ok hfields]
    rfl

theorem pruneObjectsNode_root_error {d : Json} {fields : List (Text × Json)}
    (hvisited : Visited lib text options context d fields)
    (h : ¬ Compares lib text options context fields) :
    ∃ e, pruneObjectsNode lib text options context d true = .error e := by
  have hchild : d ≠ .obj fields → ∃ c ∈ d.children,
      ∃ e, pruneObjectsNode lib text options context c false = .error e := by
    intro hne
    obtain ⟨c, hc, hplace⟩ := inside_iff.mp (hvisited.resolve_left hne)
    exact ⟨c, hc, pruneObjectsNode_error hrecursive h (hplace.imp_left Eq.symm)⟩
  cases d with
  | leaf s =>
    obtain ⟨c, hc, -⟩ := hchild (by simp)
    cases hc
  | arr items =>
    obtain ⟨c, hc, herror⟩ := hchild (by simp)
    have hitem : c ∈ items := hc
    obtain ⟨e, he⟩ := pruneItems_error hitem herror
    rw [pruneObjectsNode, he]
    exact ⟨e, rfl⟩
  | obj fields' =>
    by_cases hself : Compares lib text options context fields'
    · obtain ⟨c, hc, herror⟩ := hchild (by
        rintro hsame
        cases hsame
        exact h hself)
      obtain ⟨p, hp, rfl⟩ := List.mem_map.mp hc
      obtain ⟨e, he⟩ := pruneFields_error hp herror
      rw [pruneObjectsNode, hself.eq_hits]
      simp only [Except.bind, Bool.not_true, Bool.and_false, Bool.false_eq_true, if_false,
        hrecursive, he]
      exact ⟨e, rfl⟩
    · obtain ⟨e, he⟩ := error_of_not_compares hself
      rw [pruneObjectsNode, he]
      exact ⟨e, rfl⟩

end Nodes

section Prunes

/-- Pruning what stands in the kept objects does not change what the conditions say of them. -/
def Settled (d : Json) : Prop :=
  ∀ fields, d = .obj fields ∨ (Inside (hits lib text options context) d (.obj fields) ∧
      hits lib text options context fields = false) →
    shouldPruneObject lib text options context
        (withoutFields (hits lib text options context) fields) =
      shouldPruneObject lib text options context fields

/-- What a pruning leaves: the value without the objects in it that match. -/
structure Pruned (d result : Json) : Prop where
  left_out : result = d.without (hits lib text options context)
  kept : ∀ o, Inside (fun _ ↦ false) result o ↔ ∃ c, Inside (hits lib text options context) d c ∧
    c.isHit (hits lib text options context) = false ∧
      c.without (hits lib text options context) = o
  settled : Settled lib text options context d →
    (∀ fields, Inside (fun _ ↦ false) result (.obj fields) →
      hits lib text options context fields = false) ∧
    pruneObjectsNode lib text options context result true = .ok (result, false)

variable {lib text options context}

/-- Settled conditions are compared in the pruned value as in the value. -/
theorem settled_inside {d : Json} (hsettled : Settled lib text options context d)
    (hall : ∀ fields, Visited lib text options context d fields →
      Compares lib text options context fields) {fields : List (Text × Json)}
    (hin : Inside (fun _ ↦ false) (d.without (hits lib text options context)) (.obj fields)) :
    shouldPruneObject lib text options context fields = .ok false := by
  obtain ⟨c, hc, hkept, hsame⟩ := inside_without.mp hin
  cases c with
  | leaf s =>
    rw [without] at hsame
    cases hsame
  | arr items =>
    rw [without] at hsame
    cases hsame
  | obj fields' =>
    rw [without] at hsame
    cases hsame
    rw [hsettled fields' (.inr ⟨hc, hkept⟩), (hall fields' (.inr hc)).eq_hits]
    rw [isHit] at hkept
    rw [hkept]

theorem compares_again {d : Json} (hsettled : Settled lib text options context d)
    (hall : ∀ fields, Visited lib text options context d fields →
      Compares lib text options context fields) (fields : List (Text × Json))
    (hvisited : Visited lib text options context (d.without (hits lib text options context))
      fields) : Compares lib text options context fields := by
  rcases hvisited with hroot | hin
  · cases d with
    | leaf s =>
      rw [without] at hroot
      cases hroot
    | arr items =>
      rw [without] at hroot
      cases hroot
    | obj fields' =>
      rw [without] at hroot
      cases hroot
      exact ⟨_, (hsettled fields' (.inl rfl)).trans (hall fields' (.inl rfl)).eq_hits⟩
  · exact ⟨false, settled_inside hsettled hall hin.anywhere⟩

/-- A pruning fails just where a comparison with a visited object does; else it leaves out exactly
the objects in the value that match. -/
theorem prunes_objects (hrecursive : options.recursive = true) (d : Json) :
    ((∃ e, pruneObjectsNode lib text options context d true = .error e) ↔
      ∃ fields, Visited lib text options context d fields ∧
        ¬ Compares lib text options context fields) ∧
    ∀ result dropped, pruneObjectsNode lib text options context d true = .ok (result, dropped) →
      Pruned lib text options context d result := by
  by_cases hall : ∀ fields, Visited lib text options context d fields →
      Compares lib text options context fields
  · have hroot := pruneObjectsNode_root hrecursive hall
    constructor
    · refine iff_of_false ?_ ?_
      · rintro ⟨e, he⟩
        cases hroot.symm.trans he
      · rintro ⟨fields, hvisited, h⟩
        exact h (hall fields hvisited)
    · intro result dropped hresult
      cases hroot.symm.trans hresult
      refine ⟨rfl, fun o ↦ inside_without, fun hsettled ↦ ?_⟩
      have hgone : ∀ fields, Inside (fun _ ↦ false) (d.without (hits lib text options context))
          (.obj fields) → hits lib text options context fields = false := by
        intro fields hin
        rw [hits, settled_inside hsettled hall hin]
      refine ⟨hgone, ?_⟩
      rw [pruneObjectsNode_root hrecursive (compares_again hsettled hall), without_eq_self]
      intro c hc
      cases c with
      | leaf s => rfl
      | arr items => rfl
      | obj fields => exact hgone fields hc.anywhere
  · push Not at hall
    obtain ⟨fields, hvisited, h⟩ := hall
    have herror := pruneObjectsNode_root_error hrecursive hvisited h
    constructor
    · exact iff_of_true herror ⟨fields, hvisited, h⟩
    · intro result dropped hresult
      obtain ⟨e, he⟩ := herror
      cases he.symm.trans hresult

/-- Texts of texts, and ASCII letters. -/
def plainText : TextLibrary where
  string
    | .leaf (.str s) => s
    | _ => []
  toLower s := s.map Char.toLower
  toUpper s := s.map Char.toUpper

def typed (kind : String) : Json := .obj [("type".toList, .leaf (.str kind.toList))]

def equals (path : String) (value : String) : ConditionOperation where
  path := path.toList
  mode := "full".toList
  value := .leaf (.str value.toList)

/-- The value `"redacted_thinking"`. -/
def redacted : PruneObjectsOptions where
  conditions := [equals "type" "redacted_thinking"]
  logic := "AND".toList
  recursive := true

/-- A schema with a property named `type`. -/
def schema : Json := .obj [("properties".toList, .obj [("type".toList, typed "string")])]

/-- One of two conditions looks at the first part of the content. -/
def firstPart : PruneObjectsOptions where
  conditions := [equals "type" "a", equals "content.0.type" "b"]
  logic := "OR".toList
  recursive := true

def message (parts : List Json) : Json :=
  .obj [("message".toList, .obj [("content".toList, .arr parts)])]

theorem prunes_message : Pruned exactLibrary plainText firstPart none
    (message [typed "a", typed "b"]) (message [typed "b"]) :=
  (prunes_objects rfl (message [typed "a", typed "b"])).2 (message [typed "b"]) false (by rfl)

/-- A field of another type makes the pruning fail, and an object may match only once what stands
in it is pruned. -/
theorem prunes_objects_not :
    (¬ ∃ pruned, pruneObjectsNode exactLibrary plainText redacted none schema true = .ok pruned) ∧
    ¬ ∀ result dropped, pruneObjectsNode exactLibrary plainText firstPart none
        (message [typed "a", typed "b"]) true = .ok (result, dropped) →
      (∀ fields, Inside (fun _ ↦ false) result (.obj fields) →
        hits exactLibrary plainText firstPart none fields = false) ∧
      pruneObjectsNode exactLibrary plainText firstPart none result true = .ok (result, false) := by
  constructor
  · rintro ⟨pruned, h⟩
    cases h
  · intro hall
    obtain ⟨hgone, -⟩ := hall (message [typed "b"]) false rfl
    have hmatches := hgone [("content".toList, .arr [typed "b"])] (.child List.mem_cons_self)
    cases hmatches

end Prunes

end AllAiTools.NewApi.Relay.PrunesMatches
