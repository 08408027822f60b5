import AllAiTools.Foundation.Doc

namespace AllAiTools.Foundation.Doc

variable {K S : Type}

section Parts

def children : Doc K S → List (Doc K S)
  | .leaf _ => []
  | .arr items => items
  | .obj fields => fields.map Prod.snd

mutual

/-- Induction over a tree from its children. -/
theorem children_induction {motive : Doc K S → Prop}
    (step : ∀ d, (∀ c ∈ d.children, motive c) → motive d) : ∀ d : Doc K S, motive d
  | .leaf s => step (.leaf s) fun _ hc ↦ absurd hc List.not_mem_nil
  | .arr items => step (.arr items) (items_induction step items)
  | .obj fields => step (.obj fields) (fields_induction step fields)

theorem items_induction {motive : Doc K S → Prop}
    (step : ∀ d, (∀ c ∈ d.children, motive c) → motive d) :
    ∀ (items : List (Doc K S)), ∀ c ∈ items, motive c
  | [], _, hc => absurd hc List.not_mem_nil
  | item :: items, c, hc => (List.mem_cons.mp hc).elim
      (fun h ↦ h ▸ children_induction step item) fun h ↦ items_induction step items c h

theorem fields_induction {motive : Doc K S → Prop}
    (step : ∀ d, (∀ c ∈ d.children, motive c) → motive d) :
    ∀ (fields : List (K × Doc K S)), ∀ c ∈ fields.map Prod.snd, motive c
  | [], _, hc => absurd hc List.not_mem_nil
  | (_, child) :: fields, c, hc => (List.mem_cons.mp hc).elim
      (fun h ↦ h ▸ children_induction step child) fun h ↦ fields_induction step fields c h

end

end Parts

section Pruning

variable (hits : List (K × Doc K S) → Bool)

/-- An object that a predicate of its fields holds of. -/
def isHit : Doc K S → Bool
  | .obj fields => hits fields
  | _ => false

mutual

/-- A tree without the objects in it that are hit, and without all that stands in them. -/
def without : Doc K S → Doc K S
  | .leaf s => .leaf s
  | .arr items => .arr (withoutItems items)
  | .obj fields => .obj (withoutFields fields)

def withoutItems : List (Doc K S) → List (Doc K S)
  | [] => []
  | item :: items =>
    if item.isHit hits then withoutItems items else without item :: withoutItems items

def withoutFields : List (K × Doc K S) → List (K × Doc K S)
  | [] => []
  | (k, c) :: fields =>
    if c.isHit hits then withoutFields fields else (k, without c) :: withoutFields fields

end

theorem withoutItems_eq (items : List (Doc K S)) : withoutItems hits items =
    (items.filter fun c ↦ !c.isHit hits).map (without hits) := by
  induction items with
  | nil => rw [withoutItems, List.filter_nil, List.map_nil]
  | cons item items ih =>
    rw [withoutItems, List.filter_cons]
    cases item.isHit hits with
    | true => simpa using ih
    | false => simpa using ih

theorem withoutFields_eq (fields : List (K × Doc K S)) : withoutFields hits fields =
    (fields.filter fun p ↦ !p.2.isHit hits).map fun p ↦ (p.1, without hits p.2) := by
  induction fields with
  | nil => rw [withoutFields, List.filter_nil, List.map_nil]
  | cons p fields ih =>
    obtain ⟨k, c⟩ := p
    rw [withoutFields, List.filter_cons]
    cases c.isHit hits with
    | true => simpa using ih
    | false => simpa using ih

theorem children_without (d : Doc K S) : (without hits d).children =
    (d.children.filter fun c ↦ !c.isHit hits).map (without hits) := by
  cases d with
  | leaf s => rw [without, children, List.filter_nil, List.map_nil]
  | arr items => rw [without, children, children, withoutItems_eq]
  | obj fields =>
    rw [without, children, children, withoutFields_eq, List.map_map, List.filter_map, List.map_map]
    rfl

/-- What stands in a tree, but not in an object in it that is hit. -/
inductive Inside : Doc K S → Doc K S → Prop
  | child {d c} (h : c ∈ d.children) : Inside d c
  | deeper {d c o} (h : Inside d c) (hc : c.isHit hits = false) (ho : o ∈ c.children) : Inside d o

variable {hits} {d : Doc K S}

theorem Inside.through {c o : Doc K S} (hc : c ∈ d.children) (hkept : c.isHit hits = false)
    (ho : Inside hits c o) : Inside hits d o := by
  induction ho with
  | child h => exact .deeper (.child hc) hkept h
  | deeper _ hmid ho ih => exact .deeper ih hmid ho

theorem isHit_false (d : Doc K S) : d.isHit (fun _ ↦ false) = false := by
  cases d with
  | leaf s => rfl
  | arr items => rfl
  | obj fields => rfl

theorem Inside.anywhere {o : Doc K S} (h : Inside hits d o) : Inside (fun _ ↦ false) d o := by
  induction h with
  | child h => exact .child h
  | deeper _ _ ho ih => exact .deeper ih (isHit_false _) ho

theorem inside_iff {o : Doc K S} : Inside hits d o ↔
    ∃ c ∈ d.children, o = c ∨ (c.isHit hits = false ∧ Inside hits c o) := by
  constructor
  · intro h
    induction h with
    | child h => exact ⟨_, h, .inl rfl⟩
    | deeper _ hmid ho ih =>
      obtain ⟨c, hc, rfl | ⟨hkept, hin⟩⟩ := ih
      · exact ⟨_, hc, .inr ⟨hmid, .child ho⟩⟩
      · exact ⟨c, hc, .inr ⟨hkept, .deeper hin hmid ho⟩⟩
  · rintro ⟨c, hc, rfl | ⟨hkept, hin⟩⟩
    · exact .child hc
    · exact hin.through hc hkept

theorem mem_children_without {o : Doc K S} : o ∈ (without hits d).children ↔
    ∃ c ∈ d.children, c.isHit hits = false ∧ without hits c = o := by
  rw [children_without, List.mem_map]
  constructor
  · rintro ⟨c, hc, rfl⟩
    obtain ⟨hmem, hkept⟩ := List.mem_filter.mp hc
    exact ⟨c, hmem, by simpa using hkept, rfl⟩
  · rintro ⟨c, hmem, hkept, rfl⟩
    exact ⟨c, List.mem_filter.mpr ⟨hmem, by simpa using hkept⟩, rfl⟩

/-- What stands in the pruned tree is what stands in the tree and is not hit, itself pruned. -/
theorem inside_without {o : Doc K S} : Inside (fun _ ↦ false) (without hits d) o ↔
    ∃ c, Inside hits d c ∧ c.isHit hits = false ∧ without hits c = o := by
  constructor
  · intro h
    generalize htree : without hits d = tree at h
    induction h with
    | child h =>
      subst htree
      obtain ⟨c, hc, hkept, rfl⟩ := mem_children_without.mp h
      exact ⟨c, .child hc, hkept, rfl⟩
    | deeper _ _ ho ih =>
      obtain ⟨c, hc, hkept, rfl⟩ := ih
      obtain ⟨c', hc', hkept', rfl⟩ := mem_children_without.mp ho
      exact ⟨c', .deeper hc hkept hc', hkept', rfl⟩
  · rintro ⟨c, hc, hkept, rfl⟩
    induction hc with
    | child h => exact .child (mem_children_without.mpr ⟨_, h, hkept, rfl⟩)
    | deeper _ hmid ho ih =>
      exact .deeper (ih hmid) (isHit_false _) (mem_children_without.mpr ⟨_, ho, hkept, rfl⟩)

theorem without_eq_self (h : ∀ c, Inside hits d c → c.isHit hits = false) :
    without hits d = d := by
  induction d using children_induction with
  | step d ih =>
    have hchild : ∀ c ∈ d.children, c.isHit hits = false ∧ without hits c = c := by
      intro c hc
      have hkept := h c (.child hc)
      exact ⟨hkept, ih c hc fun o ho ↦ h o (ho.through hc hkept)⟩
    cases d with
    | leaf s => rw [without]
    | arr items =>
      have hitem : ∀ c ∈ items, c.isHit hits = false ∧ without hits c = c := hchild
      have hsame : ∀ c ∈ items, without hits c = c := fun c hc ↦ (hitem c hc).2
      rw [without, withoutItems_eq, List.filter_eq_self.mpr fun c hc ↦ by simp [(hitem c hc).1],
        List.map_congr_left hsame, List.map_id']
    | obj fields =>
      have hfield : ∀ p ∈ fields, p.2.isHit hits = false ∧ without hits p.2 = p.2 :=
        fun p hp ↦ hchild p.2 (List.mem_map_of_mem hp)
      have hsame : ∀ p ∈ fields, (p.1, without hits p.2) = p := by
        intro p hp
        rw [(hfield p hp).2]
      rw [without, withoutFields_eq, List.filter_eq_self.mpr fun p hp ↦ by simp [(hfield p hp).1],
        List.map_congr_left hsame, List.map_id']

end Pruning

end AllAiTools.Foundation.Doc
