import AllAiTools.NewApi.Common.GoCovers

namespace AllAiTools.NewApi.Common.GoJson

section Marshal

variable (go : Go)

/-- The value that `omitempty` leaves out. -/
def Ty.isEmpty : (t : Ty) → t.Value go → Bool
  | .scalar kind, v => kind.isEmpty go v
  | .ptr _, v => Option.isNone v
  | .slice _, v => Option.elim v true List.isEmpty
  | .map _, v => Option.elim v true Std.ExtTreeMap.isEmpty
  | .struct _ _, _ => false

variable {n : ℕ}

def written (tag : Fin n → Tag) (field : Fin n → Ty) (v : ∀ i, (field i).Value go) (i : Fin n) : Bool :=
  (seen tag i).isSome && !((tag i).omitEmpty && (field i).isEmpty go (v i))

/-- `json.Marshal`; it has an error for a float that is no number. -/
def Ty.marshal : (t : Ty) → t.Value go → Option Json
  | .scalar kind => fun v ↦ kind.encode go v
  | .ptr t => fun v ↦ Option.elim v (some .null) t.marshal
  | .slice t => fun v ↦ Option.elim v (some .null) fun items ↦ (items.mapM t.marshal).map .arr
  | .map t => fun v ↦ Option.elim v (some .null) fun entries ↦
    (entries.toList.mapM fun entry ↦ (t.marshal entry.2).map (entry.1, ·)).map .obj
  | .struct (n := n) tag field => fun v ↦
    (((List.finRange n).filter (written go tag field v)).mapM fun i ↦
      ((field i).marshal (v i)).map ((seen tag i).getD "", ·)).map .obj

/-- The value is written as `null`. -/
def Ty.isNil : (t : Ty) → t.Value go → Bool
  | .scalar _ => fun _ ↦ false
  | .ptr t => fun v ↦ Option.elim v true t.isNil
  | .slice _ => fun v ↦ Option.isNone v
  | .map _ => fun v ↦ Option.isNone v
  | .struct _ _ => fun _ ↦ false

/-- Nothing of the value is left out where it is written, and no map is to be added to. -/
def Ty.Full : (t : Ty) → t.Value go → Prop
  | .scalar _ => fun _ ↦ True
  | .ptr t => fun v ↦ ∀ x, v = some x → t.isNil go x ∨ t.Full x
  | .slice t => fun v ↦ ∀ items, v = some items → ∀ x ∈ items, t.Full x
  | .map _ => fun v ↦ v = none
  | .struct tag field => fun v ↦ ∀ i,
    if written go tag field v i then (field i).Full (v i) else (field i).Covers go []

/-- The value is the one that comes back where there was nothing before: a pointer is to what is not
written as `null`, and what is left out is the zero value. -/
def Ty.Plain : (t : Ty) → t.Value go → Prop
  | .scalar _ => fun _ ↦ True
  | .ptr t => fun v ↦ ∀ x, v = some x → t.isNil go x = false ∧ t.Plain x
  | .slice t => fun v ↦ ∀ items, v = some items → ∀ x ∈ items, t.Plain x
  | .map t => fun v ↦ ∀ entries : Entries (t.Value go), v = some entries →
    ∀ (key : String) x, entries[key]? = some x → t.Plain x
  | .struct tag field => fun v ↦ ∀ i,
    if written go tag field v i then (field i).Plain (v i)
    else v i = (field i).read go ((field i).zero go)

end Marshal

section Lists

variable {α β : Type} {f : α → Option β}

theorem mapM_nil_some {out : List β} (h : [].mapM f = some out) : out = [] :=
  (Option.some.inj h).symm

theorem mapM_cons_some {a : α} {l : List α} {out : List β} (h : (a :: l).mapM f = some out) :
    ∃ b rest, f a = some b ∧ l.mapM f = some rest ∧ out = b :: rest := by
  rw [List.mapM_cons] at h
  obtain ⟨b, hb, hrest⟩ := Option.bind_eq_some_iff.mp h
  obtain ⟨rest, hrest, hout⟩ := Option.bind_eq_some_iff.mp hrest
  exact ⟨b, rest, hb, hrest, (Option.some.inj hout).symm⟩

theorem mem_of_mapM {l : List α} {out : List β} (h : l.mapM f = some out) {b : β} (hb : b ∈ out) :
    ∃ a ∈ l, f a = some b := by
  induction l generalizing out with
  | nil =>
    rw [mapM_nil_some h] at hb
    cases hb
  | cons a l ih =>
    obtain ⟨b', rest, hb', hrest, rfl⟩ := mapM_cons_some h
    rcases List.mem_cons.mp hb with rfl | hmem
    · exact ⟨a, List.mem_cons_self, hb'⟩
    · obtain ⟨a', ha', hfa'⟩ := ih hrest hmem
      exact ⟨a', List.mem_cons_of_mem a ha', hfa'⟩

theorem getElem?_mapM {l : List α} {out : List β} (h : l.mapM f = some out) (k : ℕ) :
    out[k]? = l[k]?.bind f := by
  induction l generalizing out k with
  | nil =>
    rw [mapM_nil_some h]
    rfl
  | cons a l ih =>
    obtain ⟨b, rest, hb, hrest, rfl⟩ := mapM_cons_some h
    cases k with
    | zero => exact hb.symm
    | succ k => exact ih hrest k

theorem length_mapM {l : List α} {out : List β} (h : l.mapM f = some out) : out.length = l.length := by
  induction l generalizing out with
  | nil =>
    rw [mapM_nil_some h]
    rfl
  | cons a l ih =>
    obtain ⟨b, rest, hb, hrest, rfl⟩ := mapM_cons_some h
    exact congrArg Nat.succ (ih hrest)

theorem exists_of_mapM {l : List α} {out : List β} (h : l.mapM f = some out) {k : ℕ} {a : α}
    (ha : l[k]? = some a) : ∃ b, out[k]? = some b ∧ f a = some b := by
  have hk : k < out.length := by
    rw [length_mapM h]
    exact (List.getElem?_eq_some_iff.mp ha).1
  have hitem := getElem?_mapM h k
  rw [ha, Option.bind_some] at hitem
  exact ⟨out[k], List.getElem?_eq_getElem hk, hitem ▸ List.getElem?_eq_getElem hk⟩

end Lists

section Structs

variable {go : Go} {n : ℕ} {tag : Fin n → Tag} {field : Fin n → Ty}

theorem seen_inj {i i' : Fin n} {name : String} (h : seen tag i = some name)
    (h' : seen tag i' = some name) : i = i' := by
  obtain ⟨hname, hother⟩ := Option.filter_eq_some_iff.mp h
  obtain ⟨hname', hother'⟩ := Option.filter_eq_some_iff.mp h'
  by_contra hne
  have htagged := of_decide_eq_true hother i' (Ne.symm hne) hname'
  have htagged' := of_decide_eq_true hother' i hne hname
  exact htagged'.2 htagged.1

theorem resolve_seen {i : Fin n} {name : String} (h : seen tag i = some name) :
    resolve go tag name = some i := by
  have hfind : ((List.finRange n).find? fun i ↦ seen tag i = some name) = some i := by
    cases hfound : (List.finRange n).find? fun i ↦ seen tag i = some name with
    | none => exact absurd (decide_eq_true h) (List.find?_eq_none.mp hfound i (List.mem_finRange i))
    | some i' =>
      have hi' : seen tag i' = some name := by simpa using List.find?_some hfound
      rw [seen_inj hi' h]
  rw [resolve, hfind, Option.some_or]

/-- The members of an object that is written are each for the field they come from. -/
theorem select_mapM {l : List (Fin n)} (hnodup : l.Nodup) (hseen : ∀ i ∈ l, (seen tag i).isSome)
    {value : Fin n → Option Json} {members : List (String × Json)}
    (h : (l.mapM fun i ↦ (value i).map ((seen tag i).getD "", ·)) = some members) (i : Fin n) :
    select go tag i (.obj members) = if i ∈ l then (value i).toList else [] := by
  induction l generalizing members with
  | nil =>
    rw [mapM_nil_some h, if_neg List.not_mem_nil]
    rfl
  | cons i' l ih =>
    obtain ⟨hnotMem, hnodup'⟩ := List.nodup_cons.mp hnodup
    obtain ⟨hsome, hseen'⟩ := List.forall_mem_cons.mp hseen
    obtain ⟨member, rest, hmember, hrest, rfl⟩ := mapM_cons_some h
    obtain ⟨j, hj, rfl⟩ := Option.map_eq_some_iff.mp hmember
    obtain ⟨name, hname⟩ := Option.isSome_iff_exists.mp hsome
    have hresolve : resolve go tag ((seen tag i').getD "") = some i' := by
      rw [hname]
      exact resolve_seen hname
    have hselect := ih hnodup' hseen' hrest
    simp only [select] at hselect ⊢
    rw [List.filter_cons, hresolve]
    by_cases hi : i' = i
    · subst hi
      rw [if_neg hnotMem] at hselect
      rw [if_pos (decide_eq_true rfl), if_pos List.mem_cons_self, List.map_cons, hselect, hj]
      rfl
    · rw [if_neg (by simpa using hi), hselect]
      simp only [List.mem_cons, Ne.symm hi, false_or]

theorem select_marshal {v : ∀ i, (field i).Value go} {j : Json}
    (h : (Ty.struct tag field).marshal go v = some j) (i : Fin n) :
    select go tag i j = if written go tag field v i then ((field i).marshal go (v i)).toList else [] := by
  obtain ⟨members, hmembers, rfl⟩ := Option.map_eq_some_iff.mp h
  have hseen : ∀ i ∈ (List.finRange n).filter (written go tag field v), (seen tag i).isSome := by
    intro i hi
    have hwritten : written go tag field v i := List.of_mem_filter hi
    exact (Bool.and_eq_true_iff.mp hwritten).1
  rw [select_mapM ((List.nodup_finRange n).filter _) hseen hmembers i]
  refine if_congr ?_ rfl rfl
  rw [List.mem_filter]
  exact and_iff_right (List.mem_finRange i)

theorem marshal_field {v : ∀ i, (field i).Value go} {j : Json}
    (h : (Ty.struct tag field).marshal go v = some j) {i : Fin n}
    (hwritten : written go tag field v i) : ∃ j', (field i).marshal go (v i) = some j' := by
  obtain ⟨members, hmembers, rfl⟩ := Option.map_eq_some_iff.mp h
  have hi : i ∈ (List.finRange n).filter (written go tag field v) :=
    List.mem_filter.mpr ⟨List.mem_finRange i, hwritten⟩
  obtain ⟨k, hk⟩ := List.mem_iff_getElem?.mp hi
  obtain ⟨member, _, hmember⟩ := exists_of_mapM hmembers hk
  obtain ⟨j', hj', _⟩ := Option.map_eq_some_iff.mp hmember
  exact ⟨j', hj'⟩

end Structs

section Facts

variable {go : Go}

theorem marshal_valid (laws : go.Laws) (t : Ty) (v : t.Value go) {j : Json}
    (h : t.marshal go v = some j) : t.valid go j := by
  induction t generalizing j with
  | scalar kind =>
    refine Bool.or_eq_true_iff.mpr (Or.inr ?_)
    rw [kind.decode_encode laws h]
    rfl
  | ptr t ih =>
    cases v with
    | none =>
      obtain rfl := Option.some.inj h
      rfl
    | some x => exact Bool.or_eq_true_iff.mpr (Or.inr (ih x h))
  | slice t ih =>
    cases v with
    | none =>
      obtain rfl := Option.some.inj h
      rfl
    | some items =>
      obtain ⟨js, hjs, rfl⟩ := Option.map_eq_some_iff.mp h
      refine List.all_eq_true.mpr fun j hj ↦ ?_
      obtain ⟨x, _, hx⟩ := mem_of_mapM hjs hj
      exact ih x hx
  | map t ih =>
    cases v with
    | none =>
      obtain rfl := Option.some.inj h
      rfl
    | some entries =>
      obtain ⟨members, hmembers, rfl⟩ := Option.map_eq_some_iff.mp h
      refine List.all_eq_true.mpr fun member hmember ↦ ?_
      obtain ⟨entry, _, hentry⟩ := mem_of_mapM hmembers hmember
      obtain ⟨j, hj, rfl⟩ := Option.map_eq_some_iff.mp hentry
      exact ih entry.2 hj
  | struct tag field ih =>
    have hselect := select_marshal h
    obtain ⟨members, hmembers, rfl⟩ := Option.map_eq_some_iff.mp h
    simp only [Ty.valid]
    refine List.all_eq_true.mpr fun i _ ↦ List.all_eq_true.mpr fun j hj ↦ ?_
    rw [hselect i] at hj
    split_ifs at hj with hwritten
    · exact ih i (v i) (Option.mem_toList.mp hj)
    · cases hj

theorem marshal_null (t : Ty) (v : t.Value go) {j : Json} (h : t.marshal go v = some j) :
    j = .null ↔ t.isNil go v := by
  induction t generalizing j with
  | scalar kind =>
    refine iff_of_false (fun hnull ↦ ?_) Bool.false_ne_true
    cases kind with
    | float size =>
      obtain ⟨literal, _, rfl⟩ := Option.map_eq_some_iff.mp h
      cases hnull
    | _ =>
      obtain rfl := Option.some.inj h
      cases hnull
  | ptr t ih =>
    cases v with
    | none => exact iff_of_true (Option.some.inj h).symm rfl
    | some x => exact ih x h
  | slice t ih =>
    cases v with
    | none => exact iff_of_true (Option.some.inj h).symm rfl
    | some items =>
      obtain ⟨js, _, rfl⟩ := Option.map_eq_some_iff.mp h
      exact iff_of_false (fun hnull ↦ by cases hnull) Bool.false_ne_true
  | map t ih =>
    cases v with
    | none => exact iff_of_true (Option.some.inj h).symm rfl
    | some entries =>
      obtain ⟨members, _, rfl⟩ := Option.map_eq_some_iff.mp h
      exact iff_of_false (fun hnull ↦ by cases hnull) Bool.false_ne_true
  | struct tag field ih =>
    obtain ⟨members, _, rfl⟩ := Option.map_eq_some_iff.mp h
    exact iff_of_false (fun hnull ↦ by cases hnull) Bool.false_ne_true

theorem filterMap_item (js : List Json) (k : ℕ) :
    [Json.arr js].filterMap (Json.item k) = js[k]?.toList := by
  have hitem : Json.item k (.arr js) = js[k]? := rfl
  rw [List.filterMap_cons, hitem]
  cases js[k]? <;> rfl

theorem flatMap_select {n : ℕ} (tag : Fin n → Tag) (j : Json) (i : Fin n) :
    [j].flatMap (select go tag i) = select go tag i j := List.append_nil _

/-- What is written covers the type where nothing is left out. -/
theorem covers_marshal (t : Ty) (v : t.Value go) {j : Json} (h : t.marshal go v = some j) :
    t.Covers go [j] ↔ t.Full go v := by
  induction t generalizing j with
  | scalar kind =>
    have hne : j ≠ .null := (marshal_null (.scalar kind) v h).not.mpr Bool.false_ne_true
    exact iff_of_true ⟨j, List.mem_singleton_self j, hne⟩ trivial
  | ptr t ih =>
    cases v with
    | none =>
      obtain rfl := Option.some.inj h
      exact iff_of_true (Or.inl (List.mem_singleton_self _)) fun x hx ↦ by cases hx
    | some x =>
      have hnull : .null ∈ [j] ↔ t.isNil go x := by
        rw [List.mem_singleton, eq_comm]
        exact marshal_null t x h
      have hcovers : [j] ≠ [] ∧ t.Covers go [j] ↔ t.Full go x :=
        (and_iff_right (List.cons_ne_nil j [])).trans (ih x h)
      constructor
      · rintro hptr _ ⟨⟩
        exact hptr.imp hnull.mp hcovers.mp
      · intro hfull
        exact (hfull x rfl).imp hnull.mpr hcovers.mpr
  | slice t ih =>
    cases v with
    | none =>
      obtain rfl := Option.some.inj h
      exact iff_of_true (Or.inl (List.mem_singleton_self _)) fun items hitems ↦ by cases hitems
    | some items =>
      obtain ⟨js, hjs, rfl⟩ := Option.map_eq_some_iff.mp h
      have hlength := length_mapM hjs
      constructor
      · rintro (hnull | hempty | ⟨js', hlast, hall⟩) _ ⟨⟩ x hx
        · cases List.mem_singleton.mp hnull
        · obtain rfl : [] = js := Json.arr.inj (List.mem_singleton.mp hempty)
          rw [List.length_nil] at hlength
          rw [List.length_eq_zero_iff.mp hlength.symm] at hx
          cases hx
        · obtain rfl : js = js' := Json.arr.inj (Option.some.inj hlast)
          obtain ⟨k, hk⟩ := List.mem_iff_getElem?.mp hx
          obtain ⟨j, hj, hmarshal⟩ := exists_of_mapM hjs hk
          have hcovers := hall k (List.getElem?_eq_some_iff.mp hj).1
          rw [filterMap_item, hj] at hcovers
          exact (ih x hmarshal).mp hcovers
      · intro hfull
        refine Or.inr (Or.inr ⟨js, rfl, fun k hk ↦ ?_⟩)
        obtain ⟨x, hx⟩ : ∃ x, items[k]? = some x :=
          ⟨_, List.getElem?_eq_getElem (hlength ▸ hk)⟩
        obtain ⟨j, hj, hmarshal⟩ := exists_of_mapM hjs hx
        rw [filterMap_item, hj]
        exact (ih x hmarshal).mpr (hfull items rfl x (List.mem_of_getElem? hx))
  | map t ih =>
    cases v with
    | none =>
      obtain rfl := Option.some.inj h
      exact iff_of_true (List.mem_singleton_self _) rfl
    | some entries =>
      obtain ⟨members, _, rfl⟩ := Option.map_eq_some_iff.mp h
      exact iff_of_false (fun hnull ↦ by cases List.mem_singleton.mp hnull) fun hfull ↦ by cases hfull
  | struct tag field ih =>
    refine forall_congr' fun i ↦ ?_
    rw [flatMap_select, select_marshal h]
    split_ifs with hwritten
    · obtain ⟨j', hj'⟩ := marshal_field h hwritten
      rw [hj', Option.toList_some]
      exact ih i (v i) hj'
    · exact Iff.rfl

/-- A key whose value is written is decoded from there. -/
theorem getElem?_decode_map {t : Ty} {l : List (String × t.Value go)} {members : List (String × Json)}
    (h : (l.mapM fun entry ↦ (t.marshal go entry.2).map (entry.1, ·)) = some members)
    (hdistinct : l.Pairwise fun a b ↦ ¬compare a.1 b.1 = .eq) {key : String} {x : t.Value go}
    (hx : (key, x) ∈ l) (before : Entries (t.Cell go)) :
    ∃ j, t.marshal go x = some j ∧ (members.foldl (fun entries member ↦
      entries.insert member.1 (t.decode go member.2 (t.zero go))) before)[key]? =
        some (t.decode go j (t.zero go)) := by
  induction l generalizing members before with
  | nil => cases hx
  | cons entry l ih =>
    obtain ⟨hapart, hdistinct'⟩ := List.pairwise_cons.mp hdistinct
    obtain ⟨member, rest, hmember, hrest, rfl⟩ := mapM_cons_some h
    obtain ⟨j, hj, rfl⟩ := Option.map_eq_some_iff.mp hmember
    rcases List.mem_cons.mp hx with rfl | hmem
    · refine ⟨j, hj, ?_⟩
      have hkey : key ∉ rest.map (·.1) := by
        intro hin
        obtain ⟨member, hmember', rfl⟩ := List.mem_map.mp hin
        obtain ⟨entry, hentry, hsome⟩ := mem_of_mapM hrest hmember'
        obtain ⟨_, _, rfl⟩ := Option.map_eq_some_iff.mp hsome
        exact hapart entry hentry (Std.ReflCmp.compare_self)
      rw [List.foldl_cons, foldl_insert_of_notMem hkey (fun j ↦ t.decode go j (t.zero go)),
        Std.ExtTreeMap.getElem?_insert_self]
    · exact ih hrest hdistinct' hmem _

theorem getElem?_decode_map_none {t : Ty} {l : List (String × t.Value go)}
    {members : List (String × Json)}
    (h : (l.mapM fun entry ↦ (t.marshal go entry.2).map (entry.1, ·)) = some members)
    {key : String} (hkey : key ∉ l.map (·.1)) (before : Entries (t.Cell go)) :
    (members.foldl (fun entries member ↦
      entries.insert member.1 (t.decode go member.2 (t.zero go))) before)[key]? = before[key]? := by
  refine foldl_insert_of_notMem (fun hin ↦ hkey ?_) (fun j ↦ t.decode go j (t.zero go)) before
  obtain ⟨member, hmember, rfl⟩ := List.mem_map.mp hin
  obtain ⟨entry, hentry, hsome⟩ := mem_of_mapM h hmember
  obtain ⟨_, _, rfl⟩ := Option.map_eq_some_iff.mp hsome
  exact List.mem_map_of_mem hentry

/-- What is written comes back where there was nothing before, if it is plain. -/
theorem read_marshal (laws : go.Laws) (t : Ty) (v : t.Value go) {j : Json}
    (h : t.marshal go v = some j) : t.read go (t.decode go j (t.zero go)) = v ↔ t.Plain go v := by
  induction t generalizing j with
  | scalar kind =>
    refine iff_of_true ?_ trivial
    have hdecode : (Ty.scalar kind).decode go j (kind.zero go) = (kind.decode go j).getD (kind.zero go) :=
      rfl
    rw [kind.decode_encode laws h, Option.getD_some] at hdecode
    exact hdecode
  | ptr t ih =>
    cases v with
    | none =>
      obtain rfl := Option.some.inj h
      exact iff_of_true rfl fun x hx ↦ by cases hx
    | some x =>
      by_cases hnil : t.isNil go x
      · obtain rfl := (marshal_null t x h).mpr hnil
        refine iff_of_false (fun hread ↦ ?_) fun hplain ↦ ?_
        · have hnone : (none : Option (t.Value go)) = some x := hread
          cases hnone
        · exact absurd ((hplain x rfl).1.symm.trans hnil) Bool.false_ne_true
      · have hne : j ≠ .null := (marshal_null t x h).not.mpr hnil
        have hread : (Ty.ptr t).read go ((Ty.ptr t).decode go j ((Ty.ptr t).zero go)) =
            some (t.read go (t.decode go j (t.zero go))) := by
          rw [decode_ptr hne]
          rfl
        rw [hread]
        constructor
        · rintro hsome _ ⟨⟩
          exact ⟨eq_false_of_ne_true hnil, (ih x h).mp (Option.some.inj hsome)⟩
        · intro hplain
          exact congrArg some ((ih x h).mpr (hplain x rfl).2)
  | slice t ih =>
    cases v with
    | none =>
      obtain rfl := Option.some.inj h
      exact iff_of_true rfl fun items hitems ↦ by cases hitems
    | some items =>
      obtain ⟨js, hjs, rfl⟩ := Option.map_eq_some_iff.mp h
      have hlength := length_mapM hjs
      by_cases hempty : js = []
      · subst hempty
        obtain rfl : items = [] := List.length_eq_zero_iff.mp hlength.symm
        refine iff_of_true rfl ?_
        rintro _ ⟨⟩ x hx
        cases hx
      have harr : ∀ j ∈ [Json.arr js], ∃ items, items ≠ [] ∧ j = .arr items :=
        fun j hj ↦ ⟨js, hempty, List.mem_singleton.mp hj⟩
      have hlast : [Json.arr js].getLast? = some (.arr js) := rfl
      obtain ⟨vs, hread, hvsLength, hvs⟩ := read_item harr hlast hempty ((Ty.slice t).zero go)
      have hitem : ∀ {k : ℕ} {x}, items[k]? = some x → ∃ j, t.marshal go x = some j ∧
          vs[k]? = some (t.read go (t.decode go j (t.zero go))) := by
        intro k x hx
        obtain ⟨j, hj, hmarshal⟩ := exists_of_mapM hjs hx
        have hplace := hvs k (List.getElem?_eq_some_iff.mp hj).1
        rw [filterMap_item, hj] at hplace
        exact ⟨j, hmarshal, hplace⟩
      refine (Eq.congr_left hread).trans ⟨?_, fun hplain ↦ congrArg some ?_⟩
      · rintro ⟨⟩ _ ⟨⟩ x hx
        obtain ⟨k, hk⟩ := List.mem_iff_getElem?.mp hx
        obtain ⟨j, hmarshal, hplace⟩ := hitem hk
        rw [hk] at hplace
        exact (ih x hmarshal).mp (Option.some.inj hplace).symm
      · refine List.ext_getElem? fun k ↦ ?_
        cases hx : items[k]? with
        | none =>
          have hk : items.length ≤ k := List.getElem?_eq_none_iff.mp hx
          exact List.getElem?_eq_none (by omega)
        | some x =>
          obtain ⟨j, hmarshal, hplace⟩ := hitem hx
          rw [hplace, (ih x hmarshal).mpr (hplain items rfl x (List.mem_of_getElem? hx))]
  | map t ih =>
    cases v with
    | none =>
      obtain rfl := Option.some.inj h
      exact iff_of_true rfl fun entries hentries ↦ by cases hentries
    | some entries =>
      obtain ⟨members, hmembers, rfl⟩ := Option.map_eq_some_iff.mp h
      let decoded : Entries (t.Cell go) := members.foldl (fun entries member ↦
        entries.insert member.1 (t.decode go member.2 (t.zero go))) ∅
      have hread : (Ty.map t).read go ((Ty.map t).decode go (.obj members) ((Ty.map t).zero go)) =
          some (decoded.map fun _ c ↦ t.read go c) := rfl
      have hlookup : ∀ {key : String} {x : t.Value go}, entries[key]? = some x →
          ∃ j, t.marshal go x = some j ∧ (decoded.map fun _ c ↦ t.read go c)[key]? =
            some (t.read go (t.decode go j (t.zero go))) := by
        intro key x hx
        obtain ⟨j, hmarshal, hdecoded⟩ := getElem?_decode_map hmembers
          Std.ExtTreeMap.distinct_keys_toList
          (Std.ExtTreeMap.mem_toList_iff_getElem?_eq_some.mpr hx) ∅
        refine ⟨j, hmarshal, ?_⟩
        rw [Std.ExtTreeMap.getElem?_map, hdecoded, Option.map_some]
      refine (Eq.congr_left hread).trans ⟨?_, fun hplain ↦ congrArg some ?_⟩
      · rintro heq _ ⟨⟩ key x hx
        obtain ⟨j, hmarshal, hplace⟩ := hlookup hx
        rw [Option.some.inj heq, hx] at hplace
        exact (ih x hmarshal).mp (Option.some.inj hplace).symm
      · refine Std.ExtTreeMap.ext_getElem? fun key ↦ ?_
        cases hx : entries[key]? with
        | none =>
          have hkey : key ∉ entries.toList.map (·.1) := by
            intro hin
            obtain ⟨entry, hentry, rfl⟩ := List.mem_map.mp hin
            have hsome := Std.ExtTreeMap.mem_toList_iff_getElem?_eq_some.mp hentry
            rw [hx] at hsome
            cases hsome
          rw [Std.ExtTreeMap.getElem?_map, getElem?_decode_map_none hmembers hkey,
            Std.ExtTreeMap.getElem?_empty, Option.map_none]
        | some x =>
          obtain ⟨j, hmarshal, hplace⟩ := hlookup hx
          rw [hplace, (ih x hmarshal).mpr (hplain entries rfl key x hx)]
  | struct tag field ih =>
    have hread : ∀ i, (Ty.struct tag field).read go
        ((Ty.struct tag field).decode go j ((Ty.struct tag field).zero go)) i =
          (field i).read go ((field i).decodeAll go (select go tag i j) ((field i).zero go)) :=
      fun _ ↦ rfl
    refine funext_iff.trans (forall_congr' fun i ↦ ?_)
    rw [hread, select_marshal h]
    split_ifs with hwritten
    · obtain ⟨j', hj'⟩ := marshal_field h hwritten
      rw [hj', Option.toList_some]
      exact ih i (v i) hj'
    · exact eq_comm

end Facts

end AllAiTools.NewApi.Common.GoJson
