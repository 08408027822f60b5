import AllAiTools.NewApi.Relay.ParamOverride

namespace AllAiTools.NewApi.Relay.MoveKeeps

open Foundation ParamOverride

theorem index_injective (a b : Text) (i : ℕ) (ha : index a = some i) (hb : index b = some i) :
    a = b := by
  have hdigits {s : Text} (hs : index s = some i) : digits i = s := by
    unfold index at hs
    exact of_decide_eq_true (Option.filter_eq_some_iff.mp hs).2
  exact (hdigits ha).symm.trans (hdigits hb)

section Nodes

/-- What a move promises of the document it leaves. -/
structure Moved (data : Json) (source target : List Text) (v result : Json) : Prop where
  arrived : result.get index target = some v
  gone : source <+: target ∨ result.get index source = none
  same : source = target → result = data

/-- The element after the one that moves into itself holds the value at the same place. -/
def NextHolds (data : Json) (source below : List Text) (v : Json) : Prop :=
  ∃ parent k items i, source = parent ++ [k] ∧ data.get index parent = some (.arr items) ∧
    index k = some i ∧ (items[i + 1]?).bind (·.get index below) = some v

/-- An element that is moved out of an array is its last, and does not go further back in it. -/
def LastItem (data : Json) (source target : List Text) : Prop :=
  ∀ parent k items i, source = parent ++ [k] → data.get index parent = some (.arr items) →
    index k = some i → items.length = i + 1 ∧
      ∀ k' rest j, target = parent ++ k' :: rest → index k' = some j → j < i

structure Relocatable (data : Json) (source target : List Text) (v : Json) : Prop where
  elsewhere : source ≠ target
  outwards : ∀ below, source = target ++ below → v.get index below = none
  inwards : ∀ below, target = source ++ below → NextHolds data source below v
  apart : ¬ source <+: target → ¬ target <+: source → LastItem data source target

variable {data written v : Json} {source target : List Text}

/-- A value that is moved onto itself is lost. -/
theorem moved_onto (hsource : data.get index source = some v) (hne : source ≠ [])
    (hset : data.set index .null source v = some written) :
    ¬ Moved data source source v (written.delete index source) := by
  intro hmoved
  have hsame := hmoved.same rfl
  obtain rfl := Option.some.inj ((Doc.set_of_get hsource).symm.trans hset)
  rw [Doc.delete_eq_self_iff data hne] at hsame
  cases hsame.symm.trans hsource

/-- Out of its own subtree the value loses the node that the source names in it. -/
theorem moved_outwards {below : List Text} (hbelow : below ≠ [])
    (hset : data.set index .null target v = some written) :
    Moved data (target ++ below) target v (written.delete index (target ++ below)) ↔
      v.get index below = none := by
  have htarget := Doc.get_set_self index_injective hset
  have hafter := Doc.get_delete_below index_injective written target hbelow
  rw [htarget, Option.map_some] at hafter
  constructor
  · intro hmoved
    have hkept := Option.some.inj (hafter.symm.trans hmoved.arrived)
    exact (Doc.delete_eq_self_iff v hbelow).mp hkept
  · intro hnone
    have hkept := (Doc.delete_eq_self_iff v hbelow).mpr hnone
    rw [hkept] at hafter
    refine ⟨hafter, .inr ?_, fun hsame ↦ absurd (by simpa using hsame) hbelow⟩
    rw [Doc.get_append, hafter, Option.bind_some, hnone]

theorem child_removeChild_arr {items : List Json} {k : Text} {i : ℕ} (hk : index k = some i) :
    ((Doc.arr items).removeChild index k).child index k = items[i + 1]? := by
  simp [Doc.removeChild, Doc.child, hk, List.getElem?_eraseIdx]

theorem child_removeChild_obj (fields : List (Text × Json)) (k : Text) :
    ((Doc.obj fields).removeChild index k).child index k = none := by
  simp only [Doc.removeChild, Doc.child, Doc.lookup_filter, if_true]

/-- What stands at the place of a node that has been deleted. -/
theorem get_delete_child (d : Json) (parent : List Text) (k : Text) (rest : List Text) :
    (d.delete index (parent ++ [k])).get index (parent ++ k :: rest) =
      (d.get index parent).bind fun c ↦
        ((c.removeChild index k).child index k).bind (·.get index rest) := by
  rw [Doc.get_append, Doc.get_delete_below index_injective d parent (List.cons_ne_nil k [])]
  cases d.get index parent with
  | none => rfl
  | some c => rw [Option.map_some, Option.bind_some, Doc.delete_singleton]; rfl

/-- Into its own subtree the value goes down with the source. -/
theorem moved_inwards {parent below : List Text} {k : Text}
    (hsource : data.get index (parent ++ [k]) = some v) (hbelow : below ≠ [])
    (hset : data.set index .null (parent ++ [k] ++ below) v = some written) :
    Moved data (parent ++ [k]) (parent ++ [k] ++ below) v
        (written.delete index (parent ++ [k])) ↔
      NextHolds data (parent ++ [k]) below v := by
  have harrived : Moved data (parent ++ [k]) (parent ++ [k] ++ below) v
      (written.delete index (parent ++ [k])) ↔
      (written.delete index (parent ++ [k])).get index (parent ++ k :: below) = some v := by
    rw [List.append_assoc, List.singleton_append]
    refine ⟨fun hmoved ↦ hmoved.arrived, fun h ↦ ⟨h, .inl ?_, fun hsame ↦ ?_⟩⟩
    · exact ⟨below, by simp⟩
    · simp only [List.append_cancel_left_eq, List.cons.injEq, true_and] at hsame
      exact absurd hsame.symm hbelow
  rw [harrived, get_delete_child]
  rw [Doc.get_append] at hsource
  obtain ⟨node, hnode, hchild⟩ := Option.bind_eq_some_iff.mp hsource
  rw [List.append_assoc, List.singleton_append] at hset
  obtain ⟨node', hset', hnode'⟩ := Doc.get_set_below index_injective hset hnode
  rw [hnode', Option.bind_some]
  cases node with
  | leaf s => cases hchild
  | obj fields =>
    obtain ⟨fields', rfl⟩ := Doc.set_obj_fields hset'
    rw [child_removeChild_obj]
    refine iff_of_false (by simp) ?_
    rintro ⟨parent', k', items, i, hsame, hitems, -⟩
    obtain ⟨rfl, -⟩ := List.append_inj' hsame rfl
    cases hitems.symm.trans hnode
  | arr items =>
    have hv : (Doc.arr items).child index k = some v := by simpa using hchild
    obtain ⟨i, hk, hitem⟩ := Option.bind_eq_some_iff.mp hv
    rw [Doc.set_arr, hk] at hset'
    dsimp only at hset'
    rw [hitem] at hset'
    obtain ⟨c, -, rfl⟩ := Option.map_eq_some_iff.mp hset'
    rw [child_removeChild_arr hk, List.getElem?_set_ne (Nat.lt_succ_self i).ne]
    constructor
    · intro hnext
      exact ⟨parent, k, items, i, rfl, hnode, hk, hnext⟩
    · rintro ⟨parent', k', items', i', hsame, hitems, hk', hnext⟩
      obtain ⟨rfl, hkeys⟩ := List.append_inj' hsame rfl
      obtain rfl := List.singleton_inj.mp hkeys
      cases hitems.symm.trans hnode
      cases hk'.symm.trans hk
      exact hnext

/-- The container of the source once the value is written elsewhere. -/
theorem container_after {parent : List Text} {k : Text} {node : Json}
    (hnode : data.get index parent = some node) (hset : data.set index .null target v = some written)
    (hsource : ¬ parent ++ [k] <+: target) (htarget : ¬ target <+: parent ++ [k]) :
    (¬ parent <+: target ∧ written.get index parent = some node) ∨
      ∃ k' rest node', target = parent ++ k' :: rest ∧ k' ≠ k ∧
        node.set index .null (k' :: rest) v = some node' ∧
          written.get index parent = some node' := by
  have habove : ¬ target <+: parent := fun h ↦ htarget (h.trans (List.prefix_append parent [k]))
  by_cases hthrough : parent <+: target
  · obtain ⟨suffix, rfl⟩ := hthrough
    cases suffix with
    | nil => exact absurd ⟨[k], by simp⟩ htarget
    | cons k' rest =>
      obtain ⟨node', hset', hnode'⟩ := Doc.get_set_below index_injective hset hnode
      refine .inr ⟨k', rest, node', rfl, ?_, hset', hnode'⟩
      rintro rfl
      exact hsource ⟨rest, by simp⟩
  · exact .inl ⟨hthrough, Doc.get_set_frame index_injective hset habove hthrough hnode⟩

/-- The source is gone just where it was no element with another one after it. -/
theorem gone_iff {parent : List Text} {k : Text} (hsource : data.get index (parent ++ [k]) = some v)
    (hset : data.set index .null target v = some written)
    (hapart : ¬ parent ++ [k] <+: target) (hapart' : ¬ target <+: parent ++ [k]) :
    (written.delete index (parent ++ [k])).get index (parent ++ [k]) = none ↔
      LastItem data (parent ++ [k]) target := by
  rw [get_delete_child]
  rw [Doc.get_append] at hsource
  obtain ⟨node, hnode, hchild⟩ := Option.bind_eq_some_iff.mp hsource
  cases node with
  | leaf s => cases hchild
  | obj fields =>
    refine iff_of_true ?_ ?_
    · rcases container_after hnode hset hapart hapart' with ⟨-, hafter⟩ | ⟨_, _, _, -, -, hset', hafter⟩
      · rw [hafter, Option.bind_some, child_removeChild_obj]
        rfl
      · obtain ⟨fields', rfl⟩ := Doc.set_obj_fields hset'
        rw [hafter, Option.bind_some, child_removeChild_obj]
        rfl
    · intro parent' k' items i hsame hitems
      obtain ⟨rfl, -⟩ := List.append_inj' hsame rfl
      cases hitems.symm.trans hnode
  | arr items =>
    have hv : (Doc.arr items).child index k = some v := by simpa using hchild
    obtain ⟨i, hk, hitem⟩ := Option.bind_eq_some_iff.mp hv
    obtain ⟨hlt, -⟩ := List.getElem?_eq_some_iff.mp hitem
    have hlast : LastItem data (parent ++ [k]) target ↔ items.length = i + 1 ∧
        ∀ k' rest j, target = parent ++ k' :: rest → index k' = some j → j < i := by
      constructor
      · intro h
        exact h parent k items i rfl hnode hk
      · rintro h parent' k₁ items' i' hsame hitems hk₁
        obtain ⟨rfl, hkeys⟩ := List.append_inj' hsame rfl
        obtain rfl := List.singleton_inj.mp hkeys
        cases hitems.symm.trans hnode
        cases hk₁.symm.trans hk
        exact h
    rw [hlast]
    rcases container_after hnode hset hapart hapart' with
      ⟨hnot, hafter⟩ | ⟨k₁, rest₁, node', htarget, hne, hset', hafter⟩
    · have helse : ∀ k' rest j, target = parent ++ k' :: rest → index k' = some j → j < i :=
        fun k' rest j htarget ↦ absurd ⟨k' :: rest, htarget.symm⟩ hnot
      have hnext : (items[i + 1]?).bind (·.get index []) = none ↔ items.length ≤ i + 1 := by
        simp
      rw [hafter, Option.bind_some, child_removeChild_arr hk, hnext]
      constructor
      · intro hle
        exact ⟨by omega, helse⟩
      · intro h
        exact h.1.le
    · obtain ⟨j, items', hj, rfl, hlen⟩ := Doc.set_arr_length hset'
      have hnext : (items'[i + 1]?).bind (·.get index []) = none ↔ items'.length ≤ i + 1 := by
        simp
      rw [hafter, Option.bind_some, child_removeChild_arr hk, hnext, hlen]
      constructor
      · intro hle
        refine ⟨by omega, fun k' rest j' htarget' hj' ↦ ?_⟩
        have hkeys := List.append_cancel_left (htarget'.symm.trans htarget)
        obtain ⟨rfl, -⟩ := List.cons.inj hkeys
        cases hj'.symm.trans hj
        have hij : j ≠ i := fun hij ↦ hne (index_injective k' k i (hij ▸ hj) hk)
        omega
      · rintro ⟨hlen', hbefore⟩
        have hj' := hbefore k₁ rest₁ j htarget hj
        omega

/-- Between nodes apart from each other the value arrives, if nothing moves up into its place. -/
theorem arrived_apart {parent : List Text} {k : Text}
    (hsource : data.get index (parent ++ [k]) = some v)
    (hset : data.set index .null target v = some written)
    (hapart : ¬ parent ++ [k] <+: target) (hapart' : ¬ target <+: parent ++ [k])
    (hlast : LastItem data (parent ++ [k]) target) :
    (written.delete index (parent ++ [k])).get index target = some v := by
  have hwritten := Doc.get_set_self index_injective hset
  rw [Doc.get_append] at hsource
  obtain ⟨node, hnode, hchild⟩ := Option.bind_eq_some_iff.mp hsource
  rcases container_after hnode hset hapart hapart' with
    ⟨hnot, -⟩ | ⟨k₁, rest, node', rfl, hne, hset', hafter⟩
  · have habove : ¬ target <+: parent := fun h ↦ hapart' (h.trans (List.prefix_append parent [k]))
    rw [Doc.get_delete_frame index_injective written k hnot habove]
    exact hwritten
  · rw [Doc.get_append, hafter, Option.bind_some] at hwritten
    rw [Doc.get_append, Doc.get_delete_below index_injective written parent (List.cons_ne_nil k []),
      hafter, Option.map_some, Option.bind_some, Doc.delete_singleton]
    rw [Doc.get_cons] at hwritten ⊢
    have hkept : (node'.removeChild index k).child index k₁ = node'.child index k₁ := by
      cases node with
      | leaf s => cases hchild
      | obj fields =>
        obtain ⟨fields', rfl⟩ := Doc.set_obj_fields hset'
        simp only [Doc.removeChild, Doc.child, Doc.lookup_filter, hne, if_false]
      | arr items =>
        have hv : (Doc.arr items).child index k = some v := by simpa using hchild
        obtain ⟨i, hk, -⟩ := Option.bind_eq_some_iff.mp hv
        obtain ⟨j, items', hj, rfl, -⟩ := Doc.set_arr_length hset'
        have hlt := (hlast parent k items i rfl hnode hk).2 k₁ rest j rfl hj
        simp [Doc.removeChild, Doc.child, hk, hj, List.getElem?_eraseIdx, hlt]
    rw [hkept]
    exact hwritten

/-- A move keeps its promise just for these nodes. -/
theorem moved_iff (hsource : data.get index source = some v) (hne : source ≠ [])
    (hset : data.set index .null target v = some written) :
    Moved data source target v (written.delete index source) ↔
      Relocatable data source target v := by
  have hsplit := List.dropLast_append_getLast hne
  generalize source.dropLast = parent at hsplit
  generalize source.getLast hne = k at hsplit
  subst hsplit
  by_cases hsame : parent ++ [k] = target
  · subst hsame
    exact iff_of_false (moved_onto hsource hne hset) fun h ↦ h.elsewhere rfl
  by_cases hin : parent ++ [k] <+: target
  · obtain ⟨below, rfl⟩ := hin
    have hbelow : below ≠ [] := by
      rintro rfl
      exact hsame (List.append_nil _).symm
    rw [moved_inwards hsource hbelow hset]
    constructor
    · intro hnext
      refine ⟨hsame, fun below' heq ↦ ?_, fun below' heq ↦ ?_,
        fun hnot ↦ absurd (List.prefix_append _ _) hnot⟩
      · have hlen := congrArg List.length heq
        have hpos := List.length_pos_of_ne_nil hbelow
        simp only [List.length_append] at hlen
        omega
      · exact List.append_cancel_left heq ▸ hnext
    · intro h
      exact h.inwards below rfl
  by_cases hout : target <+: parent ++ [k]
  · obtain ⟨below, hbelow⟩ := hout
    have hne' : below ≠ [] := by
      rintro rfl
      exact hsame (hbelow.symm.trans (List.append_nil _))
    rw [← hbelow, moved_outwards hne' hset]
    constructor
    · intro hnone
      refine ⟨fun heq ↦ ?_, fun below' heq ↦ ?_, fun below' heq ↦ ?_,
        fun _ hnot ↦ absurd (List.prefix_append _ _) hnot⟩
      · exact hsame (hbelow.symm.trans heq)
      · exact List.append_cancel_left heq ▸ hnone
      · refine absurd ?_ hin
        rw [← hbelow]
        exact ⟨below', heq.symm⟩
    · intro h
      exact h.outwards below rfl
  · constructor
    · intro hmoved
      refine ⟨hsame, fun below heq ↦ ?_, fun below heq ↦ ?_, fun _ _ ↦ ?_⟩
      · exact absurd ⟨below, heq.symm⟩ hout
      · exact absurd ⟨below, heq.symm⟩ hin
      · exact (gone_iff hsource hset hin hout).mp (hmoved.gone.resolve_left hin)
    · intro h
      have hlast := h.apart hin hout
      exact ⟨arrived_apart hsource hset hin hout hlast,
        .inr ((gone_iff hsource hset hin hout).mpr hlast), fun heq ↦ absurd heq hsame⟩

end Nodes

section Move

variable {lib : PathLibrary} {data v : Json} {fromPath toPath : Text}

/-- A move that succeeds has relocated the value; one that fails returns no document. -/
def Relocates (lib : PathLibrary) (data : Json) (fromPath toPath : Text) (v : Json) : Prop :=
  ∀ result, moveValue lib data fromPath toPath = .ok result →
    Moved data (segments fromPath) (segments toPath) v result

/-- The value is relocated just where the two paths do not overlap, but for the cases in which
nothing is lost, and the source is no element with another one after it. -/
theorem relocates_iff (hlib : lib.Exact) (hfrom : Plain fromPath) (hto : Plain toPath)
    (hfrom' : ['-', '1'] ∉ segments fromPath) (hto' : ['-', '1'] ∉ segments toPath)
    (hsource : data.get index (segments fromPath) = some v) :
    Relocates lib data fromPath toPath v ↔
      (∀ written, lib.setBytes data toPath v = .ok written →
        Relocatable data (segments fromPath) (segments toPath) v) := by
  have hne : segments fromPath ≠ [] := List.splitOn_ne_nil _ _
  have hget := hlib.get_plain hfrom data
  rw [hsource] at hget
  unfold Relocates moveValue
  rw [hget]
  dsimp only
  cases hwrite : lib.setBytes data toPath v with
  | error e => simp
  | ok written =>
    have hset := hlib.set_plain hto hto' hwrite
    have hdelete := hlib.delete_plain hfrom hfrom' written
    simp only [hdelete, Except.ok.injEq, forall_eq']
    exact moved_iff hsource hne hset

def chatModel : Json :=
  .obj [("model".toList, .leaf (.str "gpt-4o".toList)), ("n".toList, .leaf (.num 1))]

theorem plain_model : Plain "model".toList :=
  plain_word (by simp [specialChars]) (by decide) (by decide)

theorem plain_name : Plain "name".toList :=
  plain_word (by simp [specialChars]) (by decide) (by decide)

theorem relocates_model : Relocates exactLibrary chatModel "model".toList "name".toList
    (.leaf (.str "gpt-4o".toList)) := by
  refine (relocates_iff exactLibrary_exact plain_model plain_name (by decide) (by decide)
    rfl).mpr fun _ _ ↦ ?_
  have hfrom : segments "model".toList = ["model".toList] := by decide
  have hto : segments "name".toList = ["name".toList] := by decide
  rw [hfrom, hto]
  refine ⟨by decide, fun below h ↦ ?_, fun below h ↦ ?_, fun _ _ parent k items i h hitems ↦ ?_⟩
  · exact absurd (List.cons.inj h).1 (by decide)
  · exact absurd (List.cons.inj h).1 (by decide)
  · have hparent : [] ++ ["model".toList] = parent ++ [k] := h
    obtain ⟨rfl, -⟩ := List.append_inj' hparent rfl
    cases hitems

/-- A value that is moved to where it is gets lost. -/
theorem relocates_not : ¬ ∀ (lib : PathLibrary) (data v : Json) (fromPath toPath : Text),
    lib.Exact → Plain fromPath → Plain toPath → ['-', '1'] ∉ segments fromPath →
      ['-', '1'] ∉ segments toPath → data.get index (segments fromPath) = some v →
        Relocates lib data fromPath toPath v := by
  intro hall
  have hmoves := hall exactLibrary chatModel (.leaf (.str "gpt-4o".toList)) "model".toList
    "model".toList exactLibrary_exact plain_model plain_model (by decide) (by decide) rfl
  have hmoved := hmoves (.obj [("n".toList, .leaf (.num 1))]) rfl
  cases hmoved.arrived

end Move

end AllAiTools.NewApi.Relay.MoveKeeps
