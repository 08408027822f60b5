import AllAiTools.NewApi.Common.GoJson

namespace AllAiTools.NewApi.Common.GoJson

section Memory

abbrev Entries (α : Type) : Type := Std.ExtTreeMap String α compare

variable (go : Go)

/-- A variable of the type. Of a slice it also keeps what stands in its memory behind its end. -/
@[reducible] def Ty.Cell : Ty → Type
  | .scalar kind => kind.Val go
  | .ptr t => Option t.Cell
  | .slice t => Option (List t.Cell × List t.Cell)
  | .map t => Option (Entries t.Cell)
  | .struct _ field => ∀ i, (field i).Cell

/-- What a program sees of such a variable. -/
@[reducible] def Ty.Value : Ty → Type
  | .scalar kind => kind.Val go
  | .ptr t => Option t.Value
  | .slice t => Option (List t.Value)
  | .map t => Option (Entries t.Value)
  | .struct _ field => ∀ i, (field i).Value

def Ty.zero : (t : Ty) → t.Cell go
  | .scalar kind => kind.zero go
  | .ptr _ => none
  | .slice _ => none
  | .map _ => none
  | .struct _ field => fun i ↦ (field i).zero

def Ty.read : (t : Ty) → t.Cell go → t.Value go
  | .scalar _, c => c
  | .ptr t, c => Option.map t.read c
  | .slice t, c => Option.map (fun s : List (t.Cell go) × List (t.Cell go) ↦ s.1.map t.read) c
  | .map t, c => Option.map (fun entries : Entries (t.Cell go) ↦ entries.map fun _ c ↦ t.read c) c
  | .struct _ field, c => fun i ↦ (field i).read (c i)

end Memory

section Fields

variable {n : ℕ}

/-- The name of a field. Fields of one name hide each other, unless a tag gives it to one only. -/
def seen (tag : Fin n → Tag) (i : Fin n) : Option String :=
  (tag i).name.filter fun name ↦ ∀ j, j ≠ i → (tag j).name = some name →
    (tag i).tagged ∧ ¬(tag j).tagged

variable (go : Go)

/-- The field a member of an object is for. -/
def resolve (tag : Fin n → Tag) (key : String) : Option (Fin n) :=
  ((List.finRange n).find? fun i ↦ seen tag i = some key).or
    ((List.finRange n).find? fun i ↦ (seen tag i).map go.foldName = some (go.foldName key))

/-- The values that a JSON value has for a field, in their order. -/
def select (tag : Fin n → Tag) (i : Fin n) : Json → List Json
  | .obj members => (members.filter fun m ↦ resolve go tag m.1 = some i).map (·.2)
  | _ => []

end Fields

section Decode

variable {α : Type}

/-- The values of an array, each decoded into the variable that stands at its place. -/
def decodeItems (decode : Json → α → α) (zero : α) : List Json → List α → List α
  | [], memory => memory
  | j :: js, memory => decode j (memory.headD zero) :: decodeItems decode zero js memory.tail

variable (go : Go)

/-- `json.Unmarshal` of a value into a variable. What does not fit is passed over. -/
def Ty.decode : (t : Ty) → Json → t.Cell go → t.Cell go
  | .scalar kind => fun j c ↦ (kind.decode go j).getD c
  | .ptr t => fun j c ↦
    match j with
    | .null => none
    | j => some (t.decode j (Option.getD c (t.zero go)))
  | .slice t => fun j c ↦
    match j with
    | .null => none
    | .arr [] => some ([], [])
    | .arr items =>
      let memory := decodeItems t.decode (t.zero go) items (Option.elim c [] fun s ↦ s.1 ++ s.2)
      some (memory.take items.length, memory.drop items.length)
    | _ => c
  | .map t => fun j c ↦
    match j with
    | .null => none
    | .obj members => some (members.foldl (fun entries member ↦
        entries.insert member.1 (t.decode member.2 (t.zero go))) (Option.getD c ∅))
    | _ => c
  | .struct tag field => fun j c i ↦
    (select go tag i j).foldl (fun c j ↦ (field i).decode j c) (c i)

def Json.isNull : Json → Bool
  | .null => true
  | _ => false

/-- The value is decoded without an error. -/
def Ty.valid : Ty → Json → Bool
  | .scalar kind => fun j ↦ j.isNull || (kind.decode go j).isSome
  | .ptr t => fun j ↦ j.isNull || t.valid j
  | .slice t => fun j ↦
    match j with
    | .null => true
    | .arr items => items.all t.valid
    | _ => false
  | .map t => fun j ↦
    match j with
    | .null => true
    | .obj members => members.all fun member ↦ t.valid member.2
    | _ => false
  | .struct (n := n) tag field => fun j ↦
    match j with
    | .null => true
    | .obj members =>
      (List.finRange n).all fun i ↦ (select go tag i (.obj members)).all (field i).valid
    | _ => false

/-- Values decoded one after another. -/
def Ty.decodeAll (t : Ty) (js : List Json) (c : t.Cell go) : t.Cell go :=
  js.foldl (fun c j ↦ t.decode go j c) c

end Decode

end AllAiTools.NewApi.Common.GoJson
