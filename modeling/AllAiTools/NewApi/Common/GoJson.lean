import Mathlib

namespace AllAiTools.NewApi.Common.GoJson

section Types

/-- A JSON value; a number keeps its literal. -/
inductive Json
  | null
  | bool (b : Bool)
  | num (literal : String)
  | str (s : String)
  | arr (items : List Json)
  | obj (members : List (String × Json))

inductive Width
  | w8 | w16 | w32 | w64

def Width.bits : Width → ℕ
  | .w8 => 8
  | .w16 => 16
  | .w32 => 32
  | .w64 => 64

inductive FloatSize
  | float32 | float64

inductive Scalar
  | bool
  | int (w : Width)
  | uint (w : Width)
  | float (size : FloatSize)
  | string

/-- How `encoding/json` sees a field of a struct: the name it has there, if it is seen at all,
whether a tag gives that name, and whether an empty value is left out. -/
structure Tag where
  name : Option String
  tagged : Bool := true
  omitEmpty : Bool := false

/-- The types of a configuration. A slice is one of anything but bytes, which have a text of their
own in JSON. -/
inductive Ty
  | scalar (kind : Scalar)
  | ptr (elem : Ty)
  | slice (elem : Ty)
  | map (elem : Ty)
  | struct {n : ℕ} (tag : Fin n → Tag) (field : Fin n → Ty)

/-- What the standard library does with floats, and with the text of a JSON value. -/
structure Go where
  Float : FloatSize → Type
  zero (size : FloatSize) : Float size
  one (size : FloatSize) : Float size
  isZero {size : FloatSize} : Float size → Bool
  widen {size : FloatSize} : Float size → Float .float64
  narrow {size : FloatSize} : Float .float64 → Float size
  negative : Float .float64 → Bool
  truncInt : Float .float64 → ℤ
  truncUint : Float .float64 → ℕ
  parseFloat : String → Option (Float .float64)
  formatFloat : Float .float64 → String
  encodeFloat {size : FloatSize} : Float size → Option String
  decodeFloat {size : FloatSize} : String → Option (Float size)
  parse : String → Option Json
  print : Json → String
  foldName : String → String

structure Go.Laws (go : Go) : Prop where
  one_ne_zero : ∀ size, go.one size ≠ go.zero size
  narrow_widen : ∀ {size} (x : go.Float size), go.narrow (go.widen x) = x
  parse_format : ∀ x, go.parseFloat (go.formatFloat x) = some x
  decode_encode : ∀ {size} {x : go.Float size} {s}, go.encodeFloat x = some s →
    go.decodeFloat s = some x
  parse_null : go.parse "null" = some .null
  print_null : go.print .null = "null"

end Types

section Numbers

/-- `strconv.ParseInt` in base 10, to 64 bits. -/
def parseInt (s : String) : Option ℤ :=
  if '_' ∈ s.toList then none
  else
    let n := match s.toList with
      | '+' :: digits => (String.ofList digits).toNat?.map Int.ofNat
      | _ => s.toInt?
    n.filter fun n ↦ -2 ^ 63 ≤ n ∧ n < 2 ^ 63

/-- `strconv.ParseUint` in base 10, to 64 bits. -/
def parseUint (s : String) : Option ℕ :=
  if '_' ∈ s.toList then none else s.toNat?.filter (· < 2 ^ 64)

def formatInt (n : ℤ) : String := n.repr

def formatUint (n : ℕ) : String := n.repr

def parseBool (s : String) : Option Bool :=
  if s ∈ ["1", "t", "T", "true", "TRUE", "True"] then some true
  else if s ∈ ["0", "f", "F", "false", "FALSE", "False"] then some false
  else none

def formatBool (b : Bool) : String := if b then "true" else "false"

theorem parseBool_formatBool (b : Bool) : parseBool (formatBool b) = some b := by
  cases b <;> rfl

theorem isDigit_of_mem_repr {n : ℕ} {c : Char} (h : c ∈ n.repr.toList) : c.isDigit := by
  rw [Nat.toList_repr] at h
  exact Nat.isDigit_of_mem_toDigits (by norm_num) le_rfl h

theorem parseUint_formatUint {n : ℕ} (h : n < 2 ^ 64) : parseUint (formatUint n) = some n := by
  have hline : '_' ∉ (formatUint n).toList := fun hmem ↦ by
    have hdigit := isDigit_of_mem_repr hmem
    cases hdigit
  rw [parseUint, if_neg hline, formatUint, Nat.toNat?_repr, Option.filter_some,
    if_pos (decide_eq_true h)]

theorem mem_formatInt {n : ℤ} {c : Char} (h : c ∈ (formatInt n).toList) :
    c = '-' ∨ c.isDigit := by
  cases n with
  | ofNat m => exact Or.inr (isDigit_of_mem_repr h)
  | negSucc m =>
    have hrepr : (formatInt (Int.negSucc m)).toList = '-' :: (m + 1).repr.toList := by
      simp [formatInt, Int.repr]
    rw [hrepr] at h
    rcases List.mem_cons.mp h with hminus | hdigit
    · exact Or.inl hminus
    · exact Or.inr (isDigit_of_mem_repr hdigit)

theorem parseInt_formatInt {n : ℤ} (hlow : -2 ^ 63 ≤ n) (hhigh : n < 2 ^ 63) :
    parseInt (formatInt n) = some n := by
  have hline : '_' ∉ (formatInt n).toList := fun hmem ↦ by
    rcases mem_formatInt hmem with hminus | hdigit
    · cases hminus
    · cases hdigit
  have hplus : ∀ digits, (formatInt n).toList ≠ '+' :: digits := fun digits hdigits ↦ by
    have hmem : '+' ∈ (formatInt n).toList := hdigits ▸ List.mem_cons_self
    rcases mem_formatInt hmem with hminus | hdigit
    · cases hminus
    · cases hdigit
  unfold parseInt
  rw [if_neg hline]
  split
  · rename_i digits hdigits
    exact absurd hdigits (hplus digits)
  · rw [formatInt, Int.toInt?_repr, Option.filter_some, if_pos (decide_eq_true ⟨hlow, hhigh⟩)]

end Numbers

section Scalars

variable (go : Go)

@[reducible] def Scalar.Val : Scalar → Type
  | .bool => Bool
  | .int w => BitVec w.bits
  | .uint w => BitVec w.bits
  | .float size => go.Float size
  | .string => String

def Scalar.zero : (kind : Scalar) → kind.Val go
  | .bool => false
  | .int w => 0#w.bits
  | .uint w => 0#w.bits
  | .float size => go.zero size
  | .string => ""

/-- A value other than the zero value. -/
def Scalar.one : (kind : Scalar) → kind.Val go
  | .bool => true
  | .int w => 1#w.bits
  | .uint w => 1#w.bits
  | .float size => go.one size
  | .string => "1"

def Scalar.isEmpty : (kind : Scalar) → kind.Val go → Bool
  | .bool, b => !b
  | .int _, n => BitVec.toNat n == 0
  | .uint _, n => BitVec.toNat n == 0
  | .float _, x => go.isZero x
  | .string, s => String.isEmpty s

/-- A literal that is out of range is refused. -/
def decodeInt (w : Width) (literal : String) : Option (BitVec w.bits) :=
  (parseInt literal).bind fun n ↦
    if (BitVec.ofInt w.bits n).toInt = n then some (BitVec.ofInt w.bits n) else none

def decodeUint (w : Width) (literal : String) : Option (BitVec w.bits) :=
  (parseUint literal).bind fun n ↦
    if (BitVec.ofNat w.bits n).toNat = n then some (BitVec.ofNat w.bits n) else none

/-- The value a JSON value sets, if it is of the kind. -/
def Scalar.decode : (kind : Scalar) → Json → Option (kind.Val go)
  | .bool, .bool b => some b
  | .int w, .num literal => decodeInt w literal
  | .uint w, .num literal => decodeUint w literal
  | .float _, .num literal => go.decodeFloat literal
  | .string, .str s => some s
  | _, _ => none

def Scalar.encode : (kind : Scalar) → kind.Val go → Option Json
  | .bool, b => some (.bool b)
  | .int _, n => some (.num (formatInt n.toInt))
  | .uint _, n => some (.num (formatUint n.toNat))
  | .float _, x => (go.encodeFloat x).map .num
  | .string, s => some (.str s)

variable {go}

theorem Width.bits_le (w : Width) : w.bits ≤ 64 := by
  cases w <;> decide

theorem Scalar.one_ne_zero (laws : go.Laws) (kind : Scalar) : kind.one go ≠ kind.zero go := by
  have hbits (w : Width) : 1#w.bits ≠ 0#w.bits := by cases w <;> decide
  cases kind with
  | bool => exact Bool.true_eq_false_eq_False
  | int w => exact hbits w
  | uint w => exact hbits w
  | float size => exact laws.one_ne_zero size
  | string => exact (by decide : ¬"1" = "")

theorem Scalar.decode_null (kind : Scalar) : kind.decode go .null = none := by
  cases kind <;> rfl

theorem Width.toInt_bounds (w : Width) (n : BitVec w.bits) : -2 ^ 63 ≤ n.toInt ∧ n.toInt < 2 ^ 63 := by
  have hle : (2 : ℤ) ^ (w.bits - 1) ≤ 2 ^ 63 :=
    pow_le_pow_right₀ (by norm_num) (Nat.sub_le_sub_right w.bits_le 1)
  have hlow := BitVec.le_toInt n
  have hhigh : n.toInt < 2 ^ (w.bits - 1) := BitVec.toInt_lt
  constructor
  · exact le_trans (neg_le_neg hle) hlow
  · exact lt_of_lt_of_le hhigh hle

theorem Width.toNat_lt (w : Width) (n : BitVec w.bits) : n.toNat < 2 ^ 64 :=
  lt_of_lt_of_le n.isLt (Nat.pow_le_pow_right (by norm_num) w.bits_le)

theorem decodeInt_formatInt (w : Width) (n : BitVec w.bits) :
    decodeInt w (formatInt n.toInt) = some n := by
  obtain ⟨hlow, hhigh⟩ := w.toInt_bounds n
  rw [decodeInt, parseInt_formatInt hlow hhigh, Option.bind_some, BitVec.ofInt_toInt, if_pos rfl]

theorem decodeUint_formatUint (w : Width) (n : BitVec w.bits) :
    decodeUint w (formatUint n.toNat) = some n := by
  rw [decodeUint, parseUint_formatUint (w.toNat_lt n), Option.bind_some, BitVec.ofNat_toNat,
    BitVec.setWidth_eq, if_pos rfl]

theorem Scalar.decode_encode (laws : go.Laws) {kind : Scalar} {v : kind.Val go} {j : Json}
    (h : kind.encode go v = some j) : kind.decode go j = some v := by
  cases kind with
  | bool =>
    obtain rfl := Option.some.inj h
    rfl
  | int w =>
    obtain rfl := Option.some.inj h
    exact decodeInt_formatInt w v
  | uint w =>
    obtain rfl := Option.some.inj h
    exact decodeUint_formatUint w v
  | float size =>
    obtain ⟨literal, hliteral, rfl⟩ := Option.map_eq_some_iff.mp h
    exact laws.decode_encode hliteral
  | string =>
    obtain rfl := Option.some.inj h
    rfl

end Scalars

end AllAiTools.NewApi.Common.GoJson
