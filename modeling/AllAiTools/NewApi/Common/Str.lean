import Mathlib

namespace AllAiTools.NewApi.Common.Str

/-- White space as `unicode.IsSpace` counts it. -/
def isSpace (c : Char) : Bool :=
  c.toNat ∈ [0x09, 0x0A, 0x0B, 0x0C, 0x0D, 0x20, 0x85, 0xA0, 0x1680, 0x2028, 0x2029, 0x202F,
    0x205F, 0x3000] || (0x2000 ≤ c.toNat && c.toNat ≤ 0x200A)

/-- `strings.TrimSpace`. -/
def trimSpace (s : String) : String :=
  String.ofList ((s.toList.dropWhile isSpace).reverse.dropWhile isSpace).reverse

/-- `strings.Contains`. -/
def contains (s sub : String) : Bool := sub.toList <:+: s.toList

/-- `strings.HasPrefix`. -/
def hasPrefix (s pre : String) : Bool := pre.toList <+: s.toList

/-- `strings.HasSuffix`. -/
def hasSuffix (s suf : String) : Bool := suf.toList <:+ s.toList

/-- `strings.TrimPrefix`. -/
def trimPrefix (s pre : String) : String :=
  if hasPrefix s pre then String.ofList (s.toList.drop pre.length) else s

/-- `strings.ReplaceAll` of a single character by nothing. -/
def removeAll (s : String) (c : Char) : String := String.ofList (s.toList.filter (· ≠ c))

/-- `strconv.Atoi` without its error: zero for a text that is no number, the nearest integer of
64 bits for one that is too long. -/
def atoi (s : String) : ℤ :=
  let value (digits : List Char) : ℤ :=
    if digits ≠ [] ∧ digits.all Char.isDigit then
      digits.foldl (fun n c ↦ 10 * n + (c.toNat - '0'.toNat)) 0
    else 0
  let n := match s.toList with
    | '-' :: digits => -value digits
    | '+' :: digits => value digits
    | digits => value digits
  max (-2 ^ 63) (min n (2 ^ 63 - 1))

/-- `strings.Split` at a single character. -/
def split (s : String) (sep : Char) : List String := (s.toList.splitOn sep).map String.ofList

/-- `strings.Trim` of a single character. -/
def trimChar (s : String) (c : Char) : String :=
  String.ofList ((s.toList.dropWhile (· = c)).reverse.dropWhile (· = c)).reverse

/-- The four billing preferences `NormalizeBillingPreference` can return. -/
inductive BillingPreference
  | subscriptionFirst | walletFirst | subscriptionOnly | walletOnly
  deriving DecidableEq, Repr

def normalizeBillingPreference (pref : String) : BillingPreference :=
  match trimSpace pref with
  | "subscription_first" => .subscriptionFirst
  | "wallet_first" => .walletFirst
  | "subscription_only" => .subscriptionOnly
  | "wallet_only" => .walletOnly
  | _ => .subscriptionFirst

end AllAiTools.NewApi.Common.Str
