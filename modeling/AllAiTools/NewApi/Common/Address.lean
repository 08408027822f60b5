import AllAiTools.NewApi.Common.Str

namespace AllAiTools.NewApi.Common.Address

/-- An address in its form of sixteen bytes, as `net.IP` compares it. -/
abbrev IP := Fin (2 ^ 128)

section Addresses

/-- The addresses that stand for one of version four, `::ffff:0:0` to `::ffff:ffff:ffff`. -/
def mapped : ℕ := 0xffff * 2 ^ 32

def IP.isV4 (ip : IP) : Bool := ip.val / 2 ^ 32 = 0xffff

/-- The `i`-th of the sixteen bytes. -/
def IP.byte (ip : IP) (i : ℕ) : ℕ := ip.val / 256 ^ (15 - i) % 256

/-- `net.IPv4`. -/
def ipv4 (a b c d : ℕ) : IP := Fin.ofNat _ (mapped + ((a * 256 + b) * 256 + c) * 256 + d)

/-- An address of eight groups. -/
def ofGroups (groups : List ℕ) : IP := Fin.ofNat _ (groups.foldl (fun n g ↦ n * 65536 + g) 0)

def IP.isUnspecified (ip : IP) : Bool := ip.val = mapped || ip.val = 0

def IP.isLoopback (ip : IP) : Bool := if ip.isV4 then ip.byte 12 = 127 else ip.val = 1

def IP.isLinkLocalUnicast (ip : IP) : Bool :=
  if ip.isV4 then ip.byte 12 = 169 && ip.byte 13 = 254
  else ip.byte 0 = 0xfe && ip.byte 1 / 64 = 2

def IP.isLinkLocalMulticast (ip : IP) : Bool :=
  if ip.isV4 then ip.byte 12 = 224 && ip.byte 13 = 0 && ip.byte 14 = 0
  else ip.byte 0 = 0xff && ip.byte 1 % 16 = 2

def IP.isInterfaceLocalMulticast (ip : IP) : Bool := ip.byte 0 = 0xff && ip.byte 1 % 16 = 1

def IP.isPrivate (ip : IP) : Bool :=
  if ip.isV4 then
    ip.byte 12 = 10 || (ip.byte 12 = 172 && ip.byte 13 / 16 = 1) ||
      (ip.byte 12 = 192 && ip.byte 13 = 168)
  else ip.byte 0 / 2 = 0xfc / 2

end Addresses

section Parsing

def isHex (c : Char) : Bool :=
  c.isDigit || ('a' ≤ c && c ≤ 'f') || ('A' ≤ c && c ≤ 'F')

def hexValue (c : Char) : ℕ :=
  if c.isDigit then c.toNat - '0'.toNat
  else if 'a' ≤ c then c.toNat - 'a'.toNat + 10
  else c.toNat - 'A'.toNat + 10

def decimal (digits : List Char) : ℕ := digits.foldl (fun n c ↦ 10 * n + (c.toNat - '0'.toNat)) 0

def parseOctet (field : List Char) : Option ℕ :=
  if field = [] ∨ ¬field.all Char.isDigit ∨ (1 < field.length ∧ field.head? = some '0') ∨
      255 < decimal field then none
  else some (decimal field)

/-- Four decimal fields without leading zeros. -/
def parseIPv4Fields (s : List Char) : Option (ℕ × ℕ × ℕ × ℕ) :=
  match (s.splitOn '.').map parseOctet with
  | [some a, some b, some c, some d] => some (a, b, c, d)
  | _ => none

def parseGroup (field : List Char) : Option ℕ :=
  if 1 ≤ field.length ∧ field.length ≤ 4 ∧ field.all isHex then
    some (field.foldl (fun n c ↦ 16 * n + hexValue c) 0)
  else none

/-- The groups between colons; the last may be the end of the address and be of version four. -/
def parseGroups (atEnd : Bool) : List (List Char) → Option (List ℕ)
  | [] => some []
  | [field] =>
    if atEnd ∧ '.' ∈ field then
      (parseIPv4Fields field).map fun (a, b, c, d) ↦ [a * 256 + b, c * 256 + d]
    else (parseGroup field).map ([·])
  | field :: fields => do return (← parseGroup field) :: (← parseGroups atEnd fields)

/-- The text before and after the first `::`. -/
def splitEllipsis : List Char → Option (List Char × List Char)
  | ':' :: ':' :: rest => some ([], rest)
  | c :: rest => (splitEllipsis rest).map fun (before, after) ↦ (c :: before, after)
  | [] => none

def fieldsOf (s : List Char) : List (List Char) := if s = [] then [] else s.splitOn ':'

def parseIPv6 (s : List Char) : Option IP :=
  match splitEllipsis s with
  | none => do
    let groups ← parseGroups true (s.splitOn ':')
    if groups.length = 8 then some (ofGroups groups) else none
  | some (before, after) => do
    let left ← parseGroups false (fieldsOf before)
    let right ← parseGroups true (fieldsOf after)
    if left.length + right.length < 8 then
      some (ofGroups (left ++ List.replicate (8 - left.length - right.length) 0 ++ right))
    else none

/-- The address and the number of bits its text is about; one with a zone is no address here. -/
def parseAddr (s : List Char) : Option (IP × ℕ) :=
  match s.find? (fun c ↦ c = '.' || c = ':' || c = '%') with
  | some '.' => (parseIPv4Fields s).map fun (a, b, c, d) ↦ (ipv4 a b c d, 32)
  | some ':' => (parseIPv6 s).map (·, 128)
  | _ => none

/-- `net.ParseIP`. -/
def parseIP (s : String) : Option IP := (parseAddr s.toList).map (·.1)

end Parsing

section Networks

/-- A network by its address and the number of leading bits, of 128, that it fixes. -/
structure IPNet where
  ip : IP
  ones : ℕ

/-- `IPNet.Contains`: a network of one version has no address of the other. -/
def IPNet.contains (net : IPNet) (ip : IP) : Bool :=
  net.ip.isV4 = ip.isV4 && ip.val / 2 ^ (128 - net.ones) = net.ip.val / 2 ^ (128 - net.ones)

def net4 (a b c d ones : ℕ) : IPNet := ⟨ipv4 a b c d, 96 + ones⟩

/-- `net.ParseCIDR`, with the bits after the prefix cleared. -/
def parseCIDR (s : String) : Option IPNet :=
  let addr := s.toList.takeWhile (· ≠ '/')
  match s.toList.dropWhile (· ≠ '/') with
  | '/' :: mask => match parseAddr addr with
    | none => none
    | some (ip, bits) =>
      if mask = [] ∨ ¬mask.all Char.isDigit ∨ bits < decimal mask then none
      else
        let ones := 128 - bits + decimal mask
        some ⟨Fin.ofNat _ (ip.val / 2 ^ (128 - ones) * 2 ^ (128 - ones)), ones⟩
  | _ => none

def isIpInCIDRList (ip : IP) (cidrList : List String) : Bool :=
  cidrList.any fun cidr ↦ match parseCIDR cidr with
    | some network => network.contains ip
    | none => parseIP cidr = some ip

example : parseIP "::ffff:127.0.0.1" = parseIP "127.0.0.1" := by decide +kernel

end Networks

end AllAiTools.NewApi.Common.Address
