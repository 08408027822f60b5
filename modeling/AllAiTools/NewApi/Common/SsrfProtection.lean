import AllAiTools.NewApi.Common.Address

namespace AllAiTools.NewApi.Common.SsrfProtection

open Str Address

structure SSRFProtection where
  allowPrivateIp : Bool
  domainFilterMode : Bool
  domainList : List String
  ipFilterMode : Bool
  ipList : List String
  allowedPorts : List ℤ
  applyIPFilterForDomain : Bool

structure Url where
  scheme : String
  host : String

/-- What the URL parser, the resolver and `strings.ToLower` give. -/
structure Net where
  parse : String → Except String Url
  lookupIP : String → Except String (List IP)
  toLower : String → String

/-- Why a URL is refused, with what the message says. -/
inductive Refusal where
  | invalidURLFormat (e : String)
  | unsupportedProtocol (scheme : String)
  | invalidPort (port : String)
  | portNotAllowed (port : ℤ)
  | privateIP (ip : IP)
  | ipNotInWhitelist (ip : IP)
  | ipInBlacklist (ip : IP)
  | domainNotInWhitelist (host : String)
  | domainInBlacklist (host : String)
  | dnsResolutionFailed (host e : String)
  | resolvesToPrivateIP (host : String) (ip : IP)
  | resolvesOutsideWhitelist (host : String) (ip : IP)
  | resolvesIntoBlacklist (host : String) (ip : IP)

section Addresses

def privateIPv4Nets : List IPNet :=
  [net4 0 0 0 0 8, net4 10 0 0 0 8, net4 100 64 0 0 10, net4 127 0 0 0 8, net4 169 254 0 0 16,
    net4 172 16 0 0 12, net4 192 0 0 0 24, net4 192 0 2 0 24, net4 192 168 0 0 16,
    net4 198 18 0 0 15, net4 198 51 100 0 24, net4 203 0 113 0 24, net4 224 0 0 0 4,
    net4 240 0 0 0 4, net4 255 255 255 255 32]

def privateIPv6Nets : List IPNet :=
  [⟨ofGroups [0, 0, 0, 0, 0, 0, 0, 0], 128⟩, ⟨ofGroups [0, 0, 0, 0, 0, 0, 0, 1], 128⟩,
    ⟨ofGroups [0, 0, 0, 0, 0, 0xffff, 0, 0], 96⟩, ⟨ofGroups [0x64, 0xff9b, 0, 0, 0, 0, 0, 0], 96⟩,
    ⟨ofGroups [0x100, 0, 0, 0, 0, 0, 0, 0], 64⟩, ⟨ofGroups [0x2001, 0, 0, 0, 0, 0, 0, 0], 23⟩,
    ⟨ofGroups [0x2001, 0xdb8, 0, 0, 0, 0, 0, 0], 32⟩, ⟨ofGroups [0xfc00, 0, 0, 0, 0, 0, 0, 0], 7⟩,
    ⟨ofGroups [0xfe80, 0, 0, 0, 0, 0, 0, 0], 10⟩, ⟨ofGroups [0xff00, 0, 0, 0, 0, 0, 0, 0], 8⟩]

def isPrivateIP (ip : IP) : Bool :=
  if ip.isUnspecified then true
  else if ip.isLoopback || ip.isLinkLocalUnicast || ip.isLinkLocalMulticast then true
  else if ip.isInterfaceLocalMulticast then true
  else if ip.isV4 then privateIPv4Nets.any (·.contains ip)
  else privateIPv6Nets.any (·.contains ip) || ip.isPrivate

variable (p : SSRFProtection)

def isIPAccessAllowed (ip : IP) : Bool :=
  if isPrivateIP ip && !p.allowPrivateIp then false
  else
    let listed := isIpInCIDRList ip p.ipList
    if p.ipFilterMode then listed else !listed

def isAllowedPort (port : ℤ) : Bool := p.allowedPorts = [] || port ∈ p.allowedPorts

end Addresses

section Domains

variable (net : Net) (p : SSRFProtection)

/-- A domain in lower case against an entry as it is compared. -/
def matchesEntry (domain item : String) : Bool :=
  domain = item ||
    (hasPrefix item "*." &&
      (hasSuffix domain ("." ++ trimPrefix item "*.") || domain = trimPrefix item "*."))

/-- The entries of a list as they are compared, empty ones left out. -/
def entries (list : List String) : List String :=
  (list.map fun item ↦ net.toLower (trimSpace item)).filter (· ≠ "")

def isDomainListed (domain : String) (list : List String) : Bool :=
  (entries net list).any (matchesEntry (net.toLower domain))

def isDomainAllowed (domain : String) : Bool :=
  let listed := isDomainListed net domain p.domainList
  if p.domainFilterMode then listed else !listed

end Domains

section Hosts

/-- The text before and after the last colon. -/
def splitLastColon (s : List Char) : Option (List Char × List Char) :=
  match s.reverse.dropWhile (· ≠ ':') with
  | _ :: before => some (before.reverse, (s.reverse.takeWhile (· ≠ ':')).reverse)
  | [] => none

/-- `net.SplitHostPort`, without its errors. -/
def splitHostPort (hostport : String) : Option (String × String) :=
  match splitLastColon hostport.toList with
  | none => none
  | some (before, port) =>
    if '[' ∈ port ∨ ']' ∈ port then none
    else match before with
      | '[' :: inner =>
        if inner.getLast? = some ']' ∧ '[' ∉ inner ∧ ']' ∉ inner.dropLast then
          some (String.ofList inner.dropLast, String.ofList port)
        else none
      | _ =>
        if ':' ∈ before ∨ '[' ∈ before ∨ ']' ∈ before then none
        else some (String.ofList before, String.ofList port)

/-- `URL.Hostname`. -/
def hostname (u : Url) : String :=
  let host := match splitLastColon u.host.toList with
    | some (before, port) => if port.all Char.isDigit then before else u.host.toList
    | none => u.host.toList
  match host with
  | '[' :: inner =>
    if inner.getLast? = some ']' then String.ofList inner.dropLast else String.ofList host
  | _ => String.ofList host

/-- The host and the port of a URL, with the default port of its scheme. -/
def hostPort (u : Url) : String × String :=
  match splitHostPort u.host with
  | some (host, port) => (host, port)
  | none => (hostname u, if u.scheme = "https" then "443" else "80")

/-- `strconv.Atoi`. -/
def parseInt (s : String) : Option ℤ :=
  let digits := match s.toList with
    | '-' :: digits | '+' :: digits | digits => digits
  if digits = [] ∨ ¬digits.all Char.isDigit ∨ 2 ^ 63 ≤ decimal digits then none else some (atoi s)

end Hosts

section Validation

variable (net : Net) (p : SSRFProtection)

/-- The filter of an address the host is, or resolves to, with the refusal of a private one where
that is the reason to name. -/
def checkIP (ip : IP) (isPrivate : Bool) (asPrivate whitelist blacklist : Refusal) :
    Except Refusal Unit :=
  if isIPAccessAllowed p ip then .ok ()
  else if isPrivate then .error asPrivate
  else if p.ipFilterMode then .error whitelist
  else .error blacklist

def checkLookup (host : String) : List IP → Except Refusal Unit
  | [] => .ok ()
  | ip :: ips => do
    checkIP p ip (isPrivateIP ip && !p.allowPrivateIp) (.resolvesToPrivateIP host ip)
      (.resolvesOutsideWhitelist host ip) (.resolvesIntoBlacklist host ip)
    checkLookup host ips

def checkDomain (host : String) : Except Refusal Unit :=
  if ¬isDomainAllowed net p host then
    if p.domainFilterMode then .error (.domainNotInWhitelist host)
    else .error (.domainInBlacklist host)
  else .ok ()

def checkName (host : String) : Except Refusal Unit := do
  checkDomain net p host
  if ¬p.applyIPFilterForDomain then return ()
  match net.lookupIP host with
  | .error e => .error (.dnsResolutionFailed host e)
  | .ok ips => checkLookup p host ips

def checkPort (u : Url) : Except Refusal Unit :=
  match parseInt (hostPort u).2 with
  | none => .error (.invalidPort (hostPort u).2)
  | some port => if isAllowedPort p port then .ok () else .error (.portNotAllowed port)

def checkScheme (u : Url) : Except Refusal Unit :=
  if u.scheme ≠ "http" ∧ u.scheme ≠ "https" then .error (.unsupportedProtocol u.scheme) else .ok ()

def validateURL (urlStr : String) : Except Refusal Unit := do
  let u ← (net.parse urlStr).mapError .invalidURLFormat
  checkScheme u
  checkPort p u
  let host := (hostPort u).1
  match parseIP host with
  | some ip =>
    checkIP p ip (isPrivateIP ip) (.privateIP ip) (.ipNotInWhitelist ip) (.ipInBlacklist ip)
  | none => checkName net p host

end Validation

end AllAiTools.NewApi.Common.SsrfProtection
