import AllAiTools.Foundation.Result
import AllAiTools.NewApi.Common.SsrfProtection

namespace AllAiTools.NewApi.Common.SsrfCovers

open Foundation.Result Str Address SsrfProtection

section Ranges

/-- The first and the last address of each private, loopback, link-local, unspecified, multicast
or reserved range of version four. -/
def ranges4 : List (IP × IP) :=
  [(ipv4 0 0 0 0, ipv4 0 255 255 255), (ipv4 10 0 0 0, ipv4 10 255 255 255),
    (ipv4 100 64 0 0, ipv4 100 127 255 255), (ipv4 127 0 0 0, ipv4 127 255 255 255),
    (ipv4 169 254 0 0, ipv4 169 254 255 255), (ipv4 172 16 0 0, ipv4 172 31 255 255),
    (ipv4 192 0 0 0, ipv4 192 0 0 255), (ipv4 192 0 2 0, ipv4 192 0 2 255),
    (ipv4 192 168 0 0, ipv4 192 168 255 255), (ipv4 198 18 0 0, ipv4 198 19 255 255),
    (ipv4 198 51 100 0, ipv4 198 51 100 255), (ipv4 203 0 113 0, ipv4 203 0 113 255),
    (ipv4 224 0 0 0, ipv4 239 255 255 255), (ipv4 240 0 0 0, ipv4 255 255 255 255)]

/-- The ranges of version six. -/
def ranges6 : List (IP × IP) :=
  [(ofGroups [0, 0, 0, 0, 0, 0, 0, 0], ofGroups [0, 0, 0, 0, 0, 0, 0, 0]),
    (ofGroups [0, 0, 0, 0, 0, 0, 0, 1], ofGroups [0, 0, 0, 0, 0, 0, 0, 1]),
    (ofGroups [0x64, 0xff9b, 0, 0, 0, 0, 0, 0], ofGroups [0x64, 0xff9b, 0, 0, 0, 0, 0xffff, 0xffff]),
    (ofGroups [0x100, 0, 0, 0, 0, 0, 0, 0],
      ofGroups [0x100, 0, 0, 0, 0xffff, 0xffff, 0xffff, 0xffff]),
    (ofGroups [0x2001, 0, 0, 0, 0, 0, 0, 0],
      ofGroups [0x2001, 0x1ff, 0xffff, 0xffff, 0xffff, 0xffff, 0xffff, 0xffff]),
    (ofGroups [0x2001, 0xdb8, 0, 0, 0, 0, 0, 0],
      ofGroups [0x2001, 0xdb8, 0xffff, 0xffff, 0xffff, 0xffff, 0xffff, 0xffff]),
    (ofGroups [0xfc00, 0, 0, 0, 0, 0, 0, 0],
      ofGroups [0xfdff, 0xffff, 0xffff, 0xffff, 0xffff, 0xffff, 0xffff, 0xffff]),
    (ofGroups [0xfe80, 0, 0, 0, 0, 0, 0, 0],
      ofGroups [0xfebf, 0xffff, 0xffff, 0xffff, 0xffff, 0xffff, 0xffff, 0xffff]),
    (ofGroups [0xff00, 0, 0, 0, 0, 0, 0, 0],
      ofGroups [0xffff, 0xffff, 0xffff, 0xffff, 0xffff, 0xffff, 0xffff, 0xffff])]

def Forbidden (ip : IP) : Prop := ∃ r ∈ ranges4 ++ ranges6, r.1 ≤ ip ∧ ip ≤ r.2

/-- A range is the block of addresses of a network. -/
def Block (r : IP × IP) (net : IPNet) : Prop :=
  net.ip = r.1 ∧ r.2.val + 1 = r.1.val + 2 ^ (128 - net.ones) ∧
    r.1.val % 2 ^ (128 - net.ones) = 0

instance (r : IP × IP) (net : IPNet) : Decidable (Block r net) :=
  inferInstanceAs (Decidable (_ ∧ _ ∧ _))

theorem isV4_iff (ip : IP) : ip.isV4 = true ↔ mapped ≤ ip.val ∧ ip.val < mapped + 2 ^ 32 := by
  simp only [IP.isV4, mapped, decide_eq_true_eq]
  omega

theorem ranges4_blocks {r : IP × IP} (hr : r ∈ ranges4) : ∃ net ∈ privateIPv4Nets,
    Block r net ∧ mapped ≤ r.1.val ∧ r.2.val < mapped + 2 ^ 32 := by
  have hall : ranges4.all (fun r ↦ decide (∃ net ∈ privateIPv4Nets,
      Block r net ∧ mapped ≤ r.1.val ∧ r.2.val < mapped + 2 ^ 32)) = true := by decide +kernel
  exact of_decide_eq_true (List.all_eq_true.mp hall r hr)

theorem ranges6_blocks {r : IP × IP} (hr : r ∈ ranges6) : ∃ net ∈ privateIPv6Nets,
    Block r net ∧ (r.2.val < mapped ∨ mapped + 2 ^ 32 ≤ r.1.val) := by
  have hall : ranges6.all (fun r ↦ decide (∃ net ∈ privateIPv6Nets,
      Block r net ∧ (r.2.val < mapped ∨ mapped + 2 ^ 32 ≤ r.1.val))) = true := by decide +kernel
  exact of_decide_eq_true (List.all_eq_true.mp hall r hr)

/-- The network of a range contains its addresses, where both are of one version. -/
theorem contains_of_block {r : IP × IP} {net : IPNet} {ip : IP} (h : Block r net)
    (hv : net.ip.isV4 = ip.isV4) (hfirst : r.1 ≤ ip) (hlast : ip ≤ r.2) :
    net.contains ip = true := by
  obtain ⟨hip, hlen, halign⟩ := h
  have hf : r.1.val ≤ ip.val := hfirst
  have hl : ip.val ≤ r.2.val := hlast
  have hdiv : ip.val / 2 ^ (128 - net.ones) = r.1.val / 2 ^ (128 - net.ones) := by
    have hr := Nat.div_add_mod r.1.val (2 ^ (128 - net.ones))
    rw [halign, Nat.add_zero] at hr
    have hpos : 0 < 2 ^ (128 - net.ones) := Nat.two_pow_pos _
    rw [Nat.div_eq_iff hpos]
    rw [Nat.mul_comm] at hr
    omega
  rw [hip] at hv
  simp only [IPNet.contains, hip, hv, hdiv, decide_true, Bool.and_self]

theorem isPrivateIP_of_nets {ip : IP}
    (h : if ip.isV4 then privateIPv4Nets.any (·.contains ip)
      else privateIPv6Nets.any (·.contains ip)) : isPrivateIP ip = true := by
  by_cases hv : ip.isV4 = true
  · rw [if_pos hv] at h
    simp [isPrivateIP, hv, h]
  · rw [if_neg hv] at h
    simp [isPrivateIP, hv, h]

/-- Every address of the ranges is taken for private. -/
theorem isPrivateIP_of_forbidden {ip : IP} (h : Forbidden ip) : isPrivateIP ip = true := by
  obtain ⟨r, hr, hfirst, hlast⟩ := h
  have hf : r.1.val ≤ ip.val := hfirst
  have hl : ip.val ≤ r.2.val := hlast
  apply isPrivateIP_of_nets
  rcases List.mem_append.mp hr with hr | hr
  · obtain ⟨net, hnet, hblock, hlow, hhigh⟩ := ranges4_blocks hr
    have hv : ip.isV4 = true := (isV4_iff ip).mpr ⟨by omega, by omega⟩
    have hnv : net.ip.isV4 = true := by
      rw [hblock.1, isV4_iff]
      omega
    rw [if_pos hv]
    exact List.any_eq_true.mpr ⟨net, hnet, contains_of_block hblock (hnv.trans hv.symm) hfirst hlast⟩
  · obtain ⟨net, hnet, hblock, hout⟩ := ranges6_blocks hr
    have hv : ¬ip.isV4 = true := by
      rw [isV4_iff]
      omega
    have hnv : ¬net.ip.isV4 = true := by
      rw [hblock.1, isV4_iff]
      omega
    rw [if_neg hv]
    refine List.any_eq_true.mpr ⟨net, hnet, contains_of_block hblock ?_ hfirst hlast⟩
    rw [Bool.eq_false_iff.mpr hv, Bool.eq_false_iff.mpr hnv]

end Ranges

section Names

/-- A name is written with the dot of the root at its end. -/
def dotted (name : String) : Bool := name.toList.getLast? = some '.'

/-- The name without that dot. -/
def undotted (name : String) : String :=
  if dotted name then String.ofList name.toList.dropLast else name

def dot (name : String) : List Char := if dotted name then ['.'] else []

theorem toList_undotted (name : String) : name.toList = (undotted name).toList ++ dot name := by
  by_cases h : dotted name = true
  · have hlast : name.toList.getLast? = some '.' := by simpa [dotted] using h
    rw [undotted, dot, if_pos h, if_pos h, String.toList_ofList]
    obtain ⟨init, hinit⟩ := List.getLast?_eq_some_iff.mp hlast
    rw [hinit, List.dropLast_concat]
  · rw [undotted, dot, if_neg h, if_neg h, List.append_nil]

theorem dot_congr {a b : String} (h : dotted a = dotted b) : dot a = dot b := by
  rw [dot, dot, h]

theorem eq_iff_undotted (a b : String) :
    a = b ↔ undotted a = undotted b ∧ dotted a = dotted b := by
  constructor
  · rintro rfl
    exact ⟨rfl, rfl⟩
  · rintro ⟨hname, hdot⟩
    rw [← String.toList_inj, toList_undotted a, toList_undotted b, hname, dot_congr hdot]

/-- A subdomain as it is spelled is one without its dot, where both end alike. -/
theorem hasSuffix_iff_undotted {suffix : String} (hs : suffix ≠ "") (name : String) :
    hasSuffix name ("." ++ suffix) = true ↔
      hasSuffix (undotted name) ("." ++ undotted suffix) = true ∧ dotted name = dotted suffix := by
  have hne : suffix.toList ≠ [] := by simpa using hs
  have hdrop (h : dotted name = dotted suffix) :
      hasSuffix name ("." ++ suffix) = true ↔
        hasSuffix (undotted name) ("." ++ undotted suffix) = true := by
    simp only [hasSuffix, String.toList_append, decide_eq_true_eq]
    rw [toList_undotted name, toList_undotted suffix, dot_congr h, ← List.append_assoc]
    constructor
    · rintro ⟨before, he⟩
      rw [← List.append_assoc] at he
      exact ⟨before, List.append_cancel_right he⟩
    · rintro ⟨before, he⟩
      exact ⟨before, by rw [← List.append_assoc, he]⟩
  constructor
  · intro h
    have hdot : dotted name = dotted suffix := by
      obtain ⟨before, he⟩ : ("." ++ suffix).toList <:+ name.toList := by simpa [hasSuffix] using h
      rw [dotted, dotted, ← he, String.toList_append, List.getLast?_append_of_ne_nil _ (by simp),
        List.getLast?_append_of_ne_nil _ hne]
    exact ⟨(hdrop hdot).mp h, hdot⟩
  · rintro ⟨h, hdot⟩
    exact (hdrop hdot).mpr h

/-- What an entry of the list stands for: a domain, or after `*.` a domain with all that is under
it. -/
def Covers (name entry : String) : Prop :=
  undotted name = undotted entry ∨ ∃ suffix, suffix ≠ "" ∧ entry = "*." ++ suffix ∧
    (hasSuffix (undotted name) ("." ++ undotted suffix) = true ∨ undotted name = undotted suffix)

/-- A name is a listed domain or lies under a listed `*.` entry, a dot at an end aside. -/
def Denotes (name entry : String) : Prop :=
  undotted name = undotted entry ∨ ∃ suffix, suffix ≠ "" ∧ entry = "*." ++ suffix ∧
    hasSuffix (undotted name) ("." ++ undotted suffix) = true

theorem dotted_wildcard {suffix : String} (hs : suffix ≠ "") :
    dotted ("*." ++ suffix) = dotted suffix := by
  have hne : suffix.toList ≠ [] := by simpa using hs
  rw [dotted, dotted, String.toList_append, List.getLast?_append_of_ne_nil _ hne]

theorem hasPrefix_iff (s pre : String) :
    hasPrefix s pre = true ↔ s = pre ++ trimPrefix s pre := by
  constructor
  · intro h
    obtain ⟨rest, he⟩ : pre.toList <+: s.toList := by simpa [hasPrefix] using h
    rw [trimPrefix, if_pos h, ← String.toList_inj, String.toList_append, String.toList_ofList,
      ← he, ← String.length_toList, List.drop_left]
  · intro h
    rw [h]
    simp [hasPrefix]

theorem hasSuffix_dot (name : String) : hasSuffix name "." = true ↔ dotted name = true := by
  simp only [hasSuffix, dotted, decide_eq_true_eq, List.getLast?_eq_some_iff]
  constructor
  · rintro ⟨before, he⟩
    exact ⟨before, he.symm⟩
  · rintro ⟨before, he⟩
    exact ⟨before, he.symm⟩

theorem matchesEntry_wildcard (name suffix : String) :
    matchesEntry name ("*." ++ suffix) = true ↔
      name = "*." ++ suffix ∨ hasSuffix name ("." ++ suffix) = true ∨ name = suffix := by
  have hpre : hasPrefix ("*." ++ suffix) "*." = true := by simp [hasPrefix]
  have htrim : trimPrefix ("*." ++ suffix) "*." = suffix := by
    have h := (hasPrefix_iff _ _).mp hpre
    rw [← String.toList_inj, String.toList_append, String.toList_append] at h
    exact String.toList_inj.mp (List.append_cancel_left h).symm
  simp [matchesEntry, hpre, htrim]

theorem matchesEntry_plain {entry : String} (h : ¬hasPrefix entry "*." = true) (name : String) :
    matchesEntry name entry = true ↔ name = entry := by
  simp [matchesEntry, h]

/-- An entry matches a name exactly where it covers it and both end alike; the bare `*.` matches
what ends in a dot. -/
theorem matchesEntry_iff (name entry : String) : matchesEntry name entry = true ↔
    (Covers name entry ∧ dotted name = dotted entry) ∨
      (entry = "*." ∧ (dotted name = true ∨ name = "")) := by
  by_cases hpre : hasPrefix entry "*." = true
  · obtain ⟨suffix, rfl⟩ : ∃ suffix, entry = "*." ++ suffix := ⟨_, (hasPrefix_iff _ _).mp hpre⟩
    rw [matchesEntry_wildcard]
    by_cases hs : suffix = ""
    · subst hs
      rw [show "." ++ "" = "." from rfl, hasSuffix_dot]
      constructor
      · rintro (rfl | h | h)
        · exact .inr ⟨rfl, .inl rfl⟩
        · exact .inr ⟨rfl, .inl h⟩
        · exact .inr ⟨rfl, .inr h⟩
      · rintro (⟨_, h⟩ | ⟨_, h⟩)
        · exact .inr (.inl h)
        · exact .inr h
    · have hne : "*." ++ suffix ≠ "*." := by simpa using hs
      rw [hasSuffix_iff_undotted hs, eq_iff_undotted name ("*." ++ suffix),
        eq_iff_undotted name suffix, dotted_wildcard hs]
      constructor
      · rintro (⟨h, hdot⟩ | ⟨h, hdot⟩ | ⟨h, hdot⟩)
        · exact .inl ⟨.inl h, hdot⟩
        · exact .inl ⟨.inr ⟨suffix, hs, rfl, .inl h⟩, hdot⟩
        · exact .inl ⟨.inr ⟨suffix, hs, rfl, .inr h⟩, hdot⟩
      · rintro (⟨h | ⟨suffix', _, he, h⟩, hdot⟩ | ⟨h, _⟩)
        · exact .inl ⟨h, hdot⟩
        · obtain rfl : suffix' = suffix := by
            rw [← String.toList_inj, String.toList_append, String.toList_append] at he
            exact String.toList_inj.mp (List.append_cancel_left he).symm
          rcases h with h | h
          · exact .inr (.inl ⟨h, hdot⟩)
          · exact .inr (.inr ⟨h, hdot⟩)
        · exact absurd h hne
  · have hnot : ∀ suffix, entry ≠ "*." ++ suffix := by
      rintro suffix rfl
      exact hpre (by simp [hasPrefix])
    rw [matchesEntry_plain hpre, eq_iff_undotted]
    constructor
    · rintro ⟨h, hdot⟩
      exact .inl ⟨.inl h, hdot⟩
    · rintro (⟨h | ⟨suffix, _, he, _⟩, hdot⟩ | ⟨he, _⟩)
      · exact ⟨h, hdot⟩
      · exact absurd he (hnot suffix)
      · exact absurd he (hnot "")

end Names

section Validation

variable {net : Net} {p : SSRFProtection} {u : Url} {urlStr : String}

theorem checkIP_ok {ip : IP} {isPrivate : Bool} {asPrivate whitelist blacklist : Refusal} :
    checkIP p ip isPrivate asPrivate whitelist blacklist = .ok () ↔ isIPAccessAllowed p ip = true := by
  rw [checkIP]
  split_ifs <;> simp_all

theorem checkLookup_ok (host : String) (ips : List IP) :
    checkLookup p host ips = .ok () ↔ ∀ ip ∈ ips, isIPAccessAllowed p ip = true := by
  induction ips with
  | nil => simp [checkLookup]
  | cons ip ips ih => rw [checkLookup, check_eq_ok, checkIP_ok, ih, List.forall_mem_cons]

theorem checkDomain_ok (host : String) :
    checkDomain net p host = .ok () ↔ isDomainAllowed net p host = true := by
  rw [checkDomain]
  split_ifs <;> simp_all

/-- Where the addresses of a name have to be looked up, they are and each is allowed. -/
def Resolves (net : Net) (p : SSRFProtection) (host : String) : Prop :=
  p.applyIPFilterForDomain = true →
    ∃ ips, net.lookupIP host = .ok ips ∧ ∀ ip ∈ ips, isIPAccessAllowed p ip = true

theorem checkName_ok (host : String) : checkName net p host = .ok () ↔
    isDomainAllowed net p host = true ∧ Resolves net p host := by
  rw [checkName, check_eq_ok, checkDomain_ok]
  refine and_congr_right fun _ ↦ ?_
  rw [Resolves]
  by_cases hf : p.applyIPFilterForDomain = true
  · rw [if_neg (by simp [hf])]
    cases hl : net.lookupIP host with
    | error e => simp [hf]
    | ok ips => simp [hf, checkLookup_ok]
  · simp [hf, pure, Except.pure]

/-- The scheme and the port of a URL are allowed. -/
def Reachable (p : SSRFProtection) (u : Url) : Prop :=
  checkScheme u = .ok () ∧ checkPort p u = .ok ()

/-- What a URL that parses has to be to be accepted. -/
def Accepted (net : Net) (p : SSRFProtection) (u : Url) : Prop :=
  Reachable p u ∧ match parseIP (hostPort u).1 with
    | some ip => isIPAccessAllowed p ip = true
    | none => isDomainAllowed net p (hostPort u).1 = true ∧ Resolves net p (hostPort u).1

theorem validateURL_ok : validateURL net p urlStr = .ok () ↔
    ∃ u, net.parse urlStr = .ok u ∧ Accepted net p u := by
  rw [validateURL, bind_eq_ok]
  refine exists_congr fun u ↦ ?_
  rw [mapError_eq_ok, check_eq_ok, check_eq_ok, Accepted, Reachable, and_assoc]
  refine and_congr_right fun _ ↦ and_congr_right fun _ ↦ and_congr_right fun _ ↦ ?_
  cases hip : parseIP (hostPort u).1 with
  | some ip => simp only [hip, checkIP_ok]
  | none => simp only [hip, checkName_ok]

/-- No accepted URL has a forbidden address, or a name that resolves to one or, on a blacklist, is
a listed domain or under a listed `*.` entry but for a dot at an end. -/
def Covered (net : Net) (p : SSRFProtection) (urlStr : String) : Prop :=
  validateURL net p urlStr = .ok () → ∀ u, net.parse urlStr = .ok u →
    (∀ ip, parseIP (hostPort u).1 = some ip → ¬Forbidden ip) ∧
    (parseIP (hostPort u).1 = none →
      (p.applyIPFilterForDomain = true → ∀ ips, net.lookupIP (hostPort u).1 = .ok ips →
        ∀ ip ∈ ips, ¬Forbidden ip) ∧
      (p.domainFilterMode = false → ∀ entry ∈ entries net p.domainList,
        ¬Denotes (net.toLower (hostPort u).1) entry))

/-- An entry that covers a name is spelled with the same end, or the name ends in a dot and
everything that does is listed. -/
def Spelled (net : Net) (p : SSRFProtection) (name : String) : Prop :=
  ∃ entry ∈ entries net p.domainList, (Covers name entry ∧ dotted name = dotted entry) ∨
    (entry = "*." ∧ (dotted name = true ∨ name = ""))

theorem isDomainListed_iff (host : String) :
    isDomainListed net host p.domainList = true ↔ Spelled net p (net.toLower host) := by
  simp only [isDomainListed, List.any_eq_true, matchesEntry_iff, Spelled]

theorem not_forbidden_of_allowed (hp : p.allowPrivateIp = false) {ip : IP}
    (h : isIPAccessAllowed p ip = true) : ¬Forbidden ip := by
  intro hf
  simp [isIPAccessAllowed, isPrivateIP_of_forbidden hf, hp] at h

/-- Without private addresses a URL is covered unless its host is a name under a listed entry that
is spelled with another end, and nothing else refuses the URL. -/
theorem covered_iff (hp : p.allowPrivateIp = false) : Covered net p urlStr ↔
    ∀ u, net.parse urlStr = .ok u → parseIP (hostPort u).1 = none → p.domainFilterMode = false →
      Reachable p u → Resolves net p (hostPort u).1 → ∀ entry ∈ entries net p.domainList,
        Denotes (net.toLower (hostPort u).1) entry → Spelled net p (net.toLower (hostPort u).1) := by
  constructor
  · intro h u hu hname hmode hreach hres entry he hden
    by_contra hspelled
    have hlisted : isDomainListed net (hostPort u).1 p.domainList = false := by
      rw [Bool.eq_false_iff, Ne, isDomainListed_iff]
      exact hspelled
    have hacc : Accepted net p u := by
      refine ⟨hreach, ?_⟩
      rw [hname]
      exact ⟨by simp [isDomainAllowed, hmode, hlisted], hres⟩
    exact ((h (validateURL_ok.mpr ⟨u, hu, hacc⟩) u hu).2 hname).2 hmode entry he hden
  · intro h hok u hu
    obtain ⟨u', hu', hreach, hrest⟩ := validateURL_ok.mp hok
    rw [hu] at hu'
    cases hu'
    refine ⟨fun ip hip ↦ ?_, fun hname ↦ ⟨fun hf ips hips ip hm ↦ ?_, fun hmode entry he hden ↦ ?_⟩⟩
    · rw [hip] at hrest
      exact not_forbidden_of_allowed hp hrest
    · rw [hname] at hrest
      obtain ⟨ips', hips', hall⟩ := hrest.2 hf
      rw [hips] at hips'
      cases hips'
      exact not_forbidden_of_allowed hp (hall ip hm)
    · rw [hname] at hrest
      have hlisted := (isDomainListed_iff _).mpr (h u hu hname hmode hreach hrest.2 entry he hden)
      have hallowed := hrest.1
      simp [isDomainAllowed, hmode, hlisted] at hallowed

section Examples

/-- Every name resolves to a public address. -/
def netOne : Net where
  parse := fun urlStr ↦ if urlStr = "http://evil.example.com./" then .ok ⟨"http", "evil.example.com."⟩
    else .ok ⟨"http", "example.com"⟩
  lookupIP := fun _ ↦ .ok [ipv4 93 184 216 34]
  toLower := fun s ↦ String.ofList (s.toList.map Char.toLower)

def blacklistOne : SSRFProtection :=
  ⟨false, false, ["evil.example.com"], false, [], [], true⟩

theorem covered_iff_blacklistOne : Covered netOne blacklistOne "http://example.com/" ↔
    ∀ u, netOne.parse "http://example.com/" = .ok u → parseIP (hostPort u).1 = none →
      blacklistOne.domainFilterMode = false → Reachable blacklistOne u →
        Resolves netOne blacklistOne (hostPort u).1 →
          ∀ entry ∈ entries netOne blacklistOne.domainList,
            Denotes (netOne.toLower (hostPort u).1) entry →
              Spelled netOne blacklistOne (netOne.toLower (hostPort u).1) :=
  covered_iff rfl

/-- A dot at the end takes a listed host past the list. -/
theorem dotted_not_covered : ¬Covered netOne blacklistOne "http://evil.example.com./" := by
  intro h
  have hok : validateURL netOne blacklistOne "http://evil.example.com./" = .ok () := by
    rfl
  have hname := (h hok ⟨"http", "evil.example.com."⟩ rfl).2 (by decide +kernel)
  exact hname.2 rfl "evil.example.com" (by decide +kernel) (.inl (by decide +kernel))

end Examples

end Validation

end AllAiTools.NewApi.Common.SsrfCovers
