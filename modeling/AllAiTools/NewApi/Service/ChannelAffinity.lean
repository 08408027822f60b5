import AllAiTools.Foundation.Joined
import AllAiTools.NewApi.Relay.ChatViaResponses

namespace AllAiTools.NewApi.Service.ChannelAffinity

open Foundation.Joined (joined)
open Relay.ChatViaResponses (Text trimSpace)

section Cachex

def trimColons (s : Text) : Text := s.dropWhile (· = ':')

/-- `Namespace.prefix`. -/
def namespacePrefix (n : Text) : Text :=
  let ns := (trimSpace n).rdropWhile (· = ':')
  if ns = [] then [] else ns ++ [':']

def fullKey (n key : Text) : Text :=
  let key := trimSpace key
  if key = [] then []
  else
    let p := namespacePrefix n
    if p = [] then trimColons key
    else if p <+: key then key
    else p ++ trimColons key

/-- A value of the cache, until a time in seconds. -/
structure Entry where
  channelId : ℤ
  expires : ℕ

abbrev Cache := Text → Option Entry

def Cache.get (n : Text) (cache : Cache) (now : ℕ) (key : Text) : Option ℤ :=
  let full := fullKey n key
  if full = [] then none
  else (cache full).bind fun entry ↦ if now < entry.expires then some entry.channelId else none

def Cache.setWithTTL (n : Text) (cache : Cache) (now : ℕ) (key : Text) (v : ℤ) (ttl : ℕ) : Cache :=
  let full := fullKey n key
  if full = [] then cache else Function.update cache full (some ⟨v, now + ttl⟩)

end Cachex

section Rules

structure ChannelAffinityKeySource where
  type : String
  key : Text
  path : Text

structure ChannelAffinityRule where
  name : Text
  modelRegex : List Text
  pathRegex : List Text
  userAgentInclude : List Text
  keySources : List ChannelAffinityKeySource
  valueRegex : Text
  ttlSeconds : ℤ
  includeUsingGroup : Bool
  includeModelName : Bool
  includeRuleName : Bool

structure ChannelAffinitySetting where
  enabled : Bool
  switchOnSuccess : Bool
  defaultTTLSeconds : ℤ
  rules : List ChannelAffinityRule

/-- What the rules read of a request; a value of its body is a text as `gjson` gives it. -/
structure Context where
  path : Text
  userAgent : Text
  getInt : Text → ℤ
  getString : Text → Text
  header : Text → Text
  gjson : Text → Option Text

/-- The regular expressions, none of which match that do not compile, and the lower case. -/
structure Library where
  matchString : Text → Text → Bool
  toLower : Text → Text

variable (library : Library)

def matchAnyRegexCached (patterns : List Text) (s : Text) : Bool :=
  s ≠ [] && patterns.any fun pattern ↦ pattern ≠ [] && library.matchString pattern s

def matchAnyIncludeFold (patterns : List Text) (s : Text) : Bool :=
  s ≠ [] && patterns.any fun pattern ↦
    trimSpace pattern ≠ [] && decide (library.toLower (trimSpace pattern) <:+: library.toLower s)

/-- `strconv.Itoa` of a positive integer. -/
def itoa (v : ℤ) : Text := Nat.toDigits 10 v.toNat

def extractChannelAffinityValue (c : Context) (src : ChannelAffinityKeySource) : Text :=
  if src.type = "context_int" then
    if src.key = [] then []
    else
      let v := c.getInt src.key
      if v ≤ 0 then [] else itoa v
  else if src.type = "context_string" then
    if src.key = [] then [] else trimSpace (c.getString src.key)
  else if src.type = "request_header" then
    if src.key = [] then [] else trimSpace (c.header src.key)
  else if src.type = "gjson" then
    if src.path = [] then []
    else match c.gjson src.path with
      | none => []
      | some res => trimSpace res
  else []

def affinityValue (c : Context) : List ChannelAffinityKeySource → Text
  | [] => []
  | src :: sources =>
    let value := extractChannelAffinityValue c src
    if value ≠ [] then value else affinityValue c sources

/-- The value by which a rule matches. -/
def matchRule (c : Context) (modelName : Text) (rule : ChannelAffinityRule) : Option Text :=
  if !matchAnyRegexCached library rule.modelRegex modelName then none
  else if 0 < rule.pathRegex.length ∧ !matchAnyRegexCached library rule.pathRegex c.path then none
  else if 0 < rule.userAgentInclude.length ∧
    !matchAnyIncludeFold library rule.userAgentInclude c.userAgent then none
  else
    let value := affinityValue c rule.keySources
    if value = [] then none
    else if rule.valueRegex ≠ [] ∧ !matchAnyRegexCached library [rule.valueRegex] value then none
    else some value

/-- The first rule that matches. -/
def findRule (c : Context) (modelName : Text) : List ChannelAffinityRule → Option (ChannelAffinityRule × Text)
  | [] => none
  | rule :: rules =>
    match matchRule library c modelName rule with
    | some value => some (rule, value)
    | none => findRule c modelName rules

def keyParts (rule : ChannelAffinityRule) (modelName usingGroup affinityValue : Text) : List Text :=
  (if rule.includeRuleName ∧ rule.name ≠ [] then [rule.name] else []) ++
    (if rule.includeModelName ∧ modelName ≠ [] then [modelName] else []) ++
      (if rule.includeUsingGroup ∧ usingGroup ≠ [] then [usingGroup] else []) ++ [affinityValue]

def buildChannelAffinityCacheKeySuffix (rule : ChannelAffinityRule)
    (modelName usingGroup affinityValue : Text) :
    Text :=
  joined ':' (keyParts rule modelName usingGroup affinityValue)

end Rules

section Affinity

variable (library : Library) (setting : ChannelAffinitySetting)

def channelAffinityCacheNamespace : Text := "new-api:channel_affinity:v1".toList

/-- What is kept of a match in the context of the request. -/
structure AffinityContext where
  cacheKey : Text
  ttlSeconds : ℤ

/-- The context that is kept, and the channel, where one is found. -/
def getPreferredChannelByAffinity (c : Context) (modelName usingGroup : Text) (cache : Cache) (now : ℕ) :
    Option AffinityContext × Option ℤ :=
  if !setting.enabled then (none, none)
  else match findRule library c modelName setting.rules with
    | some (rule, value) =>
      let cacheKeySuffix := buildChannelAffinityCacheKeySuffix rule modelName usingGroup value
      let cacheKeyFull := channelAffinityCacheNamespace ++ ':' :: cacheKeySuffix
      let ttlSeconds := if rule.ttlSeconds ≤ 0 then setting.defaultTTLSeconds else rule.ttlSeconds
      (some ⟨cacheKeyFull, ttlSeconds⟩, cache.get channelAffinityCacheNamespace now cacheKeySuffix)
    | none => (none, none)

def recordChannelAffinity (c : Context) (context : Option AffinityContext) (channelID : ℤ) (cache : Cache)
    (now : ℕ) : Cache :=
  if channelID ≤ 0 then cache
  else if !setting.enabled then cache
  else
    let successChannelID := c.getInt "channel_id".toList
    let channelID := if setting.switchOnSuccess ∧ 0 < successChannelID then successChannelID else channelID
    match context with
    | none => cache
    | some context =>
      if context.cacheKey = [] then cache
      else
        let ttlSeconds := if context.ttlSeconds ≤ 0 then setting.defaultTTLSeconds else context.ttlSeconds
        let ttlSeconds := if ttlSeconds ≤ 0 then 3600 else ttlSeconds
        cache.setWithTTL channelAffinityCacheNamespace now context.cacheKey channelID ttlSeconds.toNat

end Affinity

end AllAiTools.NewApi.Service.ChannelAffinity
