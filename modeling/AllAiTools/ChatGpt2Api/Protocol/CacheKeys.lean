import AllAiTools.ChatGpt2Api.Protocol.TextRequests

namespace AllAiTools.ChatGpt2Api.Protocol.TextRequests

open Text Json Conversation

variable (lib : Library)

section Property

/-- The cache answers both from one entry or one call: these are found by the key alone. -/
def Shares (first second : Request) (messages messages' : List Message) : Prop :=
  cachedMessages lib first = some messages ∧ cachedMessages lib second = some messages' ∧
    cacheKey lib first messages = cacheKey lib second messages'

/-- The instructions, where the endpoint reads them. -/
def instructionsRead (request : Request) : Str :=
  match request.endpoint with
  | .chatCompletions => []
  | .responses => instructionsText lib request.body

def SameMessage (message message' : Message) : Prop :=
  sorted message.role = sorted message'.role ∧ message.content = message'.content

/-- Two requests whose values are of one kind and computed from the same fields. The order of the
fields of an object does not count. -/
structure SameComputation (first second : Request) (messages messages' : List Message) : Prop where
  endpoint : first.endpoint = second.endpoint
  streams : streams first = streams second
  model : modelOf lib first.body = modelOf lib second.body
  messages : List.Forall₂ SameMessage messages messages'
  instructions : instructionsRead lib first = instructionsRead lib second
  fields : ∀ key ∈ cacheableTextKeys,
    (get first.body key).map sorted = (get second.body key).map sorted

/-- The second request is never answered with a value that it would not compute. -/
def KeptApart (first second : Request) : Prop :=
  ∀ messages messages', Shares lib first second messages messages' →
    SameComputation lib first second messages messages'

/-- Different bodies of the two, as they are written with sorted keys, have different hashes, and so
have different images. -/
structure NoCollision (first second : Request) : Prop where
  bodies : ∀ messages messages', Shares lib first second messages messages' →
    sorted (.obj (canonicalBody lib first messages)) =
      sorted (.obj (canonicalBody lib second messages'))
  images : Function.Injective lib.sha256Bytes

end Property

section Decoding

theorem lookup_keys (keys : List String) (value : String → Option Json) (key : String)
    (rest : Fields) :
    ((keys.filterMap fun other ↦ (value other).map fun v ↦ (other.toList, v)) ++ rest).lookup
        key.toList =
      if key ∈ keys then (value key).or (rest.lookup key.toList) else rest.lookup key.toList := by
  induction keys with
  | nil => rfl
  | cons other keys ih =>
    rw [List.filterMap_cons]
    cases hvalue : value other with
    | none =>
      rw [Option.map_none, ih]
      by_cases hkey : key = other
      · by_cases hmem : key ∈ keys <;> simp_all
      · simp [hkey]
    | some v =>
      rw [Option.map_some, List.cons_append, lookup_cons_eq, ih]
      by_cases hkey : key = other
      · simp [hkey, hvalue]
      · rw [if_neg (fun h ↦ hkey (String.toList_inj.mp h))]
        simp [hkey]

variable (request : Request) (messages : List Message)

theorem get_canonicalBody {key : String} (hkey : key ∈ cacheableTextKeys) :
    get (canonicalBody lib request messages) key = get request.body key := by
  have hrest : List.lookup key.toList [("messages".toList, .arr (messages.map (messageJson lib))),
      ("stream".toList, Json.bool (streams request))] = none := by
    have hmessages : key ≠ "messages" := fun h ↦ absurd (h ▸ hkey) (by decide)
    have hstream : key ≠ "stream" := fun h ↦ absurd (h ▸ hkey) (by decide)
    rw [lookup_cons_eq, lookup_cons_eq, if_neg (by rwa [String.toList_inj]),
      if_neg (by rwa [String.toList_inj])]
    rfl
  rw [Json.get, canonicalBody, lookup_keys, if_pos hkey, hrest, Option.or_none]

theorem get_canonicalBody_messages :
    get (canonicalBody lib request messages) "messages" =
      some (.arr (messages.map (messageJson lib))) := by
  rw [Json.get, canonicalBody, lookup_keys, if_neg (by decide)]
  rfl

theorem get_canonicalBody_stream :
    get (canonicalBody lib request messages) "stream" = some (.bool (streams request)) := by
  rw [Json.get, canonicalBody, lookup_keys, if_neg (by decide)]
  rfl

variable {lib}

theorem sorted_str_inj {text text' : Str} (h : sorted (.str text) = sorted (.str text')) :
    text = text' := by
  rw [sorted, sorted] at h
  exact Json.str.inj h

theorem sorted_arr_inj {items items' : List Json} (h : sorted (.arr items) = sorted (.arr items')) :
    items.map sorted = items'.map sorted := by
  rw [sorted, sorted, sortedItems_eq_map, sortedItems_eq_map] at h
  exact Json.arr.inj h

theorem partJson_injective (himages : Function.Injective lib.sha256Bytes) {part part' : Part}
    (h : sorted (partJson lib part) = sorted (partJson lib part')) : part = part' := by
  cases part with
  | text text =>
    cases part' with
    | text text' =>
      have htext := get_of_sorted_eq h "text"
      exact congrArg Part.text (sorted_str_inj (Option.some.inj htext))
    | image data mime =>
      have htype := get_of_sorted_eq h "type"
      exact absurd (sorted_str_inj (Option.some.inj htype)) (by decide)
  | image data mime =>
    cases part' with
    | text text' =>
      have htype := get_of_sorted_eq h "type"
      exact absurd (sorted_str_inj (Option.some.inj htype)) (by decide)
    | image data' mime' =>
      have hmime := sorted_str_inj (Option.some.inj (get_of_sorted_eq h "mime"))
      have hdata := get_of_sorted_eq (Option.some.inj (get_of_sorted_eq h "data")) "__bytes_sha256__"
      have hdigest := sorted_str_inj (Option.some.inj hdata)
      rw [himages hdigest, hmime]

theorem map_injective_on {α β : Type} {f : α → β} (hf : ∀ a a', f a = f a' → a = a')
    {l l' : List α} (h : l.map f = l'.map f) : l = l' :=
  List.map_injective_iff.mpr (fun a a' ↦ hf a a') h

theorem contentJson_injective (himages : Function.Injective lib.sha256Bytes) {content content' : Content}
    (h : sorted (contentJson lib content) = sorted (contentJson lib content')) :
    content = content' := by
  cases content with
  | text text =>
    cases content' with
    | text text' => exact congrArg Content.text (sorted_str_inj h)
    | parts parts' => simp [contentJson, sorted] at h
  | parts parts =>
    cases content' with
    | text text' => simp [contentJson, sorted] at h
    | parts parts' =>
      have hparts := sorted_arr_inj h
      rw [List.map_map, List.map_map] at hparts
      exact congrArg Content.parts
        (map_injective_on (fun _ _ ↦ partJson_injective himages) hparts)

theorem sameMessage_of_sorted (himages : Function.Injective lib.sha256Bytes) {message message' : Message}
    (h : sorted (messageJson lib message) = sorted (messageJson lib message')) :
    SameMessage message message' :=
  ⟨Option.some.inj (get_of_sorted_eq h "role"),
    contentJson_injective himages (Option.some.inj (get_of_sorted_eq h "content"))⟩

theorem sameMessages_of_sorted (himages : Function.Injective lib.sha256Bytes)
    {messages messages' : List Message}
    (h : messages.map (sorted ∘ messageJson lib) = messages'.map (sorted ∘ messageJson lib)) :
    List.Forall₂ SameMessage messages messages' := by
  induction messages generalizing messages' with
  | nil =>
    rw [List.map_nil] at h
    rw [List.map_eq_nil_iff.mp h.symm]
    exact .nil
  | cons message messages ih =>
    cases messages' with
    | nil => cases h
    | cons message' messages' =>
      rw [List.map_cons, List.map_cons] at h
      obtain ⟨hhead, htail⟩ := List.cons.inj h
      exact .cons (sameMessage_of_sorted himages hhead) (ih htail)

end Decoding

section Keys

variable {lib}

/-- The order of fields does not count for what a text or nothing is. -/
theorem modelOf_eq {first second : Request}
    (h : (get first.body "model").map sorted = (get second.body "model").map sorted) :
    modelOf lib first.body = modelOf lib second.body := by
  have hplain : ∀ request : Request,
      (get request.body "model").map sorted = get request.body "model" := by
    intro request
    cases hmodel : get request.body "model" with
    | none => rfl
    | some value =>
      rcases request.model_text value hmodel with rfl | ⟨text, rfl⟩ <;>
        rw [Option.map_some, sorted]
  rw [hplain, hplain] at h
  rw [modelOf, modelOf, h]

variable (lib)

/-- What the key is made of is the same. -/
structure Coincide (first second : Request) (messages messages' : List Message) : Prop where
  streams : streams first = streams second
  messages : List.Forall₂ SameMessage messages messages'
  fields : ∀ key ∈ cacheableTextKeys,
    (get first.body key).map sorted = (get second.body key).map sorted

theorem coincide_of_shares {first second : Request} (hcollision : NoCollision lib first second)
    {messages messages' : List Message} (hshares : Shares lib first second messages messages') :
    Coincide first second messages messages' := by
  have hbody := hcollision.bodies messages messages' hshares
  refine ⟨?_, ?_, fun key hkey ↦ ?_⟩
  · have hstream := get_of_sorted_eq hbody "stream"
    rw [get_canonicalBody_stream, get_canonicalBody_stream] at hstream
    have hbool := Option.some.inj hstream
    rw [sorted, sorted] at hbool
    exact Json.bool.inj hbool
  · have hmessages := get_of_sorted_eq hbody "messages"
    rw [get_canonicalBody_messages, get_canonicalBody_messages] at hmessages
    have hitems := sorted_arr_inj (Option.some.inj hmessages)
    rw [List.map_map, List.map_map] at hitems
    exact sameMessages_of_sorted hcollision.images hitems
  · have hget := get_of_sorted_eq hbody key
    rwa [get_canonicalBody lib _ _ hkey, get_canonicalBody lib _ _ hkey] at hget

theorem sorted_messageJson {message message' : Message} (h : SameMessage message message') :
    sorted (messageJson lib message) = sorted (messageJson lib message') := by
  have hcontent : sortedFields [("content".toList, contentJson lib message.content)] =
      sortedFields [("content".toList, contentJson lib message'.content)] := by rw [h.2]
  rw [messageJson, messageJson, sorted, sorted]
  exact congrArg Json.obj (congrArg₂ (insertField "role".toList) h.1 hcontent)

theorem sorted_messages {messages messages' : List Message}
    (h : List.Forall₂ SameMessage messages messages') :
    (messages.map (messageJson lib)).map sorted = (messages'.map (messageJson lib)).map sorted := by
  induction h with
  | nil => rfl
  | cons hmessage _ ih =>
    rw [List.map_cons, List.map_cons, List.map_cons, List.map_cons, sorted_messageJson lib hmessage,
      ih]

theorem sorted_keys (keys : List String) {value value' : String → Option Json} {rest rest' : Fields}
    (hvalues : ∀ key ∈ keys, (value key).map sorted = (value' key).map sorted)
    (hrest : sortedFields rest = sortedFields rest') :
    sortedFields ((keys.filterMap fun key ↦ (value key).map fun v ↦ (key.toList, v)) ++ rest) =
      sortedFields
        ((keys.filterMap fun key ↦ (value' key).map fun v ↦ (key.toList, v)) ++ rest') := by
  induction keys with
  | nil => exact hrest
  | cons key keys ih =>
    have htail := ih fun other hother ↦ hvalues other (List.mem_cons_of_mem _ hother)
    have hhead := hvalues key List.mem_cons_self
    rw [List.filterMap_cons, List.filterMap_cons]
    cases hvalue : value key with
    | none =>
      rw [hvalue, Option.map_none] at hhead
      rw [Option.map_eq_none_iff.mp hhead.symm]
      exact htail
    | some v =>
      rw [hvalue, Option.map_some] at hhead
      obtain ⟨v', hvalue', hsorted⟩ := Option.map_eq_some_iff.mp hhead.symm
      rw [hvalue', Option.map_some, Option.map_some, List.cons_append, List.cons_append,
        sortedFields, sortedFields, htail, hsorted]

theorem shares_iff {first second : Request} (hcollision : NoCollision lib first second)
    (messages messages' : List Message) :
    Shares lib first second messages messages' ↔
      cachedMessages lib first = some messages ∧ cachedMessages lib second = some messages' ∧
        Coincide first second messages messages' := by
  constructor
  · exact fun hshares ↦ ⟨hshares.1, hshares.2.1, coincide_of_shares lib hcollision hshares⟩
  · rintro ⟨hfirst, hsecond, hsame⟩
    refine ⟨hfirst, hsecond, ?_⟩
    have hrest : sortedFields [("messages".toList, .arr (messages.map (messageJson lib))),
          ("stream".toList, .bool (streams first))] =
        sortedFields [("messages".toList, .arr (messages'.map (messageJson lib))),
          ("stream".toList, .bool (streams second))] := by
      have hitems : sorted (.arr (messages.map (messageJson lib))) =
          sorted (.arr (messages'.map (messageJson lib))) := by
        rw [sorted, sorted, sortedItems_eq_map, sortedItems_eq_map,
          sorted_messages lib hsame.messages]
      rw [hsame.streams]
      exact congrArg (insertField "messages".toList · _) hitems
    rw [cacheKey, cacheKey, sorted, sorted, canonicalBody, canonicalBody,
      sorted_keys cacheableTextKeys hsame.fields hrest]

/-- The key tells everything apart but the endpoints, and instructions from messages of the role
they are turned into. -/
theorem kept_apart_iff {first second : Request} (hcollision : NoCollision lib first second) :
    KeptApart lib first second ↔
      ∀ messages messages', cachedMessages lib first = some messages →
        cachedMessages lib second = some messages' → Coincide first second messages messages' →
          first.endpoint = second.endpoint ∧
            instructionsRead lib first = instructionsRead lib second := by
  refine forall₂_congr fun messages messages' ↦ ?_
  rw [shares_iff lib hcollision]
  constructor
  · intro hkept hfirst hsecond hsame
    have hcomputation := hkept ⟨hfirst, hsecond, hsame⟩
    exact ⟨hcomputation.endpoint, hcomputation.instructions⟩
  · rintro hread ⟨hfirst, hsecond, hsame⟩
    obtain ⟨hendpoint, hinstructions⟩ := hread hfirst hsecond hsame
    exact ⟨hendpoint, hsame.streams, modelOf_eq (hsame.fields "model" (by decide)), hsame.messages,
      hinstructions, hsame.fields⟩

section Example

def plainSettings : Settings := ⟨[], true, false, false⟩

/-- The body of a chat, as it is after validation. -/
def chatHi : Request where
  endpoint := .chatCompletions
  body := [("model".toList, .str "auto".toList), ("stream".toList, .null),
    ("messages".toList, .arr [.obj [("role".toList, .str "user".toList),
      ("content".toList, .str "hi".toList)]]),
    ("tools".toList, .null), ("tool_choice".toList, .null)]
  settings := plainSettings
  decode := fun _ ↦ none
  model_text := by
    intro value h
    exact .inr ⟨"auto".toList, (Option.some.inj h).symm⟩

def responsesHi : Request where
  endpoint := .responses
  body := [("model".toList, .str "auto".toList), ("input".toList, .str "hi".toList),
    ("tools".toList, .null), ("tool_choice".toList, .null), ("stream".toList, .null)]
  settings := plainSettings
  decode := fun _ ↦ none
  model_text := by
    intro value h
    exact .inr ⟨"auto".toList, (Option.some.inj h).symm⟩

def hiMessages : List Message := [⟨.str "user".toList, .text "hi".toList⟩]

/-- The library on the bodies of these two. -/
def sampleLibrary : Library where
  render := fun _ ↦ []
  dumps := fun _ ↦
    ("\x7b\"messages\":[\x7b\"content\":\"hi\",\"role\":\"user\"\x7d],\"model\":\"auto\"" ++
      ",\"stream\":false,\"tool_choice\":null,\"tools\":null\x7d").toList
  sha256 := fun _ ↦ "0c45a0af8a381d156059f6d6dd7df08da27dc4321a8e166e2b59261bb164d483".toList
  sha256Bytes := fun data ↦ data.map fun byte ↦ Char.ofNat byte.toNat

theorem chatHi_messages : cachedMessages sampleLibrary chatHi = some hiMessages := rfl

theorem responsesHi_messages : cachedMessages sampleLibrary responsesHi = some hiMessages := rfl

/-- The two have one key, whatever is written and hashed. -/
theorem hi_shares : Shares sampleLibrary chatHi responsesHi hiMessages hiMessages :=
  ⟨chatHi_messages, responsesHi_messages, rfl⟩

theorem endpoints_not_kept_apart : ¬ KeptApart sampleLibrary chatHi responsesHi := by
  intro hkept
  exact absurd (hkept hiMessages hiMessages hi_shares).endpoint (by decide)

theorem kept_apart_hi : KeptApart sampleLibrary chatHi chatHi := by
  refine (kept_apart_iff sampleLibrary ⟨?_, ?_⟩).mpr fun _ _ _ _ _ ↦ ⟨rfl, rfl⟩
  · rintro messages messages' ⟨hfirst, hsecond, -⟩
    rw [Option.some.inj (hfirst.symm.trans hsecond)]
  · refine List.map_injective_iff.mpr fun byte byte' h ↦ ?_
    have hcode : ∀ code : Fin 256, (Char.ofNat code).toNat = code := by decide +kernel
    have hbyte := hcode ⟨byte.toNat, byte.toNat_lt⟩
    have hbyte' := hcode ⟨byte'.toNat, byte'.toNat_lt⟩
    exact UInt8.toNat_inj.mp (hbyte.symm.trans ((congrArg Char.toNat h).trans hbyte'))

end Example

end Keys

end AllAiTools.ChatGpt2Api.Protocol.TextRequests
