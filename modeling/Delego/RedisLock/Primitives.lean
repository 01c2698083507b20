import Delego.Data.Calendar
import Delego.Data.JsonParse
import Delego.Redis.Keyspace

/-! Locks in Redis (`cache/src/lock.ts`).

A lock is a key that holds a payload until it expires: its owner, a fence that counts the attempts for the key, and
metadata, written as JSON. -/
namespace Delego.RedisLock
open Delego.Data Delego.Redis List

/-- What is stored under a lock. -/
structure RedisLockPayload where
  (owner acquiredAt expiresAt : String)
  (fence metadata : Json)

/-- A record of values that the language has. -/
structure Metadata where
  members : List (String × Json)
  readable : (Json.object members).Readable

abbrev Redis := Keyspace String

def integerOf (text : String) : Option Nat := (readDigits 0 text.toList).filter fun n => decide (toString n = text)

/-- `INCR` -/
def incr (redis : Redis) (key : String) : Except String Nat × Redis :=
  match redis.live key with
  | none => (.ok 1, redis.write key (some ⟨.text (toString 1), none⟩))
  | some ⟨.members _, _⟩ => (.error wrongType, redis)
  | some ⟨.text text, deadline⟩ =>
    match integerOf text with
    | none => (.error "ERR value is not an integer or out of range", redis)
    | some n =>
      if n + 1 < 2 ^ 63 then (.ok (n + 1), redis.write key (some ⟨.text (toString (n + 1)), deadline⟩))
      else (.error "ERR increment or decrement would overflow", redis)

/-- `ACQUIRE_LUA`. A number of Lua has the digits that one of the language has; what was done before an error stays done. -/
def acquireLua (lockKey fenceKey : String) (template : String) (ttlMs : Int) (redis : Redis) :
    Except String (Option String) × Redis :=
  match incr redis fenceKey with
  | (.error message, redis) => (.error message, redis)
  | (.ok fence, redis) =>
    match luaFormat template.toList (some (roundNat fence)) with
    | .error message => (.error message, redis)
    | .ok chars =>
      let payload := String.ofList chars
      match redis.setNxPx lockKey payload ttlMs with
      | (.error message, redis) => (.error message, redis)
      | (.ok true, redis) => (.ok (some payload), redis)
      | (.ok false, redis) => (redis.get lockKey, redis)

def ownerPrefix (owner : String) : List Char := '{' :: "\"owner\":\"".toList ++ owner.toList ++ ['"']

/-- `RELEASE_LUA` -/
def releaseLua (lockKey owner : String) (redis : Redis) : Except String Nat × Redis :=
  match redis.get lockKey with
  | .error message => (.error message, redis)
  | .ok none => (.ok 0, redis)
  | .ok (some current) =>
    if (ownerPrefix owner).isPrefixOf current.toList then
      let (count, redis) := redis.del [lockKey]
      (.ok count, redis)
    else (.ok 0, redis)

/-- `RENEW_LUA` -/
def renewLua (lockKey owner : String) (ttlMs : Int) (payload : String) (redis : Redis) : Except String Int × Redis :=
  match redis.get lockKey with
  | .error message => (.error message, redis)
  | .ok none => (.ok (-2), redis)
  | .ok (some current) =>
    if !(ownerPrefix owner).isPrefixOf current.toList then (.ok (-1), redis)
    else
      match redis.setPx lockKey payload ttlMs with
      | (.error message, redis) => (.error message, redis)
      | (.ok _, redis) => (.ok 1, redis)

def fenceKeyFor (lockKey : String) : String := "lock:fence:" ++ lockKey

def serializeLockPayload (payload : RedisLockPayload) : String :=
  Json.stringify (.object [("owner", .string payload.owner), ("acquiredAt", .string payload.acquiredAt),
    ("expiresAt", .string payload.expiresAt), ("fence", payload.fence), ("metadata", payload.metadata)])

mutual

/-- `String(value)` -/
def display : Json → String
  | .null => "null"
  | .bool value => if value then "true" else "false"
  | .number numeral => numeral
  | .string value => value
  | .array items => ",".intercalate (displayItems items)
  | .object _ => "[object Object]"

/-- Of the items of an array, with nothing for `null`. -/
def displayItems : List Json → List String
  | [] => []
  | .null :: rest => "" :: displayItems rest
  | item :: rest => display item :: displayItems rest

end

/-- `String(value ?? "")` -/
def textOr : Option Json → String
  | none => ""
  | some .null => ""
  | some value => display value

def metadataOf : Option Json → Json
  | some (.object members) => .object members
  | some (.array items) => .array items
  | _ => .object []

def parseLockPayload : Option String → Option RedisLockPayload
  | none => none
  | some raw =>
    if raw = "" then none
    else
      match Json.parse raw with
      | some (.object parsed) =>
        match parsed.lookup "owner", parsed.lookup "fence" with
        | some (.string owner), some (.number fence) => some
          { owner, acquiredAt := textOr (parsed.lookup "acquiredAt"), expiresAt := textOr (parsed.lookup "expiresAt"),
            fence := .number fence, metadata := metadataOf (parsed.lookup "metadata") }
        | _, _ => none
      | _ => none

def payloadTemplate (owner acquiredAt expiresAt : String) (metadata : Metadata) : String :=
  String.ofList (replaceFirst "\"fence\":0".toList "\"fence\":%d".toList
    (serializeLockPayload { owner, acquiredAt, expiresAt, fence := .number "0", metadata := .object metadata.members }).toList)

/-! ### Calls -/

structure AcquireResult where
  acquired : Bool
  payload : Option RedisLockPayload

inductive RedisLockRenewResult where
  | ok
  | stolen
  | missing

/-- `now` is the time of the caller's clock, in the calls. -/
def redisLockAcquire (lockKey owner : String) (ttlMs : Int) (metadata : Metadata) (now : Instant) (redis : Redis) :
    Except String AcquireResult × Redis :=
  match toISOString (some now), toISOString (newDate (now.val + ttlMs)) with
  | .ok acquiredAt, .ok expiresAt =>
    match acquireLua lockKey (fenceKeyFor lockKey) (payloadTemplate owner acquiredAt expiresAt metadata) ttlMs redis with
    | (.error message, redis) => (.error message, redis)
    | (.ok raw, redis) =>
      match parseLockPayload raw with
      | none => (.ok ⟨false, none⟩, redis)
      | some payload => (.ok ⟨decide (payload.owner = owner), some payload⟩, redis)
  | .error message, _ => (.error message, redis)
  | .ok _, .error message => (.error message, redis)

def redisLockRelease (lockKey owner : String) (redis : Redis) : Except String Bool × Redis :=
  match releaseLua lockKey owner redis with
  | (.error message, redis) => (.error message, redis)
  | (.ok result, redis) => (.ok (decide (result = 1)), redis)

def redisLockRenew (lockKey owner : String) (ttlMs : Int) (metadata : Metadata) (fence : Json) (now : Instant)
    (redis : Redis) : Except String RedisLockRenewResult × Redis :=
  match toISOString (some now), toISOString (newDate (now.val + ttlMs)) with
  | .ok acquiredAt, .ok expiresAt =>
    let payload := serializeLockPayload { owner, acquiredAt, expiresAt, fence, metadata := .object metadata.members }
    match renewLua lockKey owner ttlMs payload redis with
    | (.error message, redis) => (.error message, redis)
    | (.ok result, redis) => (.ok (if result = 1 then .ok else if result = -1 then .stolen else .missing), redis)
  | .error message, _ => (.error message, redis)
  | .ok _, .error message => (.error message, redis)

/-! ### The text of a lock

A payload is written and read back as it is; the text that a template is filled into is the payload with that
fence, if nothing in it is a directive; and a text begins as that of an owner's lock if it is of the owner's,
where owners are written as they are. -/

def Plain (s : String) : Prop := ∀ c ∈ s.toList, escape c = [c]

instance (s : String) : Decidable (Plain s) := decidableBAll (fun c => escape c = [c]) s.toList

def Undirected (text : List Char) : Prop := '%' ∉ text

instance (text : List Char) : Decidable (Undirected text) := inferInstanceAs (Decidable ('%' ∉ text))

theorem flatMap_plain {text : List Char} (h : ∀ c ∈ text, escape c = [c]) : text.flatMap escape = text := by
  induction text with
  | nil => rfl
  | cons c text ih =>
    obtain ⟨hc, htext⟩ := forall_mem_cons.mp h
    rw [flatMap_cons, hc, ih htext, singleton_append]

theorem quote_plain {s : String} (h : Plain s) : quote s = '"' :: (s.toList ++ ['"']) := by rw [quote, flatMap_plain h]

theorem noQuote_of_plain {s : String} (h : Plain s) : '"' ∉ s.toList := by
  intro hmem
  have hescape := h '"' hmem
  cases hescape

def front (owner acquiredAt expiresAt : String) : List Char :=
  '{' :: (quote "owner" ++ ':' :: quote owner ++ ',' :: (quote "acquiredAt" ++ ':' :: quote acquiredAt) ++
    ',' :: (quote "expiresAt" ++ ':' :: quote expiresAt) ++ [','])

def back (metadata : Json) : List Char := ',' :: (quote "metadata" ++ ':' :: metadata.chars) ++ ['}']

theorem serialize_toList (payload : RedisLockPayload) : (serializeLockPayload payload).toList =
    front payload.owner payload.acquiredAt payload.expiresAt ++ ("\"fence\":".toList ++ (payload.fence.chars ++ back payload.metadata)) := by
  have hfence : quote "fence" = "\"fence\"".toList := by decide
  have hcolon : "\"fence\":".toList = "\"fence\"".toList ++ [':'] := by decide
  simp only [serializeLockPayload, Json.stringify, String.toList_ofList, Json.chars, Json.memberTexts, joined, front, back,
    hfence, hcolon, append_assoc, cons_append, nil_append]

theorem parse_serialize {payload : RedisLockPayload} {n : Nat} {members : List (String × Json)} (hn : n < 2 ^ 53)
    (hfence : payload.fence = .number (toString n)) (hmetadata : payload.metadata = .object members)
    (hreadable : (Json.object members).Readable) : parseLockPayload (some (serializeLockPayload payload)) = some payload := by
  obtain ⟨owner, acquiredAt, expiresAt, fence, metadata⟩ := payload
  obtain rfl : fence = .number (toString n) := hfence
  obtain rfl : metadata = .object members := hmetadata
  have hvalue : (Json.object [("owner", .string owner), ("acquiredAt", .string acquiredAt), ("expiresAt", .string expiresAt),
      ("fence", .number (toString n)), ("metadata", .object members)]).Readable := by
    refine ⟨by simp, ?_, trivial, trivial, trivial, readNumeral_nat hn, hreadable, trivial⟩
    simp [ownOrder, isIndex, arrayIndex, readDigits]
  have hsome : serializeLockPayload ⟨owner, acquiredAt, expiresAt, .number (toString n), .object members⟩ ≠ "" := by
    intro hempty
    have hchars := congrArg String.toList hempty
    simp [serialize_toList] at hchars
  rw [parseLockPayload, if_neg hsome, serializeLockPayload, parse_stringify hvalue]
  rfl

theorem ownerPrefix_serialize {payload : RedisLockPayload} {caller : String} (howner : Plain payload.owner)
    (hcaller : Plain caller) :
    (ownerPrefix caller).isPrefixOf (serializeLockPayload payload).toList = decide (payload.owner = caller) := by
  have hkey : quote "owner" ++ [':', '"'] = "\"owner\":\"".toList := by decide
  -- both begin with the key, and go on with a name up to a quote
  obtain ⟨rest, htext⟩ : ∃ rest, (serializeLockPayload payload).toList =
      '{' :: "\"owner\":\"".toList ++ (payload.owner.toList ++ '"' :: rest) := by
    rw [serialize_toList, front, quote_plain howner, ← hkey]
    simp only [List.cons_append, List.append_assoc, List.nil_append]
    exact ⟨_, rfl⟩
  rw [htext, ownerPrefix, List.append_assoc, Bool.eq_iff_iff, List.isPrefixOf_iff_prefix, List.prefix_append_right_inj,
    decide_eq_true_eq]
  constructor
  · rintro ⟨tail, htail⟩
    rw [List.append_assoc, List.singleton_append] at htail
    exact (String.toList_inj.mp (append_cons_inj (noQuote_of_plain hcaller) (noQuote_of_plain howner) htail).1).symm
  · rintro rfl
    exact ⟨rest, by rw [List.append_assoc, List.singleton_append]⟩

def fencePattern : List Char := "\"fence\":0".toList

def fenceDirective : List Char := "\"fence\":%d".toList

theorem replaceFirst_char {c : Char} (hc : c ≠ '"') (rest : List Char) :
    replaceFirst fencePattern fenceDirective (c :: rest) = c :: replaceFirst fencePattern fenceDirective rest := by
  have hpattern : fencePattern = '"' :: "fence\":0".toList := by decide
  refine replaceFirst_skip _ ?_
  rw [hpattern, cons_prefix_cons]
  exact fun h => hc h.1.symm

theorem replaceFirst_quoted {text : List Char} {c : Char} (htext : '"' ∉ text) (hother : text ≠ "fence".toList ∨ c ≠ ':')
    (hc : c ≠ 'f') (rest : List Char) : replaceFirst fencePattern fenceDirective ('"' :: (text ++ '"' :: c :: rest)) =
      '"' :: (text ++ '"' :: replaceFirst fencePattern fenceDirective (c :: rest)) := by
  have hpattern : fencePattern = '"' :: ("fence".toList ++ '"' :: [':', '0']) := by decide
  have hopen : ¬fencePattern <+: '"' :: (text ++ '"' :: c :: rest) := by
    rw [hpattern, List.cons_prefix_cons]
    rintro ⟨-, tail, htail⟩
    rw [List.append_assoc, List.cons_append] at htail
    obtain ⟨hfence, hrest⟩ := append_cons_inj (by decide) htext htail
    rcases hother with hne | hne
    · exact hne hfence.symm
    · exact hne (List.cons.inj hrest).1.symm
  have hclose : ¬fencePattern <+: '"' :: c :: rest := by
    have hfence : "fence".toList = 'f' :: "ence".toList := by decide
    rw [hpattern, cons_prefix_cons, hfence, cons_append, cons_prefix_cons]
    exact fun h => hc h.2.1.symm
  rw [replaceFirst_skip _ hopen, hpattern, replaceFirst_plain _ _ htext, ← hpattern, replaceFirst_skip _ hclose]

variable {owner acquiredAt expiresAt : String}

theorem replaceFirst_front (howner : Plain owner) (hacq : Plain acquiredAt) (hexpires : Plain expiresAt)
    (rest : List Char) :
    replaceFirst fencePattern fenceDirective (front owner acquiredAt expiresAt ++ rest) =
      front owner acquiredAt expiresAt ++ replaceFirst fencePattern fenceDirective rest := by
  have hkeys : Plain "owner" ∧ Plain "acquiredAt" ∧ Plain "expiresAt" := by decide
  simp only [front, quote_plain howner, quote_plain hacq, quote_plain hexpires, quote_plain hkeys.1,
    quote_plain hkeys.2.1, quote_plain hkeys.2.2, cons_append, append_assoc, nil_append]
  rw [replaceFirst_char (by decide)]
  rw [replaceFirst_quoted (by decide) (.inl (by decide)) (by decide), replaceFirst_char (by decide)]
  rw [replaceFirst_quoted (noQuote_of_plain howner) (.inr (by decide)) (by decide), replaceFirst_char (by decide)]
  rw [replaceFirst_quoted (by decide) (.inl (by decide)) (by decide), replaceFirst_char (by decide)]
  rw [replaceFirst_quoted (noQuote_of_plain hacq) (.inr (by decide)) (by decide), replaceFirst_char (by decide)]
  rw [replaceFirst_quoted (by decide) (.inl (by decide)) (by decide), replaceFirst_char (by decide)]
  rw [replaceFirst_quoted (noQuote_of_plain hexpires) (.inr (by decide)) (by decide), replaceFirst_char (by decide)]

theorem luaFormat_template {metadata : Metadata} (howner : Plain owner) (hacq : Plain acquiredAt)
    (hexpires : Plain expiresAt) (hfront : Undirected (front owner acquiredAt expiresAt))
    (hback : Undirected (back (.object metadata.members))) (n : Nat) :
    luaFormat (payloadTemplate owner acquiredAt expiresAt metadata).toList (some n) = .ok (serializeLockPayload
      { owner, acquiredAt, expiresAt, fence := .number (toString n), metadata := .object metadata.members }).toList := by
  have hzero : Json.chars (.number "0") = ['0'] := by decide
  have hpattern : "\"fence\":".toList ++ ['0'] = fencePattern := by decide
  have hdirective : fenceDirective = "\"fence\":".toList ++ ['%', 'd'] := by decide
  have hdigits : Json.chars (.number (toString n)) = Nat.toDigits 10 n := Nat.toList_repr
  have hfence : Undirected (front owner acquiredAt expiresAt ++ "\"fence\":".toList) := by
    intro hmem
    rcases mem_append.mp hmem with hmem | hmem
    · exact hfront hmem
    · exact absurd hmem (by decide)
  have htemplate : (payloadTemplate owner acquiredAt expiresAt metadata).toList =
      (front owner acquiredAt expiresAt ++ "\"fence\":".toList) ++ '%' :: 'd' :: back (.object metadata.members) := by
    rw [payloadTemplate, String.toList_ofList, serialize_toList]
    simp only [hzero]
    rw [← append_assoc "\"fence\":".toList, hpattern]
    refine (replaceFirst_front howner hacq hexpires _).trans ?_
    rw [replaceFirst_here _ (by decide), hdirective]
    simp only [append_assoc, cons_append, nil_append]
  have hrest : luaFormat (back (.object metadata.members)) none = .ok (back (.object metadata.members)) := by
    have hplain := luaFormat_plain hback [] none
    rw [append_nil] at hplain
    rw [hplain]
    simp [luaFormat, Except.map]
  rw [htemplate, luaFormat_plain hfence, luaFormat_value, hrest, serialize_toList, hdigits]
  simp only [Except.map, append_assoc]

theorem plain_of_iso {date : Date} {text : String} (h : toISOString date = .ok text) :
    Plain text ∧ Undirected text.toList := by
  cases date with
  | none => cases h
  | some t =>
    obtain rfl := Except.ok.inj h
    have hchar : ∀ c ∈ isoChars t.val, escape c = [c] ∧ c ≠ '%' := by
      intro c hc
      rcases mem_isoChars hc with ⟨m, hm, rfl⟩ | hmem
      · have hdigit : ∀ m < 10, escape (digit m) = [digit m] ∧ digit m ≠ '%' := by decide
        exact hdigit m hm
      · simp only [mem_cons, not_mem_nil, or_false] at hmem
        rcases hmem with rfl | rfl | rfl | rfl | rfl | rfl <;> exact ⟨rfl, by decide⟩
    rw [Plain, Undirected, String.toList_ofList]
    exact ⟨fun c hc => (hchar c hc).1, fun hmem => (hchar _ hmem).2 rfl⟩

theorem undirected_front (howner : Plain owner) (hacq : Plain acquiredAt) (hexpires : Plain expiresAt)
    (h : Undirected owner.toList) (ha : Undirected acquiredAt.toList) (he : Undirected expiresAt.toList) :
    Undirected (front owner acquiredAt expiresAt) := by
  have hkeys : '%' ∉ quote "owner" ∧ '%' ∉ quote "acquiredAt" ∧ '%' ∉ quote "expiresAt" := by decide
  unfold Undirected at h ha he ⊢
  rw [front, quote_plain howner, quote_plain hacq, quote_plain hexpires]
  simp [hkeys, h, ha, he]

theorem undirected_back {metadata : Json} (h : Undirected metadata.chars) : Undirected (back metadata) := by
  have hkey : '%' ∉ quote "metadata" := by decide
  unfold Undirected at h ⊢
  simp only [back, mem_cons, mem_append, not_mem_nil, or_false, not_or]
  exact ⟨⟨by decide, hkey, by decide, h⟩, by decide⟩

end Delego.RedisLock
