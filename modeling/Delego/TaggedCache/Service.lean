import Delego.Data.Calendar
import Delego.Data.Json
import Delego.Process.Returned
import Delego.Redis.Keyspace

/-! The tagged cache (`utils/src/cache/taggedCache.ts`).

To set is to write the entry, and then, in one transaction, to add its key to the set of each tag. To
invalidate is to read the sets, delete the entries one by one, and delete the sets at last. Each command
is one step; it may fail, with nothing done or with its answer lost. -/
namespace Delego.TaggedCache
open Delego.Data Delego.Process Delego.Redis

/-- A value with its tags. -/
structure TaggedCacheEntry where
  key : String
  value : Json
  tags : List String
  nameSpace : Option String
  version : Nat
  ttlSeconds : Int
  (createdAt updatedAt : Date)

structure SetOptions where
  tags : Option (List String)
  ttlSeconds : Option Int
  nameSpace : Option String

structure Failure where
  (key error : String)

structure InvalidationResult where
  invalidatedKeys : List String
  affectedEntries : Nat
  errors : List Failure

def ENTRY_PREFIX : String := "cache:entry:"
def TAG_PREFIX : String := "cache:tag:"
def VERSION_PREFIX : String := "cache:version:"
def DEFAULT_TTL_SECONDS : Int := 3600

def entryKey (key : String) : String := ENTRY_PREFIX ++ key
def tagKey (tag : String) : String := TAG_PREFIX ++ tag
def versionKey (nameSpace : String) : String := VERSION_PREFIX ++ nameSpace

inductive Stored where
  | entry (entry : TaggedCacheEntry)
  | version (n : Nat)

abbrev Cache := Keyspace Stored

inductive Op where
  | get (key : String)
  | set (key : String) (value : Stored) (seconds : Int)
  | del (keys : List String)
  | smembers (key : String)
  | incr (key : String)
  /-- A transaction that adds a member to a set, for each pair. -/
  | multi (added : List (String × String))

@[reducible] def Op.Reply : Op → Type
  | .get _ => Option Stored
  | .set _ _ _ => Unit
  | .del _ => Nat
  | .smembers _ => List String
  | .incr _ => Nat
  | .multi _ => Unit

@[reducible] def redisSignature : Signature := ⟨Op, Op.Reply, String⟩

abbrev TaggedM (α : Type) := Program redisSignature α

def redis (o : Op) : TaggedM o.Reply := Program.perform (S := redisSignature) o

def incr (cache : Cache) (key : String) : Except String (Nat × Cache) :=
  match cache.live key with
  | none => .ok (1, cache.write key (some ⟨.text (.version 1), none⟩))
  | some ⟨.text (.version n), deadline⟩ => .ok (n + 1, cache.write key (some ⟨.text (.version (n + 1)), deadline⟩))
  | some ⟨.text (.entry _), _⟩ => .error "ERR value is not an integer or out of range"
  | some ⟨.members _, _⟩ => .error wrongType

def addMembers (added : List (String × String)) (cache : Cache) : Cache :=
  added.foldl (fun cache (key, member) => (cache.sadd key [member]).2) cache

/-- How a command ends, and in which order members are listed. -/
structure Choice where
  fate : Fate
  order : List String

def answer (order : List String) : (o : Op) → Cache → Except String (o.Reply × Cache)
  | .get key, cache => (cache.get key).map fun value => (value, cache)
  | .set key value seconds, cache =>
    match cache.setEx key value seconds with
    | (.ok _, cache) => .ok ((), cache)
    | (.error message, _) => .error message
  | .del keys, cache => .ok (cache.del keys)
  | .smembers key, cache => (cache.smembers key).map fun members => (inOrder order members, cache)
  | .incr key, cache => incr cache key
  | .multi added, cache => .ok ((), addMembers added cache)

def perform (o : Op) (ch : Choice) (cache : Cache) : Except String o.Reply × Cache :=
  ch.fate.deliver (answer ch.order o cache) cache

def getVersion (nameSpace : String) : TaggedM Nat := do
  match ← redis (.get (versionKey nameSpace)) with
  | some (.version n) => return n
  | _ => return 0

def named (nameSpace : Option String) : Option String := nameSpace.filter fun text => decide (text ≠ "")

/-- `now` is the time of the caller's clock. -/
def set (key : String) (value : Json) (options : SetOptions) (now : Date) : TaggedM Unit := do
  let tags := options.tags.getD []
  let ttlSeconds := options.ttlSeconds.getD DEFAULT_TTL_SECONDS
  let version ← match named options.nameSpace with
    | some nameSpace => getVersion nameSpace
    | none => pure 0
  let entry : TaggedCacheEntry :=
    { key, value, tags, nameSpace := options.nameSpace, version, ttlSeconds, createdAt := now, updatedAt := now }
  let _ ← redis (.set (entryKey key) (.entry entry) ttlSeconds)
  if tags ≠ [] then redis (.multi (tags.map fun tag => (tagKey tag, key)))

/-- The value, or nothing where there is none, or its namespace has another version. -/
def get (key : String) : TaggedM (Option Json) := do
  match ← redis (.get (entryKey key)) with
  | some (.entry entry) =>
    match named entry.nameSpace with
    | some nameSpace =>
      let currentVersion ← getVersion nameSpace
      return if currentVersion ≠ entry.version then none else some entry.value
    | none => return some entry.value
  | _ => return none

def delete (key : String) : TaggedM Unit := do
  let _ ← redis (.del [entryKey key])

def bumpVersion (nameSpace : String) : TaggedM Nat := redis (.incr (versionKey nameSpace))

def addKeys (keys members : List String) : List String :=
  members.foldl (fun keys member => if member ∈ keys then keys else keys ++ [member]) keys

def collectKeys (keys : List String) (errors : List Failure) : List String → TaggedM (List String × List Failure)
  | [] => pure (keys, errors)
  | tag :: tags => do
    match ← (redis (.smembers (tagKey tag))).attempt with
    | .ok members => collectKeys (addKeys keys members) errors tags
    | .error error => collectKeys keys (errors ++ [⟨tagKey tag, error⟩]) tags

def deleteEntries (invalidatedKeys : List String) (errors : List Failure) :
    List String → TaggedM (List String × List Failure)
  | [] => pure (invalidatedKeys, errors)
  | key :: keys => do
    match ← (redis (.del [entryKey key])).attempt with
    | .ok _ => deleteEntries (invalidatedKeys ++ [key]) errors keys
    | .error error => deleteEntries invalidatedKeys (errors ++ [⟨key, error⟩]) keys

def invalidateByTags (tags : List String) : TaggedM InvalidationResult := do
  let (keysToInvalidate, errors) ← collectKeys [] [] tags
  let (invalidatedKeys, errors) ← deleteEntries [] errors keysToInvalidate
  -- that the sets could not be deleted is passed over
  let _ ← (redis (.del (tags.map tagKey))).attempt
  return { invalidatedKeys, affectedEntries := invalidatedKeys.length, errors }

def invalidateByTag (tag : String) : TaggedM InvalidationResult := invalidateByTags [tag]

inductive Call where
  | set (key : String) (value : Json) (options : SetOptions) (now : Date)
  | get (key : String)
  | delete (key : String)
  | bumpVersion (nameSpace : String)
  | invalidateByTags (tags : List String)

def Call.body : Call → TaggedM Unit
  | .set key value options now => TaggedCache.set key value options now
  | .get key => do
    let _ ← TaggedCache.get key
  | .delete key => TaggedCache.delete key
  | .bumpVersion nameSpace => do
    let _ ← TaggedCache.bumpVersion nameSpace
  | .invalidateByTags tags => do
    let _ ← TaggedCache.invalidateByTags tags

/-- Calls come at any time, and the clock moves on between commands. -/
def system : System redisSignature Cache where
  Choice := Choice
  Event := Nat
  Call := Call
  perform := perform
  drift := fun ms cache => cache.advance ms
  arrive := fun _ cache => some cache
  body := Call.body

end Delego.TaggedCache
