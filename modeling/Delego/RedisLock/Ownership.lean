import Delego.Data.History
import Delego.RedisLock.Primitives

/-! Whose a lock is, over any history.

Where owners are written as they are, metadata has no directives, no lock is kept under the key of a fence, and
a renewal keeps a fence that was issued, every lock holds the payload of its owner with a fence that has been
counted (`Sound`); then calls do to a lock what its owner says (`ownership`). -/
namespace Delego.RedisLock
open Delego.Data Delego.Redis Option

section
def LockKey (key : String) : Prop := ∀ lockKey, key ≠ fenceKeyFor lockKey

variable {key : String}

theorem lockKey_of_begins (h : ¬"lock:fence:".toList <+: key.toList) : LockKey key := by
  rintro lockKey rfl
  rw [fenceKeyFor, String.toList_append] at h
  exact h (List.prefix_append _ _)

/-- What the fence of the key has counted up to. -/
def counter (redis : Redis) (lockKey : String) : Nat :=
  match redis.live (fenceKeyFor lockKey) with
  | some ⟨.text text, _⟩ => (integerOf text).getD 0
  | _ => 0

def HeldBy (redis : Redis) (lockKey owner : String) : Prop :=
  ∃ text deadline payload, redis.live lockKey = some ⟨.text text, deadline⟩ ∧ parseLockPayload (some text) = some payload ∧
    payload.owner = owner

inductive Step where
  | acquire (lockKey owner : String) (ttlMs : Int) (metadata : Metadata) (now : Instant)
  | renew (lockKey owner : String) (ttlMs : Int) (metadata : Metadata) (fence : Json) (now : Instant)
  | release (lockKey owner : String)
  | advance (ms : Nat)

def apply (redis : Redis) : Step → Redis
  | .acquire lockKey owner ttlMs metadata now => (redisLockAcquire lockKey owner ttlMs metadata now redis).2
  | .renew lockKey owner ttlMs metadata fence now => (redisLockRenew lockKey owner ttlMs metadata fence now redis).2
  | .release lockKey owner => (redisLockRelease lockKey owner redis).2
  | .advance ms => redis.advance ms

def run (redis : Redis) (history : List Step) : Redis := History.run apply redis history

def Allows (redis : Redis) : Step → Prop
  | .acquire lockKey owner _ metadata _ => LockKey lockKey ∧ Plain owner ∧ Undirected owner.toList ∧
      Undirected (Json.object metadata.members).chars ∧ counter redis lockKey + 1 < 2 ^ 53
  | .renew lockKey owner _ _ fence _ => LockKey lockKey ∧ Plain owner ∧
      ∃ n ≤ counter redis lockKey, fence = .number (toString n)
  | .release lockKey owner => LockKey lockKey ∧ Plain owner
  | .advance _ => True

def Orderly (redis : Redis) (history : List Step) : Prop := History.Orderly apply Allows redis history

/-! ### The invariant -/

theorem integerOf_toString (n : Nat) : integerOf (toString n) = some n := by
  have htext : (toString n).toList = Nat.toDigits 10 n := Nat.toList_repr
  rw [integerOf, htext, readDigits_toDigits, filter_some, if_pos (decide_eq_true rfl)]

theorem fenceKeyFor_injective {key key' : String} (h : fenceKeyFor key = fenceKeyFor key') : key = key' := by
  have hchars := congrArg String.toList h
  rw [fenceKeyFor, fenceKeyFor, String.toList_append, String.toList_append] at hchars
  exact String.toList_inj.mp (List.append_cancel_left hchars)

/-- The fence of the key has counted up to `n`, for good. -/
def Counts (redis : Redis) (key : String) (n : Nat) : Prop :=
  redis.live (fenceKeyFor key) = none ∧ n = 0 ∨ redis.live (fenceKeyFor key) = some ⟨.text (toString n), none⟩

variable {redis : Redis}

theorem counter_of_counts {n : Nat} (h : Counts redis key n) : counter redis key = n := by
  unfold counter
  rcases h with ⟨hlive, rfl⟩ | hlive
  · rw [hlive]
  · rw [hlive]
    simp only [integerOf_toString, getD_some]

/-- A payload that a call has written, with a fence up to `n`. -/
structure Lawful (payload : RedisLockPayload) (n : Nat) : Prop where
  plain : Plain payload.owner
  fence : ∃ m ≤ n, payload.fence = .number (toString m)
  metadata : ∃ metadata : Metadata, payload.metadata = .object metadata.members

/-- Fences count up, and locks are below them. -/
structure Sound (redis : Redis) : Prop where
  counters : ∀ key, counter redis key < 2 ^ 53 ∧ Counts redis key (counter redis key)
  locks : ∀ key entry, LockKey key → redis.live key = some entry →
    ∃ payload, entry.value = .text (serializeLockPayload payload) ∧ Lawful payload (counter redis key)

variable {payload : RedisLockPayload}

theorem Lawful.mono {n n' : Nat} (h : Lawful payload n) (hle : n ≤ n') : Lawful payload n' := by
  obtain ⟨m, hm, hfence⟩ := h.fence
  exact ⟨h.plain, ⟨m, hm.trans hle, hfence⟩, h.metadata⟩

theorem Lawful.parse {n : Nat} (h : Lawful payload n) (hn : n < 2 ^ 53) :
    parseLockPayload (some (serializeLockPayload payload)) = some payload := by
  obtain ⟨m, hm, hfence⟩ := h.fence
  obtain ⟨metadata, hmetadata⟩ := h.metadata
  exact parse_serialize (by omega) hfence hmetadata metadata.readable

theorem sound_empty (now : Nat) : Sound (.empty now) where
  counters _ := ⟨(by decide : 0 < 2 ^ 53), .inl ⟨rfl, rfl⟩⟩
  locks _ _ _ hlive := by cases hlive

variable {redis redis' : Redis}

theorem counter_congr (h : redis'.live (fenceKeyFor key) = redis.live (fenceKeyFor key)) :
    counter redis' key = counter redis key := by
  unfold counter
  rw [h]

theorem Sound.of_fences (h : Sound redis)
    (hfences : ∀ key, redis'.live (fenceKeyFor key) = redis.live (fenceKeyFor key))
    (hlocks : ∀ key entry, LockKey key → redis'.live key = some entry → redis.live key = some entry ∨
      ∃ payload, entry.value = .text (serializeLockPayload payload) ∧ Lawful payload (counter redis key)) :
    Sound redis' where
  counters key := by
    rw [counter_congr (hfences key)]
    unfold Counts
    rw [hfences key]
    exact h.counters key
  locks key entry hkey hlive := by
    rw [counter_congr (hfences key)]
    rcases hlocks key entry hkey hlive with hpre | hwrit
    · exact h.locks key entry hkey hpre
    · exact hwrit

theorem Sound.advance (h : Sound redis) (ms : Nat) : Sound (redis.advance ms) ∧
    ∀ key, (redis.advance ms).live (fenceKeyFor key) = redis.live (fenceKeyFor key) := by
  have hfences : ∀ key, (redis.advance ms).live (fenceKeyFor key) = redis.live (fenceKeyFor key) := by
    intro key
    rcases (h.counters key).2 with ⟨hnone, -⟩ | hsome
    · rw [hnone]
      refine eq_none_iff_forall_not_mem.mpr fun entry hafter => ?_
      simp [(Keyspace.live_advance.mp hafter).1] at hnone
    · rw [hsome]
      exact Keyspace.live_advance.mpr ⟨hsome, rfl⟩
  exact ⟨h.of_fences hfences fun key entry _ hlive => .inl (Keyspace.live_advance.mp hlive).1, hfences⟩

theorem Sound.locked (h : Sound redis) {lockKey : String} (hkey : LockKey lockKey) (hlawful : Lawful payload (counter redis lockKey)) (deadline : Option Nat) :
    Sound (redis.write lockKey (some ⟨.text (serializeLockPayload payload), deadline⟩)) ∧
      ∀ key, (redis.write lockKey (some ⟨.text (serializeLockPayload payload), deadline⟩)).live (fenceKeyFor key) =
        redis.live (fenceKeyFor key) := by
  have hfences : ∀ key, (redis.write lockKey (some ⟨.text (serializeLockPayload payload), deadline⟩)).live (fenceKeyFor key) =
      redis.live (fenceKeyFor key) := fun key => Keyspace.live_write_ne (hkey key).symm _
  refine ⟨h.of_fences hfences fun key entry _ hlive => ?_, hfences⟩
  rw [Keyspace.live_write] at hlive
  split at hlive
  · rename_i hsame
    subst hsame
    cases (filter_eq_some_iff.mp hlive).1
    exact .inr ⟨payload, rfl, hlawful⟩
  · exact .inl hlive

def counted (redis : Redis) (lockKey : String) : Redis :=
  redis.write (fenceKeyFor lockKey) (some ⟨.text (toString (counter redis lockKey + 1)), none⟩)

theorem incr_fence (h : Sound redis) (lockKey : String) :
    incr redis (fenceKeyFor lockKey) = (.ok (counter redis lockKey + 1), counted redis lockKey) := by
  obtain ⟨hbound, hcounts⟩ := h.counters lockKey
  unfold incr counted
  rcases hcounts with ⟨hlive, hzero⟩ | hlive
  · rw [hlive, hzero]
  · simp only [hlive, integerOf_toString]
    rw [if_pos (by omega)]

theorem counter_counted (redis : Redis) (lockKey key : String) : counter (counted redis lockKey) key =
    if key = lockKey then counter redis lockKey + 1 else counter redis key := by
  by_cases hkey : key = lockKey
  · subst hkey
    rw [if_pos rfl]
    exact counter_of_counts (.inr (Keyspace.live_write_self rfl))
  · rw [if_neg hkey]
    exact counter_congr (Keyspace.live_write_ne (fun heq => hkey (fenceKeyFor_injective heq)) _)

theorem live_counted (hkey : LockKey key) (redis : Redis) (lockKey : String) :
    (counted redis lockKey).live key = redis.live key := Keyspace.live_write_ne (hkey lockKey) _

theorem le_counted (redis : Redis) (lockKey key : String) : counter redis key ≤ counter (counted redis lockKey) key := by
  rw [counter_counted]
  split
  · rename_i hkey
    rw [hkey]
    omega
  · exact le_rfl

theorem sound_counted (h : Sound redis) {lockKey : String} (hbound : counter redis lockKey + 1 < 2 ^ 53) :
    Sound (counted redis lockKey) where
  counters key := by
    rw [counter_counted]
    by_cases hkey : key = lockKey
    · subst hkey
      rw [if_pos rfl]
      exact ⟨hbound, .inr (Keyspace.live_write_self rfl)⟩
    · have hsame : (counted redis lockKey).live (fenceKeyFor key) = redis.live (fenceKeyFor key) :=
        Keyspace.live_write_ne (fun heq => hkey (fenceKeyFor_injective heq)) _
      rw [if_neg hkey]
      unfold Counts
      rw [hsame]
      exact h.counters key
  locks key entry hkey hlive := by
    rw [live_counted hkey] at hlive
    obtain ⟨payload, hvalue, hlawful⟩ := h.locks key entry hkey hlive
    exact ⟨payload, hvalue, hlawful.mono (le_counted redis lockKey key)⟩

/-! ### Calls -/

variable {redis : Redis} {lockKey owner : String}

theorem Sound.held (h : Sound redis) (hkey : LockKey lockKey) {entry : Entry String}
    (hlive : redis.live lockKey = some entry) : ∃ payload deadline,
      redis.live lockKey = some ⟨.text (serializeLockPayload payload), deadline⟩ ∧
        Lawful payload (counter redis lockKey) ∧ parseLockPayload (some (serializeLockPayload payload)) = some payload := by
  obtain ⟨payload, hvalue, hlawful⟩ := h.locks lockKey entry hkey hlive
  obtain ⟨value, deadline⟩ := entry
  obtain rfl : value = .text (serializeLockPayload payload) := hvalue
  exact ⟨payload, deadline, hlive, hlawful, hlawful.parse (h.counters lockKey).1⟩

theorem text_eq {text text' : String} {deadline deadline' : Option Nat} (h : redis.live lockKey = some ⟨.text text, deadline⟩)
    (h' : redis.live lockKey = some ⟨.text text', deadline'⟩) : text = text' :=
  Value.text.inj (Entry.mk.inj (Option.some.inj (h.symm.trans h'))).1

theorem heldBy_iff {deadline : Option Nat}
    (hlive : redis.live lockKey = some ⟨.text (serializeLockPayload payload), deadline⟩)
    (hparse : parseLockPayload (some (serializeLockPayload payload)) = some payload) :
    HeldBy redis lockKey owner ↔ payload.owner = owner := by
  constructor
  · rintro ⟨text, deadline', payload', hlive', hparse', howner⟩
    rw [text_eq hlive' hlive, hparse] at hparse'
    obtain rfl := Option.some.inj hparse'
    exact howner
  · exact fun howner => ⟨_, deadline, payload, hlive, hparse, howner⟩

theorem not_heldBy (h : redis.live lockKey = none) : ¬HeldBy redis lockKey owner := by
  rintro ⟨text, deadline, payload, hlive, -⟩
  simp [h] at hlive

def acquiring (redis : Redis) (lockKey owner acquiredAt expiresAt : String) (metadata : Metadata) : RedisLockPayload where
  owner := owner
  acquiredAt := acquiredAt
  expiresAt := expiresAt
  fence := .number (toString (counter redis lockKey + 1))
  metadata := .object metadata.members

theorem lawful_acquiring (redis : Redis) (lockKey : String) (howner : Plain owner) (acquiredAt expiresAt : String)
    (metadata : Metadata) :
    Lawful (acquiring redis lockKey owner acquiredAt expiresAt metadata) (counter redis lockKey + 1) :=
  ⟨howner, ⟨_, le_rfl, rfl⟩, metadata, rfl⟩

theorem acquireLua_of_format (h : Sound redis) {template : String}
    (hformat : luaFormat template.toList (some (roundNat (counter redis lockKey + 1))) =
      .ok (serializeLockPayload payload).toList) (ttlMs : Int) :
    acquireLua lockKey (fenceKeyFor lockKey) template ttlMs redis =
      match (counted redis lockKey).setNxPx lockKey (serializeLockPayload payload) ttlMs with
      | (.error message, redis) => (.error message, redis)
      | (.ok true, redis') => (.ok (some (serializeLockPayload payload)), redis')
      | (.ok false, redis) => (redis.get lockKey, redis) := by
  unfold acquireLua
  rcases hset : (counted redis lockKey).setNxPx lockKey (serializeLockPayload payload) ttlMs with ⟨message | ⟨_ | _⟩, redis'⟩
  · simp only [incr_fence h lockKey, hformat, String.ofList_toList, hset]
  · simp only [incr_fence h lockKey, hformat, String.ofList_toList, hset]
  · simp only [incr_fence h lockKey, hformat, String.ofList_toList, hset]

variable {metadata : Metadata} {now : Instant} {ttlMs : Int}

theorem format_acquiring
    (hallows : Allows redis (.acquire lockKey owner ttlMs metadata now)) {acquired expires : Date} {acquiredAt expiresAt : String}
    (hacq : toISOString acquired = .ok acquiredAt) (hexpires : toISOString expires = .ok expiresAt) :
    luaFormat (payloadTemplate owner acquiredAt expiresAt metadata).toList (some (roundNat (counter redis lockKey + 1))) =
      .ok (serializeLockPayload (acquiring redis lockKey owner acquiredAt expiresAt metadata)).toList := by
  obtain ⟨-, howner, hdirected, hmetadata, hbound⟩ := hallows
  obtain ⟨hplain, hundirected⟩ := plain_of_iso hacq
  obtain ⟨hplain', hundirected'⟩ := plain_of_iso hexpires
  have hfront := undirected_front howner hplain hplain' hdirected hundirected hundirected'
  rw [roundNat_safe hbound]
  exact luaFormat_template howner hplain hplain' hfront (undirected_back hmetadata) (counter redis lockKey + 1)

/-- The time to live can be set, and both dates be written. -/
def Timely (redis : Redis) (ttlMs : Int) (now : Instant) : Prop :=
  (deadlineIn redis.now ttlMs).isSome = true ∧ (newDate (now.val + ttlMs)).isSome = true

theorem iso_of_some {date : Date} (h : date.isSome = true) : ∃ text, toISOString date = .ok text := by
  cases date with
  | none => cases h
  | some t => exact ⟨_, rfl⟩

/-- The owner has the lock, with a fence above all earlier ones. -/
def Acquires (earlier : Json → Prop) (lockKey owner : String) (metadata : Metadata)
    (result : Except String AcquireResult × Redis) : Prop :=
  ∃ (payload : RedisLockPayload) (n : Nat) (text : String) (deadline : Nat), result.1 = .ok ⟨true, some payload⟩ ∧
    result.2.live lockKey = some ⟨.text text, some deadline⟩ ∧ parseLockPayload (some text) = some payload ∧
    payload.owner = owner ∧ payload.metadata = .object metadata.members ∧ payload.fence = .number (toString n) ∧
    ∀ fence, earlier fence → ∃ m : Nat, m < n ∧ fence = .number (toString m)

/-- The lock is not given, and stays as it is. -/
def Refuses (redis : Redis) (lockKey : String) (result : Except String AcquireResult × Redis) : Prop :=
  (∀ payload, result.1 ≠ .ok ⟨true, payload⟩) ∧ result.2.live lockKey = redis.live lockKey

theorem acquire_free (h : Sound redis) (hkey : LockKey lockKey) (hfree : redis.live lockKey = none) {acquiredAt expiresAt : String} {deadline : Nat}
    (hacq : toISOString (some now) = .ok acquiredAt) (hexpires : toISOString (newDate (now.val + ttlMs)) = .ok expiresAt)
    (hdead : deadlineIn redis.now ttlMs = some deadline)
    (hformat : luaFormat (payloadTemplate owner acquiredAt expiresAt metadata).toList
      (some (roundNat (counter redis lockKey + 1))) = .ok (serializeLockPayload payload).toList)
    (hparse : parseLockPayload (some (serializeLockPayload payload)) = some payload) (howner : payload.owner = owner) :
    redisLockAcquire lockKey owner ttlMs metadata now redis = (.ok ⟨true, some payload⟩,
      (counted redis lockKey).write lockKey (some ⟨.text (serializeLockPayload payload), some deadline⟩)) := by
  have hcnt : (counted redis lockKey).live lockKey = none := (live_counted hkey redis lockKey).trans hfree
  have hset : (counted redis lockKey).setNxPx lockKey (serializeLockPayload payload) ttlMs = (.ok true,
      (counted redis lockKey).write lockKey (some ⟨.text (serializeLockPayload payload), some deadline⟩)) := by
    have hdead' : deadlineIn (counted redis lockKey).now ttlMs = some deadline := hdead
    rw [Keyspace.setNxPx, hdead', hcnt]
    rfl
  unfold redisLockAcquire
  simp only [hacq, hexpires, acquireLua_of_format h hformat, hset, hparse, howner, decide_true]

theorem acquire_malformed (h : Sound redis)
    {acquiredAt expiresAt message : String} (hacq : toISOString (some now) = .ok acquiredAt)
    (hexpires : toISOString (newDate (now.val + ttlMs)) = .ok expiresAt)
    (hformat : luaFormat (payloadTemplate owner acquiredAt expiresAt metadata).toList
      (some (roundNat (counter redis lockKey + 1))) = .error message) :
    redisLockAcquire lockKey owner ttlMs metadata now redis = (.error message, counted redis lockKey) := by
  unfold redisLockAcquire acquireLua
  simp only [hacq, hexpires, incr_fence h lockKey, hformat]

theorem acquires_of_free (h : Sound redis)
    (hallows : Allows redis (.acquire lockKey owner ttlMs metadata now)) (htimely : Timely redis ttlMs now)
    (hfree : redis.live lockKey = none) {earlier : Json → Prop}
    (hearlier : ∀ fence, earlier fence → ∃ m ≤ counter redis lockKey, fence = .number (toString m)) :
    Acquires earlier lockKey owner metadata (redisLockAcquire lockKey owner ttlMs metadata now redis) := by
  obtain ⟨hkey, howner, -, -, hbound⟩ := id hallows
  obtain ⟨acquiredAt, hacq⟩ := iso_of_some (isSome_some (a := now))
  obtain ⟨expiresAt, hexpires⟩ := iso_of_some htimely.2
  obtain ⟨deadline, hdead⟩ := isSome_iff_exists.mp htimely.1
  have hparse := (lawful_acquiring redis lockKey howner acquiredAt expiresAt metadata).parse hbound
  have hlt : redis.now < deadline := Keyspace.lt_deadlineIn hdead
  rw [acquire_free h hkey hfree hacq hexpires hdead (format_acquiring hallows hacq hexpires) hparse rfl]
  refine ⟨_, counter redis lockKey + 1, _, deadline, rfl, Keyspace.live_write_self (decide_eq_true hlt), hparse, rfl, rfl, rfl,
    fun fence hfence => ?_⟩
  obtain ⟨m, hm, hnumeral⟩ := hearlier fence hfence
  exact ⟨m, by omega, hnumeral⟩

theorem acquireLua_taken (h : Sound redis) (hkey : LockKey lockKey) {text : String} {deadline : Option Nat}
    (hlive : redis.live lockKey = some ⟨.text text, deadline⟩) (template : String) (ttlMs : Int) :
    (acquireLua lockKey (fenceKeyFor lockKey) template ttlMs redis).2 = counted redis lockKey ∧
      ∀ raw, (acquireLua lockKey (fenceKeyFor lockKey) template ttlMs redis).1 = .ok raw → raw = some text := by
  have hcnt : (counted redis lockKey).live lockKey = some ⟨.text text, deadline⟩ :=
    (live_counted hkey redis lockKey).trans hlive
  unfold acquireLua
  simp only [incr_fence h lockKey]
  cases luaFormat template.toList (some (roundNat (counter redis lockKey + 1))) with
  | error message => exact ⟨rfl, fun raw hraw => by cases hraw⟩
  | ok chars =>
    simp only [Keyspace.setNxPx, hcnt, isSome_some, if_true]
    cases deadlineIn (counted redis lockKey).now ttlMs with
    | none => exact ⟨rfl, fun raw hraw => by cases hraw⟩
    | some d =>
      simp only [Keyspace.get, hcnt]
      exact ⟨trivial, fun raw hraw => (Except.ok.inj hraw).symm⟩

theorem refuses_of_held (h : Sound redis) (hkey : LockKey lockKey) {other : String} (hheld : HeldBy redis lockKey other)
    (hother : other ≠ owner) (ttlMs : Int) (metadata : Metadata) (now : Instant) :
    Refuses redis lockKey (redisLockAcquire lockKey owner ttlMs metadata now redis) := by
  obtain ⟨text, deadline, payload, hlive, hparse, rfl⟩ := hheld
  unfold redisLockAcquire
  cases toISOString (some now) with
  | error message => exact ⟨fun _ hres => (by cases hres), rfl⟩
  | ok acquiredAt =>
    cases toISOString (newDate (now.val + ttlMs)) with
    | error message => exact ⟨fun _ hres => (by cases hres), rfl⟩
    | ok expiresAt =>
      obtain ⟨hleft, hraw⟩ := acquireLua_taken h hkey hlive (payloadTemplate owner acquiredAt expiresAt metadata) ttlMs
      simp only
      generalize acquireLua lockKey (fenceKeyFor lockKey) (payloadTemplate owner acquiredAt expiresAt metadata) ttlMs redis =
        result at hleft hraw
      obtain ⟨outcome, redis'⟩ := result
      obtain rfl : redis' = counted redis lockKey := hleft
      cases outcome with
      | error message => exact ⟨fun _ hres => (by cases hres), live_counted hkey redis lockKey⟩
      | ok raw =>
        obtain rfl := hraw raw rfl
        simp only [hparse, decide_eq_false hother]
        exact ⟨fun _ hres => (by cases hres), live_counted hkey redis lockKey⟩

theorem renew_iff (h : Sound redis) (hkey : LockKey lockKey) (howner : Plain owner)
    {fence : Json} (htimely : Timely redis ttlMs now) :
    (redisLockRenew lockKey owner ttlMs metadata fence now redis).1 = .ok .ok ↔ HeldBy redis lockKey owner := by
  obtain ⟨acquiredAt, hacq⟩ := iso_of_some (isSome_some (a := now))
  obtain ⟨expiresAt, hexpires⟩ := iso_of_some htimely.2
  obtain ⟨deadline, hdead⟩ := isSome_iff_exists.mp htimely.1
  unfold redisLockRenew renewLua
  simp only [hacq, hexpires]
  cases hlive : redis.live lockKey with
  | none =>
    simp only [Keyspace.get, hlive]
    exact ⟨fun hres => by simp at hres, fun hheld => absurd hheld (not_heldBy hlive)⟩
  | some entry =>
    obtain ⟨payload, d, hlive', hlawful, hparse⟩ := h.held hkey hlive
    have hget : redis.get lockKey = .ok (some (serializeLockPayload payload)) := by simp only [Keyspace.get, hlive']
    rw [heldBy_iff hlive' hparse]
    simp only [hget, ownerPrefix_serialize hlawful.plain howner, Keyspace.setPx, hdead]
    by_cases hsame : payload.owner = owner
    · simp [hsame]
    · simp [hsame]

theorem release_iff (h : Sound redis) (hkey : LockKey lockKey) (howner : Plain owner) :
    (redisLockRelease lockKey owner redis).1 = .ok true ↔ HeldBy redis lockKey owner := by
  unfold redisLockRelease releaseLua
  cases hlive : redis.live lockKey with
  | none =>
    simp only [Keyspace.get, hlive]
    exact ⟨fun hres => by simp at hres, fun hheld => absurd hheld (not_heldBy hlive)⟩
  | some entry =>
    obtain ⟨payload, d, hlive', hlawful, hparse⟩ := h.held hkey hlive
    have hget : redis.get lockKey = .ok (some (serializeLockPayload payload)) := by simp only [Keyspace.get, hlive']
    rw [heldBy_iff hlive' hparse]
    simp only [hget, ownerPrefix_serialize hlawful.plain howner]
    by_cases hsame : payload.owner = owner
    · simp [hsame, Keyspace.del, hlive']
    · simp [hsame]

end

/-! ### Locks over any history of calls and expiries -/

variable {redis : Redis} {lockKey owner : String}

def Keeps (redis redis' : Redis) : Prop := Sound redis' ∧ ∀ key, counter redis key ≤ counter redis' key

theorem Sound.keeps (h : Sound redis) : Keeps redis redis := ⟨h, fun _ => le_rfl⟩

theorem Keeps.trans {redis redis' redis'' : Redis} (h : Keeps redis redis') (h' : Keeps redis' redis'') : Keeps redis redis'' :=
  ⟨h'.1, fun key => (h.2 key).trans (h'.2 key)⟩

theorem Keeps.of_fences (h : Sound redis' ∧ ∀ key, redis'.live (fenceKeyFor key) =
    redis.live (fenceKeyFor key)) : Keeps redis redis' :=
  ⟨h.1, fun key => (counter_congr (h.2 key)).ge⟩

theorem Sound.keeps_counted (h : Sound redis) (hbound : counter redis lockKey + 1 < 2 ^ 53) : Keeps redis (counted redis lockKey) :=
  ⟨sound_counted h hbound, le_counted redis lockKey⟩

theorem Sound.keeps_setNxPx (h : Sound redis) (hkey : LockKey lockKey) {payload : RedisLockPayload}
    (hlawful : Lawful payload (counter redis lockKey)) (ttlMs : Int) :
    Keeps redis (redis.setNxPx lockKey (serializeLockPayload payload) ttlMs).2 := by
  unfold Keyspace.setNxPx
  cases deadlineIn redis.now ttlMs with
  | none => exact h.keeps
  | some deadline =>
    by_cases htaken : (redis.live lockKey).isSome
    · simp only [if_pos htaken]
      exact h.keeps
    · simp only [if_neg htaken]
      exact .of_fences (h.locked hkey hlawful (some deadline))

theorem Sound.keeps_setPx (h : Sound redis) (hkey : LockKey lockKey) {payload : RedisLockPayload}
    (hlawful : Lawful payload (counter redis lockKey)) (ttlMs : Int) :
    Keeps redis (redis.setPx lockKey (serializeLockPayload payload) ttlMs).2 := by
  unfold Keyspace.setPx
  cases deadlineIn redis.now ttlMs with
  | none => exact h.keeps
  | some deadline => exact .of_fences (h.locked hkey hlawful (some deadline))

theorem Sound.keeps_del (h : Sound redis) (hkey : LockKey lockKey) : Keeps redis (redis.del [lockKey]).2 := by
  have hfences : ∀ key, (redis.del [lockKey]).2.live (fenceKeyFor key) = redis.live (fenceKeyFor key) := by
    intro key
    rw [Keyspace.live_del, if_neg (List.mem_singleton.not.mpr (hkey key).symm)]
  refine .of_fences ⟨h.of_fences hfences fun key entry _ hlive => .inl ?_, hfences⟩
  rw [Keyspace.live_del] at hlive
  split at hlive
  · cases hlive
  · exact hlive

theorem keeps_acquire (h : Sound redis) {ttlMs : Int} {metadata : Metadata} {now : Instant}
    (hallows : Allows redis (.acquire lockKey owner ttlMs metadata now)) :
    Keeps redis (redisLockAcquire lockKey owner ttlMs metadata now redis).2 := by
  obtain ⟨hkey, howner, -, -, hbound⟩ := id hallows
  unfold redisLockAcquire
  cases hacq : toISOString (some now) with
  | error message => exact h.keeps
  | ok acquiredAt =>
    cases hexpires : toISOString (newDate (now.val + ttlMs)) with
    | error message => exact h.keeps
    | ok expiresAt =>
      have hcnt := h.keeps_counted hbound
      have hlawful := lawful_acquiring redis lockKey howner acquiredAt expiresAt metadata
      have hcount : counter (counted redis lockKey) lockKey = counter redis lockKey + 1 := by
        rw [counter_counted, if_pos rfl]
      rw [← hcount] at hlawful
      have hset := hcnt.trans (hcnt.1.keeps_setNxPx hkey hlawful ttlMs)
      have hscript : Keeps redis (acquireLua lockKey (fenceKeyFor lockKey) (payloadTemplate owner acquiredAt expiresAt metadata)
          ttlMs redis).2 := by
        rw [acquireLua_of_format h (format_acquiring hallows hacq hexpires)]
        generalize (counted redis lockKey).setNxPx lockKey
          (serializeLockPayload (acquiring redis lockKey owner acquiredAt expiresAt metadata)) ttlMs = result at hset
        obtain ⟨message | ⟨_ | _⟩, redis'⟩ := result
        · exact hset
        · exact hset
        · exact hset
      simp only
      generalize acquireLua lockKey (fenceKeyFor lockKey) (payloadTemplate owner acquiredAt expiresAt metadata) ttlMs redis =
        result at hscript
      obtain ⟨message | raw, redis'⟩ := result
      · exact hscript
      · simp only
        cases parseLockPayload raw with
        | none => exact hscript
        | some payload => exact hscript

theorem keeps_renew (h : Sound redis) {ttlMs : Int} {metadata : Metadata} {fence : Json} {now : Instant}
    (hallows : Allows redis (.renew lockKey owner ttlMs metadata fence now)) :
    Keeps redis (redisLockRenew lockKey owner ttlMs metadata fence now redis).2 := by
  obtain ⟨hkey, howner, hfence⟩ := hallows
  unfold redisLockRenew
  cases toISOString (some now) with
  | error message => exact h.keeps
  | ok acquiredAt =>
    cases toISOString (newDate (now.val + ttlMs)) with
    | error message => exact h.keeps
    | ok expiresAt =>
      have hlawful : Lawful ⟨owner, acquiredAt, expiresAt, fence, .object metadata.members⟩ (counter redis lockKey) :=
        ⟨howner, hfence, metadata, rfl⟩
      have hset := h.keeps_setPx hkey hlawful ttlMs
      have hscript : Keeps redis (renewLua lockKey owner ttlMs (serializeLockPayload
          ⟨owner, acquiredAt, expiresAt, fence, .object metadata.members⟩) redis).2 := by
        unfold renewLua
        rcases redis.get lockKey with message | ⟨_ | current⟩
        · exact h.keeps
        · exact h.keeps
        · by_cases howned : (ownerPrefix owner).isPrefixOf current.toList
          · simp only [howned, Bool.not_true, Bool.false_eq_true, if_false]
            generalize redis.setPx lockKey (serializeLockPayload
              ⟨owner, acquiredAt, expiresAt, fence, .object metadata.members⟩) ttlMs = result at hset
            obtain ⟨message | _, redis'⟩ := result
            · exact hset
            · exact hset
          · simp only [howned, Bool.not_false, if_true]
            exact h.keeps
      simp only
      generalize renewLua lockKey owner ttlMs (serializeLockPayload
        ⟨owner, acquiredAt, expiresAt, fence, .object metadata.members⟩) redis = result at hscript
      obtain ⟨message | code, redis'⟩ := result
      · exact hscript
      · exact hscript

theorem keeps_release (h : Sound redis) (hkey : LockKey lockKey) : Keeps redis (redisLockRelease lockKey owner redis).2 := by
  unfold redisLockRelease releaseLua
  cases redis.get lockKey with
  | error message => exact h.keeps
  | ok current =>
    cases current with
    | none => exact h.keeps
    | some current =>
      by_cases howned : (ownerPrefix owner).isPrefixOf current.toList
      · simp only [if_pos howned]
        exact h.keeps_del hkey
      · simp only [if_neg howned]
        exact h.keeps

theorem keeps_apply (h : Sound redis) {step : Step} (hallows : Allows redis step) : Keeps redis (apply redis step) := by
  cases step with
  | acquire lockKey owner ttlMs metadata now => exact keeps_acquire h hallows
  | renew lockKey owner ttlMs metadata fence now => exact keeps_renew h hallows
  | release lockKey owner => exact keeps_release h hallows.1
  | advance ms => exact .of_fences (h.advance ms)

theorem keeps_run {history : List Step} (h : Sound redis) (hord : Orderly redis history) :
    Keeps redis (run redis history) := by
  induction history generalizing redis with
  | nil => exact h.keeps
  | cons step history ih =>
    obtain ⟨hallows, hrest⟩ := hord
    have hstep := keeps_apply h hallows
    exact hstep.trans (ih hstep.1 hrest)

/-- A fence that the key's payload had at some time in the history. -/
def EarlierFence (start : Nat) (history : List Step) (lockKey : String) (fence : Json) : Prop :=
  ∃ before after, history = before ++ after ∧ ∃ text deadline payload,
    (run (.empty start) before).live lockKey = some ⟨.text text, deadline⟩ ∧
      parseLockPayload (some text) = some payload ∧ payload.fence = fence

theorem earlier_le {start : Nat} {history : List Step} (h : Orderly (.empty start) history) (hkey : LockKey lockKey)
    {fence : Json} (hearlier : EarlierFence start history lockKey fence) :
    ∃ m ≤ counter (run (.empty start) history) lockKey, fence = .number (toString m) := by
  obtain ⟨before, after, rfl, text, deadline, payload, hlive, hparse, rfl⟩ := hearlier
  obtain ⟨hpre, hafter⟩ := History.Orderly.split h
  obtain ⟨hsound, -⟩ := keeps_run (sound_empty start) hpre
  obtain ⟨written, d, hlive', hlawful, hparse'⟩ := hsound.held hkey hlive
  rw [text_eq hlive hlive', hparse'] at hparse
  obtain rfl := Option.some.inj hparse
  obtain ⟨m, hm, hfence⟩ := hlawful.fence
  have hcount := (keeps_run hsound hafter).2 lockKey
  rw [run, run, ← History.run_append] at hcount
  exact ⟨m, hm.trans hcount, hfence⟩

/-- Calls respect whose a lock is, after any history whose steps are allowed. -/
theorem ownership {start : Nat} {history : List Step} (h : Orderly (.empty start) history) (lockKey owner : String) :
    (∀ ttlMs metadata now, Allows (run (.empty start) history) (.acquire lockKey owner ttlMs metadata now) →
      Timely (run (.empty start) history) ttlMs now → (run (.empty start) history).live lockKey = none →
      Acquires (EarlierFence start history lockKey) lockKey owner metadata
        (redisLockAcquire lockKey owner ttlMs metadata now (run (.empty start) history))) ∧
    (∀ other ttlMs metadata now, LockKey lockKey → HeldBy (run (.empty start) history) lockKey other → other ≠ owner →
      Refuses (run (.empty start) history) lockKey
        (redisLockAcquire lockKey owner ttlMs metadata now (run (.empty start) history))) ∧
    (∀ ttlMs metadata fence now, Allows (run (.empty start) history) (.renew lockKey owner ttlMs metadata fence now) →
      Timely (run (.empty start) history) ttlMs now →
      ((redisLockRenew lockKey owner ttlMs metadata fence now (run (.empty start) history)).1 = .ok .ok ↔
        HeldBy (run (.empty start) history) lockKey owner)) ∧
    (Allows (run (.empty start) history) (.release lockKey owner) →
      ((redisLockRelease lockKey owner (run (.empty start) history)).1 = .ok true ↔
        HeldBy (run (.empty start) history) lockKey owner)) := by
  obtain ⟨hsound, -⟩ := keeps_run (sound_empty start) h
  refine ⟨fun ttlMs metadata now hallows htimely hfree => ?_, fun other ttlMs metadata now hkey hheld hother => ?_,
    fun ttlMs metadata fence now hallows htimely => ?_, fun hallows => ?_⟩
  · exact acquires_of_free hsound hallows htimely hfree fun fence hfence => earlier_le h hallows.1 hfence
  · exact refuses_of_held hsound hkey hheld hother ttlMs metadata now
  · exact renew_iff hsound hallows.1 hallows.2.1 htimely
  · exact release_iff hsound hallows.1 hallows.2

def saga : Metadata := ⟨[("saga", .string "saga-1")], List.nodup_singleton _, rfl, trivial, trivial⟩

def sagaLock : String := "lock:wf:saga-1"

theorem lockKey_saga : LockKey sagaLock := lockKey_of_begins (by decide)

def firstPayload (owner : String) : RedisLockPayload :=
  acquiring (.empty 0) sagaLock owner "2026-01-01T00:00:00.000Z" "2026-01-01T00:00:05.000Z" saga

def acquireBy (owner : String) : Step := .acquire sagaLock owner 5000 saga newYear

def taken (owner : String) : Redis := apply (.empty 0) (acquireBy owner)

theorem dates_first : toISOString (some newYear) = .ok "2026-01-01T00:00:00.000Z" ∧
    toISOString (newDate (newYear.val + 5000)) = .ok "2026-01-01T00:00:05.000Z" := by decide

theorem taken_eq (owner : String)
    (hformat : luaFormat (payloadTemplate owner "2026-01-01T00:00:00.000Z" "2026-01-01T00:00:05.000Z" saga).toList
      (some (roundNat 1)) = .ok (serializeLockPayload (firstPayload owner)).toList) :
    taken owner = (counted (.empty 0) sagaLock).write sagaLock
      (some ⟨.text (serializeLockPayload (firstPayload owner)), some 5000⟩) := by
  have hparse : parseLockPayload (some (serializeLockPayload (firstPayload owner))) = some (firstPayload owner) :=
    parse_serialize (n := 1) (by omega) rfl rfl saga.readable
  have hacquire := acquire_free (sound_empty 0) lockKey_saga rfl dates_first.1 dates_first.2
    (show deadlineIn 0 5000 = some 5000 by decide) hformat hparse rfl
  exact congrArg Prod.snd hacquire

variable {owner : String}

theorem allows_first (hplain : Plain owner) (hdirected : Undirected owner.toList) :
    Allows (.empty 0) (acquireBy owner) :=
  ⟨lockKey_saga, hplain, hdirected, by decide, by decide⟩

theorem format_first (hplain : Plain owner) (hdirected : Undirected owner.toList) :
    luaFormat (payloadTemplate owner "2026-01-01T00:00:00.000Z" "2026-01-01T00:00:05.000Z" saga).toList
      (some (roundNat 1)) = .ok (serializeLockPayload (firstPayload owner)).toList :=
  format_acquiring (allows_first hplain hdirected) dates_first.1 dates_first.2

theorem live_taken (h : taken owner = (counted (.empty 0) sagaLock).write sagaLock
    (some ⟨.text (serializeLockPayload (firstPayload owner)), some 5000⟩)) :
    (taken owner).live sagaLock = some ⟨.text (serializeLockPayload (firstPayload owner)), some 5000⟩ := by
  rw [h]
  exact Keyspace.live_write_self (decide_eq_true (by decide : 0 < 5000))

theorem heldBy_taken {owner caller : String} (h : taken owner = (counted (.empty 0) sagaLock).write sagaLock
    (some ⟨.text (serializeLockPayload (firstPayload owner)), some 5000⟩)) :
    HeldBy (taken owner) sagaLock caller ↔ owner = caller :=
  heldBy_iff (live_taken h) (parse_serialize (n := 1) (by omega) rfl rfl saga.readable)

/-- The worker who holds the lock keeps others out, and gives it back. -/
theorem ownership_taken :
    Refuses (taken "worker-a") sagaLock (redisLockAcquire sagaLock "worker-b" 5000 saga newYear (taken "worker-a")) ∧
      (redisLockRelease sagaLock "worker-a" (taken "worker-a")).1 = .ok true := by
  have hord : Orderly (.empty 0) [acquireBy "worker-a"] := ⟨allows_first (by decide) (by decide), trivial⟩
  have hheld : HeldBy (taken "worker-a") sagaLock "worker-a" :=
    (heldBy_taken (taken_eq "worker-a" (format_first (by decide) (by decide)))).mpr rfl
  have hrun : run (.empty 0) [acquireBy "worker-a"] = taken "worker-a" := by
    rw [taken, run, History.run, List.foldl_cons, List.foldl_nil]
  obtain ⟨-, hrefuses, -, -⟩ := ownership hord sagaLock "worker-b"
  obtain ⟨-, -, -, hrels⟩ := ownership hord sagaLock "worker-a"
  rw [hrun] at hrefuses hrels
  exact ⟨hrefuses "worker-a" 5000 saga newYear lockKey_saga hheld (by decide),
    (hrels ⟨lockKey_saga, by decide⟩).mpr hheld⟩

theorem release_taken (h : taken owner = (counted (.empty 0) sagaLock).write sagaLock
    (some ⟨.text (serializeLockPayload (firstPayload owner)), some 5000⟩)) (caller : String) :
    (redisLockRelease sagaLock caller (taken owner)).1 =
      .ok ((ownerPrefix caller).isPrefixOf (serializeLockPayload (firstPayload owner)).toList) := by
  have hget : (taken owner).get sagaLock = .ok (some (serializeLockPayload (firstPayload owner))) := by
    simp only [Keyspace.get, live_taken h]
  simp only [redisLockRelease, releaseLua, hget]
  by_cases howned : (ownerPrefix caller).isPrefixOf (serializeLockPayload (firstPayload owner)).toList
  · simp [howned, Keyspace.del, live_taken h]
  · simp [howned]

/-- An owner whose name has a directive cannot take a free lock; one whose name has a quote cannot give back a lock it
holds; and a name that goes on as the text does gives back a lock of another. -/
theorem owners_confused :
    (redisLockAcquire sagaLock "worker 50%" 5000 saga newYear (.empty 0)).1 = .error "invalid option to 'format'" ∧
    (HeldBy (taken "worker \"b\"") sagaLock "worker \"b\"" ∧
      (redisLockRelease sagaLock "worker \"b\"" (taken "worker \"b\"")).1 = .ok false) ∧
    (¬HeldBy (taken "worker-a") sagaLock "worker-a\",\"acquiredAt\":\"2026-01-01T00:00:00.000Z" ∧
      (redisLockRelease sagaLock "worker-a\",\"acquiredAt\":\"2026-01-01T00:00:00.000Z" (taken "worker-a")).1 = .ok true) := by
  have hplain := taken_eq "worker-a" (format_first (by decide) (by decide))
  have hquoted := taken_eq "worker \"b\"" (by
    simp only [payloadTemplate, serializeLockPayload, Json.stringify, String.toList_ofList]
    decide +kernel)
  have hdirective : luaFormat (payloadTemplate "worker 50%" "2026-01-01T00:00:00.000Z" "2026-01-01T00:00:05.000Z" saga).toList
      (some (roundNat 1)) = .error "invalid option to 'format'" := by
    simp only [payloadTemplate, serializeLockPayload, Json.stringify, String.toList_ofList]
    decide +kernel
  refine ⟨?_, ⟨(heldBy_taken hquoted).mpr rfl, ?_⟩, fun hheld => ?_, ?_⟩
  · rw [acquire_malformed (sound_empty 0) dates_first.1 dates_first.2 hdirective]
  · rw [release_taken hquoted]
    simp only [serializeLockPayload, Json.stringify, String.toList_ofList]
    decide
  · exact absurd ((heldBy_taken hplain).mp hheld) (by decide)
  · rw [release_taken hplain]
    simp only [serializeLockPayload, Json.stringify, String.toList_ofList]
    decide

end Delego.RedisLock
