import Mathlib.Algebra.Group.Nat.Defs
import Mathlib.Data.List.Dedup

/-! A keyspace with deadlines, as Redis has it.

A key holds a string or a set, until its deadline if it has one; what a string stands for is a parameter.
A key is live until then (`live`), and a command is stated by what it does to the live keys. Time is in
milliseconds, and passes between commands. -/
namespace Delego.Redis

inductive Value (α : Type) where
  | text (value : α)
  | members (list : List String)

/-- A value, and when it expires. -/
structure Entry (α : Type) where
  value : Value α
  deadline : Option Nat

structure Keyspace (α : Type) where
  now : Nat
  entries : String → Option (Entry α)

def wrongType : String := "WRONGTYPE Operation against a key holding the wrong kind of value"

def invalidExpire : String := "ERR invalid expire time in command"

/-- The deadline a time to live in seconds sets: it is positive, and the deadline fits in 64 bits. -/
def deadlineOf (now : Nat) (seconds : Int) : Option Nat :=
  if 0 < seconds ∧ now + 1000 * seconds.toNat < 2 ^ 63 then some (now + 1000 * seconds.toNat) else none

/-- Members in an order, if it is one of theirs. -/
def inOrder (order members : List String) : List String := if order.Perm members then order else members

theorem mem_inOrder {order members : List String} {key : String} : key ∈ inOrder order members ↔ key ∈ members := by
  unfold inOrder
  split
  · rename_i hperm
    exact hperm.mem_iff
  · rfl

/-- The same, of a time to live in milliseconds. -/
def deadlineIn (now : Nat) (ms : Int) : Option Nat :=
  if 0 < ms ∧ now + ms.toNat < 2 ^ 63 then some (now + ms.toNat) else none

namespace Keyspace
open Option
variable {α : Type} (k : Keyspace α)

def empty (now : Nat) : Keyspace α := ⟨now, fun _ => none⟩

def Before (deadline : Option Nat) : Bool := deadline.all fun d => decide (k.now < d)

def live (key : String) : Option (Entry α) := (k.entries key).filter fun entry => k.Before entry.deadline

def advance (ms : Nat) : Keyspace α := { k with now := k.now + ms }

def write (key : String) (entry : Option (Entry α)) : Keyspace α :=
  { k with entries := Function.update k.entries key entry }

def get (key : String) : Except String (Option α) :=
  match k.live key with
  | none => .ok none
  | some ⟨.text value, _⟩ => .ok (some value)
  | some ⟨.members _, _⟩ => .error wrongType

/-- `SET key value EX seconds`. -/
def setEx (key : String) (value : α) (seconds : Int) : Except String Unit × Keyspace α :=
  match deadlineOf k.now seconds with
  | none => (.error invalidExpire, k)
  | some deadline => (.ok (), k.write key (some ⟨.text value, some deadline⟩))

/-- `SET key value PX ms`. -/
def setPx (key : String) (value : α) (ms : Int) : Except String Unit × Keyspace α :=
  match deadlineIn k.now ms with
  | none => (.error invalidExpire, k)
  | some deadline => (.ok (), k.write key (some ⟨.text value, some deadline⟩))

/-- `SET key value NX PX ms`: whether there was no such key, and the value is set. -/
def setNxPx (key : String) (value : α) (ms : Int) : Except String Bool × Keyspace α :=
  match deadlineIn k.now ms with
  | none => (.error invalidExpire, k)
  | some deadline =>
    if (k.live key).isSome then (.ok false, k)
    else (.ok true, k.write key (some ⟨.text value, some deadline⟩))

/-- `DEL`, with the number of keys there were. -/
def del (keys : List String) : Nat × Keyspace α :=
  ((keys.dedup.filter fun key => (k.live key).isSome).length,
    { k with entries := fun key => if key ∈ keys then none else k.entries key })

def smembers (key : String) : Except String (List String) :=
  match k.live key with
  | none => .ok []
  | some ⟨.members list, _⟩ => .ok list
  | some ⟨.text _, _⟩ => .error wrongType

def sadd (key : String) (added : List String) : Except String Nat × Keyspace α :=
  match k.live key with
  | none => (.ok added.dedup.length, k.write key (some ⟨.members added.dedup, none⟩))
  | some ⟨.members list, deadline⟩ =>
    let fresh := added.dedup.filter fun member => decide (member ∉ list)
    (.ok fresh.length, k.write key (some ⟨.members (list ++ fresh), deadline⟩))
  | some ⟨.text _, _⟩ => (.error wrongType, k)

def srem (key : String) (removed : List String) : Except String Nat × Keyspace α :=
  match k.live key with
  | none => (.ok 0, k)
  | some ⟨.members list, deadline⟩ =>
    let rest := list.filter fun member => decide (member ∉ removed)
    (.ok (list.length - rest.length), k.write key (if rest = [] then none else some ⟨.members rest, deadline⟩))
  | some ⟨.text _, _⟩ => (.error wrongType, k)

/-- `EXPIRE`; a time that is not positive deletes the key. -/
def expire (key : String) (seconds : Int) : Except String Nat × Keyspace α :=
  match k.live key with
  | none => (.ok 0, k)
  | some entry =>
    if seconds ≤ 0 then (.ok 1, k.write key none)
    else match deadlineOf k.now seconds with
      | none => (.error invalidExpire, k)
      | some deadline => (.ok 1, k.write key (some ⟨entry.value, some deadline⟩))

variable {k}
  {now : Nat} {seconds : Int}

variable {deadline : Nat}

theorem lt_deadlineOf (h : deadlineOf now seconds = some deadline) : now < deadline := by
  unfold deadlineOf at h
  split at h
  · rename_i hvalid
    obtain rfl := some.inj h
    omega
  · cases h

theorem lt_deadlineIn {ms : Int} (h : deadlineIn now ms = some deadline) : now < deadline := by
  unfold deadlineIn at h
  split at h
  · rename_i hvalid
    obtain rfl := some.inj h
    omega
  · cases h

theorem pos_of_deadlineOf (h : deadlineOf now seconds = some deadline) : ¬seconds ≤ 0 := by
  unfold deadlineOf at h
  split at h
  · rename_i hvalid
    omega
  · cases h

variable {entry : Entry α}
  {key : String}

theorem live_before (h : k.live key = some entry) : k.Before entry.deadline = true :=
  (filter_eq_some_iff.mp h).2

theorem live_write (key other : String) (entry : Option (Entry α)) : (k.write key entry).live other =
    if other = key then entry.filter fun entry => k.Before entry.deadline else k.live other := by
  unfold live write
  by_cases hother : other = key
  · subst hother
    simp only [Function.update_self, if_true]
    rfl
  · simp only [Function.update_of_ne hother, if_neg hother]
    rfl

theorem live_write_self (h : k.Before entry.deadline = true) :
    (k.write key (some entry)).live key = some entry := by
  rw [live_write, if_pos rfl, filter_some, if_pos h]

theorem live_write_ne {key other : String} (h : other ≠ key) (entry : Option (Entry α)) :
    (k.write key entry).live other = k.live other := by
  rw [live_write, if_neg h]

theorem live_del (keys : List String) (key : String) :
    (k.del keys).2.live key = if key ∈ keys then none else k.live key := by
  unfold live del
  by_cases hkey : key ∈ keys
  · simp only [if_pos hkey, filter_none]
  · simp only [if_neg hkey]
    rfl

theorem live_advance {ms : Nat} : (k.advance ms).live key = some entry ↔
    k.live key = some entry ∧ (k.advance ms).Before entry.deadline = true := by
  unfold live advance
  rw [filter_eq_some_iff, filter_eq_some_iff]
  refine ⟨fun ⟨hentry, hpre⟩ => ⟨⟨hentry, ?_⟩, hpre⟩, fun ⟨⟨hentry, _⟩, hpre⟩ => ⟨hentry, hpre⟩⟩
  unfold Before at hpre ⊢
  cases hdead : entry.deadline with
  | none => rfl
  | some d =>
    simp only [hdead, all_some, decide_eq_true_eq] at hpre ⊢
    omega

def members (k : Keyspace α) (key : String) : List String :=
  match k.live key with
  | some ⟨.members list, _⟩ => list
  | _ => []

def NotText (k : Keyspace α) (key : String) : Prop := ∀ value deadline, k.live key ≠ some ⟨.text value, deadline⟩

variable {list : List String}

theorem members_of_live {deadline : Option Nat} (h : k.live key = some ⟨.members list, deadline⟩) :
    k.members key = list := by
  unfold members
  rw [h]

theorem notText_of_live {deadline : Option Nat} (h : k.live key = some ⟨.members list, deadline⟩) :
    k.NotText key := by
  intro value deadline' htext
  simp [h] at htext

theorem smembers_ok (h : k.NotText key) : k.smembers key = .ok (k.members key) := by
  unfold smembers members
  cases hlive : k.live key with
  | none => rfl
  | some entry =>
    obtain ⟨value | list, deadline⟩ := entry
    · exact absurd hlive (h value deadline)
    · rfl

theorem sadd_ok (h : k.NotText key) (added : List String) : ∃ count list deadline,
    k.sadd key added = (.ok count, k.write key (some ⟨.members list, deadline⟩)) ∧
      (∀ member, member ∈ list ↔ member ∈ k.members key ∨ member ∈ added) ∧ k.Before deadline = true ∧
      deadline = (k.live key).bind Entry.deadline := by
  unfold sadd members
  cases hlive : k.live key with
  | none => exact ⟨_, _, _, rfl, by simp, rfl, rfl⟩
  | some entry =>
    obtain ⟨value | list, deadline⟩ := entry
    · exact absurd hlive (h value deadline)
    · refine ⟨_, _, _, rfl, fun member => ?_, live_before hlive, rfl⟩
      simp only [List.mem_append, List.mem_filter, List.mem_dedup, decide_eq_true_eq]
      tauto

theorem expire_ok (hlive : k.live key = some entry)
    (h : deadlineOf k.now seconds = some deadline) :
    k.expire key seconds = (.ok 1, k.write key (some ⟨entry.value, some deadline⟩)) := by
  unfold expire
  simp only [hlive, if_neg (pos_of_deadlineOf h), h]

theorem get_none (h : k.get key = .ok none) : k.live key = none := by
  unfold get at h
  cases hlive : k.live key with
  | none => rfl
  | some entry =>
    obtain ⟨value | list, deadline⟩ := entry
    · simp [hlive] at h
    · simp [hlive] at h

theorem get_some {value : α} (h : k.get key = .ok (some value)) :
    ∃ deadline, k.live key = some ⟨.text value, deadline⟩ := by
  unfold get at h
  cases hlive : k.live key with
  | none => simp [hlive] at h
  | some entry =>
    obtain ⟨value' | list, deadline⟩ := entry
    · simp only [hlive, Except.ok.injEq, some.injEq] at h
      exact ⟨deadline, by rw [h]⟩
    · simp [hlive] at h

variable {key other : String} {value : α} {deadline : Option Nat}

theorem text_of_write {entry : Option (Entry α)} (h : (k.write key entry).live other = some ⟨.text value, deadline⟩) :
    k.live other = some ⟨.text value, deadline⟩ ∨ other = key ∧ entry = some ⟨.text value, deadline⟩ := by
  rw [live_write] at h
  split at h
  · rename_i heq
    exact .inr ⟨heq, (filter_eq_some_iff.mp h).1⟩
  · exact .inl h

theorem text_of_sadd {added : List String} (h : (k.sadd key added).2.live other = some ⟨.text value, deadline⟩) :
    k.live other = some ⟨.text value, deadline⟩ := by
  unfold sadd at h
  split at h
  · exact (text_of_write h).resolve_right fun hwrit => by cases hwrit.2
  · exact (text_of_write h).resolve_right fun hwrit => by cases hwrit.2
  · exact h

theorem text_of_srem {removed : List String} (h : (k.srem key removed).2.live other = some ⟨.text value, deadline⟩) :
    k.live other = some ⟨.text value, deadline⟩ := by
  unfold srem at h
  split at h
  · exact h
  · refine (text_of_write h).resolve_right fun hwrit => ?_
    have hrest := hwrit.2
    split at hrest
    · cases hrest
    · cases hrest
  · exact h

theorem text_of_expire (h : (k.expire key seconds).2.live other = some ⟨.text value, deadline⟩) :
    ∃ before, k.live other = some ⟨.text value, before⟩ := by
  unfold expire at h
  split at h
  · exact ⟨deadline, h⟩
  · rename_i entry hlive
    split at h
    · exact ⟨deadline, (text_of_write h).resolve_right fun hwrit => by cases hwrit.2⟩
    · split at h
      · exact ⟨deadline, h⟩
      · rcases text_of_write h with hpre | ⟨rfl, hwrit⟩
        · exact ⟨deadline, hpre⟩
        · have hvalue : entry.value = .text value := congrArg Entry.value (some.inj hwrit)
          refine ⟨entry.deadline, hlive.trans ?_⟩
          rw [← hvalue]

end Keyspace
end Delego.Redis
