import Delego.Data.Calendar
import Delego.Data.History
import Delego.Data.Json
import Delego.Redis.Keyspace

/-! The cache-aside helpers (`cache/src/cacheAside.ts`).

An entry is written with its tags, and for each tag its key joins a set: the index of the tag, whose time to live is
that of the last entry that joined. -/
namespace Delego.CacheAside
open Delego.Data Delego.Redis List

def TAG_KEY_PREFIX : String := "cache:tag:"

def tagIndexKey (tag : String) : String := TAG_KEY_PREFIX ++ tag

/-- A value under its key, with its tags. -/
structure CacheEntry where
  key : String
  value : Json
  tags : List String
  ttlSeconds : Int
  createdAt : Date
  hits : Nat

inductive InvalidationMode where
  | exact | tag

structure CacheInvalidation where
  tags : List String
  pattern : Option String
  mode : InvalidationMode

abbrev Cache := Keyspace CacheEntry

def indexTags (key : String) (ttlSeconds : Int) : List String → Cache → Except String Unit × Cache
  | [], cache => (.ok (), cache)
  | tag :: tags, cache =>
    match cache.sadd (tagIndexKey tag) [key] with
    | (.error message, cache) => (.error message, cache)
    | (.ok _, cache) =>
      match cache.expire (tagIndexKey tag) ttlSeconds with
      | (.error message, cache) => (.error message, cache)
      | (.ok _, cache) => indexTags key ttlSeconds tags cache

/-- `createdAt` is the time of the caller's clock. -/
def setCacheEntry (cache : Cache) (key : String) (value : Json) (ttlSeconds : Int) (tags : List String) (createdAt : Date) :
    Except String CacheEntry × Cache :=
  let entry : CacheEntry := { key, value, tags, ttlSeconds, createdAt, hits := 0 }
  match cache.setEx key entry ttlSeconds with
  | (.error message, cache) => (.error message, cache)
  | (.ok _, cache) =>
    match indexTags key ttlSeconds tags cache with
    | (.error message, cache) => (.error message, cache)
    | (.ok _, cache) => (.ok entry, cache)

def invalidateTag (cache : Cache) (tag : String) : Except String Nat × Cache :=
  match cache.smembers (tagIndexKey tag) with
  | .error message => (.error message, cache)
  | .ok members =>
    if members = [] then (.ok 0, (cache.del [tagIndexKey tag]).2)
    else
      let (deleted, cache) := cache.del members
      match cache.srem (tagIndexKey tag) members with
      | (.error message, cache) => (.error message, cache)
      | (.ok _, cache) => (.ok deleted, (cache.del [tagIndexKey tag]).2)

def invalidateTags (deleted : Nat) : List String → Cache → Except String Nat × Cache
  | [], cache => (.ok deleted, cache)
  | tag :: tags, cache =>
    match invalidateTag cache tag with
    | (.error message, cache) => (.error message, cache)
    | (.ok count, cache) => invalidateTags (deleted + count) tags cache

def invalidate (cache : Cache) (request : CacheInvalidation) : Except String Nat × Cache :=
  match request.mode with
  | .exact =>
    let keys := match request.pattern.filter fun pattern => decide (pattern ≠ "") with
      | some pattern => [pattern]
      | none => request.tags
    let (deleted, cache) := cache.del keys
    (.ok deleted, cache)
  | .tag => invalidateTags 0 request.tags cache

/-! ### What tag invalidation leaves

It holds every live entry of its tag as long as each write reaches as far as the entries it shares a tag with, and no
key is that of an index (`Indexed`); then nothing of the tag is left after an invalidation (`nothing_left`). -/

theorem tagIndexKey_injective {tag tag' : String} (h : tagIndexKey tag = tagIndexKey tag') : tag = tag' := by
  unfold tagIndexKey at h
  have hchars := congrArg String.toList h
  rw [String.toList_append, String.toList_append] at hchars
  exact String.toList_inj.mp (append_cancel_left hchars)

def Outlasts : Option Nat → Option Nat → Prop
  | none, _ => True
  | some _, none => False
  | some reach, some deadline => deadline ≤ reach

variable {cache : Cache}

theorem before_of_outlasts {reach deadline : Option Nat} (h : Outlasts reach deadline)
    (hpre : cache.Before deadline = true) : cache.Before reach = true := by
  unfold Keyspace.Before at hpre ⊢
  cases reach with
  | none => rfl
  | some u =>
    cases deadline with
    | none => exact h.elim
    | some d =>
      have hle : d ≤ u := h
      simp only [Option.all_some, decide_eq_true_eq] at hpre ⊢
      omega

def Covered (cache : Cache) (key : String) (deadline : Option Nat) (tag : String) : Prop :=
  ∃ list reach, cache.live (tagIndexKey tag) = some ⟨.members list, reach⟩ ∧ key ∈ list ∧ Outlasts reach deadline

/-- Every live entry is covered, and indexes are sets of keys of entries. -/
structure Indexed (cache : Cache) : Prop where
  sets : ∀ tag, cache.NotText (tagIndexKey tag)
  keys : ∀ tag, ∀ key ∈ cache.members (tagIndexKey tag), ∀ tag', key ≠ tagIndexKey tag'
  covered : ∀ key entry deadline, cache.live key = some ⟨.text entry, deadline⟩ →
    ∀ tag ∈ entry.tags, Covered cache key deadline tag

theorem indexed_empty (now : Nat) : Indexed (.empty now) where
  sets tag value deadline h := by cases h
  keys tag key h := by cases h
  covered key entry deadline h := by cases h

theorem Indexed.advance (h : Indexed cache) (ms : Nat) : Indexed (cache.advance ms) where
  sets tag value deadline hlive := h.sets tag value deadline (Keyspace.live_advance.mp hlive).1
  keys tag key hmem := by
    refine h.keys tag key ?_
    unfold Keyspace.members at hmem ⊢
    cases hlive : (cache.advance ms).live (tagIndexKey tag) with
    | none => simp [hlive] at hmem
    | some entry =>
      rw [hlive] at hmem
      rw [(Keyspace.live_advance.mp hlive).1]
      exact hmem
  covered key entry deadline hlive tag htag := by
    obtain ⟨hpre, hlasts⟩ := Keyspace.live_advance.mp hlive
    obtain ⟨list, reach, hindex, hmem, houtlasts⟩ := h.covered key entry deadline hpre tag htag
    exact ⟨list, reach, Keyspace.live_advance.mpr ⟨hindex, before_of_outlasts houtlasts hlasts⟩, hmem, houtlasts⟩

variable {key : String}

theorem indexTags_ok {ttlSeconds : Int} {deadline : Nat} (tags : List String) (cache : Cache)
    (hdead : deadlineOf cache.now ttlSeconds = some deadline) (hsets : ∀ tag, cache.NotText (tagIndexKey tag)) :
    ∃ cache', indexTags key ttlSeconds tags cache = (.ok (), cache') ∧
      (∀ other, (∀ tag ∈ tags, other ≠ tagIndexKey tag) → cache'.live other = cache.live other) ∧
      ∀ tag ∈ tags, ∃ list, cache'.live (tagIndexKey tag) = some ⟨.members list, some deadline⟩ ∧
        ∀ member, member ∈ list ↔ member ∈ cache.members (tagIndexKey tag) ∨ member = key := by
  induction tags generalizing cache with
  | nil => exact ⟨cache, rfl, fun _ _ => rfl, fun tag htag => absurd htag not_mem_nil⟩
  | cons tag tags ih =>
    obtain ⟨count, list, reach, hadd, hmems, hpre, -⟩ := Keyspace.sadd_ok (hsets tag) [key]
    have hadded : (cache.write (tagIndexKey tag) (some ⟨.members list, reach⟩)).live (tagIndexKey tag) =
        some ⟨.members list, reach⟩ := Keyspace.live_write_self hpre
    have hexpire := Keyspace.expire_ok hadded hdead
    let joined := (cache.write (tagIndexKey tag) (some ⟨.members list, reach⟩)).write (tagIndexKey tag)
      (some ⟨.members list, some deadline⟩)
    have hself : joined.live (tagIndexKey tag) = some ⟨.members list, some deadline⟩ :=
      Keyspace.live_write_self (decide_eq_true (Keyspace.lt_deadlineOf hdead))
    have hother : ∀ other, other ≠ tagIndexKey tag → joined.live other = cache.live other := fun other hne => by
      rw [Keyspace.live_write_ne hne, Keyspace.live_write_ne hne]
    have hsets' : ∀ tag', joined.NotText (tagIndexKey tag') := by
      intro tag'
      by_cases hsame : tagIndexKey tag' = tagIndexKey tag
      · rw [hsame]
        exact Keyspace.notText_of_live hself
      · intro value deadline' hlive
        rw [hother _ hsame] at hlive
        exact hsets tag' value deadline' hlive
    obtain ⟨cache', hindex, hkept, hjoined⟩ := ih joined hdead hsets'
    refine ⟨cache', ?_, fun other hne => ?_, fun tag' htag' => ?_⟩
    · simp only [indexTags, hadd, hexpire]
      exact hindex
    · rw [hkept other fun tag' htag' => hne tag' (mem_cons_of_mem _ htag')]
      exact hother other (hne tag mem_cons_self)
    · by_cases hrest : tag' ∈ tags
      · obtain ⟨list', hlive, hmem⟩ := hjoined tag' hrest
        refine ⟨list', hlive, fun member => ?_⟩
        rw [hmem member]
        by_cases hsame : tagIndexKey tag' = tagIndexKey tag
        · rw [hsame, Keyspace.members_of_live hself, hmems member, mem_singleton, or_assoc, or_self]
        · unfold Keyspace.members
          rw [hother _ hsame]
      · obtain rfl : tag' = tag := (mem_cons.mp htag').resolve_right hrest
        have hlast : ∀ other ∈ tags, tagIndexKey tag' ≠ tagIndexKey other := by
          intro other hmem heq
          rw [tagIndexKey_injective heq] at hrest
          exact hrest hmem
        have hlive := (hkept _ hlast).trans hself
        refine ⟨list, hlive, fun member => ?_⟩
        rw [hmems member, mem_singleton]

/-- What a write must meet: its key is not that of an index, and it reaches as far as every other live entry with which it
shares a tag. -/
structure Reaches (cache : Cache) (key : String) (ttlSeconds : Int) (tags : List String) : Prop where
  apart : ∀ tag, key ≠ tagIndexKey tag
  shared : ∀ written, deadlineOf cache.now ttlSeconds = some written → ∀ other entry deadline, other ≠ key →
    cache.live other = some ⟨.text entry, deadline⟩ → (∃ tag ∈ tags, tag ∈ entry.tags) → Outlasts (some written) deadline

theorem Indexed.setCacheEntry (h : Indexed cache) {value : Json} {ttlSeconds : Int} {tags : List String}
    {createdAt : Date} (hreaches : Reaches cache key ttlSeconds tags) :
    Indexed (setCacheEntry cache key value ttlSeconds tags createdAt).2 := by
  cases hdead : deadlineOf cache.now ttlSeconds with
  | none =>
    simp only [CacheAside.setCacheEntry, Keyspace.setEx, hdead]
    exact h
  | some deadline =>
    let entry : CacheEntry := { key, value, tags, ttlSeconds, createdAt, hits := 0 }
    let written := cache.write key (some ⟨.text entry, some deadline⟩)
    have hself : written.live key = some ⟨.text entry, some deadline⟩ :=
      Keyspace.live_write_self (decide_eq_true (Keyspace.lt_deadlineOf hdead))
    have hother : ∀ other, other ≠ key → written.live other = cache.live other := fun other hne =>
      Keyspace.live_write_ne hne _
    have hindexes : ∀ tag, written.live (tagIndexKey tag) = cache.live (tagIndexKey tag) := fun tag =>
      hother _ (hreaches.apart tag).symm
    have hsets : ∀ tag, written.NotText (tagIndexKey tag) := by
      intro tag value' deadline' hlive
      rw [hindexes] at hlive
      exact h.sets tag value' deadline' hlive
    obtain ⟨cache', hindex, hkept, hjoined⟩ := indexTags_ok tags written hdead hsets
    have hres : (CacheAside.setCacheEntry cache key value ttlSeconds tags createdAt).2 = cache' := by
      simp only [CacheAside.setCacheEntry, Keyspace.setEx, hdead]
      simp only [written, entry] at hindex
      rw [hindex]
    have hmems : ∀ tag, written.members (tagIndexKey tag) = cache.members (tagIndexKey tag) := by
      intro tag
      unfold Keyspace.members
      rw [hindexes]
    have huntagged : ∀ tag, tag ∉ tags → cache'.live (tagIndexKey tag) = cache.live (tagIndexKey tag) := by
      intro tag htag
      rw [hkept _ fun other hmem heq => htag (by rwa [tagIndexKey_injective heq])]
      exact hindexes tag
    rw [hres]
    constructor
    · intro tag
      by_cases htag : tag ∈ tags
      · obtain ⟨list, hlive, -⟩ := hjoined tag htag
        exact Keyspace.notText_of_live hlive
      · intro value' deadline' hlive
        rw [huntagged tag htag] at hlive
        exact h.sets tag value' deadline' hlive
    · intro tag member hmember
      by_cases htag : tag ∈ tags
      · obtain ⟨list, hlive, hmem⟩ := hjoined tag htag
        rw [Keyspace.members_of_live hlive, hmem, hmems] at hmember
        rcases hmember with hold | rfl
        · exact h.keys tag member hold
        · exact hreaches.apart
      · unfold Keyspace.members at hmember
        rw [huntagged tag htag] at hmember
        exact h.keys tag member hmember
    · intro other entry' deadline' hlive tag htag
      have hentry : ∀ tag ∈ tags, other ≠ tagIndexKey tag := by
        intro tag' htag' heq
        obtain ⟨list, hindex', -⟩ := hjoined tag' htag'
        simp [heq, hindex'] at hlive
      rw [hkept other hentry] at hlive
      by_cases hsame : other = key
      · rw [hsame, hself] at hlive
        cases hlive
        obtain ⟨list, hindex', hmem⟩ := hjoined tag htag
        exact ⟨list, some deadline, hindex', (hmem other).mpr (.inr hsame), le_refl deadline⟩
      · rw [hother other hsame] at hlive
        obtain ⟨list, reach, hpre, hmem, hlasts⟩ := h.covered other entry' deadline' hlive tag htag
        by_cases hshared : tag ∈ tags
        · obtain ⟨list', hindex', hmem'⟩ := hjoined tag hshared
          refine ⟨list', some deadline, hindex', (hmem' other).mpr (.inl ?_), ?_⟩
          · rw [hmems, Keyspace.members_of_live hpre]
            exact hmem
          · exact hreaches.shared deadline hdead other entry' deadline' hsame hlive ⟨tag, hshared, htag⟩
        · exact ⟨list, reach, (huntagged tag hshared).trans hpre, hmem, hlasts⟩

theorem invalidateTag_ok (h : Indexed cache) (tag : String) : ∃ count cache',
    invalidateTag cache tag = (.ok count, cache') ∧ ∀ other, cache'.live other =
      if other = tagIndexKey tag ∨ other ∈ cache.members (tagIndexKey tag) then none else cache.live other := by
  unfold invalidateTag
  rw [Keyspace.smembers_ok (h.sets tag)]
  simp only
  by_cases hnone : cache.members (tagIndexKey tag) = []
  · rw [if_pos hnone]
    refine ⟨_, _, rfl, fun other => ?_⟩
    rw [Keyspace.live_del, hnone]
    simp only [mem_singleton, not_mem_nil, or_false]
  · rw [if_neg hnone]
    have hindex : tagIndexKey tag ∉ cache.members (tagIndexKey tag) := fun hmem => h.keys tag _ hmem tag rfl
    obtain ⟨deadline, hlive⟩ : ∃ deadline,
        cache.live (tagIndexKey tag) = some ⟨.members (cache.members (tagIndexKey tag)), deadline⟩ := by
      unfold Keyspace.members at hnone ⊢
      cases hlive : cache.live (tagIndexKey tag) with
      | none => simp [hlive] at hnone
      | some entry =>
        obtain ⟨value | list, deadline⟩ := entry
        · exact absurd hlive (h.sets tag value deadline)
        · exact ⟨deadline, rfl⟩
    have hdeleted := Keyspace.live_del (k := cache) (cache.members (tagIndexKey tag)) (tagIndexKey tag)
    rw [if_neg hindex, hlive] at hdeleted
    have hrest : (cache.members (tagIndexKey tag)).filter
        (fun member => decide (member ∉ cache.members (tagIndexKey tag))) = [] := by
      simp
    simp only [Keyspace.srem, hdeleted, hrest, if_true]
    refine ⟨_, _, rfl, fun other => ?_⟩
    rw [Keyspace.live_del]
    simp only [mem_singleton]
    by_cases hself : other = tagIndexKey tag
    · rw [if_pos hself, if_pos (.inl hself)]
    · rw [if_neg hself, Keyspace.live_write_ne hself, Keyspace.live_del]
      simp only [hself, false_or]

/-- No live entry has the tag. -/
def Free (cache : Cache) (tag : String) : Prop :=
  ∀ key entry deadline, cache.live key = some ⟨.text entry, deadline⟩ → tag ∉ entry.tags

def Fewer (cache cache' : Cache) : Prop := ∀ key entry, cache'.live key = some entry → cache.live key = some entry

theorem Free.fewer {cache' : Cache} {tag : String} (h : Free cache tag) (hfewer : Fewer cache cache') : Free cache' tag :=
  fun key entry deadline hlive => h key entry deadline (hfewer key _ hlive)

theorem Indexed.invalidateTag (h : Indexed cache) (tag : String) : ∃ count cache',
    invalidateTag cache tag = (.ok count, cache') ∧ Indexed cache' ∧ Fewer cache cache' ∧ Free cache' tag := by
  obtain ⟨count, cache', hres, hlive⟩ := invalidateTag_ok h tag
  have hfewer : Fewer cache cache' := by
    intro key entry hentry
    rw [hlive] at hentry
    split at hentry
    · cases hentry
    · exact hentry
  have hfree : Free cache' tag := by
    intro key entry deadline hentry htag
    obtain ⟨list, reach, hindex, hmem, -⟩ := h.covered key entry deadline (hfewer key _ hentry) tag htag
    rw [hlive, if_pos (.inr (by rwa [Keyspace.members_of_live hindex]))] at hentry
    cases hentry
  refine ⟨count, cache', hres, ⟨?_, ?_, ?_⟩, hfewer, hfree⟩
  · intro tag' value deadline hentry
    exact h.sets tag' value deadline (hfewer _ _ hentry)
  · intro tag' key hmem
    refine h.keys tag' key ?_
    unfold Keyspace.members at hmem ⊢
    cases hindex : cache'.live (tagIndexKey tag') with
    | none => simp [hindex] at hmem
    | some entry =>
      rw [hindex] at hmem
      rw [hfewer _ _ hindex]
      exact hmem
  · intro key entry deadline hentry tag' htag'
    obtain ⟨list, reach, hindex, hmem, hlasts⟩ := h.covered key entry deadline (hfewer key _ hentry) tag' htag'
    have hapart : ¬(tagIndexKey tag' = tagIndexKey tag ∨ tagIndexKey tag' ∈ cache.members (tagIndexKey tag)) := by
      rintro (heq | hjoined)
      · rw [tagIndexKey_injective heq] at htag'
        exact hfree key entry deadline hentry htag'
      · exact h.keys tag _ hjoined tag' rfl
    exact ⟨list, reach, by rw [hlive, if_neg hapart]; exact hindex, hmem, hlasts⟩

theorem Indexed.invalidateTags (tags : List String) (h : Indexed cache) (deleted : Nat) : ∃ count cache',
    invalidateTags deleted tags cache = (.ok count, cache') ∧ Indexed cache' ∧ Fewer cache cache' ∧
      ∀ tag ∈ tags, Free cache' tag := by
  induction tags generalizing cache deleted with
  | nil => exact ⟨deleted, cache, rfl, h, fun _ _ hlive => hlive, fun tag htag => absurd htag not_mem_nil⟩
  | cons tag tags ih =>
    obtain ⟨count, cache₁, hfirst, hidx, hfewer, hfree⟩ := h.invalidateTag tag
    obtain ⟨total, cache₂, hrest, hidx', hfewer', hfree'⟩ := ih hidx (deleted + count)
    refine ⟨total, cache₂, ?_, hidx', fun key entry hlive => hfewer key entry (hfewer' key entry hlive), ?_⟩
    · simp only [CacheAside.invalidateTags, hfirst]
      exact hrest
    · exact forall_mem_cons.mpr ⟨hfree.fewer hfewer', hfree'⟩

/-- A call of the cache, or time that passes. -/
inductive Step where
  | set (key : String) (value : Json) (ttlSeconds : Int) (tags : List String) (createdAt : Date)
  | advance (ms : Nat)
  | invalidate (tags : List String) (pattern : Option String)

def apply (cache : Cache) : Step → Cache
  | .set key value ttlSeconds tags createdAt => (setCacheEntry cache key value ttlSeconds tags createdAt).2
  | .advance ms => cache.advance ms
  | .invalidate tags pattern => (invalidate cache ⟨tags, pattern, .tag⟩).2

def run (cache : Cache) (history : List Step) : Cache := History.run apply cache history

def Allows (cache : Cache) : Step → Prop
  | .set key _ ttlSeconds tags _ => Reaches cache key ttlSeconds tags
  | .advance _ => True
  | .invalidate _ _ => True

def Orderly (cache : Cache) (history : List Step) : Prop := History.Orderly apply Allows cache history

theorem Indexed.apply (h : Indexed cache) {step : Step} (hallows : Allows cache step) : Indexed (apply cache step) := by
  cases step with
  | set key value ttlSeconds tags createdAt => exact h.setCacheEntry hallows
  | advance ms => exact h.advance ms
  | invalidate tags pattern =>
    obtain ⟨count, cache', hres, hidx, -⟩ := h.invalidateTags tags 0
    have hstep : CacheAside.apply cache (.invalidate tags pattern) = cache' := congrArg Prod.snd hres
    rw [hstep]
    exact hidx

theorem Indexed.run {history : List Step} (h : Indexed cache) (hord : Orderly cache history) :
    Indexed (run cache history) :=
  History.Orderly.invariant (fun _ _ hidx hallows => hidx.apply hallows) hord h

/-- **Nothing is left** of an invalidated tag, after any history of writes that each reach as far as the entries they share a
tag with. -/
theorem nothing_left (now : Nat) {history : List Step} (hord : Orderly (.empty now) history) (tags : List String)
    (pattern : Option String) : ∀ tag ∈ tags, Free (run (.empty now) (history ++ [.invalidate tags pattern])) tag := by
  obtain ⟨count, cache', hres, -, -, hfree⟩ := ((indexed_empty now).run hord).invalidateTags tags 0
  have hrun : run (.empty now) (history ++ [.invalidate tags pattern]) = cache' := by
    rw [run, History.run_concat]
    exact congrArg Prod.snd hres
  rw [hrun]
  exact hfree

def writeProduct (key : String) (ttlSeconds : Int) : Step := .set key .null ttlSeconds ["products"] none

theorem apart_of_unprefixed (h : TAG_KEY_PREFIX.toList.isPrefixOf key.toList = false) (tag : String) :
    key ≠ tagIndexKey tag := by
  rintro rfl
  simp [tagIndexKey, String.toList_append, isPrefixOf_iff_prefix.mpr (prefix_append ..)] at h

/-- An entry is gone with its tag, two seconds later. -/
theorem nothing_left_products : Free (run (.empty 0)
    ([writeProduct "product:1" 60, .advance 2000] ++ [.invalidate ["products"] none])) "products" := by
  have hwrite : Allows (.empty 0) (writeProduct "product:1" 60) :=
    ⟨apart_of_unprefixed rfl, fun _ _ other entry deadline _ hlive => by cases hlive⟩
  have hord : Orderly (.empty 0) [writeProduct "product:1" 60, .advance 2000] := ⟨hwrite, trivial, trivial⟩
  exact nothing_left 0 hord ["products"] none "products" mem_cons_self

/-- The second lives a second, and with it the index: the first is left. -/
theorem entry_left : ¬Free (run (.empty 0)
    ([writeProduct "product:1" 60, writeProduct "product:2" 1, .advance 2000] ++ [.invalidate ["products"] none])) "products" := by
  have hleft : ((run (.empty 0) ([writeProduct "product:1" 60, writeProduct "product:2" 1, .advance 2000] ++
      [.invalidate ["products"] none])).live "product:1").any (fun entry => match entry.value with
        | .text entry => decide ("products" ∈ entry.tags)
        | .members _ => false) = true := by
    decide
  intro hfree
  obtain ⟨⟨value | list, deadline⟩, hlive, htag⟩ := (Option.any_eq_true ..).mp hleft
  · exact hfree _ value deadline hlive (of_decide_eq_true htag)
  · cases htag

end Delego.CacheAside
