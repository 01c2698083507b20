import Delego.TaggedCache.Service

/-! Which entries their tags reach.

An entry that carries a tag is in the set of the tag, or its writer is to add it (`Reachable`), as long as no set is
deleted from under an entry and no writer leaves one behind (`Orderly`). -/
namespace Delego.TaggedCache
open Delego.Data Delego.Process Delego.Redis List Function

abbrev CachePool := Pool redisSignature Cache

variable {tag : String}

theorem tagKey_injective {tag' : String} (h : tagKey tag = tagKey tag') : tag = tag' := by
  have hchars := congrArg String.toList h
  rw [tagKey, tagKey, String.toList_append, String.toList_append] at hchars
  exact String.toList_inj.mp (append_cancel_left hchars)

variable {key : String}

theorem entryKey_injective {key' : String} (h : entryKey key = entryKey key') : key = key' := by
  have hchars := congrArg String.toList h
  rw [entryKey, entryKey, String.toList_append, String.toList_append] at hchars
  exact String.toList_inj.mp (append_cancel_left hchars)

theorem kinds_apart (a b : String) : entryKey a ≠ tagKey b ∧ versionKey a ≠ tagKey b ∧ versionKey a ≠ entryKey b := by
  have hkind (start rest : String) (n : Nat) (hn : n < start.toList.length) :
      (start ++ rest).toList[n]? = start.toList[n]? := by
    rw [String.toList_append, getElem?_append_left hn]
  refine ⟨fun h => ?_, fun h => ?_, fun h => ?_⟩
  all_goals
    have hchar := congrArg (fun s : String => s.toList[6]?) h
    simp only [entryKey, tagKey, versionKey, hkind ENTRY_PREFIX _ 6 (by decide), hkind TAG_PREFIX _ 6 (by decide),
      hkind VERSION_PREFIX _ 6 (by decide)] at hchar
    exact absurd hchar (by decide)

/-- The entry of the key is live, with the tag. -/
def Carries (w : Cache) (key tag : String) : Prop :=
  ∃ entry deadline, w.live (entryKey key) = some ⟨.text (.entry entry), deadline⟩ ∧ tag ∈ entry.tags

/-- Another call is about to add the key to the set of the tag. -/
def Owed (p : CachePool) (i : Nat) (key tag : String) : Prop :=
  ∃ j added, j ≠ i ∧ p.pending j = some (.multi added) ∧ (tagKey tag, key) ∈ added

/-- The entries that no step may leave out of a set: those in it, or owed by another call. -/
def Kept (p : CachePool) (i : Nat) (key tag : String) : Prop := key ∈ p.world.members (tagKey tag) ∨ Owed p i key tag

/-- What a command must meet. The sets of tags are deleted only where every live entry of theirs is owed to its set;
an entry is written only where its key gets into the sets of its tags all the same. -/
def Meets (p : CachePool) (i : Nat) : Op → Choice → Prop
  | .del keys, ch => (∀ message, ch.fate ≠ .refused message) →
    ∀ tag key, tagKey tag ∈ keys → Carries p.world key tag → Owed p i key tag
  | .set _ (.entry entry) _, ch => (∃ message, ch.fate = .lost message) → ∀ tag ∈ entry.tags, Kept p i entry.key tag
  | .multi added, ch => (∃ message, ch.fate = .refused message) →
    ∀ tag key, (tagKey tag, key) ∈ added → Carries p.world key tag → Kept p i key tag
  | _, _ => True

def Orderly (p : CachePool) : Action system → Prop
  | .step i ch => ∀ o, p.pending i = some o → Meets p i o ch
  | _ => True

/-- A call that has written an entry is to add its key to the sets of its tags. -/
inductive Phase where
  | idle
  | tagging (key : String) (tags : List String)

def additions (key : String) (tags : List String) : List (String × String) := tags.map fun tag => (tagKey tag, key)

def Phase.Allows : Phase → Op → Prop
  | .idle, .multi _ => False
  | .idle, .set key (.entry entry) _ => key = entryKey entry.key
  | .idle, .set _ (.version _) _ => False
  | .idle, .incr key => ∃ nameSpace, key = versionKey nameSpace
  | .idle, .del keys => (∃ key, keys = [entryKey key]) ∨ ∃ tags : List String, keys = tags.map tagKey
  | .idle, _ => True
  | .tagging key tags, o => o = .multi (additions key tags)

def Phase.next (φ : Phase) (o : Op) (r : redisSignature.Result o) : Phase :=
  match φ, o, r with
  | .idle, .set _ (.entry entry) _, .ok _ => if entry.tags = [] then .idle else .tagging entry.key entry.tags
  | _, _, _ => .idle

def tagging : Protocol redisSignature Phase where
  Allowed := Phase.Allows
  Moves := fun φ o r φ' => φ' = φ.next o r
  Ends := fun φ => φ = .idle

theorem follows_redis {o : Op} (ha : Phase.idle.Allows o) (hnext : ∀ r, Phase.idle.next o r = .idle) :
    Follows tagging .idle (redis o) (fun _ φ => φ = .idle) :=
  follows_perform ha fun r _ hmoves => hmoves.trans (hnext r)

theorem follows_idle {α β : Type} {program : TaggedM α} {rest : α → TaggedM β}
    (h : Follows tagging .idle program (fun _ φ => φ = .idle))
    (hrest : ∀ a, Follows tagging .idle (rest a) (fun _ φ => φ = .idle)) :
    Follows tagging .idle (program >>= rest) (fun _ φ => φ = .idle) :=
  follows_andThen h fun a φ hφ => by
    rw [hφ]
    exact hrest a

theorem follows_getVersion (nameSpace : String) : Follows tagging .idle (getVersion nameSpace) (fun _ φ => φ = .idle) := by
  refine follows_idle (follows_redis trivial fun _ => rfl) fun stored => ?_
  cases stored with
  | none => rfl
  | some stored => cases stored <;> rfl

theorem follows_get (key : String) : Follows tagging .idle (get key) (fun _ φ => φ = .idle) := by
  refine follows_idle (follows_redis trivial fun _ => rfl) fun stored => ?_
  match stored with
  | none => rfl
  | some (.version _) => rfl
  | some (.entry entry) =>
    simp only
    cases named entry.nameSpace with
    | none => rfl
    | some nameSpace => exact follows_idle (follows_getVersion nameSpace) fun _ => rfl

theorem follows_written (key : String) (entry : TaggedCacheEntry) (seconds : Int) (hkey : key = entryKey entry.key) :
    Follows tagging .idle (do
      let _ ← redis (.set key (.entry entry) seconds)
      if entry.tags ≠ [] then
        redis (.multi (entry.tags.map fun tag => (tagKey tag, entry.key)))) (fun _ φ => φ = .idle) := by
  refine follows_bind (follows_perform hkey (forall_except (fun _ _ hmoves => hmoves) fun _ φ hmoves => ?_))
  by_cases htags : entry.tags = []
  · have hidle : φ = .idle := hmoves.trans (if_pos htags)
    simp only [Then, htags, ne_eq, not_true_eq_false, if_false]
    exact hidle
  · have htagging : φ = .tagging entry.key entry.tags := hmoves.trans (if_neg htags)
    simp only [Then, htags, ne_eq, not_false_eq_true, if_true]
    rw [htagging]
    exact follows_perform rfl fun r φ' hmoves' => hmoves'

theorem follows_set (key : String) (value : Json) (options : SetOptions) (now : Date) :
    Follows tagging .idle (set key value options now) (fun _ φ => φ = .idle) := by
  let tags := options.tags.getD []
  let ttlSeconds := options.ttlSeconds.getD DEFAULT_TTL_SECONDS
  have hwrit (version : Nat) := follows_written (entryKey key)
    { key, value, tags, nameSpace := options.nameSpace, version, ttlSeconds, createdAt := now, updatedAt := now }
    ttlSeconds rfl
  unfold set
  cases named options.nameSpace with
  | none => exact hwrit 0
  | some nameSpace => exact follows_idle (follows_getVersion nameSpace) hwrit

theorem follows_collectKeys (tags keys : List String) (errors : List Failure) :
    Follows tagging .idle (collectKeys keys errors tags) (fun _ φ => φ = .idle) := by
  induction tags generalizing keys errors with
  | nil => rfl
  | cons tag tags ih =>
    refine follows_idle (follows_attempt (follows_redis trivial fun _ => rfl)) fun outcome => ?_
    cases outcome with
    | ok members => exact ih _ _
    | error error => exact ih _ _

theorem follows_deleteEntries (keys invalidatedKeys : List String) (errors : List Failure) :
    Follows tagging .idle (deleteEntries invalidatedKeys errors keys) (fun _ φ => φ = .idle) := by
  induction keys generalizing invalidatedKeys errors with
  | nil => rfl
  | cons key keys ih =>
    refine follows_idle (follows_attempt (follows_redis (.inl ⟨key, rfl⟩) fun _ => rfl)) fun outcome => ?_
    cases outcome with
    | ok count => exact ih _ _
    | error error => exact ih _ _

theorem follows_invalidateByTags (tags : List String) :
    Follows tagging .idle (invalidateByTags tags) (fun _ φ => φ = .idle) :=
  follows_idle (follows_collectKeys tags [] []) fun collected =>
    follows_idle (follows_deleteEntries collected.1 [] collected.2) fun _ =>
      follows_idle (follows_attempt (follows_redis (.inr ⟨tags, rfl⟩) fun _ => rfl)) fun _ => rfl

theorem follows_body (call : Call) : Follows tagging .idle call.body (fun _ φ => φ = .idle) := by
  cases call with
  | set key value options now => exact follows_set key value options now
  | get key => exact follows_idle (follows_get key) fun _ => rfl
  | delete key => exact follows_idle (follows_redis (.inl ⟨key, rfl⟩) fun _ => rfl) fun _ => rfl
  | bumpVersion nameSpace => exact follows_idle (follows_redis ⟨nameSpace, rfl⟩ fun _ => rfl) fun _ => rfl
  | invalidateByTags tags => exact follows_idle (follows_invalidateByTags tags) fun _ => rfl

/-! ### One command -/

def Lasting (w : Cache) (tag : String) : Prop :=
  ∀ entry, w.live (tagKey tag) = some entry → ∃ list, entry = ⟨.members list, none⟩

/-- A call other than `i` is to add the key to the set of the tag. -/
def Due (φ : Nat → Phase) (i : Nat) (key tag : String) : Prop := ∃ j tags, j ≠ i ∧ φ j = .tagging key tags ∧ tag ∈ tags

/-- Every live entry is in the sets of its tags, or a call is to add it to them. -/
structure Reachable (w : Cache) (φ : Nat → Phase) : Prop where
  sets : ∀ tag, Lasting w tag
  reached : ∀ key tag, Carries w key tag → key ∈ w.members (tagKey tag) ∨ ∃ j tags, φ j = .tagging key tags ∧ tag ∈ tags

theorem reachable_empty (now : Nat) : Reachable (.empty now) fun _ => .idle where
  sets := fun tag entry hlive => by cases hlive
  reached := fun key tag ⟨entry, deadline, hlive, _⟩ => by cases hlive

variable {w w' : Cache} {φ : Nat → Phase} {i : Nat}

theorem Lasting.notText (h : Lasting w tag) : w.NotText (tagKey tag) := by
  intro value deadline hlive
  obtain ⟨list, hentry⟩ := h _ hlive
  cases hentry

theorem members_congr (h : w'.live key = w.live key) : w'.members key = w.members key := by
  unfold Keyspace.members
  rw [h]

theorem Reachable.of_moved {ψ : Phase} (hsets : ∀ tag, Lasting w' tag) (hreach : ∀ key tag, Carries w' key tag →
    key ∈ w'.members (tagKey tag) ∨ Due φ i key tag ∨ ∃ tags, ψ = .tagging key tags ∧ tag ∈ tags) :
    Reachable w' (update φ i ψ) := by
  refine ⟨hsets, fun key tag hcarr => ?_⟩
  rcases hreach key tag hcarr with hmem | ⟨j, tags, hj, hphase, htag⟩ | ⟨tags, hphase, htag⟩
  · exact .inl hmem
  · refine .inr ⟨j, tags, ?_, htag⟩
    rw [update_of_ne hj]
    exact hphase
  · refine .inr ⟨i, tags, ?_, htag⟩
    rw [update_self]
    exact hphase

theorem Reachable.idle (h : Reachable w φ) (hi : φ i = .idle) (hcarr : Carries w key tag) :
    key ∈ w.members (tagKey tag) ∨ Due φ i key tag := by
  rcases h.reached key tag hcarr with hmem | ⟨j, tags, hphase, htag⟩
  · exact .inl hmem
  · refine .inr ⟨j, tags, ?_, hphase, htag⟩
    rintro rfl
    simp [hi] at hphase

theorem Reachable.fewer (h : Reachable w φ) (hsets : ∀ tag, w'.live (tagKey tag) = w.live (tagKey tag))
    (hcarr : ∀ key tag, Carries w' key tag → Carries w key tag) : Reachable w' φ where
  sets tag entry hlive := h.sets tag entry ((hsets tag).symm.trans hlive)
  reached key tag hafter := by
    rw [members_congr (hsets tag)]
    exact h.reached key tag (hcarr key tag hafter)

theorem Reachable.advance (h : Reachable w φ) (ms : Nat) : Reachable (w.advance ms) φ where
  sets tag entry hlive := h.sets tag entry (Keyspace.live_advance.mp hlive).1
  reached := by
    rintro key tag ⟨entry, deadline, hlive, htag⟩
    have hsame : (w.advance ms).live (tagKey tag) = w.live (tagKey tag) := by
      cases hset : w.live (tagKey tag) with
      | none =>
        refine Option.eq_none_iff_forall_not_mem.mpr fun entry hafter => ?_
        simp [(Keyspace.live_advance.mp hafter).1] at hset
      | some entry =>
        obtain ⟨list, rfl⟩ := h.sets tag entry hset
        exact Keyspace.live_advance.mpr ⟨hset, rfl⟩
    rw [members_congr hsame]
    exact h.reached key tag ⟨entry, deadline, (Keyspace.live_advance.mp hlive).1, htag⟩

theorem Reachable.written (h : Reachable w φ) (hi : φ i = .idle) {entry : TaggedCacheEntry} {deadline : Option Nat}
    {ψ : Phase} (hψ : ∀ tag ∈ entry.tags, entry.key ∈ w.members (tagKey tag) ∨ Due φ i entry.key tag ∨
      ∃ tags, ψ = .tagging entry.key tags ∧ tag ∈ tags) :
    Reachable (w.write (entryKey entry.key) (some ⟨.text (.entry entry), deadline⟩)) (update φ i ψ) := by
  have hsets : ∀ tag, (w.write (entryKey entry.key) (some ⟨.text (.entry entry), deadline⟩)).live (tagKey tag) =
      w.live (tagKey tag) := fun tag => Keyspace.live_write_ne (kinds_apart entry.key tag).1.symm _
  refine .of_moved (fun tag found hlive => h.sets tag found ((hsets tag).symm.trans hlive)) fun key tag hcarr => ?_
  rw [members_congr (hsets tag)]
  obtain ⟨found, d, hlive, htag⟩ := hcarr
  by_cases hkey : entryKey key = entryKey entry.key
  · rw [Keyspace.live_write, if_pos hkey] at hlive
    cases (Option.filter_eq_some_iff.mp hlive).1
    rw [entryKey_injective hkey]
    exact hψ tag htag
  · rw [Keyspace.live_write_ne hkey] at hlive
    rcases h.idle hi ⟨found, d, hlive, htag⟩ with hmem | hdue
    · exact .inl hmem
    · exact .inr (.inl hdue)

variable {tags : List String}

theorem Reachable.setsDeleted (h : Reachable w φ) (hi : φ i = .idle)
    (hdue : ∀ tag ∈ tags, ∀ key, Carries w key tag → Due φ i key tag) :
    Reachable (w.del (tags.map tagKey)).2 (update φ i .idle) := by
  have hentries : ∀ key, (w.del (tags.map tagKey)).2.live (entryKey key) = w.live (entryKey key) := by
    intro key
    rw [Keyspace.live_del, if_neg]
    intro hmem
    obtain ⟨tag, -, heq⟩ := mem_map.mp hmem
    exact (kinds_apart key tag).1 heq.symm
  refine .of_moved (fun tag entry hlive => ?_) fun key tag hcarr => ?_
  · rw [Keyspace.live_del] at hlive
    split at hlive
    · cases hlive
    · exact h.sets tag entry hlive
  · obtain ⟨entry, deadline, hlive, htag⟩ := hcarr
    rw [hentries] at hlive
    by_cases hmem : tagKey tag ∈ tags.map tagKey
    · obtain ⟨tag', htag', heq⟩ := mem_map.mp hmem
      rw [tagKey_injective heq] at htag'
      exact .inr (.inl (hdue tag htag' key ⟨entry, deadline, hlive, htag⟩))
    · have hset := Keyspace.live_del (k := w) (tags.map tagKey) (tagKey tag)
      rw [if_neg hmem] at hset
      rw [members_congr hset]
      rcases h.idle hi ⟨entry, deadline, hlive, htag⟩ with hpre | hdue'
      · exact .inl hpre
      · exact .inr (.inl hdue')

/-- Sets of tags that have grown, with everything else as it was. -/
structure Grown (w w' : Cache) : Prop where
  others : ∀ key, (∀ tag, key ≠ tagKey tag) → w'.live key = w.live key
  sets : ∀ tag, Lasting w' tag
  kept : ∀ tag, ∀ member ∈ w.members (tagKey tag), member ∈ w'.members (tagKey tag)

theorem sadd_grown (hsets : ∀ tag, Lasting w tag) (tag member : String) :
    Grown w (w.sadd (tagKey tag) [member]).2 ∧ member ∈ (w.sadd (tagKey tag) [member]).2.members (tagKey tag) := by
  obtain ⟨count, list, deadline, hadd, hmems, hpre, hdead⟩ := Keyspace.sadd_ok (hsets tag).notText [member]
  rw [hadd]
  have hself : (w.write (tagKey tag) (some ⟨.members list, deadline⟩)).live (tagKey tag) =
      some ⟨.members list, deadline⟩ := Keyspace.live_write_self hpre
  have hlasting : deadline = none := by
    rw [hdead]
    cases hlive : w.live (tagKey tag) with
    | none => rfl
    | some entry =>
      obtain ⟨list', rfl⟩ := hsets tag entry hlive
      rfl
  refine ⟨⟨fun key hkey => Keyspace.live_write_ne (hkey tag) _, fun tag' entry hlive => ?_, fun tag' other hmem => ?_⟩, ?_⟩
  · by_cases hsame : tagKey tag' = tagKey tag
    · rw [hsame, hself, hlasting] at hlive
      exact ⟨list, (Option.some.inj hlive).symm⟩
    · rw [Keyspace.live_write_ne hsame] at hlive
      exact hsets tag' entry hlive
  · by_cases hsame : tagKey tag' = tagKey tag
    · rw [hsame] at hmem ⊢
      rw [Keyspace.members_of_live hself]
      exact (hmems other).mpr (.inl hmem)
    · rw [members_congr (Keyspace.live_write_ne hsame _)]
      exact hmem
  · rw [Keyspace.members_of_live hself]
    exact (hmems member).mpr (.inr mem_cons_self)

theorem addMembers_grown (key : String) (tags : List String) {w : Cache} (hsets : ∀ tag, Lasting w tag) :
    Grown w (addMembers (additions key tags) w) ∧
      ∀ tag ∈ tags, key ∈ (addMembers (additions key tags) w).members (tagKey tag) := by
  induction tags generalizing w with
  | nil => exact ⟨⟨fun _ _ => rfl, hsets, fun _ _ hmem => hmem⟩, fun tag htag => absurd htag not_mem_nil⟩
  | cons tag tags ih =>
    obtain ⟨hgrown, hadded⟩ := sadd_grown hsets tag key
    obtain ⟨hrest, hadded'⟩ := ih hgrown.sets
    refine ⟨⟨fun other hother => ?_, hrest.sets, fun tag' member hmem => ?_⟩, ?_⟩
    · exact (hrest.others other hother).trans (hgrown.others other hother)
    · exact hrest.kept tag' member (hgrown.kept tag' member hmem)
    · exact forall_mem_cons.mpr ⟨hrest.kept tag key hadded, hadded'⟩

theorem Reachable.added (h : Reachable w φ) (hi : φ i = .tagging key tags) :
    Reachable (addMembers (additions key tags) w) (update φ i .idle) := by
  obtain ⟨hgrown, hadded⟩ := addMembers_grown key tags h.sets
  refine .of_moved hgrown.sets fun key' tag hcarr => ?_
  obtain ⟨entry, deadline, hlive, htag⟩ := hcarr
  rw [hgrown.others _ fun tag' => (kinds_apart key' tag').1] at hlive
  rcases h.reached key' tag ⟨entry, deadline, hlive, htag⟩ with hmem | ⟨j, tags', hphase, htag'⟩
  · exact .inl (hgrown.kept tag key' hmem)
  · by_cases hj : j = i
    · rw [hj, hi] at hphase
      cases hphase
      exact .inl (hadded tag htag')
    · exact .inr (.inl ⟨j, tags', hj, hphase, htag'⟩)

abbrev reachability (w : Cache) (_ : List (Process.Entry redisSignature)) (φ : Nat → Phase) : Prop := Reachable w φ

variable {p : CachePool}

theorem due_of_owed (ht : Tracked tagging .idle reachability p φ) (h : Owed p i key tag) : Due φ i key tag := by
  obtain ⟨j, added, hj, hpend, hmem⟩ := h
  have hallow := ht.allowed hpend
  cases hphase : φ j with
  | idle =>
    rw [hphase] at hallow
    exact hallow.elim
  | tagging key' tags =>
    rw [hphase] at hallow
    cases hallow
    obtain ⟨tag', htag', heq⟩ := mem_map.mp hmem
    obtain ⟨htags, rfl⟩ := Prod.mk.inj heq
    rw [← tagKey_injective htags]
    exact ⟨j, tags, hj, hphase, htag'⟩

theorem kept_due (ht : Tracked tagging .idle reachability p φ) (h : Kept p i key tag) :
    key ∈ p.world.members (tagKey tag) ∨ Due φ i key tag := h.imp id (due_of_owed ht)

theorem incr_other {other : String} {n : Nat} (h : incr w key = .ok (n, w')) (hother : other ≠ key) :
    w'.live other = w.live other := by
  unfold incr at h
  split at h
  · cases h
    exact Keyspace.live_write_ne hother _
  · cases h
    exact Keyspace.live_write_ne hother _
  · cases h
  · cases h

theorem read_only {α β : Type} {found : Except String α} {f : α → β} {b : β}
    (h : (found.map fun value => (f value, w)) = .ok (b, w')) : w' = w := by
  cases found with
  | error message => cases h
  | ok value =>
    cases h
    rfl

theorem update_idle (hi : φ i = .idle) : update φ i .idle = φ := by
  rw [← hi]
  exact update_eq_self i φ

variable {ch : Choice}

theorem Reachable.multi (hmeets : Meets p i (.multi (additions key tags)) ch)
    (ht : Tracked tagging .idle reachability p φ) (hi : φ i = .tagging key tags) :
    Reachable (perform (.multi (additions key tags)) ch p.world).2 (update φ i .idle) := by
  have h : Reachable p.world φ := ht.holds
  cases hfate : ch.fate with
  | refused message =>
    simp only [perform, hfate, answer, Fate.deliver, Fate.carry]
    refine .of_moved h.sets fun key' tag hcarr => ?_
    rcases h.reached key' tag hcarr with hmem | ⟨j, tags', hphase, htag⟩
    · exact .inl hmem
    · by_cases hj : j = i
      · rw [hj, hi] at hphase
        cases hphase
        have hkept := hmeets ⟨message, hfate⟩ tag key (mem_map_of_mem htag) hcarr
        exact (kept_due ht hkept).imp id .inl
      · exact .inr (.inl ⟨j, tags', hj, hphase, htag⟩)
  | done =>
    simp only [perform, hfate, answer, Fate.deliver, Fate.carry]
    exact h.added hi
  | lost message =>
    simp only [perform, hfate, answer, Fate.deliver, Fate.carry]
    exact h.added hi

theorem Reachable.set {entry : TaggedCacheEntry} {seconds : Int}
    (hmeets : Meets p i (.set (entryKey entry.key) (.entry entry) seconds) ch)
    (ht : Tracked tagging .idle reachability p φ) (hi : φ i = .idle) :
    let result := perform (.set (entryKey entry.key) (.entry entry) seconds) ch p.world
    Reachable result.2 (update φ i (Phase.idle.next (.set (entryKey entry.key) (.entry entry) seconds) result.1)) := by
  have h : Reachable p.world φ := ht.holds
  have hsame : Reachable p.world (update φ i .idle) := by
    rw [update_idle hi]
    exact h
  cases hdead : deadlineOf p.world.now seconds with
  | none =>
    have href : perform (.set (entryKey entry.key) (.entry entry) seconds) ch p.world =
        (.error invalidExpire, p.world) := by
      simp only [perform, answer, Keyspace.setEx, hdead, Fate.deliver]
    rw [href]
    exact hsame
  | some deadline =>
    cases hfate : ch.fate with
    | refused message =>
      simp only [perform, answer, Keyspace.setEx, hdead, hfate, Fate.deliver, Fate.carry]
      exact hsame
    | lost message =>
      simp only [perform, answer, Keyspace.setEx, hdead, hfate, Fate.deliver, Fate.carry]
      refine h.written hi fun tag htag => ?_
      exact (kept_due ht (hmeets ⟨message, hfate⟩ tag htag)).imp id .inl
    | done =>
      simp only [perform, answer, Keyspace.setEx, hdead, hfate, Fate.deliver, Fate.carry]
      refine h.written hi fun tag htag => .inr (.inr ⟨entry.tags, ?_, htag⟩)
      exact if_neg (ne_nil_of_mem htag)

theorem Reachable.del {keys : List String} (hmeets : Meets p i (.del keys) ch)
    (ht : Tracked tagging .idle reachability p φ) (hi : φ i = .idle) (ha : Phase.idle.Allows (.del keys)) :
    Reachable (perform (.del keys) ch p.world).2 (update φ i .idle) := by
  have h : Reachable p.world φ := ht.holds
  have hsame : Reachable p.world (update φ i .idle) := by
    rw [update_idle hi]
    exact h
  by_cases href : ∃ message, ch.fate = .refused message
  · obtain ⟨message, hfate⟩ := href
    simp only [perform, hfate, answer, Fate.deliver, Fate.carry]
    exact hsame
  · have hdeleted : (perform (.del keys) ch p.world).2 = (p.world.del keys).2 := by
      cases hfate : ch.fate with
      | refused message => exact absurd ⟨message, hfate⟩ href
      | done => simp only [perform, hfate, answer, Fate.deliver, Fate.carry]
      | lost message => simp only [perform, hfate, answer, Fate.deliver, Fate.carry]
    rw [hdeleted]
    rcases ha with ⟨key, rfl⟩ | ⟨tags, rfl⟩
    · refine hsame.fewer (fun tag => ?_) ?_
      · rw [Keyspace.live_del, if_neg]
        exact fun hmem => (kinds_apart key tag).1 (mem_singleton.mp hmem).symm
      · rintro key' tag ⟨entry, deadline, hlive, htag⟩
        rw [Keyspace.live_del] at hlive
        split at hlive
        · cases hlive
        · exact ⟨entry, deadline, hlive, htag⟩
    · refine h.setsDeleted hi fun tag htag key hcarr => due_of_owed ht ?_
      exact hmeets (fun message hfate => href ⟨message, hfate⟩) tag key (mem_map_of_mem htag) hcarr

theorem reachable_step {o : Op} (hmeets : Meets p i o ch) (ht : Tracked tagging .idle reachability p φ)
    (ha : (φ i).Allows o) :
    Reachable (perform o ch p.world).2 (update φ i ((φ i).next o (perform o ch p.world).1)) := by
  cases hi : φ i with
  | tagging key tags =>
    rw [hi] at ha
    cases ha
    exact .multi hmeets ht hi
  | idle =>
    rw [hi] at ha
    have hsame : Reachable p.world (update φ i .idle) := by
      rw [update_idle hi]
      exact ht.holds
    cases o with
    | multi added => exact ha.elim
    | get key =>
      show Reachable _ (update φ i .idle)
      refine Fate.deliver_kept (P := fun w => Reachable w _) hsame fun value w' hans => ?_
      rw [read_only hans]
      exact hsame
    | smembers key =>
      show Reachable _ (update φ i .idle)
      refine Fate.deliver_kept (P := fun w => Reachable w _) hsame fun members w' hans => ?_
      rw [read_only hans]
      exact hsame
    | incr key =>
      show Reachable _ (update φ i .idle)
      obtain ⟨nameSpace, rfl⟩ := ha
      refine Fate.deliver_kept (P := fun w => Reachable w _) hsame fun n w' hans => ?_
      refine hsame.fewer (fun tag => incr_other hans (kinds_apart nameSpace tag).2.1.symm) ?_
      rintro key tag ⟨entry, deadline, hlive, htag⟩
      rw [incr_other hans (kinds_apart nameSpace key).2.2.symm] at hlive
      exact ⟨entry, deadline, hlive, htag⟩
    | del keys => exact .del hmeets ht hi ha
    | set key stored seconds =>
      cases stored with
      | version n => exact ha.elim
      | entry entry =>
        obtain rfl : key = entryKey entry.key := ha
        exact .set hmeets ht hi

theorem inductive_reachable : Inductive system tagging .idle Orderly reachability where
  body p call _ := follows_body call
  arrive p φ call w _ ht hw := by
    cases hw
    exact ht.holds
  drift p φ ms _ ht := ht.holds.advance ms
  answers p φ i o ch _ _ _ _ := ⟨_, rfl⟩
  step p φ i o ch φ' hmeets hp ht ha hmoves := by
    rw [hmoves]
    exact reachable_step (hmeets o hp) ht ha

def undisturbed (order : List String) (o : Op) (w : Cache) : redisSignature.Result o × Cache := perform o ⟨.done, order⟩ w

theorem mem_addKeys (members : List String) {keys : List String} :
    key ∈ addKeys keys members ↔ key ∈ keys ∨ key ∈ members := by
  induction members generalizing keys with
  | nil => simp [addKeys]
  | cons member members ih =>
    have hadd : addKeys keys (member :: members) = addKeys (if member ∈ keys then keys else keys ++ [member]) members := rfl
    rw [hadd, ih]
    by_cases hmem : member ∈ keys
    · rw [if_pos hmem, mem_cons]
      refine or_congr_right' fun hkey => ?_
      exact (or_iff_right fun heq => hkey (by rwa [heq])).symm
    · rw [if_neg hmem, mem_append, mem_singleton, mem_cons, or_assoc]

theorem collectKeys_ok (order tags : List String) (hsets : ∀ tag, Lasting w tag) (keys : List String)
    (errors : List Failure) : ∃ collected,
      (collectKeys keys errors tags).alone (undisturbed order) w = (.ok (collected, errors), w) ∧
        (∀ key ∈ keys, key ∈ collected) ∧ ∀ tag ∈ tags, ∀ key ∈ w.members (tagKey tag), key ∈ collected := by
  induction tags generalizing keys with
  | nil => exact ⟨keys, rfl, fun _ hkey => hkey, fun tag htag => absurd htag not_mem_nil⟩
  | cons tag tags ih =>
    have hread : (redis (.smembers (tagKey tag))).alone (undisturbed order) w =
        (.ok (inOrder order (w.members (tagKey tag))), w) := by
      rw [redis, Program.alone_perform]
      simp only [undisturbed, perform, answer, Keyspace.smembers_ok (hsets tag).notText]
      rfl
    obtain ⟨collected, hrest, hkept, hmems⟩ := ih (addKeys keys (inOrder order (w.members (tagKey tag))))
    refine ⟨collected, ?_, fun key hkey => hkept key ((mem_addKeys _).mpr (.inl hkey)), ?_⟩
    · refine (Program.alone_bind_ok (Program.alone_attempt _ _ _) _).trans ?_
      rw [hread]
      exact hrest
    · refine forall_mem_cons.mpr ⟨fun key hkey => ?_, hmems⟩
      exact hkept key ((mem_addKeys _).mpr (.inr (mem_inOrder.mpr hkey)))

theorem deleteEntries_ok (order keys invalidatedKeys : List String) (errors : List Failure) (w : Cache) :
    ∃ result w', (deleteEntries invalidatedKeys errors keys).alone (undisturbed order) w = (.ok result, w') ∧
      (∀ key ∈ keys, w'.live (entryKey key) = none) ∧ ∀ other, w.live other = none → w'.live other = none := by
  induction keys generalizing invalidatedKeys w with
  | nil => exact ⟨_, w, rfl, fun key hkey => absurd hkey not_mem_nil, fun _ hnone => hnone⟩
  | cons key keys ih =>
    have hdel : (redis (.del [entryKey key])).alone (undisturbed order) w =
        (.ok (w.del [entryKey key]).1, (w.del [entryKey key]).2) := Program.alone_perform _ _ _
    obtain ⟨result, w', hrest, hgone, hnone⟩ := ih (invalidatedKeys ++ [key]) (w.del [entryKey key]).2
    refine ⟨result, w', ?_, forall_mem_cons.mpr ⟨hnone _ ?_, hgone⟩, fun other hother => hnone other ?_⟩
    · refine (Program.alone_bind_ok (Program.alone_attempt _ _ _) _).trans ?_
      rw [hdel]
      exact hrest
    · rw [Keyspace.live_del, if_pos mem_cons_self]
    · rw [Keyspace.live_del, hother, ite_self]

theorem invalidateByTags_ok (order : List String) (hsets : ∀ tag, Lasting w tag) (htag : tag ∈ tags)
    (hkey : key ∈ w.members (tagKey tag)) :
    ((invalidateByTags tags).alone (undisturbed order) w).2.live (entryKey key) = none := by
  obtain ⟨collected, hcollected, -, hmems⟩ := collectKeys_ok order tags hsets [] []
  obtain ⟨result, w', hdeleted, hgone, -⟩ := deleteEntries_ok order collected [] [] w
  have hsetsDeleted : ((redis (.del (tags.map tagKey))).attempt).alone (undisturbed order) w' =
      (.ok (.ok (w'.del (tags.map tagKey)).1), (w'.del (tags.map tagKey)).2) := by
    rw [Program.alone_attempt, redis, Program.alone_perform]
    rfl
  have hres : ((invalidateByTags tags).alone (undisturbed order) w).2 = (w'.del (tags.map tagKey)).2 := by
    unfold invalidateByTags
    rw [Program.alone_bind_ok hcollected, Program.alone_bind_ok hdeleted, Program.alone_bind_ok hsetsDeleted]
    rfl
  rw [hres, Keyspace.live_del, hgone key (hmems tag htag key hkey), ite_self]

theorem get_none (order : List String) (h : w.live (entryKey key) = none) :
    ((get key).alone (undisturbed order) w).1 = .ok none := by
  have hread : (redis (.get (entryKey key))).alone (undisturbed order) w = (.ok none, w) := by
    rw [redis, Program.alone_perform]
    simp only [undisturbed, perform, answer, Keyspace.get, h]
    rfl
  unfold get
  rw [Program.alone_bind_ok hread]
  rfl

/-- After an invalidation the key is not found. -/
def Invalidated (w : Cache) (tags : List String) (key : String) (order : List String) (ms : Nat) : Prop :=
  ((get key).alone (undisturbed order) (((invalidateByTags tags).alone (undisturbed order) w).2.advance ms)).1 = .ok none

/-- **Tagged entries stay reachable.** Whenever no call is in flight, every live entry is in the set of each of its
tags, and an invalidation of one makes it be gone. -/
theorem stays_reachable {now : Nat} {p : CachePool} (h : Run system Orderly (Pool.start (.empty now)) p)
    (hquiet : p.quiet = true) {key tag : String} (hcarr : Carries p.world key tag) :
    key ∈ p.world.members (tagKey tag) ∧ ∀ tags order ms, tag ∈ tags → Invalidated p.world tags key order ms := by
  obtain ⟨φ, ht⟩ := inductive_reachable.run h ⟨_, .start (reachable_empty now)⟩
  have hmem : key ∈ p.world.members (tagKey tag) := by
    rcases ht.holds.reached key tag hcarr with hmem | ⟨j, tags, hphase, -⟩
    · exact hmem
    · have hidle : φ j = .idle := (ht.quiet hquiet j).elim id id
      simp [hidle] at hphase
  refine ⟨hmem, fun tags order ms htag => get_none order ?_⟩
  refine Option.eq_none_iff_forall_not_mem.mpr fun entry hlive => ?_
  have hgone := invalidateByTags_ok order ht.holds.sets htag hmem
  simp [(Keyspace.live_advance.mp hlive).1] at hgone

def carriedOut (_ : CachePool) (_ : Nat) (_ : Op) (ch : Choice) : Bool := decide (ch.fate = .done)

def adding (p : CachePool) (i : Nat) (o : Op) (ch : Choice) : Bool :=
  carriedOut p i o ch && match o with
    | .del _ => false
    | _ => true

theorem orderly_of_adding {a : Action system} (h : onStep adding p a = true) : Orderly p a := by
  cases a with
  | call c => trivial
  | drift ms => trivial
  | step i ch =>
    intro o ho
    have hadding := onStep_pending h ho
    simp only [adding, carriedOut, Bool.and_eq_true, decide_eq_true_eq] at hadding
    obtain ⟨hdone, hop⟩ := hadding
    cases o with
    | del keys => cases hop
    | get key => trivial
    | smembers key => trivial
    | incr key => trivial
    | set key stored seconds =>
      cases stored with
      | version n => trivial
      | entry entry =>
        rintro ⟨message, hlost⟩
        simp [hdone] at hlost
    | multi added =>
      rintro ⟨message, href⟩
      simp [hdone] at href

def goes (i : Nat) : Action system := .step i ⟨.done, []⟩

def invalidateProducts : Action system := .call (Call.invalidateByTags ["products"])

def setProduct : Action system := .call (.set "product:1" .null ⟨some ["products"], none, none⟩ none)

def productLive (w : Cache) : Bool := (w.live (entryKey "product:1")).any fun entry => match entry.value with
  | .text (.entry entry) => decide ("products" ∈ entry.tags)
  | _ => false

theorem carries_of_productLive (h : productLive w = true) : Carries w "product:1" "products" := by
  obtain ⟨⟨value, deadline⟩, hlive, htest⟩ := (Option.any_eq_true ..).mp h
  match value, hlive, htest with
  | .text (.entry entry), hlive, htest => exact ⟨entry, deadline, hlive, of_decide_eq_true htest⟩

/-- A product is written, and an invalidation ten seconds later makes it be gone. -/
theorem stays_reachable_product : ∃ p : CachePool, Run system Orderly (Pool.start (.empty 0)) p ∧ p.quiet = true ∧
    Carries p.world "product:1" "products" ∧ "product:1" ∈ p.world.members (tagKey "products") ∧
    Invalidated p.world ["products"] "product:1" [] 0 := by
  obtain ⟨p, hrun, htest⟩ := Run.exists_of_any (Pool.start (.empty 0)) (onStep adding)
    [setProduct, goes 0, goes 0, .drift (10000 : Nat)] (fun p : CachePool => p.quiet && productLive p.world) (by decide)
  simp only [Bool.and_eq_true] at htest
  have hcarr := carries_of_productLive htest.2
  have hord := hrun.mono fun _ _ => orderly_of_adding
  obtain ⟨hmem, hinvalidated⟩ := stays_reachable hord htest.1 hcarr
  exact ⟨p, hord, htest.1, hcarr, hmem, hinvalidated ["products"] [] 0 mem_cons_self⟩

/-- **An entry is lost to its tag.** The set is read before the product is written and deleted after it has joined
it: no invalidation reaches it any more. -/
theorem product_unreachable : ∃ p : CachePool,
    Run system (fun p a => onStep carriedOut p a = true) (Pool.start (.empty 0)) p ∧ p.quiet = true ∧
    Carries p.world "product:1" "products" ∧ "product:1" ∉ p.world.members (tagKey "products") ∧
    ¬Invalidated p.world ["products"] "product:1" [] 0 := by
  obtain ⟨p, hrun, htest⟩ := Run.exists_of_any (Pool.start (.empty 0)) (onStep carriedOut)
    [invalidateProducts, goes 0, setProduct, goes 1, goes 1, goes 0]
    (fun p : CachePool => p.quiet && (productLive p.world && (decide ("product:1" ∉ p.world.members (tagKey "products")) &&
      ((get "product:1").alone (undisturbed [])
        (((invalidateByTags ["products"]).alone (undisturbed []) p.world).2.advance 0)).1.toOption.all Option.isSome)))
    (by decide)
  simp only [Bool.and_eq_true, decide_eq_true_eq] at htest
  obtain ⟨hquiet, hlive, hout, hfound⟩ := htest
  refine ⟨p, hrun, hquiet, carries_of_productLive hlive, hout, fun hgone => ?_⟩
  rw [hgone] at hfound
  cases hfound

end Delego.TaggedCache
