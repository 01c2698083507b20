import Delego.Data.JsonParse
import Delego.Streams.Group

/-! Messages that are processed once.

A message is handled with success once, and leaves the pending list only handled or archived, as long as none is claimed
from a consumer whose handler goes on to succeed, none after a handler has succeeded on it, and the poison stream takes
what is archived (`processed_once`). -/
namespace Delego.Streams
open Delego.Data Delego.Process List Function

abbrev StreamPool (V : Type) := Pool (streamSignature V) World

section
variable {V : Type}

def isHandled (id : String) : Entry (streamSignature V) → Bool
  | ⟨_, .handle other _, .ok _⟩ => decide (other = id)
  | _ => false

def gets (id : String) : Entry (streamSignature V) → Bool
  | ⟨_, .xClaim _ _ other, .ok (_ :: _)⟩ => decide (other = id)
  | ⟨_, .xReadGroup _ _ _, .ok messages⟩ => messages.any fun message => decide (message.id = id)
  | _ => false

def successes (tr : List (Entry (streamSignature V))) (id : String) : Nat := tr.countP (isHandled id)

/-- The consumer that was last given the message. -/
def holder (tr : List (Entry (streamSignature V))) (id : String) : Option Nat := (tr.find? (gets id)).map Entry.runner

def isArchived (w : World) (id : String) : Prop := ∃ entry ∈ w.poison, entry.originalId = id

def Choice.isDone (ch : Choice) : Bool := match ch.fate with
  | .done => true
  | _ => false

/-- A command that is carried out, answered or not. -/
def Choice.isCarried (ch : Choice) : Bool := match ch.fate with
  | .refused _ => false
  | _ => true

/-- A message that a handler has succeeded on is not claimed, a handler succeeds on a message that no one else was given
since, and what is to be archived is. -/
def exclusive (p : StreamPool V) (i : Nat) (o : Op V) (ch : Choice) : Bool := match o with
  | .xClaim _ minIdle id =>
    !ch.isDone || (claimable p.world ch.now.val minIdle id).isNone || decide (successes p.trace id = 0)
  | .handle id _ => (match ch.handled with
    | .ok _ => false
    | .error _ => true) || decide (holder p.trace id = some i)
  | .xAddPoison _ => ch.isCarried
  | _ => true

def given (w : World) : List String := (w.entries.take w.delivered).map StreamMessage.id

/-- The state of a stream and its group: ids are of one entry each, and what is pending was given. -/
structure Group (w : World) : Prop where
  keyed : Keyed StreamMessage.id w.entries
  delivered : w.delivered ≤ w.entries.length
  pending : ∀ entry ∈ w.pending, entry.id ∈ given w

/-- The invariant: an entry is handled once, by who holds it. -/
structure Exclusive (w : World) (tr : List (Entry (streamSignature V))) (φ : Nat → Phase) : Prop where
  group : Group w
  known : ∀ i, ∀ e ∈ (φ i).todo, e.2.id = e.1 ∧ e.1 ∈ given w
  nodup : ∀ i, ((φ i).todo.map Prod.fst).Nodup
  handled : ∀ id, successes tr id ≠ 0 → id ∈ given w
  once : ∀ id, successes tr id ≤ 1
  final : ∀ id, successes tr id ≠ 0 → ∃ i, holder tr id = some i ∧ ¬(φ i).Holds id
  acking : ∀ i id todo, φ i = .acking id todo → successes tr id ≠ 0 ∨ isArchived w id

end

section
variable {V : Type} {w : World} {o : Op V} {ch : Choice}

theorem undelivered_initial (w : World) (count : Nat) : undelivered w count <+: w.entries.drop w.delivered := by
  unfold undelivered
  split
  · exact prefix_rfl
  · exact take_prefix _ _

theorem take_read (w : World) (count : Nat) :
    w.entries.take (w.delivered + (undelivered w count).length) = w.entries.take w.delivered ++ undelivered w count := by
  rw [take_add, ← prefix_iff_eq_take.mp (undelivered_initial w count)]

theorem perform_world (o : Op V) (ch : Choice) (w : World) :
    (perform o ch w).2 = w ∨ (perform o ch w).2 = (answer ch w o).2 := by
  cases o with
  | now => exact .inl rfl
  | handle id event => exact .inl rfl
  | _ => exact ch.fate.carry_world _ w

theorem claimable_lookup {now minIdle : Int} {id : String} {message : StreamMessage}
    (h : claimable w now minIdle id = some message) : message.id = id ∧ ∃ entry ∈ w.pending, entry.id = id := by
  unfold claimable at h
  split at h
  · cases h
  · rename_i entry hentry
    split at h
    · exact ⟨lookup_key h, entry, lookup_mem hentry, lookup_key hentry⟩
    · cases h

theorem given_answer (o : Op V) (ch : Choice) (w : World) : given w ⊆ given (answer ch w o).2 := by
  cases o with
  | xClaim consumerName minIdle id =>
    simp only [answer]
    cases claimable w ch.now.val minIdle id <;> exact List.Subset.refl _
  | xReadGroup consumerName count block =>
    unfold given
    simp only [answer, take_read, map_append]
    exact subset_append_left _ _
  | _ => exact List.Subset.refl _

theorem given_perform (o : Op V) (ch : Choice) (w : World) : given w ⊆ given (perform o ch w).2 := by
  rcases perform_world o ch w with h | h
  · rw [h]
    exact List.Subset.refl _
  · rw [h]
    exact given_answer o ch w

theorem group_answer (h : Group w) (o : Op V) (ch : Choice) : Group (answer ch w o).2 := by
  cases o with
  | xClaim consumerName minIdle id =>
    simp only [answer]
    cases claimable w ch.now.val minIdle id with
    | none => exact h
    | some message =>
      refine ⟨h.keyed, h.delivered, fun entry hentry => ?_⟩
      obtain ⟨before, hpre, rfl⟩ := mem_map.mp hentry
      show (if before.id = id then before.claimed consumerName ch.now.val else before).id ∈ given w
      split <;> exact h.pending before hpre
  | xReadGroup consumerName count block =>
    have hprefix := (undelivered_initial w count).length_le
    rw [length_drop] at hprefix
    have hdelivered := h.delivered
    refine ⟨h.keyed, by simp only [answer]; omega, fun entry hentry => ?_⟩
    simp only [answer] at hentry
    rcases mem_append.mp hentry with hpre | hnew
    · exact given_answer (.xReadGroup consumerName count block) ch w (h.pending entry hpre)
    · obtain ⟨message, hmessage, rfl⟩ := mem_map.mp hnew
      unfold given
      simp only [answer, take_read, map_append]
      exact mem_append_right _ (mem_map_of_mem hmessage)
  | xAck id => exact ⟨h.keyed, h.delivered, fun entry hentry => h.pending entry (mem_of_mem_filter hentry)⟩
  | _ => exact ⟨h.keyed, h.delivered, h.pending⟩

theorem group_perform (h : Group w) (o : Op V) (ch : Choice) : Group (perform o ch w).2 := by
  rcases perform_world o ch w with heq | hans
  · rw [heq]
    exact h
  · rw [hans]
    exact group_answer h o ch

theorem archived_perform {id : String} (h : isArchived w id) (o : Op V) (ch : Choice) :
    isArchived (perform o ch w).2 id := by
  rcases perform_world o ch w with heq | hans
  · rw [heq]
    exact h
  · rw [hans]
    cases o with
    | xClaim consumerName minIdle other =>
      simp only [answer]
      cases claimable w ch.now.val minIdle other <;> exact h
    | xAddPoison entry =>
      obtain ⟨before, hpre, hid⟩ := h
      exact ⟨before, mem_append_left _ hpre, hid⟩
    | _ => exact h

theorem pending_perform {id : String} (h : id ∈ w.pending.map PendingEntry.id) (o : Op V) (ch : Choice) :
    id ∈ (perform o ch w).2.pending.map PendingEntry.id ∨ o = .xAck id := by
  rcases perform_world o ch w with heq | hans
  · rw [heq]
    exact .inl h
  · rw [hans]
    cases o with
    | xClaim consumerName minIdle other =>
      simp only [answer]
      cases claimable w ch.now.val minIdle other with
      | none => exact .inl h
      | some message =>
        refine .inl ?_
        have heq : ∀ entry, (PendingEntry.claimed consumerName ch.now.val entry).id = entry.id := fun _ => rfl
        rw [update_keys heq]
        exact h
    | xReadGroup consumerName count block =>
      refine .inl ?_
      simp only [answer, map_append]
      exact mem_append_left _ h
    | xAck other =>
      by_cases hid : id = other
      · exact .inr (hid ▸ rfl)
      · obtain ⟨entry, hentry, rfl⟩ := mem_map.mp h
        exact .inl (mem_map_of_mem (mem_filter.mpr ⟨hentry, decide_eq_true hid⟩))
    | _ => exact .inl h

theorem given_publish (h : Group w) (message : StreamMessage) : given (publish message w) = given w := by
  unfold publish
  split
  · unfold given
    rw [take_append_of_le_length h.delivered]
  · rfl

theorem group_publish (h : Group w) (message : StreamMessage) : Group (publish message w) := by
  have hgiven := given_publish h message
  unfold publish at hgiven ⊢
  split at hgiven
  · rename_i hnone
    refine ⟨h.keyed.append hnone, ?_, fun entry hentry => ?_⟩
    · have hdelivered := h.delivered
      simp only [length_append]
      omega
    · exact hgiven ▸ h.pending entry hentry
  · exact h

end

/-! ### What consumers do -/

section
variable {V : Type} {w : World} {tr : List (Entry (streamSignature V))} {φ : Nat → Phase} {i : Nat} {o : Op V}
  {ch : Choice}

theorem successes_cons (e : Entry (streamSignature V)) (tr : List (Entry (streamSignature V))) (id : String) :
    successes (e :: tr) id = successes tr id + if isHandled id e then 1 else 0 := countP_cons ..

theorem successes_mono {id : String} (h : successes tr id ≠ 0) (e : Entry (streamSignature V)) :
    successes (e :: tr) id ≠ 0 := by
  rw [successes_cons]
  omega

variable {e : Entry (streamSignature V)}

theorem holder_cons {id : String} (h : gets id e = false) :
    holder (e :: tr) id = holder tr id := by
  unfold holder
  rw [find?_cons_of_neg (by rw [h]; exact Bool.false_ne_true)]

/-- What a consumer's operation may be: no message is given that was handled, it handles what was last given to it,
and acknowledges what is handled or archived. -/
structure Fair (w' : World) (tr : List (Entry (streamSignature V))) (φ φ' : Phase) (e : Entry (streamSignature V)) :
    Prop where
  anew : ∀ id, gets id e = true → successes tr id = 0
  own : ∀ id, isHandled id e = true → gets id e = false ∧ holder tr id = some e.runner ∧ φ.Holds id ∧ ¬φ'.Holds id
  todo : φ'.todo <:+ φ.todo ∨ (φ'.todo.map Prod.fst).Nodup ∧
    ∀ x ∈ φ'.todo, x.2.id = x.1 ∧ x.1 ∈ given w' ∧ gets x.1 e = true
  acking : ∀ id todo, φ' = .acking id todo → φ = .acking id todo ∨ isHandled id e = true ∨ isArchived w' id

section
variable {w' : World} {φ : Phase} {id : String}

theorem fair_quiet {φ' : Phase} (hgets : ∀ id, gets id e = false)
    (hhandled : ∀ id, isHandled id e = false) (htodo : φ'.todo <:+ φ.todo)
    (hacking : ∀ id todo, φ' = .acking id todo → φ = .acking id todo ∨ isArchived w' id) : Fair w' tr φ φ' e where
  anew id h := absurd h (by rw [hgets]; exact Bool.false_ne_true)
  own id h := absurd h (by rw [hhandled]; exact Bool.false_ne_true)
  todo := .inl htodo
  acking id todo h := (hacking id todo h).imp (fun heq => heq) .inr

theorem fair_free (h : o.isFree) (r : (streamSignature V).Result o) : Fair w' tr φ (φ.next o r) ⟨i, o, r⟩ := by
  rw [(free_stays φ o h).2]
  refine fair_quiet (fun id => ?_) (fun id => ?_) suffix_rfl fun _ _ => .inl
  · cases o <;> first | rfl | exact h.elim
  · cases o <;> first | rfl | exact h.elim

variable {consumerName : String}

theorem fair_claim {minIdle : Int} (ha : φ.Allows (.xClaim consumerName minIdle id : Op V))
    (r : (streamSignature V).Result (.xClaim consumerName minIdle id))
    (hr : ∀ message rest, r = .ok (message :: rest) → message.id = id ∧ id ∈ given w' ∧ successes tr id = 0) :
    Fair w' tr φ (φ.next (.xClaim consumerName minIdle id) r) ⟨i, .xClaim consumerName minIdle id, r⟩ := by
  obtain rfl : φ = .working [] := ha
  rcases r with e | _ | ⟨message, rest⟩
  · exact fair_quiet (fun _ => rfl) (fun _ => rfl) suffix_rfl fun _ _ h => nomatch h
  · exact fair_quiet (fun _ => rfl) (fun _ => rfl) suffix_rfl fun _ _ h => nomatch h
  · obtain ⟨hid, hgiven, hnone⟩ := hr message rest rfl
    refine ⟨fun other hgets => ?_, fun _ h => (nomatch h), .inr ⟨nodup_singleton _, fun x hx => ?_⟩, fun _ _ h => nomatch h⟩
    · exact of_decide_eq_true hgets ▸ hnone
    · obtain rfl := mem_singleton.mp hx
      exact ⟨hid, hgiven, decide_eq_true rfl⟩

theorem fair_read {count : Nat} {block : Int}
    (ha : φ.Allows (.xReadGroup consumerName count block : Op V))
    (r : (streamSignature V).Result (.xReadGroup consumerName count block))
    (hr : ∀ messages, r = .ok messages → (messages.map StreamMessage.id).Nodup ∧
      ∀ message ∈ messages, message.id ∈ given w' ∧ successes tr message.id = 0) :
    Fair w' tr φ (φ.next (.xReadGroup consumerName count block) r) ⟨i, .xReadGroup consumerName count block, r⟩ := by
  obtain rfl : φ = .working [] := ha
  rcases r with e | messages
  · exact fair_quiet (fun _ => rfl) (fun _ => rfl) suffix_rfl fun _ _ h => nomatch h
  · obtain ⟨hnodup, hmessages⟩ := hr messages rfl
    refine ⟨fun other hgets => ?_, fun _ h => (nomatch h), .inr ⟨?_, fun x hx => ?_⟩, fun _ _ h => nomatch h⟩
    · obtain ⟨message, hmessage, hid⟩ := any_eq_true.mp hgets
      exact of_decide_eq_true hid ▸ (hmessages message hmessage).2
    · simp only [Phase.next, Phase.todo, map_map]
      exact hnodup
    · obtain ⟨message, hmessage, rfl⟩ := mem_map.mp hx
      exact ⟨rfl, (hmessages message hmessage).1, any_eq_true.mpr ⟨message, hmessage, decide_eq_true rfl⟩⟩

theorem fair_handle {event : ParsedStreamMessage V} (ha : φ.Allows (.handle id event)) (hnodup : (φ.todo.map Prod.fst).Nodup)
    (r : (streamSignature V).Result (.handle id event)) (hr : r = .ok () → holder tr id = some i) :
    Fair w' tr φ (φ.next (.handle id event) r) ⟨i, .handle id event, r⟩ := by
  obtain ⟨message, todo, rfl⟩ := ha
  rcases r with e | _
  · exact fair_quiet (fun _ => rfl) (fun _ => rfl) (suffix_cons _ _) fun _ _ h => nomatch h
  · refine ⟨fun _ h => (nomatch h), fun other hhandled => ?_, .inl (suffix_cons _ _), fun other rest hacking => ?_⟩
    · obtain rfl : id = other := of_decide_eq_true hhandled
      exact ⟨rfl, hr rfl, mem_cons_self, (nodup_cons.mp hnodup).1⟩
    · cases hacking
      exact .inr (.inl (decide_eq_true rfl))

theorem fair_archive {entry : PoisonEntry} (ha : φ.Allows (.xAddPoison entry : Op V))
    (hknown : ∀ x ∈ φ.todo, x.2.id = x.1) (harchived : isArchived w' entry.originalId)
    (r : (streamSignature V).Result (.xAddPoison entry)) :
    Fair w' tr φ (φ.next (.xAddPoison entry) r) ⟨i, .xAddPoison entry, r⟩ := by
  obtain ⟨id, message, todo, rfl, horiginal⟩ := ha
  refine fair_quiet (fun _ => rfl) (fun _ => rfl) (suffix_cons _ _) fun other rest hacking => ?_
  cases hacking
  rw [horiginal, hknown (id, message) mem_cons_self] at harchived
  exact .inr harchived

theorem fair_ack (ha : φ.Allows (.xAck id : Op V)) (r : (streamSignature V).Result (.xAck id)) :
    Fair w' tr φ (φ.next (.xAck id) r) ⟨i, .xAck id, r⟩ := by
  obtain ⟨todo, rfl⟩ := ha
  exact fair_quiet (fun _ => rfl) (fun _ => rfl) suffix_rfl fun _ _ h => nomatch h

end

theorem claimed_of_ok {minIdle : Int} {id : String} {message : StreamMessage}
    {rest : List StreamMessage}
    (h : (perform (.xClaim consumerName minIdle id : Op V) ch w).1 = .ok (message :: rest)) :
    ch.isDone = true ∧ claimable w ch.now.val minIdle id = some message := by
  unfold perform at h
  simp only [Choice.isDone]
  cases hfate : ch.fate with
  | done =>
    refine ⟨rfl, ?_⟩
    simp only [hfate, Fate.carry, answer] at h
    cases hclaimable : claimable w ch.now.val minIdle id with
    | none =>
      simp [hclaimable] at h
    | some claimed =>
      rw [hclaimable] at h
      cases h
      rfl
  | refused error =>
    simp only [hfate, Fate.carry] at h
    cases h
  | lost error =>
    simp only [hfate, Fate.carry] at h
    cases h

theorem read_of_ok {count : Nat} {block : Int} {messages : List StreamMessage}
    (h : (perform (.xReadGroup consumerName count block : Op V) ch w).1 = .ok messages) :
    messages = undelivered w count ∧ (perform (.xReadGroup consumerName count block : Op V) ch w).2 =
      (answer ch w (.xReadGroup consumerName count block : Op V)).2 := by
  unfold perform at h ⊢
  cases hfate : ch.fate with
  | done =>
    simp only [hfate, Fate.carry, answer] at h ⊢
    cases h
    exact ⟨rfl, trivial⟩
  | refused error =>
    simp only [hfate, Fate.carry] at h
    cases h
  | lost error =>
    simp only [hfate, Fate.carry] at h
    cases h

theorem undelivered_fresh (h : Group w) (count : Nat) : ((undelivered w count).map StreamMessage.id).Nodup ∧
    ∀ message ∈ undelivered w count, message.id ∉ given w := by
  have hnodup : ((w.entries.take w.delivered ++ undelivered w count).map StreamMessage.id).Nodup := by
    rw [← take_read]
    exact h.keyed.sublist ((take_sublist _ _).map _)
  rw [map_append, nodup_append] at hnodup
  refine ⟨hnodup.2.1, fun message hmessage hgiven => ?_⟩
  exact hnodup.2.2 _ hgiven _ (mem_map_of_mem hmessage) rfl

theorem fair_step (hk : Exclusive w tr φ) (ha : (φ i).Allows o)
    (hclaim : ∀ consumerName minIdle id, o = .xClaim consumerName minIdle id → ch.isDone = true →
      (claimable w ch.now.val minIdle id).isSome = true → successes tr id = 0)
    (hhandle : ∀ id event, o = .handle id event → ch.handled = .ok () → holder tr id = some i)
    (harchive : ∀ entry, o = .xAddPoison entry → ch.isCarried = true) :
    Fair (perform o ch w).2 tr (φ i) ((φ i).next o (perform o ch w).1) ⟨i, o, (perform o ch w).1⟩ := by
  cases o with
  | xClaim consumerName minIdle id =>
    refine fair_claim ha _ fun message rest hr => ?_
    obtain ⟨hdone, hclaimable⟩ := claimed_of_ok hr
    obtain ⟨hid, entry, hentry, hpend⟩ := claimable_lookup hclaimable
    have hgiven : id ∈ given w := hpend ▸ hk.group.pending entry hentry
    exact ⟨hid, given_perform _ ch w hgiven, hclaim consumerName minIdle id rfl hdone (hclaimable ▸ rfl)⟩
  | xReadGroup consumerName count block =>
    refine fair_read ha _ fun messages hr => ?_
    obtain ⟨rfl, hworld⟩ := read_of_ok hr
    obtain ⟨hnodup, hfresh⟩ := undelivered_fresh hk.group count
    refine ⟨hnodup, fun message hmessage => ⟨?_, ?_⟩⟩
    · rw [hworld]
      unfold given
      simp only [answer, take_read, map_append]
      exact mem_append_right _ (mem_map_of_mem hmessage)
    · by_contra hhandled
      exact hfresh message hmessage (hk.handled _ hhandled)
  | handle id event => exact fair_handle ha (hk.nodup i) _ fun hr => hhandle id event rfl hr
  | xAddPoison entry =>
    refine fair_archive ha (fun x hx => (hk.known i x hx).1) ⟨entry, ?_, rfl⟩ _
    have hcarried := harchive entry rfl
    have hworld : (perform (.xAddPoison entry : Op V) ch w).2 = (answer ch w (.xAddPoison entry : Op V)).2 := by
      unfold perform
      unfold Choice.isCarried at hcarried
      cases hfate : ch.fate with
      | refused error =>
        simp [hfate] at hcarried
      | _ => rfl
    rw [hworld]
    exact mem_append_right _ (mem_singleton_self entry)
  | xAck id => exact fair_ack ha _
  | _ =>
    refine fair_free ?_ _
    trivial

theorem Exclusive.step (hk : Exclusive w tr φ) {w' : World} (hgroup : Group w') (hgiven : given w ⊆ given w')
    (harchived : ∀ id, isArchived w id → isArchived w' id) {φ' : Phase} (hrunner : e.runner = i)
    (h : Fair w' tr (φ i) φ' e) : Exclusive w' (e :: tr) (update φ i φ') := by
  have hhandled : ∀ id, successes (e :: tr) id ≠ 0 → isHandled id e = true ∨ isHandled id e = false ∧ successes tr id ≠ 0 := by
    intro id hid
    rw [successes_cons] at hid
    cases hnow : isHandled id e with
    | true => exact .inl rfl
    | false =>
      rw [hnow] at hid
      exact .inr ⟨rfl, by simpa using hid⟩
  -- a message that was handled is not handled again: only its holder could, and it no longer has it to do
  have hfirst : ∀ id, isHandled id e = true → successes tr id = 0 := by
    intro id hnow
    by_contra hpre
    obtain ⟨-, hholder, hholds, -⟩ := h.own id hnow
    obtain ⟨k, hk', hnot⟩ := hk.final id hpre
    obtain rfl : k = i := (Option.some.inj (hk'.symm.trans hholder)).trans hrunner
    exact hnot hholds
  refine ⟨hgroup, fun j x hx => ?_, fun j => ?_, fun id hid => ?_, fun id => ?_, fun id hid => ?_, fun j id todo hj => ?_⟩
  · by_cases hij : j = i
    · subst hij
      rw [update_self] at hx
      rcases h.todo with hsuffix | ⟨-, hnew⟩
      · exact (hk.known j x (hsuffix.subset hx)).imp_right fun hx => hgiven hx
      · exact ⟨(hnew x hx).1, (hnew x hx).2.1⟩
    · rw [update_of_ne hij] at hx
      exact (hk.known j x hx).imp_right fun hx => hgiven hx
  · by_cases hij : j = i
    · subst hij
      rw [update_self]
      rcases h.todo with hsuffix | ⟨hnew, -⟩
      · exact (hk.nodup j).sublist (hsuffix.sublist.map _)
      · exact hnew
    · rw [update_of_ne hij]
      exact hk.nodup j
  · rcases hhandled id hid with hnow | ⟨-, hpre⟩
    · obtain ⟨x, hx, rfl⟩ := mem_map.mp (h.own id hnow).2.2.1
      exact hgiven (hk.known i x hx).2
    · exact hgiven (hk.handled id hpre)
  · rw [successes_cons]
    by_cases hnow : isHandled id e = true
    · rw [hfirst id hnow, if_pos hnow]
    · rw [if_neg hnow]
      exact hk.once id
  · rcases hhandled id hid with hnow | ⟨hnot, hpre⟩
    · obtain ⟨hgets, hholder, -, hdone⟩ := h.own id hnow
      refine ⟨i, ?_, ?_⟩
      · rw [holder_cons hgets, hholder, hrunner]
      · rw [update_self]
        exact hdone
    · have hgets : gets id e = false := by
        cases hgets : gets id e with
        | false => rfl
        | true => exact absurd (h.anew id hgets) hpre
      obtain ⟨k, hholder, hdone⟩ := hk.final id hpre
      refine ⟨k, (holder_cons hgets).trans hholder, ?_⟩
      by_cases hki : k = i
      · subst hki
        rw [update_self]
        intro hholds
        rcases h.todo with hsuffix | ⟨-, hnew⟩
        · exact hdone ((hsuffix.sublist.map _).subset hholds)
        · obtain ⟨x, hx, rfl⟩ := mem_map.mp hholds
          simp [(hnew x hx).2.2] at hgets
      · rw [update_of_ne hki]
        exact hdone
  · by_cases hij : j = i
    · subst hij
      rw [update_self] at hj
      rcases h.acking id todo hj with hpre | hnow | harchived'
      · rcases hk.acking j id todo hpre with hhandled | hpre
        · exact .inl (successes_mono hhandled e)
        · exact .inr (harchived id hpre)
      · left
        rw [successes_cons, hnow]
        exact Nat.succ_ne_zero _
      · exact .inr harchived'
    · rw [update_of_ne hij] at hj
      rcases hk.acking j id todo hj with hhandled | hpre
      · exact .inl (successes_mono hhandled e)
      · exact .inr (harchived id hpre)

end

abbrev Exclusively {V : Type} (manager : Manager V) (groupName : String) (p : StreamPool V)
    (a : Action (system manager groupName)) : Prop :=
  onStep exclusive p a = true

section
variable {V : Type} {manager : Manager V} {groupName : String}

theorem exclusive_next {w : World} {tr : List (Entry (streamSignature V))} {φ : Nat → Phase} {i : Nat} {o : Op V}
    {ch : Choice} {runners : List (Program (streamSignature V) Unit)} (hk : Exclusive w tr φ) (ha : (φ i).Allows o)
    (hguard : exclusive ⟨w, tr, runners⟩ i o ch = true) :
    Exclusive (perform o ch w).2 (⟨i, o, (perform o ch w).1⟩ :: tr)
      (update φ i ((φ i).next o (perform o ch w).1)) := by
  refine hk.step (group_perform hk.group o ch) (given_perform o ch w)
    (fun id h => archived_perform h o ch) rfl (fair_step hk ha ?_ ?_ ?_)
  · rintro consumerName minIdle id rfl hdone hclaimable
    simpa [exclusive, hdone, Option.isNone_iff_eq_none, Option.isSome_iff_ne_none.mp hclaimable] using hguard
  · rintro id event rfl hhandled
    simpa only [exclusive, hhandled, Bool.false_or, decide_eq_true_eq] using hguard
  · rintro entry rfl
    exact hguard

theorem inductive_exclusive : Inductive (system manager groupName) (delivery V) (.working [])
    (Exclusively manager groupName) Exclusive := by
  refine inductive_stepping (follows_body manager groupName) ?_ ?_ ?_
  · intro p φ c w _ hk hw
    cases hw
    exact hk
  · intro p φ message _ hk
    have hgiven := given_publish hk.group message
    refine ⟨group_publish hk.group message, fun i x hx => ?_, hk.nodup, fun id hid => ?_, hk.once, hk.final,
      fun i id todo h => ?_⟩
    · exact (hk.known i x hx).imp_right fun hx => hgiven ▸ hx
    · exact hgiven ▸ hk.handled id hid
    · refine (hk.acking i id todo h).imp_right fun harchived => ?_
      show isArchived (publish message p.world) id
      unfold publish
      split <;> exact harchived
  · exact fun p φ i o ch hguard hp hk ha => exclusive_next hk ha (onStep_pending hguard hp)

def Kept (id : String) (w : World) (tr : List (Entry (streamSignature V))) (_ : Nat → Phase) : Prop :=
  id ∈ w.pending.map PendingEntry.id ∨ successes tr id ≠ 0 ∨ isArchived w id

theorem inductive_kept (id : String) : Inductive (system manager groupName) (delivery V) (.working [])
    (Exclusively manager groupName) fun w tr φ => Exclusive w tr φ ∧ Kept id w tr φ := by
  refine inductive_exclusive.and (fun _ _ h => h) ?_ ?_ ?_
  · intro p φ c w _ _ hkept hw
    cases hw
    exact hkept
  · intro p φ message _ _ hkept
    show Kept id (publish message p.world) p.trace φ
    unfold publish
    split <;> exact hkept
  · intro p φ i o ch φ' _ _ ht hkept ha hm
    cases hm
    rcases hkept with hpend | hhandled | harchived
    · rcases pending_perform hpend o ch with hstill | rfl
      · exact .inl hstill
      · obtain ⟨todo, hacking⟩ := ha
        rcases ht.holds.acking i id todo hacking with hhandled | harchived
        · exact .inr (.inl (successes_mono hhandled _))
        · exact .inr (.inr (archived_perform harchived _ ch))
    · exact .inr (.inl (successes_mono hhandled _))
    · exact .inr (.inr (archived_perform harchived o ch))

end

def events : Manager Json :=
  ⟨"events", fun text => match text.bind Json.parse with
    | some value => .ok value
    | none => .error "invalid JSON"⟩

abbrev eventSystem : System (streamSignature Json) World := system events "workers"

def world : World :=
  ⟨[⟨"1-0", [("payload", "1"), ("metadata", "null")]⟩, ⟨"2-0", [("payload", "?"), ("metadata", "null")]⟩], 0, [], []⟩

def later : Instant := ⟨1767225640000, rfl⟩

/-- Steps at a time, whose commands are carried out and whose handlers succeed. -/
def goes (now : Instant) (i n : Nat) : List (Action eventSystem) := replicate n (.step i ⟨.done, now, .ok (), 0⟩)

def refused (i : Nat) : Action eventSystem := .step i ⟨.refused "connection closed", newYear, .ok (), 0⟩

end Delego.Streams
