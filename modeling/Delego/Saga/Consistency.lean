import Delego.Saga.Conformance

/-! Runners and the store: what holds in every state that any interleaving reaches.

A runner's copy of a record is the record as it stood at the copy's version (`Copy`): if the store is still at that
version, the two are equal. -/
namespace Delego.Saga
open Delego.Process Delego.Data Function

variable {Ctx : Type} {c : SagaCoordinator} {b r : SagaRecord Ctx} {φ : Phase Ctx}
  {w : World Ctx} {o : Op Ctx} {ch : Choice Ctx}

/-- The record an operation returns to its runner. -/
def Returned : (o : Op Ctx) → Except SagaError o.Reply → Option (SagaRecord Ctx)
  | .create _, .ok b => some b
  | .get _, .ok found => found
  | .save _, .ok b => some b
  | _, _ => none

def Saved : (o : Op Ctx) → Except SagaError o.Reply → Option (SagaRecord Ctx)
  | .save _, .ok b => some b
  | _, _ => none

/-- An operation inserts a new saga, updates one under the version check, or leaves
every record as it is. -/
inductive Writes (w : World Ctx) : (o : Op Ctx) → Except SagaError o.Reply → World Ctx → Prop where
  | same {o : Op Ctx} {result : Except SagaError o.Reply} {w' : World Ctx} (records : w'.store.records = w.store.records)
      (returned : ∀ b, Returned o result = some b → w.get b.sagaId = some b)
      (notSaved : ∀ r b, ¬(o = .save r ∧ Returned o result = some b)) : Writes w o result w'
  | insert {r stored : SagaRecord Ctx} {w' : World Ctx} (hstore : stored = {r with version := 0})
      (absent : w.get r.sagaId = none)
      (records : w'.store.records = w.store.records ++ [stored]) :
      Writes w (.create r) (.ok stored) w'
  | update {r existing saved : SagaRecord Ctx} {w' : World Ctx} (hsaved : saved = {r with version := r.version + 1})
      (present : w.get r.sagaId = some existing) (version : existing.version = r.version)
      (records : w'.store.records = replace SagaRecord.sagaId w.store.records saved) :
      Writes w (.save r) (.ok saved) w'

theorem perform_writes (o : Op Ctx) (ch : Choice Ctx) (w : World Ctx) :
    Writes w o (perform o ch w).1 (perform o ch w).2 := by
  by_cases hfault : ∃ message, ch = .fault message
  · obtain ⟨message, rfl⟩ := hfault
    cases o <;> exact .same rfl (fun _ h => by cases h) (fun _ _ h => by cases h.2)
  · have hfallible : ∀ {α : Type} (answer : Except SagaError α × World Ctx),
        fallible ch w answer = answer := by
      intro α answer
      cases ch with
      | fault message => exact absurd ⟨message, rfl⟩ hfault
      | _ => rfl
    cases o with
    | create r =>
      simp only [perform, hfallible]
      cases hget : w.store.get r.sagaId with
      | some existing =>
        simp only [InMemorySagaStore.create, hget]
        refine .same rfl (fun b hb => ?_) (fun _ _ h => by cases h.1)
        cases hb
        rw [InMemorySagaStore.get_sagaId hget]
        exact hget
      | none =>
        simp only [InMemorySagaStore.create, hget]
        exact .insert rfl hget rfl
    | get sagaId =>
      simp only [perform, hfallible]
      refine .same rfl (fun b hb => ?_) (fun _ _ h => by cases h.1)
      have hget : w.store.get sagaId = some b := hb
      rw [InMemorySagaStore.get_sagaId hget]
      exact hget
    | save r =>
      simp only [perform, hfallible]
      rcases w.store.save_cases r with ⟨existing, hget, hver, hsave⟩ | ⟨hsave, _⟩
      · rw [hsave]
        exact .update rfl hget hver rfl
      · rw [hsave]
        exact .same rfl (fun _ h => by cases h) (fun _ _ h => by cases h.2)
    | listIncomplete =>
      simp only [perform, hfallible]
      exact .same rfl (fun _ h => by cases h) (fun _ _ h => by cases h.1)
    | listTimedOut =>
      simp only [perform, hfallible]
      exact .same rfl (fun _ h => by cases h) (fun _ _ h => by cases h.1)
    | appendEvent event =>
      simp only [perform, hfallible]
      exact .same rfl (fun _ h => by cases h) (fun _ _ h => by cases h.1)
    | acquire key =>
      simp only [perform, hfallible]
      exact .same rfl (fun _ h => by cases h) (fun _ _ h => by cases h.1)
    | release key =>
      simp only [perform, hfallible]
      exact .same rfl (fun _ h => by cases h) (fun _ _ h => by cases h.1)
    | _ => exact .same rfl (fun _ h => by cases h) (fun _ _ h => by cases h.1)

variable {w' : World Ctx}

theorem get_of_records (h : w'.store.records = w.store.records) (sagaId : String) : w'.get sagaId = w.get sagaId := by
  show lookup SagaRecord.sagaId w'.store.records sagaId = _
  rw [h]
  rfl

theorem perform_clock (o : Op Ctx) (ch : Choice Ctx) (w : World Ctx) : (perform o ch w).2.clock = w.clock := by
  have hfallible : ∀ {α : Type} (answer : Except SagaError α × World Ctx),
      answer.2.clock = w.clock → (fallible ch w answer).2.clock = w.clock := by
    intro α answer h
    cases ch with
    | fault message => rfl
    | _ => exact h
  cases o with
  | create r => exact hfallible _ rfl
  | get sagaId => exact hfallible _ rfl
  | save r => exact hfallible _ rfl
  | listIncomplete => exact hfallible _ rfl
  | listTimedOut => exact hfallible _ rfl
  | appendEvent event => exact hfallible _ rfl
  | acquire key => exact hfallible _ rfl
  | release key => exact hfallible _ rfl
  | _ => rfl

/-- The record as it stood at the copy's version. -/
def Copy (w : World Ctx) (b : SagaRecord Ctx) : Prop :=
  ∃ r, w.get b.sagaId = some r ∧ b.version ≤ r.version ∧ (b.version = r.version → b = r)

theorem Copy.of_get (h : w.get b.sagaId = some b) : Copy w b := ⟨b, h, Nat.le_refl _, fun _ => rfl⟩

theorem Copy.eq (h : Copy w b) (hr : w.get b.sagaId = some r) (hv : r.version = b.version) : r = b := by
  obtain ⟨r', hr', _, heq⟩ := h
  rw [hr', Option.some.injEq] at hr
  subst hr
  exact (heq hv.symm).symm

variable {result : Except SagaError o.Reply}

theorem Copy.writes (h : Copy w b) (hw : Writes w o result w') : Copy w' b := by
  obtain ⟨r, hr, hle, heq⟩ := h
  cases hw with
  | same records => exact ⟨r, (get_of_records records _).trans hr, hle, heq⟩
  | @insert new stored _ hstore absent records =>
    have hne : b.sagaId ≠ stored.sagaId := by
      intro heq
      simp [heq, hstore, absent] at hr
    refine ⟨r, ?_, hle, heq⟩
    show lookup SagaRecord.sagaId w'.store.records b.sagaId = some r
    rw [records, lookup_append_ne hne]
    exact hr
  | @update new existing saved _ hsaved present version records =>
    by_cases hid : b.sagaId = saved.sagaId
    · have hex : existing = r := by
        rw [hid, hsaved, present, Option.some.injEq] at hr
        exact hr
      subst hex
      refine ⟨saved, ?_, ?_, ?_⟩
      · show lookup SagaRecord.sagaId w'.store.records b.sagaId = some saved
        rw [records, hid]
        exact lookup_replace_self (r := existing) (by rw [hsaved]; exact present)
      · rw [hsaved]
        show b.version ≤ new.version + 1
        omega
      · rw [hsaved]
        show b.version = new.version + 1 → _
        omega
    · refine ⟨r, ?_, hle, heq⟩
      show lookup SagaRecord.sagaId w'.store.records b.sagaId = some r
      rw [records, lookup_replace_ne hid]
      exact hr

theorem Writes.returned_get (hw : Writes w o result w') (hb : Returned o result = some b) : w'.get b.sagaId = some b := by
  cases hw with
  | same records returned =>
    rw [get_of_records records]
    exact returned b hb
  | insert hstore absent records =>
    cases hb
    show lookup SagaRecord.sagaId w'.store.records b.sagaId = some b
    rw [records]
    exact lookup_append_self (by rw [hstore]; exact absent)
  | @update new existing _ _ hsaved present version records =>
    cases hb
    show lookup SagaRecord.sagaId w'.store.records b.sagaId = some b
    rw [records]
    exact lookup_replace_self (r := existing) (by rw [hsaved]; exact present)

theorem Saves.copy (h : Saves c φ r) : ∃ b, φ.copy = some b ∧ r.sagaId = b.sagaId ∧ r.version = b.version := by
  cases h with
  | @release _ b u hs hφ => exact ⟨b, release_copy hφ, rfl, rfl⟩
  | _ => exact ⟨_, rfl, rfl, rfl⟩

theorem Saves.persisted (h : Saves c φ r) (hcopy : ∀ b, φ.copy = some b → Copy w b)
    {existing : SagaRecord Ctx} (hget : w.get r.sagaId = some existing)
    (hv : existing.version = r.version) : φ.copy = some existing := by
  obtain ⟨b, hb, hid, hver⟩ := h.copy
  have heq : existing = b := (hcopy b hb).eq (by rw [← hid]; exact hget) (by rw [hv, hver])
  rw [heq]
  exact hb

theorem next_copy (ha : Allowed c φ o) : (φ.next o result).copy = (Returned o result).or φ.copy := by
  cases o with
  | create r => cases result <;> rfl
  | get sagaId => cases result with
    | ok found => cases found <;> rfl
    | error e => rfl
  | save r => cases result with
    | ok saved =>
      cases φ with
      | acted old todo context =>
        simp only [Phase.next, Phase.saved]
        split <;> rfl
      | claimed old todo =>
        simp only [Phase.next, Phase.saved]
        split <;> rfl
      | _ => rfl
    | error e => cases φ <;> rfl
  | pastDeadline r =>
    obtain ⟨todo, rfl⟩ := ha
    cases result with
    | ok passed => cases passed <;> rfl
    | error e => rfl
  | leaseActive r s =>
    obtain ⟨todo, rfl, _⟩ := ha
    cases result with
    | ok active => cases active <;> rfl
    | error e => rfl
  | start callback s r =>
    obtain ⟨⟨todo, rfl⟩, _⟩ := ha
    cases result <;> rfl
  | finish callback s r =>
    obtain ⟨⟨todo, rfl⟩, _⟩ := ha
    cases result <;> rfl
  | wasStolen key => cases result with
    | ok stolen => cases stolen with
      | true => cases φ <;> rfl
      | false => rfl
    | error e => rfl
  | _ => rfl

/-- Stored sagas and copies of them are well formed. -/
structure Consistent (c : SagaCoordinator) (w : World Ctx) (φ : Nat → Phase Ctx) : Prop where
  keyed : Keyed SagaRecord.sagaId w.store.records
  wellFormed : ∀ r ∈ w.store.records, WellFormed c r
  ok : ∀ i, (φ i).Ok c
  copies : ∀ i b, (φ i).copy = some b → Copy w b

variable {φ : Nat → Phase Ctx} {i : Nat}

theorem Consistent.get (h : Consistent c w φ) {sagaId : String} (hr : w.get sagaId = some r) :
    WellFormed c r := h.wellFormed r (lookup_mem hr)

theorem fallible_ok {α : Type} {answer : Except SagaError α × World Ctx} {a : α}
    (h : (fallible ch w answer).1 = .ok a) : answer.1 = .ok a := by
  cases ch with
  | fault message => cases h
  | _ => exact h

theorem Consistent.answer (h : Consistent c w φ) (ha : Allowed c (φ i) o) : Answer c o (perform o ch w).1 := by
  cases o with
  | create r =>
    cases hres : (perform (.create r) ch w).1 with
    | error e => trivial
    | ok b =>
      have hcreate : (w.store.create r).1 = b := by simpa using fallible_ok hres
      subst hcreate
      cases hget : w.store.get r.sagaId with
      | some existing =>
        simp only [InMemorySagaStore.create, hget]
        exact ⟨InMemorySagaStore.get_sagaId hget, h.get hget⟩
      | none =>
        simp only [InMemorySagaStore.create, hget]
        exact ⟨rfl, (WellFormed.initial ha.2.1 ha.2.2.1 ha.2.2.2).withVersion 0⟩
  | get sagaId =>
    cases hres : (perform (.get sagaId) ch w).1 with
    | error e => trivial
    | ok found =>
      have hget : w.store.get sagaId = found := by simpa using fallible_ok hres
      cases found with
      | none => trivial
      | some b => exact ⟨InMemorySagaStore.get_sagaId hget, h.get hget⟩
  | save r =>
    cases hres : (perform (.save r) ch w).1 with
    | error e => trivial
    | ok b =>
      have hsave : (w.store.save r).1 = .ok b := fallible_ok hres
      rcases w.store.save_cases r with ⟨_, _, _, hcase⟩ | ⟨hcase, _⟩
      · rw [hcase, Except.ok.injEq] at hsave
        exact hsave.symm
      · simp [hcase] at hsave
  | listIncomplete => cases h : (perform .listIncomplete ch w).1 <;> trivial
  | listTimedOut => cases h : (perform .listTimedOut ch w).1 <;> trivial
  | appendEvent event => cases h : (perform (.appendEvent event) ch w).1 <;> trivial
  | finish callback s r => cases h : (perform (.finish callback s r) ch w).1 <;> trivial
  | acquire key => cases h : (perform (.acquire key) ch w).1 <;> trivial
  | release key => cases h : (perform (.release key) ch w).1 <;> trivial
  | _ => trivial

theorem Consistent.records_writes (h : Consistent c w φ) (ha : Allowed c (φ i) o) (hw : Writes w o result w') :
    Keyed SagaRecord.sagaId w'.store.records ∧ ∀ r ∈ w'.store.records, WellFormed c r := by
  cases hw with
  | same records =>
    rw [records]
    exact ⟨h.keyed, h.wellFormed⟩
  | insert hstore absent records =>
    rw [records]
    refine ⟨h.keyed.append (by rw [hstore]; exact absent), ?_⟩
    intro r hr
    rcases List.mem_append.mp hr with hr | hr
    · exact h.wellFormed r hr
    · rw [List.mem_singleton] at hr
      rw [hr, hstore]
      exact (WellFormed.initial ha.2.1 ha.2.2.1 ha.2.2.2).withVersion 0
  | update hsaved present version records =>
    rw [records]
    refine ⟨h.keyed.replace, ?_⟩
    intro r hr
    obtain ⟨old, hold, rfl⟩ := List.mem_map.mp hr
    split
    · rw [hsaved]
      exact (Saves.wellFormed ha (h.ok i)).withVersion _
    · exact h.wellFormed old hold

theorem Consistent.step (h : Consistent c w φ) (ha : Allowed c (φ i) o) : Consistent c (perform o ch w).2
      (update φ i ((φ i).next o (perform o ch w).1)) := by
  have hw := perform_writes o ch w
  obtain ⟨hkeyed, hwf⟩ := h.records_writes ha hw
  refine ⟨hkeyed, hwf, ?_, ?_⟩
  · intro j
    by_cases hj : j = i
    · subst hj
      rw [update_self]
      exact Phase.next_ok (h.ok j) ha (h.answer ha)
    · rw [update_of_ne hj]
      exact h.ok j
  · intro j b hb
    by_cases hj : j = i
    · subst hj
      rw [update_self, next_copy ha] at hb
      rcases Option.or_eq_some_iff.mp hb with hb | ⟨_, hb⟩
      · exact Copy.of_get (hw.returned_get hb)
      · exact (h.copies j b hb).writes hw
    · rw [update_of_ne hj] at hb
      exact (h.copies j b hb).writes hw

theorem arrive_store {call : Call Ctx} (h : arrive call w = some w') : w'.store = w.store ∧ w'.clock = w.clock := by
  cases call with
  | fire timer =>
    simp only [arrive] at h
    split at h
    · cases h
      exact ⟨rfl, rfl⟩
    · cases h
  | _ =>
    cases h
    exact ⟨rfl, rfl⟩

theorem arrive_get {call : Call Ctx} (h : arrive call w = some w') (sagaId : String) : w'.get sagaId = w.get sagaId := by
  show w'.store.get sagaId = w.store.get sagaId
  rw [(arrive_store h).1]

theorem Consistent.of_store (h : Consistent c w φ) (hs : w'.store = w.store) : Consistent c w' φ where
  keyed := by
    rw [hs]
    exact h.keyed
  wellFormed := by
    rw [hs]
    exact h.wellFormed
  ok := h.ok
  copies := by
    intro i b hb
    obtain ⟨r, hr, hle, heq⟩ := h.copies i b hb
    refine ⟨r, ?_, hle, heq⟩
    show w'.store.get b.sagaId = some r
    rw [hs]
    exact hr

/-- Every step is possible in every run. -/
abbrev unguarded : SagaPool Ctx → Action (system c Ctx) → Prop := fun _ _ => True

theorem consistent_inductive (c : SagaCoordinator) :
    Inductive (system c Ctx) (protocol c Ctx) .idle unguarded (fun w _ φ => Consistent c w φ) where
  body := fun _ call _ => follows_mono (body_follows c call) (fun _ _ _ => trivial)
  arrive := fun _ _ _ _ _ ht hw => ht.holds.of_store (arrive_store hw).1
  drift := fun _ _ _ _ ht => ht.holds.of_store rfl
  answers := fun _ _ _ _ _ _ _ ht ha => ⟨_, ht.holds.answer ha, rfl, Phase.next_ok (ht.holds.ok _) ha (ht.holds.answer ha)⟩
  step := by
    rintro p φ i o ch φ' _ _ ht ha ⟨_, rfl, _⟩
    exact ht.holds.step ha

theorem consistent_init (c : SagaCoordinator) : Consistent c (init Ctx).world (fun _ => .idle) where
  keyed := List.nodup_nil
  wellFormed := fun _ hr => by cases hr
  ok := fun _ => trivial
  copies := fun _ _ hb => by cases hb

end Delego.Saga
