import Delego.Checkout.Executions

/-! A checkout is executed once.

A record that another request reads is completed with the captured response, and that is what the request is told
(`Told`). What is captured of a chunk is its text: where that stands for the bytes of the chunk, the request is told what
the client of the execution was (`checkout_once`). -/
namespace Delego.Checkout
open Delego.Process Delego.Data Function

section
variable {k : String} {φ : Nat → Phase} {i : Nat} {o : Op} {ch : Choice} {p : CheckoutPool}
  {record : IdempotencyRecord}

theorem seen_perform {w : World} (h : seen o (perform o ch w).1 = some (k, record)) :
    completed (w.records k) = some record := by
  cases o with
  | getRecord id =>
    simp only [perform, Op.command, if_true] at h
    cases hfate : ch.fate with
    | done =>
      rw [hfate] at h
      obtain ⟨record', hrec, heq⟩ := Option.map_eq_some_iff.mp h
      cases heq
      exact hrec
    | refused message =>
      rw [hfate] at h
      cases h
    | lost message =>
      rw [hfate] at h
      cases h
  | _ => cases h

variable {r : checkoutSignature.Result o}

/-- A record that is to be replayed was so before, or has just been read, or stands behind a
lease that was given back. -/
theorem replaying_of_next {φ : Phase} (h : φ.next o r = .replaying k record) :
    φ = .replaying k record ∨ seen o r = some (k, record) ∨ ∃ token, φ = .holding k token (.yielding record) := by
  have hleads : φ.Leads o r (.replaying k record) := h ▸ leads_next
  cases hleads with
  | same => exact .inl rfl
  | replays hseen => exact .inr (.inl hseen)
  | returns hφ => exact .inr (.inr ⟨_, hφ⟩)

theorem holder_of_seen {id : String} {token : Nat} {stage : Stage} (ha : (Phase.holding k token stage).Allows o)
    (h : seen o r = some (id, record)) :
    id = k := by
  cases o with
  | getRecord id' =>
    cases r with
    | error message => cases h
    | ok read =>
      obtain ⟨_, -, heq⟩ := Option.map_eq_some_iff.mp h
      cases heq
      cases stage with
      | acquired => exact ha
      | _ => cases ha
  | _ => cases h

theorem yielding_of_next {φ : Phase} {token : Nat} (ha : φ.Allows o)
    (h : φ.next o r = .holding k token (.yielding record)) : seen o r = some (k, record) := by
  have hleads : φ.Leads o r (.holding k token (.yielding record)) := h ▸ leads_next
  cases hleads with
  | same =>
    -- a holder that yields does nothing but give its lease back
    cases o with
    | releaseLease id token' => cases h
    | _ => cases ha
  | reaches hφ hstage => exact absurd rfl (hstage record)
  | yields hφ hseen =>
    subst hφ
    rw [← holder_of_seen ha hseen]
    exact hseen

/-- A record that was read, and a response that was given, is that of an execution. -/
structure Told (k : String) (tr : CheckoutTrace) (φ : Nat → Phase) : Prop where
  read : ∀ {i record}, φ i = .replaying k record → record.response ∈ successes k tr
  yielding : ∀ {i token record}, φ i = .holding k token (.yielding record) → record.response ∈ successes k tr
  replied : ∀ e ∈ tr, ∀ response headers, e.op = .reply (some k) response headers →
    response.statusCode = 409 ∨ response.statusCode = 422 ∨ response ∈ successes k tr

theorem reply_cases {φ : Phase} {response : Response} {headers : List (String × String)}
    (ha : φ.Allows (.reply (some k) response headers)) :
    response.statusCode = 409 ∨ response.statusCode = 422 ∨
      ∃ record, φ = .replaying k record ∧ response = record.response := by
  cases φ with
  | free =>
    rcases ha with hnone | hstat
    · cases hnone
    · exact .inl hstat
  | replaying id record =>
    obtain ⟨hid, hstat | hresp⟩ := ha
    · exact .inr (.inl hstat)
    · cases hid
      exact .inr (.inr ⟨record, rfl, hresp⟩)
  | holding id token stage => cases stage <;> cases ha
  | failedOpen => cases ha

theorem Told.step (h : Told k p.trace φ) (hhistory : History k p.world p.trace φ) (ha : (φ i).Allows o) :
    Told k (⟨i, o, (perform o ch p.world).1⟩ :: p.trace)
      (update φ i ((φ i).next o (perform o ch p.world).1)) := by
  have hseen : ∀ {record}, seen o (perform o ch p.world).1 = some (k, record) →
      record.response ∈ successes k p.trace := by
    intro record hseen
    rw [hhistory.recorded (seen_perform hseen)]
    exact List.mem_singleton_self _
  refine ⟨?_, ?_, ?_⟩
  · intro j record hj
    apply successes_subset
    by_cases hji : j = i
    · subst hji
      rw [update_self] at hj
      rcases replaying_of_next hj with hpre | hread | ⟨token, hyielding⟩
      · exact h.read hpre
      · exact hseen hread
      · exact h.yielding hyielding
    · rw [update_of_ne hji] at hj
      exact h.read hj
  · intro j token record hj
    apply successes_subset
    by_cases hji : j = i
    · subst hji
      rw [update_self] at hj
      exact hseen (yielding_of_next ha hj)
    · rw [update_of_ne hji] at hj
      exact h.yielding hj
  · intro e he response headers hop
    rcases List.mem_cons.mp he with rfl | hpre
    · dsimp only at hop
      subst hop
      rcases reply_cases ha with hstat | hstat | ⟨record, hi, rfl⟩
      · exact .inl hstat
      · exact .inr (.inl hstat)
      · exact .inr (.inr (successes_subset (h.read hi)))
    · rcases h.replied e hpre response headers hop with hstat | hstat | hmem
      · exact .inl hstat
      · exact .inr (.inl hstat)
      · exact .inr (.inr (successes_subset hmem))

theorem executedInTurn_step (h : ExecutedInTurn k p.trace) (hhistory : History k p.world p.trace φ)
    (halone : Alone k p.world φ) (ha : (φ i).Allows o) :
    ExecutedInTurn k (⟨i, o, r⟩ :: p.trace) := by
  refine ⟨?_, h⟩
  rintro rfl j hstarted
  obtain ⟨token, hi⟩ := holder_of_start ha (halone.closed i)
  rcases hhistory.executed j hstarted with hfail | hsome | ⟨token', hj⟩
  · exact hfail
  · exact absurd (hhistory.working hi rfl).2 hsome
  · obtain rfl := halone.own hj hi
    simp [hi] at hj

end

section
variable (cfg : Settings) (k : String)

theorem told_inductive : Inductive (system cfg) requesting .free (fun p a => steady cfg p a = true)
      fun w tr φ => (Alone k w φ ∧ History k w tr φ) ∧ Told k tr φ ∧ ExecutedInTurn k tr := by
  apply (history_inductive cfg k).and
  · exact fun _ _ h => h
  · rintro p φ call w - - htold ⟨⟩
    exact htold
  · rintro p φ e ⟨⟩
  · rintro p φ i o ch _ - - ht ⟨htold, hturn⟩ ha ⟨-, rfl⟩
    obtain ⟨halone, hhistory⟩ := ht.holds
    exact ⟨htold.step hhistory ha, executedInTurn_step hturn hhistory halone ha⟩

end

/-- Whatever a handler writes, each chunk is the text of its bytes. -/
def keepsChunks {cfg : Settings} : Action (system cfg) → Bool
  | .step _ ch => ch.output.chunks.all Chunk.kept
  | _ => true

theorem sent_of_kept {output : Output} (h : output.chunks.all Chunk.kept = true) :
    utf8 output.captured.body = output.sent := by
  rw [Output.captured, Output.sent, utf8_join, List.flatMap_map]
  exact List.flatMap_congr fun chunk hmem => of_decide_eq_true (List.all_eq_true.mp h chunk hmem)

section
variable (cfg : Settings) (k : String)

theorem kept_inductive :
    Inductive (system cfg) requesting .free (fun p a => steady cfg p a = true ∧ keepsChunks a = true)
      fun w tr φ => ((Alone k w φ ∧ History k w tr φ) ∧ Told k tr φ ∧ ExecutedInTurn k tr) ∧
        ∀ output ∈ executions k tr, utf8 output.captured.body = output.sent := by
  apply (told_inductive cfg k).and
  · exact fun _ _ h => h.1
  · rintro p φ call w - - hkept ⟨⟩
    exact hkept
  · rintro p φ e ⟨⟨⟩, -⟩
  · rintro p φ i o ch _ ⟨-, hkeeps⟩ - - hkept - - output hout
    rw [executions, List.mem_filter, List.mem_filterMap] at hout
    obtain ⟨⟨e, he, hout⟩, hstat⟩ := hout
    rcases List.mem_cons.mp he with rfl | hpre
    · cases o with
      | finish id =>
        have hch : (if id = k then some ch.output else none) = some output := hout
        split at hch
        · cases hch
          exact sent_of_kept hkeeps
        · cases hch
      | _ => cases hout
    · exact hkept output (List.mem_filter.mpr ⟨List.mem_filterMap.mpr ⟨e, hpre, hout⟩, hstat⟩)

end

theorem told_start {k : String} : Told k [] fun _ => .free where
  read := fun h => by cases h
  yielding := fun h => by cases h
  replied := fun _ h => by cases h

/-- **A checkout is executed once** with a status below 500, in every run in which no key expires and Redis answers;
and where the chunks that handlers write are the texts of their bytes, a request is answered 409, 422 or with the status
and the body of that execution. -/
theorem checkout_once {cfg : Settings} {k : String} {w : World} {q : CheckoutPool}
    (start : completed (w.records k) = none)
    (run : Run (system cfg) (fun p a => steady cfg p a = true ∧ keepsChunks a = true) (Pool.start w) q) :
    (executions k q.trace).length ≤ 1 ∧ (∀ e ∈ q.trace, ∀ response headers, e.op = .reply (some k) response headers →
        response.statusCode = 409 ∨ response.statusCode = 422 ∨
          ∃ output ∈ executions k q.trace, response.statusCode = output.statusCode ∧ utf8 response.body = output.sent) ∧
      ExecutedInTurn k q.trace := by
  obtain ⟨φ, ht⟩ := (kept_inductive cfg k).run run
    ⟨_, .start ⟨⟨⟨alone_start, history_start start⟩, told_start, trivial⟩, fun _ hnone => nomatch hnone⟩⟩
  obtain ⟨⟨⟨-, hhistory⟩, htold, hturn⟩, hkept⟩ := ht.holds
  have honce := hhistory.once
  rw [successes, List.length_map] at honce
  refine ⟨honce, fun e he response headers hop => ?_, hturn⟩
  rcases htold.replied e he response headers hop with hstat | hstat | hmem
  · exact .inl hstat
  · exact .inr (.inl hstat)
  · obtain ⟨output, hout, rfl⟩ := List.mem_map.mp hmem
    exact .inr (.inr ⟨output, hout, rfl, hkept output hout⟩)

/-- The sample request is answered with this response. -/
def replays (response : Response) (e : Entry checkoutSignature) : Bool :=
  match e.op with
  | .reply (some id) response' _ => decide (id = sampleId ∧ response' = response)
  | _ => false

/-- A first execution fails, a second succeeds with this output, and a third request is told. -/
def replayed (output : Output) : List (Action (system sampleSettings)) :=
  [.call sampleCall, .call sampleCall, .call sampleCall] ++ starts 0 ++ ends 0 (sampleOutput 502 "") ++
    [.step 0 {}, .step 0 {}] ++ starts 1 ++ ends 1 output ++ [.step 2 {}, .step 2 {}, .step 2 {}]

theorem checkout_once_at_sample :
    ∃ q, Run (system sampleSettings) (fun p a => steady sampleSettings p a = true ∧ keepsChunks a = true)
        (Pool.start sampleWorld) q ∧
      q.trace.any (replays ⟨201, "order-1"⟩) = true ∧ (executions sampleId q.trace).length = 1 ∧
      (executions sampleId q.trace).length ≤ 1 ∧ ExecutedInTurn sampleId q.trace := by
  obtain ⟨q, hrun, htest⟩ := Run.exists_of_any (Pool.start sampleWorld)
    (fun p a => steady sampleSettings p a && keepsChunks a) (replayed (sampleOutput 201 "order-1"))
    (fun q => q.trace.any (replays ⟨201, "order-1"⟩) && decide ((executions sampleId q.trace).length = 1)) (by decide)
  obtain ⟨htold, hone⟩ := Bool.and_eq_true_iff.mp htest
  have hguarded := hrun.mono fun _ _ h => Bool.and_eq_true_iff.mp h
  have start : completed (sampleWorld.records sampleId) = none := rfl
  obtain ⟨honce, -, hturn⟩ := checkout_once start hguarded
  exact ⟨q, hguarded, htold, of_decide_eq_true hone, honce, hturn⟩

/-- The two bytes of a character come one after the other, and the replay has two replacement characters instead. -/
theorem split_character_replayed :
    ∃ q, Run (system sampleSettings) (fun p a => steady sampleSettings p a = true) (Pool.start sampleWorld) q ∧
      q.trace.any (replays ⟨201, "\uFFFD\uFFFD"⟩) = true ∧
      ∀ output ∈ executions sampleId q.trace, output.sent = utf8 "é" ∧ output.sent ≠ utf8 "\uFFFD\uFFFD" := by
  obtain ⟨q, hrun, htest⟩ := Run.exists_of_any (Pool.start sampleWorld) (steady sampleSettings)
    (replayed ⟨201, [.buffer [0xC3], .buffer [0xA9]]⟩)
    (fun q => q.trace.any (replays ⟨201, "\uFFFD\uFFFD"⟩) &&
      (executions sampleId q.trace).all fun output =>
        decide (output.sent = utf8 "é" ∧ output.sent ≠ utf8 "\uFFFD\uFFFD")) (by decide)
  obtain ⟨htold, hall⟩ := Bool.and_eq_true_iff.mp htest
  exact ⟨q, hrun, htold, fun output hout => of_decide_eq_true (List.all_eq_true.mp hall output hout)⟩

end Delego.Checkout
