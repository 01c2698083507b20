import Mathlib.Algebra.Order.Archimedean.Basic

/-! Retries within the lease of a saga (`retryWithLeaseBudget` of `orchestrator/workflows/purchase/compensation.ts`).

Attempts are not counted: the loop ends since each delay takes something from the time that is left. `sleep` takes exactly
its delay, and time also passes in an attempt and between the reading of the clock that admits an attempt and its start. -/
namespace Delego.Purchase

inductive RetriedError where
  | nonRetryable (message : String)
  | other (message : String)
  deriving DecidableEq

/-- A call of the operation: how late it starts after the clock was read, the sleep apart, how long it takes until the
clock is read again, and what becomes of it. -/
structure Attempt (T : Type) where
  late : {duration : Rat // 0 ≤ duration}
  took : {duration : Rat // 0 ≤ duration}
  outcome : Except RetriedError T

structure RetryOptions where
  deadlineMs : Rat
  baseDelayMs : Rat := 200
  maxDelayMs : Rat := 5000

/-- The times at which attempts started, and what is returned or thrown. -/
structure Retried (T : Type) where
  starts : List Rat
  result : Except RetriedError T

section
variable {T : Type} (fn : Nat → Attempt T) (options : RetryOptions)

def retryDelay (attempt : Nat) : Rat := min (options.baseDelayMs * 2 ^ (attempt - 1)) options.maxDelayMs

/-- The loop, at time `now` (that of the last reading, and the sleep) after so many attempts; nothing where it goes on after the turns that are looked at. -/
def retryLoop (start : Rat) : Nat → Nat → Rat → Option (Retried T)
  | 0, _, _ => none
  | turns + 1, attempts, now =>
    let attempt := attempts + 1
    let time := now + (fn attempt).late
    match (fn attempt).outcome with
    | .ok value => some ⟨[time], .ok value⟩
    | .error (.nonRetryable message) => some ⟨[time], .error (.nonRetryable message)⟩
    | .error (.other message) =>
      let failed := time + (fn attempt).took
      let elapsed := failed - start
      let delay := retryDelay options attempt
      if elapsed + delay ≥ options.deadlineMs then some ⟨[time], .error (.other message)⟩
      else (retryLoop start turns attempt (failed + delay)).map fun retried => { retried with starts := time :: retried.starts }

def retryWithLeaseBudget (turns : Nat) (start : Rat) : Option (Retried T) := retryLoop fn options start turns 0 start

/-- What a run of the loop comes to that starts at time `now` after so many attempts. -/
structure Ended (start : Rat) (attempts : Nat) (now : Rat) (retried : Retried T) : Prop where
  first : retried.starts.head? = some (now + (fn (attempts + 1)).late)
  timely : ∀ i time, retried.starts[i + 1]? = some time → time < start + options.deadlineMs + (fn (attempts + 2 + i)).late
  failed : ∀ i, i + 1 < retried.starts.length → ∃ message, (fn (attempts + 1 + i)).outcome = .error (.other message)
  last : ∃ i, i + 1 = retried.starts.length ∧ retried.result = (fn (attempts + 1 + i)).outcome

variable {fn options} {start now : Rat} {attempts : Nat}

theorem ended_once {result : Except RetriedError T} (h : (fn (attempts + 1)).outcome = result) :
    Ended fn options start attempts now ⟨[now + (fn (attempts + 1)).late], result⟩ where
  first := rfl
  timely := by simp
  failed := by simp
  last := ⟨0, rfl, h.symm⟩

theorem ended_again {retried : Retried T} {later : Rat} {message : String}
    (h : (fn (attempts + 1)).outcome = .error (.other message)) (hlater : later < start + options.deadlineMs)
    (hended : Ended fn options start (attempts + 1) later retried) :
    Ended fn options start attempts now { retried with starts := (now + (fn (attempts + 1)).late) :: retried.starts } where
  first := rfl
  timely i time htime := by
    cases i with
    | zero =>
      have hfirst := hended.first
      rw [List.head?_eq_getElem?] at hfirst
      obtain rfl := Option.some.inj (hfirst.symm.trans htime)
      exact add_lt_add_left hlater _
    | succ i =>
      have := hended.timely i time htime
      rwa [show attempts + 1 + 2 + i = attempts + 2 + (i + 1) by omega] at this
  failed i hi := by
    cases i with
    | zero => exact ⟨message, h⟩
    | succ i =>
      obtain ⟨message', hfail⟩ := hended.failed i (by simpa using hi)
      exact ⟨message', by rw [← hfail]; congr 2; omega⟩
  last := by
    obtain ⟨i, hi, hres⟩ := hended.last
    exact ⟨i + 1, by simp [hi], by rw [hres]; congr 2; omega⟩

/-- The time at which the sleep after an attempt ends. -/
def wakeTime (fn : Nat → Attempt T) (options : RetryOptions) (attempt : Nat) (now : Rat) : Rat :=
  now + (fn attempt).late + (fn attempt).took + retryDelay options attempt

theorem le_wakeTime (fn : Nat → Attempt T) (hbase : 0 < options.baseDelayMs) (attempt : Nat) (now : Rat) :
    now + min options.baseDelayMs options.maxDelayMs ≤ wakeTime fn options attempt now := by
  have hdelay : min options.baseDelayMs options.maxDelayMs ≤ retryDelay options attempt :=
    min_le_min_right _ (le_mul_of_one_le_right hbase.le (one_le_pow₀ (by norm_num)))
  have htook := (fn attempt).took.2
  have hlate := (fn attempt).late.2
  unfold wakeTime
  linarith

/-- A turn of the loop is its last, or an attempt has failed that is made again before the deadline. -/
theorem retryLoop_turn (fn : Nat → Attempt T) (options : RetryOptions) (start : Rat) (attempts : Nat) (now : Rat) :
    (∀ turns, retryLoop fn options start (turns + 1) attempts now =
      some ⟨[now + (fn (attempts + 1)).late], (fn (attempts + 1)).outcome⟩) ∨
    (∃ message, (fn (attempts + 1)).outcome = .error (.other message)) ∧
      wakeTime fn options (attempts + 1) now < start + options.deadlineMs ∧
      ∀ turns, retryLoop fn options start (turns + 1) attempts now =
        (retryLoop fn options start turns (attempts + 1) (wakeTime fn options (attempts + 1) now)).map
          fun retried => { retried with starts := (now + (fn (attempts + 1)).late) :: retried.starts } := by
  cases houtcome : (fn (attempts + 1)).outcome with
  | ok value => exact Or.inl fun turns => by simp only [retryLoop, houtcome]
  | error error =>
    cases error with
    | nonRetryable message => exact Or.inl fun turns => by simp only [retryLoop, houtcome]
    | other message =>
      by_cases hover : now + (fn (attempts + 1)).late + (fn (attempts + 1)).took - start + retryDelay options (attempts + 1) ≥ options.deadlineMs
      · exact Or.inl fun turns => by simp only [retryLoop, houtcome, if_pos hover]
      · refine Or.inr ⟨⟨message, rfl⟩, ?_, fun turns => ?_⟩
        · unfold wakeTime
          linarith
        · simp only [retryLoop, houtcome, if_neg hover]
          rfl

/-- While the time that is left is worth `budget` of the least delays, the loop ends in as many turns and one. -/
theorem retryLoop_ended (fn : Nat → Attempt T) (hbase : 0 < options.baseDelayMs) (hmax : 0 < options.maxDelayMs) {budget : Nat}
    (hleft : start + options.deadlineMs - now ≤ budget * min options.baseDelayMs options.maxDelayMs) :
    ∃ retried, (∀ turns, budget < turns → retryLoop fn options start turns attempts now = some retried) ∧
      Ended fn options start attempts now retried := by
  induction budget generalizing attempts now with
  | zero =>
    rcases retryLoop_turn fn options start attempts now with honce | ⟨-, hlater, -⟩
    · refine ⟨_, fun turns hturns => ?_, ended_once rfl⟩
      obtain ⟨turns, rfl⟩ := Nat.exists_eq_add_one_of_ne_zero (Nat.ne_zero_of_lt hturns)
      exact honce turns
    · have hleast := le_wakeTime fn hbase (attempts + 1) now
      have hpos := lt_min hbase hmax
      rw [Nat.cast_zero, zero_mul] at hleft
      linarith
  | succ budget ih =>
    rcases retryLoop_turn fn options start attempts now with honce | ⟨⟨message, houtcome⟩, hlater, hagain⟩
    · refine ⟨_, fun turns hturns => ?_, ended_once rfl⟩
      obtain ⟨turns, rfl⟩ := Nat.exists_eq_add_one_of_ne_zero (Nat.ne_zero_of_lt hturns)
      exact honce turns
    · have hleast := le_wakeTime fn hbase (attempts + 1) now
      push_cast at hleft
      obtain ⟨retried, hretried, hended⟩ := @ih (wakeTime fn options (attempts + 1) now) (attempts + 1) (by linarith)
      refine ⟨_, fun turns hturns => ?_, ended_again houtcome hlater hended⟩
      obtain ⟨turns, rfl⟩ := Nat.exists_eq_add_one_of_ne_zero (Nat.ne_zero_of_lt hturns)
      rw [hagain, hretried turns (by omega)]
      rfl

end

/-- What the lease allows: an attempt after the first starts before the deadline but for its lateness, the first success is
returned, and what is not to be retried is not. -/
def Kept {T : Type} (fn : Nat → Attempt T) (options : RetryOptions) (start : Rat) (retried : Retried T) : Prop :=
  retried.starts.head? = some (start + (fn 1).late) ∧
    (∀ i time, retried.starts[i + 1]? = some time → time < start + options.deadlineMs + (fn (i + 2)).late) ∧
    retried.result = (fn retried.starts.length).outcome ∧
    ∀ attempt, 1 ≤ attempt → attempt ≤ retried.starts.length →
      (∀ value, (fn attempt).outcome = .ok value → retried.result = .ok value ∧ retried.starts.length = attempt) ∧
      ∀ message, (fn attempt).outcome = .error (.nonRetryable message) →
        retried.result = .error (.nonRetryable message) ∧ retried.starts.length = attempt

theorem retryWithLeaseBudget_ends {T : Type} (fn : Nat → Attempt T) (options : RetryOptions) (start : Rat)
    (hbase : 0 < options.baseDelayMs) (hmax : 0 < options.maxDelayMs) :
    ∃ budget retried, (∀ turns, budget < turns → retryWithLeaseBudget fn options turns start = some retried) ∧
      Kept fn options start retried := by
  obtain ⟨budget, hbudget⟩ := exists_nat_ge (options.deadlineMs / min options.baseDelayMs options.maxDelayMs)
  have hleft : start + options.deadlineMs - start ≤ budget * min options.baseDelayMs options.maxDelayMs := by
    rw [add_sub_cancel_left]
    exact (div_le_iff₀ (lt_min hbase hmax)).mp hbudget
  obtain ⟨retried, hretried, hended⟩ := @retryLoop_ended _ options start start 0 fn hbase hmax budget hleft
  obtain ⟨i, hlen, hres⟩ := hended.last
  have hlast : ∀ attempt, 1 ≤ attempt → attempt ≤ retried.starts.length →
      (∀ message, (fn attempt).outcome ≠ .error (.other message)) → retried.starts.length = attempt := by
    intro attempt hfirst hmade hother
    by_contra hne
    obtain ⟨message, hfail⟩ := hended.failed (attempt - 1) (by omega)
    rw [show 0 + 1 + (attempt - 1) = attempt by omega] at hfail
    exact hother message hfail
  have hend : retried.result = (fn retried.starts.length).outcome := by
    rw [hres, ← hlen, Nat.zero_add, Nat.add_comm]
  have htimely : ∀ i time, retried.starts[i + 1]? = some time → time < start + options.deadlineMs + (fn (i + 2)).late := by
    intro i time htime
    have := hended.timely i time htime
    rwa [show 0 + 2 + i = i + 2 by omega] at this
  refine ⟨budget, retried, hretried, hended.first, htimely, hend, fun attempt hfirst hmade => ⟨?_, ?_⟩⟩
  · intro value houtcome
    have hlen := hlast attempt hfirst hmade (by simp [houtcome])
    exact ⟨by rw [hend, hlen, houtcome], hlen⟩
  · intro message houtcome
    have hlen := hlast attempt hfirst hmade (by simp [houtcome])
    exact ⟨by rw [hend, hlen, houtcome], hlen⟩

/-- The operation fails twice after half a second, and each call starts a millisecond late. -/
def failsTwice (attempt : Nat) : Attempt String where
  late := ⟨1, by norm_num⟩
  took := ⟨500, by norm_num⟩
  outcome := if attempt ≤ 2 then .error (.other "timeout") else .ok "released"

theorem retryWithLeaseBudget_released :
    ∃ budget retried, (∀ turns, budget < turns →
        retryWithLeaseBudget failsTwice { deadlineMs := 20000 } turns 0 = some retried) ∧
      Kept failsTwice { deadlineMs := 20000 } 0 retried :=
  retryWithLeaseBudget_ends failsTwice { deadlineMs := 20000 } 0 (by norm_num) (by norm_num)

/-- A deadline of 702 ms admits the second attempt, which the millisecond takes to the deadline. -/
theorem retryWithLeaseBudget_late :
    ¬ ∀ (fn : Nat → Attempt String) (options : RetryOptions) (start : Rat) (turns : Nat) (retried : Retried String),
      0 < options.baseDelayMs → 0 < options.maxDelayMs → retryWithLeaseBudget fn options turns start = some retried →
        ∀ time ∈ retried.starts.tail, time < start + options.deadlineMs := by
  intro h
  have := h failsTwice { deadlineMs := 702 } 0 2 ⟨[1, 702], .error (.other "timeout")⟩ (by norm_num) (by norm_num)
    (by norm_num [retryWithLeaseBudget, retryLoop, retryDelay, failsTwice]) 702 (by simp)
  norm_num at this

end Delego.Purchase
