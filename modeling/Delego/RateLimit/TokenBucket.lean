import Mathlib.Data.Rat.Floor
import Delego.Data.Calendar

/-! Token buckets (`gateway/src/rateLimit/tokenBucket/store.ts`, `limiter.ts` and `gateway/src/rateLimit/globalTokenBucket.ts`).

A bucket is read, refilled for the time since it was last touched, and drawn on, all in one step: by a script in Redis, or
in memory. The time comes with the call. The store, in either form, keeps the time of the last call, be it earlier than
the one before; the global script keeps the latest time. Times and rates are exact, and the key of a bucket does not
expire: the time to live that a script gives it (`ttlSecondsFor`) is left out.

First the buckets in general: which times they keep is a parameter. -/
namespace Delego.TokenBucket
open Delego.Data List

/-! ### Buckets in general -/

structure Call where
  (cost now : ℚ)

/-- Tokens, and the time that they are of. -/
structure Bucket where
  (tokens ts : ℚ)

structure ConsumeResult where
  tokensRemaining : ℚ
  allowed : Bool

def refill (capacity rate tokens elapsed : ℚ) : ℚ := min capacity (tokens + elapsed * rate)

def draw (tokens cost : ℚ) : ConsumeResult :=
  if cost ≤ tokens then ⟨tokens - cost, true⟩ else ⟨tokens, false⟩

/-- The time that counts as elapsed, and the time that is kept, from the time that was kept and that of a call. -/
structure Clock where
  elapsed : ℚ → ℚ → ℚ
  kept : ℚ → ℚ → ℚ

section
variable (capacity rate : ℚ) (clock : Clock)

def Bucket.consume (bucket : Bucket) (call : Call) : ConsumeResult × Bucket :=
  let result := draw (refill capacity rate bucket.tokens (clock.elapsed bucket.ts call.now)) call.cost
  (result, ⟨result.tokensRemaining, clock.kept bucket.ts call.now⟩)

def Clock.times (clock : Clock) : ℚ → List ℚ → List ℚ
  | _, [] => []
  | ts, now :: rest => clock.elapsed ts now :: clock.times (clock.kept ts now) rest

/-- What a bucket is refilled with at most, over a run: each time up to the capacity. -/
def refilled (elapsed : List ℚ) : ℚ := (elapsed.map fun e => min capacity (e * rate)).sum

def Bucket.admitted : Bucket → List Call → ℚ
  | _, [] => 0
  | bucket, call :: rest =>
    (if (bucket.consume capacity rate clock call).1.allowed then call.cost else 0) +
      (bucket.consume capacity rate clock call).2.admitted rest

def Bucket.after : Bucket → List Call → Bucket
  | bucket, [] => bucket
  | bucket, call :: rest => (bucket.consume capacity rate clock call).2.after rest

end

variable {capacity rate : ℚ} {clock : Clock}

theorem Bucket.after_cons (bucket : Bucket) (call : Call) (rest : List Call) :
    bucket.after capacity rate clock (call :: rest) =
      (bucket.consume capacity rate clock call).2.after capacity rate clock rest := rfl

def Clock.Forward (clock : Clock) : Prop := ∀ ts now, 0 ≤ clock.elapsed ts now

variable {tokens : ℚ}

theorem refill_range {elapsed : ℚ} (hcap : 0 ≤ capacity) (hrate : 0 ≤ rate) (htokens : 0 ≤ tokens)
    (helapsed : 0 ≤ elapsed) : 0 ≤ refill capacity rate tokens elapsed ∧ refill capacity rate tokens elapsed ≤ capacity :=
  ⟨le_min hcap (by positivity), min_le_left _ _⟩

theorem refill_le {elapsed : ℚ} (htokens : 0 ≤ tokens) :
    refill capacity rate tokens elapsed ≤ tokens + min capacity (elapsed * rate) := by
  unfold refill
  rcases le_total capacity (elapsed * rate) with h | h
  · rw [min_eq_left h]
    exact (min_le_left _ _).trans (by linarith)
  · rw [min_eq_right h]
    exact min_le_right _ _

theorem draw_spec {cost : ℚ} (htokens : 0 ≤ tokens) (hcost : 0 < cost) :
    (if (draw tokens cost).allowed then cost else 0) + (draw tokens cost).tokensRemaining = tokens ∧
      0 ≤ (draw tokens cost).tokensRemaining ∧ (draw tokens cost).tokensRemaining ≤ tokens := by
  unfold draw
  split
  · rename_i h
    refine ⟨?_, ?_, ?_⟩
    · show cost + (tokens - cost) = tokens
      ring
    · show 0 ≤ tokens - cost
      linarith
    · show tokens - cost ≤ tokens
      linarith
  · exact ⟨zero_add tokens, htokens, le_refl tokens⟩

/-- The tokens of a bucket are within its capacity. -/
def Bucket.Within (capacity : ℚ) (bucket : Bucket) : Prop := 0 ≤ bucket.tokens ∧ bucket.tokens ≤ capacity

variable {bucket : Bucket}

theorem within_consume (hcap : 0 ≤ capacity) (hrate : 0 ≤ rate) (hclock : clock.Forward)
    (h : bucket.Within capacity) {call : Call} (hcost : 0 < call.cost) :
    (bucket.consume capacity rate clock call).2.Within capacity := by
  obtain ⟨hlow, hhigh⟩ := refill_range hcap hrate h.1 (hclock bucket.ts call.now)
  obtain ⟨-, hpos, hless⟩ := draw_spec hlow hcost
  exact ⟨hpos, hless.trans hhigh⟩

theorem within_after (hcap : 0 ≤ capacity) (hrate : 0 ≤ rate) (hclock : clock.Forward) (h : bucket.Within capacity)
    {calls : List Call} (hcosts : ∀ call ∈ calls, 0 < call.cost) :
    (bucket.after capacity rate clock calls).Within capacity := by
  induction calls generalizing bucket with
  | nil => exact h
  | cons call rest ih =>
    exact ih (within_consume hcap hrate hclock h (hcosts call mem_cons_self))
      fun c hc => hcosts c (mem_cons_of_mem call hc)

theorem admitted_le (hcap : 0 ≤ capacity) (hrate : 0 ≤ rate) (hclock : clock.Forward) (h : bucket.Within capacity)
    {calls : List Call} (hcosts : ∀ call ∈ calls, 0 < call.cost) :
    bucket.admitted capacity rate clock calls ≤
      bucket.tokens + refilled capacity rate (clock.times bucket.ts (calls.map Call.now)) := by
  induction calls generalizing bucket with
  | nil => simpa [Bucket.admitted, Clock.times, refilled] using h.1
  | cons call rest ih =>
    have hcost := hcosts call mem_cons_self
    have hrest := ih (within_consume hcap hrate hclock h hcost) fun c hc => hcosts c (mem_cons_of_mem call hc)
    obtain ⟨hlow, -⟩ := refill_range hcap hrate h.1 (hclock bucket.ts call.now)
    obtain ⟨hdraw, -, -⟩ := draw_spec hlow hcost
    calc
      bucket.admitted capacity rate clock (call :: rest)
      _ ≤ (if (bucket.consume capacity rate clock call).1.allowed then call.cost else 0) +
          ((bucket.consume capacity rate clock call).2.tokens + refilled capacity rate
            (clock.times (bucket.consume capacity rate clock call).2.ts (rest.map Call.now))) := by
        rw [Bucket.admitted]
        gcongr
      _ = refill capacity rate bucket.tokens (clock.elapsed bucket.ts call.now) + refilled capacity rate
          (clock.times (clock.kept bucket.ts call.now) (rest.map Call.now)) := by
        rw [← add_assoc]
        exact congrArg (· + _) hdraw
      _ ≤ bucket.tokens + min capacity (clock.elapsed bucket.ts call.now * rate) + refilled capacity rate
          (clock.times (clock.kept bucket.ts call.now) (rest.map Call.now)) := by
        gcongr
        exact refill_le h.1
      _ = bucket.tokens + refilled capacity rate (clock.times bucket.ts ((call :: rest).map Call.now)) := by
        rw [add_assoc]
        rfl

def drain (capacity rate : ℚ) (clock : Clock) : Bucket → List ℚ → List Call
  | _, [] => []
  | bucket, now :: rest =>
    let tokens := refill capacity rate bucket.tokens (clock.elapsed bucket.ts now)
    ⟨if 0 < tokens then tokens else 1, now⟩ :: drain capacity rate clock ⟨0, clock.kept bucket.ts now⟩ rest

theorem drain_times (bucket : Bucket) (times : List ℚ) : (drain capacity rate clock bucket times).map Call.now = times := by
  induction times generalizing bucket with
  | nil => rfl
  | cons now rest ih => simp only [drain, map_cons, ih]

theorem drain_costs (bucket : Bucket) (times : List ℚ) :
    ∀ call ∈ drain capacity rate clock bucket times, 0 < call.cost := by
  induction times generalizing bucket with
  | nil => exact fun call hcall => absurd hcall not_mem_nil
  | cons now rest ih =>
    intro call hcall
    rcases mem_cons.mp hcall with rfl | hcall
    · show 0 < if 0 < refill capacity rate bucket.tokens (clock.elapsed bucket.ts now) then _ else (1 : ℚ)
      split
      · assumption
      · exact one_pos
    · exact ih _ call hcall

theorem consume_drain (hcap : 0 ≤ capacity) (hrate : 0 ≤ rate) (hclock : clock.Forward) (bucket : Bucket)
    (h : 0 ≤ bucket.tokens) (now : ℚ) :
    let tokens := refill capacity rate bucket.tokens (clock.elapsed bucket.ts now)
    let call : Call := ⟨if 0 < tokens then tokens else 1, now⟩
    (if (bucket.consume capacity rate clock call).1.allowed then call.cost else 0) = tokens ∧
      (bucket.consume capacity rate clock call).2 = ⟨0, clock.kept bucket.ts now⟩ := by
  intro tokens call
  have hlow : 0 ≤ tokens := (refill_range hcap hrate h (hclock bucket.ts now)).1
  have hconsume : bucket.consume capacity rate clock call =
      (draw tokens call.cost, ⟨(draw tokens call.cost).tokensRemaining, clock.kept bucket.ts now⟩) := rfl
  rw [hconsume]
  by_cases hsome : 0 < tokens
  · have hcost : call.cost = tokens := if_pos hsome
    simp [draw, hcost]
  · have hnone : tokens = 0 := le_antisymm (not_lt.mp hsome) hlow
    have hcost : call.cost = 1 := if_neg hsome
    have hdraw : draw tokens call.cost = ⟨0, false⟩ := by rw [draw, hcost, hnone, if_neg (not_le.mpr one_pos)]
    rw [hdraw, hnone]
    exact ⟨rfl, rfl⟩

theorem admitted_drain (hcap : 0 ≤ capacity) (hrate : 0 ≤ rate) (hclock : clock.Forward) (ts : ℚ) (times : List ℚ) :
    (⟨0, ts⟩ : Bucket).admitted capacity rate clock (drain capacity rate clock ⟨0, ts⟩ times) =
      refilled capacity rate (clock.times ts times) := by
  induction times generalizing ts with
  | nil => rfl
  | cons now rest ih =>
    obtain ⟨hadmitted, hafter⟩ := consume_drain hcap hrate hclock ⟨0, ts⟩ (le_refl 0) now
    rw [drain, Bucket.admitted, hadmitted, hafter, ih]
    simp only [refill, zero_add, Clock.times, refilled, map_cons, sum_cons]

/-! ### The stores -/

/-- One step on the bucket of a key, which may not be there yet. The two fields of the hash that it is in Redis are
always written together. -/
abbrev Store := ℚ → ℚ → Call → Option Bucket → ConsumeResult × Bucket

/-- `TOKEN_BUCKET_LUA` -/
def tokenBucketLua (capacity refillPerMs cost now : ℚ) (bucket : Option Bucket) : (Bool × ℚ) × Bucket :=
  let (tokens, ts) := match bucket with
    | some bucket => (bucket.tokens, bucket.ts)
    | none => (capacity, now)
  let elapsed := if now - ts < 0 then 0 else now - ts
  let tokens := min capacity (tokens + elapsed * refillPerMs)
  let allowed := decide (tokens ≥ cost)
  let tokens := if allowed then tokens - cost else tokens
  ((allowed, tokens), ⟨tokens, now⟩)

def redisTokenBucketStore : Store := fun capacity refillPerMs call bucket =>
  let raw := tokenBucketLua capacity refillPerMs call.cost call.now bucket
  (⟨raw.1.2, raw.1.1⟩, raw.2)

def inMemoryTokenBucketStore : Store := fun capacity refillPerMs call existing =>
  let tokens := (existing.map Bucket.tokens).getD capacity
  let ts := (existing.map Bucket.ts).getD call.now
  let elapsed := max 0 (call.now - ts)
  let tokens := min capacity (tokens + elapsed * refillPerMs)
  let allowed := decide (tokens ≥ call.cost)
  let tokens := if allowed then tokens - call.cost else tokens
  (⟨tokens, allowed⟩, ⟨tokens, call.now⟩)

structure GlobalReply where
  allowed : Bool
  (tokens retryMs : ℤ)

/-- The time that is given with a call, or that of Redis: `TIME` has seconds and microseconds. -/
def scriptTime (given : Option ℚ) (seconds microseconds : ℕ) : ℚ := given.getD (seconds * 1000 + microseconds / 1000)

/-- `GLOBAL_TOKEN_BUCKET_LUA` -/
def globalTokenBucketLua (capacity fillRate now cost : ℚ) (state : Option Bucket) : GlobalReply × Bucket :=
  let tokens := (state.map Bucket.tokens).getD capacity
  let ts := (state.map Bucket.ts).getD now
  let now := max now ts
  let tokens := min capacity (tokens + (now - ts) * fillRate)
  let allowed := decide (tokens ≥ cost)
  let tokens := if allowed then tokens - cost else tokens
  let retryMs := if allowed then 0 else ⌈(cost - tokens) / fillRate⌉
  (⟨allowed, ⌊tokens⌋, retryMs⟩, ⟨tokens, now⟩)

def globalTokenBucket : Store := fun capacity fillRate call state =>
  let raw := globalTokenBucketLua capacity fillRate call.now call.cost state
  (⟨raw.1.tokens, raw.1.allowed⟩, raw.2)

section
variable (store : Store) (capacity rate : ℚ)

/-- The total cost that a run of calls is admitted. -/
def admitted : Option Bucket → List Call → ℚ
  | _, [] => 0
  | bucket, call :: rest =>
    (if (store capacity rate call bucket).1.allowed then call.cost else 0) +
      admitted (some (store capacity rate call bucket).2) rest

def bucketAfter : Option Bucket → List Call → Option Bucket
  | bucket, [] => bucket
  | bucket, call :: rest => bucketAfter (some (store capacity rate call bucket).2) rest

end

def Implements (store : Store) (clock : Clock) : Prop :=
  ∀ capacity rate call state,
    let bucket := state.getD ⟨capacity, call.now⟩
    (store capacity rate call state).1.allowed = (bucket.consume capacity rate clock call).1.allowed ∧
      (store capacity rate call state).2 = (bucket.consume capacity rate clock call).2

variable {store : Store}

theorem run_of_implements (h : Implements store clock) (bucket : Bucket) (calls : List Call) :
    admitted store capacity rate (some bucket) calls = bucket.admitted capacity rate clock calls ∧
      bucketAfter store capacity rate (some bucket) calls = some (bucket.after capacity rate clock calls) := by
  induction calls generalizing bucket with
  | nil => exact ⟨rfl, rfl⟩
  | cons call rest ih =>
    obtain ⟨hallow, hnext⟩ := h capacity rate call (some bucket)
    rw [admitted, bucketAfter, Bucket.admitted, Bucket.after_cons, hallow, hnext]
    exact ⟨congrArg _ (ih _).1, (ih _).2⟩

theorem run_of_empty (capacity rate : ℚ) (h : Implements store clock) (call : Call) (rest : List Call) :
    let bucket : Bucket := ⟨capacity, call.now⟩
    admitted store capacity rate none (call :: rest) = bucket.admitted capacity rate clock (call :: rest) ∧
      bucketAfter store capacity rate none (call :: rest) = some (bucket.after capacity rate clock (call :: rest)) := by
  intro bucket
  obtain ⟨hallow, hnext⟩ := h capacity rate call none
  obtain ⟨hrest, hafter⟩ := run_of_implements h (bucket.consume capacity rate clock call).2 rest
  rw [admitted, bucketAfter, Bucket.admitted, Bucket.after_cons, hallow, hnext]
  exact ⟨congrArg _ hrest, hafter⟩

def lastClock : Clock := ⟨fun ts now => max 0 (now - ts), fun _ now => now⟩

def latestClock : Clock := ⟨fun ts now => max now ts - ts, fun ts now => max now ts⟩

theorem lastClock_forward : lastClock.Forward := fun _ _ => le_max_left _ _

theorem latestClock_forward : latestClock.Forward := fun ts now => sub_nonneg.mpr (le_max_right now ts)

theorem draw_eq (tokens cost : ℚ) :
    draw tokens cost = ⟨if decide (tokens ≥ cost) then tokens - cost else tokens, decide (tokens ≥ cost)⟩ := by
  unfold draw
  by_cases h : cost ≤ tokens
  · rw [if_pos h, decide_eq_true h]
    rfl
  · rw [if_neg h, decide_eq_false h]
    rfl

theorem redis_implements : Implements redisTokenBucketStore lastClock := by
  intro capacity rate call state
  have helapsed : ∀ ts, (if call.now - ts < 0 then 0 else call.now - ts) = max 0 (call.now - ts) := by
    intro ts
    split
    · rename_i h
      exact (max_eq_left h.le).symm
    · rename_i h
      exact (max_eq_right (not_lt.mp h)).symm
  cases state <;> simp only [redisTokenBucketStore, tokenBucketLua, helapsed, Bucket.consume, draw_eq, lastClock, refill,
      Option.getD_none, Option.getD_some, and_self]

theorem inMemory_implements : Implements inMemoryTokenBucketStore lastClock := by
  intro capacity rate call existing
  cases existing <;> simp only [inMemoryTokenBucketStore, Bucket.consume, draw_eq, lastClock, refill, Option.map_none,
      Option.map_some, Option.getD_none, Option.getD_some, and_self]

theorem global_implements : Implements globalTokenBucket latestClock := by
  intro capacity rate call state
  cases state <;>
    simp only [globalTokenBucket, globalTokenBucketLua, Bucket.consume, draw_eq, latestClock, refill, Option.map_none,
      Option.map_some, Option.getD_none, Option.getD_some, and_self]

theorem stores_agree {store' : Store} (h : Implements store clock) (h' : Implements store' clock) (state : Option Bucket)
    (calls : List Call) : admitted store capacity rate state calls = admitted store' capacity rate state calls ∧
      bucketAfter store capacity rate state calls = bucketAfter store' capacity rate state calls := by
  induction calls generalizing state with
  | nil => exact ⟨rfl, rfl⟩
  | cons call rest ih =>
    obtain ⟨hallow, hnext⟩ := h capacity rate call state
    obtain ⟨hallow', hnext'⟩ := h' capacity rate call state
    rw [admitted, admitted, bucketAfter, bucketAfter, hallow, hallow', hnext, hnext']
    exact ⟨congrArg _ (ih _).1, (ih _).2⟩

/-- **The script in Redis and the store in memory are one bucket.** -/
theorem redis_agrees (capacity rate : ℚ) (state : Option Bucket) (calls : List Call) :
    admitted redisTokenBucketStore capacity rate state calls = admitted inMemoryTokenBucketStore capacity rate state calls ∧
      bucketAfter redisTokenBucketStore capacity rate state calls =
        bucketAfter inMemoryTokenBucketStore capacity rate state calls :=
  stores_agree redis_implements inMemory_implements state calls

/-! ### Times that are given by several processes -/

def spread : List ℚ → ℚ
  | [] => 0
  | first :: rest => rest.foldl max first - rest.foldl min first

def rises : List ℚ → List ℚ
  | [] => []
  | first :: rest => lastClock.times first rest

/-- At these times the bucket admits no more than its capacity and what the time from the smallest to the largest
brings, and its tokens stay within the capacity. -/
def Bounded (store : Store) (capacity rate : ℚ) (times : List ℚ) : Prop :=
  ∀ calls : List Call, calls.map Call.now = times → (∀ call ∈ calls, 0 < call.cost) →
    admitted store capacity rate none calls ≤ capacity + rate * spread times ∧
      ∀ bucket ∈ bucketAfter store capacity rate none calls, bucket.Within capacity

theorem Clock.times_kept (hkept : ∀ ts, clock.elapsed ts ts = 0) (hcap : 0 ≤ capacity) (first : ℚ)
    (heq : clock.kept first first = first) (rest : List ℚ) :
    refilled capacity rate (clock.times first (first :: rest)) = refilled capacity rate (clock.times first rest) := by
  rw [Clock.times, hkept, heq]
  simp only [refilled, map_cons, sum_cons, zero_mul, min_eq_right hcap, zero_add]

variable {times : List ℚ}

theorem bounded_of_refilled (h : Implements store clock) (hclock : clock.Forward) (hcap : 0 ≤ capacity)
    (hrate : 0 ≤ rate)
    (hrefilled : ∀ first rest, times = first :: rest →
      refilled capacity rate (clock.times first times) ≤ rate * spread times) :
    Bounded store capacity rate times := by
  intro calls htimes hcosts
  subst htimes
  cases calls with
  | nil => exact ⟨by simpa [admitted, spread] using hcap, fun bucket hbucket => nomatch hbucket⟩
  | cons call rest =>
    obtain ⟨hadmitted, hafter⟩ := run_of_empty capacity rate h call rest
    have hfull : Bucket.Within capacity ⟨capacity, call.now⟩ := ⟨hcap, le_refl capacity⟩
    rw [hadmitted, hafter]
    refine ⟨(admitted_le hcap hrate hclock hfull hcosts).trans ?_, ?_⟩
    · exact add_le_add_right (hrefilled call.now (rest.map Call.now) rfl) capacity
    · intro bucket hbucket
      obtain rfl := Option.some.inj hbucket
      exact within_after hcap hrate hclock hfull hcosts

theorem foldl_min_le (first : ℚ) (rest : List ℚ) : rest.foldl min first ≤ first := by
  induction rest generalizing first with
  | nil => exact le_refl first
  | cons now rest ih => exact (ih (min first now)).trans (min_le_left first now)

theorem latest_sum (ts : ℚ) (times : List ℚ) : (latestClock.times ts times).sum = times.foldl max ts - ts := by
  induction times generalizing ts with
  | nil => exact (sub_self ts).symm
  | cons now rest ih =>
    rw [Clock.times, sum_cons, ih, foldl_cons, max_comm ts now]
    show max now ts - ts + (rest.foldl max (max now ts) - max now ts) = _
    ring

theorem refilled_le_sum (elapsed : List ℚ) : refilled capacity rate elapsed ≤ rate * elapsed.sum := by
  induction elapsed with
  | nil => simp [refilled]
  | cons e rest ih =>
    have he : min capacity (e * rate) ≤ rate * e := (min_le_right _ _).trans (mul_comm e rate).le
    simp only [refilled, map_cons, sum_cons, mul_add] at ih ⊢
    exact add_le_add he ih

theorem latest_refilled (hrate : 0 ≤ rate) (first : ℚ) (rest : List ℚ) :
    refilled capacity rate (latestClock.times first (first :: rest)) ≤ rate * spread (first :: rest) := by
  refine (refilled_le_sum _).trans (mul_le_mul_of_nonneg_left ?_ hrate)
  rw [latest_sum, foldl_cons, max_self]
  exact sub_le_sub_left (foldl_min_le first rest) _

theorem rises_refilled (hcap : 0 ≤ capacity) (first : ℚ) (rest : List ℚ) :
    refilled capacity rate (lastClock.times first (first :: rest)) = refilled capacity rate (rises (first :: rest)) :=
  Clock.times_kept (fun ts => by simp [lastClock]) hcap first rfl rest

theorem refilled_of_bounded (h : Implements store lastClock) (hcap : 0 ≤ capacity) (hrate : 0 ≤ rate) (hbounded : Bounded store capacity rate times) :
    refilled capacity rate (rises times) ≤ rate * spread times := by
  cases times with
  | nil => simp [rises, refilled, spread]
  | cons first rest =>
    let full : Bucket := ⟨capacity, first⟩
    obtain ⟨hfirst, hnext⟩ := consume_drain hcap hrate lastClock_forward full hcap first
    have hrefill : refill capacity rate full.tokens (lastClock.elapsed full.ts first) = capacity := by
      simp [refill, lastClock, full]
    obtain ⟨hadmitted, -⟩ := hbounded (drain capacity rate lastClock full (first :: rest)) (drain_times full _)
      (drain_costs full _)
    rw [drain, (run_of_empty _ _ h _ _).1, Bucket.admitted, hnext, admitted_drain hcap hrate lastClock_forward,
      hfirst, hrefill] at hadmitted
    exact le_of_add_le_add_left hadmitted

/-- **Buckets under clocks that are not in step.** -/
theorem admits_within_spread {capacity rate : ℚ} (hcap : 0 ≤ capacity) (hrate : 0 < rate) (times : List ℚ) :
    (Bounded redisTokenBucketStore capacity rate times ∧ Bounded inMemoryTokenBucketStore capacity rate times ∧
        Bounded globalTokenBucket capacity rate times) ↔
      refilled capacity rate (rises times) ≤ rate * spread times := by
  constructor
  · intro h
    exact refilled_of_bounded redis_implements hcap hrate.le h.1
  · intro h
    have hlast : ∀ first rest, times = first :: rest →
        refilled capacity rate (lastClock.times first times) ≤ rate * spread times := by
      rintro first rest rfl
      rwa [rises_refilled hcap]
    refine ⟨bounded_of_refilled redis_implements lastClock_forward hcap hrate.le hlast,
      bounded_of_refilled inMemory_implements lastClock_forward hcap hrate.le hlast,
      bounded_of_refilled global_implements latestClock_forward hcap hrate.le ?_⟩
    rintro first rest rfl
    exact latest_refilled hrate.le first rest

theorem rises_of_sorted (hrate : 0 ≤ rate) (h : times.Pairwise (· ≤ ·)) :
    refilled capacity rate (rises times) ≤ rate * spread times := by
  cases times with
  | nil => simp [rises, refilled, spread]
  | cons first rest =>
    have heq : ∀ first (rest : List ℚ), (first :: rest).Pairwise (· ≤ ·) →
        lastClock.times first rest = latestClock.times first rest := by
      intro first rest
      induction rest generalizing first with
      | nil => exact fun _ => rfl
      | cons now rest ih =>
        intro h
        obtain ⟨hfirst, hrest⟩ := pairwise_cons.mp h
        have hnow : first ≤ now := hfirst now mem_cons_self
        simp only [Clock.times, lastClock, latestClock, max_eq_left hnow, max_eq_right (sub_nonneg.mpr hnow)]
        exact congrArg _ (ih now hrest)
    have hlat : refilled capacity rate (latestClock.times first rest) ≤ rate * spread (first :: rest) := by
      refine (refilled_le_sum _).trans (mul_le_mul_of_nonneg_left ?_ hrate)
      rw [latest_sum]
      exact sub_le_sub_left (foldl_min_le first rest) _
    rw [rises, heq first rest h]
    exact hlat

theorem admits_within_spread_of_two :
    Bounded globalTokenBucket 10 1 [0, 10] ∧ refilled 10 1 (rises [0, 10]) ≤ 1 * spread [0, 10] := by
  have h := (admits_within_spread (show (0 : ℚ) ≤ 10 by norm_num) (show (0 : ℚ) < 1 by norm_num) [0, 10]).mpr
    (rises_of_sorted zero_le_one (by norm_num))
  exact ⟨h.2.2, (admits_within_spread (by norm_num) one_pos [0, 10]).mp h⟩

/-- A process whose clock is behind sets the bucket back, and the time since then is counted again. -/
def skewed : List Call := [⟨10, 10⟩, ⟨10, 0⟩, ⟨10, 10⟩, ⟨10, 0⟩, ⟨10, 10⟩]

theorem skewed_over_admits :
    ¬ ∀ capacity rate : ℚ, 0 ≤ capacity → 0 < rate → ∀ times, Bounded redisTokenBucketStore capacity rate times ∧
      Bounded inMemoryTokenBucketStore capacity rate times ∧ Bounded globalTokenBucket capacity rate times := by
  intro h
  have hbounded := ((h 10 1 (by norm_num) one_pos (skewed.map Call.now)).1 skewed rfl (by decide)).1
  have hadmitted : admitted redisTokenBucketStore 10 1 none skewed = 30 := by decide +kernel
  have hspread : spread (skewed.map Call.now) = 10 := by decide +kernel
  rw [hadmitted, hspread] at hbounded
  norm_num at hbounded

structure RateLimitConfig where
  (requestsPerWindow burstAllowance refillRatePerSecond windowMs : ℚ)

def RateLimitConfig.bucketCapacity (config : RateLimitConfig) : ℚ := config.requestsPerWindow + config.burstAllowance

def RateLimitConfig.refillPerMs (config : RateLimitConfig) : ℚ := config.refillRatePerSecond / 1000

structure RateLimitResult where
  allowed : Bool
  remaining : ℤ
  resetAt : String
  limit : ℚ
  retryAfterMs : Option ℤ

def checkRateLimit (store : Store) (config : RateLimitConfig) (now : ℚ) (bucket : Option Bucket) :
    Except String RateLimitResult × Bucket :=
  let (consumed, left) := store config.bucketCapacity config.refillPerMs ⟨1, now⟩ bucket
  let msUntilFull :=
    if config.refillPerMs > 0 then (config.bucketCapacity - consumed.tokensRemaining) / config.refillPerMs else 0
  let resetAt := now + max 0 msUntilFull
  let msUntilNextToken :=
    if config.refillPerMs > 0 then (1 - consumed.tokensRemaining) / config.refillPerMs else config.windowMs
  -- a date is a number of whole milliseconds
  ((toISOString (newDate (resetAt.num.tdiv resetAt.den))).map fun resetAt =>
    { allowed := consumed.allowed, remaining := max 0 ⌊consumed.tokensRemaining⌋, resetAt := resetAt
      limit := config.bucketCapacity
      retryAfterMs := if consumed.allowed then none else some (max 0 ⌈msUntilNextToken⌉) }, left)

def allows : Except String RateLimitResult → Bool
  | .ok result => result.allowed
  | .error _ => false

def requestsAllowed (store : Store) (config : RateLimitConfig) : Option Bucket → List ℚ → ℕ
  | _, [] => 0
  | bucket, now :: rest =>
    (if allows (checkRateLimit store config now bucket).1 then 1 else 0) +
      requestsAllowed store config (some (checkRateLimit store config now bucket).2) rest

theorem requestsAllowed_le (store : Store) (config : RateLimitConfig) (bucket : Option Bucket) (times : List ℚ) :
    (requestsAllowed store config bucket times : ℚ) ≤
      admitted store config.bucketCapacity config.refillPerMs bucket (times.map fun now => ⟨1, now⟩) := by
  induction times generalizing bucket with
  | nil => exact le_refl 0
  | cons now rest ih =>
    have hallows : allows (checkRateLimit store config now bucket).1 →
        (store config.bucketCapacity config.refillPerMs ⟨1, now⟩ bucket).1.allowed := by
      simp only [checkRateLimit]
      cases toISOString _ with
      | ok resetAt => exact id
      | error message => exact fun h => absurd h Bool.false_ne_true
    have hone : ((if allows (checkRateLimit store config now bucket).1 then 1 else 0 : ℕ) : ℚ) ≤
        if (store config.bucketCapacity config.refillPerMs ⟨1, now⟩ bucket).1.allowed then 1 else 0 := by
      split
      · rename_i h
        rw [if_pos (hallows h), Nat.cast_one]
      · split
        · exact_mod_cast zero_le_one
        · exact_mod_cast le_refl 0
    rw [requestsAllowed, Nat.cast_add, map_cons, admitted]
    exact add_le_add hone (ih _)

theorem requests_within {store : Store} {config : RateLimitConfig}
    (hbounded : Bounded store config.bucketCapacity config.refillPerMs times) :
    (requestsAllowed store config none times : ℚ) ≤ config.bucketCapacity + config.refillPerMs * spread times := by
  refine (requestsAllowed_le store config none times).trans (hbounded _ ?_ ?_).1
  · rw [map_map]
    exact map_id times
  · intro call hcall
    obtain ⟨now, -, rfl⟩ := mem_map.mp hcall
    exact one_pos

/-- **With a clock that never goes back, no more requests are allowed than the capacity and what the time brings.** -/
theorem requests_of_sorted {config : RateLimitConfig} (hcap : 0 ≤ config.bucketCapacity) (hrate : 0 ≤ config.refillPerMs)
    (h : times.Pairwise (· ≤ ·)) : (requestsAllowed redisTokenBucketStore config none times : ℚ) ≤
      config.bucketCapacity + config.refillPerMs * spread times := by
  refine requests_within (bounded_of_refilled redis_implements lastClock_forward hcap hrate ?_)
  rintro first rest rfl
  rw [rises_refilled hcap]
  exact rises_of_sorted hrate h

theorem requests_of_three : (requestsAllowed redisTokenBucketStore ⟨1, 0, 1, 1000⟩ none [0, 5, 2000] : ℚ) ≤ 3 :=
  (requests_of_sorted (by norm_num [RateLimitConfig.bucketCapacity]) (by norm_num [RateLimitConfig.refillPerMs])
    (by norm_num)).trans (by norm_num [RateLimitConfig.bucketCapacity, RateLimitConfig.refillPerMs, spread])

end Delego.TokenBucket
