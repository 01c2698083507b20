import Delego.Data.Number
import Delego.Data.Table
import Delego.Data.History
import Delego.Data.Ranges

/-! The rate limit by a sliding window, and the script it runs.

A key's sorted set has a member for each unit that was admitted, scored by the time of its admission. The script
is atomic, and it runs at the time that the caller's clock shows; a set is gone once it has expired. -/
namespace Delego.RateLimit
open Delego.Data List Function

/-- What a tier allows in a window. -/
structure RateLimitTier where
  tier : String
  (windowMs maxRequests : Int)
  burstAllowance : Option Int

structure RateLimitRule where
  keyPrefix : String
  limits : List RateLimitTier
  exemptKeys : Option (List String)

structure RateLimitCheck where
  (key tier : String)
  cost : Option Nat

structure RateLimitResult where
  allowed : Bool
  remaining : Number
  resetAt : Int
  limit : Number
  retryAfterMs : Option Int
  headers : List (String × String)
deriving DecidableEq

/-- The member `now:i:random`, where the last part is the text of what `math.random()` returned. -/
structure Member where
  now : Int
  i : Nat
  random : String
deriving DecidableEq

structure Scored where
  member : Member
  score : Int

/-- A sorted set; one without members is not there. -/
structure ZSet where
  entries : List Scored
  deadline : Option Int

abbrev Redis := String → ZSet

def ZSet.empty : ZSet := ⟨[], none⟩

def ZSet.live (zset : ZSet) (now : Int) : ZSet := if zset.deadline.all fun deadline => decide (now < deadline) then zset else .empty

def zremrangebyscore (highest : Int) (entries : List Scored) : List Scored :=
  entries.filter fun entry => decide (highest < entry.score)

def zadd (entries : List Scored) (score : Int) (member : Member) : List Scored := put Scored.member entries ⟨member, score⟩

def lowest (entries : List Scored) : Option Int := (entries.map Scored.score).min?

/-- A set is given a deadline, or is gone at once. -/
def pexpire (now ms : Int) (entries : List Scored) : ZSet :=
  if entries.isEmpty then .empty else if 0 < ms then ⟨entries, some (now + ms)⟩ else .empty

/-- What the script is passed, and the values that `math.random()` returns while it runs. -/
structure ScriptArgs where
  (now windowMs maxRequests burstAllowance : Int)
  cost : Nat
  random : Nat → String

def ScriptArgs.member (args : ScriptArgs) (i : Nat) : Member := ⟨args.now, i + 1, args.random i⟩

/-- The members of the window, before any is added. -/
def inWindow (args : ScriptArgs) (zset : ZSet) : List Scored :=
  zremrangebyscore (args.now - args.windowMs) (zset.live args.now).entries

def hasRoom (args : ScriptArgs) (zset : ZSet) : Bool :=
  decide (((inWindow args zset).length : Int) + args.cost ≤ args.maxRequests + args.burstAllowance)

def added (args : ScriptArgs) (entries : List Scored) : List Scored :=
  (range args.cost).foldl (fun entries i => zadd entries args.now (args.member i)) entries

def slidingWindowLua (args : ScriptArgs) (zset : ZSet) : (Bool × Nat × Int) × ZSet :=
  let entries := inWindow args zset
  let allowed := hasRoom args zset
  let count := if allowed then entries.length + args.cost else entries.length
  let zset := pexpire args.now args.windowMs (if allowed then added args entries else entries)
  ((allowed, count, (lowest zset.entries).getD args.now), zset)

def RateLimitRule.exempts (rule : RateLimitRule) (key : String) : Bool := (rule.exemptKeys.getD []).contains key

def RateLimitRule.find (rule : RateLimitRule) (tier : String) : Option RateLimitTier :=
  rule.limits.find? fun limit => limit.tier = tier

def redisKey (rule : RateLimitRule) (check : RateLimitCheck) : String :=
  "ratelimit:" ++ check.tier ++ ":" ++ rule.keyPrefix ++ ":" ++ check.key

def scriptArgs (tierConfig : RateLimitTier) (check : RateLimitCheck) (now : Int) (random : Nat → String) : ScriptArgs where
  now := now
  windowMs := tierConfig.windowMs
  maxRequests := tierConfig.maxRequests
  burstAllowance := tierConfig.burstAllowance.getD 0
  cost := check.cost.getD 1
  random := random

/-- `Math.ceil(ms / 1000)`. -/
def ceilSeconds (ms : Int) : Int := (ms + 999) / 1000

def resultOf (tierConfig : RateLimitTier) (now : Int) : Bool × Nat × Int → RateLimitResult
  | (allowed, count, oldestScore) =>
    let remaining := max 0 (tierConfig.maxRequests - count)
    let resetAt := oldestScore + tierConfig.windowMs
    let retryAfterMs := if allowed then none else some (max 0 (resetAt - now))
    { allowed
      remaining := .finite remaining
      resetAt
      limit := .finite tierConfig.maxRequests
      retryAfterMs
      headers :=
        [("X-RateLimit-Limit", toString tierConfig.maxRequests), ("X-RateLimit-Remaining", toString remaining),
          ("X-RateLimit-Reset", toString (ceilSeconds resetAt))] ++
        (retryAfterMs.map fun ms => ("Retry-After", toString (ceilSeconds ms))).toList }

def exempted : RateLimitResult := ⟨true, .infinity, 0, .infinity, none, [("X-RateLimit-Exempt", "true")]⟩

/-- `check`, at a time and with the random values the script then draws. -/
def check (rule : RateLimitRule) (check : RateLimitCheck) (now : Int) (random : Nat → String) (redis : Redis) :
    Except String RateLimitResult × Redis :=
  if rule.exempts check.key then (.ok exempted, redis)
  else
    match rule.find check.tier with
    | none => (.error ("No rate limit tier \"" ++ check.tier ++ "\" configured for rule \"" ++ rule.keyPrefix ++ "\""), redis)
    | some tierConfig =>
      let key := redisKey rule check
      let ran := slidingWindowLua (scriptArgs tierConfig check now random) (redis key)
      (.ok (resultOf tierConfig now ran.1), update redis key ran.2)

/-! ### The limit, over any history of checks

As long as no member that is added is in the set already, the set holds what was admitted in the window that ends at
any time from the last check on (`Tracks`): the script then keeps every window under the limit, and there is room again
when the oldest member leaves the window (`limited`). -/

def newEntries (args : ScriptArgs) : List Scored := (range args.cost).map fun i => ⟨args.member i, args.now⟩

def Fresh (args : ScriptArgs) (zset : ZSet) : Prop :=
  ∀ i < args.cost, ∀ entry ∈ inWindow args zset, entry.member ≠ args.member i

theorem added_eq {args : ScriptArgs} {entries : List Scored}
    (h : ∀ i < args.cost, ∀ entry ∈ entries, entry.member ≠ args.member i) :
    added args entries = entries ++ newEntries args := by
  have hadded : ∀ n ≤ args.cost, (range n).foldl (fun entries i => zadd entries args.now (args.member i)) entries =
      entries ++ (range n).map fun i => ⟨args.member i, args.now⟩ := by
    intro n hn
    induction n with
    | zero => exact (append_nil entries).symm
    | succ n ih =>
      have hfresh : lookup Scored.member (entries ++ (range n).map fun i => ⟨args.member i, args.now⟩)
          (args.member n) = none := by
        rw [lookup_eq_none]
        intro entry hentry
        obtain hentry | hentry := mem_append.mp hentry
        · exact h n (by omega) entry hentry
        · obtain ⟨i, hi, rfl⟩ := List.mem_map.mp hentry
          intro heq
          have hplace : i + 1 = n + 1 := congrArg Member.i heq
          have hlt := mem_range.mp hi
          omega
      rw [range_succ, foldl_concat, ih (by omega), map_append, ← append_assoc]
      unfold zadd put
      rw [hfresh]
      rfl
  exact hadded args.cost le_rfl

section
variable {α : Type} (time weight : α → Int)

/-- The set holds what was admitted in the window that ends at any time from the last on. -/
structure Tracks (windowMs : Int) (rows : List α) (zset : ZSet) (last : Int) : Prop where
  past : ∀ entry ∈ zset.entries, entry.score ≤ last
  deadline : ∀ entry ∈ zset.entries, ∀ deadline, zset.deadline = some deadline → entry.score + windowMs ≤ deadline
  counts : ∀ t, last ≤ t → windowSum time weight windowMs rows t =
    (zset.entries.filter fun entry => decide (t - windowMs < entry.score)).length

variable {time weight} {windowMs last : Int} {rows : List α} {zset : ZSet}

theorem Tracks.mono (h : Tracks time weight windowMs rows zset last) {last' : Int} (hlast : last ≤ last') :
    Tracks time weight windowMs rows zset last' where
  past entry hentry := (h.past entry hentry).trans hlast
  deadline := h.deadline
  counts t ht := h.counts t (hlast.trans ht)

theorem Tracks.empty : Tracks time weight windowMs [] .empty last := by
  refine ⟨?_, ?_, fun t _ => rfl⟩
  · intro entry hentry
    cases hentry
  · intro entry hentry
    cases hentry

theorem mem_live {entry : Scored} {now : Int} (h : entry ∈ (zset.live now).entries) : entry ∈ zset.entries := by
  unfold ZSet.live at h
  split at h
  · exact h
  · cases h

theorem Tracks.live (h : Tracks time weight windowMs rows zset last) {t : Int} (ht : last ≤ t) :
    (zset.live last).entries.filter (fun entry => decide (t - windowMs < entry.score)) =
      zset.entries.filter fun entry => decide (t - windowMs < entry.score) := by
  unfold ZSet.live
  split
  · rfl
  · rename_i hexp
    symm
    rw [ZSet.empty, filter_nil, filter_eq_nil_iff]
    intro entry hentry hin
    have hin := of_decide_eq_true hin
    cases hdead : zset.deadline with
    | none =>
      rw [hdead] at hexp
      exact hexp rfl
    | some deadline =>
      have hkept := h.deadline entry hentry deadline hdead
      rw [hdead, Option.all_some, decide_eq_true_eq] at hexp
      omega

variable {args : ScriptArgs}

theorem Tracks.window (h : Tracks time weight args.windowMs rows zset args.now) {t : Int} (ht : args.now ≤ t) :
    windowSum time weight args.windowMs rows t =
      ((inWindow args zset).filter fun entry => decide (t - args.windowMs < entry.score)).length := by
  rw [h.counts t ht, ← h.live ht, inWindow, zremrangebyscore, filter_filter]
  congr 2
  refine filter_congr fun entry _ => ?_
  by_cases hin : t - args.windowMs < entry.score
  · have hpre : args.now - args.windowMs < entry.score := by omega
    simp [hin, hpre]
  · simp [hin]

theorem Tracks.length (args : ScriptArgs) (h : Tracks time weight args.windowMs rows zset args.now) :
    windowSum time weight args.windowMs rows args.now = (inWindow args zset).length := by
  rw [h.window le_rfl, inWindow, zremrangebyscore, filter_filter]
  simp

theorem inWindow_past (h : Tracks time weight args.windowMs rows zset args.now) :
    ∀ entry ∈ inWindow args zset, entry.score ≤ args.now :=
  fun entry hentry => h.past entry (mem_live (mem_of_mem_filter hentry))

theorem Tracks.pexpire {entries : List Scored} {now : Int} (hpast : ∀ entry ∈ entries, entry.score ≤ now)
    (hcounts : ∀ t, now ≤ t → windowSum time weight windowMs rows t =
      (entries.filter fun entry => decide (t - windowMs < entry.score)).length) :
    Tracks time weight windowMs rows (RateLimit.pexpire now windowMs entries) now := by
  unfold RateLimit.pexpire
  split
  · rename_i hempty
    rw [List.isEmpty_iff] at hempty
    subst hempty
    exact ⟨hpast, fun entry hentry => absurd hentry not_mem_nil, hcounts⟩
  · split
    · refine ⟨hpast, fun entry hentry deadline hdead => ?_, hcounts⟩
      cases hdead
      have hscore := hpast entry hentry
      omega
    · rename_i hwindow
      refine ⟨fun entry hentry => absurd hentry not_mem_nil, fun entry hentry => absurd hentry not_mem_nil,
        fun t ht => ?_⟩
      have hnone : (entries.filter fun entry => decide (t - windowMs < entry.score)) = [] := by
        rw [filter_eq_nil_iff]
        intro entry hentry hin
        have hin := of_decide_eq_true hin
        have hscore := hpast entry hentry
        omega
      rw [hcounts t ht, hnone]
      rfl

theorem newEntries_length (args : ScriptArgs) : (newEntries args).length = args.cost := by
  rw [newEntries, length_map, length_range]

theorem Tracks.script (args : ScriptArgs) (h : Tracks time weight args.windowMs rows zset args.now) (row : α) (htime : time row = args.now)
    (hweight : weight row = args.cost) (hfresh : hasRoom args zset = true → Fresh args zset) :
    Tracks time weight args.windowMs (if hasRoom args zset then rows ++ [row] else rows) (slidingWindowLua args zset).2
      args.now := by
  have hpast := inWindow_past h
  refine Tracks.pexpire ?_ ?_
  · cases hroom : hasRoom args zset with
    | false => simpa using hpast
    | true =>
      rw [if_pos rfl, added_eq (hfresh hroom)]
      intro entry hentry
      obtain hentry | hentry := mem_append.mp hentry
      · exact hpast entry hentry
      · obtain ⟨i, -, rfl⟩ := List.mem_map.mp hentry
        exact le_rfl
  · intro t ht
    cases hroom : hasRoom args zset with
    | false => simpa using h.window ht
    | true =>
      rw [if_pos rfl, if_pos rfl, added_eq (hfresh hroom), windowSum_append, h.window ht, filter_append,
        length_append, htime, hweight]
      have hnew : ((newEntries args).filter fun entry => decide (t - args.windowMs < entry.score)).length =
          if t - args.windowMs < args.now then args.cost else 0 := by
        by_cases hin : t - args.windowMs < args.now
        · rw [if_pos hin, ← newEntries_length args]
          refine congrArg List.length (List.filter_eq_self.mpr fun entry hentry => ?_)
          obtain ⟨i, -, rfl⟩ := List.mem_map.mp hentry
          exact decide_eq_true hin
        · rw [if_neg hin, length_eq_zero_iff, filter_eq_nil_iff]
          intro entry hentry
          obtain ⟨i, -, rfl⟩ := List.mem_map.mp hentry
          exact fun hscore => hin (of_decide_eq_true hscore)
      rw [hnew]
      split
      · rename_i hin
        rw [if_pos hin.1]
        omega
      · rename_i hin
        rw [if_neg fun hlate => hin ⟨hlate, ht⟩]
        omega

theorem inWindow_le (args : ScriptArgs) (zset : ZSet) : (inWindow args zset).length ≤
    (zset.entries.filter fun entry => decide (args.now - args.windowMs < entry.score)).length := by
  unfold inWindow zremrangebyscore ZSet.live
  split
  · exact le_rfl
  · exact Nat.zero_le _

theorem Tracks.room_again (args : ScriptArgs) (h : Tracks time weight args.windowMs rows zset args.now) (hcost : args.cost = 1)
    (hlimit : 1 ≤ args.maxRequests + args.burstAllowance)
    (hcapped : Capped time weight args.windowMs (args.maxRequests + args.burstAllowance) rows)
    (hdenied : hasRoom args zset = false) (random : Nat → String) :
    hasRoom { args with now := (slidingWindowLua args zset).1.2.2 + args.windowMs, random } (slidingWindowLua args zset).2 =
      true := by
  have hpast := inWindow_past h
  have hfull : ((inWindow args zset).length : Int) ≤ args.maxRequests + args.burstAllowance := by
    have hcap := hcapped args.now
    rw [Tracks.length args h] at hcap
    omega
  have hover : args.maxRequests + args.burstAllowance < (inWindow args zset).length + 1 := by
    have hover := of_decide_eq_false hdenied
    rw [hcost] at hover
    omega
  -- the script adds nothing, so the set is what it counted
  have hentries : (slidingWindowLua args zset).2 = RateLimit.pexpire args.now args.windowMs (inWindow args zset) := by
    unfold slidingWindowLua
    rw [hdenied]
    rfl
  have hne : inWindow args zset ≠ [] := by
    intro hempty
    rw [hempty, length_nil] at hover
    omega
  obtain ⟨first, hfirst⟩ := exists_mem_of_ne_nil _ hne
  have hwindow : 0 < args.windowMs := by
    have hin := of_decide_eq_true (mem_filter.mp hfirst).2
    have hscore := hpast first hfirst
    omega
  have hset : (slidingWindowLua args zset).2 = ⟨inWindow args zset, some (args.now + args.windowMs)⟩ := by
    rw [hentries, RateLimit.pexpire, if_neg (by rwa [List.isEmpty_iff]), if_pos hwindow]
  obtain ⟨score, hscore⟩ := Option.isSome_iff_exists.mp
    (isSome_min?_of_mem (mem_map_of_mem hfirst : first.score ∈ (inWindow args zset).map Scored.score))
  obtain ⟨oldest, holdest, rfl⟩ := List.mem_map.mp (min?_mem hscore)
  have hreset : (slidingWindowLua args zset).1.2.2 = oldest.score := by
    have hlowest : (slidingWindowLua args zset).1.2.2 = (lowest (slidingWindowLua args zset).2.entries).getD args.now := rfl
    rw [hlowest, hset, lowest, hscore, Option.getD_some]
  have hleft : (inWindow { args with now := oldest.score + args.windowMs, random } (slidingWindowLua args zset).2).length <
      (inWindow args zset).length := by
    refine (inWindow_le _ _).trans_lt ?_
    rw [hset]
    exact length_filter_lt_length_iff_exists.mpr ⟨oldest, holdest, by simp⟩
  rw [hreset]
  refine decide_eq_true ?_
  simp only [hcost] at hleft ⊢
  omega

end

/-! ### Checks -/

/-- A call of `check`, with the values the script draws if it runs. -/
structure Call where
  rule : RateLimitRule
  check : RateLimitCheck
  now : Int
  random : Nat → String

/-- The tier that the script is run for, if it is. -/
def Call.config (call : Call) : Option RateLimitTier :=
  if call.rule.exempts call.check.key then none else call.rule.find call.check.tier

def Call.answer (call : Call) (redis : Redis) : Except String RateLimitResult × Redis :=
  RateLimit.check call.rule call.check call.now call.random redis

def Call.args (call : Call) (tier : RateLimitTier) : ScriptArgs := scriptArgs tier call.check call.now call.random

abbrev Answered := Call × Except String RateLimitResult

structure World where
  redis : Redis
  answered : List Answered

def World.start : World := ⟨fun _ => .empty, []⟩

def World.step (world : World) (call : Call) : World :=
  ⟨(call.answer world.redis).2, world.answered ++ [(call, (call.answer world.redis).1)]⟩

def run (history : List Call) : World := History.run World.step .start history

def Call.uses (call : Call) (key : String) : Bool := call.config.isSome && decide (redisKey call.rule call.check = key)

def isAllowed : Except String RateLimitResult → Bool
  | .ok result => result.allowed
  | .error _ => false

def admitted (key : String) (answered : List Answered) : List Answered :=
  answered.filter fun answer => answer.1.uses key && isAllowed answer.2

def timeOf (answer : Answered) : Int := answer.1.now

def costOf (answer : Answered) : Int := (answer.1.check.cost.getD 1 : Nat)

def RateLimitTier.most (tier : RateLimitTier) : Int := tier.maxRequests + tier.burstAllowance.getD 0

def Alike (tier tier' : RateLimitTier) : Prop := tier.windowMs = tier'.windowMs ∧ tier.most = tier'.most

/-- The clock does not go back, and the calls of the key are under one limit. -/
structure Timed (key : String) (tier : RateLimitTier) (world : World) (call : Call) : Prop where
  clock : ∀ answer ∈ world.answered, answer.1.now ≤ call.now
  alike : ∀ config, call.config = some config → redisKey call.rule call.check = key → Alike config tier

/-- What a call must meet: what the script adds is not in the set. -/
structure Meets (key : String) (tier : RateLimitTier) (world : World) (call : Call) : Prop extends Timed key tier world call where
  fresh : ∀ config, call.config = some config → redisKey call.rule call.check = key →
    hasRoom (call.args config) (world.redis key) = true → Fresh (call.args config) (world.redis key)

def Orderly (key : String) (tier : RateLimitTier) (history : List Call) : Prop :=
  History.Orderly World.step (Meets key tier) .start history

section
variable {key : String} {tier : RateLimitTier} {world : World} {call : Call}

theorem answer_cases (call : Call) (redis : Redis) : call.config = none ∧ (call.answer redis).2 = redis ∨
      ∃ config, call.config = some config ∧ call.answer redis =
        (.ok (resultOf config call.now (slidingWindowLua (call.args config) (redis (redisKey call.rule call.check))).1),
          update redis (redisKey call.rule call.check)
            (slidingWindowLua (call.args config) (redis (redisKey call.rule call.check))).2) := by
  unfold Call.config Call.answer RateLimit.check
  by_cases hexempt : call.rule.exempts call.check.key = true
  · rw [if_pos hexempt, if_pos hexempt]
    exact .inl ⟨rfl, rfl⟩
  · rw [if_neg hexempt, if_neg hexempt]
    cases call.rule.find call.check.tier with
    | none => exact .inl ⟨rfl, rfl⟩
    | some config => exact .inr ⟨config, rfl, rfl⟩

theorem allowed_answer (call : Call) {config : RateLimitTier} (hcfg : call.config = some config)
    (hkey : redisKey call.rule call.check = key) (redis : Redis) :
    isAllowed (call.answer redis).1 = hasRoom (call.args config) (redis key) ∧
      (call.answer redis).2 key = (slidingWindowLua (call.args config) (redis key)).2 := by
  obtain ⟨hnone, -⟩ | ⟨config', hcfg', hans⟩ := answer_cases call redis
  · simp [hcfg] at hnone
  · obtain rfl : config = config' := Option.some.inj (hcfg.symm.trans hcfg')
    rw [hans, hkey]
    exact ⟨rfl, update_self ..⟩

/-- What is known of a key: its set tracks what was admitted, which no window holds too much of. -/
structure Sound (key : String) (tier : RateLimitTier) (world : World) : Prop where
  tracks : ∀ last, (∀ answer ∈ world.answered, answer.1.now ≤ last) →
    Tracks timeOf costOf tier.windowMs (admitted key world.answered) (world.redis key) last
  capped : Capped timeOf costOf tier.windowMs tier.most (admitted key world.answered)

theorem sound_start : Sound key tier .start := ⟨fun _ _ => Tracks.empty, .nil⟩

theorem costOf_nonneg (answer : Answered) : 0 ≤ costOf answer := Int.natCast_nonneg _

theorem Sound.other (h : Sound key tier world) (hredis : (world.step call).redis key = world.redis key)
    (hother : admitted key (world.step call).answered = admitted key world.answered) : Sound key tier (world.step call) where
  tracks last hlast := by
    rw [hredis, hother]
    exact h.tracks last fun answer hans => hlast answer (mem_append_left _ hans)
  capped := by
    rw [hother]
    exact h.capped

theorem admitted_append (answered : List Answered) (answer : Answered) : admitted key (answered ++ [answer]) =
    if answer.1.uses key && isAllowed answer.2 then admitted key answered ++ [answer] else admitted key answered := by
  unfold admitted
  rw [filter_append]
  cases hadmitted : answer.1.uses key && isAllowed answer.2 with
  | true => simp [hadmitted]
  | false => simp [hadmitted]

theorem Sound.step (h : Sound key tier world) (hmeets : Meets key tier world call) : Sound key tier (world.step call) := by
  obtain ⟨hnone, hredis⟩ | ⟨config, hcfg, hans⟩ := answer_cases call world.redis
  · refine h.other (congrFun hredis key) ?_
    rw [World.step, admitted_append, Call.uses, hnone]
    rfl
  · by_cases hkey : redisKey call.rule call.check = key
    · obtain ⟨hwindow, hmost⟩ := hmeets.alike config hcfg hkey
      have htracks := h.tracks call.now hmeets.clock
      rw [← hwindow] at htracks
      have hansd : (world.step call).answered = world.answered ++ [(call, (call.answer world.redis).1)] := rfl
      obtain ⟨hallow, hredis⟩ := allowed_answer call hcfg hkey world.redis
      have hadmitted : admitted key (world.step call).answered = if hasRoom (call.args config) (world.redis key) then
          admitted key world.answered ++ [(call, (call.answer world.redis).1)] else admitted key world.answered := by
        rw [hansd, admitted_append, hallow, Call.uses, hcfg, decide_eq_true hkey]
        rfl
      have hafter : (world.step call).redis key = (slidingWindowLua (call.args config) (world.redis key)).2 := hredis
      refine ⟨fun last hlast => ?_, ?_⟩
      · have hnow : call.now ≤ last := hlast (call, (call.answer world.redis).1) (hansd ▸ mem_concat_self)
        have hscript : Tracks timeOf costOf config.windowMs (if hasRoom (call.args config) (world.redis key) then
            admitted key world.answered ++ [(call, (call.answer world.redis).1)] else admitted key world.answered)
            (slidingWindowLua (call.args config) (world.redis key)).2 call.now :=
          Tracks.script (call.args config) htracks (call, (call.answer world.redis).1) rfl rfl (hmeets.fresh config hcfg hkey)
        rw [hadmitted, hafter, ← hwindow]
        exact hscript.mono hnow
      · rw [hadmitted]
        split
        · rename_i hroom
          refine h.capped.append (fun answer _ => costOf_nonneg answer) (fun answer hmem => ?_) ?_
          · exact hmeets.clock answer (mem_of_mem_filter hmem)
          · have hfits := of_decide_eq_true hroom
            have hcnt : windowSum timeOf costOf config.windowMs (admitted key world.answered) call.now =
              (inWindow (call.args config) (world.redis key)).length := Tracks.length (call.args config) htracks
            rw [← hwindow, ← hmost]
            exact hcnt ▸ hfits
        · exact h.capped
    · refine h.other ?_ ?_
      · rw [World.step, hans]
        exact update_of_ne (Ne.symm hkey) _ _
      · rw [World.step, admitted_append, Call.uses, decide_eq_false hkey, Bool.and_false]
        rfl

theorem sound_run {history : List Call} (h : Orderly key tier history) : Sound key tier (run history) :=
  History.Orderly.invariant (fun _ _ hsound hmeets => hsound.step hmeets) h sound_start

end

/-- In every history of a key under one limit, whose calls add new members, no window holds more than the limit, and
a denied call is admitted at the time it was told. -/
theorem limited {key : String} {tier : RateLimitTier} {history : List Call} (hmost : 1 ≤ tier.most)
    (h : Orderly key tier history) :
    (∀ t, windowSum timeOf costOf tier.windowMs (admitted key (run history).answered) t ≤ tier.most) ∧
      ∀ call result, Meets key tier (run history) call → call.uses key = true → call.check.cost.getD 1 = 1 →
        (call.answer (run history).redis).1 = .ok result → result.allowed = false → ∀ random,
          isAllowed (Call.answer { call with now := result.resetAt, random } ((run history).step call).redis).1 = true := by
  have hsound := sound_run h
  refine ⟨fun t => ?_, fun call result hmeets huses hcost hres hdenied random => ?_⟩
  · have hcap := hsound.capped t
    omega
  · obtain ⟨hnone, -⟩ | ⟨config, hcfg, hans⟩ := answer_cases call (run history).redis
    · simp [Call.uses, hnone] at huses
    have hkey : redisKey call.rule call.check = key := by
      rw [Call.uses, Bool.and_eq_true] at huses
      exact of_decide_eq_true huses.2
    obtain ⟨hwindow, hmost'⟩ := hmeets.alike config hcfg hkey
    have htracks := hsound.tracks call.now hmeets.clock
    have hcapped := hsound.capped
    rw [← hwindow] at htracks hcapped
    rw [← hmost'] at hmost hcapped
    have hredis := (allowed_answer call hcfg hkey (run history).redis).2
    have hagain := fun now => (allowed_answer { call with now, random } hcfg hkey ((run history).step call).redis).1
    rw [hans, hkey] at hres
    cases hres
    have hroom := Tracks.room_again (call.args config) htracks hcost hmost hcapped hdenied random
    rw [← hredis] at hroom
    exact (hagain _).trans hroom

theorem answered_calls (history : List Call) : (run history).answered.map (·.1) = history := by
  induction history using reverseRecOn with
  | nil => rfl
  | append_singleton history call ih =>
    rw [run, History.run_concat, World.step, map_append]
    exact congrArg (· ++ [call]) ih

instance (args : ScriptArgs) (zset : ZSet) : Decidable (Fresh args zset) :=
  let _ : ∀ i, i < args.cost → Decidable (∀ entry ∈ inWindow args zset, entry.member ≠ args.member i) :=
    fun _ _ => decidableBAll _ _
  Nat.decidableBallLT _ _

/-- A check of cost one, in the millisecond 1000. -/
def visit (random : String) : Call where
  rule := ⟨"orders", [⟨"default", 1000, 2, none⟩], none⟩
  check := ⟨"user", "default", none⟩
  now := 1000
  random _ := random

def ordersKey : String := redisKey (visit "").rule (visit "").check

def ordersTier : RateLimitTier := ⟨"default", 1000, 2, none⟩

theorem config_visit (random : String) : (visit random).config = some ordersTier := rfl

theorem timed_visit (randoms : List String) (random : String) :
    Timed ordersKey ordersTier (run (randoms.map visit)) (visit random) where
  clock answer hans := by
    have hcall := mem_map_of_mem (f := (·.1)) hans
    rw [answered_calls] at hcall
    obtain ⟨_, -, hvisit⟩ := List.mem_map.mp hcall
    rw [← hvisit]
    exact le_rfl
  alike config hcfg _ := by
    rw [config_visit] at hcfg
    cases hcfg
    exact ⟨rfl, rfl⟩

theorem meets_visit (randoms : List String) {random : String}
    (hfresh : Fresh ((visit random).args ordersTier) ((run (randoms.map visit)).redis ordersKey)) :
    Meets ordersKey ordersTier (run (randoms.map visit)) (visit random) where
  toTimed := timed_visit randoms random
  fresh config hcfg _ _ := by
    rw [config_visit] at hcfg
    cases hcfg
    exact hfresh

/-- Two visits are admitted whose members differ; a third is denied, and admitted a second later. -/
theorem limited_visits : isAllowed (Call.answer { visit "0.3" with now := 2000 }
    ((run [visit "0.1", visit "0.2"]).step (visit "0.3")).redis).1 = true := by
  have hfirst : Meets ordersKey ordersTier (run []) (visit "0.1") := meets_visit [] (by decide)
  have hsecond : Meets ordersKey ordersTier (run [visit "0.1"]) (visit "0.2") := meets_visit ["0.1"] (by decide)
  have hthird : Meets ordersKey ordersTier (run [visit "0.1", visit "0.2"]) (visit "0.3") :=
    meets_visit ["0.1", "0.2"] (by decide)
  have hord : Orderly ordersKey ordersTier [visit "0.1", visit "0.2"] := ⟨hfirst, hsecond, trivial⟩
  have hres : ((visit "0.3").answer (run [visit "0.1", visit "0.2"]).redis).1 =
      .ok (resultOf ordersTier 1000 (false, 2, 1000)) := by decide
  exact (limited (by decide) hord).2 (visit "0.3") _ hthird (by decide) rfl hres rfl (visit "0.3").random

/-- Scripts that all start from one seed: their members are one, and the set never fills. -/
theorem same_member_uncounted : ¬ ∀ (key : String) (tier : RateLimitTier) (history : List Call) (t : Int), 1 ≤ tier.most →
    History.Orderly World.step (Timed key tier) .start history →
      windowSum timeOf costOf tier.windowMs (admitted key (run history).answered) t ≤ tier.most := by
  intro h
  have hsum : windowSum timeOf costOf ordersTier.windowMs
      (admitted ordersKey (run [visit "0.1", visit "0.1", visit "0.1"]).answered) 1000 = 3 := by decide
  have hle := h ordersKey ordersTier [visit "0.1", visit "0.1", visit "0.1"] 1000 (by decide)
    ⟨timed_visit [] "0.1", timed_visit ["0.1"] "0.1", timed_visit ["0.1", "0.1"] "0.1", trivial⟩
  rw [hsum] at hle
  exact absurd hle (by decide)

end Delego.RateLimit
