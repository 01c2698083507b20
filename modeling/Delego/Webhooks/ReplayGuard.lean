import Delego.Data.Number

/-! Protection of inbound webhooks against replay (`payments/src/webhooks/replayGuard.ts`).

A call reads the clock once for the timestamp and once when it claims the nonce. The times
are in milliseconds; `round` stands for the rounding of a quotient or a difference to the
nearest number that the machine has. A store holds each key until some time; only what
happens exactly at that time differs from store to store (`NonceStore`). -/
namespace Delego.Webhooks
open Delego.Data List

def defaultMaxSkewSeconds : Int := 300

def webhookNonceTtlSeconds : Int := 600

inductive WebhookReplayRejectionCode where
  | timestampExpired | nonceReplayed
  deriving DecidableEq

structure WebhookReplayCheckResult where
  ok : Bool
  code : Option WebhookReplayRejectionCode
  message : Option String
  deriving DecidableEq

structure Input where
  timestamp : Number
  nonce : Option String
  /-- Whole seconds; no caller gives it. -/
  maxSkewSeconds : Option Int

/-- How a store that takes `SET key value EX ttl NX` lets its keys lapse. -/
structure NonceStore where
  held : (expiresAt now : Int) → Bool
  held_before : ∀ {expiresAt now}, now < expiresAt → held expiresAt now = true
  lapsed_after : ∀ {expiresAt now}, expiresAt < now → held expiresAt now = false

/-- `makeInMemoryNonceRedis`: a key is claimed while `expiresAt > now`. -/
def inMemory : NonceStore where
  held expiresAt now := decide (now < expiresAt)
  held_before h := decide_eq_true h
  lapsed_after h := decide_eq_false (by omega)

/-- From key to `expiresAt`. -/
abbrev Nonces := String → Option Int

/-- Whether no claim of the key is alive at `now`. -/
def NonceStore.lapsed (store : NonceStore) (expiresAt : Option Int) (now : Int) : Bool :=
  !(expiresAt.any fun time => store.held time now)

/-- `set(key, "1", "EX", ttlSeconds, "NX")`; whether it answers `"OK"`. -/
def NonceStore.set (store : NonceStore) (key : String) (ttlSeconds now : Int) (nonces : Nonces) : Bool × Nonces :=
  if store.lapsed (nonces key) now then (true, Function.update nonces key (some (now + ttlSeconds * 1000)))
  else (false, nonces)

section
variable (store : NonceStore) (round : Rat → Rat)

def isTimestampWithinTolerance (timestampSeconds : Number) (maxSkewSeconds : Int) (nowSeconds : Rat) : Bool :=
  match timestampSeconds with
  | .finite timestamp => decide (|round (nowSeconds - timestamp)| ≤ maxSkewSeconds)
  | _ => false

def deriveNonceKey (ns nonce : String) : String := s!"webhook:nonce:{ns}:{nonce}"

def claimWebhookNonce (ns nonce : String) (now : Int) (nonces : Nonces) : Bool × Nonces :=
  if nonce = "" then (false, nonces)
  else store.set (deriveNonceKey ns nonce) webhookNonceTtlSeconds now nonces

structure Call where
  (checkedAt claimedAt : Int)

/-- Whether the timestamp passes when it is checked. -/
def fresh (input : Input) (call : Call) : Bool :=
  isTimestampWithinTolerance round input.timestamp (input.maxSkewSeconds.getD defaultMaxSkewSeconds)
    (round ((call.checkedAt : Rat) / 1000))

def checkWebhookReplay (ns : String) (input : Input) (call : Call) (nonces : Nonces) : WebhookReplayCheckResult × Nonces :=
  if !fresh round input call then
    (⟨false, some .timestampExpired,
      some s!"Webhook timestamp is outside the {input.maxSkewSeconds.getD defaultMaxSkewSeconds}s tolerance window"⟩,
      nonces)
  else match input.nonce with
    | none => (⟨true, none, none⟩, nonces)
    | some nonce =>
      if nonce = "" then (⟨true, none, none⟩, nonces)
      else
        let claimed := claimWebhookNonce store ns nonce call.claimedAt nonces
        if claimed.1 then (⟨true, none, none⟩, claimed.2)
        else (⟨false, some .nonceReplayed, some "Webhook nonce has already been processed"⟩, claimed.2)

def answers (ns : String) (input : Input) : Nonces → List Call → List WebhookReplayCheckResult
  | _, [] => []
  | nonces, call :: rest =>
    let checked := checkWebhookReplay store round ns input call nonces
    checked.1 :: answers ns input checked.2 rest

def acceptedCount (ns : String) (input : Input) (nonces : Nonces) (calls : List Call) : Nat :=
  (answers store round ns input nonces calls).countP WebhookReplayCheckResult.ok

end

/-! ### When a claim outlives its timestamp -/

section
variable {store : NonceStore} {round : Rat → Rat} {ns nonce : String} {timestamp : Number}

def signed (timestamp : Number) (nonce : String) : Input := ⟨timestamp, some nonce, none⟩

@[simp] theorem signed_nonce : (signed timestamp nonce).nonce = some nonce := rfl

theorem held_mono {expiresAt later now : Int} (h : store.held expiresAt now = true)
    (hlater : expiresAt ≤ later) : store.held later now = true := by
  obtain hlt | rfl := lt_or_eq_of_le hlater
  · have hnow : now ≤ expiresAt := by
      by_contra hpast
      rw [store.lapsed_after (by omega)] at h
      cases h
    exact store.held_before (by omega)
  · exact h

/-- `WEBHOOK_NONCE_TTL_SECONDS`, in milliseconds. -/
def lifetime : Int := webhookNonceTtlSeconds * 1000

theorem checkWebhookReplay_stale (store : NonceStore) (ns : String) {input : Input} {call : Call}
    (h : fresh round input call = false) (nonces : Nonces) :
    (checkWebhookReplay store round ns input call nonces).1.ok = false ∧
      (checkWebhookReplay store round ns input call nonces).2 = nonces := by
  simp [checkWebhookReplay, h]

theorem checkWebhookReplay_fresh (store : NonceStore) (ns : String) (hnonce : nonce ≠ "") {call : Call}
    (h : fresh round (signed timestamp nonce) call = true) (nonces : Nonces) :
    (checkWebhookReplay store round ns (signed timestamp nonce) call nonces).1.ok =
        store.lapsed (nonces (deriveNonceKey ns nonce)) call.claimedAt ∧
      (checkWebhookReplay store round ns (signed timestamp nonce) call nonces).2 (deriveNonceKey ns nonce) =
        if store.lapsed (nonces (deriveNonceKey ns nonce)) call.claimedAt then some (call.claimedAt + lifetime)
        else nonces (deriveNonceKey ns nonce) := by
  cases hlapsed : store.lapsed (nonces (deriveNonceKey ns nonce)) call.claimedAt with
  | true => simp [checkWebhookReplay, h, hnonce, claimWebhookNonce, NonceStore.set, hlapsed, lifetime]
  | false => simp [checkWebhookReplay, h, hnonce, claimWebhookNonce, NonceStore.set, hlapsed]

theorem acceptedCount_cons (input : Input) (nonces : Nonces) (call : Call) (rest : List Call) :
    acceptedCount store round ns input nonces (call :: rest) =
      acceptedCount store round ns input (checkWebhookReplay store round ns input call nonces).2 rest +
        if (checkWebhookReplay store round ns input call nonces).1.ok then 1 else 0 :=
  countP_cons

/-- How many calls are accepted, from what the store holds at the key alone. -/
def claims (store : NonceStore) : Option Int → List Call → Nat
  | _, [] => 0
  | expiresAt, call :: rest =>
    if store.lapsed expiresAt call.claimedAt then claims store (some (call.claimedAt + lifetime)) rest + 1
    else claims store expiresAt rest

theorem acceptedCount_eq_claims (hnonce : nonce ≠ "") (nonces : Nonces) (calls : List Call) :
    acceptedCount store round ns (signed timestamp nonce) nonces calls =
      claims store (nonces (deriveNonceKey ns nonce)) (calls.filter (fresh round (signed timestamp nonce))) := by
  induction calls generalizing nonces with
  | nil => rfl
  | cons call rest ih =>
    cases hfresh : fresh round (signed timestamp nonce) call with
    | false =>
      obtain ⟨hans, hkept⟩ := checkWebhookReplay_stale store ns hfresh nonces
      rw [acceptedCount_cons, hans, hkept, ih, filter_cons_of_neg (by simp [hfresh])]
      rfl
    | true =>
      obtain ⟨hans, hkey⟩ := checkWebhookReplay_fresh store ns hnonce hfresh nonces
      rw [acceptedCount_cons, hans, ih, hkey, filter_cons_of_pos hfresh, claims]
      cases store.lapsed (nonces (deriveNonceKey ns nonce)) call.claimedAt with
      | true => rfl
      | false => rfl

theorem claims_eq_zero (expiresAt : Int) (calls : List Call) :
    claims store (some expiresAt) calls = 0 ↔ ∀ call ∈ calls, store.held expiresAt call.claimedAt = true := by
  induction calls with
  | nil => simp [claims]
  | cons call rest ih =>
    cases hheld : store.held expiresAt call.claimedAt with
    | true => simp [claims, NonceStore.lapsed, hheld, ih]
    | false => simp [claims, NonceStore.lapsed, hheld]

/-- A call that finds no claim alive at the start makes one that lives until the later call. -/
def Covers (store : NonceStore) (expiresAt : Option Int) (a b : Call) : Prop :=
  store.lapsed expiresAt a.claimedAt = true → store.held (a.claimedAt + lifetime) b.claimedAt = true

theorem claims_le_one_iff {calls : List Call} (hclock : calls.Pairwise fun a b => a.claimedAt ≤ b.claimedAt)
    (expiresAt : Option Int) :
    claims store expiresAt calls ≤ 1 ↔ calls.Pairwise (Covers store expiresAt) := by
  induction calls with
  | nil => simp [claims]
  | cons call rest ih =>
    obtain ⟨hfirst, hrest⟩ := pairwise_cons.mp hclock
    rw [pairwise_cons]
    cases hlapsed : store.lapsed expiresAt call.claimedAt with
    | false =>
      have hvacuous : ∀ later ∈ rest, Covers store expiresAt call later := by
        intro later _ h
        simp [hlapsed] at h
      have heq : claims store expiresAt (call :: rest) = claims store expiresAt rest := by simp [claims, hlapsed]
      rw [heq, ih hrest]
      exact (and_iff_right hvacuous).symm
    | true =>
      have hnone : claims store expiresAt (call :: rest) ≤ 1 ↔
          ∀ later ∈ rest, store.held (call.claimedAt + lifetime) later.claimedAt = true := by
        rw [← claims_eq_zero]
        simp [claims, hlapsed]
      rw [hnone]
      constructor
      · intro hheld
        refine ⟨fun later hlater _ => hheld later hlater, ?_⟩
        -- What outlives the first call's claim also outlives that of any call between them.
        refine List.Pairwise.imp_of_mem ?_ hrest
        intro a b ha hb _ _
        have hab := hfirst a ha
        exact held_mono (hheld b hb) (by omega)
      · intro hcov later hlater
        exact hcov.1 later hlater hlapsed

theorem length_le_one_iff {calls : List Call} : calls.length ≤ 1 ↔ calls.Pairwise fun _ _ => False := by
  match calls with
  | [] => simp
  | [_] => simp
  | _ :: b :: _ =>
    simp only [length_cons, pairwise_cons]
    constructor
    · intro h
      omega
    · intro h
      exact absurd (h.1 b mem_cons_self) id

theorem acceptedCount_unsupplied (store : NonceStore) (ns : String) (nonces : Nonces) (calls : List Call) :
    acceptedCount store round ns (signed timestamp "") nonces calls =
      (calls.filter (fresh round (signed timestamp ""))).length := by
  induction calls generalizing nonces with
  | nil => rfl
  | cons call rest ih =>
    cases hfresh : fresh round (signed timestamp "") call with
    | false =>
      obtain ⟨hans, hkept⟩ := checkWebhookReplay_stale store ns hfresh nonces
      rw [acceptedCount_cons, hans, hkept, ih, filter_cons_of_neg (by simp [hfresh])]
      rfl
    | true =>
      rw [acceptedCount_cons, ih, filter_cons_of_pos hfresh]
      simp [checkWebhookReplay, hfresh]

/-- Of the calls with one timestamp and nonce at most one is accepted, exactly when of any two in the window the
later claims while the earlier's claim is alive. -/
theorem accepted_once_iff (store : NonceStore) (round : Rat → Rat) (ns nonce : String) (timestamp : Number)
    (nonces : Nonces) {calls : List Call} (hclock : calls.Pairwise fun a b => a.claimedAt ≤ b.claimedAt) :
    acceptedCount store round ns (signed timestamp nonce) nonces calls ≤ 1 ↔
      (calls.filter (fresh round (signed timestamp nonce))).Pairwise fun a b =>
        nonce ≠ "" ∧ Covers store (nonces (deriveNonceKey ns nonce)) a b := by
  by_cases hnonce : nonce = ""
  · subst hnonce
    rw [acceptedCount_unsupplied]
    rw [length_le_one_iff]
    simp
  · rw [acceptedCount_eq_claims hnonce, claims_le_one_iff (hclock.filter _)]
    simp [hnonce]

end

/-! ### A webhook sent at the second 1700000000, received at both ends of its window -/

/-- The first moment at which the timestamp passes. -/
def opened : Call := ⟨1699999700000, 1699999700000⟩

/-- The last moment at which the timestamp passes. -/
def closing : Call := ⟨1700000300000, 1700000300000⟩

/-- The clock reads whole seconds here, so no rounding takes place. -/
theorem accepted_once_iff_opened :
    acceptedCount inMemory id "carrier" (signed (.finite 1700000000) "nonce") (fun _ => none) [opened, opened] ≤ 1 := by
  have hclock : [opened, opened].Pairwise fun a b => a.claimedAt ≤ b.claimedAt := by decide
  refine (accepted_once_iff inMemory id "carrier" "nonce" (.finite 1700000000) (fun _ => none) hclock).mpr ?_
  have hfresh : fresh id (signed (.finite 1700000000) "nonce") opened = true := by decide +kernel
  simp only [filter_cons, hfresh, if_true, filter_nil]
  refine pairwise_pair.mpr ⟨by decide, fun _ => by decide⟩

/-- Both ends belong to the window, and the claim made at the first has lapsed at the last. -/
theorem accepted_twice_at_ends : opened.claimedAt ≤ closing.claimedAt ∧
      answers inMemory id "carrier" (signed (.finite 1700000000) "nonce") (fun _ => none) [opened, closing] =
        [⟨true, none, none⟩, ⟨true, none, none⟩] ∧
      ¬ acceptedCount inMemory id "carrier" (signed (.finite 1700000000) "nonce") (fun _ => none)
        [opened, closing] ≤ 1 := by
  refine ⟨by decide, by decide +kernel, by decide +kernel⟩

end Delego.Webhooks
