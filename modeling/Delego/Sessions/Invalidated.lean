import Delego.Data.Base64
import Delego.Data.Calendar
import Delego.Data.Json
import Delego.Process.Returned
import Delego.Redis.Keyspace

/-! Sessions in Redis (`utils/src/session/redisSessionStore.ts`).

A session is stored under its id, and its id in an index of the user; both expire. A read that slides the
expiry writes the session back as it was read. Each command is one step, and so is what the server asks of
its clock and of the generator of ids; a command may fail, with nothing done or with its answer lost. -/
namespace Delego.Sessions
open Delego.Data Delego.Process Delego.Redis List

structure Session where
  (id userId : String)
  data : Json
  (createdAt lastAccessedAt expiresAt ipAddress userAgent deviceFingerprint : String)
  isElevated : Bool
  rotatedFrom : Option String

/-- Whole seconds, as Redis takes them, and a whole number of sessions. -/
structure SessionConfig where
  ttlSeconds : Int
  slidingTtl : Bool
  maxConcurrentSessions : Int

structure CreateSessionInput where
  (userId ipAddress userAgent deviceFingerprint : String)
  data : Option Json
  isElevated : Option Bool

def DEFAULT_CONFIG : SessionConfig where
  ttlSeconds := 60 * 60 * 24
  slidingTtl := true
  maxConcurrentSessions := 5

def sessionKey (id : String) : String := "session:" ++ id
def userSessionsKey (userId : String) : String := "session:user:" ++ userId

abbrev Store := Keyspace Session

inductive Op where
  | get (key : String)
  | set (key : String) (session : Session) (seconds : Int)
  | del (keys : List String)
  | sadd (key : String) (members : List String)
  | srem (key : String) (members : List String)
  | smembers (key : String)
  | expire (key : String) (seconds : Int)
  | now
  | randomBytes (n : Nat)
  /-- The caller of `get` is given the session. -/
  | given (session : Session)

@[reducible] def Op.Reply : Op → Type
  | .get _ => Option Session
  | .set _ _ _ => Unit
  | .del _ => Nat
  | .sadd _ _ => Nat
  | .srem _ _ => Nat
  | .smembers _ => List String
  | .expire _ _ => Nat
  | .now => Instant
  | .randomBytes _ => List UInt8
  | .given _ => Unit

@[reducible] def redisSignature : Signature := ⟨Op, Op.Reply, String⟩

abbrev SessionM (α : Type) := Program redisSignature α

def redis (o : Op) : SessionM o.Reply := Program.perform (S := redisSignature) o

/-- How a command ends and in which order members are listed; the server's time, and bytes that are random. -/
structure Choice where
  fate : Fate
  order : List String
  now : Instant
  bytes : Nat → UInt8

def attempted {α : Type} (result : Except String α × Store) : Except String (α × Store) :=
  result.1.map fun a => (a, result.2)

def answer : (o : Op) → Choice → Store → Except String (o.Reply × Store)
  | .get key, _, store => (store.get key).map fun session => (session, store)
  | .set key session seconds, _, store => attempted (store.setEx key session seconds)
  | .del keys, _, store => .ok (store.del keys)
  | .sadd key members, _, store => attempted (store.sadd key members)
  | .srem key members, _, store => attempted (store.srem key members)
  | .smembers key, ch, store => (store.smembers key).map fun members => (inOrder ch.order members, store)
  | .expire key seconds, _, store => attempted (store.expire key seconds)
  | .now, ch, store => .ok (ch.now, store)
  | .randomBytes n, ch, store => .ok ((range n).map ch.bytes, store)
  | .given _, _, store => .ok ((), store)

def Op.fate : Op → Choice → Fate
  | .now, _ => .done
  | .randomBytes _, _ => .done
  | .given _, _ => .done
  | _, ch => ch.fate

def perform (o : Op) (ch : Choice) (store : Store) : Except String o.Reply × Store :=
  (o.fate ch).deliver (answer o ch store) store

def generateSessionId : SessionM String := do
  let bytes ← redis (.randomBytes 32)
  return toBase64url bytes

/-- A date as a text, which throws where it is none. -/
def isoText (date : Date) : SessionM String :=
  match toISOString date with
  | .ok text => pure text
  | .error message => .fail message

def invalidate (id : String) : SessionM Unit := do
  let raw ← redis (.get (sessionKey id))
  let _ ← redis (.del [sessionKey id])
  match raw with
  | some session => do
    let _ ← redis (.srem (userSessionsKey session.userId) [id])
  | none => pure ()

def readSessions : List String → SessionM (List Session)
  | [] => pure []
  | id :: ids => do
    let raw ← redis (.get (sessionKey id))
    let sessions ← readSessions ids
    return raw.toList ++ sessions

def listActiveForUser (userId : String) : SessionM (List Session) := do
  let ids ← redis (.smembers (userSessionsKey userId))
  readSessions ids

/-- The session whose date of creation comes first. -/
def oldest (sessions : List Session) : Option Session :=
  (sessions.mergeSort fun a b => decide (a.createdAt ≤ b.createdAt)).head?

def enforceConcurrentLimit (config : SessionConfig) (userId : String) : SessionM Unit := do
  let ids ← redis (.smembers (userSessionsKey userId))
  if ids.length < config.maxConcurrentSessions then return
  let sessions ← listActiveForUser userId
  match oldest sessions with
  | some session => invalidate session.id
  | none => pure ()

def create (config : SessionConfig) (input : CreateSessionInput) : SessionM Session := do
  enforceConcurrentLimit config input.userId
  let now ← redis .now
  let id ← generateSessionId
  let createdAt ← isoText (some now)
  let expiresAt ← isoText (newDate (now.val + config.ttlSeconds * 1000))
  let session : Session :=
    { id, userId := input.userId, data := input.data.getD (.object []), createdAt, lastAccessedAt := createdAt, expiresAt,
      ipAddress := input.ipAddress, userAgent := input.userAgent, deviceFingerprint := input.deviceFingerprint,
      isElevated := input.isElevated.getD false, rotatedFrom := none }
  let _ ← redis (.set (sessionKey id) session config.ttlSeconds)
  let _ ← redis (.sadd (userSessionsKey input.userId) [id])
  let _ ← redis (.expire (userSessionsKey input.userId) config.ttlSeconds)
  return session

def get (config : SessionConfig) (id : String) : SessionM (Option Session) := do
  match ← redis (.get (sessionKey id)) with
  | none => return none
  | some session =>
    if config.slidingTtl then
      let now ← redis .now
      let lastAccessedAt ← isoText (some now)
      let later ← redis .now
      let expiresAt ← isoText (newDate (later.val + config.ttlSeconds * 1000))
      let session := { session with lastAccessedAt, expiresAt }
      let _ ← redis (.set (sessionKey id) session config.ttlSeconds)
      return some session
    else return some session

def rotate (config : SessionConfig) (oldId : String) : SessionM (Option Session) := do
  match ← redis (.get (sessionKey oldId)) with
  | none => return none
  | some old =>
    let now ← redis .now
    let id ← generateSessionId
    let lastAccessedAt ← isoText (some now)
    let expiresAt ← isoText (newDate (now.val + config.ttlSeconds * 1000))
    let rotated := { old with id, isElevated := true, lastAccessedAt, expiresAt, rotatedFrom := some oldId }
    let _ ← redis (.set (sessionKey rotated.id) rotated config.ttlSeconds)
    let _ ← redis (.sadd (userSessionsKey rotated.userId) [rotated.id])
    invalidate oldId
    return some rotated

def invalidateAllForUser (userId : String) : SessionM Nat := do
  let ids ← redis (.smembers (userSessionsKey userId))
  if ids.length = 0 then return 0
  let _ ← redis (.del (ids.map sessionKey))
  let _ ← redis (.del [userSessionsKey userId])
  return ids.length

inductive Call where
  | create (input : CreateSessionInput)
  | get (id : String)
  | rotate (oldId : String)
  | invalidate (id : String)
  | invalidateAllForUser (userId : String)
  | listActiveForUser (userId : String)

def Call.body (config : SessionConfig) : Call → SessionM Unit
  | .create input => do
    let _ ← Sessions.create config input
  | .get id => do
    match ← Sessions.get config id with
    | some session => redis (.given session)
    | none => pure ()
  | .rotate oldId => do
    let _ ← Sessions.rotate config oldId
  | .invalidate id => Sessions.invalidate id
  | .invalidateAllForUser userId => do
    let _ ← Sessions.invalidateAllForUser userId
  | .listActiveForUser userId => do
    let _ ← Sessions.listActiveForUser userId

/-- Calls come at any time, and the clock moves on between commands. -/
def system (config : SessionConfig) : System redisSignature Store where
  Choice := Choice
  Event := Nat
  Call := Call
  perform := perform
  drift := fun ms store => store.advance ms
  arrive := fun _ store => some store
  body := Call.body config

/-! ### What an invalidation leaves of a session

A session that is gone stays gone as long as one is written only while a session of its user is stored under
the id, or under an id that no command has named (`Gone.run`); and an index that has every session of its
user lets none of them escape. -/

abbrev SessionPool := Pool redisSignature Store

/-- The command reads, writes or deletes the key. -/
def Names (key : String) : Op → Prop
  | .get other => other = key
  | .set other _ _ => other = key
  | .del keys => key ∈ keys
  | _ => False

instance (key : String) (o : Op) : Decidable (Names key o) :=
  match o with
  | .get other => inferInstanceAs (Decidable (other = key))
  | .set other _ _ => inferInstanceAs (Decidable (other = key))
  | .del keys => inferInstanceAs (Decidable (key ∈ keys))
  | .sadd _ _ => .isFalse id
  | .srem _ _ => .isFalse id
  | .smembers _ => .isFalse id
  | .expire _ _ => .isFalse id
  | .now => .isFalse id
  | .randomBytes _ => .isFalse id
  | .given _ => .isFalse id

/-- A session is written while one of its user is stored under the key, or where no command has named the key. -/
def Meets (p : SessionPool) : Op → Prop
  | .set key session _ => (∃ found deadline, p.world.live key = some ⟨.text found, deadline⟩ ∧ found.userId = session.userId) ∨
      ∀ e ∈ p.trace, ¬Names key e.op
  | _ => True

def Indexed (w : Store) (userId : String) : Prop :=
  ∀ key session deadline, w.live key = some ⟨.text session, deadline⟩ → session.userId = userId →
    ∃ id ∈ w.members (userSessionsKey userId), key = sessionKey id

def Orderly (config : SessionConfig) (p : SessionPool) : Action (system config) → Prop
  | .step i _ => (∀ o, p.pending i = some o → Meets p o) ∧
      ∀ userId, p.runners[i]? = some (Call.body config (.invalidateAllForUser userId)) → Indexed p.world userId
  | _ => True

theorem orderly_call (config : SessionConfig) (p : SessionPool) (c : Call) : Orderly config p (.call c) := trivial

section
variable {w w' : Store} {o : Op} {ch : Choice}

theorem perform_ok {a : o.Reply} (h : perform o ch w = (.ok a, w')) : answer o ch w = .ok (a, w') := by
  unfold perform at h
  rcases Fate.deliver_cases (o.fate ch) (answer o ch w) w with
    ⟨message, hd⟩ | ⟨b, w'', hans, hd | ⟨message, hd⟩⟩
  · simp [hd] at h
  · rw [hd] at h
    cases h
    exact hans
  · simp [hd] at h

theorem attempted_ok {α : Type} {result : Except String α × Store} {a : α} (h : attempted result = .ok (a, w')) :
    result = (.ok a, w') := by
  obtain ⟨outcome, store⟩ := result
  cases outcome with
  | error message => cases h
  | ok b =>
    cases h
    rfl

theorem read_only {α β : Type} {found : Except String α} {f : α → β} {b : β}
    (h : (found.map fun value => (f value, w)) = .ok (b, w')) : w' = w := by
  cases found with
  | error message => cases h
  | ok value =>
    cases h
    rfl

variable {session : Session}

theorem stored_before {key : String} {deadline : Option Nat}
    (h : (perform o ch w).2.live key = some ⟨.text session, deadline⟩) :
    (∃ before, w.live key = some ⟨.text session, before⟩) ∨ ∃ seconds, o = .set key session seconds := by
  refine Fate.deliver_kept (P := fun store : Store => store.live key = some ⟨.text session, deadline⟩ →
    (∃ before, w.live key = some ⟨.text session, before⟩) ∨ ∃ seconds, o = .set key session seconds)
    (fun hlive => .inl ⟨deadline, hlive⟩) (fun a store hans hlive => ?_) h
  cases o with
  | get other =>
    rw [read_only hans] at hlive
    exact .inl ⟨deadline, hlive⟩
  | smembers other =>
    rw [read_only hans] at hlive
    exact .inl ⟨deadline, hlive⟩
  | now =>
    cases hans
    exact .inl ⟨deadline, hlive⟩
  | randomBytes n =>
    cases hans
    exact .inl ⟨deadline, hlive⟩
  | given session' =>
    cases hans
    exact .inl ⟨deadline, hlive⟩
  | del keys =>
    have hres : store = (w.del keys).2 := congrArg Prod.snd (Except.ok.inj hans).symm
    rw [hres, Keyspace.live_del] at hlive
    split at hlive
    · cases hlive
    · exact .inl ⟨deadline, hlive⟩
  | sadd other members =>
    have hres : store = (w.sadd other members).2 := congrArg Prod.snd (attempted_ok hans).symm
    rw [hres] at hlive
    exact .inl ⟨deadline, Keyspace.text_of_sadd hlive⟩
  | srem other members =>
    have hres : store = (w.srem other members).2 := congrArg Prod.snd (attempted_ok hans).symm
    rw [hres] at hlive
    exact .inl ⟨deadline, Keyspace.text_of_srem hlive⟩
  | expire other seconds =>
    have hres : store = (w.expire other seconds).2 := congrArg Prod.snd (attempted_ok hans).symm
    rw [hres] at hlive
    exact .inl (Keyspace.text_of_expire hlive)
  | set other session' seconds =>
    have hres : store = (w.setEx other session' seconds).2 := congrArg Prod.snd (attempted_ok hans).symm
    rw [hres] at hlive
    unfold Keyspace.setEx at hlive
    split at hlive
    · exact .inl ⟨deadline, hlive⟩
    · rcases Keyspace.text_of_write hlive with hpre | ⟨rfl, hwrit⟩
      · exact .inl ⟨deadline, hpre⟩
      · cases hwrit
        exact .inr ⟨seconds, rfl⟩

end

/-- A command has named the id, and no session of the user is stored under it. -/
structure Gone (p : SessionPool) (userId id : String) : Prop where
  named : ∃ e ∈ p.trace, Names (sessionKey id) e.op
  stored : ∀ session deadline, p.world.live (sessionKey id) = some ⟨.text session, deadline⟩ → session.userId ≠ userId

variable {config : SessionConfig} {p q r : SessionPool} {userId id : String}

theorem Gone.step {a : Action (system config)} (h : Gone p userId id) (hord : Orderly config p a)
    (hstep : p.step (system config) a = some q) : Gone q userId id := by
  cases a with
  | call c =>
    cases hstep
    exact ⟨h.named, h.stored⟩
  | drift ms =>
    cases hstep
    exact ⟨h.named, fun session deadline hlive => h.stored session deadline (Keyspace.live_advance.mp hlive).1⟩
  | step i ch =>
    simp only [Pool.step] at hstep
    split at hstep
    · rename_i o next hprog
      cases hstep
      obtain ⟨e, he, hnames⟩ := h.named
      refine ⟨⟨e, mem_cons_of_mem _ he, hnames⟩, fun session deadline hlive => ?_⟩
      rcases stored_before hlive with ⟨before, hpre⟩ | ⟨seconds, rfl⟩
      · exact h.stored session before hpre
      · have hpend : p.pending i = some (.set (sessionKey id) session seconds) := by
          simp [Pool.pending, hprog, Program.pending]
        rcases hord.1 _ hpend with ⟨found, d, hfound, huser⟩ | hfresh
        · rw [← huser]
          exact h.stored found d hfound
        · exact absurd hnames (hfresh e he)
    · cases hstep

/-- **What is gone stays gone.** -/
theorem Gone.run (h : Gone p userId id) (hrun : Run (system config) (Orderly config) p q) : Gone q userId id := by
  induction hrun with
  | refl => exact h
  | step _ meets hstep ih => exact ih.step meets hstep

def Ends (id : String) : (o : Op) → redisSignature.Result o → Prop
  | .del keys, .ok _ => sessionKey id ∈ keys
  | .get key, .ok none => key = sessionKey id
  | _, _ => False

/-- A call that was made in `p` has returned in `q`. -/
def Returned (config : SessionConfig) (guard : SessionPool → Action (system config) → Prop) (p : SessionPool) (c : Call)
    (q : SessionPool) : Prop :=
  ∃ p', p.step (system config) (.call c) = some p' ∧ Run (system config) guard p' q ∧
    q.runners[p.runners.length]? = some (.ret ())

variable {c : Call}

theorem called_runner {p' : SessionPool} (h : p.step (system config) (.call c) = some p') :
    p'.world = p.world ∧ p'.trace = p.trace ∧ p'.runners[p.runners.length]? = some (c.body config) := by
  cases h
  exact ⟨rfl, rfl, getElem?_concat_length⟩

/-- A `get` of the id that starts after `q` has returned the session in `r`. -/
def ReadLater (config : SessionConfig) (guard : SessionPool → Action (system config) → Prop) (q : SessionPool) (id : String)
    (session : Session) (r : SessionPool) : Prop :=
  ∃ q₁ q', Run (system config) guard q q₁ ∧ q₁.step (system config) (.call (.get id)) = some q' ∧
    Run (system config) guard q' r ∧ ∃ e ∈ r.trace, e.runner = q₁.runners.length ∧ e.op = .given session

def Withholds (userId : String) : Op → Prop
  | .given session => session.userId ≠ userId
  | _ => True

theorem only_isoText {P : Op → Prop} (date : Date) : (isoText date).Only P := by
  unfold isoText
  cases toISOString date <;> trivial

theorem body_get (config : SessionConfig) (id userId : String) : ∃ next,
    Call.body config (.get id) = .call (.get (sessionKey id)) next ∧
      ∀ r, (∀ session, r = .ok (some session) → session.userId ≠ userId) → (next r).Only (Withholds userId) := by
  refine ⟨_, rfl, fun r hfound => ?_⟩
  match r with
  | .error message => trivial
  | .ok none => trivial
  | .ok (some session) =>
    have huser := hfound session rfl
    have hgiven : ∀ accessed expires, (redis (.given { session with lastAccessedAt := accessed, expiresAt := expires })).Only
        (Withholds userId) := fun _ _ => only_perform huser
    show Program.Only (Withholds userId) ((if config.slidingTtl then do
        let now ← redis .now
        let lastAccessedAt ← isoText (some now)
        let later ← redis .now
        let expiresAt ← isoText (newDate (later.val + config.ttlSeconds * 1000))
        let session := { session with lastAccessedAt, expiresAt }
        let _ ← redis (.set (sessionKey id) session config.ttlSeconds)
        return some session
      else return some session) >>= _)
    split
    · refine only_assoc (only_bind (only_perform trivial) fun now => ?_)
      refine only_assoc (only_bind (only_isoText _) fun accessed => ?_)
      refine only_assoc (only_bind (only_perform trivial) fun later => ?_)
      refine only_assoc (only_bind (only_isoText _) fun expires => ?_)
      exact only_assoc (only_bind (only_perform trivial) fun _ => hgiven accessed expires)
    · exact only_perform huser

theorem Gone.read {now : Nat} (hstart : Run (system config) (Orderly config) (Pool.start (.empty now)) q)
    (h : Gone q userId id) (hread : ReadLater config (Orderly config) q id session r) :
    session.userId ≠ userId := by
  obtain ⟨q₁, q', hlater, hcall, hrun, e, he, hrunner, hop⟩ := hread
  have hfresh : ∀ e ∈ q'.trace, e.runner ≠ q₁.runners.length := by
    intro e he
    rw [(called_runner hcall).2.1] at he
    have hlt := (hstart.trans hlater).performed e he
    omega
  have hgone : Gone q' userId id := (h.run hlater).step (orderly_call config q₁ _) hcall
  obtain ⟨next, hbody, honly⟩ := body_get config id userId
  have hstarted : q'.runners[q₁.runners.length]? = some (.call (.get (sessionKey id)) next) := by
    rw [(called_runner hcall).2.2, hbody]
  rcases hrun.taken hstarted with huntouched | ⟨m, ch, hm, huntouched, -, hrest⟩
  · exact absurd hrunner (hfresh e (huntouched.performed e he hrunner))
  · have hnext := Pool.after_runner (W := Store) (huntouched.program.trans hstarted) ch
    have hwithholds : (next (perform (.get (sessionKey id)) ch m.world).1).Only (Withholds userId) := by
      refine honly _ fun found hfound => ?_
      have hres : perform (.get (sessionKey id)) ch m.world =
          (.ok (some found), (perform (.get (sessionKey id)) ch m.world).2) := by
        rw [← hfound]
      have hans := perform_ok hres
      cases hget : m.world.get (sessionKey id) with
      | error message => simp [answer, hget, Except.map] at hans
      | ok stored =>
        simp only [answer, hget, Except.map, Except.ok.injEq, Prod.mk.injEq] at hans
        rw [hans.1] at hget
        obtain ⟨deadline, hlive⟩ := Keyspace.get_some hget
        exact (hgone.run hm).stored found deadline hlive
    rcases hrest.only hnext hwithholds e he hrunner with hpre | hallow
    · rcases mem_cons.mp hpre with rfl | hpre
      · cases hop
      · exact absurd hrunner (hfresh e (huntouched.performed e hpre hrunner))
    · rw [hop] at hallow
      exact hallow

def sample : SessionConfig where
  ttlSeconds := 60
  slidingTtl := true
  maxConcurrentSessions := 5

def sampleInput : CreateSessionInput where
  userId := "alice"
  ipAddress := "192.0.2.1"
  userAgent := "curl"
  deviceFingerprint := "fp-1"
  data := none
  isElevated := none

def go (i : Nat) : Action (system sample) := .step i ⟨.done, [], newYear, fun _ => 0⟩

def goes (i n : Nat) : List (Action (system sample)) := replicate n (go i)

def sampleId : String := toBase64url (replicate 32 0)

def created (p : SessionPool) : Bool := p.trace.any fun e => match e.op with
  | .set key session _ => decide (key = sessionKey sampleId ∧ session.userId = "alice")
  | _ => false

def carriedOut (_ : SessionPool) (_ : Nat) (_ : Op) (ch : Choice) : Bool := decide (ch.fate = .done)

end Delego.Sessions
