import Delego.Data.Text
import Delego.Process.Balance
import Delego.Process.Extend
import Delego.SessionKeys.Signer

/-! The budget of a session key.

A call reads the record, and later writes it back with its own amount added. Between the two another call may do the
same, and then one of the amounts is lost: both are signed, one is counted (`signed_beyond_limit`). -/
namespace Delego.SessionKeys
open Delego.Process Function

/-- The amount that a call on key `k` has answered to have signed. -/
def signedBy (cfg : Settings) (k : String) : Op → Int
  | .answer (.signed dto (.signed _ _)) =>
    if dto.sessionPublicKey = k then (cfg.bigInt dto.requestedAmountStroops).getD 0 else 0
  | _ => 0

/-- The sum of the amounts over the calls on key `k` that have returned success. -/
def signed (cfg : Settings) (k : String) : SessionTrace → Int
  | [] => 0
  | e :: tr => signedBy cfg k e.op + signed cfg k tr

/-- The record of key `k` is written. -/
def writes (k : String) : (o : Op) → sessionSignature.Result o → Bool
  | .setex key _ _, .ok _ => decide (key = k)
  | _, _ => false

def reads (k : String) : Op → Bool
  | .get key => decide (key = k)
  | _ => false

/-- The record of key `k` has been written since runner `i` read it. -/
def writtenSince (k : String) (i : Nat) : SessionTrace → Bool
  | [] => false
  | e :: tr =>
    if e.runner = i ∧ reads k e.op = true then false
    else writes k e.op e.result || writtenSince k i tr

/-- No record is written over one that was written since it was read, no write goes unanswered, and
the database takes the amount that was written. -/
def intact (k : String) (p : SessionPool) (i : Nat) (o : Op) (ch : Choice) : Bool :=
  match o with
  | .setex key _ _ => decide (key ≠ k) ||
    (!writtenSince k i p.trace && match ch.fate with
      | .lost _ => false
      | _ => true)
  | .updateSpent key _ => decide (key ≠ k) || decide (ch.fate = .done)
  | _ => true

def notCreating (k : String) : Call → Bool
  | .create _ publicKey _ _ => decide (publicKey ≠ k)
  | _ => true

/-- What a limit allows: nothing, if it is negative or no number. -/
def budget (cfg : Settings) (limit : String) : Int := max ((cfg.bigInt limit).getD 0) 0

/-! ### Phases of a call -/

/-- How far a call has come with the record of one key. -/
inductive Phase where
  | free
  | holding (record : SessionKeyRecord)
  /-- The record was written with so much more in it. -/
  | charged (amount : Int)

namespace Phase

def charge (record' : SessionKeyRecord) : Phase → Phase
  | .holding record => .charged (record'.spentAmountStroops - record.spentAmountStroops)
  | φ => φ

def next (k : String) (φ : Phase) : (o : Op) → sessionSignature.Result o → Phase
  | .get key, .ok raw => if key = k then raw.elim .free .holding else φ
  | .get key, .error _ => if key = k then .free else φ
  | .setex key _ record, .ok _ => if key = k then φ.charge record else φ
  | .answer _, _ => .free
  | _, _ => φ

def Charges (cfg : Settings) (φ : Phase) (record' : SessionKeyRecord) : Prop :=
  ∃ record amount limit, φ = .holding record ∧ cfg.bigInt record.spendingLimitStroops = some limit ∧
    0 < amount ∧ record.spentAmountStroops + amount ≤ limit ∧
    record' = { record with spentAmountStroops := record.spentAmountStroops + amount }

def Allows (cfg : Settings) (k : String) (φ : Phase) : Op → Prop
  | .get _ => ∀ amount, φ ≠ .charged amount
  | .setex key _ record => key = k → φ.Charges cfg record
  | .answer (.signed dto (.signed _ _)) => if dto.sessionPublicKey = k then
      ∃ amount, φ = .charged amount ∧ cfg.bigInt dto.requestedAmountStroops = some amount
    else ∀ amount, φ ≠ .charged amount
  | .answer _ => ∀ amount, φ ≠ .charged amount
  | _ => True

end Phase

def Answered (k : String) : (o : Op) → sessionSignature.Result o → Prop
  | .updateSpent key _, r => key = k → ∃ a, r = .ok a
  | o, r => o.local = true → ∃ a, r = .ok a

/-- A call in its phases with respect to key `k`. -/
def charging (cfg : Settings) (k : String) : Protocol sessionSignature Phase where
  Allowed := Phase.Allows cfg k
  Moves := fun φ o r φ' => Answered k o r ∧ φ' = φ.next k o r
  Ends := fun φ => ∀ amount, φ ≠ .charged amount

section
variable {cfg : Settings} {k : String} {φ : Phase}

def Phase.Uncharged (φ : Phase) : Prop := ∀ amount, φ ≠ .charged amount

theorem follows_op {o : Op} {Q : Except String o.Reply → Phase → Prop} (ha : φ.Allows cfg k o)
    (hm : ∀ r, Answered k o r → Q r (φ.next k o r)) : Follows (charging cfg k) φ (op o) Q := by
  apply follows_perform ha
  rintro r φ' ⟨hansd, rfl⟩
  exact hm r hansd

/-- What is no write of the record of key `k`, and no answer. -/
def Aside (k : String) : Op → Prop
  | .setex key _ _ => key ≠ k
  | .answer _ => False
  | _ => True

theorem Aside.allowed {o : Op} (h : Aside k o) (hφ : φ.Uncharged) : φ.Allows cfg k o := by
  cases o with
  | setex key ttl record => exact fun hkey => absurd hkey h
  | get key => exact hφ
  | answer a => exact absurd h id
  | _ => trivial

theorem Aside.next {o : Op} (h : Aside k o) (hφ : φ.Uncharged) (r : sessionSignature.Result o) :
    (φ.next k o r).Uncharged := by
  cases o with
  | get key =>
    cases r with
    | error message =>
      simp only [Phase.next]
      split
      · exact fun _ => Phase.noConfusion
      · exact hφ
    | ok raw =>
      simp only [Phase.next]
      split
      · cases raw with
        | none => exact fun _ => Phase.noConfusion
        | some record => exact fun _ => Phase.noConfusion
      · exact hφ
  | setex key ttl record =>
    cases r with
    | error message => exact hφ
    | ok _ =>
      simp only [Phase.next, if_neg h]
      exact hφ
  | answer a => exact fun _ => Phase.noConfusion
  | _ => exact hφ

variable {α : Type}

theorem follows_aside {p : SessionM α} (h : p.Only (Aside k)) (hφ : φ.Uncharged) :
    Follows (charging cfg k) φ p fun _ φ' => φ'.Uncharged := by
  refine follows_within h hφ ?_ ?_
  · intro φ o hφ ho
    exact ho.allowed hφ
  · rintro φ o r _ hφ ho ⟨-, rfl⟩
    exact ho.next hφ r

/-! ### Calls other than `signWithSessionKey` -/

theorem only_onCache {node : Node} {o : Nat → SessionM Unit} (h : ∀ node, (o node).Only (Aside k)) :
    (onCache node o).Only (Aside k) := by
  cases node with
  | none => trivial
  | some node => exact h node

theorem only_revokeSessionKey (node : Node) (key : String) : (revokeSessionKey node key).Only (Aside k) := by
  refine only_bind (only_perform trivial) fun _ => only_bind (only_perform trivial) fun _ => only_onCache ?_
  intro node
  exact only_bind (only_perform trivial) fun _ => only_bind (only_attempt (only_perform trivial)) fun _ => trivial

theorem only_createSessionKey {userId publicKey encryptedPrivateKey : String} {policy : SessionKeyPolicy}
    (h : publicKey ≠ k) : (createSessionKey userId publicKey encryptedPrivateKey policy).Only (Aside k) := by
  refine only_bind (only_perform trivial) fun _ => only_bind (only_perform trivial) fun _ => ?_
  exact only_bind (only_perform h) fun _ => only_bind (only_perform trivial) fun _ => trivial

theorem only_examine (userIds : List String) (walletAddress : String) (keys : List String)
    (sessions : List (String × String)) : (examine userIds walletAddress keys sessions).Only (Aside k) := by
  induction keys generalizing sessions with
  | nil => trivial
  | cons key keys ih => exact only_bind (only_perform trivial) fun _ => ih _

theorem only_findSessions (userIds : List String) (walletAddress : String) (rounds cursor : Nat)
    (sessions : List (String × String)) :
    (findSessions userIds walletAddress rounds cursor sessions).Only (Aside k) := by
  induction rounds generalizing cursor sessions with
  | zero => trivial
  | succ rounds ih =>
    refine only_bind (only_perform trivial) fun scanned => only_bind (only_examine _ _ _ _) fun sessions => ?_
    split
    · trivial
    · exact ih _ _

theorem only_deleteBatches (keys : List (List String)) : (deleteBatches keys).Only (Aside k) := by
  induction keys with
  | nil => trivial
  | cons batch rest ih => exact only_bind (only_perform trivial) fun _ => ih

theorem only_assertAuthorized (token : Option String) : (assertAuthorized cfg token).Only (Aside k) := by
  unfold assertAuthorized
  split
  · trivial
  · split
    · trivial
    · split <;> trivial

theorem only_execute (dto : EmergencyRevocationDTO) (rounds : Nat) : (execute cfg dto rounds).Only (Aside k) := by
  unfold execute
  split
  · trivial
  · refine only_bind (only_assertAuthorized _) fun _ => only_bind (only_perform trivial) fun _ => ?_
    refine only_bind (only_perform trivial) fun userIds => only_bind (only_findSessions _ _ _ _ _) fun found => ?_
    cases found with
    | none => trivial
    | some sessions =>
      refine only_bind (only_deleteBatches _) fun _ => only_bind ?_ fun _ => trivial
      unfold revokeOnChain
      split
      · exact only_perform trivial
      · trivial

/-! ### A call of `signWithSessionKey` -/

def Charged (cfg : Settings) (k : String) (dto : SignWithSessionKeyDTO) : Except String SignResult → Phase → Prop
  | .ok (.signed _ _), φ => if dto.sessionPublicKey = k then
      ∃ amount, φ = .charged amount ∧ cfg.bigInt dto.requestedAmountStroops = some amount
    else φ.Uncharged
  | _, φ => φ.Uncharged

variable {dto : SignWithSessionKeyDTO} {record : SessionKeyRecord} {now amount limit : Int}

theorem follows_signAndCharge (hφ : φ.Uncharged) (hread : dto.sessionPublicKey = k → φ = .holding record)
    (hrequested : cfg.bigInt dto.requestedAmountStroops = some amount)
    (hlimit : cfg.bigInt record.spendingLimitStroops = some limit) (hpos : 0 < amount)
    (hwithin : record.spentAmountStroops + amount ≤ limit) :
    Follows (charging cfg k) φ (signAndCharge dto record now amount limit) (Charged cfg k dto) := by
  refine follows_bind (follows_op trivial (forall_except (fun _ _ => hφ) fun _ _ => ?_))
  simp only [Then]
  split
  · exact hφ
  · apply follows_bind
    refine follows_op ?_ ?_
    · intro hkey
      exact ⟨record, amount, limit, hread hkey, hlimit, hpos, hwithin, rfl⟩
    · intro r _
      cases r with
      | error message => exact hφ
      | ok _ =>
        apply follows_bind
        refine follows_op trivial ?_
        intro r hansd
        by_cases hkey : dto.sessionPublicKey = k
        · obtain ⟨a, rfl⟩ := hansd hkey
          refine (if_pos hkey).mpr ⟨amount, ?_, hrequested⟩
          simp only [Phase.next, if_pos hkey, hread hkey, Phase.charge, add_sub_cancel_left]
        · have hkept : (φ.next k (.setex dto.sessionPublicKey (record.expiresAt - now)
              { record with spentAmountStroops := record.spentAmountStroops + amount }) (.ok ())).Uncharged := by
            simp only [Phase.next, if_neg hkey]
            exact hφ
          cases r with
          | error message => exact hkept
          | ok _ => exact (if_neg hkey).mpr hkept

theorem follows_parse {text : String} {f : Int → SessionM α} {Q : Except String α → Phase → Prop}
    (herror : ∀ message, Q (.error message) φ)
    (hf : ∀ value, cfg.bigInt text = some value → Follows (charging cfg k) φ (f value) Q) :
    Follows (charging cfg k) φ (parse cfg text >>= f) Q := by
  unfold parse
  cases hvalue : cfg.bigInt text with
  | none => exact herror _
  | some value => exact hf value hvalue

theorem follows_checkAndSign (hφ : φ.Uncharged) (hread : dto.sessionPublicKey = k → φ = .holding record) :
    Follows (charging cfg k) φ (checkAndSign cfg dto record now) (Charged cfg k dto) := by
  refine follows_parse (fun _ => hφ) ?_
  intro amount hrequested
  split
  · exact hφ
  · rename_i hpos
    refine follows_parse (fun _ => hφ) ?_
    intro maxPerCall _
    split
    · exact hφ
    · refine follows_parse (fun _ => hφ) ?_
      intro limit hlimit
      simp only
      split
      · exact hφ
      · rename_i hrem
        split
        · exact hφ
        · split
          · exact hφ
          · exact follows_signAndCharge hφ hread hrequested hlimit (by omega) (by omega)

def Caches : Op → Prop
  | .cacheGet _ _ => True
  | .cacheSet _ _ => True
  | .cacheDelete _ _ => True
  | .markRevoked _ _ => True
  | _ => False

theorem follows_onCache {node : Node} {o : Nat → SessionM Unit} (h : ∀ node, (o node).Only Caches) :
    Follows (charging cfg k) φ (onCache node o) fun _ φ' => φ' = φ := by
  have honly : (onCache node o).Only Caches := by
    cases node with
    | none => trivial
    | some node => exact h node
  refine follows_of_only honly ?_ ?_
  · intro o ho
    cases o with
    | cacheGet | cacheSet | cacheDelete | markRevoked => trivial
    | _ => exact absurd ho id
  · rintro o r _ ho ⟨-, rfl⟩
    cases o with
    | cacheGet | cacheSet | cacheDelete | markRevoked => rfl
    | _ => exact absurd ho id

theorem follows_loadAndSign (node : Node) (hφ : φ.Uncharged) :
    Follows (charging cfg k) φ (loadAndSign cfg node dto) (Charged cfg k dto) := by
  apply follows_bind
  refine follows_op hφ ?_
  intro r _
  have hnext : (φ.next k (.get dto.sessionPublicKey) r).Uncharged :=
    Aside.next (o := .get dto.sessionPublicKey) trivial hφ r
  cases r with
  | error message => exact hnext
  | ok raw =>
    cases raw with
    | none =>
      refine follows_bind (follows_mono (follows_onCache fun _ => only_perform trivial) ?_)
      rintro r _ rfl
      cases r with
      | error message => exact hnext
      | ok _ => exact hnext
    | some record =>
      have hread : dto.sessionPublicKey = k → φ.next k (.get dto.sessionPublicKey) (.ok (some record)) =
          .holding record := by
        intro hkey
        simp only [Phase.next, if_pos hkey]
        rfl
      refine follows_bind (follows_mono (follows_onCache fun _ => only_perform trivial) ?_)
      rintro r _ rfl
      cases r with
      | error message => exact hnext
      | ok _ =>
        apply follows_bind
        refine follows_op trivial ?_
        intro r hansd
        obtain ⟨now, rfl⟩ := hansd rfl
        simp only [Then]
        split
        · exact follows_bind (follows_op trivial (forall_except (fun _ _ => hnext) fun _ _ => hnext))
        · exact follows_checkAndSign hnext hread

theorem follows_signWithSessionKey (node : Node) (hφ : φ.Uncharged) :
    Follows (charging cfg k) φ (signWithSessionKey cfg node dto) (Charged cfg k dto) := by
  have hcached : (if isHighValueAmount cfg dto.requestedAmountStroops then .ret false
      else cachedRevoked node dto.sessionPublicKey : SessionM Bool).Only (Aside k) := by
    split
    · trivial
    · cases node with
      | none => trivial
      | some node => exact only_bind (only_perform trivial) fun _ => trivial
  refine follows_bind (follows_mono (follows_aside hcached hφ) (forall_except (fun _ _ hφ' => hφ') fun _ _ hφ' => ?_))
  simp only [Then]
  split
  · exact hφ'
  · exact follows_loadAndSign node hφ'

theorem follows_answer {p : SessionM α} {a : α → Answer} (h : p.Only (Aside k)) (hφ : φ.Uncharged)
    (hother : ∀ x, ∀ ψ : Phase, ψ.Allows cfg k (.answer (a x)) = ψ.Uncharged) :
    Follows (charging cfg k) φ (p >>= fun x => op (.answer (a x))) fun _ φ' => φ'.Uncharged := by
  refine follows_bind (follows_mono (follows_aside h hφ) (forall_except (fun _ _ hφ' => hφ') fun _ _ hφ' => ?_))
  refine follows_op ?_ fun _ _ _ => Phase.noConfusion
  rw [hother]
  exact hφ'

theorem follows_body (call : Call) (h : notCreating k call = true) :
    Follows (charging cfg k) .free (call.body cfg) fun _ φ => φ.Uncharged := by
  have hfree : Phase.free.Uncharged := fun _ => Phase.noConfusion
  cases call with
  | sign node dto =>
    refine follows_bind (follows_mono (follows_signWithSessionKey node hfree)
      (forall_except (fun _ _ hchg => hchg) fun result _ hchg => ?_))
    refine follows_op ?_ fun _ _ _ => Phase.noConfusion
    cases result with
    | signed signedTxXdr remaining => exact hchg
    | denied error => exact hchg
  | revoke node key => exact follows_answer (only_revokeSessionKey node key) hfree fun _ _ => rfl
  | execute dto rounds =>
    refine follows_bind (follows_mono (follows_aside (only_execute dto rounds) hfree)
      (forall_except (fun _ _ hφ => hφ) fun result _ hφ => ?_))
    cases result with
    | none => exact hφ
    | some result => exact follows_op hφ fun _ _ _ => Phase.noConfusion
  | create userId publicKey encryptedPrivateKey policy =>
    have hkey : publicKey ≠ k := of_decide_eq_true h
    exact follows_answer (only_createSessionKey hkey) hfree fun _ _ => rfl

end

/-! ### The books of a key -/

def Phase.worth : Phase → Int
  | .charged amount => amount
  | _ => 0

/-- `total` is in the record, and in what every call has read that may still write it. What was
added to it is signed, or still to be answered. -/
structure Books (cfg : Settings) (k limit : String) (total : Int) (w : World) (tr : SessionTrace)
    (φ : Nat → Phase) : Prop where
  stored : ∀ record, w.records.lookup k = some record →
    record.spendingLimitStroops = limit ∧ record.spentAmountStroops = total
  held : ∀ {i record}, φ i = .holding record → record.spendingLimitStroops = limit ∧
    (writtenSince k i tr = false → record.spentAmountStroops = total)
  charged : ∀ {i amount}, φ i = .charged amount → 0 < amount
  balance : Balance Phase.worth φ (total - signed cfg k tr)
  within : total ≤ budget cfg limit

section
variable {cfg : Settings} {k limit : String} {total : Int} {w w' : World} {tr : SessionTrace} {φ : Nat → Phase}
  {i : Nat} {o : Op} {r : sessionSignature.Result o}

theorem writtenSince_cons (h : writes k o r = false) (j : Nat)
    (hsince : writtenSince k j (⟨i, o, r⟩ :: tr) = false) (hread : ¬ (i = j ∧ reads k o = true)) :
    writtenSince k j tr = false := by
  rw [writtenSince, if_neg hread, h, Bool.false_or] at hsince
  exact hsince

/-- A step that writes no record of `k`: the caller keeps what it holds, gives up what it
held, or has read the record. -/
theorem Books.unwritten (h : Books cfg k limit total w tr φ) {φ' : Phase} (hwr : writes k o r = false)
    (hrecs : w'.records.lookup k = w.records.lookup k ∨ w'.records.lookup k = none)
    (hheld : ∀ record, φ' = .holding record → (φ i = .holding record ∧ reads k o = false) ∨
      w.records.lookup k = some record)
    (hworth : φ'.worth = (φ i).worth - signedBy cfg k o) (hchg : ∀ amount, φ' = .charged amount → 0 < amount) :
    Books cfg k limit total w' (⟨i, o, r⟩ :: tr) (update φ i φ') := by
  refine ⟨?_, ?_, ?_, ?_, h.within⟩
  · intro record hrec
    rcases hrecs with heq | hnone
    · exact h.stored record (heq ▸ hrec)
    · simp [hnone] at hrec
  · intro j record hj
    by_cases hji : j = i
    · subst hji
      rw [update_self] at hj
      rcases hheld record hj with ⟨hpre, hreads⟩ | hread
      · refine ⟨(h.held hpre).1, fun hsince => (h.held hpre).2 (writtenSince_cons hwr j hsince ?_)⟩
        simp [hreads]
      · exact ⟨(h.stored record hread).1, fun _ => (h.stored record hread).2⟩
    · rw [update_of_ne hji] at hj
      refine ⟨(h.held hj).1, fun hsince => (h.held hj).2 (writtenSince_cons hwr j hsince ?_)⟩
      exact fun hcontra => hji hcontra.1.symm
  · intro j amount hj
    by_cases hji : j = i
    · subst hji
      rw [update_self] at hj
      exact hchg amount hj
    · rw [update_of_ne hji] at hj
      exact h.charged hj
  · have hbal := h.balance.update i φ'
    have htotal : total - signed cfg k tr - (φ i).worth + φ'.worth =
        total - signed cfg k (⟨i, o, r⟩ :: tr) := by
      simp only [signed]
      omega
    rw [htotal] at hbal
    exact hbal

theorem Books.write (h : Books cfg k limit total w tr φ) {ttl : Int} {record' : SessionKeyRecord}
    (hcharges : (φ i).Charges cfg record') (hsince : writtenSince k i tr = false)
    (hrec : w'.records.lookup k = some record') :
    Books cfg k limit record'.spentAmountStroops w' (⟨i, .setex k ttl record', .ok ()⟩ :: tr)
      (update φ i ((φ i).charge record')) := by
  obtain ⟨record, amount, allowed, hi, hlimit, hpos, hwithin, rfl⟩ := hcharges
  obtain ⟨hlimits, hspent⟩ := h.held hi
  have htotal := hspent hsince
  rw [hi]
  simp only [Phase.charge, add_sub_cancel_left]
  refine ⟨?_, ?_, ?_, ?_, ?_⟩
  · intro stored hstore
    rw [hrec] at hstore
    cases hstore
    exact ⟨hlimits, rfl⟩
  · intro j held hj
    have hji : j ≠ i := by
      rintro rfl
      simp [update_self] at hj
    rw [update_of_ne hji] at hj
    refine ⟨(h.held hj).1, ?_⟩
    intro hunwritten
    simp [writtenSince, writes, reads] at hunwritten
  · intro j charged hj
    by_cases hji : j = i
    · subst hji
      rw [update_self] at hj
      cases hj
      exact hpos
    · rw [update_of_ne hji] at hj
      exact h.charged hj
  · have hbal := h.balance.update i (.charged amount)
    rw [hi] at hbal
    simp only [Phase.worth] at hbal
    have hsum : total - signed cfg k tr - 0 + amount = record.spentAmountStroops + amount -
        signed cfg k (⟨i, .setex k ttl { record with spentAmountStroops := record.spentAmountStroops + amount },
          .ok ()⟩ :: tr) := by
      simp only [signed, signedBy]
      omega
    rw [hsum] at hbal
    exact hbal
  · rw [← hlimits]
    simp only [budget, hlimit, Option.getD_some]
    omega

theorem worth_of_uncharged {φ : Phase} (h : φ.Uncharged) : φ.worth = 0 := by
  cases φ with
  | charged amount => exact absurd rfl (h amount)
  | _ => rfl

theorem worth_next {φ : Phase} (ha : φ.Allows cfg k o) (hset : ∀ ttl record, o ≠ .setex k ttl record) :
    (φ.next k o r).worth = φ.worth - signedBy cfg k o := by
  cases o with
  | get key =>
    rw [worth_of_uncharged (Aside.next (o := .get key) trivial ha r), worth_of_uncharged ha]
    rfl
  | setex key ttl record =>
    have hkey : key ≠ k := by
      rintro rfl
      exact hset ttl record rfl
    cases r with
    | error message => simp [Phase.next, signedBy]
    | ok _ => simp [Phase.next, signedBy, hkey]
  | answer a =>
    cases a with
    | signed dto result =>
      cases result with
      | denied error =>
        rw [worth_of_uncharged ha]
        rfl
      | signed signedTxXdr remaining =>
        simp only [Phase.Allows] at ha
        split at ha
        · rename_i hkey
          obtain ⟨amount, rfl, hamount⟩ := ha
          simp [Phase.next, signedBy, hkey, hamount, Phase.worth]
        · rename_i hkey
          rw [worth_of_uncharged ha]
          simp [Phase.next, signedBy, hkey, Phase.worth]
    | _ =>
      rw [worth_of_uncharged ha]
      rfl
  | _ => simp [Phase.next, signedBy]

theorem holding_next {φ : Phase} {record : SessionKeyRecord} {ch : Choice}
    (hset : ∀ ttl record, o ≠ .setex k ttl record)
    (h : φ.next k o (perform cfg o ch w).1 = .holding record) :
    (φ = .holding record ∧ reads k o = false) ∨ w.records.lookup k = some record := by
  cases o with
  | get key =>
    by_cases hkey : key = k
    · subst hkey
      right
      cases hfate : ch.fate with
      | done =>
        simp [perform, Op.refused, Op.local, hfate, Fate.carry, answer, Phase.next] at h
        cases hlook : w.records.lookup key with
        | none =>
          simp [hlook] at h
        | some stored =>
          rw [hlook] at h
          cases h
          rfl
      | refused message => simp [perform, Op.refused, Op.local, hfate, Fate.carry, Phase.next] at h
      | lost message => simp [perform, Op.refused, Op.local, hfate, Fate.carry, Phase.next] at h
    · left
      refine ⟨?_, by simp [reads, hkey]⟩
      cases hr : (perform cfg (.get key) ch w).1 with
      | ok raw => simpa [hr, Phase.next, hkey] using h
      | error message => simpa [hr, Phase.next, hkey] using h
  | setex key ttl record' =>
    have hkey : key ≠ k := by
      rintro rfl
      exact hset ttl record' rfl
    left
    refine ⟨?_, rfl⟩
    cases hr : (perform cfg (.setex key ttl record') ch w).1 with
    | ok _ => simpa [hr, Phase.next, hkey] using h
    | error message => simpa [hr, Phase.next] using h
  | answer a => cases h
  | _ => exact .inl ⟨h, rfl⟩

theorem charged_next {φ : Phase} {amount : Int} (hset : ∀ ttl record, o ≠ .setex k ttl record)
    (h : φ.next k o r = .charged amount) : φ = .charged amount := by
  cases o with
  | get key =>
    cases r with
    | error message =>
      simp only [Phase.next] at h
      split at h
      · cases h
      · exact h
    | ok raw =>
      simp only [Phase.next] at h
      split at h
      · cases raw with
        | none => cases h
        | some record => cases h
      · exact h
  | setex key ttl record =>
    have hkey : key ≠ k := by
      rintro rfl
      exact hset ttl record rfl
    cases r with
    | error message => exact h
    | ok _ => simpa [Phase.next, hkey] using h
  | answer a => cases h
  | _ => exact h

theorem Books.step (h : Books cfg k limit total w tr φ) {ch : Choice} (ha : (φ i).Allows cfg k o)
    (hintact : ∀ ttl record, o = .setex k ttl record →
      writtenSince k i tr = false ∧ ∀ message, ch.fate ≠ .lost message) :
    ∃ total', Books cfg k limit total' (perform cfg o ch w).2 (⟨i, o, (perform cfg o ch w).1⟩ :: tr)
      (update φ i ((φ i).next k o (perform cfg o ch w).1)) := by
  by_cases hset : ∃ ttl record, o = .setex k ttl record
  · obtain ⟨ttl, record, rfl⟩ := hset
    obtain ⟨hsince, hlost⟩ := hintact ttl record rfl
    cases hr : (perform cfg (.setex k ttl record) ch w).1 with
    | ok a =>
      simp only [Phase.next, if_true]
      exact ⟨_, h.write (ha rfl) hsince (lookup_setex hr)⟩
    | error message =>
      refine ⟨total, h.unwritten rfl (.inl (lookup_setex_error hr hlost)) ?_ ?_ ?_⟩
      · exact fun record hheld => .inl ⟨hheld, rfl⟩
      · exact (sub_zero _).symm
      · exact fun amount hchg => h.charged hchg
  · have hset' : ∀ ttl record, o ≠ .setex k ttl record := fun ttl record ho => hset ⟨ttl, record, ho⟩
    refine ⟨total, h.unwritten ?_ (lookup_perform hset') ?_ (worth_next ha hset') ?_⟩
    · cases o with
      | setex key ttl record =>
        cases (perform cfg (.setex key ttl record) ch w).1 with
        | error message => rfl
        | ok _ =>
          refine decide_eq_false ?_
          rintro rfl
          exact hset' ttl record rfl
      | _ => rfl
    · exact fun record hheld => holding_next hset' hheld
    · intro amount hchg
      have hpre : φ i = .charged amount := charged_next hset' hchg
      exact h.charged hpre

end

section
variable (cfg : Settings) (k : String)

def undisturbed (p : SessionPool) (a : Action (system cfg)) : Bool := onStep (intact k) p a && onCall (notCreating k) a

theorem lookup_drift (e : Event) (w : World) :
    (drift e w).records.lookup k = w.records.lookup k ∨ (drift e w).records.lookup k = none := by
  cases e with
  | lapse key =>
    by_cases hkey : k = key
    · subst hkey
      exact .inr (AList.lookup_erase _ _)
    · exact .inl (AList.lookup_erase_ne hkey)
  | deliver node key time =>
    left
    simp only [drift]
    split <;> rfl

theorem books_inductive (limit : String) :
    Inductive (system cfg) (charging cfg k) .free (fun p a => undisturbed cfg k p a = true)
      fun w tr φ => ∃ total, Books cfg k limit total w tr φ where
  body := by
    intro p call hg
    rw [undisturbed, Bool.and_eq_true] at hg
    exact follows_body call hg.2
  arrive := by
    rintro p φ call w - ht ⟨⟩
    exact ht.holds
  drift := by
    intro p φ e _ ht
    obtain ⟨total, h⟩ := ht.holds
    refine ⟨total, ?_, h.held, h.charged, h.balance, h.within⟩
    intro record hrec
    rcases lookup_drift k e p.world with heq | hnone
    · exact h.stored record (heq.symm.trans hrec)
    · exact absurd (hnone.symm.trans hrec) nofun
  answers := by
    intro p φ i o ch hg hp _ _
    rw [undisturbed, Bool.and_eq_true] at hg
    refine ⟨_, ?_, rfl⟩
    have hintact := onStep_pending hg.1 hp
    cases o with
    | updateSpent key spent =>
      intro hkey
      simp only [intact, hkey, ne_eq, not_true_eq_false, decide_false, Bool.false_or, decide_eq_true_eq] at hintact
      exact ⟨(), by simp [system, perform, Op.refused, Op.local, hintact, Fate.carry, answer]⟩
    | _ => exact fun hlocal => local_perform cfg ch p.world hlocal
  step := by
    rintro p φ i o ch _ hg hp ht ha ⟨-, rfl⟩
    rw [undisturbed, Bool.and_eq_true] at hg
    obtain ⟨total, h⟩ := ht.holds
    refine h.step ha ?_
    rintro ttl record rfl
    have hintact := onStep_pending hg.1 hp
    simp only [intact, ne_eq, not_true_eq_false, decide_false, Bool.false_or, Bool.and_eq_true,
      Bool.not_eq_true'] at hintact
    refine ⟨hintact.1, ?_⟩
    intro message hlost
    rw [hlost] at hintact
    exact absurd hintact.2 Bool.false_ne_true

end

/-- **A session key signs within its budget**, in every run in which no record of the key is written over one
written since it was read, and a call that has written it goes through. -/
theorem signed_within_limit {cfg : Settings} {k : String} {w : World} {q : SessionPool}
    {record : SessionKeyRecord} (start : w.records.lookup k = some record)
    (fresh : record.spentAmountStroops = 0)
    (run : Run (system cfg) (fun p a => undisturbed cfg k p a = true) (Pool.start w) q) :
    signed cfg k q.trace ≤ budget cfg record.spendingLimitStroops ∧
      (q.quiet = true → ∀ stored, q.world.records.lookup k = some stored →
        stored.spentAmountStroops = signed cfg k q.trace) := by
  have hstart : Books cfg k record.spendingLimitStroops 0 w [] fun _ => .free := by
    refine ⟨?_, ?_, ?_, ?_, ?_⟩
    · intro stored hstore
      rw [start] at hstore
      cases hstore
      exact ⟨rfl, fresh⟩
    · intro i held hi
      cases hi
    · intro i amount hi
      cases hi
    · exact balance_zero fun _ => rfl
    · exact le_max_right _ _
  obtain ⟨φ, ht⟩ := (books_inductive cfg k record.spendingLimitStroops).run run ⟨_, .start ⟨0, hstart⟩⟩
  obtain ⟨total, h⟩ := ht.holds
  have hworth : ∀ i, 0 ≤ (φ i).worth := by
    intro i
    cases hi : φ i with
    | charged amount => exact Int.le_of_lt (h.charged hi)
    | _ => exact Int.le_refl 0
  have hnonneg := h.balance.nonneg hworth
  have hwithin := h.within
  refine ⟨by omega, ?_⟩
  intro hquiet stored hstore
  have hidle : ∀ i, (φ i).worth = 0 := by
    intro i
    rcases ht.quiet hquiet i with hends | hfree
    · exact worth_of_uncharged hends
    · rw [hfree]
      rfl
  have htotal := h.balance.single 0 fun j _ => hidle j
  rw [hidle 0] at htotal
  rw [(h.stored stored hstore).2]
  omega

def sampleSettings : Settings where
  bigInt := fun text => Data.readInteger text.toList
  isValidStellarPublicKey := fun _ => true
  adminSecret := none
  slot := fun _ => 0
  lastSlot := 0

def samplePolicy : SessionKeyPolicy where
  allowedContracts := ["EXTRACTED_CONTRACT_ID"]
  allowedMethods := ["EXTRACTED_METHOD"]
  maxPerCallStroops := "100"
  maxTotalStroops := "100"
  expiresInSeconds := 3600

def sampleRecord : SessionKeyRecord := newRecord "user-1" "GKEY" "encrypted" samplePolicy 0

def sampleWorld : World where
  records := AList.insert "GKEY" sampleRecord ∅
  vault := fun path => if path = sampleRecord.vaultKeyPath then some "encrypted" else none
  rows := fun key => if key = "GKEY" then some ⟨0, false⟩ else none
  owners := fun wallet => if wallet = "GWALLET" then ["user-1"] else []
  caches := fun _ _ => none
  published := []

def sampleSign (amount : String) : Call := .sign none ⟨"GKEY", "AAAA", amount⟩

def loads (i : Nat) : List (Action (system sampleSettings)) := [.step i {}, .step i {}]

/-- The call fetches the key, writes the record back, and returns. -/
def charges (i : Nat) : List (Action (system sampleSettings)) := [.step i {}, .step i {}, .step i {}, .step i {}]

/-- Of three calls, one after the other, the second exceeds what is left. -/
theorem signed_within_limit_refused :
    ∃ q, Run (system sampleSettings) (fun p a => undisturbed sampleSettings "GKEY" p a = true) (Pool.start sampleWorld) q ∧
      q.quiet = true ∧ signed sampleSettings "GKEY" q.trace = 100 ∧
      signed sampleSettings "GKEY" q.trace ≤ budget sampleSettings "100" := by
  obtain ⟨q, hrun, htest⟩ := Run.exists_of_any (Pool.start sampleWorld) (undisturbed sampleSettings "GKEY")
    (.call (sampleSign "60") :: loads 0 ++ charges 0 ++ .call (sampleSign "60") :: loads 1 ++ .step 1 {} ::
      .call (sampleSign "40") :: loads 2 ++ charges 2 : List (Action (system sampleSettings)))
    (fun q => decide (q.quiet = true ∧ signed sampleSettings "GKEY" q.trace = 100)) (by decide)
  obtain ⟨hquiet, hsum⟩ := of_decide_eq_true htest
  have hstart : sampleWorld.records.lookup "GKEY" = some sampleRecord := by decide
  exact ⟨q, hrun, hquiet, hsum, (signed_within_limit hstart rfl hrun).1⟩

/-- **A session key signs beyond its budget.** Two calls read the record before either writes it:
both sign 60 of 100, and 60 is in the record. -/
theorem signed_beyond_limit :
    ∃ q, Run (system sampleSettings) (fun _ _ => True) (Pool.start sampleWorld) q ∧ q.quiet = true ∧
      signed sampleSettings "GKEY" q.trace = 120 ∧ budget sampleSettings "100" = 100 ∧
      (q.world.records.lookup "GKEY").map SessionKeyRecord.spentAmountStroops = some 60 := by
  obtain ⟨q, hrun, htest⟩ := Run.exists_of_any (Pool.start sampleWorld) (fun _ _ => true)
    (.call (sampleSign "60") :: .call (sampleSign "60") :: loads 0 ++ loads 1 ++ charges 0 ++ charges 1 :
      List (Action (system sampleSettings)))
    (fun q => decide (q.quiet = true ∧ signed sampleSettings "GKEY" q.trace = 120 ∧ budget sampleSettings "100" = 100 ∧
      (q.world.records.lookup "GKEY").map SessionKeyRecord.spentAmountStroops = some 60)) (by decide +kernel)
  exact ⟨q, hrun.mono fun _ _ _ => trivial, of_decide_eq_true htest⟩

end Delego.SessionKeys
