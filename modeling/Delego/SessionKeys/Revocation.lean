import Delego.SessionKeys.Budget

/-! Revocation of a session key.

`revokeSessionKey` and the kill switch delete the record. A signature that has read it before writes its copy back, and
the key is there again (`revoked_key_signs`). Where no call has the record in hand when it is removed (`spared`), the
record is there whenever a call writes it back, and stays away once it is gone.

The kill switch finds the record because a scan reports every key of its slots that is there. -/
namespace Delego.SessionKeys
open Delego.Process List Function

/-- Whether an operation leaves its runner with the record of key `k` in hand; none where it does not
matter. -/
def carries (k : String) : (o : Op) → sessionSignature.Result o → Option Bool
  | .get key, .ok raw => if key = k then some raw.isSome else none
  | .setex key _ _, .ok _ => if key = k then some false else none
  | _, _ => none

def loaded (k : String) (i : Nat) : SessionTrace → Bool
  | [] => false
  | e :: tr => if e.runner = i then (carries k e.op e.result).getD (loaded k i tr) else loaded k i tr

/-- A call that has read the record and has neither written it back nor ended. -/
def inHand (k : String) (p : SessionPool) (i : Nat) : Bool := (p.pending i).isSome && loaded k i p.trace

def removes (k : String) (o : Op) (ch : Choice) : Bool :=
  match o with
  | .del keys => decide (k ∈ keys) && match ch.fate with
    | .refused _ => false
    | _ => true
  | _ => false

/-- The record is removed, by a call or by its time to live, while no other call has it in hand; and the
key is not created. -/
def spared (cfg : Settings) (k : String) (p : SessionPool) : Action (system cfg) → Bool
  | .call c => notCreating k c
  | .step i ch => (p.pending i).all fun o =>
    !removes k o ch || (range p.runners.length).all fun j => decide (j = i) || !inHand k p j
  | .drift (Event.lapse key) => decide (key ≠ k) || (range p.runners.length).all fun j => !inHand k p j
  | .drift (Event.deliver _ _ _) => true

/-- A key, its owner, and the users of the wallets. -/
structure Target where
  (key userId : String)
  owners : String → List String

/-- The kill switch of the wallet takes the key in. -/
def Target.ownedBy (t : Target) (walletAddress : String) : Prop :=
  t.userId ∈ t.owners walletAddress ∨ t.userId = walletAddress

def Target.revokedBy (t : Target) : Op → Prop
  | .answer (.revoked key) => key = t.key
  | .answer (.executed walletAddress _) => t.ownedBy walletAddress
  | _ => False

def Target.signedBy (t : Target) : Op → Prop
  | .answer (.signed dto (.signed _ _)) => dto.sessionPublicKey = t.key
  | _ => False

/-! ### Phases of a call -/

/-- What a call knows of the record of the key. -/
inductive Sight where
  | free
  /-- The record is in hand. -/
  | holding
  | charged
  | gone

namespace Sight

def unlessGone : Sight → Sight → Sight
  | .gone, _ => .gone
  | _, sight' => sight'

def drop : Sight → Sight
  | .holding => .free
  | sight => sight

@[simp] def next (cfg : Settings) (t : Target) (sight : Sight) : (o : Op) → sessionSignature.Result o → Sight
  | .get key, .ok none => if key = t.key then .gone else sight
  | .get key, .ok (some _) => if key = t.key then sight.unlessGone .holding else sight
  | .setex key _ _, .ok _ => if key = t.key then sight.unlessGone .charged else sight
  | .del keys, .ok _ => if t.key ∈ keys then .gone else sight
  | .del keys, .error _ => if t.key ∈ keys then sight.drop else sight
  | .scan cursor, .ok scanned =>
    if t.key ∉ scanned.2 ∧ cfg.slot t.key % (cfg.lastSlot + 1) = cursor then .gone else sight
  | _, _ => sight

def Allows (t : Target) (sight : Sight) : Op → Prop
  | .setex key _ record => key = t.key → sight = .holding ∧ record.userId = t.userId
  | .answer a => (t.signedBy (.answer a) → sight = .charged) ∧ (t.revokedBy (.answer a) → sight = .gone)
  | _ => True

end Sight

def Reports (cfg : Settings) (t : Target) : (o : Op) → sessionSignature.Result o → Prop
  | .get key, .ok (some record) => key = t.key → record.userId = t.userId
  | .resolveUserIds walletAddress, .ok userIds => userIds = t.owners walletAddress
  | .scan cursor, .ok scanned => scanned.1 = if cursor < cfg.lastSlot then cursor + 1 else 0
  | o, r => o.local = true → ∃ a, r = .ok a

def revoking (cfg : Settings) (t : Target) : Protocol sessionSignature Sight where
  Allowed := Sight.Allows t
  Moves := fun sight o r sight' => Reports cfg t o r ∧ sight' = sight.next cfg t o r

section
variable {cfg : Settings} {t : Target} {sight : Sight}

theorem follows_sight {o : Op} {Q : Except String o.Reply → Sight → Prop} (ha : sight.Allows t o)
    (hm : ∀ r, Reports cfg t o r → Q r (sight.next cfg t o r)) :
    Follows (revoking cfg t) sight (op o) Q := by
  apply follows_perform ha
  rintro r sight' ⟨hreports, rfl⟩
  exact hm r hreports

def Blind : Op → Prop
  | .get _ => False
  | .setex _ _ _ => False
  | .del _ => False
  | .scan _ => False
  | .answer _ => False
  | _ => True

variable {α : Type}
  {p : SessionM α}

theorem follows_blind (h : p.Only Blind) :
    Follows (revoking cfg t) sight p fun _ sight' => sight' = sight := by
  refine follows_of_only h ?_ ?_
  · intro o ho
    cases o with
    | get | setex | del | scan | answer => exact absurd ho id
    | _ => trivial
  · rintro o r _ ho ⟨-, rfl⟩
    cases o with
    | get | setex | del | scan | answer => exact absurd ho id
    | _ => rfl

theorem follows_blind_bind {β : Type} {f : α → SessionM β} {Q : Except String β → Sight → Prop}
    (h : p.Only Blind) (herror : ∀ message, Q (.error message) sight)
    (hf : ∀ a, Follows (revoking cfg t) sight (f a) Q) : Follows (revoking cfg t) sight (p >>= f) Q := by
  refine follows_bind (follows_mono (follows_blind h) ?_)
  rintro r _ rfl
  cases r with
  | error message => exact herror message
  | ok a => exact hf a

theorem blind_onCache {node : Node} {o : Nat → SessionM Unit} (h : ∀ node, (o node).Only Blind) :
    (onCache node o).Only Blind := by
  cases node with
  | none => trivial
  | some node => exact h node

/-! ### A call of `signWithSessionKey` -/

def WroteBack (t : Target) (dto : SignWithSessionKeyDTO) : Except String SignResult → Sight → Prop
  | .ok (.signed _ _), sight => dto.sessionPublicKey = t.key → sight = .charged
  | _, _ => True

theorem blind_parse (text : String) : (parse cfg text).Only Blind := by
  unfold parse
  cases cfg.bigInt text with
  | none => trivial
  | some value => trivial

section
variable {dto : SignWithSessionKeyDTO} {record : SessionKeyRecord} {now amount limit : Int}

theorem follows_signAndCharge_sight
    (hheld : dto.sessionPublicKey = t.key → sight = .holding ∧ record.userId = t.userId) :
    Follows (revoking cfg t) sight (signAndCharge dto record now amount limit) (WroteBack t dto) := by
  refine follows_blind_bind (only_perform trivial) (fun _ => trivial) fun encryptedKey => ?_
  split
  · trivial
  · refine follows_bind (follows_sight hheld (forall_except (fun _ _ => trivial) fun _ _ => ?_))
    refine follows_blind_bind (only_perform trivial) (fun _ => trivial) fun _ => ?_
    intro hkey
    simp only [Sight.next, if_pos hkey, (hheld hkey).1, Sight.unlessGone]

theorem follows_checkAndSign_sight
    (hheld : dto.sessionPublicKey = t.key → sight = .holding ∧ record.userId = t.userId) :
    Follows (revoking cfg t) sight (checkAndSign cfg dto record now) (WroteBack t dto) := by
  refine follows_blind_bind (blind_parse _) (fun _ => trivial) fun amount => ?_
  split
  · trivial
  · refine follows_blind_bind (blind_parse _) (fun _ => trivial) fun maxPerCall => ?_
    split
    · trivial
    · refine follows_blind_bind (blind_parse _) (fun _ => trivial) fun limit => ?_
      simp only
      split
      · trivial
      · split
        · trivial
        · split
          · trivial
          · exact follows_signAndCharge_sight hheld

theorem follows_loadAndSign_sight (node : Node) :
    Follows (revoking cfg t) .free (loadAndSign cfg node dto) (WroteBack t dto) := by
  refine follows_bind (follows_sight trivial (forall_except (fun _ _ => trivial) fun raw hreports => ?_))
  cases raw with
  | none => exact follows_blind_bind (blind_onCache fun _ => only_perform trivial) (fun _ => trivial) fun _ => trivial
  | some record =>
    refine follows_blind_bind (blind_onCache fun _ => only_perform trivial) (fun _ => trivial) fun _ => ?_
    refine follows_blind_bind (only_perform trivial) (fun _ => trivial) fun now => ?_
    split
    · exact follows_bind (follows_sight trivial (forall_except (fun _ _ => trivial) fun _ _ => trivial))
    · refine follows_checkAndSign_sight fun hkey => ⟨?_, hreports hkey⟩
      simp only [Sight.next, if_pos hkey, Sight.unlessGone]

theorem follows_signWithSessionKey_sight (node : Node) :
    Follows (revoking cfg t) .free (signWithSessionKey cfg node dto) (WroteBack t dto) := by
  have hcached : (if isHighValueAmount cfg dto.requestedAmountStroops then .ret false
      else cachedRevoked node dto.sessionPublicKey : SessionM Bool).Only Blind := by
    split
    · trivial
    · cases node with
      | none => trivial
      | some node => exact only_bind (only_perform trivial) fun _ => trivial
  refine follows_blind_bind hcached (fun _ => trivial) fun revoked => ?_
  split
  · trivial
  · exact follows_loadAndSign_sight node

end

/-! ### A call of `revokeSessionKey` -/

theorem follows_revokeSessionKey (node : Node) (key : String) :
    Follows (revoking cfg t) sight (revokeSessionKey node key)
      fun r sight' => ∀ a, r = .ok a → key = t.key → sight' = .gone := by
  refine follows_bind (follows_sight trivial (forall_except (fun _ _ => fun _ => nofun) fun _ _ => ?_))
  have hgone : ∀ a, (.ok () : Except String Unit) = .ok a → key = t.key →
      sight.next cfg t (.del [key]) (.ok ()) = .gone := by
    intro a _ hkey
    simp [Sight.next, hkey]
  refine follows_blind_bind (only_perform trivial) (fun _ _ => nofun) fun _ => ?_
  have hblind : (onCache node fun node => broadcastRevocation node key).Only Blind := by
    refine blind_onCache fun node => only_bind (only_perform trivial) fun _ => ?_
    exact only_bind (only_attempt (only_perform trivial)) fun _ => trivial
  refine follows_mono (follows_blind hblind) ?_
  rintro r _ rfl a - hkey
  exact hgone () rfl hkey

/-! ### A call of the kill switch -/

section
variable {walletAddress : String} {userIds : List String}

theorem next_gone (o : Op) (r : sessionSignature.Result o) : Sight.gone.next cfg t o r = .gone := by
  cases o with
  | get key =>
    cases r with
    | error message => rfl
    | ok raw =>
      cases raw with
      | none => simp [Sight.next]
      | some record => simp [Sight.next, Sight.unlessGone]
  | setex key ttl record =>
    cases r with
    | error message => rfl
    | ok _ => simp [Sight.next, Sight.unlessGone]
  | del keys =>
    cases r with
    | error message => simp [Sight.next, Sight.drop]
    | ok _ => simp [Sight.next]
  | scan cursor =>
    cases r with
    | error message => rfl
    | ok scanned => simp [Sight.next]
  | _ => rfl

/-- The key is gone, or among those found, or still to come. -/
def Covered (t : Target) (sessions : List (String × String)) (rest : Prop) (sight : Sight) : Prop :=
  sight = .gone ∨ t.key ∈ sessions.map Prod.fst ∨ rest

theorem mem_addSession {key k : String} {sessions : List (String × String)} {raw : Option SessionKeyRecord}
    (h : k ∈ sessions.map Prod.fst) : k ∈ (addSession userIds walletAddress key sessions raw).map Prod.fst := by
  cases raw with
  | none => exact h
  | some record =>
    simp only [addSession]
    split
    · rw [map_append]
      exact mem_append_left _ h
    · exact h

theorem follows_examine (howned : t.userId ∈ userIds ∨ t.userId = walletAddress) {rest : Prop} (keys : List String)
    (sessions : List (String × String)) (h : Covered t sessions (t.key ∈ keys ∨ rest) sight) :
    Follows (revoking cfg t) sight (examine userIds walletAddress keys sessions)
      fun r sight' => ∀ sessions', r = .ok sessions' → Covered t sessions' rest sight' := by
  induction keys generalizing sessions sight with
  | nil =>
    rintro _ ⟨⟩
    rcases h with h | h | h | h
    · exact .inl h
    · exact .inr (.inl h)
    · cases h
    · exact .inr (.inr h)
  | cons key keys ih =>
    refine follows_bind (follows_sight trivial (forall_except (fun _ _ => fun _ => nofun) fun raw hreports => ?_))
    cases raw with
    | none =>
      refine ih sessions ?_
      rcases h with h | h | h | h
      · subst h
        exact .inl (next_gone _ _)
      · exact .inr (.inl h)
      · rcases mem_cons.mp h with hkey | h
        · left
          simp only [Sight.next, if_pos hkey.symm]
        · exact .inr (.inr (.inl h))
      · exact .inr (.inr (.inr h))
    | some record =>
      refine ih _ ?_
      rcases h with h | h | h | h
      · subst h
        exact .inl (next_gone _ _)
      · exact .inr (.inl (mem_addSession h))
      · rcases mem_cons.mp h with hkey | h
        · have huser : record.userId = t.userId := hreports hkey.symm
          right
          left
          simp only [addSession, huser, if_pos howned, map_append, mem_append]
          simp [hkey]
        · exact .inr (.inr (.inl h))
      · exact .inr (.inr (.inr h))

def Target.slot (cfg : Settings) (t : Target) : Nat := cfg.slot t.key % (cfg.lastSlot + 1)

theorem follows_findSessions (howned : t.userId ∈ userIds ∨ t.userId = walletAddress) (rounds cursor : Nat)
    (sessions : List (String × String)) (h : Covered t sessions (cursor ≤ t.slot cfg) sight) :
    Follows (revoking cfg t) sight (findSessions userIds walletAddress rounds cursor sessions)
      fun r sight' => ∀ sessions', r = .ok (some sessions') → Covered t sessions' False sight' := by
  induction rounds generalizing cursor sessions sight with
  | zero => exact fun _ => nofun
  | succ rounds ih =>
    refine follows_bind (follows_sight trivial (forall_except (fun _ _ => fun _ => nofun) fun scanned hreports => ?_))
    have hscanned : Covered t sessions (t.key ∈ scanned.2 ∨ cursor < t.slot cfg)
        (sight.next cfg t (.scan cursor) (.ok scanned)) := by
      rcases h with h | h | h
      · subst h
        exact .inl (next_gone _ _)
      · exact .inr (.inl h)
      · rcases Nat.lt_or_eq_of_le h with hlater | hhere
        · exact .inr (.inr (.inr hlater))
        · by_cases hmem : t.key ∈ scanned.2
          · exact .inr (.inr (.inl hmem))
          · left
            have hslot : cfg.slot t.key % (cfg.lastSlot + 1) = cursor := hhere.symm
            simp only [Sight.next, hmem, hslot, not_false_eq_true, and_self, if_true]
    refine follows_bind (follows_mono (follows_examine howned scanned.2 sessions hscanned)
      (forall_except (fun _ _ _ => fun _ => nofun) fun sessions' _ hcovered => ?_))
    have hcovered := hcovered sessions' rfl
    have hnext : scanned.1 = if cursor < cfg.lastSlot then cursor + 1 else 0 := hreports
    have hlast : t.slot cfg ≤ cfg.lastSlot := Nat.le_of_lt_succ (Nat.mod_lt _ (Nat.succ_pos _))
    simp only [Then]
    split
    · rename_i hend
      rintro _ ⟨⟩
      rcases hcovered with h | h | h
      · exact .inl h
      · exact .inr (.inl h)
      · rw [hend] at hnext
        split at hnext
        · cases hnext
        · omega
    · rename_i hgoes
      refine ih scanned.1 sessions' ?_
      rcases hcovered with h | h | h
      · exact .inl h
      · exact .inr (.inl h)
      · right
        right
        rw [hnext]
        split
        · omega
        · exact Nat.zero_le _

theorem mem_batches (keys : List String) (fuel : Nat) (hfuel : keys.length ≤ fuel) {key : String} (h : key ∈ keys) :
    ∃ batch ∈ batches fuel keys, key ∈ batch := by
  induction fuel generalizing keys with
  | zero =>
    simp [length_eq_zero_iff.mp (Nat.le_zero.mp hfuel)] at h
  | succ fuel ih =>
    cases keys with
    | nil => cases h
    | cons first rest =>
      simp only [batches]
      rw [← take_append_drop DELETE_BATCH_SIZE (first :: rest)] at h
      rcases mem_append.mp h with h | h
      · exact ⟨_, mem_cons_self, h⟩
      · have hshorter : ((first :: rest).drop DELETE_BATCH_SIZE).length ≤ fuel := by
          simp only [length_drop, DELETE_BATCH_SIZE]
          omega
        obtain ⟨batch, hmem, hkey⟩ := ih _ hshorter h
        exact ⟨batch, mem_cons_of_mem _ hmem, hkey⟩

theorem follows_deleteBatches (keys : List (List String)) (h : sight = .gone ∨ ∃ batch ∈ keys, t.key ∈ batch) :
    Follows (revoking cfg t) sight (deleteBatches keys) fun r sight' => ∀ a, r = .ok a → sight' = .gone := by
  induction keys generalizing sight with
  | nil =>
    rintro a -
    rcases h with h | ⟨batch, hmem, -⟩
    · exact h
    · cases hmem
  | cons batch rest ih =>
    refine follows_bind (follows_sight trivial (forall_except (fun _ _ => fun _ => nofun) fun _ _ => ?_))
    refine ih ?_
    rcases h with h | ⟨batch', hmem, hkey⟩
    · subst h
      exact .inl (next_gone _ _)
    · rcases mem_cons.mp hmem with rfl | hmem
      · left
        simp only [Sight.next, if_pos hkey]
      · exact .inr ⟨batch', hmem, hkey⟩

theorem blind_assertAuthorized (token : Option String) : (assertAuthorized cfg token).Only Blind := by
  unfold assertAuthorized
  split
  · trivial
  · split
    · trivial
    · split <;> trivial

theorem follows_execute (dto : EmergencyRevocationDTO) (rounds : Nat) (howned : t.ownedBy dto.walletAddress) :
    Follows (revoking cfg t) sight (execute cfg dto rounds)
      fun r sight' => ∀ result, r = .ok (some result) → sight' = .gone := by
  unfold execute
  split
  · exact fun _ => nofun
  · refine follows_blind_bind (blind_assertAuthorized _) (fun _ _ => nofun) fun _ => ?_
    refine follows_blind_bind (only_perform trivial) (fun _ _ => nofun) fun cancelled => ?_
    refine follows_bind (follows_sight trivial (forall_except (fun _ _ => fun _ => nofun) fun userIds hreports => ?_))
    have howners : userIds = t.owners dto.walletAddress := hreports
    subst howners
    refine follows_bind (follows_mono (follows_findSessions howned rounds 0 [] (.inr (.inr (Nat.zero_le _))))
      (forall_except (fun _ _ _ => fun _ => nofun) fun found sight' hcovered => ?_))
    cases found with
    | none => exact fun _ => nofun
    | some sessions =>
      have hdeleted : sight' = .gone ∨
          ∃ batch ∈ batches (sessions.map Prod.fst).length (sessions.map Prod.fst), t.key ∈ batch := by
        rcases hcovered sessions rfl with h | h | h
        · exact .inl h
        · exact .inr (mem_batches _ _ (Nat.le_refl _) h)
        · exact absurd h id
      refine follows_bind (follows_mono (follows_deleteBatches _ hdeleted)
        (forall_except (fun _ _ _ => fun _ => nofun) fun _ _ hgone => ?_))
      have hblind : (revokeOnChain dto (sessions.map Prod.snd).dedup).Only Blind := by
        unfold revokeOnChain
        split
        · exact only_perform trivial
        · trivial
      refine follows_blind_bind hblind (fun _ _ => nofun) fun _ => ?_
      exact fun _ _ => hgone () rfl

end

theorem follows_aside_sight (h : p.Only (Aside t.key)) :
    Follows (revoking cfg t) sight p fun _ _ => True := by
  refine follows_within (I := fun _ => True) h trivial ?_ fun _ _ _ _ _ _ _ => trivial
  intro sight o _ ho
  cases o with
  | setex key ttl record => exact fun hkey => absurd hkey ho
  | answer a => exact absurd ho id
  | _ => trivial

theorem follows_body_sight (call : Call) (h : notCreating t.key call = true) :
    Follows (revoking cfg t) .free (call.body cfg) fun _ _ => True := by
  cases call with
  | sign node dto =>
    refine follows_bind (follows_mono (follows_signWithSessionKey_sight node)
      (forall_except (fun _ _ _ => trivial) fun result _ hwrote => ?_))
    refine follows_sight ⟨?_, fun hrev => absurd hrev id⟩ fun _ _ => trivial
    intro hsig
    cases result with
    | signed signedTxXdr remaining => exact hwrote hsig
    | denied error => exact absurd hsig id
  | revoke node key =>
    refine follows_bind (follows_mono (follows_revokeSessionKey node key)
      (forall_except (fun _ _ _ => trivial) fun _ _ hgone => ?_))
    refine follows_sight ⟨fun hsig => absurd hsig id, ?_⟩ fun _ _ => trivial
    exact fun hkey => hgone () rfl hkey
  | execute dto rounds =>
    by_cases howned : t.ownedBy dto.walletAddress
    · refine follows_bind (follows_mono (follows_execute dto rounds howned)
        (forall_except (fun _ _ _ => trivial) fun result _ hgone => ?_))
      cases result with
      | none => trivial
      | some result =>
        exact follows_sight ⟨fun hsig => absurd hsig id, fun _ => hgone result rfl⟩ fun _ _ => trivial
    · refine follows_andThen (follows_aside_sight (only_execute dto rounds)) ?_
      intro result sight _
      cases result with
      | none => trivial
      | some result =>
        exact follows_sight ⟨fun hsig => absurd hsig id, fun hrev => absurd hrev howned⟩ fun _ _ => trivial
  | create userId publicKey encryptedPrivateKey policy =>
    refine follows_andThen (follows_aside_sight (only_createSessionKey (of_decide_eq_true h))) ?_
    intro record sight _
    exact follows_sight ⟨fun hsig => absurd hsig id, fun hrev => absurd hrev id⟩ fun _ _ => trivial

end

/-! ### What is known of the record -/

/-- The owner of the key, and which calls have its record in hand. -/
structure Known (t : Target) (w : World) (tr : SessionTrace) (sight : Nat → Sight) : Prop where
  owner : ∀ record, w.records.lookup t.key = some record → record.userId = t.userId
  owners : w.owners = t.owners
  held : ∀ i, sight i = .holding → loaded t.key i tr = true

section
variable {cfg : Settings} {t : Target} {w : World} {tr : SessionTrace} {sight : Nat → Sight} {i : Nat} {o : Op}
  {ch : Choice}

theorem owners_perform : (perform cfg o ch w).2.owners = w.owners := by
  unfold perform
  split
  · rfl
  · refine Fate.carry_kept (P := fun w' : World => w'.owners = w.owners) rfl ?_
    cases o with
    | cacheGet node key =>
      simp only [answer]
      split
      · rfl
      · split <;> rfl
    | _ => rfl

theorem lookup_setex_cases (cfg : Settings) (ch : Choice) (w : World) (k : String) (ttl : Int) (record : SessionKeyRecord) :
    (perform cfg (.setex k ttl record) ch w).2.records.lookup k = w.records.lookup k ∨
      (perform cfg (.setex k ttl record) ch w).2.records.lookup k = some record := by
  unfold perform
  split
  · exact .inl rfl
  · refine Fate.carry_kept (P := fun w' : World => w'.records.lookup k = w.records.lookup k ∨
      w'.records.lookup k = some record) (.inl rfl) (.inr ?_)
    exact AList.lookup_insert _

theorem reports_perform (howner : ∀ record, w.records.lookup t.key = some record → record.userId = t.userId)
    (howners : w.owners = t.owners) : Reports cfg t o (perform cfg o ch w).1 := by
  have hlocal := local_perform (o := o) cfg ch w
  rcases perform_cases cfg o ch w with hok | ⟨message, herror⟩
  · rw [hok] at hlocal ⊢
    cases o with
    | get key =>
      simp only [answer]
      cases hlook : w.records.lookup key with
      | none => exact fun h => absurd h Bool.false_ne_true
      | some record =>
        intro hkey
        exact howner record (hkey ▸ hlook)
    | scan cursor => rfl
    | resolveUserIds walletAddress => exact congrFun howners walletAddress
    | _ => exact hlocal
  · rw [herror] at hlocal ⊢
    cases o <;> exact hlocal

theorem sight_holding {sight : Sight} {r : sessionSignature.Result o} (h : sight.next cfg t o r = .holding) :
    carries t.key o r = some true ∨ sight = .holding ∧ carries t.key o r = none := by
  cases o with
  | get key =>
    cases r with
    | error message => exact .inr ⟨h, rfl⟩
    | ok raw => cases raw <;> simp only [Sight.next, carries] at h ⊢ <;> split at h <;> simp_all
  | setex key ttl record =>
    cases r with
    | error message => exact .inr ⟨h, rfl⟩
    | ok _ =>
      simp only [Sight.next, carries] at h ⊢
      split at h
      · cases sight <;> cases h
      · simp_all
  | del keys =>
    refine .inr ⟨?_, rfl⟩
    cases r with
    | error message =>
      simp only [Sight.next] at h
      split at h
      · cases sight <;> cases h
      · exact h
    | ok _ =>
      simp only [Sight.next] at h
      split at h
      · cases h
      · exact h
  | scan cursor =>
    refine .inr ⟨?_, rfl⟩
    cases r with
    | error message => exact h
    | ok scanned =>
      simp only [Sight.next] at h
      split at h
      · cases h
      · exact h
  | _ => exact .inr ⟨h, rfl⟩

theorem not_holding_del {sight : Sight} {keys : List String} (hmem : t.key ∈ keys) (r : Except String Unit) :
    sight.next cfg t (.del keys) r ≠ .holding := by
  cases r with
  | ok _ => simp [Sight.next, hmem]
  | error message =>
    simp only [Sight.next, if_pos hmem]
    cases sight <;> simp [Sight.drop]

theorem Known.step (h : Known t w tr sight) (ha : (sight i).Allows t o) :
    Known t (perform cfg o ch w).2 (⟨i, o, (perform cfg o ch w).1⟩ :: tr)
      (update sight i ((sight i).next cfg t o (perform cfg o ch w).1)) where
  owner := by
    intro record hrec
    by_cases hset : ∃ ttl record, o = .setex t.key ttl record
    · obtain ⟨ttl, record', rfl⟩ := hset
      have hcases : (perform cfg (.setex t.key ttl record') ch w).2.records.lookup t.key = w.records.lookup t.key ∨
          (perform cfg (.setex t.key ttl record') ch w).2.records.lookup t.key = some record' :=
        lookup_setex_cases cfg ch w t.key ttl record'
      rcases hcases with heq | hwrit
      · exact h.owner record (heq ▸ hrec)
      · rw [hwrit] at hrec
        cases hrec
        exact (ha rfl).2
    · have hcases : (perform cfg o ch w).2.records.lookup t.key = w.records.lookup t.key ∨
          (perform cfg o ch w).2.records.lookup t.key = none :=
        lookup_perform fun ttl record ho => hset ⟨ttl, record, ho⟩
      rcases hcases with heq | hnone
      · exact h.owner record (heq ▸ hrec)
      · simp [hnone] at hrec
  owners := owners_perform.trans h.owners
  held := by
    intro j hj
    by_cases hji : j = i
    · subst hji
      rw [update_self] at hj
      rcases sight_holding hj with htrue | ⟨hpre, hnone⟩
      · simp [loaded, htrue]
      · simp [loaded, hnone, h.held j hpre]
    · rw [update_of_ne hji] at hj
      simp [loaded, Ne.symm hji, h.held j hj]

end

theorem known_inductive (cfg : Settings) (t : Target) {guard : SessionPool → Action (system cfg) → Prop}
    (hcall : ∀ p call, guard p (.call call) → notCreating t.key call = true) :
    Inductive (system cfg) (revoking cfg t) .free guard (Known t) where
  body := fun p call hg => follows_body_sight call (hcall p call hg)
  arrive := by
    rintro p sight call w - ht ⟨⟩
    exact ht.holds
  drift := by
    intro p sight e _ ht
    have h := ht.holds
    refine ⟨?_, ?_, h.held⟩
    · intro record hrec
      rcases lookup_drift t.key e p.world with heq | hnone
      · exact h.owner record (heq ▸ hrec)
      · cases hnone.symm.trans hrec
    · refine Eq.trans ?_ h.owners
      cases e with
      | lapse key => rfl
      | deliver node key time =>
        simp only [system, drift]
        split <;> rfl
  answers := fun p _ _ _ ch _ _ ht _ => ⟨_, reports_perform ht.holds.owner ht.holds.owners, rfl⟩
  step := by
    rintro p sight i o ch _ - - ht ha ⟨-, rfl⟩
    exact ht.holds.step ha

/-! ### The record is there when it is written back -/

/-- A record that a call has in hand is there. -/
def Held (t : Target) (w : World) (_ : SessionTrace) (sight : Nat → Sight) : Prop :=
  ∀ i, sight i = .holding → (w.records.lookup t.key).isSome = true

section
variable {cfg : Settings} {t : Target} {p : SessionPool} {sight : Nat → Sight} {i : Nat} {o : Op} {ch : Choice}

theorem inHand_of_live (ht : Tracked (revoking cfg t) .free (Known t) p sight) (h : p.live .free sight i = .holding) :
    i < p.runners.length ∧ inHand t.key p i = true := by
  unfold Pool.live at h
  split at h
  · rename_i hpend
    refine ⟨?_, ?_⟩
    · by_contra hge
      cases (ht.fresh i (by omega)).symm.trans h
    · rw [inHand, hpend, ht.holds.held i h]
      rfl
  · cases h

theorem lookup_of_not_removes {w : World} {k : String} (hset : ∀ ttl record, o ≠ .setex k ttl record)
    (h : removes k o ch = false) : (perform cfg o ch w).2.records.lookup k = w.records.lookup k := by
  by_cases hdel : ∃ keys, o = .del keys ∧ k ∈ keys
  · obtain ⟨keys, rfl, hmem⟩ := hdel
    simp only [removes, hmem, decide_true, Bool.true_and] at h
    cases hfate : ch.fate with
    | refused message => simp [perform, Op.refused, Op.local, hfate, Fate.carry]
    | done => simp [hfate] at h
    | lost message => simp [hfate] at h
  · exact lookup_kept hset fun keys ho hmem => hdel ⟨keys, ho, hmem⟩

theorem Held.step (ht : Tracked (revoking cfg t) .free (Known t) p sight)
    (h : Held t p.world p.trace (p.live .free sight)) (hp : p.pending i = some o)
    (hg : spared cfg t.key p (.step i ch) = true) :
    Held t (perform cfg o ch p.world).2 (⟨i, o, (perform cfg o ch p.world).1⟩ :: p.trace)
      (update (p.live .free sight) i ((sight i).next cfg t o (perform cfg o ch p.world).1)) := by
  have hlive : p.live .free sight i = sight i := Pool.live_pending hp
  intro j hj
  cases hremoves : removes t.key o ch with
  | true =>
    -- nobody has the record in hand: no other call did before, and this one does not now
    simp only [spared, hp, Option.all_some, hremoves, Bool.not_true, Bool.false_or, all_eq_true, mem_range,
      Bool.or_eq_true, decide_eq_true_eq, Bool.not_eq_true'] at hg
    by_cases hji : j = i
    · rw [hji, update_self] at hj
      cases o with
      | del keys =>
        have hmem : t.key ∈ keys := by
          simp only [removes, Bool.and_eq_true, decide_eq_true_eq] at hremoves
          exact hremoves.1
        exact absurd hj (not_holding_del hmem _)
      | _ => cases hremoves
    · rw [update_of_ne hji] at hj
      obtain ⟨hlt, hhand⟩ := inHand_of_live ht hj
      rcases hg j hlt with heq | hfree
      · exact absurd heq hji
      · cases hfree.symm.trans hhand
  | false =>
    by_cases hset : ∃ ttl record, o = .setex t.key ttl record
    · obtain ⟨ttl, record, rfl⟩ := hset
      have hbefore : (p.world.records.lookup t.key).isSome = true :=
        h i (hlive.trans ((ht.allowed hp) rfl).1)
      rcases lookup_setex_cases cfg ch p.world t.key ttl record with heq | hwrit
      · rw [heq]
        exact hbefore
      · rw [hwrit]
        rfl
    · rw [lookup_of_not_removes (fun ttl record ho => hset ⟨ttl, record, ho⟩) hremoves]
      by_cases hji : j = i
      · rw [hji, update_self] at hj
        rcases sight_holding hj with htrue | ⟨hpre, -⟩
        · cases o with
          | get key =>
            rcases perform_cases cfg (.get key) ch p.world with hok | ⟨message, herror⟩
            · rw [hok] at htrue
              simp only [carries, answer] at htrue
              split at htrue
              · rename_i hkey
                rw [← hkey]
                exact Option.some.inj htrue
              · cases htrue
            · rw [herror] at htrue
              cases htrue
          | setex key ttl record =>
            cases hr : (perform cfg (.setex key ttl record) ch p.world).1 with
            | error message =>
              rw [hr] at htrue
              cases htrue
            | ok _ =>
              rw [hr] at htrue
              simp only [carries] at htrue
              split at htrue <;> cases htrue
          | _ => cases htrue
        · exact h i (hlive.trans hpre)
      · rw [update_of_ne hji] at hj
        exact h j hj

end

/-- The record is there whenever a call writes it back, and the key is not created. -/
def Restores (cfg : Settings) (k : String) (p : SessionPool) (a : Action (system cfg)) : Prop :=
  onCall (notCreating k) a = true ∧ ∀ i ch ttl record, a = .step i ch → p.pending i = some (.setex k ttl record) →
    (p.world.records.lookup k).isSome = true

section
variable {cfg : Settings} {t : Target}

def Holds (cfg : Settings) (t : Target) (p : SessionPool) : Prop :=
  ∃ sight, Tracked (revoking cfg t) .free (Known t) p sight ∧ Held t p.world p.trace (p.live .free sight)

theorem holds_run {p q : SessionPool} (hp : Holds cfg t p)
    (run : Run (system cfg) (fun p a => spared cfg t.key p a = true) p q) : Holds cfg t q := by
  refine Inductive.run_live (known_inductive cfg t fun p call hg => hg) ?_ ?_ ?_ ?_ run hp
  · rintro call w w' tr sight h ⟨⟩
    exact h
  · intro p sight e hg ht h j hj
    cases e with
    | lapse key =>
      by_cases hkey : key = t.key
      · obtain ⟨hlt, hhand⟩ := inHand_of_live ht hj
        simp only [spared, hkey, ne_eq, not_true, decide_false, Bool.false_or, all_eq_true, mem_range,
          Bool.not_eq_true'] at hg
        cases (hg j hlt).symm.trans hhand
      · have hkept : (p.world.records.erase key).lookup t.key = p.world.records.lookup t.key :=
          AList.lookup_erase_ne (Ne.symm hkey)
        simp only [system, drift, hkept]
        exact h j hj
    | deliver node key time =>
      have hkept : (drift (.deliver node key time) p.world).records = p.world.records := by
        simp only [drift]
        split <;> rfl
      simp only [system, hkept]
      exact h j hj
  · intro w tr sight i h _ j hj
    by_cases hji : j = i
    · rw [hji, update_self] at hj
      cases hj
    · rw [update_of_ne hji] at hj
      exact h j hj
  · rintro p sight i o ch _ hg hp ht h - ⟨-, rfl⟩
    exact Held.step ht h hp hg

theorem restores_of_holds {p : SessionPool} {a : Action (system cfg)} (hp : Holds cfg t p)
    (hg : spared cfg t.key p a = true) : Restores cfg t.key p a := by
  obtain ⟨sight, ht, hheld⟩ := hp
  refine ⟨?_, ?_⟩
  · cases a with
    | call call => exact hg
    | _ => rfl
  · rintro i ch ttl record rfl hpend
    exact hheld i ((Pool.live_pending hpend).trans ((ht.allowed hpend) rfl).1)

theorem restores_run {p q : SessionPool} (hp : Holds cfg t p)
    (run : Run (system cfg) (fun p a => spared cfg t.key p a = true) p q) : Run (system cfg) (Restores cfg t.key) p q := by
  have hstep : ∀ p a q, Holds cfg t p → spared cfg t.key p a = true → p.step (system cfg) a = some q → Holds cfg t q :=
    fun p a q hp hg hstep => holds_run hp (.step (.refl p) hg hstep)
  exact (run.strengthen hp hstep).2.mono fun p a h => restores_of_holds h.2 h.1

end

/-! ### What is gone -/

/-- The record of the key is gone for every call that knows so, and once its revocation is
answered. -/
structure Final (t : Target) (w : World) (tr : SessionTrace) (sight : Nat → Sight) : Prop where
  gone : ∀ {i}, sight i = .gone → w.records.lookup t.key = none
  revoked : ∀ e ∈ tr, t.revokedBy e.op → w.records.lookup t.key = none

section
variable {cfg : Settings} {t : Target} {w : World} {tr : SessionTrace} {sight : Nat → Sight} {i : Nat} {o : Op}
  {ch : Choice}

theorem absent_perform (habsent : w.records.lookup t.key = none)
    (hpres : ∀ ttl record, o = .setex t.key ttl record → (w.records.lookup t.key).isSome = true) :
    (perform cfg o ch w).2.records.lookup t.key = none := by
  have hset : ∀ ttl record, o ≠ .setex t.key ttl record := by
    intro ttl record ho
    have hsome := hpres ttl record ho
    simp [habsent] at hsome
  have hcases : (perform cfg o ch w).2.records.lookup t.key = w.records.lookup t.key ∨
      (perform cfg o ch w).2.records.lookup t.key = none := lookup_perform hset
  rcases hcases with heq | hnone
  · exact heq.trans habsent
  · exact hnone

theorem next_error (cfg : Settings) (t : Target) (sight : Sight) (o : Op) (message : String) :
    sight.next cfg t o (.error message) = sight ∨ sight.next cfg t o (.error message) = sight.drop := by
  cases o with
  | del keys =>
    simp only [Sight.next]
    split
    · exact .inr rfl
    · exact .inl rfl
  | _ => exact .inl rfl

theorem gone_next {sight : Sight} (h : sight.next cfg t o (perform cfg o ch w).1 = .gone) :
    sight = .gone ∨ (perform cfg o ch w).2.records.lookup t.key = none := by
  rcases perform_cases cfg o ch w with hok | ⟨message, herror⟩
  · rw [hok] at h ⊢
    cases o with
    | get key =>
      simp only [answer] at h ⊢
      cases hlook : w.records.lookup key with
      | some record =>
        rw [hlook] at h
        simp only [Sight.next] at h
        split at h
        · cases sight <;> cases h
          exact .inl rfl
        · exact .inl h
      | none =>
        rw [hlook] at h
        simp only [Sight.next] at h
        split at h
        · rename_i hkey
          exact .inr (hkey ▸ hlook)
        · exact .inl h
    | del keys =>
      simp only [answer, Sight.next] at h ⊢
      split at h
      · rename_i hkey
        right
        rw [lookup_foldl_erase, if_pos hkey]
      · exact .inl h
    | scan cursor =>
      simp only [answer] at h ⊢
      simp only [Sight.next] at h
      split at h
      · rename_i hmissing
        right
        rw [AList.lookup_eq_none, AList.mem_keys]
        intro hmem
        exact hmissing.1 (mem_filter.mpr ⟨hmem, decide_eq_true hmissing.2⟩)
      · exact .inl h
    | setex key ttl record =>
      left
      simp only [Sight.next] at h
      split at h
      · cases sight <;> cases h
        rfl
      · exact h
    | _ => exact .inl h
  · rw [herror] at h
    left
    rcases next_error cfg t sight o message with heq | heq
    · exact heq.symm.trans h
    · have hdrop := heq.symm.trans h
      cases sight <;> cases hdrop
      rfl

theorem Final.step (h : Final t w tr sight) (ha : (sight i).Allows t o)
    (hpres : ∀ ttl record, o = .setex t.key ttl record → (w.records.lookup t.key).isSome = true) :
    Final t (perform cfg o ch w).2 (⟨i, o, (perform cfg o ch w).1⟩ :: tr)
      (update sight i ((sight i).next cfg t o (perform cfg o ch w).1)) where
  gone := by
    intro j hj
    by_cases hji : j = i
    · subst hji
      rw [update_self] at hj
      rcases gone_next hj with hpre | hnone
      · exact absent_perform (h.gone hpre) hpres
      · exact hnone
    · rw [update_of_ne hji] at hj
      exact absent_perform (h.gone hj) hpres
  revoked := by
    intro e he hrev
    rcases mem_cons.mp he with rfl | he
    · cases o with
      | answer a => exact h.gone (ha.2 hrev)
      | _ => exact absurd hrev id
    · exact absent_perform (h.revoked e he hrev) hpres

end

section
variable (cfg : Settings) (t : Target)

theorem present_of_pending {p : SessionPool} {i : Nat} {o : Op} {ch : Choice} (hg : Restores cfg t.key p (.step i ch))
    (hp : p.pending i = some o) (ttl : Int) (record : SessionKeyRecord) (ho : o = .setex t.key ttl record) :
    (p.world.records.lookup t.key).isSome = true := by
  subst ho
  exact hg.2 i ch ttl record rfl hp

theorem final_inductive :
    Inductive (system cfg) (revoking cfg t) .free (Restores cfg t.key) fun w tr sight => Known t w tr sight ∧
      Final t w tr sight := by
  apply (@known_inductive cfg t (Restores cfg t.key) fun p call hg => hg.1).and
  · exact fun _ _ h => h
  · rintro p sight call w - - h ⟨⟩
    exact h
  · intro p sight e _ _ h
    have hkept : p.world.records.lookup t.key = none → (drift e p.world).records.lookup t.key = none := by
      intro hnone
      rcases lookup_drift t.key e p.world with heq | hnone'
      · exact heq.trans hnone
      · exact hnone'
    exact ⟨fun hi => hkept (h.gone hi), fun e he hrev => hkept (h.revoked e he hrev)⟩
  · rintro p sight i o ch _ hg hp _ h ha ⟨-, rfl⟩
    exact h.step ha (present_of_pending cfg t hg hp)

/-- The record is gone, and no call that has come since has signed with the key. -/
structure Later (n : Nat) (w : World) (tr : SessionTrace) (sight : Nat → Sight) : Prop where
  absent : w.records.lookup t.key = none
  unwritten : ∀ i, n ≤ i → sight i ≠ .charged
  unsigned : ∀ e ∈ tr, n ≤ e.runner → ¬ t.signedBy e.op

theorem charged_of_next {sight : Sight} {o : Op} {ch : Choice} {w : World} (habsent : w.records.lookup t.key = none)
    (hpres : ∀ ttl record, o = .setex t.key ttl record → (w.records.lookup t.key).isSome = true)
    (h : sight.next cfg t o (perform cfg o ch w).1 = .charged) : sight = .charged := by
  cases hr : (perform cfg o ch w).1 with
  | error message =>
    rw [hr] at h
    rcases next_error cfg t sight o message with heq | heq
    · exact heq.symm.trans h
    · have hdrop := heq.symm.trans h
      cases sight <;> cases hdrop
      rfl
  | ok a =>
    rw [hr] at h
    cases o with
    | setex key ttl record =>
      by_cases hkey : key = t.key
      · have hsome := hpres ttl record (by rw [hkey])
        simp [habsent] at hsome
      · simp only [Sight.next, if_neg hkey] at h
        exact h
    | get key =>
      cases a with
      | some record =>
        simp only [Sight.next] at h
        split at h
        · cases sight <;> cases h
        · exact h
      | none =>
        simp only [Sight.next] at h
        split at h
        · cases h
        · exact h
    | del keys =>
      simp only [Sight.next] at h
      split at h
      · cases h
      · exact h
    | scan cursor =>
      simp only [Sight.next] at h
      split at h
      · cases h
      · exact h
    | _ => exact h

theorem later_inductive (n : Nat) : Inductive (system cfg) (revoking cfg t) .free (Restores cfg t.key)
      fun w tr sight => (Known t w tr sight ∧ Final t w tr sight) ∧ Later t n w tr sight := by
  apply (final_inductive cfg t).and
  · exact fun _ _ h => h
  · rintro p sight call w - - h ⟨⟩
    exact h
  · intro p sight e _ _ h
    refine ⟨?_, h.unwritten, h.unsigned⟩
    rcases lookup_drift t.key e p.world with heq | hnone
    · exact heq.trans h.absent
    · exact hnone
  · rintro p sight i o ch _ hg hp ht h ha ⟨-, rfl⟩
    have hpres := present_of_pending cfg t hg hp
    refine ⟨absent_perform h.absent hpres, ?_, ?_⟩
    · intro j hj hchg
      by_cases hji : j = i
      · subst hji
        rw [update_self] at hchg
        exact h.unwritten j hj (charged_of_next cfg t h.absent hpres hchg)
      · rw [update_of_ne hji] at hchg
        exact h.unwritten j hj hchg
    · intro e he hrunner hsig
      rcases mem_cons.mp he with rfl | he
      · cases o with
        | answer a => exact h.unwritten i hrunner (ha.1 hsig)
        | _ => exact absurd hsig id
      · exact h.unsigned e he hrunner hsig

end

/-- **Revocation is final**, in every run in which the record of the key is removed only while no other call has it
in hand, and the key is not created anew. -/
theorem revocation_final {cfg : Settings} {k : String} {w : World} {q r : SessionPool}
    {record : SessionKeyRecord} (start : w.records.lookup k = some record)
    (run : Run (system cfg) (fun p a => spared cfg k p a = true) (Pool.start w) q)
    (returned : ∃ e ∈ q.trace, (⟨k, record.userId, w.owners⟩ : Target).revokedBy e.op)
    (later : Run (system cfg) (fun p a => spared cfg k p a = true) q r) :
    r.world.records.lookup k = none ∧
      ∀ e ∈ r.trace, q.runners.length ≤ e.runner → ∀ dto result, e.op = .answer (.signed dto result) →
        dto.sessionPublicKey = k → ∃ error, result = .denied error := by
  let t : Target := ⟨k, record.userId, w.owners⟩
  have hknown : Known t w [] fun _ => .free := by
    refine ⟨?_, rfl, fun i hi => by cases hi⟩
    intro stored hstore
    cases start.symm.trans hstore
    rfl
  have hfinal : Final t w [] fun _ => .free := by
    refine ⟨?_, fun e he => absurd he not_mem_nil⟩
    intro i hi
    cases hi
  have hholds : Holds cfg t (Pool.start w) := by
    refine ⟨fun _ => .free, .start hknown, ?_⟩
    intro i hi
    simp [Pool.live] at hi
  obtain ⟨sight, ht⟩ := (final_inductive cfg t).run (restores_run hholds run) ⟨_, .start ⟨hknown, hfinal⟩⟩
  obtain ⟨e, he, hrev⟩ := returned
  have hlater : Later t q.runners.length q.world q.trace sight := by
    refine ⟨ht.holds.2.revoked e he hrev, ?_, ?_⟩
    · intro i hi hchg
      simp [ht.fresh i hi] at hchg
    · intro e he hrunner
      have hlt := run.performed e he
      omega
  obtain ⟨sight', ht'⟩ := (later_inductive cfg t q.runners.length).run (restores_run (holds_run hholds run) later)
    ⟨sight, ht.mono fun h => ⟨h, hlater⟩⟩
  refine ⟨ht'.holds.2.absent, ?_⟩
  intro e he hrunner dto result hop hkey
  cases result with
  | denied error => exact ⟨error, rfl⟩
  | signed signedTxXdr remaining =>
    have hsig : t.signedBy e.op := by
      rw [hop]
      exact hkey
    exact absurd hsig (ht'.holds.2.unsigned e he hrunner)

def sampleExecute : Call := .execute ⟨"GWALLET", none, false⟩ 1

/-- The proposals are cancelled, the owners resolved, the key found and deleted. -/
def flushes (i : Nat) : List (Action (system sampleSettings)) :=
  [.step i {}, .step i {}, .step i {}, .step i {}, .step i {}, .step i {}]

def sampleTarget : Target := ⟨"GKEY", sampleRecord.userId, sampleWorld.owners⟩

def flushed : SessionPool :=
  (Pool.start sampleWorld).reached (system sampleSettings) (spared sampleSettings "GKEY")
    (.call (sampleSign "60") :: loads 0 ++ charges 0 ++ .call sampleExecute :: flushes 1)

/-- The next call is denied. -/
theorem revocation_final_flushed : ∃ r, Run (system sampleSettings) (fun p a => spared sampleSettings "GKEY" p a = true)
        (Pool.start sampleWorld) flushed ∧
      Run (system sampleSettings) (fun p a => spared sampleSettings "GKEY" p a = true) flushed r ∧
      r.world.records.lookup "GKEY" = none := by
  have hrun : Run (system sampleSettings) (fun p a => spared sampleSettings "GKEY" p a = true)
      (Pool.start sampleWorld) flushed := .of_reached (by decide +kernel)
  obtain ⟨r, hlater, -⟩ := Run.exists_of_any flushed (spared sampleSettings "GKEY")
    [.call (sampleSign "10"), .step 2 {}, .step 2 {}] (fun r => r.quiet) (by decide)
  have hret : ∃ e ∈ flushed.trace, sampleTarget.revokedBy e.op := ⟨_, mem_cons_self, .inl (by decide)⟩
  have hstart : sampleWorld.records.lookup "GKEY" = some sampleRecord := by decide
  exact ⟨r, hrun, hlater, (revocation_final hstart hrun hret hlater).1⟩

def revokes (i : Nat) : List (Action (system sampleSettings)) := [.step i {}, .step i {}, .step i {}]

def signs (i : Nat) (q : SessionPool) : Bool :=
  q.trace.any fun e => e.runner = i && match e.op with
    | .answer (.signed _ (.signed _ _)) => true
    | _ => false

def revoked : SessionPool :=
  (Pool.start sampleWorld).reached (system sampleSettings) (fun _ a => onCall (notCreating "GKEY") a)
    (.call (sampleSign "60") :: .call (.revoke none "GKEY") :: loads 0 ++ revokes 1)

/-- **A revoked key signs.** The call writes its copy of the record back, and a call that starts
after the revocation has returned signs with the key. -/
theorem revoked_key_signs :
    Run (system sampleSettings) (fun _ a => onCall (notCreating "GKEY") a = true) (Pool.start sampleWorld) revoked ∧
      (∃ e ∈ revoked.trace, sampleTarget.revokedBy e.op) ∧ revoked.world.records.lookup "GKEY" = none ∧
      revoked.runners.length = 2 ∧
      ∃ r, Run (system sampleSettings) (fun _ a => onCall (notCreating "GKEY") a = true) revoked r ∧
        signs 2 r = true ∧ (r.world.records.lookup "GKEY").isSome = true := by
  obtain ⟨r, hlater, htest⟩ := Run.exists_of_any revoked (fun _ a => onCall (notCreating "GKEY") a)
    (charges 0 ++ .call (sampleSign "10") :: loads 2 ++ charges 2 : List (Action (system sampleSettings)))
    (fun r => decide (signs 2 r = true ∧ (r.world.records.lookup "GKEY").isSome = true)) (by decide)
  exact ⟨.of_reached (by decide), ⟨_, mem_cons_self, rfl⟩, by decide, by decide, r,
    hlater, of_decide_eq_true htest⟩

end Delego.SessionKeys
