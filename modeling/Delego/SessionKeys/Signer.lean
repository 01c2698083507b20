import Delego.Process.Pool
import Mathlib.Data.List.AList

/-! Session keys (`wallet/src/sessionKeys/sessionKeySigner.ts`, `sessionKeyCache.ts`) and the emergency kill switch
(`wallet/src/killswitch/service.ts`).

`signWithSessionKey` reads the record of a key, checks the request against its policy and what is left of its limit,
fetches the private key and writes the whole record back with the new amount; `revokeSessionKey` and the kill switch
delete it. Every command, query and vault access is one operation, which may throw.

Each node has its own cache of revocations, which a published message reaches later or never. Amounts that callers give
stay texts. -/
namespace Delego.SessionKeys
open Delego.Process Function

/-- What a key may sign. -/
structure SessionKeyPolicy where
  (allowedContracts allowedMethods : List String)
  (maxPerCallStroops maxTotalStroops : String)
  expiresInSeconds : Int
  deriving DecidableEq

/-- The record of a key, in Redis. -/
structure SessionKeyRecord where
  (sessionPublicKey userId encryptedPrivateKey vaultKeyPath spendingLimitStroops : String)
  /-- Written by the signer alone, as the text of a `bigint`. -/
  (spentAmountStroops expiresAt : Int)
  policy : SessionKeyPolicy
  deriving DecidableEq

structure SignWithSessionKeyDTO where
  (sessionPublicKey contractCallXdr requestedAmountStroops : String)

inductive SignResult where
  | signed (signedTxXdr : String) (remainingBudgetStroops : Int)
  | denied (error : String)

structure SessionKeyCacheEntry where
  (keyId publicKey ownerAddress : String)
  expiresAtLedger : Int
  isRevoked : Bool

structure EmergencyRevocationDTO where
  walletAddress : String
  adminSecretToken : Option String
  revokeOnChain : Bool

structure EmergencyRevocationResult where
  (cancelledProposalCount flushedSessionCount revokedPermissionCount : Nat)

/-- A row of `session_keys`. -/
structure SessionKeyRow where
  spentAmountStroops : Int
  revoked : Bool

/-! ### Operations -/

inductive Answer where
  | signed (dto : SignWithSessionKeyDTO) (result : SignResult)
  | revoked (sessionPublicKey : String)
  | executed (walletAddress : String) (result : EmergencyRevocationResult)
  | created (record : SessionKeyRecord)

inductive Op where
  | get (sessionPublicKey : String)
  | setex (sessionPublicKey : String) (ttl : Int) (record : SessionKeyRecord)
  | del (sessionPublicKeys : List String)
  | scan (cursor : Nat)
  | publish (sessionPublicKey : String)
  | vaultRead (path : String)
  | vaultWrite (path encryptedPrivateKey : String)
  | insertRow (record : SessionKeyRecord)
  | updateSpent (sessionPublicKey : String) (spent : Int)
  | updateRevoked (sessionPublicKey : String)
  | cancelProposals (walletAddress : String)
  | resolveUserIds (walletAddress : String)
  | revokePermissions (walletAddress : String) (sessionAddresses : List String)
  /-- `Math.floor(Date.now() / 1000)` -/
  | now
  | cacheGet (node : Nat) (sessionPublicKey : String)
  | cacheSet (node : Nat) (entry : SessionKeyCacheEntry)
  | cacheDelete (node : Nat) (sessionPublicKey : String)
  | markRevoked (node : Nat) (sessionPublicKey : String)
  | answer (answer : Answer)

@[reducible] def Op.Reply : Op → Type
  | .get _ => Option SessionKeyRecord
  | .scan _ => Nat × List String
  | .vaultRead _ => Option String
  | .cancelProposals _ => Nat
  | .resolveUserIds _ => List String
  | .now => Int
  | .cacheGet _ _ => Option SessionKeyCacheEntry
  | _ => Unit

@[reducible] def sessionSignature : Signature := ⟨Op, Op.Reply, String⟩

abbrev SessionM := Program sessionSignature

def op (o : Op) : SessionM o.Reply := Program.perform (S := sessionSignature) o

structure Settings where
  /-- `BigInt(text)`; none where it throws. -/
  bigInt : String → Option Int
  isValidStellarPublicKey : String → Bool
  adminSecret : Option String
  /-- `SCAN` goes through the slots of the key space; a key stays in its slot. -/
  slot : String → Nat
  lastSlot : Nat

abbrev Records := AList fun _ : String => SessionKeyRecord

structure World where
  records : Records
  vault : String → Option String
  rows : String → Option SessionKeyRow
  owners : String → List String
  /-- The caches of the nodes, with the time of each entry. -/
  caches : Nat → String → Option (SessionKeyCacheEntry × Int)
  published : List String

/-- What the environment decides about an operation. -/
structure Choice where
  fate : Fate := .done
  /-- `Date.now()` -/
  time : Int := 0
  cancelled : Nat := 0

def MAX_LOCAL_CACHE_TTL_MS : Int := 5000

section
variable (cfg : Settings)

def World.setCache (w : World) (node : Nat) (key : String) (entry : Option (SessionKeyCacheEntry × Int)) : World :=
  { w with caches := update w.caches node (update (w.caches node) key entry) }

/-- `SessionKeyRevocationCache.markRevoked` -/
def World.markRevoked (w : World) (node : Nat) (key : String) (time : Int) : World :=
  let existing := (w.caches node key).map Prod.fst
  w.setCache node key (some (
    { keyId := (existing.map SessionKeyCacheEntry.keyId).getD key, publicKey := key
      ownerAddress := (existing.map SessionKeyCacheEntry.ownerAddress).getD ""
      expiresAtLedger := (existing.map SessionKeyCacheEntry.expiresAtLedger).getD 0
      isRevoked := true }, time))

@[simp] def answer (o : Op) (ch : Choice) (w : World) : o.Reply × World :=
  match o with
  | .get key => (w.records.lookup key, w)
  | .setex key _ record => ((), { w with records := w.records.insert key record })
  | .del keys => ((), { w with records := keys.foldl (fun records key => records.erase key) w.records })
  | .scan cursor =>
    ((if cursor < cfg.lastSlot then cursor + 1 else 0,
      w.records.keys.filter fun key => decide (cfg.slot key % (cfg.lastSlot + 1) = cursor)), w)
  | .publish key => ((), { w with published := key :: w.published })
  | .vaultRead path => (w.vault path, w)
  | .vaultWrite path encryptedPrivateKey =>
    ((), { w with vault := update w.vault path (some encryptedPrivateKey) })
  | .insertRow record =>
    ((), { w with rows := update w.rows record.sessionPublicKey (some ⟨record.spentAmountStroops, false⟩) })
  | .updateSpent key spent =>
    let row := (w.rows key).map fun row => { row with spentAmountStroops := spent }
    ((), { w with rows := update w.rows key row })
  | .updateRevoked key =>
    let row := (w.rows key).map fun row => { row with revoked := true }
    ((), { w with rows := update w.rows key row })
  | .cancelProposals _ => (ch.cancelled, w)
  | .resolveUserIds walletAddress => (w.owners walletAddress, w)
  | .revokePermissions _ _ => ((), w)
  | .now => (ch.time / 1000, w)
  | .cacheGet node key => match w.caches node key with
    | none => (none, w)
    | some (entry, cachedAt) =>
      if MAX_LOCAL_CACHE_TTL_MS < ch.time - cachedAt then (none, w.setCache node key none)
      else (some entry, w)
  | .cacheSet node entry => ((), w.setCache node entry.publicKey (some (entry, ch.time)))
  | .cacheDelete node key => ((), w.setCache node key none)
  | .markRevoked node key => ((), w.markRevoked node key ch.time)
  | .answer _ => ((), w)

def Op.local : Op → Bool
  | .now => true
  | .cacheGet _ _ => true
  | .cacheSet _ _ => true
  | .cacheDelete _ _ => true
  | .markRevoked _ _ => true
  | .answer _ => true
  | _ => false

def Op.refused : Op → Bool
  | .setex _ ttl _ => decide (ttl ≤ 0)
  | _ => false

def perform (o : Op) (ch : Choice) (w : World) : Except String o.Reply × World :=
  if o.refused then (.error "ERR invalid expire time in 'setex' command", w)
  else (if o.local then Fate.done else ch.fate).carry (answer cfg o ch w) w

end

/-- The node that a call runs on, if it has a cache. -/
abbrev Node := Option Nat

def HIGH_VALUE_THRESHOLD_STROOPS : Int := 100000000000

def isHighValueAmount (cfg : Settings) (requestedAmountStroops : String) : Bool :=
  match cfg.bigInt requestedAmountStroops with
  | some amount => decide (HIGH_VALUE_THRESHOLD_STROOPS < amount)
  | none => true

/-- `this.revocationCache?.get(..)?.isRevoked` -/
def cachedRevoked (node : Node) (sessionPublicKey : String) : SessionM Bool :=
  match node with
  | none => return false
  | some node => do
    let cached ← op (.cacheGet node sessionPublicKey)
    return cached.any SessionKeyCacheEntry.isRevoked

def onCache (node : Node) (o : Nat → SessionM Unit) : SessionM Unit :=
  match node with
  | none => return ()
  | some node => o node

def broadcastRevocation (node : Nat) (sessionPublicKey : String) : SessionM Unit := do
  op (.markRevoked node sessionPublicKey)
  let _ ← (op (.publish sessionPublicKey)).attempt
  return ()

def parse (cfg : Settings) (text : String) : SessionM Int :=
  match cfg.bigInt text with
  | some value => return value
  | none => .fail s!"Cannot convert {text} to a BigInt"

def extractContractIdFromXdr (_xdr : String) : String := "EXTRACTED_CONTRACT_ID"

def extractMethodFromXdr (_xdr : String) : String := "EXTRACTED_METHOD"

def signTransaction (xdr _encryptedKey : String) : String := xdr ++ "_SIGNED"

def DEFAULT_EXPIRY_SECONDS : Int := 86400

def newRecord (userId publicKey encryptedPrivateKey : String) (policy : SessionKeyPolicy) (now : Int) :
    SessionKeyRecord where
  sessionPublicKey := publicKey
  userId := userId
  encryptedPrivateKey := encryptedPrivateKey
  vaultKeyPath := s!"delego/session-keys/{userId}/{publicKey}"
  spendingLimitStroops := policy.maxTotalStroops
  spentAmountStroops := 0
  expiresAt := now + policy.expiresInSeconds
  policy := policy

def createSessionKey (userId publicKey encryptedPrivateKey : String) (policy : SessionKeyPolicy) :
    SessionM SessionKeyRecord := do
  op (.vaultWrite s!"delego/session-keys/{userId}/{publicKey}" encryptedPrivateKey)
  let now ← op .now
  let record := newRecord userId publicKey encryptedPrivateKey policy now
  let ttl := if policy.expiresInSeconds = 0 then DEFAULT_EXPIRY_SECONDS else policy.expiresInSeconds
  op (.setex publicKey ttl record)
  op (.insertRow record)
  return record

/-- Steps 7 to 9: the key is fetched and used, and the record is written back. -/
def signAndCharge (dto : SignWithSessionKeyDTO) (record : SessionKeyRecord) (now amount limit : Int) :
    SessionM SignResult := do
  let encryptedKey ← op (.vaultRead record.vaultKeyPath)
  match encryptedKey.filter fun key => decide (key ≠ "") with
  | none => return .denied "Failed to retrieve session key from Vault"
  | some encryptedKey => do
    let signedTxXdr := signTransaction dto.contractCallXdr encryptedKey
    let newSpent := record.spentAmountStroops + amount
    op (.setex dto.sessionPublicKey (record.expiresAt - now) { record with spentAmountStroops := newSpent })
    op (.updateSpent dto.sessionPublicKey newSpent)
    return .signed signedTxXdr (limit - newSpent)

def checkAndSign (cfg : Settings) (dto : SignWithSessionKeyDTO) (record : SessionKeyRecord) (now : Int) :
    SessionM SignResult := do
  let requestedAmount ← parse cfg dto.requestedAmountStroops
  if requestedAmount ≤ 0 then return .denied "Requested amount must be positive"
  else do
    let maxPerCall ← parse cfg record.policy.maxPerCallStroops
    if maxPerCall < requestedAmount then
      return .denied s!"Requested amount {requestedAmount} exceeds per-call limit {maxPerCall}"
    else do
      let limit ← parse cfg record.spendingLimitStroops
      let remaining := limit - record.spentAmountStroops
      if remaining < requestedAmount then
        return .denied s!"Requested amount {requestedAmount} exceeds remaining budget {remaining}"
      else
        let contractId := extractContractIdFromXdr dto.contractCallXdr
        let method := extractMethodFromXdr dto.contractCallXdr
        if ¬ contractId ∈ record.policy.allowedContracts then
          return .denied s!"Contract {contractId} not allowed by session key policy"
        else if ¬ method ∈ record.policy.allowedMethods then
          return .denied s!"Method {method} not allowed by session key policy"
        else signAndCharge dto record now requestedAmount limit

def loadAndSign (cfg : Settings) (node : Node) (dto : SignWithSessionKeyDTO) : SessionM SignResult := do
  let raw ← op (.get dto.sessionPublicKey)
  match raw with
  | none => do
    onCache node fun node => op (.cacheDelete node dto.sessionPublicKey)
    return .denied "Session key not found or expired"
  | some record => do
    onCache node fun node => op (.cacheSet node
      { keyId := record.vaultKeyPath, publicKey := record.sessionPublicKey, ownerAddress := record.userId
        expiresAtLedger := record.expiresAt
        isRevoked := false })
    let now ← op .now
    if record.expiresAt ≤ now then do
      op (.del [dto.sessionPublicKey])
      return .denied "Session key has expired"
    else checkAndSign cfg dto record now

def signWithSessionKey (cfg : Settings) (node : Node) (dto : SignWithSessionKeyDTO) : SessionM SignResult := do
  let revoked ← (if isHighValueAmount cfg dto.requestedAmountStroops then .ret false
    else cachedRevoked node dto.sessionPublicKey : SessionM Bool)
  if revoked then return .denied "Session key has been revoked"
  else loadAndSign cfg node dto

def revokeSessionKey (node : Node) (sessionPublicKey : String) : SessionM Unit := do
  op (.del [sessionPublicKey])
  op (.updateRevoked sessionPublicKey)
  onCache node fun node => broadcastRevocation node sessionPublicKey

/-! ### The kill switch -/

def assertAuthorized (cfg : Settings) (token : Option String) : SessionM Unit :=
  match cfg.adminSecret.filter fun secret => decide (secret ≠ "") with
  | none => return ()
  | some expected => match token.filter fun token => decide (token ≠ "") with
    | none => .fail "Administrator authorization is required"
    | some token => if token ≠ expected then .fail "Invalid administrator authorization token" else return ()

def addSession (userIds : List String) (walletAddress key : String) (sessions : List (String × String)) :
    Option SessionKeyRecord → List (String × String)
  | none => sessions
  | some record =>
    if record.userId ∈ userIds ∨ record.userId = walletAddress then sessions ++ [(key, record.sessionPublicKey)]
    else sessions

def examine (userIds : List String) (walletAddress : String) :
    List String → List (String × String) → SessionM (List (String × String))
  | [], sessions => return sessions
  | key :: keys, sessions => do
    let raw ← op (.get key)
    examine userIds walletAddress keys (addSession userIds walletAddress key sessions raw)

def findSessions (userIds : List String) (walletAddress : String) :
    Nat → Nat → List (String × String) → SessionM (Option (List (String × String)))
  | 0, _, _ => return none
  | rounds + 1, cursor, sessions => do
    let scanned ← op (.scan cursor)
    let sessions ← examine userIds walletAddress scanned.2 sessions
    if scanned.1 = 0 then return some sessions
    else findSessions userIds walletAddress rounds scanned.1 sessions

def DELETE_BATCH_SIZE : Nat := 500

def batches : Nat → List String → List (List String)
  | 0, _ => []
  | _ + 1, [] => []
  | fuel + 1, keys => keys.take DELETE_BATCH_SIZE :: batches fuel (keys.drop DELETE_BATCH_SIZE)

def deleteBatches : List (List String) → SessionM Unit
  | [] => return ()
  | batch :: rest => do
    op (.del batch)
    deleteBatches rest

def revokeOnChain (dto : EmergencyRevocationDTO) (sessionAddresses : List String) : SessionM Unit :=
  if dto.revokeOnChain && !sessionAddresses.isEmpty then op (.revokePermissions dto.walletAddress sessionAddresses)
  else return ()

def execute (cfg : Settings) (dto : EmergencyRevocationDTO) (rounds : Nat) :
    SessionM (Option EmergencyRevocationResult) :=
  if cfg.isValidStellarPublicKey dto.walletAddress = false then .fail "A valid wallet address is required"
  else do
    assertAuthorized cfg dto.adminSecretToken
    let cancelled ← op (.cancelProposals dto.walletAddress)
    let userIds ← op (.resolveUserIds dto.walletAddress)
    let found ← findSessions userIds dto.walletAddress rounds 0 []
    match found with
    | none => return none
    | some sessions => do
      let sessionKeys := sessions.map Prod.fst
      deleteBatches (batches sessionKeys.length sessionKeys)
      let sessionAddresses := (sessions.map Prod.snd).dedup
      revokeOnChain dto sessionAddresses
      return some
        { cancelledProposalCount := cancelled, flushedSessionCount := sessionKeys.length
          revokedPermissionCount := if dto.revokeOnChain then sessionAddresses.length else 0 }

inductive Call where
  | sign (node : Node) (dto : SignWithSessionKeyDTO)
  | revoke (node : Node) (sessionPublicKey : String)
  | execute (dto : EmergencyRevocationDTO) (rounds : Nat)
  | create (userId publicKey encryptedPrivateKey : String) (policy : SessionKeyPolicy)

def Call.body (cfg : Settings) : Call → SessionM Unit
  | .sign node dto => do
    let result ← signWithSessionKey cfg node dto
    op (.answer (.signed dto result))
  | .revoke node sessionPublicKey => do
    revokeSessionKey node sessionPublicKey
    op (.answer (.revoked sessionPublicKey))
  | .execute dto rounds => do
    let result ← SessionKeys.execute cfg dto rounds
    match result with
    | none => return ()
    | some result => op (.answer (.executed dto.walletAddress result))
  | .create userId publicKey encryptedPrivateKey policy => do
    let record ← createSessionKey userId publicKey encryptedPrivateKey policy
    op (.answer (.created record))

inductive Event where
  /-- The time to live of a record is over. -/
  | lapse (sessionPublicKey : String)
  /-- A published revocation reaches a node. -/
  | deliver (node : Nat) (sessionPublicKey : String) (time : Int)

def drift (e : Event) (w : World) : World :=
  match e with
  | .lapse key => { w with records := w.records.erase key }
  | .deliver node key time => if key ∈ w.published then w.markRevoked node key time else w

def system (cfg : Settings) : System sessionSignature World where
  Choice := Choice
  Event := Event
  Call := Call
  perform := perform cfg
  drift := drift
  arrive := fun _ w => some w
  body := Call.body cfg

abbrev SessionPool := Pool sessionSignature World

abbrev SessionTrace := List (Entry sessionSignature)

section
variable {cfg : Settings} {k : String} {o : Op} {ch : Choice} {w : World}

theorem lookup_foldl_erase (keys : List String) (records : Records) :
    (keys.foldl (fun records key => records.erase key) records).lookup k =
      if k ∈ keys then none else records.lookup k := by
  induction keys generalizing records with
  | nil => simp
  | cons key keys ih =>
    rw [List.foldl_cons, ih]
    by_cases hkeys : k ∈ keys
    · simp [hkeys]
    · by_cases hkey : k = key
      · subst hkey
        simp [AList.lookup_erase]
      · simp [hkeys, hkey, AList.lookup_erase_ne hkey]

theorem lookup_kept (h : ∀ ttl record, o ≠ .setex k ttl record) (hdel : ∀ keys, o = .del keys → k ∉ keys) :
    (perform cfg o ch w).2.records.lookup k = w.records.lookup k := by
  unfold perform
  split
  · rfl
  · refine Fate.carry_kept (P := fun w' : World => w'.records.lookup k = w.records.lookup k) rfl ?_
    cases o with
    | setex key ttl record =>
      have hkey : k ≠ key := by
        rintro rfl
        exact h ttl record rfl
      exact AList.lookup_insert_ne hkey
    | del keys =>
      simp only [answer]
      rw [lookup_foldl_erase, if_neg (hdel keys rfl)]
    | cacheGet node key =>
      simp only [answer]
      split
      · rfl
      · split <;> rfl
    | _ => rfl

theorem lookup_del (keys : List String) :
    (perform cfg (.del keys) ch w).2.records.lookup k = w.records.lookup k ∨
      (perform cfg (.del keys) ch w).2.records.lookup k = none := by
  refine Fate.carry_kept (P := fun w' : World => w'.records.lookup k = w.records.lookup k ∨
    w'.records.lookup k = none) (.inl rfl) ?_
  simp only [answer]
  rw [lookup_foldl_erase]
  split
  · exact .inr rfl
  · exact .inl rfl

theorem lookup_perform (h : ∀ ttl record, o ≠ .setex k ttl record) :
    (perform cfg o ch w).2.records.lookup k = w.records.lookup k ∨
      (perform cfg o ch w).2.records.lookup k = none := by
  by_cases hdel : ∃ keys, o = .del keys
  · obtain ⟨keys, rfl⟩ := hdel
    exact lookup_del keys
  · exact .inl (lookup_kept h fun keys ho => absurd ⟨keys, ho⟩ hdel)

theorem lookup_setex {ttl : Int} {record : SessionKeyRecord} {a : Unit}
    (h : (perform cfg (.setex k ttl record) ch w).1 = .ok a) :
    (perform cfg (.setex k ttl record) ch w).2.records.lookup k = some record := by
  unfold perform at h ⊢
  split at h
  · cases h
  · rename_i href
    rw [if_neg href]
    cases hfate : ch.fate with
    | done => simp [Op.local, Fate.carry, answer, AList.lookup_insert]
    | refused message => simp [Op.local, Fate.carry, hfate] at h
    | lost message => simp [Op.local, Fate.carry, hfate] at h

theorem lookup_setex_error {ttl : Int} {record : SessionKeyRecord} {message : String}
    (h : (perform cfg (.setex k ttl record) ch w).1 = .error message)
    (hlost : ∀ message, ch.fate ≠ .lost message) :
    (perform cfg (.setex k ttl record) ch w).2.records.lookup k = w.records.lookup k := by
  unfold perform at h ⊢
  split at h
  · rename_i href
    rw [if_pos href]
  · rename_i href
    rw [if_neg href]
    cases hfate : ch.fate with
    | done => simp [Op.local, Fate.carry, hfate] at h
    | refused message => rfl
    | lost message => exact absurd hfate (hlost message)

theorem perform_cases (cfg : Settings) (o : Op) (ch : Choice) (w : World) :
    perform cfg o ch w = (.ok (answer cfg o ch w).1, (answer cfg o ch w).2) ∨
      ∃ message, (perform cfg o ch w).1 = .error message := by
  unfold perform
  split
  · exact .inr ⟨_, rfl⟩
  · cases (if o.local then Fate.done else ch.fate) with
    | done => exact .inl rfl
    | refused message => exact .inr ⟨message, rfl⟩
    | lost message => exact .inr ⟨message, rfl⟩

theorem local_perform (cfg : Settings) (ch : Choice) (w : World) (h : o.local = true) :
    ∃ a, (perform cfg o ch w).1 = .ok a := by
  have href : o.refused = false := by
    cases o with
    | setex key ttl record => cases h
    | _ => rfl
  simp only [perform, href, h, if_true, Bool.false_eq_true, if_false]
  exact ⟨_, rfl⟩

end
end Delego.SessionKeys
