import Delego.Data.Calendar
import Delego.Data.Table
import Delego.Process.Pool
import Delego.Process.Extend

/-! Refresh tokens that rotate, and families of them that are revoked.

Each access to the blacklist, each read of a row and each write of rows is one step. What a signature or a hash is
checked for is asked of the environment, as are the clock, the random ids and the texts that are signed. An access
may fail with nothing done. -/
namespace Delego.Tokens
open Delego.Data Delego.Process

inductive RevocationReason where
  | logout | password_change | security | admin

structure TokenBinding where
  deviceId : String
  fingerprint : Option String

structure TokenConfig where
  (accessTokenTtlSeconds refreshTokenTtlSeconds : Int)
  rotationEnabled : Bool

structure TokenPair where
  (accessToken refreshToken : String)
  (expiresIn refreshExpiresIn : Int)
  (tokenType scope : String)

structure RevokedToken where
  (jti userId : String)
  revokedAt : Instant
  reason : RevocationReason
  expiresAt : Instant

/-- The claims of a token whose signature is good, each if it is of its type. -/
structure JwtPayload where
  (sub userId jti deviceId scope tokenType familyId secret : Option String)
  exp : Option Int

inductive TokenType where
  | refresh | bearer
  deriving DecidableEq

/-- What a token says. -/
structure TokenClaims where
  (userId jti : String)
  deviceId : Option String
  scope : String
  tokenType : TokenType
  (familyId secret : Option String)
  exp : Int

/-- A row of `refresh_tokens`. -/
structure RefreshToken where
  (id userId tokenHash familyId : String)
  expiresAt : Instant
  revokedAt : Option Instant

structure World where
  rows : List RefreshToken
  blacklist : List RevokedToken

/-! ### Operations -/

inductive Op where
  | verify (token : String)
  | now
  | randomUUID
  | isTokenRevoked (jti : String)
  | revokeToken (entry : RevokedToken)
  | findByPk (id : String)
  | compare (secret hash : String)
  | hash (secret : String)
  | sign
  | findUser (userId : String)
  /-- `UPDATE … WHERE id AND revoked_at IS NULL`, and how many rows it changed. -/
  | retire (id : String) (revokedAt : Instant)
  | revokeFamily (familyId : String) (revokedAt : Instant)
  | create (row : RefreshToken)
  /-- The caller is given a pair in exchange for the token. -/
  | given (jti : String) (pair : TokenPair)

@[reducible] def Op.Reply : Op → Type
  | .verify _ => JwtPayload
  | .now => Instant
  | .randomUUID => String
  | .isTokenRevoked _ => Bool
  | .revokeToken _ => Unit
  | .findByPk _ => Option RefreshToken
  | .compare _ _ => Bool
  | .hash _ => String
  | .sign => String
  | .findUser _ => Option String
  | .retire _ _ => Nat
  | .revokeFamily _ _ => Unit
  | .create _ => Unit
  | .given _ _ => Unit

@[reducible] def tokenSignature : Signature := ⟨Op, Op.Reply, String⟩

abbrev TokenM (α : Type) := Program tokenSignature α

def auth (o : Op) : TokenM o.Reply := Program.perform (S := tokenSignature) o

/-- What the environment decides: whether an access fails, and what it answers. -/
structure Choice where
  failure : Option String
  payload : Except String JwtPayload
  now : Instant
  text : String
  /-- The blacklist is up, or the entry is this instance's own, and it has not expired. -/
  (seen matched : Bool)
  email : Option String

def RefreshToken.retired (at_ : Instant) (row : RefreshToken) : RefreshToken :=
  if row.revokedAt.isNone then { row with revokedAt := some at_ } else row

def RefreshToken.revoked (at_ : Instant) (row : RefreshToken) : RefreshToken := { row with revokedAt := some at_ }

/-- The rows that a conditional update would change. -/
def unrevoked (rows : List RefreshToken) (id : String) : List RefreshToken :=
  rows.filter fun row => decide (row.id = id) && row.revokedAt.isNone

def answer : (o : Op) → Choice → World → Except String o.Reply × World
  | .verify _, ch, w => (ch.payload, w)
  | .now, ch, w => (.ok ch.now, w)
  | .randomUUID, ch, w => (.ok ch.text, w)
  | .isTokenRevoked jti, ch, w => (.ok (ch.seen && w.blacklist.any fun entry => decide (entry.jti = jti)), w)
  | .revokeToken entry, _, w => (.ok (), { w with blacklist := entry :: w.blacklist })
  | .findByPk id, _, w => (.ok (lookup RefreshToken.id w.rows id), w)
  | .compare _ _, ch, w => (.ok ch.matched, w)
  | .hash _, ch, w => (.ok ch.text, w)
  | .sign, ch, w => (.ok ch.text, w)
  | .findUser _, ch, w => (.ok ch.email, w)
  | .retire id at_, _, w =>
    (.ok (unrevoked w.rows id).length, { w with rows := update RefreshToken.id w.rows id (.retired at_) })
  | .revokeFamily familyId at_, _, w =>
    (.ok (), { w with rows := update RefreshToken.familyId w.rows familyId (.revoked at_) })
  | .create row, _, w =>
    if (lookup RefreshToken.id w.rows row.id).isSome then (.error "duplicate key value violates unique constraint", w)
    else (.ok (), { w with rows := w.rows ++ [row] })
  | .given _ _, _, w => (.ok (), w)

def Op.isAccess : Op → Bool
  | .findByPk _ => true
  | .findUser _ => true
  | .retire _ _ => true
  | .revokeFamily _ _ => true
  | .create _ => true
  | _ => false

def perform (o : Op) (ch : Choice) (w : World) : Except String o.Reply × World :=
  match ch.failure with
  | some message => if o.isAccess then (.error message, w) else answer o ch w
  | none => answer o ch w

/-- `new Date(ms)`, where it is a date. -/
def dateOf (ms : Int) : TokenM Instant :=
  match newDate ms with
  | some date => pure date
  | none => .fail "Invalid time value"

def normalizeClaims (decoded : JwtPayload) : TokenM TokenClaims := do
  let userId := decoded.userId.getD (decoded.sub.getD "")
  if userId = "" then Program.fail (S := tokenSignature) "Invalid token structure"
  else do
    let jti ← decoded.jti.elim (auth .randomUUID) fun jti => pure jti
    let exp ← decoded.exp.elim (do let now ← auth .now; return now.val / 1000) fun exp => pure exp
    return ⟨userId, jti, decoded.deviceId, decoded.scope.getD "openid",
      if decoded.tokenType = some "refresh" then .refresh else .bearer, decoded.familyId, decoded.secret, exp⟩

def isSet (text : Option String) : Bool := text.any fun t => t ≠ ""

def verifyRefreshToken (token : String) : TokenM TokenClaims := do
  let decoded ← auth (.verify token)
  let claims ← normalizeClaims decoded
  if claims.tokenType ≠ .refresh || !isSet claims.familyId || !isSet claims.secret then
    Program.fail (S := tokenSignature) "Invalid refresh token structure"
  else return claims

section
variable (cfg : TokenConfig)

def createRefreshToken (userId familyId : String) : TokenM String := do
  let tokenId ← auth .randomUUID
  let now ← auth .now
  let expiresAt ← dateOf (now.val + cfg.refreshTokenTtlSeconds * 1000)
  let secret ← auth .randomUUID
  let tokenHash ← auth (.hash secret)
  auth (.create ⟨tokenId, userId, tokenHash, familyId, expiresAt, none⟩)
  auth .sign

def revokeRefreshFamily (familyId : String) : TokenM Unit := do
  let now ← auth .now
  auth (.revokeFamily familyId now)

/-- Replay from a device other than the token's. -/
def isMismatch (binding : Option TokenBinding) (decoded : TokenClaims) : Bool :=
  match binding with
  | none => false
  | some binding => isSet (some binding.deviceId) && isSet decoded.deviceId && decide (some binding.deviceId ≠ decoded.deviceId)

def pairOf (decoded : TokenClaims) (accessToken refreshToken : String) : TokenPair :=
  ⟨accessToken, refreshToken, cfg.accessTokenTtlSeconds, cfg.refreshTokenTtlSeconds, "Bearer", decoded.scope⟩

def exchange (decoded : TokenClaims) (tokenRecord : RefreshToken) : TokenM TokenPair := do
  if tokenRecord.revokedAt.isSome then
    revokeRefreshFamily tokenRecord.familyId
    Program.fail (S := tokenSignature) "Token reuse detected"
  else do
    let now ← auth .now
    let affectedCount ← auth (.retire decoded.jti now)
    if affectedCount = 0 then
      revokeRefreshFamily tokenRecord.familyId
      Program.fail (S := tokenSignature) "Token reuse detected"
    else do
      let refreshToken ← createRefreshToken cfg tokenRecord.userId tokenRecord.familyId
      let accessToken ← auth .sign
      return pairOf cfg decoded accessToken refreshToken

def rotateRefreshToken (rawRefreshToken : String) (binding : Option TokenBinding) : TokenM (TokenClaims × TokenPair) := do
  let decoded ← verifyRefreshToken rawRefreshToken
  if ← auth (.isTokenRevoked decoded.jti) then Program.fail (S := tokenSignature) "Token has been revoked"
  else do
    match ← auth (.findByPk decoded.jti) with
    | none => Program.fail (S := tokenSignature) "Invalid refresh token"
    | some tokenRecord => do
      if !(← auth (.compare (decoded.secret.getD "") tokenRecord.tokenHash)) then
        Program.fail (S := tokenSignature) "Invalid refresh token"
      else do
        let now ← auth .now
        if tokenRecord.expiresAt.val < now.val then Program.fail (S := tokenSignature) "Refresh token expired"
        else if isMismatch binding decoded then do
          revokeRefreshFamily tokenRecord.familyId
          let revokedAt ← auth .now
          auth (.revokeToken ⟨decoded.jti, decoded.userId, revokedAt, .security, tokenRecord.expiresAt⟩)
          Program.fail (S := tokenSignature) "Token theft detected: device mismatch"
        else do
          let _ ← auth (.findUser tokenRecord.userId)
          if !cfg.rotationEnabled then do
            let accessToken ← auth .sign
            return (decoded, pairOf cfg decoded accessToken rawRefreshToken)
          else do
            let pair ← exchange cfg decoded tokenRecord
            return (decoded, pair)

structure RevokeParams where
  (token refreshToken userId : Option String)
  reason : Option RevocationReason

def revokedEntry (params : RevokeParams) (claims : TokenClaims) : TokenM RevokedToken := do
  let revokedAt ← auth .now
  let expiresAt ← dateOf (claims.exp * 1000)
  return ⟨claims.jti, params.userId.getD claims.userId, revokedAt, params.reason.getD .logout, expiresAt⟩

def accessEntry (params : RevokeParams) (token : String) : TokenM (List RevokedToken) :=
  Program.tryCatch (do
    let decoded ← auth (.verify token)
    let claims ← normalizeClaims decoded
    if claims.tokenType = .bearer then do
      let entry ← revokedEntry params claims
      return [entry]
    else return []) fun _ => return []

def refreshEntry (params : RevokeParams) (refreshToken : String) : TokenM (List RevokedToken × Bool) :=
  Program.tryCatch (do
    let claims ← verifyRefreshToken refreshToken
    let entry ← revokedEntry params claims
    Program.tryCatch (do
      revokeRefreshFamily (claims.familyId.getD "")
      return ([entry], true)) fun _ => return ([entry], false)) fun _ => return ([], false)

def revokeAll : List RevokedToken → TokenM Unit
  | [] => pure ()
  | entry :: entries => do
    auth (.revokeToken entry)
    revokeAll entries

def revokeTokens (params : RevokeParams) : TokenM (Nat × Bool) := do
  let access ← (params.token.filter fun t => t ≠ "").elim (pure []) (accessEntry params)
  let refresh ← (params.refreshToken.filter fun t => t ≠ "").elim (pure ([], false)) (refreshEntry params)
  let entries := access ++ refresh.1
  revokeAll entries
  return (entries.length, refresh.2)

end

/-! ### Calls -/

inductive Call where
  | rotateRefreshToken (rawRefreshToken : String) (binding : Option TokenBinding)
  | revokeTokens (params : RevokeParams)

def Call.body (cfg : TokenConfig) : Call → TokenM Unit
  | .rotateRefreshToken rawRefreshToken binding => do
    let (decoded, pair) ← Tokens.rotateRefreshToken cfg rawRefreshToken binding
    auth (.given decoded.jti pair)
  | .revokeTokens params => do
    let _ ← Tokens.revokeTokens params

def system (cfg : TokenConfig) : System tokenSignature World where
  Choice := Choice
  Event := Empty
  Call := Call
  perform := perform
  drift := fun e => e.elim
  arrive := fun _ w => some w
  body := Call.body cfg

/-! ### What a rotation does in turn

A rotation reads the row, retires it, makes a new one and gives its caller the pair. -/

/-- How far a rotation has come with a row, of an id and a family. -/
inductive Phase where
  | idle
  | read (id family : String)
  | holds (id family : String)
  | renewed (id family : String)

def Phase.next : Phase → (o : Op) → tokenSignature.Result o → Phase
  | _, .findByPk id, .ok (some row) => .read id row.familyId
  | .read id family, .retire _ _, .ok (_ + 1) => .holds id family
  | _, .retire _ _, _ => .idle
  | .holds id family, .create _, .ok _ => .renewed id family
  | _, .create _, _ => .idle
  | _, .given _ _, _ => .idle
  | φ, _, _ => φ

def Phase.Allows : Phase → Op → Prop
  | φ, .findByPk _ => φ = .idle
  | φ, .retire id _ => ∃ family, φ = .read id family
  | φ, .create row => ∃ id, φ = .holds id row.familyId
  | φ, .given jti _ => ∃ family, φ = .renewed jti family
  | _, _ => True

def rotation : Protocol tokenSignature Phase where
  Allowed := Phase.Allows
  Moves := fun φ o r φ' => φ' = φ.next o r

/-- An operation that leaves a rotation where it is. -/
def Op.isFree : Op → Prop
  | .findByPk _ => False
  | .retire _ _ => False
  | .create _ => False
  | .given _ _ => False
  | _ => True

section
variable {α β : Type} {φ : Phase} {p : TokenM α}
  {o : Op}

theorem next_free (φ : Phase) (h : o.isFree) (r : tokenSignature.Result o) : φ.next o r = φ := by
  cases o with
  | findByPk id => exact h.elim
  | retire id at_ => exact h.elim
  | create row => exact h.elim
  | given jti pair => exact h.elim
  | _ => rfl

theorem allows_free (φ : Phase) (h : o.isFree) : φ.Allows o := by
  cases o with
  | findByPk id => exact h.elim
  | retire id at_ => exact h.elim
  | create row => exact h.elim
  | given jti pair => exact h.elim
  | _ => trivial

theorem follows_free {f : α → TokenM β} {Q : Except String β → Phase → Prop} (h : p.Only Op.isFree)
    (hfail : ∀ e, Q (.error e) φ) (hf : ∀ a, Follows rotation φ (f a) Q) : Follows rotation φ (p >>= f) Q := by
  refine follows_bind (follows_mono (follows_of_only h (fun o => allows_free φ) ?_) ?_)
  · rintro o r φ' ho rfl
    exact next_free φ ho r
  · rintro r φ' rfl
    cases r with
    | ok a => exact hf a
    | error e => exact hfail e

theorem free_auth (h : o.isFree) : (auth o).Only Op.isFree := only_perform h

theorem free_dateOf (ms : Int) : (dateOf ms).Only Op.isFree := by
  unfold dateOf
  cases newDate ms <;> trivial

theorem free_normalizeClaims (decoded : JwtPayload) : (normalizeClaims decoded).Only Op.isFree := by
  unfold normalizeClaims
  simp only
  split
  · trivial
  · refine only_bind ?_ fun jti => only_bind ?_ fun exp => trivial
    · cases decoded.jti with
      | none => exact free_auth trivial
      | some jti => trivial
    · cases decoded.exp with
      | none => exact only_bind (free_auth trivial) fun _ => trivial
      | some exp => trivial

theorem free_verifyRefreshToken (token : String) : (verifyRefreshToken token).Only Op.isFree := by
  refine only_bind (free_auth trivial) fun decoded => only_bind (free_normalizeClaims decoded) fun claims => ?_
  split <;> trivial

theorem free_revokeRefreshFamily (familyId : String) : (revokeRefreshFamily familyId).Only Op.isFree :=
  only_bind (free_auth trivial) fun _ => free_auth trivial

theorem free_revokedEntry (params : RevokeParams) (claims : TokenClaims) : (revokedEntry params claims).Only Op.isFree :=
  only_bind (free_auth trivial) fun _ => only_bind (free_dateOf _) fun _ => trivial

theorem free_revokeAll (entries : List RevokedToken) : (revokeAll entries).Only Op.isFree := by
  induction entries with
  | nil => trivial
  | cons entry entries ih => exact only_bind (free_auth trivial) fun _ => ih

theorem free_revokeTokens (params : RevokeParams) : (revokeTokens params).Only Op.isFree := by
  refine only_bind ?_ fun access => only_bind ?_ fun refresh => only_bind (free_revokeAll _) fun _ => trivial
  · cases params.token.filter fun t => t ≠ "" with
    | none => trivial
    | some token =>
      refine only_tryCatch (only_bind (free_auth trivial) fun decoded => ?_) fun _ => trivial
      refine only_bind (free_normalizeClaims decoded) fun claims => ?_
      split
      · exact only_bind (free_revokedEntry params claims) fun _ => trivial
      · trivial
  · cases params.refreshToken.filter fun t => t ≠ "" with
    | none => trivial
    | some token =>
      refine only_tryCatch (only_bind (free_verifyRefreshToken token) fun claims => ?_) fun _ => trivial
      refine only_bind (free_revokedEntry params claims) fun entry => ?_
      exact only_tryCatch (only_bind (free_revokeRefreshFamily _) fun _ => trivial) fun _ => trivial

theorem follows_op {f : o.Reply → TokenM β} {Q : Except String β → Phase → Prop} (ha : φ.Allows o)
    (hfail : ∀ e, Q (.error e) (φ.next o (.error e))) (hf : ∀ a, Follows rotation (φ.next o (.ok a)) (f a) Q) :
    Follows rotation φ (auth o >>= f) Q := by
  refine follows_bind (follows_perform ha ?_)
  rintro r φ' rfl
  cases r with
  | ok a => exact hf a
  | error e => exact hfail e

def Exchanged (jti : String) (r : Except String α) (φ : Phase) : Prop := ∀ a, r = .ok a → ∃ family, φ = .renewed jti family

theorem exchanged_error (jti e : String) (φ : Phase) : Exchanged (α := α) jti (.error e) φ := fun _ h => nomatch h

theorem follows_createRefreshToken (cfg : TokenConfig) (userId id familyId : String) :
    Follows rotation (.holds id familyId) (createRefreshToken cfg userId familyId) (Exchanged id) := by
  have hfail : ∀ φ e, Exchanged (α := String) id (.error e) φ := fun φ e => exchanged_error id e φ
  refine follows_free (free_auth trivial) (hfail _) fun tokenId => ?_
  refine follows_free (free_auth trivial) (hfail _) fun now => ?_
  refine follows_free (free_dateOf _) (hfail _) fun expiresAt => ?_
  refine follows_free (free_auth trivial) (hfail _) fun secret => ?_
  refine follows_free (free_auth trivial) (hfail _) fun tokenHash => ?_
  refine follows_op ⟨id, rfl⟩ (hfail _) fun _ => ?_
  refine follows_mono (follows_of_only (free_auth (o := .sign) trivial) (fun o => allows_free _) ?_) ?_
  · rintro o r φ' ho rfl
    exact next_free _ ho r
  · rintro r φ' rfl a -
    exact ⟨familyId, rfl⟩

theorem follows_exchange (cfg : TokenConfig) (decoded : TokenClaims) (tokenRecord : RefreshToken) :
    Follows rotation (.read decoded.jti tokenRecord.familyId) (exchange cfg decoded tokenRecord) (Exchanged decoded.jti) := by
  have hfail : ∀ φ e, Exchanged (α := TokenPair) decoded.jti (.error e) φ := fun φ e => exchanged_error decoded.jti e φ
  unfold exchange
  split
  · exact follows_free (free_revokeRefreshFamily _) (hfail _) fun _ => hfail _ _
  · refine follows_free (free_auth trivial) (hfail _) fun now => ?_
    refine follows_op ⟨_, rfl⟩ (hfail _) fun affectedCount => ?_
    cases affectedCount with
    | zero => exact follows_free (free_revokeRefreshFamily _) (hfail _) fun _ => hfail _ _
    | succ n =>
      refine follows_bind (follows_mono (follows_createRefreshToken cfg _ _ _)
        (forall_except (fun _ _ _ => hfail _ _) fun _ _ hr => ?_))
      obtain ⟨family, rfl⟩ := hr _ rfl
      exact follows_free (free_auth trivial) (hfail _) fun accessToken a _ => ⟨family, rfl⟩

theorem follows_rotateRefreshToken {cfg : TokenConfig} (h : cfg.rotationEnabled = true) (rawRefreshToken : String)
    (binding : Option TokenBinding) : Follows rotation .idle (rotateRefreshToken cfg rawRefreshToken binding)
      fun r φ' => ∀ a, r = .ok a → ∃ family, φ' = .renewed a.1.jti family := by
  have hfail : ∀ (φ : Phase) (e : String) (a : TokenClaims × TokenPair), Except.error e = .ok a →
      ∃ family, φ = .renewed a.1.jti family := fun _ _ _ h => nomatch h
  unfold rotateRefreshToken
  refine follows_free (free_verifyRefreshToken _) (hfail _) fun decoded => ?_
  refine follows_free (free_auth trivial) (hfail _) fun revoked => ?_
  split
  · exact hfail _ _
  refine follows_op rfl (hfail _) fun found => ?_
  cases found with
  | none => exact hfail _ _
  | some tokenRecord =>
    refine follows_free (free_auth trivial) (hfail _) fun matched => ?_
    split
    · exact hfail _ _
    refine follows_free (free_auth trivial) (hfail _) fun now => ?_
    split
    · exact hfail _ _
    split
    · refine follows_free (free_revokeRefreshFamily _) (hfail _) fun _ => ?_
      refine follows_free (free_auth trivial) (hfail _) fun revokedAt => ?_
      exact follows_free (free_auth trivial) (hfail _) fun _ => hfail _ _
    refine follows_free (free_auth trivial) (hfail _) fun email => ?_
    rw [h]
    refine follows_bind (follows_mono (follows_exchange cfg decoded tokenRecord)
      (forall_except (fun _ _ _ => hfail _ _) fun pair _ hr => ?_))
    rintro a ha
    cases ha
    exact hr pair rfl

theorem follows_body {cfg : TokenConfig} (h : cfg.rotationEnabled = true) (c : Call) :
    Follows rotation .idle (c.body cfg) fun _ _ => True := by
  cases c with
  | rotateRefreshToken rawRefreshToken binding =>
    exact follows_bind (follows_mono (follows_rotateRefreshToken h rawRefreshToken binding)
      (forall_except (fun _ _ _ => trivial) fun a _ hr => follows_perform (hr a rfl) fun _ _ _ => trivial))
  | revokeTokens params => exact follows_free (free_revokeTokens params) (fun _ => trivial) fun _ => trivial

end

end Delego.Tokens
