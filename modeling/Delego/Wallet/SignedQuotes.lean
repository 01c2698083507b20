import Delego.Data.Calendar
import Delego.Data.Text

/-! Signed quotes of path payments (`wallet/src/pathPayments/quoteProxy/quoteSigner.ts`, `pathQuoteService.ts`).

The key pair, which takes signatures in base64, and `Date.parse` are given. -/
namespace Delego.Wallet.SignedQuotes
open Delego.Data

def QUOTE_PAYLOAD_VERSION : String := "delego.path-payment-quote.v1"

def QUOTE_VALIDITY_MS : Int := 60000

structure PathPaymentQuoteResponse where
  (sourceAsset sourceAmountMax destinationAmount : String)
  path : List String
  estimatedPriceImpactPct : Rat
  validUntil : String

structure QuotePayloadFields where
  (quoteId issuedAt destinationAsset : String)
  quote : PathPaymentQuoteResponse

structure SignedPathPaymentQuote extends QuotePayloadFields where
  (signedPayload signature signerPublicKey signerKeyId : String)

def buildQuotePayload (fields : QuotePayloadFields) : String :=
  "\n".intercalate [QUOTE_PAYLOAD_VERSION, "quoteId=" ++ fields.quoteId, "issuedAt=" ++ fields.issuedAt,
    "validUntil=" ++ fields.quote.validUntil, "sourceAsset=" ++ fields.quote.sourceAsset,
    "sourceAmountMax=" ++ fields.quote.sourceAmountMax, "destinationAsset=" ++ fields.destinationAsset,
    "destinationAmount=" ++ fields.quote.destinationAmount, "path=" ++ ",".intercalate fields.quote.path]

structure QuoteSigner where
  (keyId publicKey : String)
  sign : String → String

def signQuote (signer : QuoteSigner) (fields : QuotePayloadFields) : SignedPathPaymentQuote :=
  let signedPayload := buildQuotePayload fields
  { toQuotePayloadFields := fields, signedPayload, signature := signer.sign signedPayload,
    signerPublicKey := signer.publicKey, signerKeyId := signer.keyId }

structure Candidate where
  source : String
  path : List String
  priceImpactPct : Rat

/-- `getQuote`, from the choice of the best candidate on. -/
def getQuote (signer : QuoteSigner) (best : Candidate) (sourceAmountMax destinationAsset destinationAmount quoteId : String)
    (issuedAt : Instant) : Except String SignedPathPaymentQuote := do
  let validUntil ← toISOString (newDate (issuedAt.val + QUOTE_VALIDITY_MS))
  let quote :=
    { sourceAsset := best.source, sourceAmountMax, destinationAmount, path := best.path,
      estimatedPriceImpactPct := best.priceImpactPct, validUntil }
  return signQuote signer { quoteId, issuedAt := ← toISOString (some issuedAt), destinationAsset, quote }

inductive QuoteVerification
  | valid
  | invalid (reason : String)
deriving DecidableEq

/-- What is outside: `verify` with a public key, a payload and a signature, and `Date.parse`. -/
structure Platform where
  verify : String → String → String → Except String Bool
  parse : String → Option Int

def verifySignedQuote (platform : Platform) (signed : SignedPathPaymentQuote) (trustedPublicKey : String) (now : Instant) :
    QuoteVerification :=
  let expected := buildQuotePayload signed.toQuotePayloadFields
  if expected ≠ signed.signedPayload then .invalid "payload does not match quote fields"
  else
    let ok := match platform.verify trustedPublicKey expected signed.signature with
      | .ok ok => ok
      | .error _ => false
    if !ok then .invalid "invalid signature"
    else if (platform.parse signed.quote.validUntil).any (· < now.val) then .invalid "quote expired"
    else .valid

/-- Whoever presents the payload and the signature of a quote presents its fields, and in time. -/
def Binds (platform : Platform) (trustedPublicKey : String) (issued : SignedPathPaymentQuote) : Prop :=
  ∀ (presented : SignedPathPaymentQuote) (now : Instant), presented.signedPayload = issued.signedPayload →
    presented.signature = issued.signature → verifySignedQuote platform presented trustedPublicKey now = .valid →
      presented.toQuotePayloadFields = issued.toQuotePayloadFields ∧
        ∀ validUntil ∈ platform.parse issued.quote.validUntil, now.val ≤ validUntil

def SignedPathPaymentQuote.shownWith (signed : SignedPathPaymentQuote) (estimatedPriceImpactPct : Rat) :
    SignedPathPaymentQuote :=
  { signed with quote := { signed.quote with estimatedPriceImpactPct } }

section
variable {platform : Platform} {signer : QuoteSigner} {best : Candidate} {issuedAt now : Instant} {key : String}
  {issued : SignedPathPaymentQuote} {sourceAmountMax destinationAsset destinationAmount quoteId : String}

def signedTexts (fields : QuotePayloadFields) : List String :=
  [fields.quoteId, fields.issuedAt, fields.quote.validUntil, fields.quote.sourceAsset, fields.quote.sourceAmountMax,
    fields.destinationAsset, fields.quote.destinationAmount, ",".intercalate fields.quote.path]

theorem signedTexts_of_payload {fields fields' : QuotePayloadFields} (hlines : ∀ text ∈ signedTexts fields, '\n' ∉ text.toList)
    (h : buildQuotePayload fields = buildQuotePayload fields') : signedTexts fields = signedTexts fields' := by
  unfold buildQuotePayload at h
  have hlabelled := pieces_of_joined (by rfl : "\n".toList = ['\n']) (by rfl) (by simpa [signedTexts, QUOTE_PAYLOAD_VERSION] using hlines) h
  simpa [signedTexts] using hlabelled

/-- **Whoever presents the payload of a quote whose texts are lines presents these texts, in time.** -/
theorem texts_of_valid {fields : QuotePayloadFields} {presented : SignedPathPaymentQuote} (hlines : ∀ text ∈ signedTexts fields, '\n' ∉ text.toList)
    (hsame : presented.signedPayload = buildQuotePayload fields) (h : verifySignedQuote platform presented key now = .valid) :
    signedTexts presented.toQuotePayloadFields = signedTexts fields ∧
      platform.verify key (buildQuotePayload fields) presented.signature = .ok true ∧
      ∀ validUntil ∈ platform.parse fields.quote.validUntil, now.val ≤ validUntil := by
  have hpayload : buildQuotePayload presented.toQuotePayloadFields = buildQuotePayload fields := by
    by_contra hne
    simp [verifySignedQuote, hsame, hne] at h
  have htexts := (signedTexts_of_payload hlines hpayload.symm).symm
  have huntil : presented.quote.validUntil = fields.quote.validUntil := congrArg (·.getD 2 "") htexts
  simp only [verifySignedQuote, hpayload, hsame, huntil] at h
  cases hok : platform.verify key (buildQuotePayload fields) presented.signature with
  | error e => simp [hok] at h
  | ok ok =>
    cases ok with
    | false => simp [hok] at h
    | true =>
      refine ⟨htexts, rfl, fun validUntil hparse => ?_⟩
      by_contra hlate
      simp_all

theorem verify_shownWith (pct : Rat) :
    verifySignedQuote platform (issued.shownWith pct) key now = verifySignedQuote platform issued key now := rfl

theorem not_binds (now : Instant) (h : verifySignedQuote platform issued key now = .valid) : ¬ Binds platform key issued := by
  intro hbinds
  have hsame := (hbinds (issued.shownWith (issued.quote.estimatedPriceImpactPct + 1)) now rfl rfl h).1
  have hpct : issued.quote.estimatedPriceImpactPct + 1 = issued.quote.estimatedPriceImpactPct :=
    congrArg (fun fields : QuotePayloadFields => fields.quote.estimatedPriceImpactPct) hsame
  exact absurd hpct (by simp)

variable (hverify : ∀ payload, platform.verify signer.publicKey payload (signer.sign payload) = .ok true)
  (hparse : platform.parse (String.ofList (isoChars (issuedAt.val + QUOTE_VALIDITY_MS))) =
    some (issuedAt.val + QUOTE_VALIDITY_MS))
  (h : getQuote signer best sourceAmountMax destinationAsset destinationAmount quoteId issuedAt = .ok issued)
include hverify hparse h

theorem valid_of_getQuote : verifySignedQuote platform issued signer.publicKey issuedAt = .valid := by
  unfold getQuote newDate at h
  split at h
  · cases h
    have hopen : ¬ issuedAt.val + QUOTE_VALIDITY_MS < issuedAt.val := by
      rw [QUOTE_VALIDITY_MS]
      omega
    simp [verifySignedQuote, signQuote, hverify, hparse, hopen]
  · cases h

/-- **The price impact that is shown with a quote is not signed.** -/
theorem quote_unbound : ¬ Binds platform signer.publicKey issued :=
  not_binds issuedAt (valid_of_getQuote hverify hparse h)
end

def oracle : QuoteSigner := ⟨"path-quote-oracle", "GORACLE", ("signed " ++ ·)⟩

def keypairs : Platform where
  verify key payload signature := .ok (decide (key = "GORACLE" ∧ signature = "signed " ++ payload))
  parse text := if text = "2026-01-01T00:01:00.000Z" then some 1767225660000 else none

def quoted : Except String SignedPathPaymentQuote :=
  getQuote oracle ⟨"XLM", [], 1⟩ "10.0500000" "USDC:GISSUER" "1.0000000" "quote-1" newYear

theorem keypairs_verify (payload : String) : keypairs.verify oracle.publicKey payload (oracle.sign payload) = .ok true := by
  simp [keypairs, oracle]

theorem keypairs_parse : keypairs.parse (String.ofList (isoChars (newYear.val + QUOTE_VALIDITY_MS))) =
    some (newYear.val + QUOTE_VALIDITY_MS) := by decide

theorem quote_unbound_newYear : ∃ issued, quoted = .ok issued ∧ ¬ Binds keypairs oracle.publicKey issued :=
  ⟨_, rfl, quote_unbound keypairs_verify keypairs_parse rfl⟩

theorem texts_shown : ∃ issued, quoted = .ok issued ∧
    signedTexts (issued.shownWith 0).toQuotePayloadFields = signedTexts issued.toQuotePayloadFields ∧
    keypairs.verify oracle.publicKey (buildQuotePayload issued.toQuotePayloadFields) issued.signature = .ok true ∧
    ∀ validUntil ∈ keypairs.parse issued.quote.validUntil, newYear.val ≤ validUntil :=
  have hvalid := valid_of_getQuote keypairs_verify keypairs_parse rfl
  ⟨_, rfl, texts_of_valid (by decide) rfl ((verify_shownWith 0).trans hvalid)⟩

/-- A quote verifies with any price impact. -/
theorem impact_shown : ∃ issued, quoted = .ok issued ∧ ¬ Binds keypairs oracle.publicKey issued ∧
    verifySignedQuote keypairs (issued.shownWith 0) oracle.publicKey newYear = .valid :=
  have hvalid := valid_of_getQuote keypairs_verify keypairs_parse rfl
  ⟨_, rfl, not_binds newYear hvalid, (verify_shownWith 0).trans hvalid⟩

end Delego.Wallet.SignedQuotes
