import Delego.Data.Bytes
import Delego.Data.JsonParse

/-! The payload that an oracle signs (`payments/src/oracle/payload.ts`, `parseOracleInput` of `routes.ts`).

A receipt is checked and written down field by field: the escrow and the time in eight bytes each, the texts with a
length of two bytes before them. The escrow and the time are cut to eight bytes; neither check bounds them. The decoder
follows the wire format as it is documented. -/
namespace Delego.Oracle
open Delego.Data Option

structure OracleDeliveryReceiptInput where
  escrowId : Int
  (trackingNumber carrier : String)
  deliveredAt : Number
  oraclePublicKey : String
  deriving DecidableEq

/-- `BigInt.asUintN(bits, value)` -/
def asUintN (bits : Nat) (value : Int) : Nat := (value % 2 ^ bits).toNat

/-- `BigInt.asIntN(bits, value)` -/
def asIntN (bits : Nat) (value : Int) : Int := Int.bmod value (2 ^ bits)

def writeU64LE (value : Int) : List UInt8 := leBytes 8 (asUintN 64 value)

/-- `Math.trunc(value)`, or 0. -/
def truncate : Number → Int
  | .finite q => q.num.tdiv q.den
  | _ => 0

def writeI64LE (value : Number) : List UInt8 := leBytes 8 (asUintN 64 (asIntN 64 (truncate value)))

def sliceUnits (s : String) (count : Nat) : String := String.ofList (ofUnits ((codeUnits s).take count))

def encodePrefixedString (value : String) : Except String (List UInt8) :=
  if (utf8 value).length > 0xffff then .error s!"Field exceeds 65535 bytes: {sliceUnits value 32}..."
  else .ok (textBytes value)

/-- `Number.isInteger(n)` -/
def isInteger : Number → Bool
  | .finite q => q.isInt
  | _ => false

def checkInput (numberText : Number → String) (input : OracleDeliveryReceiptInput) : Except String Unit :=
  if input.escrowId < 0 then .error s!"escrowId must be a non-negative integer, got {input.escrowId}"
  else if input.trackingNumber.length = 0 then .error "trackingNumber is required"
  else if input.carrier.length = 0 then .error "carrier is required"
  else if !isInteger input.deliveredAt || input.deliveredAt.lt (.finite 0) then
    .error s!"deliveredAt must be a non-negative integer (epoch seconds), got {numberText input.deliveredAt}"
  else if input.oraclePublicKey.length = 0 then .error "oraclePublicKey is required"
  else .ok ()

def buildCanonicalDeliveryPayload (numberText : Number → String) (input : OracleDeliveryReceiptInput) :
    Except String (List UInt8) := do
  checkInput numberText input
  let trackingBuf ← encodePrefixedString input.trackingNumber
  let carrierBuf ← encodePrefixedString input.carrier
  let pubBuf ← encodePrefixedString input.oraclePublicKey
  return writeU64LE input.escrowId ++ trackingBuf ++ carrierBuf ++ writeI64LE input.deliveredAt ++ pubBuf

inductive BodyValue where
  | string (value : String)
  | number (value : Number)
  | bigint (value : Int)
  | other

/-- `/^\d+$/.test(text)`, and the number that the digits write. -/
def digits (text : String) : Option Nat := (readDigits 0 text.toList).filter fun _ => decide (text ≠ "")

/-- `Number.parseInt(text, 10)` of digits. -/
def parseInt (n : Nat) : Number := if roundNat n < 2 ^ 1024 then .finite (roundNat n) else .infinity

def BodyValue.text : BodyValue → Option String
  | .string value => if value = "" then none else some value
  | _ => none

def escrowIdOf : BodyValue → Except String Int
  | .bigint value => .ok value
  | .number (.finite q) => if q.isInt then .ok q.num else .error "escrowId must be a non-negative integer"
  | .string value =>
    match digits (trim value) with
    | some n => .ok n
    | none => .error "escrowId must be a non-negative integer"
  | _ => .error "escrowId must be a non-negative integer"

def deliveredAtOf : BodyValue → Except String Number
  | .number value =>
    if isInteger value then .ok value else .error "deliveredAt must be a non-negative integer (epoch seconds)"
  | .string value =>
    match digits (trim value) with
    | some n => .ok (parseInt n)
    | none => .error "deliveredAt must be a non-negative integer (epoch seconds)"
  | _ => .error "deliveredAt must be a non-negative integer (epoch seconds)"

def parseOracleInput (body : String → BodyValue) : Except String OracleDeliveryReceiptInput :=
  match (body "trackingNumber").text, (body "carrier").text with
  | some trackingNumber, some carrier =>
    match (body "oraclePublicKey").text with
    | some oraclePublicKey => do
      let escrowId ← escrowIdOf (body "escrowId")
      if escrowId < 0 then .error "escrowId must be non-negative"
      let deliveredAt ← deliveredAtOf (body "deliveredAt")
      if deliveredAt.lt (.finite 0) then .error "deliveredAt must be non-negative"
      return ⟨escrowId, trackingNumber, carrier, deliveredAt, oraclePublicKey⟩
    | none => .error "oraclePublicKey is required"
  | _, _ => .error "trackingNumber and carrier are required"

def signed (n : Nat) : Int := if n < 2 ^ 63 then n else n - 2 ^ 64

def decodeDeliveryPayload (payload : List UInt8) : Option OracleDeliveryReceiptInput := do
  let (escrowId, rest) ← readNat 8 payload
  let (trackingNumber, rest) ← readText rest
  let (carrier, rest) ← readText rest
  let (deliveredAt, rest) ← readNat 8 rest
  let (oraclePublicKey, rest) ← readText rest
  if rest = [] then some ⟨escrowId, trackingNumber, carrier, .finite (signed deliveredAt), oraclePublicKey⟩ else none

def InRange (input : OracleDeliveryReceiptInput) : Prop :=
  input.escrowId < 2 ^ 64 ∧ input.deliveredAt.lt (.finite (2 ^ 63)) = true

theorem asUintN_asIntN (value : Int) : asUintN 64 (asIntN 64 value) = asUintN 64 value := by
  have hsame := Int.bmod_emod (x := value) (m := 2 ^ 64)
  unfold asUintN asIntN
  exact congrArg Int.toNat hsame

theorem asUintN_of_nonneg {value : Int} (h : 0 ≤ value) : asUintN 64 value = value.toNat % 2 ^ 64 := by
  unfold asUintN
  omega

/-- The fields of an input that is accepted: numbers without a sign, and texts that fit. -/
structure Accepted (input : OracleDeliveryReceiptInput) (escrowId deliveredAt : Nat) : Prop where
  escrowId : input.escrowId = escrowId
  deliveredAt : input.deliveredAt = .finite deliveredAt
  trackingNumber : (utf8 input.trackingNumber).length < 65536
  carrier : (utf8 input.carrier).length < 65536
  oraclePublicKey : (utf8 input.oraclePublicKey).length < 65536

theorem encodePrefixedString_ok {value : String} {bytes : List UInt8} (h : encodePrefixedString value = .ok bytes) :
    (utf8 value).length < 65536 ∧ bytes = textBytes value := by
  unfold encodePrefixedString at h
  split at h
  · cases h
  · rename_i hfits
    exact ⟨by omega, (Except.ok.inj h).symm⟩

variable {numberText : Number → String} {input : OracleDeliveryReceiptInput}

theorem checkInput_ok (h : checkInput numberText input = .ok ()) :
    0 ≤ input.escrowId ∧ ∃ n : Nat, input.deliveredAt = .finite n := by
  unfold checkInput at h
  split at h
  · cases h
  · rename_i hesc
    split at h
    · cases h
    · split at h
      · cases h
      · split at h
        · cases h
        · rename_i hdelivered
          refine ⟨not_lt.mp hesc, ?_⟩
          cases hvalue : input.deliveredAt with
          | finite q =>
            rw [hvalue] at hdelivered
            simp only [isInteger, Number.lt, Bool.or_eq_true, Bool.not_eq_true', decide_eq_true_eq, not_or,
              Bool.not_eq_false, not_lt] at hdelivered
            have hnum := num_eq hdelivered.1
            have hpos : 0 ≤ q.num := Rat.num_nonneg.mpr hdelivered.2
            refine ⟨q.num.toNat, ?_⟩
            rw [← hnum]
            congr 1
            exact_mod_cast (Int.toNat_of_nonneg hpos).symm
          | nan => simp [hvalue, isInteger] at hdelivered
          | infinity => simp [hvalue, isInteger] at hdelivered
          | negInfinity => simp [hvalue, isInteger] at hdelivered

variable {payload : List UInt8}

theorem build_ok (h : buildCanonicalDeliveryPayload numberText input = .ok payload) :
    ∃ escrowId deliveredAt, Accepted input escrowId deliveredAt ∧
      payload = leBytes 8 (escrowId % 2 ^ 64) ++ (textBytes input.trackingNumber ++ (textBytes input.carrier ++
        (leBytes 8 (deliveredAt % 2 ^ 64) ++ (textBytes input.oraclePublicKey ++ [])))) := by
  unfold buildCanonicalDeliveryPayload at h
  cases hcheck : checkInput numberText input with
  | error message =>
    rw [hcheck] at h
    cases h
  | ok u =>
    obtain ⟨hesc, n, hdelivered⟩ := checkInput_ok hcheck
    cases htracking : encodePrefixedString input.trackingNumber with
    | error message =>
      rw [hcheck, htracking] at h
      cases h
    | ok trackingBuf =>
      cases hcarrier : encodePrefixedString input.carrier with
      | error message =>
        rw [hcheck, htracking, hcarrier] at h
        cases h
      | ok carrierBuf =>
        cases hkey : encodePrefixedString input.oraclePublicKey with
        | error message =>
          rw [hcheck, htracking, hcarrier, hkey] at h
          cases h
        | ok pubBuf =>
          rw [hcheck, htracking, hcarrier, hkey] at h
          obtain ⟨hfirst, rfl⟩ := encodePrefixedString_ok htracking
          obtain ⟨hsecond, rfl⟩ := encodePrefixedString_ok hcarrier
          obtain ⟨hthird, rfl⟩ := encodePrefixedString_ok hkey
          refine ⟨input.escrowId.toNat, n, ⟨(Int.toNat_of_nonneg hesc).symm, hdelivered, hfirst, hsecond, hthird⟩, ?_⟩
          have htruncate : truncate (.finite (n : Rat)) = n := by simp [truncate]
          have hwrit : asUintN 64 (asIntN 64 (n : Int)) = n % 2 ^ 64 := by
            rw [asUintN_asIntN, asUintN_of_nonneg (Int.natCast_nonneg n), Int.toNat_natCast]
          obtain rfl := Except.ok.inj h
          rw [writeU64LE, writeI64LE, asUintN_of_nonneg hesc, hdelivered, htruncate, hwrit]
          simp only [List.append_assoc, List.append_nil]

theorem decode_payload {escrowId deliveredAt : Nat} (hacc : Accepted input escrowId deliveredAt) :
    decodeDeliveryPayload (leBytes 8 (escrowId % 2 ^ 64) ++ (textBytes input.trackingNumber ++
      (textBytes input.carrier ++ (leBytes 8 (deliveredAt % 2 ^ 64) ++ (textBytes input.oraclePublicKey ++ []))))) =
      some ⟨(escrowId % 2 ^ 64 : Nat), input.trackingNumber, input.carrier,
        .finite (signed (deliveredAt % 2 ^ 64)), input.oraclePublicKey⟩ := by
  have hwidth (n : Nat) : n % 2 ^ 64 % 256 ^ 8 = n % 2 ^ 64 := Nat.mod_mod n (2 ^ 64)
  simp only [decodeDeliveryPayload, readNat_leBytes, readText_textBytes hacc.trackingNumber,
    readText_textBytes hacc.carrier, readText_textBytes hacc.oraclePublicKey, hwidth,
    bind_eq_bind, bind_some, if_true]

theorem recovered_iff (h : buildCanonicalDeliveryPayload numberText input = .ok payload) :
    decodeDeliveryPayload payload = some input ↔ InRange input := by
  obtain ⟨escrowId, deliveredAt, hacc, rfl⟩ := build_ok h
  obtain ⟨id, trackingNumber, carrier, time, oraclePublicKey⟩ := input
  obtain rfl : id = escrowId := hacc.escrowId
  obtain rfl : time = .finite deliveredAt := hacc.deliveredAt
  rw [decode_payload hacc]
  simp only [some.injEq, OracleDeliveryReceiptInput.mk.injEq, true_and, and_true, InRange, Number.lt,
    decide_eq_true_eq, Number.finite.injEq]
  have htime : ((signed (deliveredAt % 2 ^ 64) : Int) : Rat) = (deliveredAt : Rat) ↔
      signed (deliveredAt % 2 ^ 64) = deliveredAt := by
    constructor
    · intro heq
      exact_mod_cast heq
    · intro heq
      exact_mod_cast congrArg (Int.cast : Int → Rat) heq
  have hbound : (deliveredAt : Rat) < 2 ^ 63 ↔ deliveredAt < 2 ^ 63 := by
    constructor
    · intro hlt
      exact_mod_cast hlt
    · intro hlt
      exact_mod_cast hlt
  rw [htime, hbound]
  unfold signed
  omega

/-- Payloads tell accepted inputs apart, and give their fields back, exactly if escrows are below 2⁶⁴ and times
below 2⁶³: no check bounds either. -/
theorem payload_identifies {numberText : Number → String} {first second : OracleDeliveryReceiptInput}
    {payload payload' : List UInt8} (hfirst : buildCanonicalDeliveryPayload numberText first = .ok payload)
    (hsecond : buildCanonicalDeliveryPayload numberText second = .ok payload') :
    ((payload = payload' → first = second) ∧ decodeDeliveryPayload payload = some first ∧
      decodeDeliveryPayload payload' = some second) ↔ InRange first ∧ InRange second := by
  rw [recovered_iff hfirst, recovered_iff hsecond]
  constructor
  · exact fun ⟨_, hranges⟩ => hranges
  · intro hranges
    refine ⟨?_, hranges⟩
    rintro rfl
    have hread := (recovered_iff hfirst).mpr hranges.1
    rw [(recovered_iff hsecond).mpr hranges.2] at hread
    exact (some.inj hread).symm

def receiptOf (escrowId : Int) : OracleDeliveryReceiptInput := ⟨escrowId, "T", "C", .finite 0, "K"⟩

def sevenPayload : List UInt8 := [7, 0, 0, 0, 0, 0, 0, 0, 1, 0, 84, 1, 0, 67, 0, 0, 0, 0, 0, 0, 0, 0, 1, 0, 75]

theorem build_receiptOf (escrowId : Int) (h : 0 ≤ escrowId) (hkept : escrowId % 2 ^ 64 = 7) :
    buildCanonicalDeliveryPayload (fun _ => "") (receiptOf escrowId) = .ok sevenPayload := by
  have hwrit : writeU64LE escrowId = leBytes 8 7 := by
    rw [writeU64LE, asUintN, hkept]
    rfl
  have hchk : checkInput (fun _ => "") (receiptOf escrowId) = .ok () := by
    rw [checkInput, if_neg (show ¬ (receiptOf escrowId).escrowId < 0 from not_lt.mpr h)]
    simp [receiptOf, isInteger, Number.lt, Rat.isInt]
  rw [buildCanonicalDeliveryPayload, hchk]
  simp only [receiptOf, hwrit]
  decide

theorem payload_identifies_seven : (sevenPayload = sevenPayload → receiptOf 7 = receiptOf 7) ∧
      decodeDeliveryPayload sevenPayload = some (receiptOf 7) ∧
      decodeDeliveryPayload sevenPayload = some (receiptOf 7) :=
  (payload_identifies (build_receiptOf 7 (by decide) (by decide)) (build_receiptOf 7 (by decide) (by decide))).mpr
    ⟨⟨by decide, by decide⟩, ⟨by decide, by decide⟩⟩

/-- The body that names an escrow by its digits. -/
def bodyOf (escrowId : String) (field : String) : BodyValue :=
  if field = "escrowId" then .string escrowId
  else if field = "trackingNumber" then .string "T"
  else if field = "carrier" then .string "C"
  else if field = "oraclePublicKey" then .string "K"
  else .number (.finite 0)

/-- Two requests for different escrows are both accepted, and the oracle signs the same bytes for them. -/
theorem another_escrow_signed : parseOracleInput (bodyOf "7") = .ok (receiptOf 7) ∧
    parseOracleInput (bodyOf "18446744073709551623") = .ok (receiptOf 18446744073709551623) ∧
    buildCanonicalDeliveryPayload (fun _ => "") (receiptOf 7) = .ok sevenPayload ∧
    buildCanonicalDeliveryPayload (fun _ => "") (receiptOf 18446744073709551623) = .ok sevenPayload ∧
    receiptOf 7 ≠ receiptOf 18446744073709551623 :=
  ⟨by decide, by decide, build_receiptOf 7 (by decide) (by decide),
    build_receiptOf 18446744073709551623 (by decide) (by decide), by decide⟩

end Delego.Oracle
