import Mathlib.Data.Nat.Digits.Defs

/-! Bytes on the wire.

Numbers of a fixed width are little-endian, the lowest byte first; a text is UTF-8 with its length before it. What is
written is read back from the front of any bytes (`readNat_leBytes`, `readText_textBytes`). -/
namespace Delego.Data

def leBytes : Nat → Nat → List UInt8
  | 0, _ => []
  | width + 1, n => UInt8.ofNat (n % 256) :: leBytes width (n / 256)

def leValue : List UInt8 → Nat
  | [] => 0
  | byte :: rest => byte.toNat + 256 * leValue rest

@[simp] theorem length_leBytes (width n : Nat) : (leBytes width n).length = width := by
  induction width generalizing n with
  | zero => rfl
  | succ width ih => simp only [leBytes, List.length_cons, ih]

theorem leValue_leBytes (width n : Nat) : leValue (leBytes width n) = n % 256 ^ width := by
  induction width generalizing n with
  | zero => simp [leBytes, leValue, Nat.mod_one]
  | succ width ih =>
    have hbyte : (UInt8.ofNat (n % 256)).toNat = n % 256 := by simp
    rw [leBytes, leValue, hbyte, ih, pow_succ', Nat.mod_mul]

def takeBytes (count : Nat) (bytes : List UInt8) : Option (List UInt8 × List UInt8) :=
  if count ≤ bytes.length then some (bytes.take count, bytes.drop count) else none

theorem takeBytes_append (taken rest : List UInt8) : takeBytes taken.length (taken ++ rest) = some (taken, rest) := by
  simp [takeBytes]

def readNat (width : Nat) (bytes : List UInt8) : Option (Nat × List UInt8) :=
  (takeBytes width bytes).map fun (taken, rest) => (leValue taken, rest)

theorem readNat_leBytes (width n : Nat) (rest : List UInt8) :
    readNat width (leBytes width n ++ rest) = some (n % 256 ^ width, rest) := by
  have htaken := takeBytes_append (leBytes width n) rest
  rw [length_leBytes] at htaken
  rw [readNat, htaken, ← leValue_leBytes]
  rfl

/-- `Buffer.from(s, "utf8")`, of a string without lone surrogates. -/
def utf8 (s : String) : List UInt8 := s.toByteArray.data.toList

theorem utf8_join (texts : List String) : utf8 (String.join texts) = texts.flatMap utf8 := by
  induction texts with
  | nil => rfl
  | cons text rest ih =>
    rw [String.join_cons, List.flatMap_cons, ← ih]
    simp only [utf8, String.toByteArray_append, ByteArray.data_append, Array.toList_append]

/-- What the first bytes of a character call for: how many bytes are to come, the bits so far, and the range of the next. -/
structure Sequence where
  (needed bits lower upper : Nat)

def leading (byte : Nat) : Option Sequence :=
  if 0xC2 ≤ byte ∧ byte ≤ 0xDF then some ⟨1, byte - 0xC0, 0x80, 0xBF⟩
  else if 0xE0 ≤ byte ∧ byte ≤ 0xEF then
    some ⟨2, byte - 0xE0, if byte = 0xE0 then 0xA0 else 0x80, if byte = 0xED then 0x9F else 0xBF⟩
  else if 0xF0 ≤ byte ∧ byte ≤ 0xF4 then
    some ⟨3, byte - 0xF0, if byte = 0xF0 then 0x90 else 0x80, if byte = 0xF4 then 0x8F else 0xBF⟩
  else none

def decodeFrom : Option Sequence → List UInt8 → List Char
  | none, [] => []
  | some _, [] => ['\uFFFD']
  | begun, byte :: rest =>
    match begun.filter fun sequence => decide (sequence.lower ≤ byte.toNat ∧ byte.toNat ≤ sequence.upper) with
    | some sequence =>
      let bits := sequence.bits * 64 + (byte.toNat - 0x80)
      if sequence.needed = 1 then Char.ofNat bits :: decodeFrom none rest
      else decodeFrom (some ⟨sequence.needed - 1, bits, 0x80, 0xBF⟩) rest
    | none =>
      -- a sequence that breaks off is replaced, and the byte begins anew
      (if begun.isSome then ['\uFFFD'] else []) ++
        if byte.toNat < 0x80 then Char.ofNat byte.toNat :: decodeFrom none rest
        else
          match leading byte.toNat with
          | some sequence => decodeFrom (some sequence) rest
          | none => '\uFFFD' :: decodeFrom none rest

/-- `buffer.toString("utf8")` -/
def decodeUtf8 (bytes : List UInt8) : String := String.ofList (decodeFrom none bytes)

example : decodeUtf8 (utf8 "aé€") = "aé€" ∧ decodeUtf8 [0xE2, 0x82, 0x41, 0xC0] = "\uFFFDA\uFFFD" := by decide

/-- The length of a text in two bytes, and its bytes. -/
def textBytes (s : String) : List UInt8 := leBytes 2 (utf8 s).length ++ utf8 s

def readText (bytes : List UInt8) : Option (String × List UInt8) := do
  let (length, rest) ← readNat 2 bytes
  let (taken, rest) ← takeBytes length rest
  let text ← String.fromUTF8? ⟨taken.toArray⟩
  return (text, rest)

theorem fromUTF8_utf8 (s : String) : String.fromUTF8? ⟨(utf8 s).toArray⟩ = some s := by
  have hbytes : (⟨(utf8 s).toArray⟩ : ByteArray) = s.toByteArray := rfl
  rw [hbytes, String.fromUTF8?, dif_pos s.isValidUTF8]
  rfl

theorem readText_textBytes {s : String} (h : (utf8 s).length < 65536) (rest : List UInt8) :
    readText (textBytes s ++ rest) = some (s, rest) := by
  have hlen : (utf8 s).length % 256 ^ 2 = (utf8 s).length := Nat.mod_eq_of_lt h
  simp only [readText, textBytes, List.append_assoc, readNat_leBytes, hlen, takeBytes_append, fromUTF8_utf8,
    Option.bind_eq_bind, Option.bind_some]
  rfl

end Delego.Data
