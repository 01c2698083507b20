/-! Base64, as Node's buffers write and read it.

Reading stops at the first `=` and passes over a character outside the alphabet; what was written is read back
(`fromBase64_toBase64`). -/
namespace Delego.Data

def base64Char (n : Nat) : Char :=
  if n < 26 then Char.ofNat (65 + n)
  else if n < 52 then Char.ofNat (71 + n)
  else if n < 62 then Char.ofNat (n - 4)
  else if n = 62 then '+' else '/'

/-- The six bits of a character; the alphabet for URLs is read too. -/
def base64Value (c : Char) : Option Nat :=
  if 'A' ≤ c ∧ c ≤ 'Z' then some (c.toNat - 65)
  else if 'a' ≤ c ∧ c ≤ 'z' then some (c.toNat - 71)
  else if '0' ≤ c ∧ c ≤ '9' then some (c.toNat + 4)
  else if c = '+' ∨ c = '-' then some 62
  else if c = '/' ∨ c = '_' then some 63
  else none

def base64Chars : List UInt8 → List Char
  | [] => []
  | [a] => [base64Char (a.toNat / 4), base64Char (a.toNat % 4 * 16), '=', '=']
  | [a, b] => [base64Char (a.toNat / 4), base64Char (a.toNat % 4 * 16 + b.toNat / 16), base64Char (b.toNat % 16 * 4), '=']
  | a :: b :: c :: rest =>
    base64Char (a.toNat / 4) :: base64Char (a.toNat % 4 * 16 + b.toNat / 16) ::
      base64Char (b.toNat % 16 * 4 + c.toNat / 64) :: base64Char (c.toNat % 64) :: base64Chars rest

def sextets (text : List Char) : List Nat := (text.takeWhile fun c => decide (c ≠ '=')).filterMap base64Value

/-- The whole bytes of the six bits each. -/
def bytesOf : List Nat → List UInt8
  | a :: b :: c :: d :: rest =>
    UInt8.ofNat (a * 4 + b / 16) :: UInt8.ofNat (b % 16 * 16 + c / 4) :: UInt8.ofNat (c % 4 * 64 + d) :: bytesOf rest
  | [a, b, c] => [UInt8.ofNat (a * 4 + b / 16), UInt8.ofNat (b % 16 * 16 + c / 4)]
  | [a, b] => [UInt8.ofNat (a * 4 + b / 16)]
  | _ => []

/-- `toString("base64")`. -/
def toBase64 (bytes : List UInt8) : String := String.ofList (base64Chars bytes)

/-- `toString("base64url")`: with characters that a URL may have, and nothing filled up. -/
def toBase64url (bytes : List UInt8) : String :=
  String.ofList (((base64Chars bytes).filter fun c => decide (c ≠ '=')).map fun c =>
    if c = '+' then '-' else if c = '/' then '_' else c)

/-- `Buffer.from(text, "base64")`. -/
def fromBase64 (text : String) : List UInt8 := bytesOf (sextets text.toList)

theorem sextets_cons {n : Nat} (h : n < 64) (text : List Char) : sextets (base64Char n :: text) = n :: sextets text := by
  have hchar : ∀ n < 64, base64Char n ≠ '=' ∧ base64Value (base64Char n) = some n := by decide
  obtain ⟨hfill, hvalue⟩ := hchar n h
  unfold sextets
  rw [List.takeWhile_cons_of_pos (by simpa using hfill), List.filterMap_cons_some hvalue]

theorem sextets_fill (text : List Char) : sextets ('=' :: text) = [] := by
  unfold sextets
  rw [List.takeWhile_cons_of_neg (by simp), List.filterMap_nil]

theorem bytesOf_base64Chars (bytes : List UInt8) : bytesOf (sextets (base64Chars bytes)) = bytes := by
  have hbyte : ∀ a : UInt8, a.toNat < 256 := fun a => a.toNat_lt
  have hback : ∀ (a : UInt8) (n : Nat), n = a.toNat → UInt8.ofNat n = a := by
    intro a n hn
    rw [hn, UInt8.ofNat_toNat]
  induction bytes using base64Chars.induct with
  | case1 => rfl
  | case2 a =>
    have ha := hbyte a
    rw [base64Chars, sextets_cons (by omega), sextets_cons (by omega), sextets_fill, bytesOf, hback a _ (by omega)]
  | case3 a b =>
    have ha := hbyte a
    have hb := hbyte b
    rw [base64Chars, sextets_cons (by omega), sextets_cons (by omega), sextets_cons (by omega), sextets_fill, bytesOf,
      hback a _ (by omega), hback b _ (by omega)]
  | case4 a b c rest ih =>
    have ha := hbyte a
    have hb := hbyte b
    have hc := hbyte c
    rw [base64Chars, sextets_cons (by omega), sextets_cons (by omega), sextets_cons (by omega), sextets_cons (by omega),
      bytesOf, ih, hback a _ (by omega), hback b _ (by omega), hback c _ (by omega)]

/-- **What was written is read back.** -/
theorem fromBase64_toBase64 (bytes : List UInt8) : fromBase64 (toBase64 bytes) = bytes := by
  unfold fromBase64 toBase64
  rw [String.toList_ofList]
  exact bytesOf_base64Chars bytes

end Delego.Data
