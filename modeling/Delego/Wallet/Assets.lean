import Delego.Data.JsonParse

/-! Helpers of the wallet's asset management (`wallet/src/assets/utils.ts`).

Amounts are integers of stroops, or decimals of them (`toStroops_exact`). A key stands for one asset, but for credit
assets whose code is one that keys have for something else (`identified_iff`). -/
namespace Delego.Wallet
open Delego.Data List Option

/-! ### Amounts -/

/-- `text.padEnd(width, "0")` -/
def padEnd (width : Nat) (text : List Char) : List Char := text ++ replicate (width - text.length) '0'

/-- `text.padStart(width, "0")` -/
def padStart (width : Nat) (text : List Char) : List Char := replicate (width - text.length) '0' ++ text

/-- `parts[0]` and `parts[1]` of `value.split(".")`. -/
def parts (value : List Char) : List Char × List Char :=
  (value.takeWhile (· ≠ '.'), (value.dropWhile (· ≠ '.')).tail.takeWhile (· ≠ '.'))

def toStroops (value : String) (decimals : Nat) : String :=
  let (whole, fraction) := parts value.toList
  let combined := whole ++ (padEnd decimals fraction).take decimals
  let trimmed := combined.dropWhile (· = '0')
  if trimmed = [] then "0" else String.ofList trimmed

/-- Nothing, where `BigInt` throws. -/
def fromStroops (stroops : String) (decimals : Nat) : Option String :=
  (readInteger (if stroops = "" then "0" else stroops).toList).map fun value =>
    let absolute := value.natAbs
    let scale := 10 ^ decimals
    let result := Nat.toDigits 10 (absolute / scale) ++ '.' :: padStart decimals (Nat.toDigits 10 (absolute % scale))
    String.ofList (if value < 0 then '-' :: result else result)

def signed (negative : Bool) (n : Nat) : Int := if negative then -n else n

/-- A decimal: digits, with a minus sign or without, and with a fraction or without. -/
structure Decimal where
  negative : Bool
  digits : List Char
  fraction : Option (List Char)
  digits_ne_nil : digits ≠ []
  isDigit : ∀ c ∈ digits ++ fraction.getD [], c.isDigit = true

namespace Decimal

def text (v : Decimal) : String :=
  String.ofList ((if v.negative then ['-'] else []) ++ v.digits ++ v.fraction.elim [] ('.' :: ·))

def units (v : Decimal) : Int := signed v.negative (Nat.ofDigitChars 10 (v.digits ++ v.fraction.getD []) 0)

theorem parts_text (v : Decimal) :
    parts v.text.toList = ((if v.negative then ['-'] else []) ++ v.digits, v.fraction.getD []) := by
  obtain ⟨negative, digits, fraction, -, hdigits⟩ := v
  have hpoint : ∀ c ∈ digits ++ fraction.getD [], decide (c ≠ '.') = true := fun c hc =>
    decide_eq_true fun heq => by simpa [heq] using hdigits c hc
  have hwhole : ∀ c ∈ (if negative then ['-'] else []) ++ digits, decide (c ≠ '.') = true := by
    intro c hc
    rcases mem_append.mp hc with hc | hc
    · split at hc
      · rw [mem_singleton.mp hc]
        decide
      · cases hc
    · exact hpoint c (mem_append_left _ hc)
  simp only [parts, text, String.toList_ofList]
  rw [takeWhile_append_of_pos hwhole, dropWhile_append_of_pos hwhole]
  cases fraction with
  | none => simp
  | some f => simpa using fun c hc => of_decide_eq_true (hpoint c (mem_append_right _ hc))

end Decimal

variable {text : List Char}

theorem ofDigitChars_lt (h : ∀ c ∈ text, c.isDigit = true) : Nat.ofDigitChars 10 text 0 < 10 ^ text.length := by
  induction text with
  | nil => decide
  | cons c text ih =>
    obtain ⟨hc, hrest⟩ := forall_mem_cons.mp h
    have hlt := ih hrest
    have hdigit : c.toNat - '0'.toNat ≤ 9 := by
      have hbounds : c.toNat ≤ 57 := (Char.isDigit_iff_toNat.mp hc).2
      exact Nat.sub_le_of_le_add hbounds
    rw [Nat.ofDigitChars_cons, Nat.ofDigitChars_eq_ofDigitChars_zero, length_cons, Nat.pow_succ]
    simp only [Nat.mul_zero, Nat.zero_add]
    have := Nat.mul_le_mul_left (10 ^ text.length) hdigit
    omega

theorem readInteger_digits (h : ∀ c ∈ text, c.isDigit = true) :
    readInteger text = some (Nat.ofDigitChars 10 text 0 : Int) := by
  unfold readInteger
  split
  · exact absurd (h '-' mem_cons_self) (by decide)
  · rw [readDigits_eq h]
    rfl

/-- What `BigInt` makes of digits without the zeros they start with. -/
theorem readInteger_trimmed (h : ∀ c ∈ text, c.isDigit = true) :
    readInteger (if text.dropWhile (· = '0') = [] then "0" else String.ofList (text.dropWhile (· = '0'))).toList =
      some (Nat.ofDigitChars 10 text 0 : Int) := by
  have hzeros : text.takeWhile (· = '0') = replicate (text.takeWhile (· = '0')).length '0' :=
    eq_replicate_of_mem fun c hc => by simpa using mem_takeWhile_imp hc
  have hvalue : Nat.ofDigitChars 10 text 0 = Nat.ofDigitChars 10 (text.dropWhile (· = '0')) 0 := by
    conv_lhs => rw [← takeWhile_append_dropWhile (p := (· = '0')) (l := text), hzeros, Nat.ofDigitChars_append,
      Nat.ofDigitChars_replicate_zero, Nat.mul_zero]
  rw [hvalue]
  split
  · rename_i hnil
    rw [hnil]
    rfl
  · rw [String.toList_ofList]
    exact readInteger_digits fun c hc => h c (dropWhile_subset _ hc)

theorem readInteger_toStroops (v : Decimal) (decimals : Nat) : readInteger (toStroops v.text decimals).toList =
    some (signed v.negative (Nat.ofDigitChars 10 (v.digits ++ (padEnd decimals (v.fraction.getD [])).take decimals) 0)) := by
  obtain ⟨c, rest, hdigits⟩ := exists_cons_of_ne_nil v.digits_ne_nil
  have hall : ∀ x ∈ v.digits ++ (padEnd decimals (v.fraction.getD [])).take decimals, x.isDigit = true := by
    intro x hx
    rcases mem_append.mp hx with hx | hx
    · exact v.isDigit x (mem_append_left _ hx)
    · rcases mem_append.mp (mem_of_mem_take hx) with hx | hx
      · exact v.isDigit x (mem_append_right _ hx)
      · rw [eq_of_mem_replicate hx]
        decide
  simp only [toStroops, v.parts_text, append_assoc]
  cases v.negative with
  | false => exact readInteger_trimmed hall
  | true =>
    rw [hdigits] at hall ⊢
    simp only [↓reduceIte, cons_append, nil_append, signed] at hall ⊢
    rw [dropWhile_cons_of_neg (by decide), if_neg (cons_ne_nil _ _), String.toList_ofList, readInteger,
      readDigits_eq hall]
    rfl

theorem ofDigitChars_take (v : Decimal) (decimals : Nat) :
    Nat.ofDigitChars 10 (v.digits ++ (padEnd decimals (v.fraction.getD [])).take decimals) 0 =
      Nat.ofDigitChars 10 (v.digits ++ v.fraction.getD []) 0 * 10 ^ decimals / 10 ^ (v.fraction.getD []).length := by
  generalize hf : v.fraction.getD [] = f
  -- As many zeros as there are decimals are written behind the fraction, and as many digits as it has cut off.
  have hpadded : (padEnd decimals f).take decimals = (f ++ replicate decimals '0').take decimals := by
    rw [padEnd, take_append, take_append, take_replicate, take_replicate, Nat.min_self,
      Nat.min_eq_left (Nat.sub_le ..)]
  have hsplit := take_append_drop decimals (f ++ replicate decimals '0')
  have hlen : ((f ++ replicate decimals '0').drop decimals).length = f.length := by simp
  have hlt : Nat.ofDigitChars 10 ((f ++ replicate decimals '0').drop decimals) 0 < 10 ^ f.length := by
    rw [← hlen]
    refine ofDigitChars_lt fun c hc => ?_
    rcases mem_append.mp (mem_of_mem_drop hc) with hc | hc
    · exact v.isDigit c (mem_append_right _ (hf ▸ hc))
    · rw [eq_of_mem_replicate hc]
      decide
  have htotal : Nat.ofDigitChars 10 (v.digits ++ f) 0 * 10 ^ decimals =
      Nat.ofDigitChars 10 ((f ++ replicate decimals '0').drop decimals) 0 +
        10 ^ f.length * Nat.ofDigitChars 10 (v.digits ++ (f ++ replicate decimals '0').take decimals) 0 := by
    rw [Nat.mul_comm, ← Nat.ofDigitChars_replicate_zero, ← Nat.ofDigitChars_append, append_assoc]
    conv_lhs => rw [← hsplit, ← append_assoc, Nat.ofDigitChars_append, Nat.ofDigitChars_eq_ofDigitChars_zero, hlen]
    exact Nat.add_comm ..
  rw [hpadded, htotal, Nat.add_mul_div_left _ _ (by positivity), Nat.div_eq_of_lt hlt, Nat.zero_add]

/-- What `fromStroops` writes. -/
def written (s : Int) (decimals : Nat) : Decimal where
  negative := s < 0
  digits := Nat.toDigits 10 (s.natAbs / 10 ^ decimals)
  fraction := some (padStart decimals (Nat.toDigits 10 (s.natAbs % 10 ^ decimals)))
  digits_ne_nil := Nat.toDigits_ne_nil
  isDigit := by
    intro c hc
    simp only [getD_some, padStart, mem_append] at hc
    rcases hc with hc | hc | hc
    · exact isDigit_toDigits c hc
    · rw [eq_of_mem_replicate hc]
      decide
    · exact isDigit_toDigits c hc

theorem fromStroops_toString (s : Int) (decimals : Nat) : fromStroops (toString s) decimals = some (written s decimals).text := by
  have hne : toString s ≠ "" := fun h => by
    have hread := readInteger_toString s
    rw [h] at hread
    cases hread
    exact absurd h (by decide)
  simp only [fromStroops, if_neg hne, readInteger_toString, map_some, written, Decimal.text, elim_some]
  congr 2
  by_cases hs : s < 0 <;> simp [hs]

theorem ofDigitChars_written (s : Int) (decimals : Nat) : Nat.ofDigitChars 10 ((written s decimals).digits ++
    (padEnd decimals ((written s decimals).fraction.getD [])).take decimals) 0 = s.natAbs := by
  simp only [written, getD_some]
  rcases Nat.eq_zero_or_pos decimals with rfl | hpos
  · simp [Nat.ofDigitChars_ten_toDigits]
  · have hlen : (padStart decimals (Nat.toDigits 10 (s.natAbs % 10 ^ decimals))).length = decimals := by
      have hle := (Nat.length_toDigits_le_iff (by decide) hpos).mpr (Nat.mod_lt s.natAbs (Nat.pow_pos (n := decimals) (by decide : 0 < 10)))
      simp only [padStart, length_append, length_replicate]
      omega
    rw [padEnd, hlen, Nat.sub_self, replicate_zero, append_nil, take_of_length_le hlen.le,
      Nat.ofDigitChars_append, Nat.ofDigitChars_eq_ofDigitChars_zero, hlen, padStart, Nat.ofDigitChars_append,
      Nat.ofDigitChars_replicate_zero, Nat.mul_zero, Nat.ofDigitChars_ten_toDigits, Nat.ofDigitChars_ten_toDigits]
    exact Nat.div_add_mod ..

/-- **An amount in stroops is written and read back as it was; and a decimal is read as its value, in units of the last
of the decimals, truncated towards zero.** -/
theorem toStroops_exact : (∀ (s : Int) (decimals : Nat), ((fromStroops (toString s) decimals).bind fun text =>
      readInteger (toStroops text decimals).toList) = some s) ∧
    ∀ (v : Decimal) (decimals : Nat), readInteger (toStroops v.text decimals).toList =
      some ((v.units * 10 ^ decimals).tdiv (10 ^ (v.fraction.getD []).length)) := by
  constructor
  · intro s decimals
    rw [fromStroops_toString, bind_some, readInteger_toStroops]
    exact congrArg some (by rw [ofDigitChars_written]; simp only [signed, written, decide_eq_true_eq]; split <;> omega)
  · intro v decimals
    rw [readInteger_toStroops, ofDigitChars_take, Decimal.units]
    cases v.negative <;> simp [signed, Int.neg_tdiv, Int.tdiv_eq_ediv_of_nonneg (Int.mul_nonneg _ _)]
/-! ### Keys -/

inductive AssetType where
  | native | credit_alphanum4 | credit_alphanum12 | liquidity_pool
  deriving DecidableEq

structure AssetReference where
  (code issuer : String)
  type : AssetType
  deriving DecidableEq

def isNativeCode (code : String) : Bool := decide (code = "" ∨ code = "XLM" ∨ code = "native")

def nativeAssetReference : AssetReference := ⟨"XLM", "", .native⟩

/-- `credit_alphanum4` or `credit_alphanum12`, by the length of the code. -/
def creditType (code : String) : AssetType := if (codeUnits code).length ≤ 4 then .credit_alphanum4 else .credit_alphanum12

def assetKey (asset : AssetReference) : String :=
  if asset.type = .native ∨ isNativeCode asset.code then "XLM"
  else if asset.type = .liquidity_pool then "LP:" ++ asset.issuer
  else asset.code ++ ":" ++ asset.issuer

def parseAssetKey (key : String) : Option AssetReference :=
  let trimmed := trim key
  if trimmed = "" then none
  else if isNativeCode trimmed then some nativeAssetReference
  else if ['L', 'P', ':'].isPrefixOf trimmed.toList ∧ 3 < trimmed.toList.length then
    some ⟨"LP", String.ofList (trimmed.toList.drop 3), .liquidity_pool⟩
  else
    let code := trimmed.toList.takeWhile (· ≠ ':')
    let issuer := (trimmed.toList.dropWhile (· ≠ ':')).tail
    if code = [] ∨ issuer = [] then none
    else some ⟨String.ofList code, String.ofList issuer, creditType (String.ofList code)⟩

structure HorizonBalance where
  asset_type : String
  asset_code : Option String := none
  asset_issuer : Option String := none
  liquidity_pool_id : Option String := none

def horizonBalanceToReference (balance : HorizonBalance) : AssetReference :=
  if balance.asset_type = "native" then nativeAssetReference
  else if balance.asset_type = "liquidity_pool_shares" then
    ⟨"LP", balance.liquidity_pool_id.getD "", .liquidity_pool⟩
  else
    let code := balance.asset_code.getD "UNKNOWN"
    ⟨code, balance.asset_issuer.getD "", creditType code⟩

/-- Assets of the SDK. One that is made with an issuer is not native. -/
structure Sdk (Asset : Type) where
  native : Asset
  isNative : Asset → Bool
  /-- `new Asset(code, issuer)` -/
  new : String → String → Except String Asset
  issued : ∀ {code issuer asset}, issuer ≠ "" → new code issuer = .ok asset → isNative asset = false

def toSdkAsset {Asset : Type} (sdk : Sdk Asset) (ref : AssetReference) : Except String Asset :=
  if ref.type = .native ∨ isNativeCode ref.code then .ok sdk.native else sdk.new ref.code ref.issuer

/-! ### What Horizon lists -/

/-- Letters and digits, and at least one of them, as codes, issuers and the ids of pools are. -/
structure Name where
  text : String
  nonempty : text ≠ ""
  alphanumeric : ∀ c ∈ text.toList, c.isAlphanum = true

inductive Holding where
  | native
  | credit (code issuer : Name)
  | pool (id : Name)

namespace Holding

def balance : Holding → HorizonBalance
  | .native => { asset_type := "native" }
  | .credit code issuer => {
      asset_type := if (codeUnits code.text).length ≤ 4 then "credit_alphanum4" else "credit_alphanum12"
      asset_code := some code.text
      asset_issuer := some issuer.text }
  | .pool id => { asset_type := "liquidity_pool_shares", liquidity_pool_id := some id.text }

def reference (h : Holding) : AssetReference := horizonBalanceToReference h.balance

theorem reference_credit (code issuer : Name) : (credit code issuer).reference = ⟨code.text, issuer.text, creditType code.text⟩ := by
  simp only [reference, balance, horizonBalanceToReference]
  split <;> rfl

def misread : Holding → Bool
  | .credit code _ => decide (code.text = "XLM" ∨ code.text = "native" ∨ code.text = "LP")
  | _ => false

end Holding

/-- The key of each is its own and read back, and the native asset is none of the others. -/
structure Identified {Asset : Type} (sdk : Sdk Asset) (holdings : Set Holding) : Prop where
  injective : ∀ h ∈ holdings, ∀ h' ∈ holdings, assetKey h.reference = assetKey h'.reference → h.reference = h'.reference
  parsed : ∀ h ∈ holdings, parseAssetKey (assetKey h.reference) = some h.reference
  native : ∀ h ∈ holdings, ∀ asset, toSdkAsset sdk h.reference = .ok asset → sdk.isNative asset = true →
    h.reference.type = .native

theorem isWhiteSpace_alphanumeric {c : Char} (h : c.isAlphanum = true) : isWhiteSpace c = false := by
  have hval : c.toNat = c.val.toNat := rfl
  have h : (decide (65 ≤ c.val ∧ c.val ≤ 90) || decide (97 ≤ c.val) && decide (c.val ≤ 122) || c.isDigit) = true := h
  simp only [Bool.or_eq_true, Bool.and_eq_true, decide_eq_true_eq, Char.isDigit, UInt32.le_iff_toNat_le] at h
  simp only [isWhiteSpace, Bool.or_eq_false_iff, Bool.and_eq_false_iff, beq_eq_false_iff_ne, decide_eq_false_iff_not]
  simp at h
  omega

theorem ne_colon {c : Char} (h : c.isAlphanum = true) : c ≠ ':' := by
  rintro rfl
  cases h

/-- Keys have nothing to trim. -/
theorem trim_key {first : List Char} (last : Name) (hfirst : ∀ c ∈ first.head?, c.isAlphanum = true) (hne : first ≠ []) :
    trim (String.ofList (first ++ last.text.toList)) = String.ofList (first ++ last.text.toList) := by
  have hlast : last.text.toList ≠ [] := fun h => last.nonempty (String.toList_eq_nil_iff.mp h)
  rw [trim, String.toList_ofList, trim_of_trimmed]
  constructor
  · rw [head?_append_of_ne_nil _ hne]
    exact fun c hc => isWhiteSpace_alphanumeric (hfirst c hc)
  · rw [getLast?_append_of_ne_nil _ hlast]
    exact fun c hc => isWhiteSpace_alphanumeric (last.alphanumeric c (mem_of_getLast? hc))

theorem native_key {key : String} (h : ':' ∈ key.toList) : key ≠ "" ∧ isNativeCode key = false := by
  refine ⟨?_, decide_eq_false fun heq => ?_⟩
  · rintro rfl
    exact absurd h (by decide)
  · rcases heq with rfl | rfl | rfl <;> exact absurd h (by decide)

theorem parse_pool (id : Name) : parseAssetKey ("LP:" ++ id.text) = some ⟨"LP", id.text, .liquidity_pool⟩ := by
  have hkey : "LP:" ++ id.text = String.ofList (['L', 'P', ':'] ++ id.text.toList) := by
    rw [String.ofList_append, String.ofList_toList]
  have hlen : 0 < id.text.toList.length := length_pos_of_ne_nil fun h => id.nonempty (String.toList_eq_nil_iff.mp h)
  have hkey' := @native_key (String.ofList (['L', 'P', ':'] ++ id.text.toList)) (by simp)
  rw [hkey, parseAssetKey, trim_key id (by simp) (cons_ne_nil _ _)]
  simp only [if_neg hkey'.1, hkey'.2, Bool.false_eq_true, ↓reduceIte, String.toList_ofList]
  rw [if_pos ⟨by simp [isPrefixOf], by simp; omega⟩]
  simp

theorem parse_credit {code : Name} (issuer : Name) (hcode : (Holding.credit code issuer).misread = false) :
    parseAssetKey (code.text ++ ":" ++ issuer.text) = some ⟨code.text, issuer.text, creditType code.text⟩ := by
  have hkey : code.text ++ ":" ++ issuer.text = String.ofList ((code.text.toList ++ [':']) ++ issuer.text.toList) := by
    rw [String.ofList_append, String.ofList_append, String.ofList_toList, String.ofList_toList]
  have hne : code.text.toList ≠ [] := fun h => code.nonempty (String.toList_eq_nil_iff.mp h)
  have hissuer : issuer.text.toList ≠ [] := fun h => issuer.nonempty (String.toList_eq_nil_iff.mp h)
  have hprefix : ['L', 'P', ':'].isPrefixOf (code.text.toList ++ ':' :: issuer.text.toList) = false := by
    have hplain := code.alphanumeric
    have hlp : code.text.toList ≠ ['L', 'P'] := by
      intro h
      simp [Holding.misread, ← String.toList_inj, h] at hcode
    rcases hc : code.text.toList with _ | ⟨a, _ | ⟨b, _ | ⟨c, rest⟩⟩⟩
    · exact absurd hc hne
    · simp [isPrefixOf]
    · rw [hc] at hlp
      simpa [isPrefixOf] using fun ha hb => hlp (by rw [← ha, ← hb])
    · rw [hc] at hplain
      have hcolon := ne_colon (hplain c (by simp))
      simp [isPrefixOf, hcolon.symm]
  have hcolon : ∀ c ∈ code.text.toList, decide (c ≠ ':') = true := fun c hc => decide_eq_true (ne_colon (code.alphanumeric c hc))
  have hkey' := @native_key (String.ofList ((code.text.toList ++ [':']) ++ issuer.text.toList)) (by simp)
  rw [hkey, parseAssetKey, trim_key issuer (by
    rw [head?_append_of_ne_nil _ hne]
    exact fun c hc => code.alphanumeric c (mem_of_head? hc)) (by simp)]
  simp only [if_neg hkey'.1, hkey'.2]
  simp only [Bool.false_eq_true, ↓reduceIte, String.toList_ofList, append_assoc, singleton_append, hprefix,
    false_and]
  rw [takeWhile_append_of_pos hcolon, dropWhile_append_of_pos hcolon]
  simp [hne, hissuer]

theorem native_credit {code issuer : Name} (h : (Holding.credit code issuer).misread = false) :
    ¬(creditType code.text = .native ∨ isNativeCode code.text = true) := by
  simp only [Holding.misread, decide_eq_false_iff_not, not_or] at h
  rintro (htype | hcode)
  · unfold creditType at htype
    split at htype <;> cases htype
  · rcases of_decide_eq_true hcode with hcode | hcode | hcode
    · exact code.nonempty hcode
    · exact h.1 hcode
    · exact h.2.1 hcode

theorem parse_key {h : Holding} (hread : h.misread = false) : parseAssetKey (assetKey h.reference) = some h.reference := by
  cases h with
  | native => decide
  | credit code issuer =>
    have htype : creditType code.text ≠ .liquidity_pool := by
      unfold creditType
      split <;> exact nofun
    rw [Holding.reference_credit, assetKey, if_neg (native_credit hread), if_neg htype, parse_credit issuer hread]
  | pool id => exact parse_pool id

/-- **Keys identify assets among what has no credit asset with the code `XLM`, `native` or `LP`, and only there.** -/
theorem identified_iff {Asset : Type} (sdk : Sdk Asset) (holdings : Set Holding) :
    Identified sdk holdings ↔ ∀ h ∈ holdings, h.misread = false := by
  constructor
  · intro hid h hmem
    cases h with
    | native | pool => rfl
    | credit code issuer =>
      refine decide_eq_false fun hcode => ?_
      have hparsed := hid.parsed _ hmem
      rw [Holding.reference_credit] at hparsed
      have hnative : isNativeCode code.text = true → False := by
        intro hcode
        rw [assetKey, if_pos (.inr hcode)] at hparsed
        have href : AssetReference.mk "XLM" "" .native = ⟨code.text, issuer.text, creditType code.text⟩ :=
          some.inj ((by decide : parseAssetKey "XLM" = some ⟨"XLM", "", .native⟩) ▸ hparsed)
        exact issuer.nonempty (congrArg AssetReference.issuer href).symm
      rcases hcode with hcode | hcode | hcode
      · exact hnative (decide_eq_true (.inr (.inl hcode)))
      · exact hnative (decide_eq_true (.inr (.inr hcode)))
      · rw [hcode] at hparsed
        cases hparsed.symm.trans (parse_pool issuer)
  · intro hread
    refine ⟨fun h hmem h' hmem' heq => ?_, fun h hmem => parse_key (hread h hmem), fun h hmem asset hsdk hnative => ?_⟩
    · have hparsed := parse_key (hread h hmem)
      rw [heq, parse_key (hread h' hmem')] at hparsed
      exact (some.inj hparsed).symm
    · cases h with
      | native => rfl
      | credit code issuer =>
        have hcode := hread _ hmem
        rw [Holding.reference_credit, toSdkAsset, if_neg (native_credit hcode)] at hsdk
        rw [sdk.issued issuer.nonempty hsdk] at hnative
        cases hnative
      | pool id =>
        rw [sdk.issued id.nonempty hsdk] at hnative
        cases hnative

def stellar : Sdk (String × String) where
  native := ("XLM", "")
  isNative asset := decide (asset.2 = "")
  new code issuer := .ok (code, issuer)
  issued hissuer hnew := by
    cases hnew
    exact decide_eq_false hissuer

def issuer : Name := ⟨"GISSUER", by decide, all_eq_true.mp rfl⟩

/-- **Anyone can issue an asset with the key of the native one.** -/
theorem credit_keyed_native : ¬ Identified stellar {.native, .credit ⟨"XLM", by decide, all_eq_true.mp rfl⟩ issuer} := fun h =>
  absurd (h.injective .native (.inl rfl) (.credit ⟨"XLM", by decide, all_eq_true.mp rfl⟩ issuer) (.inr rfl) (by decide)) (by decide)

end Delego.Wallet
