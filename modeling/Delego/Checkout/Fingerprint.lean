import Delego.Data.JsonParse

/-! The fingerprint of a checkout (`orchestrator/src/idempotency/fingerprint.ts`).

What is hashed is the wallet, the items in a canonical form and the nonce, with bars between them. The canonical form
says which items they are, in whatever order they and their properties come (`items_and_nonce`). The wallet is any text,
so a bar in it may be taken for the one after it (`text_eq_iff`). -/
namespace Delego.Checkout.Fingerprint
open Delego.Data List

mutual

def canonicalJson : Json → List Char
  | .array items => '[' :: (joined (canonicalTexts items) ++ [']'])
  | .object members => '{' :: (joined ((sortByKey (canonicalMembers members)).map Prod.snd) ++ ['}'])
  | value => value.chars

def canonicalTexts : List Json → List (List Char)
  | [] => []
  | item :: rest => canonicalJson item :: canonicalTexts rest

def canonicalMembers : List (String × Json) → List (String × List Char)
  | [] => []
  | (key, value) :: rest => (key, quote key ++ ':' :: canonicalJson value) :: canonicalMembers rest

end

/-- The canonical forms of the items, sorted; `null` and missing items are none. -/
def canonicalItems : Option Json → List Char
  | some (.array items) =>
    '[' :: (joined ((sortStrings ((canonicalTexts items).map String.ofList)).map String.toList) ++ [']'])
  | some .null => canonicalJson (.array [])
  | none => canonicalJson (.array [])
  | some value => canonicalJson value

structure CheckoutFingerprintInput where
  walletAddress : String
  items : Option Json
  nonce : String
  /-- The items are a value of the language. -/
  readable : ∀ value ∈ items, value.Readable

def CheckoutFingerprintInput.text (input : CheckoutFingerprintInput) : List Char :=
  input.walletAddress.toList ++ '|' :: (canonicalItems input.items ++ '|' :: input.nonce.toList)

def computeCheckoutFingerprint (sha256 : String → String) (input : CheckoutFingerprintInput) : String :=
  sha256 (String.ofList input.text)

def afterFirst (texts : List (List Char)) (close : Char) (rest : List Char) : List Char :=
  if texts = [] then close :: rest else ',' :: (joined texts ++ close :: rest)

theorem joined_cons (text : List Char) (texts : List (List Char)) (close : Char) (rest : List Char) :
    joined (text :: texts) ++ close :: rest = text ++ afterFirst texts close rest := by
  cases texts with
  | nil => rfl
  | cons next texts =>
    rw [joined, afterFirst, if_neg (cons_ne_nil _ _), append_assoc, cons_append]
    exact cons_ne_nil _ _

theorem stops_afterFirst {texts : List (List Char)} {close : Char} (hclose : isNumeralChar close = false)
    (rest : List Char) : Stops (afterFirst texts close rest) := by
  unfold afterFirst
  split
  · exact stops_cons hclose rest
  · exact stops_cons rfl _

variable {rest rest' : List Char}

theorem joined_inj {α : Type} {f : α → List Char} {R : α → α → Prop} {close : Char} {items others : List α}
    (hclose : isNumeralChar close = false) (hcomma : close ≠ ',')
    (hbegins : ∀ a, a ∈ items ∨ a ∈ others → (f a).head? ≠ some close ∧ f a ≠ [])
    (htells : ∀ a ∈ items, ∀ b ∈ others, ∀ rest rest', Stops rest → Stops rest' → f a ++ rest = f b ++ rest' →
      R a b ∧ rest = rest') (h : joined (items.map f) ++ close :: rest = joined (others.map f) ++ close :: rest') :
    List.Forall₂ R items others ∧ rest = rest' := by
  have hfirst : ∀ a, a ∈ items ∨ a ∈ others →
      ∀ texts rest, ∀ rest', close :: rest' ≠ f a ++ afterFirst texts close rest := by
    intro a ha texts rest rest' heq
    obtain ⟨hhead, hsome⟩ := hbegins a ha
    obtain ⟨c, tail, htext⟩ := exists_cons_of_ne_nil hsome
    rw [htext, cons_append] at heq
    rw [htext, ← (cons.inj heq).1] at hhead
    exact hhead rfl
  induction items generalizing others with
  | nil =>
    cases others with
    | nil => exact ⟨.nil, (cons.inj h).2⟩
    | cons b others =>
      rw [map_cons, joined_cons] at h
      exact absurd h (hfirst b (.inr (mem_cons_self ..)) _ _ _)
  | cons a items ih =>
    cases others with
    | nil =>
      rw [map_cons, joined_cons] at h
      exact absurd h.symm (hfirst a (.inl (mem_cons_self ..)) _ _ _)
    | cons b others =>
      rw [map_cons, map_cons, joined_cons, joined_cons] at h
      obtain ⟨hab, htail⟩ := htells a (mem_cons_self ..) b (mem_cons_self ..) _ _
        (stops_afterFirst hclose rest) (stops_afterFirst hclose rest') h
      unfold afterFirst at htail
      cases items with
      | nil =>
        cases others with
        | nil => exact ⟨.cons hab .nil, (cons.inj htail).2⟩
        | cons _ _ => exact absurd (cons.inj htail).1 hcomma
      | cons _ _ =>
        cases others with
        | nil => exact absurd (cons.inj htail).1.symm hcomma
        | cons _ _ =>
          obtain ⟨hrest, hsame⟩ := ih (fun a ha => hbegins a (ha.imp (mem_cons_of_mem _) (mem_cons_of_mem _)))
            (fun a ha b hb => htells a (mem_cons_of_mem _ ha) b (mem_cons_of_mem _ hb))
            (cons.inj htail).2
            (fun a ha => hfirst a (ha.imp (mem_cons_of_mem _) (mem_cons_of_mem _)))
          exact ⟨.cons hab hrest, hsame⟩

theorem quote_inj {s s' : String} (h : quote s ++ rest = quote s' ++ rest') : s = s' ∧ rest = rest' := by
  have hread : ∀ (s : String) rest, readString ((quote s ++ rest).drop 1) = some (s, rest) := by
    intro s rest
    have htext : (quote s ++ rest).drop 1 = s.toList.flatMap escape ++ '"' :: rest := by simp [quote]
    rw [htext, readString_quote]
  have hsame := hread s rest
  rw [h, hread s' rest'] at hsame
  obtain ⟨rfl, rfl⟩ := Prod.mk.inj (Option.some.inj hsame)
  exact ⟨rfl, rfl⟩

/-! ### Canonical forms say what they are of -/

theorem canonicalTexts_eq (items : List Json) : canonicalTexts items = items.map canonicalJson := by
  induction items with
  | nil => rfl
  | cons item rest ih => rw [canonicalTexts, ih, List.map_cons]

def memberText (member : String × Json) : List Char := quote member.1 ++ ':' :: canonicalJson member.2

theorem canonicalMembers_eq (members : List (String × Json)) :
    canonicalMembers members = members.map fun e => (e.1, memberText e) := by
  induction members with
  | nil => rfl
  | cons member rest ih =>
    obtain ⟨key, value⟩ := member
    rw [canonicalMembers, ih, List.map_cons, memberText]

theorem canonicalJson_array (items : List Json) :
    canonicalJson (.array items) = '[' :: (joined (items.map canonicalJson) ++ [']']) := by
  rw [canonicalJson, canonicalTexts_eq]

theorem canonicalJson_object (members : List (String × Json)) :
    canonicalJson (.object members) = '{' :: (joined ((sortByKey members).map memberText) ++ ['}']) := by
  have hsort : sortByKey (members.map fun e => (e.1, memberText e)) = (sortByKey members).map fun e => (e.1, memberText e) :=
    (List.map_insertionSort keyLe keyLe (fun e => (e.1, memberText e)) members fun _ _ _ _ => Iff.rfl).symm
  rw [canonicalJson, canonicalMembers_eq, hsort, List.map_map]
  rfl

def mark : Json → Option Char
  | .null => some 'n'
  | .bool true => some 't'
  | .bool false => some 'f'
  | .number _ => none
  | .string _ => some '"'
  | .array _ => some '['
  | .object _ => some '{'

theorem numeral_chars {numeral : String} (h : (Json.number numeral).Readable) :
    numeral.toList ≠ [] ∧ ∀ c ∈ numeral.toList, isNumeralChar c = true := by
  have hread : readNumeral numeral.toList = some numeral := h
  unfold readNumeral at hread
  split at hread
  · rename_i hnumeral
    exact isNumeral_chars hnumeral
  · cases hread

variable {value : Json}

theorem head_canonicalJson (h : value.Readable) :
    ∃ c tail, canonicalJson value = c :: tail ∧ mark value = if isNumeralChar c then none else some c := by
  cases value with
  | null => exact ⟨_, _, rfl, rfl⟩
  | bool value => cases value <;> exact ⟨_, _, rfl, rfl⟩
  | string value => exact ⟨_, _, rfl, rfl⟩
  | array items => exact ⟨_, _, canonicalJson_array items, rfl⟩
  | object members => exact ⟨_, _, canonicalJson_object members, rfl⟩
  | number numeral =>
    obtain ⟨hsome, hchars⟩ := numeral_chars h
    obtain ⟨c, tail, htext⟩ := exists_cons_of_ne_nil hsome
    refine ⟨c, tail, htext, ?_⟩
    rw [if_pos (hchars c (by rw [htext]; exact mem_cons_self ..))]
    rfl

variable {other : Json}

theorem mark_eq (h : value.Readable) (h' : other.Readable)
    (htext : canonicalJson value ++ rest = canonicalJson other ++ rest') : mark value = mark other := by
  obtain ⟨c, tail, hvalue, hmark⟩ := head_canonicalJson h
  obtain ⟨d, tail', hother, hmark'⟩ := head_canonicalJson h'
  rw [hvalue, hother, cons_append, cons_append] at htext
  rw [hmark, hmark', (cons.inj htext).1]

theorem canonicalJson_opens (h : value.Readable) : (canonicalJson value).head? ≠ some ']' ∧ canonicalJson value ≠ [] := by
  obtain ⟨c, tail, htext, hmark⟩ := head_canonicalJson h
  have hc : c ≠ ']' := by
    rintro rfl
    cases value with
    | bool value => cases value <;> cases hmark
    | _ => cases hmark
  rw [htext]
  exact ⟨fun heq => hc (Option.some.inj heq), cons_ne_nil _ _⟩

/-- The canonical form of a value, before anything that does not go on as a numeral, says which value it is. -/
def Tells (value : Json) : Prop :=
  value.Readable → ∀ other, other.Readable → ∀ rest rest', Stops rest → Stops rest' →
    canonicalJson value ++ rest = canonicalJson other ++ rest' → value.Same other ∧ rest = rest'

theorem tells_number (numeral : String) : Tells (.number numeral) := by
  intro hvalue other hother rest rest' hstops hstops' htext
  have hmark := mark_eq hvalue hother htext
  cases other with
  | number numeral' =>
    obtain ⟨htake, hdrop⟩ := takeWhile_numeral (numeral_chars hvalue).2 hstops
    obtain ⟨htake', hdrop'⟩ := takeWhile_numeral (numeral_chars hother).2 hstops'
    have hsame : numeral.toList ++ rest = numeral'.toList ++ rest' := htext
    rw [hsame] at htake hdrop
    obtain rfl := String.toList_inj.mp (htake.symm.trans htake')
    exact ⟨rfl, hdrop.symm.trans hdrop'⟩
  | bool value => cases value <;> cases hmark
  | _ => cases hmark

variable {items : List Json}

theorem tells_array (ih : ∀ item ∈ items, Tells item) : Tells (.array items) := by
  intro hvalue other hother rest rest' _ _ htext
  have hmark := mark_eq hvalue hother htext
  cases other with
  | array others =>
    have hitems := readableItems_iff.mp hvalue
    have hothers := readableItems_iff.mp hother
    rw [canonicalJson_array, canonicalJson_array, cons_append, cons_append, append_assoc, append_assoc] at htext
    obtain ⟨hsame, hrest⟩ := joined_inj rfl (by decide) (fun a ha => canonicalJson_opens (ha.elim (hitems a) (hothers a)))
      (fun a ha b hb => ih a ha (hitems a ha) b (hothers b hb)) (cons.inj htext).2
    exact ⟨⟨others, rfl, sameItems_iff.mpr hsame⟩, hrest⟩
  | bool value => cases value <;> cases hmark
  | _ => cases hmark

theorem tells_object {members : List (String × Json)} (ih : ∀ e ∈ members, Tells e.2) : Tells (.object members) := by
  intro hvalue other hother rest rest' _ _ htext
  have hmark := mark_eq hvalue hother htext
  cases other with
  | object others =>
    have hmems := readableMembers_iff.mp hvalue.2.2
    have hothers := readableMembers_iff.mp hother.2.2
    have hperm : (sortByKey members).Perm members := perm_insertionSort _ _
    have hperm' : (sortByKey others).Perm others := perm_insertionSort _ _
    rw [canonicalJson_object, canonicalJson_object, cons_append, cons_append, append_assoc,
      append_assoc] at htext
    obtain ⟨hsame, hrest⟩ := joined_inj (R := fun e d : String × Json => e.1 = d.1 ∧ e.2.Same d.2) rfl (by decide)
      (fun e _ => ⟨by simp [memberText, quote], by simp [memberText, quote]⟩)
      (by
        intro e he d hd rest rest' hstops hstops' hmember
        rw [memberText, memberText, append_assoc, append_assoc] at hmember
        obtain ⟨hkey, hafter⟩ := quote_inj hmember
        obtain ⟨hsame, hrest⟩ := ih e (hperm.subset he) (hmems e (hperm.subset he)) d.2 (hothers d (hperm'.subset hd))
          rest rest' hstops hstops' (cons.inj hafter).2
        exact ⟨⟨hkey, hsame⟩, hrest⟩)
      (cons.inj htext).2
    obtain ⟨reordered, hsame, hreordered⟩ := perm_comp_forall₂ hperm.symm hsame
    exact ⟨⟨others, reordered, rfl, hreordered.trans hperm', sameMembers_iff.mpr hsame⟩, hrest⟩
  | bool value => cases value <;> cases hmark
  | _ => cases hmark

theorem canonicalJson_tells (value : Json) : Tells value := by
  induction value using Json.nested with
  | null =>
    intro hvalue other hother rest rest' _ _ htext
    have hmark := mark_eq hvalue hother htext
    cases other with
    | null => exact ⟨rfl, append_cancel_left htext⟩
    | bool value => cases value <;> cases hmark
    | _ => cases hmark
  | bool value =>
    intro hvalue other hother rest rest' _ _ htext
    have hmark := mark_eq hvalue hother htext
    cases other with
    | bool value' =>
      obtain rfl : value = value' := by cases value <;> cases value' <;> first | rfl | cases hmark
      exact ⟨by cases value <;> rfl, append_cancel_left htext⟩
    | _ => cases value <;> cases hmark
  | string value =>
    intro hvalue other hother rest rest' _ _ htext
    have hmark := mark_eq hvalue hother htext
    cases other with
    | string value' =>
      obtain ⟨rfl, hrest⟩ := quote_inj htext
      exact ⟨rfl, hrest⟩
    | bool value => cases value <;> cases hmark
    | _ => cases hmark
  | number numeral => exact tells_number numeral
  | array items ih => exact tells_array ih
  | object members ih => exact tells_object ih

def Agrees (value : Json) : Prop := value.Readable → ∀ other, value.Same other → canonicalJson other = canonicalJson value

theorem same_texts {others : List Json} (ih : ∀ item ∈ items, Agrees item) (hitems : ∀ item ∈ items, item.Readable)
    (hsame : List.Forall₂ Json.Same items others) : others.map canonicalJson = items.map canonicalJson := by
  induction hsame with
  | nil => rfl
  | @cons item other items others hitem _ ihrest =>
    rw [map_cons, map_cons, ih item mem_cons_self (hitems item mem_cons_self) other hitem,
      ihrest (fun a ha => ih a (mem_cons_of_mem _ ha)) fun a ha => hitems a (mem_cons_of_mem _ ha)]

theorem agrees_array (ih : ∀ item ∈ items, Agrees item) : Agrees (.array items) := by
  rintro hvalue other ⟨others, rfl, hsame⟩
  rw [canonicalJson_array, canonicalJson_array, same_texts ih (readableItems_iff.mp hvalue) (sameItems_iff.mp hsame)]

theorem agrees_object {members : List (String × Json)} (ih : ∀ e ∈ members, Agrees e.2) : Agrees (.object members) := by
  rintro hvalue other ⟨others, reordered, rfl, hperm, hsame⟩
  have hmems := readableMembers_iff.mp hvalue.2.2
  have hkeyed : reordered.map (fun e => (e.1, memberText e)) = members.map fun e => (e.1, memberText e) := by
    have hforall := sameMembers_iff.mp hsame
    clear hsame hvalue hperm
    induction hforall with
    | nil => rfl
    | @cons member other members others hmember _ ihrest =>
      obtain ⟨hkey, hvalue⟩ := hmember
      have htext := ih member mem_cons_self (hmems member mem_cons_self) other.2 hvalue
      rw [map_cons, map_cons, memberText, memberText, hkey, htext,
        ihrest (fun a ha => ih a (mem_cons_of_mem _ ha)) fun a ha => hmems a (mem_cons_of_mem _ ha)]
  have hkeys : (members.map fun e => (e.1, memberText e)).map (·.1) = members.map (·.1) := by rw [map_map]; rfl
  have hentries : (members.map fun e => (e.1, memberText e)).Perm (others.map fun e => (e.1, memberText e)) := by
    rw [← hkeyed]
    exact hperm.map _
  rw [canonicalJson, canonicalJson, canonicalMembers_eq, canonicalMembers_eq,
    sortByKey_perm hentries (by rw [hkeys]; exact hvalue.1)]

theorem canonicalJson_agrees (value : Json) : Agrees value := by
  induction value using Json.nested with
  | null | number _ | string _ =>
    rintro _ _ rfl
    rfl
  | bool value =>
    intro _ other hsame
    cases value <;> rw [hsame]
  | array items ih => exact agrees_array ih
  | object members ih => exact agrees_object ih

/-! ### Items -/

/-- `items ?? []` -/
def itemsOf : Option Json → Json
  | some .null => .array []
  | none => .array []
  | some value => value

/-- The same value, where an array's items may come in any order. -/
def SameUpToOrder : Json → Json → Prop
  | .array items, other => ∃ others reordered, other = .array others ∧ reordered.Perm others ∧ Json.SameItems items reordered
  | value, other => value.Same other

/-- Items whose canonical forms come in their order. -/
def sortedItems (items : List Json) : List Json :=
  items.insertionSort fun a b => codeUnitLe (String.ofList (canonicalJson a)) (String.ofList (canonicalJson b))

theorem sorted_texts (items : List Json) :
    (sortStrings ((canonicalTexts items).map String.ofList)).map String.toList = (sortedItems items).map canonicalJson := by
  have hsort : sortStrings (items.map fun item => String.ofList (canonicalJson item)) =
      (sortedItems items).map fun item => String.ofList (canonicalJson item) :=
    (map_insertionSort (fun a b => codeUnitLe (String.ofList (canonicalJson a)) (String.ofList (canonicalJson b)))
      codeUnitLe _ items fun _ _ _ _ => Iff.rfl).symm
  have hmaps : (canonicalTexts items).map String.ofList = items.map fun item => String.ofList (canonicalJson item) := by
    rw [canonicalTexts_eq, map_map]
    rfl
  rw [hmaps, hsort, map_map]
  exact map_congr_left fun item _ => String.toList_ofList

theorem canonicalItems_array (items : List Json) :
    canonicalItems (some (.array items)) = '[' :: (joined ((sortedItems items).map canonicalJson) ++ [']']) := by
  rw [canonicalItems, sorted_texts]

def canonicalOf : Json → List Char
  | .array items => canonicalItems (some (.array items))
  | value => canonicalJson value

theorem canonicalItems_eq (items : Option Json) : canonicalItems items = canonicalOf (itemsOf items) := by
  have hempty : canonicalJson (.array []) = canonicalItems (some (.array [])) := by rw [canonicalItems_array]; rfl
  cases items with
  | none => exact hempty
  | some value =>
    cases value with
    | null => exact hempty
    | _ => rfl

theorem readable_itemsOf {items : Option Json} (h : ∀ value ∈ items, value.Readable) : (itemsOf items).Readable := by
  cases items with
  | none => trivial
  | some value =>
    cases value with
    | null => trivial
    | _ => exact h _ rfl

theorem head_canonicalOf (h : value.Readable) : (canonicalOf value).head? = some '[' ↔ ∃ items, value = .array items := by
  constructor
  · intro hhead
    have hmark : ∀ value : Json, value.Readable → (canonicalJson value).head? = some '[' → mark value = some '[' := by
      intro value hvalue hhead
      obtain ⟨c, tail, htext, hmark⟩ := head_canonicalJson hvalue
      rw [htext] at hhead
      obtain rfl := Option.some.inj hhead
      exact hmark
    cases value with
    | array items => exact ⟨items, rfl⟩
    | bool value => cases value <;> cases hmark _ h hhead
    | _ => cases hmark _ h hhead
  · rintro ⟨items, rfl⟩
    rw [canonicalOf, canonicalItems_array]
    rfl

theorem canonicalOf_ne_nil (h : value.Readable) : canonicalOf value ≠ [] := by
  cases value with
  | array items =>
    rw [canonicalOf, canonicalItems_array]
    exact cons_ne_nil _ _
  | _ => exact (canonicalJson_opens h).2

theorem array_of_text {others : List Json} (h : value.Readable)
    (htext : canonicalOf value ++ rest = canonicalOf (.array others) ++ rest') : ∃ items, value = .array items := by
  refine (head_canonicalOf h).mp ?_
  obtain ⟨c, tail, hvalue⟩ := exists_cons_of_ne_nil (canonicalOf_ne_nil h)
  rw [canonicalOf, canonicalItems_array, hvalue, cons_append, cons_append] at htext
  rw [hvalue, (cons.inj htext).1]
  rfl

theorem canonicalOf_plain (h : ∀ items, value ≠ .array items) : canonicalOf value = canonicalJson value := by
  cases value with
  | array items => exact absurd rfl (h items)
  | _ => rfl

theorem sameUpToOrder_plain (h : ∀ items, value ≠ .array items) :
    SameUpToOrder value other ↔ value.Same other := by
  cases value with
  | array items => exact absurd rfl (h items)
  | _ => exact Iff.rfl

theorem sortedItems_perm (items : List Json) : (sortedItems items).Perm items := perm_insertionSort _ _

theorem canonicalOf_tells (h : value.Readable) (h' : other.Readable) (hstops : Stops rest)
    (hstops' : Stops rest') (htext : canonicalOf value ++ rest = canonicalOf other ++ rest') :
    SameUpToOrder value other ∧ rest = rest' := by
  by_cases harray : ∃ items, value = .array items
  · obtain ⟨items, rfl⟩ := harray
    obtain ⟨others, rfl⟩ := array_of_text h' htext.symm
    rw [canonicalOf, canonicalItems_array, canonicalOf, canonicalItems_array, cons_append, cons_append,
      append_assoc, append_assoc] at htext
    have hitems := fun a ha => readableItems_iff.mp h a ((sortedItems_perm items).subset ha)
    have hothers := fun a ha => readableItems_iff.mp h' a ((sortedItems_perm others).subset ha)
    obtain ⟨hsame, hrest⟩ := joined_inj rfl (by decide) (fun a ha => canonicalJson_opens (ha.elim (hitems a) (hothers a)))
      (fun a ha b hb => canonicalJson_tells a (hitems a ha) b (hothers b hb)) (cons.inj htext).2
    obtain ⟨reordered, hsame, hreordered⟩ := perm_comp_forall₂ (sortedItems_perm items).symm hsame
    exact ⟨⟨others, reordered, rfl, hreordered.trans (sortedItems_perm others), sameItems_iff.mpr hsame⟩, hrest⟩
  · have hother : ∀ others, other ≠ .array others := by
      rintro others rfl
      exact harray (array_of_text h htext)
    rw [not_exists] at harray
    rw [canonicalOf_plain harray, canonicalOf_plain hother] at htext
    rw [sameUpToOrder_plain harray]
    exact canonicalJson_tells value h other h' rest rest' hstops hstops' htext

theorem canonicalOf_agrees (h : value.Readable) (hsame : SameUpToOrder value other) :
    canonicalOf other = canonicalOf value := by
  by_cases harray : ∃ items, value = .array items
  · obtain ⟨items, rfl⟩ := harray
    obtain ⟨others, reordered, rfl, hperm, hsame⟩ := hsame
    have htexts : reordered.map canonicalJson = items.map canonicalJson :=
      same_texts (fun item _ => canonicalJson_agrees item) (readableItems_iff.mp h) (sameItems_iff.mp hsame)
    have hsorted : ((canonicalTexts others).map String.ofList).Perm ((canonicalTexts items).map String.ofList) := by
      rw [canonicalTexts_eq, canonicalTexts_eq, ← htexts]
      exact (hperm.symm.map _).map _
    rw [canonicalOf, canonicalOf, canonicalItems, canonicalItems, sortStrings_perm hsorted]
  · rw [not_exists] at harray
    rw [sameUpToOrder_plain harray] at hsame
    have hother : ∀ others, other ≠ .array others := by
      rintro others rfl
      cases value with
      | array items => exact harray items rfl
      | object members =>
        obtain ⟨_, _, heq, _⟩ := hsame
        cases heq
      | bool value => cases value <;> cases hsame
      | _ => cases hsame
    rw [canonicalOf_plain harray, canonicalOf_plain hother, canonicalJson_agrees value h other hsame]

section
variable (input other : CheckoutFingerprintInput)

/-- The same wallet, nonce and items, in whatever order these and their properties come. -/
def SameOrder : Prop :=
  input.walletAddress = other.walletAddress ∧ SameUpToOrder (itemsOf input.items) (itemsOf other.items) ∧
    input.nonce = other.nonce

/-- The other wallet goes on, after a bar, as this one's items and nonce do, and these end as the other's items and nonce. -/
def TakesItems : Prop :=
  ∃ x : List Char, other.walletAddress.toList = input.walletAddress.toList ++ '|' :: x ∧
    canonicalItems input.items ++ '|' :: input.nonce.toList =
      x ++ '|' :: (canonicalItems other.items ++ '|' :: other.nonce.toList)

end

variable {input other : CheckoutFingerprintInput}

theorem items_and_nonce :
    canonicalItems input.items ++ '|' :: input.nonce.toList = canonicalItems other.items ++ '|' :: other.nonce.toList ↔
      SameUpToOrder (itemsOf input.items) (itemsOf other.items) ∧ input.nonce = other.nonce := by
  rw [canonicalItems_eq, canonicalItems_eq]
  constructor
  · intro htext
    obtain ⟨hsame, hrest⟩ := canonicalOf_tells (readable_itemsOf input.readable) (readable_itemsOf other.readable)
      (stops_cons rfl _) (stops_cons rfl _) htext
    exact ⟨hsame, String.toList_inj.mp (cons.inj hrest).2⟩
  · rintro ⟨hsame, hnonce⟩
    rw [canonicalOf_agrees (readable_itemsOf input.readable) hsame, hnonce]

theorem TakesItems.text_eq (h : TakesItems input other) : input.text = other.text := by
  obtain ⟨x, hwal, hrest⟩ := h
  rw [CheckoutFingerprintInput.text, CheckoutFingerprintInput.text, hwal, hrest, append_assoc, cons_append]

theorem TakesItems.wallet_ne (h : TakesItems input other) : input.walletAddress ≠ other.walletAddress := by
  obtain ⟨x, hwal, -⟩ := h
  intro heq
  rw [← heq] at hwal
  have hlen := congrArg length hwal
  rw [length_append, length_cons] at hlen
  omega

theorem text_eq_iff : input.text = other.text ↔ SameOrder input other ∨ TakesItems input other ∨ TakesItems other input := by
  constructor
  · intro htext
    rcases append_eq_append_iff.mp htext with ⟨between, hwal, hrest⟩ | ⟨between, hwal, hrest⟩
    · cases between with
      | nil =>
        rw [append_nil] at hwal
        have hitems := items_and_nonce.mp (cons.inj hrest).2
        exact .inl ⟨(String.toList_inj.mp hwal).symm, hitems⟩
      | cons bar x =>
        obtain ⟨hbar, hafter⟩ := cons.inj hrest
        exact .inr (.inl ⟨x, hbar ▸ hwal, hafter⟩)
    · cases between with
      | nil =>
        rw [append_nil] at hwal
        have hitems := items_and_nonce.mp (cons.inj hrest).2.symm
        exact .inl ⟨String.toList_inj.mp hwal, hitems⟩
      | cons bar x =>
        obtain ⟨hbar, hafter⟩ := cons.inj hrest
        exact .inr (.inr ⟨x, hbar ▸ hwal, hafter⟩)
  · rintro (⟨hwal, hitems⟩ | htakes | htakes)
    · rw [CheckoutFingerprintInput.text, CheckoutFingerprintInput.text, hwal, items_and_nonce.mpr hitems]
    · exact htakes.text_eq
    · exact htakes.text_eq.symm

/-- **The text that is hashed says which order it is, unless one wallet takes in the items and the nonce of the other order.** -/
theorem fingerprint_identifies :
    (input.text = other.text ↔ SameOrder input other) ↔ ¬TakesItems input other ∧ ¬TakesItems other input := by
  rw [text_eq_iff]
  constructor
  · intro h
    constructor
    · intro htakes
      exact htakes.wallet_ne (h.mp (.inr (.inl htakes))).1
    · intro htakes
      exact htakes.wallet_ne (h.mp (.inr (.inr htakes))).1.symm
  · rintro ⟨hnot, hnot'⟩
    exact or_iff_left (not_or.mpr ⟨hnot, hnot'⟩)

/-- No items are bought from two wallets, one of which has the text of no items in it. -/
theorem two_wallets_one_fingerprint :
    ¬∀ input other : CheckoutFingerprintInput, input.text = other.text ↔ SameOrder input other := by
  intro h
  have hsame := (h ⟨"a", some (.array []), "x|[]|y", fun _ hvalue => by cases hvalue; trivial⟩
    ⟨"a|[]|x", some (.array []), "y", fun _ hvalue => by cases hvalue; trivial⟩).mp (by decide)
  exact absurd hsame.1 (by decide)

end Delego.Checkout.Fingerprint
