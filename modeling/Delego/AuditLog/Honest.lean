import Delego.AuditLog.Store

/-! The pages of a log and the whole of it.

The rows after the number of the last row of a page are those that follow it, where that number goes to the caller and
back unchanged. A number above 2^53 may come back as that of an earlier row: the page is read again, and a log that is
intact is reported as broken (`page_read_again`). -/
namespace Delego.AuditLog
open Delego.Data List Option

section
variable {sha256 : String → BitVec 256} {rows : List AuditLogRow}

/-- A number keeps its value on the way through `Number`. -/
def Exact (number : Int) : Prop := shown (toNumber number) = number

theorem exact_of_safe {number : Int} (h : number.natAbs < 2 ^ 53) : Exact number := by
  unfold Exact
  rw [toNumber_safe h, shown_safe h]

theorem inSequence_perm (rows : List AuditLogRow) : (inSequence rows).Perm rows := perm_insertionSort _ _

theorem inSequence_pairwise (rows : List AuditLogRow) :
    (inSequence rows).Pairwise fun a b => a.sequenceNum ≤ b.sequenceNum := by
  have : Std.Total (fun a b : AuditLogRow => a.sequenceNum ≤ b.sequenceNum) := ⟨fun a b => Int.le_total _ _⟩
  have : IsTrans AuditLogRow (fun a b => a.sequenceNum ≤ b.sequenceNum) := ⟨fun _ _ _ => Int.le_trans⟩
  exact pairwise_insertionSort _ rows

theorem inSequence_strict (h : (rows.map (·.sequenceNum)).Nodup) :
    (inSequence rows).Pairwise fun a b => a.sequenceNum < b.sequenceNum := by
  have hnodup : ((inSequence rows).map (·.sequenceNum)).Nodup := ((inSequence_perm rows).map _).nodup_iff.mpr h
  have hne := pairwise_map.mp hnodup
  refine ((inSequence_pairwise rows).and hne).imp fun hboth => ?_
  exact lt_of_le_of_ne hboth.1 hboth.2

theorem inSequence_filter (h : (rows.map (·.sequenceNum)).Nodup) (p : AuditLogRow → Bool) :
    inSequence (rows.filter p) = (inSequence rows).filter p := by
  have hperm : (inSequence (rows.filter p)).Perm ((inSequence rows).filter p) :=
    (inSequence_perm _).trans ((inSequence_perm rows).symm.filter p)
  refine List.Perm.eq_of_pairwise ?_ (inSequence_pairwise _) ((inSequence_pairwise rows).filter p) hperm
  intro a b ha hb hab hba
  refine inj_on_of_nodup_map h ?_ ?_ (le_antisymm hab hba)
  · exact (mem_filter.mp ((inSequence_perm _).subset ha)).1
  · exact (inSequence_perm rows).subset (mem_filter.mp hb).1

/-- What the rows before a page leave behind. -/
structure Stands (rows done rest : List AuditLogRow) (walk : Walk) : Prop where
  split : inSequence rows = done ++ rest
  after : walk.afterSequenceNum = done.getLast?.map fun row => toNumber row.sequenceNum
  prev : walk.expectedPrevHash = lastHash none (done.map mapRow)
  checked : walk.entriesChecked = done.length
  last : walk.lastSequenceNum = done.getLast?.map fun row => toNumber row.sequenceNum

variable {done rest : List AuditLogRow} {walk : Walk}

theorem Stands.segment (h : Stands rows done rest walk) (hdist : (rows.map (·.sequenceNum)).Nodup)
    (hexact : ∀ row ∈ rows, Exact row.sequenceNum) {limit : Nat} (hlimit : limit < 2 ^ 63) :
    getChainSegment rows limit walk.afterSequenceNum = .ok ((rest.take limit).map mapRow) := by
  have hrest : (inSequence (rows.filter fun row => walk.afterSequenceNum.all fun number =>
      decide (row.sequenceNum > shown number))) = rest := by
    rw [inSequence_filter hdist, h.split, h.after]
    cases hlast : done.getLast? with
    | none =>
      rw [getLast?_eq_none_iff.mp hlast]
      simp
    | some last =>
      have hmem : last ∈ inSequence rows := h.split ▸ mem_append_left _ (mem_of_getLast? hlast)
      have hsame : shown (toNumber last.sequenceNum) = last.sequenceNum := hexact last ((inSequence_perm rows).subset hmem)
      have hsorted := inSequence_strict hdist
      rw [h.split, pairwise_append] at hsorted
      obtain ⟨hdone, -, hacross⟩ := hsorted
      simp only [map_some, all_some, hsame]
      rw [filter_append]
      have hpre : (done.filter fun row => decide (row.sequenceNum > last.sequenceNum)) = [] := by
        rw [filter_eq_nil_iff]
        intro row hrow
        obtain ⟨init, rfl⟩ := getLast?_eq_some_iff.mp hlast
        rw [pairwise_append] at hdone
        simp only [decide_eq_true_eq, gt_iff_lt, not_lt]
        rcases mem_append.mp hrow with hinit | hsingle
        · exact (hdone.2.2 row hinit last (mem_singleton_self _)).le
        · rw [mem_singleton.mp hsingle]
      have hafter : (rest.filter fun row => decide (row.sequenceNum > last.sequenceNum)) = rest := by
        rw [filter_eq_self]
        intro row hrow
        exact decide_eq_true (hacross last (mem_of_getLast? hlast) row hrow)
      rw [hpre, hafter, nil_append]
  rw [getChainSegment, if_pos hlimit, hrest]

def Agrees (entries : List AuditLogEntry) (whole : Except String ChainVerificationResult)
    (stored : Except String StoredChainVerificationResult) : Prop :=
  match whole, stored with
  | .error message, .error message' => message' = message
  | .ok result, .ok result' => result'.toChainVerificationResult = result ∧
      result'.lastSequenceNum = (entries.take result.entriesChecked).getLast?.map (·.sequenceNum)
  | _, _ => False

theorem getLast?_take_append {α : Type} (l l' : List α) {n : Nat} (hpos : 0 < n) (hn : n ≤ l'.length) :
    ((l ++ l').take (l.length + n)).getLast? = l'[n - 1]? := by
  rw [take_length_add_append, getLast?_append_of_ne_nil]
  · rw [getLast?_take, if_neg (by omega), getElem?_eq_getElem (by omega)]
    rfl
  · intro hnil
    have hlen := congrArg length hnil
    rw [length_take, length_nil] at hlen
    omega

theorem Stands.next {page later : List AuditLogRow} (h : Stands rows done (page ++ later) walk) {last : AuditLogEntry}
    (hlast : (page.map mapRow).getLast? = some last) :
    Stands rows (done ++ page) later {
      afterSequenceNum := some last.sequenceNum
      expectedPrevHash := some last.entryHash
      entriesChecked := walk.entriesChecked + (page.map mapRow).length
      pagesChecked := walk.pagesChecked + 1
      lastSequenceNum := some last.sequenceNum } := by
  rw [getLast?_map] at hlast
  obtain ⟨row, hrow, rfl⟩ := map_eq_some_iff.mp hlast
  have hlastRow : (done ++ page).getLast? = some row := by
    rw [getLast?_append, hrow]
    rfl
  refine ⟨?_, ?_, ?_, ?_, ?_⟩
  · rw [h.split, append_assoc]
  · rw [hlastRow]
    rfl
  · simp only [lastHash, getLast?_map, hlastRow]
    rfl
  · simp [h.checked]
  · rw [hlastRow]
    rfl

theorem Stands.last_done (h : Stands rows done rest walk) :
    (((done ++ rest).map mapRow).take done.length).getLast?.map (·.sequenceNum) = walk.lastSequenceNum := by
  rw [h.last, map_append, take_left' (by simp), getLast?_map, Option.map_map]
  rfl

/-- With as many pages as there are rows to come, and one more, the walk ends and agrees with the whole. -/
theorem Stands.walk_agrees (sha256 : String → BitVec 256) (hdist : (rows.map (·.sequenceNum)).Nodup)
    (hexact : ∀ row ∈ rows, Exact row.sequenceNum) {pageSize : Nat} (hpos : 1 ≤ pageSize)
    (hlimit : pageSize < 2 ^ 63) {fuel : Nat} (h : Stands rows done rest walk) (hfuel : rest.length < fuel) :
    ∃ stored, walkPages sha256 rows pageSize fuel walk = some stored ∧
      Agrees ((done ++ rest).map mapRow)
        (verifyFrom sha256 walk.expectedPrevHash done.length (rest.map mapRow)) stored := by
  induction fuel generalizing done rest walk with
  | zero => omega
  | succ fuel ih =>
    have hsegment := h.segment hdist hexact hlimit
    obtain ⟨page, later, rfl, htake, hlen⟩ : ∃ page later, rest = page ++ later ∧ rest.take pageSize = page ∧
        page.length = min pageSize rest.length :=
      ⟨rest.take pageSize, rest.drop pageSize, (take_append_drop ..).symm, rfl, length_take⟩
    rw [htake] at hsegment
    rw [length_append] at hlen hfuel
    simp only [walkPages, hsegment]
    cases hlast : (page.map mapRow).getLast? with
    | none =>
      obtain rfl := map_eq_nil_iff.mp (getLast?_eq_none_iff.mp hlast)
      obtain rfl : later = [] := eq_nil_of_length_eq_zero (by rw [length_nil] at hlen; omega)
      refine ⟨_, rfl, ?_, h.last_done.symm⟩
      rw [h.checked]
    | some last =>
      have hsome : 0 < page.length := by
        refine length_pos_iff.mpr fun hnil => ?_
        simp [hnil] at hlast
      have hrows : (page ++ later).map mapRow = page.map mapRow ++ later.map mapRow := map_append
      rw [hrows]
      rcases verifyFrom_cases sha256 walk.expectedPrevHash (page.map mapRow) with
        ⟨message, hfails⟩ | ⟨n, id, reason, hn, hbroken⟩ | hholds
      · have hpageFails := hfails [] 0
        rw [append_nil] at hpageFails
        simp only [verifyChain, hpageFails]
        refine ⟨_, rfl, ?_⟩
        rw [hfails]
        rfl
      · have hpageBroken := hbroken [] 0
        rw [append_nil] at hpageBroken
        simp only [verifyChain, hpageBroken, if_true, Nat.zero_add]
        refine ⟨_, rfl, ?_⟩
        rw [hbroken]
        refine ⟨by rw [h.checked], ?_⟩
        by_cases hzero : n = 0
        · subst hzero
          exact h.last_done.symm
        · rw [length_map] at hn
          have hpre := getLast?_take_append (done.map mapRow) ((page ++ later).map mapRow)
            (Nat.pos_of_ne_zero hzero) (by rw [length_map, length_append]; omega)
          rw [length_map, hrows, getElem?_append_left (by rw [length_map]; omega)] at hpre
          rw [if_pos (Nat.pos_of_ne_zero hzero), map_append, hrows, hpre]
      · have hpageHolds := hholds [] 0
        rw [append_nil] at hpageHolds
        simp only [verifyChain, hpageHolds, verifyFrom]
        have hstands := h.next hlast
        have hfollows : lastHash walk.expectedPrevHash (page.map mapRow) = some last.entryHash := by
          rw [lastHash, hlast]
          rfl
        have hcount : done.length + (page.map mapRow).length = (done ++ page).length := by
          rw [length_map, length_append]
        rw [hholds, hfollows, hcount, ← append_assoc]
        by_cases hshort : (page.map mapRow).length < pageSize
        · obtain rfl : later = [] := eq_nil_of_length_eq_zero (by rw [length_map] at hshort; omega)
          simp only [pure, Except.pure, Bool.true_eq_false, if_false, hshort, if_true]
          refine ⟨_, rfl, by rw [h.checked, hcount], ?_⟩
          exact hstands.last_done.symm
        · simp only [pure, Except.pure, Bool.true_eq_false, if_false, hshort]
          exact ih hstands (by omega)

theorem verifyStoredChain_ofNat (numeral : Number → String) {pageSize : Nat} (hpos : 1 ≤ pageSize) (fuel : Nat) :
    verifyStoredChain sha256 numeral rows (.ofNat pageSize) fuel = walkPages sha256 rows pageSize fuel {} := by
  have hinteger : (pageSize : Rat).isInt = true := by simp [Rat.isInt]
  have hone : (1 : Rat) ≤ (pageSize : Rat) := by exact_mod_cast hpos
  show (if (pageSize : Rat).isInt = true ∧ 1 ≤ (pageSize : Rat) then
    walkPages sha256 rows (pageSize : Rat).num.toNat fuel {} else _) = _
  rw [if_pos ⟨hinteger, hone⟩]
  simp

/-- **The pages of a log end, and say of it what one verification of all rows in their order says.** -/
theorem paged_eq_whole (sha256 : String → BitVec 256) (numeral : Number → String) (rows : List AuditLogRow)
    (hdist : (rows.map (·.sequenceNum)).Nodup) (hexact : ∀ row ∈ rows, Exact row.sequenceNum) (pageSize : Nat)
    (hpos : 1 ≤ pageSize) (hlimit : pageSize < 2 ^ 63) :
    ∃ pages, ∀ fuel, pages ≤ fuel → ∃ stored, verifyStoredChain sha256 numeral rows (.ofNat pageSize) fuel = some stored ∧
        Agrees ((inSequence rows).map mapRow) (verifyChain sha256 ((inSequence rows).map mapRow) none) stored := by
  refine ⟨rows.length + 1, fun fuel hfuel => ?_⟩
  have hstart : Stands rows [] (inSequence rows) {} := ⟨rfl, rfl, rfl, rfl, rfl⟩
  have hlen : (inSequence rows).length < fuel := by
    rw [(inSequence_perm rows).length_eq]
    omega
  rw [verifyStoredChain_ofNat numeral hpos]
  exact hstart.walk_agrees sha256 hdist hexact hpos hlimit hlen

def orderDigest : BitVec 256 := 0xf33ea3da33075a15431197fac98a3d617b68606f6b63b77d15218ee960ab7ce0

def orderRow (sequenceNum : Int) : AuditLogRow where
  id := "entry-1"
  sequenceNum
  tableName := "orders"
  recordId := "order-1"
  operation := .INSERT
  userId := none
  sessionId := none
  ipAddress := none
  userAgent := none
  oldValues := none
  newValues := some [("status", .string "open")]
  changedFields := some ["status"]
  occurredAt := some newYear
  transactionId := "tx-1"
  prevHash := none
  entryHash := hex orderDigest

/-- Two rows on a page each; the second does not follow the first. -/
theorem paged_eq_whole_order : ∃ pages, ∀ fuel, pages ≤ fuel →
      ∃ stored, verifyStoredChain (fun _ => orderDigest) (fun _ => "1") [orderRow 2, orderRow 1] (.ofNat 1) fuel =
          some stored ∧
        Agrees ((inSequence [orderRow 2, orderRow 1]).map mapRow)
          (verifyChain (fun _ => orderDigest) ((inSequence [orderRow 2, orderRow 1]).map mapRow) none) stored := by
  refine paged_eq_whole (fun _ => orderDigest) (fun _ => "1") [orderRow 2, orderRow 1] (by simp [orderRow]) ?_ 1 le_rfl
    (by decide)
  intro row hrow
  rcases mem_pair.mp hrow with rfl | rfl
  · exact exact_of_safe (by decide)
  · exact exact_of_safe (by decide)

/-- A row of the number 2^53 + 1 comes again as the page after itself, and does not follow its own hash. A page of 2^63
rows is refused by the database. -/
theorem page_read_again :
    (verifyChain (fun _ => orderDigest) ((inSequence [orderRow 9007199254740993]).map mapRow) none).map (·.valid) = .ok true ∧
      ∀ fuel, (verifyStoredChain (fun _ => orderDigest) (fun _ => "1") [orderRow 9007199254740993] (.ofNat 1) (fuel + 2)).map
          (fun stored => stored.map (·.valid)) = some (.ok false) ∧
        (verifyStoredChain (fun _ => orderDigest) (fun _ => "1") [] (.ofNat (2 ^ 63)) (fuel + 1)).map
          (fun stored => stored.map (·.valid)) = some (.error "value is out of range for type bigint") := by
  refine ⟨rfl, fun fuel => ⟨?_, ?_⟩⟩
  · rw [verifyStoredChain_ofNat _ le_rfl]
    rfl
  · rw [verifyStoredChain_ofNat _ (by decide)]
    simp only [walkPages, getChainSegment, Nat.lt_irrefl, if_false, Option.map_some, Except.map]

end

/-! ### A log that nobody has altered

What is hashed when an entry is recorded are the values of the caller, and what is hashed when it is verified are those
that the columns give back: an id or an address in another spelling, a record with its properties in another order. The
keys are sorted at the top of a record and nowhere below. -/

variable {sha256 : String → BitVec 256} {columns : Columns} {rows : List AuditLogRow}

def SameValues : Option Values → Option Values → Prop
  | none, stored => stored = none
  | some value, stored => ∃ members, stored = some members ∧ (Json.object value).Same (.object members) ∧
      (Json.object members).Proper

/-- A record of the language, in which no object below the top has two properties that are not indices. -/
def Settled (values : Option Values) : Prop :=
  ∀ value, values = some value → (Json.object value).Proper ∧ Json.SteadyMembers value

theorem sortKeys_same {value members : Values} (h : (Json.object value).Same (.object members))
    (hproper : (Json.object value).Proper) (hsteady : Json.SteadyMembers value) (hstore : (Json.object members).Proper) :
    sortKeys members = sortKeys value := by
  obtain ⟨members', reordered, heq, hperm, hsame⟩ := h
  obtain rfl : members = members' := Json.object.inj heq
  have hvalues : Json.ProperMembers reordered :=
    properMembers_iff.mpr fun e he => properMembers_iff.mp hstore.2.2 e (hperm.subset he)
  obtain rfl := members_fixed (fun e _ => eq_of_same e.2) hsame hsteady hproper.2.2 hvalues
  rw [sortKeys, sortKeys, sortByKey_perm hperm hproper.1]

theorem valuesOrNull_same {values stored : Option Values} (h : SameValues values stored) (hsett : Settled values) :
    valuesOrNull stored = valuesOrNull values := by
  cases values with
  | none =>
    obtain rfl := h
    rfl
  | some value =>
    obtain ⟨members, rfl, hsame, hstore⟩ := h
    obtain ⟨hproper, hsteady⟩ := hsett value rfl
    simp only [valuesOrNull, sortKeys_same hsame hproper hsteady hstore]

/-! ### Recording -/

/-- A call, with when it is made and what the database adds to its row. -/
structure Call where
  input : AuditLogEntryInput
  now : Instant
  insertion : Insertion

/-- The columns keep the values of the call. -/
structure Call.Kept (call : Call) : Prop where
  oldValues : SameValues call.input.oldValues call.insertion.oldValues
  newValues : SameValues call.input.newValues call.insertion.newValues

/-- No object within the records of a call has two properties that are not indices, and the id and the address are given
as the columns give them back. -/
structure Call.Settled (columns : Columns) (call : Call) : Prop where
  oldValues : AuditLog.Settled call.input.oldValues
  newValues : AuditLog.Settled call.input.newValues
  userId : ∀ form, columns.uuid.readOption call.input.userId = some form → form = call.input.userId
  ipAddress : ∀ form, columns.inet.readOption call.input.ipAddress = some form → form = call.input.ipAddress

def Call.named (call : Call) : Bool :=
  decide (trim call.input.tableName ≠ "" ∧ trim call.input.recordId ≠ "" ∧ trim call.input.transactionId ≠ "")

/-- The columns take what a call writes to them. -/
def Call.fits (columns : Columns) (call : Call) : Bool :=
  call.insertion.refused.isNone && (columns.uuid.readOption call.input.userId).isSome &&
    (columns.inet.readOption call.input.ipAddress).isSome

/-- A call that does not throw. -/
def Call.taken (columns : Columns) (call : Call) : Bool := call.named && call.fits columns

/-- The rows after a call, which are as before where it throws. -/
def record (sha256 : String → BitVec 256) (columns : Columns) (rows : List AuditLogRow) (call : Call) : List AuditLogRow :=
  match recordAuditEntry sha256 columns call.input call.now call.insertion rows with
  | .ok rows' => rows'
  | .error _ => rows

def recordAll (sha256 : String → BitVec 256) (columns : Columns) (calls : List Call) : List AuditLogRow :=
  calls.foldl (record sha256 columns) []

/-- A log in which each row follows the one before it. -/
structure Intact (sha256 : String → BitVec 256) (rows : List AuditLogRow) : Prop where
  ordered : rows.Pairwise fun a b => a.sequenceNum < b.sequenceNum
  safe : ∀ row ∈ rows, row.sequenceNum.natAbs < 2 ^ 53
  valid : verifyFrom sha256 none 0 (rows.map mapRow) = .ok ⟨true, rows.length, none, none⟩

theorem Intact.inSequence_eq (h : Intact sha256 rows) : inSequence rows = rows := by
  have hdist : (rows.map (·.sequenceNum)).Nodup := pairwise_map.mpr (h.ordered.imp fun hlt => ne_of_lt hlt)
  refine List.Perm.eq_of_pairwise ?_ (inSequence_pairwise rows) (h.ordered.imp fun hlt => hlt.le) (inSequence_perm rows)
  intro a b ha hb hab hba
  exact inj_on_of_nodup_map hdist ((inSequence_perm rows).subset ha) hb (le_antisymm hab hba)

theorem Intact.latest (h : Intact sha256 rows) : getLatestEntryHash rows = lastHash none (rows.map mapRow) := by
  rw [getLatestEntryHash, h.inSequence_eq, lastHash, getLast?_map]
  cases rows.getLast? <;> rfl

theorem recordAuditEntry_ok (sha256 : String → BitVec 256) (rows : List AuditLogRow) {call : Call}
    (htaken : call.taken columns = true) :
    ∃ row, recordAuditEntry sha256 columns call.input call.now call.insertion rows = .ok (rows ++ [row]) ∧
      row.sequenceNum = call.insertion.sequenceNum ∧ row.prevHash = getLatestEntryHash rows ∧
      (call.Kept → call.Settled columns →
        computeEntryHash sha256 (mapRow row).toHashableAuditFields row.prevHash = .ok row.entryHash) := by
  obtain ⟨hnamed, hfits⟩ := Bool.and_eq_true_iff.mp htaken
  obtain ⟨htable, hrec, htx⟩ := of_decide_eq_true hnamed
  simp only [Call.fits, Bool.and_eq_true, isNone_iff_eq_none, isSome_iff_exists] at hfits
  obtain ⟨⟨hrefused, userId, huser⟩, ipAddress, haddress⟩ := hfits
  unfold recordAuditEntry
  simp only [htable, hrec, htx, hrefused, huser, haddress, if_false]
  refine ⟨_, rfl, rfl, rfl, fun hkept hsett => ?_⟩
  have hold := valuesOrNull_same hkept.oldValues hsett.oldValues
  have hnew := valuesOrNull_same hkept.newValues hsett.newValues
  obtain rfl := hsett.userId userId huser
  obtain rfl := hsett.ipAddress ipAddress haddress
  simp only [computeEntryHash, canonicalize, mapRow, getD_some, hold, hnew]
  rfl

theorem record_refused {call : Call} (htaken : call.taken columns = false) : record sha256 columns rows call = rows := by
  have hthrows : ∃ message, recordAuditEntry sha256 columns call.input call.now call.insertion rows = .error message := by
    unfold recordAuditEntry
    by_cases htable : trim call.input.tableName = ""
    · exact ⟨"tableName is required", by rw [if_pos htable]; rfl⟩
    by_cases hrec : trim call.input.recordId = ""
    · exact ⟨"recordId is required", by rw [if_neg htable, if_pos hrec]; rfl⟩
    by_cases htx : trim call.input.transactionId = ""
    · exact ⟨"transactionId is required", by rw [if_neg htable, if_neg hrec, if_pos htx]; rfl⟩
    have hfits : call.fits columns = false := by simpa [Call.taken, Call.named, htable, hrec, htx] using htaken
    simp only [htable, hrec, htx, if_false]
    cases hrefused : call.insertion.refused with
    | some message => exact ⟨message, rfl⟩
    | none =>
      cases huser : columns.uuid.readOption call.input.userId with
      | none => exact ⟨"invalid input syntax for type uuid", rfl⟩
      | some userId =>
        cases haddress : columns.inet.readOption call.input.ipAddress with
        | none => exact ⟨"invalid input syntax for type inet", rfl⟩
        | some ipAddress => simp [Call.fits, hrefused, huser, haddress] at hfits
  obtain ⟨message, hthrows⟩ := hthrows
  rw [record, hthrows]

theorem Intact.append (h : Intact sha256 rows) {row : AuditLogRow} (hafter : ∀ r ∈ rows, r.sequenceNum < row.sequenceNum)
    (hsafe : row.sequenceNum.natAbs < 2 ^ 53) (hprev : row.prevHash = lastHash none (rows.map mapRow))
    (hhash : computeEntryHash sha256 (mapRow row).toHashableAuditFields row.prevHash = .ok row.entryHash) :
    Intact sha256 (rows ++ [row]) := by
  refine ⟨?_, ?_, ?_⟩
  · refine pairwise_append.mpr ⟨h.ordered, pairwise_singleton _ _, ?_⟩
    intro r hr r' hr'
    rw [mem_singleton.mp hr']
    exact hafter r hr
  · intro r hr
    rcases mem_append.mp hr with hr | hr
    · exact h.safe r hr
    · rw [mem_singleton.mp hr]
      exact hsafe
  · rw [map_append]
    have hvalid := h.valid
    rcases verifyFrom_cases sha256 none (rows.map mapRow) with
      ⟨message, hfails⟩ | ⟨n, id, reason, -, hbroken⟩ | hholds
    · have hfails := hfails [] 0
      simp [append_nil, hvalid] at hfails
    · have hbroken := hbroken [] 0
      simp [append_nil, hvalid] at hbroken
    · have hentry : (mapRow row).prevHash = lastHash none (rows.map mapRow) := hprev
      have hcomputed : computeEntryHash sha256 (mapRow row).toHashableAuditFields (mapRow row).prevHash =
          .ok (mapRow row).entryHash := hhash
      rw [hholds, map_singleton, verifyFrom, if_neg (not_not.mpr hentry), hcomputed]
      simp [bind, Except.bind, verifyFrom, pure, Except.pure]

theorem Intact.recordAll {calls : List Call} (h : Intact sha256 rows)
    (hordered : (calls.map (·.insertion.sequenceNum)).Pairwise (· < ·))
    (hafter : ∀ call ∈ calls, ∀ row ∈ rows, row.sequenceNum < call.insertion.sequenceNum)
    (hsafe : ∀ call ∈ calls, call.insertion.sequenceNum.natAbs < 2 ^ 53) (hkept : ∀ call ∈ calls, call.Kept)
    (hsett : ∀ call ∈ calls, call.Settled columns) :
    Intact sha256 (calls.foldl (record sha256 columns) rows) ∧
      (calls.foldl (record sha256 columns) rows).length = rows.length + (calls.filter (Call.taken columns)).length := by
  induction calls generalizing rows with
  | nil => exact ⟨h, rfl⟩
  | cons call calls ih =>
    obtain ⟨hfirst, hlater⟩ := pairwise_cons.mp hordered
    have hcalls : ∀ other ∈ calls, call.insertion.sequenceNum < other.insertion.sequenceNum :=
      fun other hother => hfirst _ (mem_map_of_mem hother)
    rw [foldl_cons]
    cases htaken : call.taken columns with
    | false =>
      rw [record_refused htaken, filter_cons_of_neg (by simp [htaken])]
      exact ih h hlater (fun other hother => hafter other (mem_cons_of_mem _ hother))
        (fun other hother => hsafe other (mem_cons_of_mem _ hother))
        (fun other hother => hkept other (mem_cons_of_mem _ hother))
        (fun other hother => hsett other (mem_cons_of_mem _ hother))
    | true =>
      obtain ⟨row, hrecd, hseq, hprev, hhash⟩ := recordAuditEntry_ok sha256 rows htaken
      have hrows : record sha256 columns rows call = rows ++ [row] := by
        unfold record
        rw [hrecd]
      have hpre : ∀ r ∈ rows, r.sequenceNum < row.sequenceNum := by
        rw [hseq]
        exact hafter call mem_cons_self
      have hintact := h.append hpre (by rw [hseq]; exact hsafe call mem_cons_self)
        (hprev.trans h.latest) (hhash (hkept call mem_cons_self) (hsett call mem_cons_self))
      have hnext : ∀ other ∈ calls, ∀ r ∈ rows ++ [row], r.sequenceNum < other.insertion.sequenceNum := by
        intro other hother r hr
        rcases mem_append.mp hr with hr | hr
        · exact hafter other (mem_cons_of_mem _ hother) r hr
        · rw [mem_singleton.mp hr, hseq]
          exact hcalls other hother
      obtain ⟨hall, hlen⟩ := ih hintact hlater hnext (fun other hother => hsafe other (mem_cons_of_mem _ hother))
        (fun other hother => hkept other (mem_cons_of_mem _ hother))
        (fun other hother => hsett other (mem_cons_of_mem _ hother))
      rw [hrows, filter_cons_of_pos htaken]
      refine ⟨hall, ?_⟩
      rw [hlen, length_append, length_singleton, length_cons]
      omega

/-- **A log of calls whose records have, in no object below the top, two properties that are not indices, and whose ids and
addresses are spelled as they come back, verifies, with an entry for each call that does not throw.** -/
theorem honest_log (sha256 : String → BitVec 256) (columns : Columns) (numeral : Number → String) (calls : List Call)
    (hordered : (calls.map (·.insertion.sequenceNum)).Pairwise (· < ·))
    (hsafe : ∀ call ∈ calls, call.insertion.sequenceNum.natAbs < 2 ^ 53) (hkept : ∀ call ∈ calls, call.Kept)
    (hsett : ∀ call ∈ calls, call.Settled columns) (pageSize : Nat) (hpos : 1 ≤ pageSize) (hlimit : pageSize < 2 ^ 63) :
    ∃ pages, ∀ fuel, pages ≤ fuel →
      ∃ result, verifyStoredChain sha256 numeral (recordAll sha256 columns calls) (.ofNat pageSize) fuel = some (.ok result) ∧
        result.valid = true ∧ result.entriesChecked = (calls.filter (Call.taken columns)).length := by
  have hempty : Intact sha256 [] := ⟨.nil, fun row hrow => absurd hrow not_mem_nil, rfl⟩
  obtain ⟨hintact, hlen⟩ := hempty.recordAll hordered
    (fun call _ row hrow => absurd hrow not_mem_nil) hsafe hkept hsett
  rw [length_nil, Nat.zero_add] at hlen
  have hexact : ∀ row ∈ recordAll sha256 columns calls, Exact row.sequenceNum := fun row hrow => exact_of_safe (hintact.safe row hrow)
  have hstart : Stands (recordAll sha256 columns calls) [] (recordAll sha256 columns calls) {} := ⟨hintact.inSequence_eq, rfl, rfl, rfl, rfl⟩
  have hdist : ((recordAll sha256 columns calls).map (·.sequenceNum)).Nodup :=
    pairwise_map.mpr (hintact.ordered.imp fun hlt => ne_of_lt hlt)
  refine ⟨(recordAll sha256 columns calls).length + 1, fun fuel hfuel => ?_⟩
  obtain ⟨stored, hwalk, hagr⟩ := hstart.walk_agrees sha256 hdist hexact hpos hlimit hfuel
  have hvalid : verifyFrom sha256 none 0 ((recordAll sha256 columns calls).map mapRow) =
      .ok ⟨true, (recordAll sha256 columns calls).length, none, none⟩ := hintact.valid
  rw [verifyStoredChain_ofNat numeral hpos, hwalk]
  simp only [length_nil, hvalid, Agrees] at hagr
  cases stored with
  | error message => exact hagr.elim
  | ok result =>
    refine ⟨result, rfl, ?_, ?_⟩
    · rw [hagr.1]
    · rw [hagr.1]
      exact hlen

/-- A user with an address, and what the columns make of it: they have the shorter key first. -/
def addressCall : Call where
  input := {
    tableName := "users"
    recordId := "user-1"
    operation := .INSERT
    newValues := some [("address", .object [("street", .string "Main"), ("city", .string "Oslo")])]
    transactionId := "tx-1" }
  now := newYear
  insertion := {
    id := "entry-1"
    sequenceNum := 1
    oldValues := none
    newValues := some [("address", .object [("city", .string "Oslo"), ("street", .string "Main")])] }

def addressDigest (text : String) : BitVec 256 :=
  if text.toByteArray.data.toList[170]? = some 115 then 0xe71f7d91c6f815fc556e5febab568218fc7ced99a400142afcb4e9d6cede0200
  else 0x1ae4471246c65db83280a3decf09a48dbd22572737c558a4740fbe38b746902d

def sampleColumns : Columns where
  uuid := .of ["a0eebc99-9c0b-4ef8-bb6d-6bb9bd380a11"] "A0EEBC99-9C0B-4EF8-BB6D-6BB9BD380A11"
    "a0eebc99-9c0b-4ef8-bb6d-6bb9bd380a11"
  inet := .of ["2001:db8::1"] "2001:DB8::1" "2001:db8::1"

def statusCall : Call where
  input := {
    tableName := "orders"
    recordId := "order-1"
    operation := .INSERT
    userId := some "a0eebc99-9c0b-4ef8-bb6d-6bb9bd380a11"
    ipAddress := some "2001:db8::1"
    newValues := some [("status", .string "open")]
    transactionId := "tx-1" }
  now := newYear
  insertion := ⟨"entry-1", 1, none, some [("status", .string "open")], none⟩

theorem honest_log_status : ∃ pages, ∀ fuel, pages ≤ fuel →
      ∃ result, verifyStoredChain (fun _ => orderDigest) (fun _ => "1") (recordAll (fun _ => orderDigest) sampleColumns [statusCall])
          (.ofNat 10000) fuel = some (.ok result) ∧
        result.valid = true ∧ result.entriesChecked = ([statusCall].filter (Call.taken sampleColumns)).length := by
  have hproper : (Json.object [("status", .string "open")]).Proper := by
    simp [Json.Proper, Json.ProperMembers, ownOrder, isIndex, arrayIndex, readDigits]
  refine honest_log (fun _ => orderDigest) sampleColumns (fun _ => "1") [statusCall] (pairwise_singleton _ _) ?_ ?_ ?_ 10000
    (by decide) (by decide)
  · intro call hcall
    rw [mem_singleton.mp hcall]
    decide
  · intro call hcall
    rw [mem_singleton.mp hcall]
    exact ⟨rfl, _, rfl, ⟨_, _, rfl, .refl _, _, _, rfl, rfl, rfl⟩, hproper⟩
  · intro call hcall
    rw [mem_singleton.mp hcall]
    refine ⟨?_, ?_, ?_, ?_⟩
    · intro value hvalue
      cases hvalue
    · intro value hvalue
      obtain rfl := some.inj hvalue
      exact ⟨hproper, trivial, trivial⟩
    · rintro form ⟨⟩
      rfl
    · rintro form ⟨⟩
      rfl

/-- The street of an address is hashed before its city and read after it. -/
theorem honest_log_broken :
    addressCall.Kept ∧ (verifyStoredChain addressDigest (fun _ => "10000") (recordAll addressDigest sampleColumns [addressCall])
      (.ofNat 10000) 1).map (fun stored => stored.map (·.valid)) = some (.ok false) := by
  refine ⟨⟨rfl, _, rfl, ⟨_, _, rfl, .refl _, _, _, rfl, ?_, rfl⟩, ?_⟩, ?_⟩
  · exact ⟨_, _, rfl, .swap _ _ _, _, _, rfl, rfl, _, _, rfl, rfl, rfl⟩
  · simp [Json.Proper, Json.ProperMembers, ownOrder, isIndex, arrayIndex, readDigits]
  · rw [verifyStoredChain_ofNat _ (by decide)]
    decide +kernel

end Delego.AuditLog
