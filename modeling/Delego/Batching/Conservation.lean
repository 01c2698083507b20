import Delego.Batching.Queue

/-! What becomes of the transactions of a batch.

A batch that waits is in the queue of its priority, once. The result of one that has been executed holds each
transaction that was executed: by its place in a simulation, and by the place of the first entry that is the same object
otherwise. What the gas cap cut away is not in it, and nothing else is kept of it. -/
namespace Delego.Batching
open Delego.Data List Function

variable {cfg : Settings} {outcome : Outcome} {items : List BatchTransactionItem} {attempts : Attempts}

def Reported (results : List BatchItemResult) (i : Nat) (tx : BatchTransactionItem) : Prop :=
  (results.filter fun r => decide (r.index = i)).map (·.userId) = [tx.userId]

def places (results : List BatchItemResult) : List (Nat × String) := results.map fun r => (r.index, r.userId)

/-- The transactions that are reported at a place. -/
def usersAt (entries : List (Nat × String)) (i : Nat) : List String := (entries.filter fun e => decide (e.1 = i)).map (·.2)

variable {i : Nat}

theorem reported_iff {results : List BatchItemResult} {tx : BatchTransactionItem} :
    Reported results i tx ↔ usersAt (places results) i = [tx.userId] := by
  unfold Reported usersAt places
  rw [filter_map, map_map]
  rfl

def ownPlaces (items : List BatchTransactionItem) : List (Nat × String) := items.zipIdx.map fun e => (e.2, e.1.userId)

def foundPlaces (items : List BatchTransactionItem) : List (Nat × String) :=
  items.map fun item => (indexOf items item, item.userId)

theorem filter_zipIdx (l : List α) (start i : Nat) :
    ((l.zipIdx start).filter fun e => decide (e.2 = start + i)).map (·.1) = l[i]?.toList := by
  induction l generalizing start i with
  | nil => rfl
  | cons a l ih =>
    cases i with
    | zero =>
      have hlater : ((l.zipIdx (start + 1)).filter fun e => decide (e.2 = start)) = [] := by
        rw [filter_eq_nil_iff]
        intro e he
        have hle := le_snd_of_mem_zipIdx he
        simp only [decide_eq_true_eq]
        omega
      simp [zipIdx_cons, hlater]
    | succ i =>
      have hnext : ∀ n : Nat, n = start + (i + 1) ↔ n = start + 1 + i := by omega
      have hnot : ¬start = start + 1 + i := by omega
      simp only [zipIdx_cons, hnext, filter_cons, decide_eq_true_eq, hnot, if_false]
      exact ih (start + 1) i

theorem usersAt_ownPlaces {tx : BatchTransactionItem} (h : items[i]? = some tx) :
    usersAt (ownPlaces items) i = [tx.userId] := by
  have hfilter := filter_zipIdx items 0 i
  rw [h] at hfilter
  unfold usersAt ownPlaces
  rw [filter_map, map_map]
  have hmap := congrArg (List.map fun item : BatchTransactionItem => item.userId) hfilter
  rw [map_map] at hmap
  simpa [comp_def] using hmap

variable {item : BatchTransactionItem}

theorem indexOf_lt (h : item ∈ items) : indexOf items item < items.length :=
  findIdx_lt_length_of_exists ⟨item, h, decide_eq_true rfl⟩

theorem indexOf_spec (h : item ∈ items) : (∃ other, items[indexOf items item]? = some other ∧ other.ref = item.ref) ∧
      ∀ j other, j < indexOf items item → items[j]? = some other → other.ref ≠ item.ref := by
  have hlt := indexOf_lt h
  constructor
  · refine ⟨_, getElem?_eq_getElem hlt, ?_⟩
    have hfound := findIdx_getElem (p := fun other : BatchTransactionItem => decide (other.ref = item.ref)) (w := hlt)
    exact of_decide_eq_true hfound
  · intro j other hj hother
    obtain ⟨hlen, rfl⟩ := List.getElem?_eq_some_iff.mp hother
    simpa using List.not_of_lt_findIdx hj

theorem foundPlaces_of_nodup (h : (items.map (·.ref)).Nodup) : foundPlaces items = ownPlaces items := by
  refine ext_getElem (by simp [foundPlaces, ownPlaces]) fun i hi _ => ?_
  have hlen : i < items.length := by simpa [foundPlaces] using hi
  have hindex : indexOf items items[i] = i := by
    obtain ⟨⟨other, hother, href⟩, -⟩ := indexOf_spec (getElem_mem hlen)
    obtain ⟨hlt, -⟩ := List.getElem?_eq_some_iff.mp hother
    have hsame : (items.map (·.ref))[indexOf items items[i]]? = (items.map (·.ref))[i]? := by
      rw [getElem?_map, getElem?_map, hother, getElem?_eq_getElem hlen, Option.map_some, Option.map_some, href]
    have hne := nodup_iff_getElem?_ne_getElem?.mp h
    rcases Nat.lt_trichotomy (indexOf items items[i]) i with hpre | heq | hafter
    · exact absurd hsame (hne _ _ hpre (by simpa using hlen))
    · exact heq
    · exact absurd hsame.symm (hne _ _ hafter (by simpa using hlt))
  simp [foundPlaces, ownPlaces, hindex]

theorem nodup_of_foundPlaces
    (h : ∀ i tx, items[i]? = some tx → usersAt (foundPlaces items) i = [tx.userId]) : (items.map (·.ref)).Nodup := by
  rw [nodup_iff_getElem?_ne_getElem?]
  intro i j hij hj heq
  have hlen : j < items.length := by simpa using hj
  -- some transaction is found at the later place, so it is not the object at the earlier one
  have hplaced := h j items[j] (getElem?_eq_getElem hlen)
  obtain ⟨e, he⟩ : ∃ e, e ∈ (foundPlaces items).filter fun e => decide (e.1 = j) := by
    apply exists_mem_of_ne_nil
    intro hnil
    simp [usersAt, hnil] at hplaced
  obtain ⟨hmem, hindex⟩ := mem_filter.mp he
  obtain ⟨item, hitem, rfl⟩ := mem_map.mp hmem
  have hindex : indexOf items item = j := of_decide_eq_true hindex
  obtain ⟨⟨other, hother, href⟩, hpre⟩ := indexOf_spec hitem
  rw [hindex, getElem?_eq_getElem hlen] at hother
  cases hother
  have hi : i < items.length := by omega
  have hne := hpre i items[i] (by omega) (getElem?_eq_getElem hi)
  rw [getElem?_map, getElem?_map, getElem?_eq_getElem hi, getElem?_eq_getElem hlen] at heq
  exact hne ((Option.some.inj heq).trans href)

/-! ### One execution -/

/-- A required transaction of the list has a result that says that it went well. -/
def Done (results : List BatchItemResult) (item : BatchTransactionItem) (i : Nat) : Prop :=
  item.isRequired = true → ∃ r ∈ results, r.index = i ∧ r.success = true

theorem simulate_places (entries : List (BatchTransactionItem × Nat)) :
    places (entries.foldl (simulate outcome) attempts).results =
      places attempts.results ++ entries.map fun e => (e.2, e.1.userId) := by
  induction entries generalizing attempts with
  | nil => simp
  | cons e entries ih =>
    rw [foldl_cons, ih]
    simp [simulate, places]

theorem simulate_done (attempts : Attempts) (entries : List (BatchTransactionItem × Nat)) :
    attempts.results <+: (entries.foldl (simulate outcome) attempts).results ∧
      ((entries.foldl (simulate outcome) attempts).anyRequiredFailure = false → attempts.anyRequiredFailure = false ∧
        ∀ e ∈ entries, Done (entries.foldl (simulate outcome) attempts).results e.1 e.2) := by
  induction entries generalizing attempts with
  | nil => exact ⟨prefix_refl _, fun h => ⟨h, fun e he => absurd he not_mem_nil⟩⟩
  | cons e entries ih =>
    obtain ⟨hgrows, hdone⟩ := ih (simulate outcome attempts e)
    have hadded : attempts.results <+: (simulate outcome attempts e).results := prefix_append _ _
    refine ⟨hadded.trans hgrows, fun hnone => ?_⟩
    obtain ⟨hfirst, hrest⟩ := hdone hnone
    simp only [simulate, Bool.or_eq_false_iff, Bool.and_eq_false_iff, Bool.not_eq_false'] at hfirst
    refine ⟨hfirst.1, fun e' he' => ?_⟩
    rcases mem_cons.mp he' with rfl | he'
    · -- the transaction is required, so it is its success that keeps the failure away
      intro hrequired
      have hsucs := hfirst.2.resolve_right (by simp [hrequired])
      refine ⟨_, hgrows.subset (mem_append_right _ (mem_singleton_self _)), rfl, ?_⟩
      simpa using hsucs
    · exact hrest e' he'

theorem submitOther_cases (outcome : Outcome) (items : List BatchTransactionItem) (attempts : Attempts) (e : BatchTransactionItem × Nat) :
    ∃ r : BatchItemResult, r.index = indexOf items e.1 ∧ r.userId = e.1.userId ∧
      (submitOther outcome items attempts e).results = attempts.results ++ [r] ∧
      (submitOther outcome items attempts e).anyRequiredFailure = attempts.anyRequiredFailure := by
  obtain ⟨item, k⟩ := e
  simp only [submitOther]
  cases outcome.single k with
  | ok submitted => exact ⟨_, rfl, rfl, rfl, rfl⟩
  | error message => exact ⟨_, rfl, rfl, rfl, rfl⟩

theorem submitOther_places (entries : List (BatchTransactionItem × Nat)) :
    places (entries.foldl (submitOther outcome items) attempts).results =
      places attempts.results ++ entries.map fun e => (indexOf items e.1, e.1.userId) := by
  induction entries generalizing attempts with
  | nil => simp
  | cons e entries ih =>
    obtain ⟨r, hindex, huser, hresults, -⟩ := submitOther_cases outcome items attempts e
    rw [foldl_cons, ih, hresults]
    simp [places, hindex, huser]

theorem submitOther_kept (outcome : Outcome) (items : List BatchTransactionItem) (attempts : Attempts) (entries : List (BatchTransactionItem × Nat)) :
    attempts.results <+: (entries.foldl (submitOther outcome items) attempts).results ∧
      (entries.foldl (submitOther outcome items) attempts).anyRequiredFailure = attempts.anyRequiredFailure := by
  induction entries generalizing attempts with
  | nil => exact ⟨prefix_refl _, rfl⟩
  | cons e entries ih =>
    obtain ⟨r, -, -, hresults, hfailure⟩ := submitOther_cases outcome items attempts e
    obtain ⟨hgrows, hsame⟩ := ih (submitOther outcome items attempts e)
    rw [hresults] at hgrows
    exact ⟨(prefix_append _ _).trans hgrows, hsame.trans hfailure⟩

theorem submitRequired_places (hresults : attempts.results = []) : places (submitRequired outcome items attempts).results =
      (items.filter fun item => item.isRequired).map fun item => (indexOf items item, item.userId) := by
  simp only [submitRequired, hresults, nil_append]
  split
  · rename_i hempty
    simp [isEmpty_iff.mp hempty, hresults, places]
  · cases outcome.required with
    | ok submitted => simp [places, succeededItem]
    | error message => simp [places, failedItem]

theorem submitRequired_done (hnone : (submitRequired outcome items attempts).anyRequiredFailure = false)
    (hitem : item ∈ items) :
    Done (submitRequired outcome items attempts).results item (indexOf items item) := by
  intro hrequired
  have hmem : item ∈ items.filter fun item => item.isRequired := mem_filter.mpr ⟨hitem, hrequired⟩
  have hsome : ¬(items.filter fun item => item.isRequired).isEmpty = true := by
    intro hempty
    simp [isEmpty_iff.mp hempty] at hmem
  simp only [submitRequired] at hnone ⊢
  rw [if_neg hsome] at hnone ⊢
  cases hsub : outcome.required with
  | ok submitted => refine ⟨_, mem_append_right _ (mem_map_of_mem hmem), rfl, rfl⟩
  | error message =>
    simp [hsub] at hnone

theorem attemptAll_places (cfg : Settings) (outcome : Outcome) (items : List BatchTransactionItem)
    {attempts : Attempts} (hresults : attempts.results = []) :
    (places (attemptAll cfg outcome items attempts).results).Perm
      (if cfg.test then ownPlaces items else foundPlaces items) := by
  unfold attemptAll
  split
  · rw [simulate_places, hresults]
    rfl
  · cases outcome.importError with
    | some message =>
      simp only [hresults, nil_append]
      simp [places, foundPlaces, failedItem, comp_def]
    | none =>
      simp only
      rw [submitOther_places, submitRequired_places hresults]
      have hothers : ((items.filter fun item => !item.isRequired).zipIdx.map fun e => (indexOf items e.1, e.1.userId)) =
          (items.filter fun item => !item.isRequired).map fun item => (indexOf items item, item.userId) := by
        conv_rhs => rw [← zipIdx_map_fst 0 (items.filter fun item => !item.isRequired)]
        rw [map_map]
        rfl
      rw [hothers, ← map_append]
      exact (filter_append_perm _ items).map _

def place (cfg : Settings) (items : List BatchTransactionItem) (i : Nat) (item : BatchTransactionItem) : Nat :=
  if cfg.test then i else indexOf items item

theorem attemptAll_done (hnone : (attemptAll cfg outcome items attempts).anyRequiredFailure = false)
    (hitem : items[i]? = some item) :
    Done (attemptAll cfg outcome items attempts).results item (place cfg items i item) := by
  have hmem := mem_of_getElem? hitem
  unfold attemptAll place at *
  split at hnone
  · rename_i htest
    simp only [htest, if_true]
    refine ((simulate_done _ _).2 hnone).2 (item, i) ?_
    exact mem_zipIdx_iff_getElem?.mpr hitem
  · rename_i htest
    simp only [htest]
    cases himport : outcome.importError with
    | some message =>
      simp [himport] at hnone
    | none =>
      rw [himport] at hnone
      simp only at hnone ⊢
      obtain ⟨hgrows, hsame⟩ := submitOther_kept outcome items
        (submitRequired outcome items attempts) (items.filter fun item => !item.isRequired).zipIdx
      intro hrequired
      obtain ⟨r, hr, hindex, hsucs⟩ := submitRequired_done (hsame ▸ hnone) hmem hrequired
      exact ⟨r, hgrows.subset hr, hindex, hsucs⟩

theorem finalStatus_completed (h : finalStatus items attempts = .completed) : attempts.anyRequiredFailure = false := by
  cases hfailure : attempts.anyRequiredFailure with
  | false => rfl
  | true =>
    simp only [finalStatus, hfailure] at h
    cases hsucs : attempts.anySuccess <;> simp [hsucs] at h

variable {batch : QueuedBatch} {result : BatchTransactionResult}

theorem executeBatch_result (h : (executeBatch cfg outcome batch).result = some result) :
    (attemptAll cfg outcome batch.items { operationsCompleted := batch.operationsCompleted }).results.Perm
      result.results := by
  obtain rfl := Option.some.inj h
  exact (perm_insertionSort _ _).symm

/-- An execution reports all the transactions that it was given exactly where it finds each at its own place. -/
theorem executeBatch_reported (h : (executeBatch cfg outcome batch).result = some result) :
    (∀ i tx, batch.items[i]? = some tx → Reported result.results i tx) ↔
      cfg.test = true ∨ (batch.items.map (·.ref)).Nodup := by
  have hnone : ({ operationsCompleted := batch.operationsCompleted } : Attempts).results = [] := rfl
  have hperm := attemptAll_places cfg outcome batch.items hnone
  have hresults : ∀ i tx, Reported result.results i tx ↔
      usersAt (if cfg.test then ownPlaces batch.items else foundPlaces batch.items) i = [tx.userId] := by
    intro i tx
    have hsorted : (places result.results).Perm (places (attemptAll cfg outcome batch.items
        { operationsCompleted := batch.operationsCompleted }).results) := (executeBatch_result h).symm.map _
    have hall := hsorted.trans hperm
    have husers := (hall.filter fun e => decide (e.1 = i)).map (·.2)
    rw [reported_iff]
    constructor
    · intro heq
      exact perm_singleton.mp (heq ▸ husers.symm)
    · intro heq
      exact perm_singleton.mp (heq ▸ husers)
  simp only [hresults]
  constructor
  · intro hall
    by_cases htest : cfg.test = true
    · exact .inl htest
    · simp only [htest] at hall
      exact .inr (nodup_of_foundPlaces hall)
  · intro hwhole i tx htx
    by_cases htest : cfg.test = true
    · rw [if_pos htest]
      exact usersAt_ownPlaces htx
    · rw [if_neg htest, foundPlaces_of_nodup (hwhole.resolve_left htest)]
      exact usersAt_ownPlaces htx

theorem executeBatch_index_lt (h : (executeBatch cfg outcome batch).result = some result) {r : BatchItemResult}
    (hr : r ∈ result.results) :
    r.index < batch.items.length := by
  have hnone : ({ operationsCompleted := batch.operationsCompleted } : Attempts).results = [] := rfl
  have hperm := attemptAll_places cfg outcome batch.items hnone
  have hmem : (r.index, r.userId) ∈ if cfg.test then ownPlaces batch.items else foundPlaces batch.items :=
    hperm.subset (mem_map_of_mem ((executeBatch_result h).symm.subset hr))
  split at hmem
  · obtain ⟨e, he, heq⟩ := mem_map.mp hmem
    rw [← (Prod.mk.inj heq).1]
    simpa using snd_lt_of_mem_zipIdx he
  · obtain ⟨item, hitem, heq⟩ := mem_map.mp hmem
    rw [← (Prod.mk.inj heq).1]
    exact indexOf_lt hitem

theorem countWithin_ge (maxGas accumulatedGas : Int) (items : List BatchTransactionItem) :
    items.length ≤ countWithin maxGas accumulatedGas items ↔ items = [] ∨ accumulatedGas + 100 * items.length ≤ maxGas := by
  induction items generalizing accumulatedGas with
  | nil => simp
  | cons item items ih =>
    unfold countWithin
    split
    · simp only [length_cons]
      constructor
      · intro h
        omega
      · rintro (h | h)
        · cases h
        · push_cast at h
          omega
    · simp only [length_cons, Nat.add_le_add_iff_right, ih]
      cases items with
      | nil =>
        simp only [length_nil]
        constructor
        · intro _
          right
          push_cast
          omega
        · intro _
          simp
      | cons next items =>
        simp only [length_cons, reduceCtorEq, false_or]
        push_cast
        constructor <;> intro h <;> omega

/-- The gas cap cuts nothing: there is none, the batch is of one transaction, or the cap is as much as all take. -/
def Uncut (cfg : Settings) (req : BatchTransactionRequest) : Prop :=
  ∀ cap maxGas, req.maxGasStroops = some cap → cap ≠ "" → cfg.conv.bigInt cap = some maxGas →
    req.transactions.length = 1 ∨ 100 * (req.transactions.length : Int) ≤ maxGas

variable {req : BatchTransactionRequest}

theorem checkRequest_ok {size : Nat} (h : checkRequest cfg req = .ok size) :
    req.transactions ≠ [] ∧ req.transactions.length ≤ MAX_BATCH_SIZE ∧
      calculateDynamicBatchSize cfg req.transactions req.maxGasStroops = some size := by
  unfold checkRequest at h
  by_cases hempty : req.transactions.isEmpty = true
  · simp [hempty, bind, Except.bind, throw, throwThe, MonadExceptOf.throw] at h
  · by_cases hlen : req.transactions.length > MAX_BATCH_SIZE
    · cases hsize : calculateDynamicBatchSize cfg req.transactions req.maxGasStroops <;>
        simp [hempty, hlen, hsize, bind, Except.bind, throw, throwThe, MonadExceptOf.throw, pure, Except.pure] at h
    · cases hsize : calculateDynamicBatchSize cfg req.transactions req.maxGasStroops with
      | none => simp [hempty, hsize, bind, Except.bind, throw, throwThe, MonadExceptOf.throw] at h
      | some reached =>
        refine ⟨fun hnil => hempty (by simp [hnil]), not_lt.mp hlen, ?_⟩
        cases hchk : req.transactions.forM checkTransaction <;>
          simp [hempty, hlen, hsize, hchk, bind, Except.bind, pure, Except.pure] at h
        rw [h]

theorem checkRequest_uncut {size : Nat} (h : checkRequest cfg req = .ok size) :
    req.transactions.length ≤ size ↔ Uncut cfg req := by
  obtain ⟨hsome, hlen, hsize⟩ := checkRequest_ok h
  have hpos := length_pos_iff.mpr hsome
  unfold Uncut
  cases hcap : req.maxGasStroops with
  | none =>
    rw [hcap] at hsize
    simp only [calculateDynamicBatchSize, Option.some.injEq] at hsize
    constructor
    · intro _ cap maxGas hnone
      cases hnone
    · intro _
      omega
  | some cap =>
    rw [hcap] at hsize
    by_cases hblank : cap = ""
    · subst hblank
      simp only [calculateDynamicBatchSize, Option.some.injEq] at hsize
      constructor
      · intro _ cap maxGas hsame hnot
        exact absurd (Option.some.inj hsame).symm hnot
      · intro _
        omega
    · have hmapped : (cfg.conv.bigInt cap).map (fun maxGas =>
          max 1 (min (countWithin maxGas 0 req.transactions) MAX_BATCH_SIZE)) = some size := by
        rw [← hsize, calculateDynamicBatchSize]
        rintro heq
        exact hblank heq
      obtain ⟨maxGas, hmax, rfl⟩ := Option.map_eq_some_iff.mp hmapped
      have hcount := countWithin_ge maxGas 0 req.transactions
      constructor
      · intro hkept other otherGas hother _ hgas
        obtain rfl := Option.some.inj hother
        obtain rfl := Option.some.inj (hmax.symm.trans hgas)
        by_cases hone : req.transactions.length = 1
        · exact .inl hone
        · have := (hcount.mp (by omega)).resolve_left hsome
          right
          omega
      · intro huncut
        rcases huncut cap maxGas rfl hblank hmax with hone | hgas
        · omega
        · have := hcount.mpr (.inr (by omega))
          omega

/-! ### A history -/

/-- What the calls promise of one batch that has been taken. -/
structure Conserved (w : World) (req : BatchTransactionRequest) (id : Nat) (batch : QueuedBatch) : Prop where
  /-- One that has not been executed, and is kept for no ledger, is in the queue of its priority, once. -/
  held : batch.result = none → isScheduled req.executeAtLedger = false → (w.queues req.priority).count id = 1
  /-- The result of one that has been executed holds each of its transactions, under its own index, once. -/
  reported : ∀ result, batch.result = some result → ∀ i tx, req.transactions[i]? = some tx → Reported result.results i tx
  /-- One that is completed has been executed, and all its required transactions have gone well. -/
  completed : batch.status = .completed → ∃ result, batch.result = some result ∧
    ∀ i tx, req.transactions[i]? = some tx → Done result.results tx i

def Whole (cfg : Settings) (req : BatchTransactionRequest) : Prop :=
  Uncut cfg req ∧ (cfg.test = true ∨ (req.transactions.map (·.ref)).Nodup)

/-- The batch waits in the queue of the priority. -/
def World.waits (w : World) (priority : BatchPriority) (id : Nat) : Bool :=
  (w.batchStore id).any fun batch =>
    batch.result.isNone && !isScheduled batch.executeAtLedger && decide (batch.priority = priority)

/-- A batch is as it was taken, or has been executed. -/
inductive Stage (cfg : Settings) (first : QueuedBatch) : QueuedBatch → Prop where
  | taken : Stage cfg first first
  | executed (outcome : Outcome) : Stage cfg first (executeBatch cfg outcome first)

/-- Every accepted batch is at a stage of its life, in the queue only while it waits. -/
structure Kept (cfg : Settings) (w : World) : Prop where
  stored : ∀ id req, w.accepted[id]? = some req → ∃ size now batch, checkRequest cfg req = .ok size ∧
    w.batchStore id = some batch ∧ Stage cfg (newBatch req id size now) batch
  fresh : ∀ id, w.accepted.length ≤ id → w.batchStore id = none
  queued : ∀ priority id, (w.queues priority).count id = if w.waits priority id then 1 else 0

theorem kept_empty : Kept cfg .empty where
  stored id req h := by simp [World.empty] at h
  fresh id _ := rfl
  queued priority id := rfl

variable {w : World}

theorem Kept.submitBatch (h : Kept cfg w) (req : BatchTransactionRequest) (now : Int) :
    Kept cfg (Batching.submitBatch cfg req now w).2 := by
  unfold Batching.submitBatch
  cases hchk : checkRequest cfg req with
  | error message => exact h
  | ok size =>
    have hnone := h.fresh w.accepted.length le_rfl
    refine ⟨?_, ?_, ?_⟩
    · intro id req' hreq
      simp only at hreq ⊢
      rcases Nat.lt_trichotomy id w.accepted.length with hlt | rfl | hgt
      · rw [getElem?_append_left hlt] at hreq
        rw [update_of_ne hlt.ne]
        exact h.stored id req' hreq
      · rw [getElem?_concat_length] at hreq
        cases hreq
        exact ⟨size, now, _, hchk, update_self .., .taken⟩
      · rw [getElem?_eq_none (by simp; omega)] at hreq
        cases hreq
    · intro id hid
      simp only [length_append, length_singleton] at hid ⊢
      rw [update_of_ne (by omega)]
      exact h.fresh id (by omega)
    · intro priority id
      have hpre := h.queued priority id
      by_cases hid : id = w.accepted.length
      · subst hid
        simp only [World.waits, hnone, Option.any_none, Bool.false_eq_true, if_false] at hpre
        simp only [World.waits, update_self, Option.any_some, newBatch, Option.isNone_none, Bool.true_and]
        split
        · rename_i hsched
          simpa [hsched] using hpre
        · rename_i hsched
          by_cases hpriority : priority = req.priority
          · subst hpriority
            simp [hsched, count_append, hpre]
          · simp [update_of_ne hpriority, hpre, Ne.symm hpriority]
      · simp only [World.waits, update_of_ne hid] at hpre ⊢
        refine Eq.trans ?_ hpre
        split
        · rfl
        · by_cases hpriority : priority = req.priority
          · subst hpriority
            simp [count_append, Ne.symm hid]
          · rw [update_of_ne hpriority]

def flushed (cfg : Settings) (outcome : Outcome) (batch : QueuedBatch) : QueuedBatch :=
  if batch.status = .queued ∧ isScheduled batch.executeAtLedger = false then executeBatch cfg outcome batch else batch

theorem flushBatch_apply {outcomes : Nat → Outcome} {batchStore : Nat → Option QueuedBatch} (batchId id : Nat) :
    flushBatch cfg outcomes batchStore batchId id =
      if id = batchId then (batchStore id).map (flushed cfg (outcomes id)) else batchStore id := by
  unfold flushBatch
  by_cases hid : id = batchId
  · subst hid
    cases hbatch : batchStore id with
    | none => simp [hbatch]
    | some batch =>
      by_cases hqueued : batch.status = .queued
      · by_cases hsched : isScheduled batch.executeAtLedger = true
        · simp [hqueued, hsched, hbatch, flushed]
        · simp [hqueued, hsched, flushed]
      · simp [hqueued, hbatch, flushed]
  · rw [if_neg hid]
    cases batchStore batchId with
    | none => rfl
    | some batch =>
      simp only
      split
      · rfl
      · split
        · rfl
        · exact update_of_ne hid ..

theorem foldl_flushBatch (cfg : Settings) (outcomes : Nat → Outcome) (batchStore : Nat → Option QueuedBatch) {ids : List Nat}
    (h : ids.Nodup) (id : Nat) : ids.foldl (flushBatch cfg outcomes) batchStore id =
      if id ∈ ids then (batchStore id).map (flushed cfg (outcomes id)) else batchStore id := by
  induction ids generalizing batchStore with
  | nil => simp
  | cons first ids ih =>
    obtain ⟨hfirst, hrest⟩ := nodup_cons.mp h
    rw [foldl_cons, ih _ hrest, flushBatch_apply]
    by_cases hid : id = first
    · subst hid
      simp [hfirst]
    · simp [hid]

theorem Kept.waiting (h : Kept cfg w) {priority : BatchPriority} {id : Nat} (hwaits : w.waits priority id = true) :
    ∃ req size now, w.accepted[id]? = some req ∧
      checkRequest cfg req = .ok size ∧ w.batchStore id = some (newBatch req id size now) ∧
      isScheduled req.executeAtLedger = false ∧ req.priority = priority := by
  unfold World.waits at hwaits
  obtain ⟨batch, hbatch, hwaits⟩ := (Option.any_eq_true _ _).mp hwaits
  have hlen : id < w.accepted.length := by
    by_contra hge
    simp [h.fresh id (not_lt.mp hge)] at hbatch
  obtain ⟨size, now, batch', hchk, hbatch', hstage⟩ := h.stored id _ (getElem?_eq_getElem hlen)
  obtain rfl := Option.some.inj (hbatch.symm.trans hbatch')
  simp only [Bool.and_eq_true, decide_eq_true_eq, Bool.not_eq_true', Option.isNone_iff_eq_none] at hwaits
  cases hstage with
  | taken => exact ⟨_, size, now, getElem?_eq_getElem hlen, hchk, hbatch, hwaits.1.2, hwaits.2⟩
  | executed outcome => cases hwaits.1.1

theorem count_split (size id : Nat) (queue : List Nat) :
    queue.count id = (queue.take size).count id + (queue.drop size).count id := by
  rw [← count_append, take_append_drop]

theorem Kept.flushQueue (h : Kept cfg w) (priority : BatchPriority) (outcomes : Nat → Outcome) :
    Kept cfg (Batching.flushQueue cfg outcomes priority w) := by
  have hnodup : (w.queues priority).Nodup := by
    refine nodup_iff_count_le_one.mpr fun id => ?_
    rw [h.queued]
    split <;> omega
  have htaken : ((w.queues priority).take MAX_BATCH_SIZE).Nodup := hnodup.sublist (take_sublist ..)
  have hstore := foldl_flushBatch cfg outcomes w.batchStore htaken
  -- what is taken off the queue has waited there, and is executed
  have hwaits : ∀ id ∈ (w.queues priority).take MAX_BATCH_SIZE, w.waits priority id = true := by
    intro id hid
    have hcount := h.queued priority id
    have hpos := count_pos_iff.mpr (mem_of_mem_take hid)
    by_contra hnot
    rw [if_neg hnot] at hcount
    omega
  refine ⟨?_, ?_, ?_⟩
  · intro id req hreq
    obtain ⟨size, now, batch, hchk, hbatch, hstage⟩ := h.stored id req hreq
    simp only [Batching.flushQueue, hstore]
    split
    · rename_i hid
      obtain ⟨req', size', now', hreq', hchk', hbatch', hsched, -⟩ := h.waiting (hwaits id hid)
      refine ⟨size', now', _, ?_, by rw [hbatch']; rfl, ?_⟩
      · obtain rfl := Option.some.inj (hreq.symm.trans hreq')
        exact hchk'
      · obtain rfl := Option.some.inj (hreq.symm.trans hreq')
        rw [flushed, if_pos ⟨by simp [newBatch, hsched], hsched⟩]
        exact .executed _
    · exact ⟨size, now, batch, hchk, hbatch, hstage⟩
  · intro id hid
    simp only [Batching.flushQueue, hstore, h.fresh id hid]
    split <;> rfl
  · intro priority' id
    have hpre := h.queued priority' id
    simp only [Batching.flushQueue, World.waits, hstore]
    by_cases hid : id ∈ (w.queues priority).take MAX_BATCH_SIZE
    · obtain ⟨req, size, now, -, -, hbatch, hsched, hpriority⟩ := h.waiting (hwaits id hid)
      have hexec : flushed cfg (outcomes id) (newBatch req id size now) =
          executeBatch cfg (outcomes id) (newBatch req id size now) :=
        if_pos ⟨by simp [newBatch, hsched], hsched⟩
      rw [if_pos hid, hbatch, Option.map_some, hexec]
      simp only [executeBatch, Option.any_some, Option.isNone_some, Bool.false_and, Bool.false_eq_true, if_false]
      by_cases hsame : priority' = priority
      · subst hsame
        rw [update_self]
        -- it stood there once, and that was among those taken off
        have hcount := count_split MAX_BATCH_SIZE id (w.queues priority')
        rw [hpre, hwaits id hid, if_pos rfl] at hcount
        have hpos := count_pos_iff.mpr hid
        omega
      · rw [update_of_ne hsame, hpre]
        have hother : ¬req.priority = priority' := fun heq => hsame (heq.symm.trans hpriority)
        simp [World.waits, hbatch, newBatch, hother]
    · simp only [hid, if_false]
      by_cases hsame : priority' = priority
      · subst hsame
        rw [update_self]
        have hcount := count_split MAX_BATCH_SIZE id (w.queues priority')
        rw [hpre, count_eq_zero_of_not_mem hid, Nat.zero_add] at hcount
        exact hcount.symm
      · rw [update_of_ne hsame]
        exact hpre

theorem kept_after (cfg : Settings) (history : List Event) : Kept cfg (after cfg history) := by
  have hfold : ∀ w, Kept cfg w → Kept cfg (history.foldl (World.apply cfg) w) := by
    induction history with
    | nil => exact fun w h => h
    | cons event history ih =>
      intro w h
      cases event with
      | submitBatch req now => exact ih _ (h.submitBatch req now)
      | flushQueue priority outcomes => exact ih _ (h.flushQueue priority outcomes)
  exact hfold _ kept_empty

/-- **A batch that has been taken is conserved, whatever calls follow, exactly where it has not been executed or is
whole.** -/
theorem Kept.conserved_iff (h : Kept cfg w) {id : Nat} (hreq : w.accepted[id]? = some req)
    (hbatch : w.batchStore id = some batch) :
    Conserved w req id batch ↔ (batch.result ≠ none → Whole cfg req) := by
  obtain ⟨size, now, batch', hchk, hbatch', hstage⟩ := h.stored id req hreq
  obtain rfl := Option.some.inj (hbatch.symm.trans hbatch')
  have hheld : batch.result = none → isScheduled req.executeAtLedger = false → (w.queues req.priority).count id = 1 := by
    intro hres hsched
    rw [h.queued, if_pos]
    cases hstage with
    | taken => simp [World.waits, hbatch, newBatch, hsched]
    | executed outcome => cases hres
  cases hstage with
  | taken =>
    refine iff_of_true ⟨hheld, ?_, ?_⟩ (fun hres => absurd rfl hres)
    · intro result hres
      cases hres
    · intro hcomp
      simp only [newBatch] at hcomp
      split at hcomp <;> cases hcomp
  | executed outcome =>
    have hsome : (executeBatch cfg outcome (newBatch req id size now)).result ≠ none := Option.some_ne_none _
    obtain ⟨result, hres⟩ := Option.ne_none_iff_exists'.mp hsome
    have hrep := executeBatch_reported hres
    have huncut := checkRequest_uncut hchk
    constructor
    · intro hconserved _
      -- the place after the last that was kept has no result
      have hall : req.transactions.length ≤ size := by
        by_contra hcut
        have hlast := hconserved.reported result hres size _ (getElem?_eq_getElem (not_le.mp hcut))
        unfold Reported at hlast
        rw [filter_eq_nil_iff.mpr] at hlast
        · cases hlast
        · intro r hr hindex
          have hlt := executeBatch_index_lt hres hr
          simp only [newBatch, length_take, decide_eq_true_eq] at hlt hindex
          omega
      have htake : (newBatch req id size now).items = req.transactions := take_of_length_le hall
      refine ⟨huncut.mp hall, ?_⟩
      rw [htake] at hrep
      exact hrep.mp fun i tx htx => hconserved.reported result hres i tx htx
    · intro hwhole
      obtain ⟨hcap, hobjects⟩ := hwhole hsome
      have htake : (newBatch req id size now).items = req.transactions := take_of_length_le (huncut.mpr hcap)
      rw [htake] at hrep
      refine ⟨hheld, ?_, ?_⟩
      · intro result' hres'
        obtain rfl := Option.some.inj (hres.symm.trans hres')
        exact hrep.mpr hobjects
      · intro hcomp
        refine ⟨result, hres, fun i tx htx => ?_⟩
        have hdone := attemptAll_done (finalStatus_completed hcomp) (htake ▸ htx)
        have hplace : place cfg (newBatch req id size now).items i tx = i := by
          unfold place
          split
          · rfl
          · rename_i htest
            have hfound := foundPlaces_of_nodup (hobjects.resolve_left htest)
            have hi := congrArg (fun entries => entries[i]?.map Prod.fst) hfound
            rw [htake]
            simpa [foundPlaces, ownPlaces, htx] using hi
        rw [hplace] at hdone
        intro hrequired
        obtain ⟨r, hr, hindex, hsucs⟩ := hdone hrequired
        exact ⟨r, (executeBatch_result hres).subset hr, hindex, hsucs⟩

def Conserves (w : World) : Prop :=
  ∀ id req, w.accepted[id]? = some req → ∃ batch, w.batchStore id = some batch ∧ Conserved w req id batch

/-- **Any calls conserve the transactions of all batches exactly where each batch that they have executed is whole.** -/
theorem conserves_iff (cfg : Settings) (history : List Event) :
    Conserves (after cfg history) ↔ ∀ id req batch, (after cfg history).accepted[id]? = some req →
      (after cfg history).batchStore id = some batch → batch.result ≠ none → Whole cfg req := by
  have hkept := kept_after cfg history
  constructor
  · intro hconserves id req batch hreq hbatch
    obtain ⟨batch', hbatch', hconserved⟩ := hconserves id req hreq
    obtain rfl := Option.some.inj (hbatch.symm.trans hbatch')
    exact (hkept.conserved_iff hreq hbatch).mp hconserved
  · intro hwhole id req hreq
    obtain ⟨size, now, batch, -, hbatch, -⟩ := hkept.stored id req hreq
    exact ⟨batch, hbatch, (hkept.conserved_iff hreq hbatch).mpr (hwhole id req batch hreq hbatch)⟩

def twoTransfers (ref : Nat) : List BatchTransactionItem :=
  [⟨0, "GSOURCE", "CTOKEN", "transfer", some "rent", "user-1", none⟩,
    ⟨ref, "GSOURCE", "CTOKEN", "transfer", some "fees", "user-1", none⟩]

def submits : Event :=
  .flushQueue .normal fun _ =>
    { required := .ok ⟨"hash", 7, 90⟩, single := fun _ => .ok ⟨"hash", 7, 0⟩, randomHash := fun _ => "tx", completedAt := 6000 }

/-- A cap of the gas of one transaction cuts the other away without a word; and an object that stands in a batch
twice is reported twice at its first place. -/
theorem transactions_lost :
    ¬Conserves (after ⟨false, decimal⟩ [.submitBatch ⟨twoTransfers 1, .normal, none, some "100"⟩ 0, submits]) ∧
    ¬Conserves (after ⟨false, decimal⟩ [.submitBatch ⟨twoTransfers 0, .normal, none, none⟩ 0, submits]) := by
  constructor
  · intro h
    obtain ⟨batch, hbatch, hconserved⟩ := h 0 _ rfl
    cases hbatch
    have hrep : ([] : List String) = ["user-1"] := hconserved.reported _ rfl 1 _ rfl
    cases hrep
  · intro h
    obtain ⟨batch, hbatch, hconserved⟩ := h 0 _ rfl
    cases hbatch
    have hrep : ([] : List String) = ["user-1"] := hconserved.reported _ rfl 1 _ rfl
    cases hrep

end Delego.Batching
