import Delego.DeadLetters.Queue
import Delego.Process.OneAtATime

/-! How often an entry is replayed, and when again.

Two calls that have found an entry pending both mark and replay it, and a replay by hand does not ask for the status at
all. A replay that fails leaves the entry as retrying, which nothing selects again (`replayed_twice`). -/
namespace Delego.DeadLetters
open Delego.Process List Function

def Status.closed : Status → Bool
  | .pending => false
  | .retrying => false
  | _ => true

def underWay (tr : DLQTrace) (id : String) : Bool := tr.any fun e => decide ((stage e.runner tr).Replays id)

def DeadLetterEntry.hopeful (policies : List RetryPolicy) (entry : DeadLetterEntry) : Bool :=
  decide (entry.failure.category = .transient) && entry.retriesLeft policies

def told : Fate → Bool
  | .lost _ => false
  | _ => true

/-- An entry is written as it was read, marked only while it is open and no replay of it is under way, replayed when
marked, and does not fail with attempts left. -/
def inOrder (policies : List RetryPolicy) (p : DLQPool) (i : Nat) (o : Op) (ch : Choice) : Bool :=
  match o with
  | .get id => decide (stage i p.trace = .succeeded id → ch.fate = .done)
  | .set id read entry => decide (p.world.entries id = some read) && match entry.status with
    | .retrying => !read.status.closed && !underWay p.trace id && told ch.fate
    | .replayed => decide (ch.fate = .done)
    | _ => !underWay p.trace id
  | .replay id _ => decide (stage i p.trace = .marked id) &&
    (decide (ch.fate = .done) || (p.world.entries id).all fun e => !e.hopeful policies)
  | _ => true

/-! ### One replay at a time -/

/-- The entry is closed, if it is there. -/
def World.Shut (w : World) (id : String) : Prop := ∀ e, w.entries id = some e → e.status.closed = true

/-- The invariant: one replay is under way, or one has succeeded and the entry is closed. -/
structure Single (policies : List RetryPolicy) (w : World) (tr : DLQTrace) (φ : Nat → Phase) : Prop where
  staged : ∀ i, φ i = stage i tr
  single : OneAtATime Phase.Replays (fun φ id => φ = .succeeded id) w.Shut w.successes φ
  retrying : ∀ {i id e}, (φ i).Replays id → w.entries id = some e → e.status = .retrying
  timely : ∀ replay ∈ w.replays, ∀ e, replay.entry = some e → e.status.closed = false
  hopeful : ∀ {id e}, w.entries id = some e → e.status = .retrying → (∃ i, (φ i).Replays id) ∨ e.hopeful policies = false
  indexed : ∀ {id e}, w.entries id = some e → id ∈ w.index

section
variable {policies : List RetryPolicy} {w : World} {tr : DLQTrace} {φ : Nat → Phase} {i : Nat} {o : Op} {ch : Choice}
  {r : dlqSignature.Result o} {id : String}

theorem stage_performed {j : Nat} (h : stage j tr ≠ .idle) : ∃ e ∈ tr, e.runner = j := by
  by_contra hnone
  refine h ?_
  have hnever : tr.findSome? (fun e => if e.runner = j then turn e.op e.result else none) = none := by
    rw [findSome?_eq_none_iff]
    intro e he
    rw [if_neg fun hj => hnone ⟨e, he, hj⟩]
  rw [stage, hnever, Option.getD_none]

theorem Single.idle_of_not_underWay (h : Single policies w tr φ) (hnot : underWay tr id = false) (j : Nat) :
    ¬(φ j).Replays id := by
  intro hj
  rw [h.staged] at hj
  obtain ⟨e, he, rfl⟩ := stage_performed (j := j) (by
    intro hidle
    rw [hidle] at hj
    exact idle_replays id hj)
  simp only [underWay, any_eq_false, decide_eq_true_eq] at hnot
  exact hnot e he hj

theorem Single.staged_step (h : Single policies w tr φ) (j : Nat) :
    update φ i ((φ i).next o r) j = stage j (⟨i, o, r⟩ :: tr) := by
  rw [stage_cons]
  by_cases hij : i = j
  · subst hij
    rw [update_self, if_pos rfl, h.staged]
  · rw [update_of_ne (Ne.symm hij), if_neg hij, h.staged]

theorem Single.unchanged (h : Single policies w tr φ) (hnext : (φ i).next o r = φ i) :
    Single policies w (⟨i, o, r⟩ :: tr) (update φ i ((φ i).next o r)) := by
  have hstaged := h.staged_step (i := i) (r := r)
  rw [hnext, update_eq_self] at hstaged ⊢
  exact ⟨hstaged, h.single, h.retrying, h.timely, h.hopeful, h.indexed⟩

variable {id' : String}

theorem replays_succeeded (h : (Phase.succeeded id).Replays id') : id' = id := by
  rcases h with h | h <;> cases h
  rfl

theorem replays_marked (h : (Phase.marked id).Replays id') : id' = id := by
  rcases h with h | h <;> cases h
  rfl

theorem replays_idle {j : Nat} (h : (update φ i .idle j).Replays id) : j ≠ i ∧ (φ j).Replays id := by
  by_cases hji : j = i
  · subst hji
    rw [update_self] at h
    exact absurd h (idle_replays id)
  · rw [update_of_ne hji] at h
    exact ⟨hji, h⟩

theorem Single.gone (h : Single policies w tr φ) (hφ : φ i = .succeeded id) (hgone : w.entries id = none)
    (hnext : (φ i).next o r = .idle) :
    Single policies w (⟨i, o, r⟩ :: tr) (update φ i ((φ i).next o r)) := by
  have hstaged := h.staged_step (i := i) (r := r)
  rw [hnext] at hstaged ⊢
  refine ⟨hstaged, ?_, fun hj he => h.retrying (replays_idle hj).2 he, h.timely, ?_, h.indexed⟩
  · refine h.single.step (fun k hk => absurd hk (idle_replays k)) (fun _ _ hshut => hshut) (fun k _ hk => .inl ?_) (.inl rfl)
    rw [hφ] at hk
    cases hk
    exact fun e he => absurd (hgone.symm.trans he) nofun
  · intro id' e he hretry
    rcases h.hopeful he hretry with ⟨j, hj⟩ | hhopeless
    · by_cases hji : j = i
      · subst hji
        rw [hφ] at hj
        obtain rfl := replays_succeeded hj
        exact absurd (hgone.symm.trans he) nofun
      · exact .inl ⟨j, by rw [update_of_ne hji]; exact hj⟩
    · exact .inr hhopeless

def World.written (w : World) (id : String) (entry : DeadLetterEntry) : World :=
  { w with entries := update w.entries id (some entry) }

variable {entry e : DeadLetterEntry}

theorem written_self (h : (w.written id entry).entries id = some e) : e = entry := by
  simpa [World.written, eq_comm] using h

theorem written_ne (entry : DeadLetterEntry) (h : id' ≠ id) : (w.written id entry).entries id' = w.entries id' := by
  simp [World.written, update_of_ne h]

theorem Single.mark (h : Single policies w tr φ) {read : DeadLetterEntry} (hread : w.entries id = some read)
    (hopen : read.status.closed = false) (hnone : ∀ j, ¬(φ j).Replays id) (hentry : entry.status = .retrying)
    (hφ : φ i = .idle) (hnext : (φ i).next o r = .marked id) :
    Single policies (w.written id entry) (⟨i, o, r⟩ :: tr) (update φ i ((φ i).next o r)) := by
  have hstaged := h.staged_step (i := i) (r := r)
  rw [hnext] at hstaged ⊢
  -- whoever replays replayed before, but for the call that marks
  have hreplays : ∀ {j id'}, (update φ i (.marked id) j).Replays id' →
      j = i ∧ id' = id ∨ j ≠ i ∧ id' ≠ id ∧ (φ j).Replays id' := by
    intro j id' hj
    by_cases hji : j = i
    · subst hji
      rw [update_self] at hj
      exact .inl ⟨rfl, replays_marked hj⟩
    · rw [update_of_ne hji] at hj
      exact .inr ⟨hji, fun hid => hnone j (hid ▸ hj), hj⟩
  have hunshut : ¬w.Shut id := fun hshut => by simpa [hopen] using hshut read hread
  refine ⟨hstaged, ?_, ?_, h.timely, ?_, ?_⟩
  · refine h.single.step (fun k hk => ?_) (fun k hk hshut e he => ?_) (fun k hk _ => ?_) (.inl rfl)
    · rw [replays_marked hk]
      exact .inr ⟨hunshut, hnone⟩
    · rw [written_ne entry fun hid : k = id => h.single.free hunshut hnone (hid ▸ hk)] at he
      exact hshut e he
    · rw [hφ] at hk
      exact absurd hk (idle_replays k)
  · intro j id' e hj he
    rcases hreplays hj with ⟨-, rfl⟩ | ⟨-, hid, hj⟩
    · rw [written_self he, hentry]
    · rw [written_ne entry hid] at he
      exact h.retrying hj he
  · intro id' e he hretry
    by_cases hid : id' = id
    · exact .inl ⟨i, by rw [update_self, hid]; exact .inl rfl⟩
    · rw [written_ne entry hid] at he
      rcases h.hopeful he hretry with ⟨j, hj⟩ | hhopeless
      · have hji : j ≠ i := by
          rintro rfl
          rw [hφ] at hj
          exact idle_replays id' hj
        exact .inl ⟨j, by rw [update_of_ne hji]; exact hj⟩
      · exact .inr hhopeless
  · intro id' e he
    by_cases hid : id' = id
    · subst hid
      exact h.indexed hread
    · rw [written_ne entry hid] at he
      exact h.indexed he

theorem Single.close (h : Single policies w tr φ) {read : DeadLetterEntry} (hread : w.entries id = some read)
    (hclosed : entry.status.closed = true) (honly : ∀ j, (φ j).Replays id → j = i)
    (hφ : ∀ id', (φ i).Replays id' → id' = id) (hnext : (φ i).next o r = .idle) :
    Single policies (w.written id entry) (⟨i, o, r⟩ :: tr) (update φ i ((φ i).next o r)) := by
  have hstaged := h.staged_step (i := i) (r := r)
  rw [hnext] at hstaged ⊢
  have hother : ∀ {j id'}, (update φ i .idle j).Replays id' → id' ≠ id ∧ j ≠ i ∧ (φ j).Replays id' := by
    intro j id' hj
    obtain ⟨hji, hj⟩ := replays_idle hj
    exact ⟨fun hid => hji (honly j (hid ▸ hj)), hji, hj⟩
  refine ⟨hstaged, ?_, ?_, h.timely, ?_, ?_⟩
  · have hshut : (w.written id entry).Shut id := fun e he => (written_self he).symm ▸ hclosed
    refine h.single.step (fun k hk => absurd hk (idle_replays k)) (fun k _ hold => ?_) (fun k hk _ => .inl ?_) (.inl rfl)
    · by_cases hid : k = id
      · exact hid ▸ hshut
      · intro e he
        rw [written_ne entry hid] at he
        exact hold e he
    · exact hφ k hk ▸ hshut
  · intro j id' e hj he
    obtain ⟨hid, -, hj⟩ := hother hj
    rw [written_ne entry hid] at he
    exact h.retrying hj he
  · intro id' e he hretry
    by_cases hid : id' = id
    · rw [hid] at he
      rw [written_self he] at hretry
      rw [hretry] at hclosed
      cases hclosed
    · rw [written_ne entry hid] at he
      rcases h.hopeful he hretry with ⟨j, hj⟩ | hhopeless
      · have hji : j ≠ i := by
          rintro rfl
          exact hid (hφ id' hj)
        exact .inl ⟨j, by rw [update_of_ne hji]; exact hj⟩
      · exact .inr hhopeless
  · intro id' e he
    by_cases hid : id' = id
    · subst hid
      exact h.indexed hread
    · rw [written_ne entry hid] at he
      exact h.indexed he

theorem Single.replay_step (h : Single policies w tr φ) {request : String} {replays : List Replay}
    (hφ : φ i = .marked id) (hreplays : replays = w.replays ++ [⟨id, w.entries id⟩])
    {successes : List String} {r : dlqSignature.Result (.replay id request)}
    (hres : successes = w.successes ++ [id] ∧ (φ i).next (.replay id request) r = .succeeded id ∨
      successes = w.successes ∧ (φ i).next (.replay id request) r = .idle ∧
        ∀ e, w.entries id = some e → e.hopeful policies = false) :
    Single policies { w with replays := replays, successes := successes } (⟨i, .replay id request, r⟩ :: tr)
      (update φ i ((φ i).next (.replay id request) r)) := by
  have hstaged := h.staged_step (i := i) (r := r)
  have hmine : (φ i).Replays id := .inl hφ
  -- whoever replays an entry after it replayed it before
  have hpre : ∀ {j id'}, (update φ i ((φ i).next (.replay id request) r) j).Replays id' → (φ j).Replays id' := by
    intro j id' hj
    by_cases hji : j = i
    · subst hji
      rw [update_self] at hj
      rcases hres with ⟨-, hnext⟩ | ⟨-, hnext, -⟩
      · rw [hnext] at hj
        obtain rfl := replays_succeeded hj
        exact hmine
      · rw [hnext] at hj
        exact absurd hj (idle_replays id')
    · rw [update_of_ne hji] at hj
      exact hj
  have hunlanded : ∀ k, φ i ≠ .succeeded k := by
    intro k hk
    rw [hφ] at hk
    cases hk
  refine ⟨hstaged, ?_, fun hj he => h.retrying (hpre hj) he, ?_, ?_, h.indexed⟩
  · rcases hres with ⟨rfl, hnext⟩ | ⟨rfl, hnext, -⟩ <;> rw [hnext]
    · refine h.single.step (fun k hk => ?_) (fun _ _ hshut => hshut) (fun k _ hk => absurd hk (hunlanded k))
        (.inr ⟨id, rfl, hmine, hunlanded id, .inr rfl, rfl⟩)
      rw [replays_succeeded hk]
      exact .inl ⟨hmine, fun _ => rfl⟩
    · exact h.single.step (fun k hk => absurd hk (idle_replays k)) (fun _ _ hshut => hshut)
        (fun k _ hk => absurd hk (hunlanded k)) (.inl rfl)
  · intro replay hreplay e he
    rw [hreplays] at hreplay
    rcases mem_append.mp hreplay with hreplay | hreplay
    · exact h.timely replay hreplay e he
    · rw [mem_singleton.mp hreplay] at he
      rw [h.retrying hmine he]
      rfl
  · intro id' e he hretry
    by_cases hid : id' = id
    · subst hid
      rcases hres with ⟨-, hnext⟩ | ⟨-, -, hhopeless⟩
      · exact .inl ⟨i, by rw [update_self, hnext]; exact .inr rfl⟩
      · exact .inr (hhopeless e he)
    · rcases h.hopeful he hretry with ⟨j, hj⟩ | hhopeless
      · have hji : j ≠ i := by
          rintro rfl
          rw [hφ] at hj
          exact hid (replays_marked hj)
        exact .inl ⟨j, by rw [update_of_ne hji]; exact hj⟩
      · exact .inr hhopeless

theorem entry_of_expired (he : update w.entries id none id' = some e) :
    w.entries id' = some e := by
  by_cases hid : id' = id
  · rw [hid, update_self] at he
    cases he
  · rwa [update_of_ne hid] at he

theorem Single.expires (h : Single policies w tr φ) (id : String) :
    Single policies { w with entries := update w.entries id none } tr φ := by
  refine ⟨h.staged, ?_, fun hj he => h.retrying hj (entry_of_expired he), h.timely,
    fun he => h.hopeful (entry_of_expired he), fun he => h.indexed (entry_of_expired he)⟩
  exact h.single.mono fun _ hshut e he => hshut e (entry_of_expired he)

theorem Single.passes (h : Single policies w tr φ) (clock : Int) : Single policies { w with clock := clock } tr φ :=
  ⟨h.staged, h.single, h.retrying, h.timely, h.hopeful, h.indexed⟩

end

section
variable {policies : List RetryPolicy} {p : DLQPool} {φ : Nat → Phase} {i : Nat} {ch : Choice} {id : String}

theorem Single.get_step (h : Single policies p.world p.trace φ) (ha : (φ i).Allows (.get id))
    (hg : inOrder policies p i (.get id) ch = true) :
    Single policies (perform (.get id) ch p.world).2 (⟨i, .get id, (perform (.get id) ch p.world).1⟩ :: p.trace)
      (update φ i ((φ i).next (.get id) (perform (.get id) ch p.world).1)) := by
  have hworld : (perform (.get id) ch p.world).2 = p.world := by
    refine Fate.deliver_kept (P := fun w' : World => w' = p.world) rfl ?_
    intro a w' hans
    cases hans
    rfl
  rw [hworld]
  cases hφ : φ i with
  | idle =>
    rw [← hφ]
    refine h.unchanged ?_
    rw [hφ]
    cases hr : (perform (.get id) ch p.world).1 with
    | error message => rfl
    | ok found => cases found <;> rfl
  | marked id' =>
    rw [hφ] at ha
    exact ha.elim
  | succeeded id' =>
    rw [hφ] at ha
    obtain rfl : id = id' := ha
    have hdone : ch.fate = .done := of_decide_eq_true hg (by rw [← h.staged, hφ])
    have hr : (perform (.get id) ch p.world).1 = .ok (p.world.entries id) := by
      simp only [perform, fateOf, hdone, answer, Fate.deliver, Fate.carry]
    rw [← hφ, hr]
    cases hentry : p.world.entries id with
    | none => exact h.gone hφ hentry rfl
    | some entry => exact h.unchanged rfl

theorem perform_set (read entry : DeadLetterEntry) (w : World) :
    perform (.set id read entry) ch w = match ch.fate with
      | .done => (.ok (), w.written id entry)
      | .refused message => (.error message, w)
      | .lost message => (.error message, w.written id entry) := by
  cases hfate : ch.fate with
  | done | refused message | lost message =>
    simp only [perform, fateOf, answer, Fate.deliver, Fate.carry, World.written, hfate]

theorem Single.set_step (h : Single policies p.world p.trace φ) {read entry : DeadLetterEntry}
    (ha : (φ i).Allows (.set id read entry)) (hg : inOrder policies p i (.set id read entry) ch = true) :
    Single policies (perform (.set id read entry) ch p.world).2
      (⟨i, .set id read entry, (perform (.set id read entry) ch p.world).1⟩ :: p.trace)
      (update φ i ((φ i).next (.set id read entry) (perform (.set id read entry) ch p.world).1)) := by
  simp only [inOrder, Bool.and_eq_true, decide_eq_true_eq] at hg
  obtain ⟨hread, hg⟩ := hg
  rw [perform_set]
  cases hφ : φ i with
  | marked id' =>
    rw [hφ] at ha
    exact ha.elim
  | succeeded id' =>
    rw [hφ] at ha
    obtain ⟨rfl, hreplayed⟩ := ha
    simp only [hreplayed, decide_eq_true_eq] at hg
    rw [← hφ, hg]
    refine h.close hread (by rw [hreplayed]; rfl) (fun j hj => h.single.alone hj (by rw [hφ]; exact .inr rfl)) ?_ ?_
    · intro id' hid'
      rw [hφ] at hid'
      exact replays_succeeded hid'
    · simp only [Phase.next, turn, hreplayed]
      rfl
  | idle =>
    rw [hφ] at ha
    have hidle : ∀ id', (φ i).Replays id' → id' = id := by
      intro id' hid'
      rw [hφ] at hid'
      exact absurd hid' (idle_replays id')
    -- what is refused changes nothing
    have href : ∀ message, Single policies p.world (⟨i, .set id read entry, .error message⟩ :: p.trace)
        (update φ i ((φ i).next (.set id read entry) (.error message))) := by
      intro message
      refine h.unchanged ?_
      rw [hφ]
      rfl
    rw [← hφ]
    rcases ha with hretry | hclosed
    · simp only [hretry, Bool.and_eq_true, Bool.not_eq_true'] at hg
      obtain ⟨⟨hopen, hnone⟩, htold⟩ := hg
      cases hfate : ch.fate with
      | done =>
        refine h.mark hread hopen (h.idle_of_not_underWay hnone) hretry hφ ?_
        simp only [Phase.next, turn, if_pos hretry, Option.getD_some]
      | refused message => exact href message
      | lost message =>
        rw [hfate] at htold
        cases htold
    · have hnot : underWay p.trace id = false := by
        rcases hclosed with hclosed | hclosed
        · simpa [hclosed] using hg
        · simpa [hclosed] using hg
      have hend : ∀ r, (φ i).next (.set id read entry) r = .idle := by
        intro r
        rw [hφ]
        cases r with
        | error message => rfl
        | ok a => rcases hclosed with hclosed | hclosed <;> simp [Phase.next, turn, hclosed]
      have hwrit : ∀ r, Single policies (p.world.written id entry) (⟨i, .set id read entry, r⟩ :: p.trace)
          (update φ i ((φ i).next (.set id read entry) r)) := by
        intro r
        refine h.close hread ?_ (fun j hj => absurd hj (h.idle_of_not_underWay hnot j)) hidle (hend r)
        rcases hclosed with hclosed | hclosed
        · rw [hclosed]
          rfl
        · rw [hclosed]
          rfl
      cases ch.fate with
      | done => exact hwrit _
      | refused message => exact href message
      | lost message => exact hwrit _

theorem Single.replayed_step (h : Single policies p.world p.trace φ) {request : String}
    (hg : inOrder policies p i (.replay id request) ch = true) :
    Single policies (perform (.replay id request) ch p.world).2
      (⟨i, .replay id request, (perform (.replay id request) ch p.world).1⟩ :: p.trace)
      (update φ i ((φ i).next (.replay id request) (perform (.replay id request) ch p.world).1)) := by
  simp only [inOrder, Bool.and_eq_true, Bool.or_eq_true, decide_eq_true_eq] at hg
  obtain ⟨hmarked, hg⟩ := hg
  rw [← h.staged] at hmarked
  have hfails : ch.fate ≠ .done → ∀ e, p.world.entries id = some e → e.hopeful policies = false := by
    intro hnot e he
    simpa [he, hnot] using hg
  cases hfate : ch.fate with
  | done =>
    have hperf : perform (.replay id request) ch p.world = (.ok ch.txHash, { p.world with
        replays := p.world.replays ++ [⟨id, p.world.entries id⟩]
        successes := p.world.successes ++ [id] }) := by
      simp only [perform, fateOf, answer, hfate, Fate.deliver, Fate.carry]
    rw [hperf]
    refine h.replay_step hmarked rfl (.inl ⟨rfl, ?_⟩)
    rw [hmarked]
    rfl
  | refused message | lost message =>
    have hperf : perform (.replay id request) ch p.world = (.error message, { p.world with
        replays := p.world.replays ++ [⟨id, p.world.entries id⟩] }) := by
      simp only [perform, fateOf, answer, hfate, Fate.deliver, Fate.carry]
    rw [hperf]
    have hunanswered : ch.fate ≠ .done := by
      intro hdone
      rw [hfate] at hdone
      cases hdone
    refine h.replay_step hmarked rfl (.inr ⟨rfl, ?_, hfails hunanswered⟩)
    rw [hmarked]
    rfl

theorem Single.step (h : Single policies p.world p.trace φ) {o : Op} (ha : (φ i).Allows o)
    (hg : inOrder policies p i o ch = true) :
    Single policies (perform o ch p.world).2 (⟨i, o, (perform o ch p.world).1⟩ :: p.trace)
      (update φ i ((φ i).next o (perform o ch p.world).1)) := by
  cases o with
  | get id => exact h.get_step ha hg
  | set id read entry => exact h.set_step ha hg
  | replay id request => exact h.replayed_step hg
  | zrange =>
    have hworld : (perform .zrange ch p.world).2 = p.world := by
      refine Fate.deliver_kept (P := fun w' : World => w' = p.world) rfl ?_
      intro a w' hans
      cases hans
      rfl
    rw [hworld]
    exact h.unchanged rfl
  | now => exact h.unchanged rfl

theorem inductive_single : Inductive (system policies) replaying .idle
    (fun p a => onStep (inOrder policies) p a = true) (Single policies) where
  body := fun _ call _ => follows_body call
  arrive := by
    intro p φ call w _ ht hw
    cases hw
    exact ht.holds
  drift := by
    intro p φ e _ ht
    cases e with
    | passes ms => exact ht.holds.passes _
    | expires id => exact ht.holds.expires id
  answers := fun _ _ _ _ _ _ _ _ _ => ⟨_, rfl⟩
  step := by
    rintro p φ i o ch _ hg hp ht ha rfl
    exact ht.holds.step ha (onStep_pending hg hp)

/-- What has been closed in an earlier state stays so, and is not replayed any more. -/
def Closed (v w : World) (φ : Nat → Phase) : Prop :=
  ∀ id e, v.entries id = some e → e.status.closed = true →
    (∀ e', w.entries id = some e' → e'.status.closed = true) ∧ (∀ i, ¬(φ i).Replays id) ∧
      (w.replays.filter fun replay => decide (replay.id = id)) = v.replays.filter fun replay => decide (replay.id = id)

theorem Single.closed {w : World} {tr : DLQTrace} (h : Single policies w tr φ) : Closed w w φ := by
  intro id e he hclosed
  refine ⟨?_, ?_, rfl⟩
  · intro e' he'
    obtain rfl : e = e' := Option.some.inj (he.symm.trans he')
    exact hclosed
  · intro j hj
    rw [h.retrying hj he] at hclosed
    cases hclosed

theorem next_replays {ψ : Phase} {o : Op} {r : dlqSignature.Result o} (ha : ψ.Allows o) (h : (ψ.next o r).Replays id) :
    ψ.Replays id ∨ (∃ read entry, o = .set id read entry ∧ entry.status = .retrying) ∨
      ∃ request, o = .replay id request := by
  cases o with
  | zrange | now => exact .inl h
  | get id' =>
    cases r with
    | error message => exact absurd h (idle_replays id)
    | ok found =>
      cases found with
      | none => exact absurd h (idle_replays id)
      | some entry => exact .inl h
  | set id' read entry =>
    cases r with
    | error message => exact absurd h (idle_replays id)
    | ok a =>
      simp only [Phase.next, turn, Option.getD_some] at h
      split at h
      · rename_i hretry
        obtain rfl := replays_marked h
        exact .inr (.inl ⟨read, entry, rfl, hretry⟩)
      · exact absurd h (idle_replays id)
  | replay id' request =>
    cases r with
    | error message => exact absurd h (idle_replays id)
    | ok txHash =>
      obtain rfl := replays_succeeded h
      exact .inr (.inr ⟨request, rfl⟩)

theorem Closed.step {v : World} (hv : Closed v p.world φ) (h : Single policies p.world p.trace φ) {o : Op}
    (ha : (φ i).Allows o) (hg : inOrder policies p i o ch = true) :
    Closed v (perform o ch p.world).2 (update φ i ((φ i).next o (perform o ch p.world).1)) := by
  intro id e he hclosed
  obtain ⟨hentry, hidle, hreplays⟩ := hv id e he hclosed
  -- a closed entry is neither marked nor replayed
  have hunmarked : ∀ read entry, o = .set id read entry → entry.status ≠ .retrying := by
    rintro read entry rfl hretry
    simp only [inOrder, hretry, Bool.and_eq_true, decide_eq_true_eq, Bool.not_eq_true'] at hg
    have hread := hentry read hg.1
    rw [hg.2.1.1] at hread
    cases hread
  have hunreplayed : ∀ request, o ≠ .replay id request := by
    rintro request rfl
    simp only [inOrder, Bool.and_eq_true, decide_eq_true_eq] at hg
    exact hidle i (.inl (by rw [h.staged, hg.1]))
  refine ⟨?_, ?_, ?_⟩
  · refine Fate.deliver_kept (P := fun w' : World => ∀ e', w'.entries id = some e' → e'.status.closed = true) hentry ?_
    intro a w' hans e' he'
    cases o with
    | zrange | get | now =>
      cases hans
      exact hentry e' he'
    | set id' read entry =>
      cases hans
      by_cases hid : id = id'
      · subst hid
        rw [written_self he']
        have hnot := hunmarked read entry rfl
        cases hφ : φ i with
        | idle =>
          rw [hφ] at ha
          rcases ha with hstat | hstat | hstat
          · exact absurd hstat hnot
          · rw [hstat]
            rfl
          · rw [hstat]
            rfl
        | marked id' =>
          rw [hφ] at ha
          exact ha.elim
        | succeeded id' =>
          rw [hφ] at ha
          rw [ha.2]
          rfl
      · exact hentry e' ((written_ne (w := p.world) entry hid).symm.trans he')
    | replay id' request =>
      simp only [answer] at hans
      split at hans
      · cases hans
        exact hentry e' he'
      · cases hans
        exact hentry e' he'
  · intro j hj
    by_cases hji : j = i
    · subst hji
      rw [update_self] at hj
      rcases next_replays ha hj with hj | ⟨read, entry, ho, hretry⟩ | ⟨request, ho⟩
      · exact hidle j hj
      · exact hunmarked read entry ho hretry
      · exact hunreplayed request ho
    · rw [update_of_ne hji] at hj
      exact hidle j hj
  · refine Fate.deliver_kept (P := fun w' : World => (w'.replays.filter fun replay => decide (replay.id = id)) =
      v.replays.filter fun replay => decide (replay.id = id)) hreplays ?_
    intro a w' hans
    cases o with
    | zrange | get | now | set =>
      cases hans
      exact hreplays
    | replay id' request =>
      have hid : id' ≠ id := by
        rintro rfl
        exact hunreplayed request rfl
      simp only [answer] at hans
      split at hans
      · cases hans
        simp only [filter_append, filter_cons, hid, decide_false, Bool.false_eq_true, if_false, filter_nil,
          append_nil]
        exact hreplays
      · cases hans
        simp only [filter_append, filter_cons, hid, decide_false, Bool.false_eq_true, if_false, filter_nil,
          append_nil]
        exact hreplays

def answered (o : Op) (w : World) : dlqSignature.Result o × World := perform o {} w

theorem alone_op (o : Op) (w : World) : (op o).alone answered w = answered o w :=
  Program.alone_perform (S := dlqSignature) answered o w

theorem Single.retriable {w : World} {tr : DLQTrace} (h : Single policies w tr φ)
    (he : w.entries id = some e) (hopen : e.status.closed = false) (hhopeful : e.hopeful policies = true)
    (hidle : underWay tr id = false) {now : Int} (hnow : ∀ t, e.nextRetryAt = some t → t ≤ now) :
    e.isRetriable policies now = true := by
  have hpend : e.status = .pending := by
    cases hstat : e.status with
    | pending => rfl
    | retrying =>
      rcases h.hopeful he hstat with ⟨j, hj⟩ | hhopeless
      · exact absurd hj (h.idle_of_not_underWay hidle j)
      · rw [hhopeless] at hhopeful
        cases hhopeful
    | replayed | archived | discarded =>
      rw [hstat] at hopen
      cases hopen
  simp only [DeadLetterEntry.hopeful, Bool.and_eq_true] at hhopeful
  simp only [DeadLetterEntry.isRetriable, hpend, hhopeful.2, decide_true, Bool.and_self, Bool.true_and]
  cases hnext : e.nextRetryAt with
  | none => rfl
  | some t => exact decide_eq_true (hnow t hnext)

/-- Entries as they are added. -/
structure Added (w : World) : Prop where
  pending : ∀ id e, w.entries id = some e → e.status = .pending ∧ id ∈ w.index
  replays : w.replays = []
  successes : w.successes = []

theorem Added.single {w : World} (h : Added w) : Single policies w [] fun _ => .idle where
  staged := fun _ => rfl
  single := h.successes ▸ .start idle_replays
  retrying := fun hi _ => absurd hi (idle_replays _)
  timely := by simp [h.replays]
  hopeful := by
    intro id e he hretry
    rw [(h.pending id e he).1] at hretry
    cases hretry
  indexed := fun he => (h.pending _ _ he).2

end

def sample (id : String) : DeadLetterEntry :=
  ⟨id, "job", "request", ⟨"TX_RPC_TRANSIENT", "timeout", .transient, true, none⟩, 0, 0, 0, some 1000, 0, .pending⟩

def queued : World where
  clock := 2000
  entries := fun id => if id = "dlq-1" ∨ id = "dlq-2" then some (sample id) else none
  index := ["dlq-1", "dlq-2"]
  replays := []
  successes := []

def goes (i steps : Nat) : List (Action (system DEFAULT_RETRY_POLICIES)) := replicate steps (.step i {})

def throws (i : Nat) : Action (system DEFAULT_RETRY_POLICIES) := .step i { fate := .refused "connection refused" }

end Delego.DeadLetters
