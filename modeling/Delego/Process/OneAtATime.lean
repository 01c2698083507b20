import Mathlib.Data.List.Nodup

/-! One at a time.

A runner may carry a key, and has landed it once it has been told that it is done. Where one runner at a time carries a
key, and none takes up a key that is marked, each is done once at most (`OneAtATime.step`). -/
namespace Delego.Process
open Function

variable {Φ K : Type} {carries landed : Φ → K → Prop} {marked marked' : K → Prop} {done done' : List K} {φ : Nat → Φ}

/-- A key that is carried and not landed is not done; one that is done is marked, or going to be. -/
structure OneAtATime (carries landed : Φ → K → Prop) (marked : K → Prop) (done : List K) (φ : Nat → Φ) : Prop where
  alone : ∀ {i j k}, carries (φ i) k → carries (φ j) k → i = j
  opened : ∀ {i k}, carries (φ i) k → ¬landed (φ i) k → k ∉ done
  recorded : ∀ {k}, k ∈ done → marked k ∨ ∃ i, carries (φ i) k ∧ landed (φ i) k
  once : done.Nodup

theorem OneAtATime.start {ψ : Φ} (h : ∀ k, ¬carries ψ k) : OneAtATime carries landed marked [] fun _ => ψ :=
  ⟨fun hi => absurd hi (h _), fun hi => absurd hi (h _), nofun, .nil⟩

theorem OneAtATime.free (h : OneAtATime carries landed marked done φ) {k : K} (hmarked : ¬marked k) (hnone : ∀ j, ¬carries (φ j) k) :
    k ∉ done := fun hmem => (h.recorded hmem).elim hmarked fun ⟨j, hj, _⟩ => hnone j hj

theorem OneAtATime.mono (h : OneAtATime carries landed marked done φ) (hmarked : ∀ k, marked k → marked' k) :
    OneAtATime carries landed marked' done φ :=
  ⟨h.alone, h.opened, fun hk => (h.recorded hk).imp_left (hmarked _), h.once⟩

/-- One runner moves: it takes up a key that nobody carries, lands one, or marks what it has landed. -/
theorem OneAtATime.step (h : OneAtATime carries landed marked done φ) {i : Nat} {ψ : Φ}
    (hcarr : ∀ k, carries ψ k → carries (φ i) k ∧ (landed (φ i) k → landed ψ k) ∨ ¬marked k ∧ ∀ j, ¬carries (φ j) k)
    (hmarked : ∀ k ∈ done, marked k → marked' k)
    (hlanded : ∀ k, carries (φ i) k → landed (φ i) k → marked' k ∨ carries ψ k ∧ landed ψ k)
    (hdone : done' = done ∨
      ∃ k, done' = done ++ [k] ∧ carries (φ i) k ∧ ¬landed (φ i) k ∧ carries ψ k ∧ landed ψ k) :
    OneAtATime carries landed marked' done' (update φ i ψ) := by
  have hpre : ∀ {j k}, carries (update φ i ψ j) k → carries (φ j) k ∨ j = i ∧ ∀ j, ¬carries (φ j) k := by
    intro j k hj
    by_cases hji : j = i
    · subst hji
      rw [update_self] at hj
      exact (hcarr k hj).imp And.left fun hnew => ⟨rfl, hnew.2⟩
    · rw [update_of_ne hji] at hj
      exact .inl hj
  -- a key that is carried and not landed was not done, and is not the one that is done now
  have hopened : ∀ {j k}, carries (update φ i ψ j) k → ¬landed (update φ i ψ j) k → k ∉ done ∧
      ∀ k', carries (φ i) k' → landed ψ k' → k ≠ k' := by
    intro j k hj hnot
    by_cases hji : j = i
    · subst hji
      rw [update_self] at hj hnot
      rcases hcarr k hj with ⟨hold, hkept⟩ | ⟨hunmarked, hnone⟩
      · exact ⟨h.opened hold fun hl => hnot (hkept hl), fun k' _ hl hkk => hnot (hkk ▸ hl)⟩
      · exact ⟨h.free hunmarked hnone, fun k' hc _ hkk => hnone j (hkk ▸ hc)⟩
    · rw [update_of_ne hji] at hj hnot
      exact ⟨h.opened hj hnot, fun k' hc _ hkk => hji (h.alone hj (hkk ▸ hc))⟩
  have hrecd : ∀ {k}, k ∈ done → marked' k ∨
      ∃ j, carries (update φ i ψ j) k ∧ landed (update φ i ψ j) k := by
    intro k hk
    rcases h.recorded hk with hk' | ⟨j, hj, hl⟩
    · exact .inl (hmarked k hk hk')
    · by_cases hji : j = i
      · subst hji
        exact (hlanded k hj hl).imp_right fun hnow => ⟨j, by rwa [update_self]⟩
      · exact .inr ⟨j, by rw [update_of_ne hji]; exact ⟨hj, hl⟩⟩
  have halone : ∀ {j j' k}, carries (update φ i ψ j) k → carries (update φ i ψ j') k → j = j' := by
    intro j j' k hj hj'
    rcases hpre hj with hold | ⟨rfl, hnone⟩
    · rcases hpre hj' with hold' | ⟨-, hnone⟩
      · exact h.alone hold hold'
      · exact absurd hold (hnone j)
    · rcases hpre hj' with hold' | ⟨rfl, -⟩
      · exact absurd hold' (hnone j')
      · rfl
  rcases hdone with rfl | ⟨k, rfl, hc, hnot, hcψ, hl⟩
  · exact ⟨halone, fun hj hn => (hopened hj hn).1, hrecd, h.once⟩
  · refine ⟨halone, fun {j k'} hj hn hmem => ?_, fun {k'} hk' => ?_, ?_⟩
    · rcases List.mem_append.mp hmem with hmem | hmem
      · exact (hopened hj hn).1 hmem
      · exact (hopened hj hn).2 k hc hl (List.mem_singleton.mp hmem)
    · rcases List.mem_append.mp hk' with hk' | hk'
      · exact hrecd hk'
      · rw [List.mem_singleton.mp hk']
        exact .inr ⟨i, by rw [update_self]; exact ⟨hcψ, hl⟩⟩
    · rw [← List.concat_eq_append]
      exact List.Nodup.concat (h.opened hc hnot) h.once

end Delego.Process
