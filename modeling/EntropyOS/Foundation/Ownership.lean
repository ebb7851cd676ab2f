import Mathlib.Tactic

/-!
# Who owns what of a pool

Owners hold lists of units of a pool.  No unit has two owners, some units are
reserved, and the rest is free.  An owner may take free units and give back its
own without any look at the others.
-/

namespace EntropyOS.Foundation

variable {ι κ : Type}

structure Ownership (pool : κ → Prop) (live : ι → Prop) (reserved : κ → Prop)
    (owned : ι → List κ) (free : κ → Prop) : Prop where
  inside : ∀ i, live i → ∀ c ∈ owned i, pool c
  disjoint : ∀ i j, live i → live j → i ≠ j → ∀ c ∈ owned i, c ∉ owned j
  kept : ∀ i, live i → ∀ c ∈ owned i, ¬ reserved c
  exact : ∀ c, free c ↔ pool c ∧ ¬ reserved c ∧ ∀ i, live i → c ∉ owned i

namespace Ownership

variable {pool : κ → Prop} {live : ι → Prop} {reserved : κ → Prop}
  {owned : ι → List κ} {free free' : κ → Prop}

theorem not_free (h : Ownership pool live reserved owned free) {i : ι} (hi : live i)
    {c : κ} (hc : c ∈ owned i) : ¬ free c :=
  fun hfree => ((h.exact c).mp hfree).2.2 i hi hc

/-- Nothing that one owner exchanges with the free units belongs to another. -/
theorem notMem_of_exchange (h : Ownership pool live reserved owned free) {i j : ι}
    (hi : live i) (hj : live j) (hne : j ≠ i) {c : κ} (hc : c ∈ owned j) :
    ¬ (free c ∨ c ∈ owned i) := by
  rintro (hfree | hmem)
  · exact h.not_free hj hc hfree
  · exact h.disjoint j i hj hi hne c hc hmem

theorem update [DecidableEq ι] (h : Ownership pool live reserved owned free) {i : ι}
    (hi : live i) {units : List κ}
    (hexchange : ∀ c, free' c ∨ c ∈ units ↔ free c ∨ c ∈ owned i)
    (hfresh : ∀ c ∈ units, ¬ free' c) :
    Ownership pool live reserved (Function.update owned i units) free' := by
  have hsource : ∀ c, free' c ∨ c ∈ units → pool c ∧ ¬ reserved c := by
    intro c hc
    rcases (hexchange c).mp hc with hfree | hmem
    · exact ⟨((h.exact c).mp hfree).1, ((h.exact c).mp hfree).2.1⟩
    · exact ⟨h.inside i hi c hmem, h.kept i hi c hmem⟩
  have hother : ∀ j, live j → j ≠ i → ∀ c ∈ owned j, ¬ (free' c ∨ c ∈ units) :=
    fun j hj hne c hc hmem => h.notMem_of_exchange hi hj hne hc ((hexchange c).mp hmem)
  refine ⟨fun j hj c hc => ?_, fun j k hj hk hne c hc => ?_, fun j hj c hc => ?_, fun c => ?_⟩
  · by_cases hji : j = i
    · subst hji
      rw [Function.update_self] at hc
      exact (hsource c (.inr hc)).1
    · rw [Function.update_of_ne hji] at hc
      exact h.inside j hj c hc
  · by_cases hji : j = i
    · subst hji
      rw [Function.update_self] at hc
      rw [Function.update_of_ne hne.symm]
      exact fun hmem => hother k hk hne.symm c hmem (.inr hc)
    · rw [Function.update_of_ne hji] at hc
      by_cases hki : k = i
      · subst hki
        rw [Function.update_self]
        exact fun hmem => hother j hj hji c hc (.inr hmem)
      · rw [Function.update_of_ne hki]
        exact h.disjoint j k hj hk hne c hc
  · by_cases hji : j = i
    · subst hji
      rw [Function.update_self] at hc
      exact (hsource c (.inr hc)).2
    · rw [Function.update_of_ne hji] at hc
      exact h.kept j hj c hc
  · constructor
    · intro hfree
      refine ⟨(hsource c (.inl hfree)).1, (hsource c (.inl hfree)).2, fun j hj hmem => ?_⟩
      by_cases hji : j = i
      · subst hji
        rw [Function.update_self] at hmem
        exact hfresh c hmem hfree
      · rw [Function.update_of_ne hji] at hmem
        exact hother j hj hji c hmem (.inl hfree)
    · rintro ⟨hpool, hreserved, hnone⟩
      have hi' := hnone i hi
      rw [Function.update_self] at hi'
      have hbefore : free c ∨ c ∈ owned i := by
        by_cases hmem : c ∈ owned i
        · exact .inr hmem
        · refine .inl ((h.exact c).mpr ⟨hpool, hreserved, fun j hj => ?_⟩)
          by_cases hji : j = i
          · rwa [hji]
          · have hj' := hnone j hj
            rwa [Function.update_of_ne hji] at hj'
      exact ((hexchange c).mpr hbefore).resolve_right hi'

/-- The units of the pool are those that are free, reserved or owned. -/
theorem card_add_sum [DecidableEq κ] (units : Finset κ) {taken freed : Finset κ}
    {owners : Finset ι}
    (h : Ownership pool (· ∈ owners) (· ∈ taken) owned (· ∈ freed))
    (hunits : ∀ c, c ∈ units ↔ pool c) (hnodup : ∀ i ∈ owners, (owned i).Nodup)
    (htaken : taken ⊆ units) :
    freed.card + ∑ i ∈ owners, (owned i).length = units.card - taken.card := by
  have hcard : (owners.biUnion fun i => (owned i).toFinset).card =
      ∑ i ∈ owners, (owned i).length := by
    rw [Finset.card_biUnion]
    · exact Finset.sum_congr rfl fun i hi => List.toFinset_card_of_nodup (hnodup i hi)
    · intro i hi j hj hne
      refine Finset.disjoint_left.mpr fun c hc hmem => ?_
      exact h.disjoint i j hi hj hne c (List.mem_toFinset.mp hc) (List.mem_toFinset.mp hmem)
  have hdisjoint : Disjoint freed (owners.biUnion fun i => (owned i).toFinset) := by
    refine Finset.disjoint_left.mpr fun c hfree hmem => ?_
    obtain ⟨i, hi, hc⟩ := Finset.mem_biUnion.mp hmem
    exact h.not_free hi (List.mem_toFinset.mp hc) hfree
  have hunion : freed ∪ (owners.biUnion fun i => (owned i).toFinset) = units \ taken := by
    ext c
    simp only [Finset.mem_union, Finset.mem_biUnion, List.mem_toFinset, Finset.mem_sdiff,
      hunits]
    constructor
    · rintro (hfree | ⟨i, hi, hc⟩)
      · exact ⟨((h.exact c).mp hfree).1, ((h.exact c).mp hfree).2.1⟩
      · exact ⟨h.inside i hi c hc, h.kept i hi c hc⟩
    · rintro ⟨hpool, hreserved⟩
      by_cases howned : ∃ i, i ∈ owners ∧ c ∈ owned i
      · exact .inr howned
      · exact .inl ((h.exact c).mpr ⟨hpool, hreserved, fun i hi hc => howned ⟨i, hi, hc⟩⟩)
  rw [← hcard, ← Finset.card_union_of_disjoint hdisjoint, hunion,
    Finset.card_sdiff_of_subset htaken]

end Ownership

end EntropyOS.Foundation
