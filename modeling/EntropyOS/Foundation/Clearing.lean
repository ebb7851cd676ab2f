import Mathlib.Data.Finset.Card
import Mathlib.Logic.Function.Basic

/-!
# Chains that are cleared while they are followed

The loop `while (live(c)) { n = next(c); next(c) = dead; c = n; }` reads its way
from links that it destroys.  It ends on every finite set of nodes, with cycles
or not, and it clears the nodes that the links it started with lead to.
-/

namespace EntropyOS.Foundation

variable {α : Type}

/-- Following the links from `c` over live nodes meets `d`. -/
inductive Meets (next : α → α) (live : α → Prop) : α → α → Prop
  | here {c : α} : live c → Meets next live c c
  | later {c d : α} : live c → Meets next live (next c) d → Meets next live c d

variable {next : α → α} {live : α → Prop} {dead c d : α}

theorem Meets.live_first (h : Meets next live c d) : live c := by
  cases h with
  | here hlive => exact hlive
  | later hlive _ => exact hlive

theorem Meets.live_last (h : Meets next live c d) : live d := by
  induction h with
  | here hlive => exact hlive
  | later _ _ ih => exact ih

/-- A set that the links lead out of only to nodes that are not live. -/
theorem Meets.mem (h : Meets next live c d) (nodes : Set α)
    (hclosed : ∀ e ∈ nodes, live (next e) → next e ∈ nodes) (hc : c ∈ nodes) :
    d ∈ nodes := by
  induction h with
  | here _ => exact hc
  | later _ htail ih => exact ih (hclosed _ hc htail.live_first)

variable [DecidableEq α]

/-- What is met is the first node and what is met from there once it is cleared. -/
theorem meets_iff_clear (hdead : ¬ live dead) (hlive : live c) :
    Meets next live c d ↔
      d = c ∨ Meets (Function.update next c dead) live (next c) d := by
  constructor
  · intro h
    -- the last visit to `c` is followed by links that are still there
    have hafter : ∀ e, Meets next live e d → d = c ∨
        Meets (Function.update next c dead) live e d ∨
        Meets (Function.update next c dead) live (next c) d := by
      intro e he
      induction he with
      | here he => exact .inr (.inl (.here he))
      | @later e d he _ ih =>
          rcases ih h with hsame | htail | hnext
          · exact .inl hsame
          · by_cases hec : e = c
            · exact .inr (.inr (hec ▸ htail))
            · refine .inr (.inl (.later he ?_))
              rwa [Function.update_of_ne hec]
          · exact .inr (.inr hnext)
    rcases h with _ | ⟨_, htail⟩
    · exact .inl rfl
    · rcases hafter _ htail with hsame | hcleared | hcleared
      · exact .inl hsame
      · exact .inr hcleared
      · exact .inr hcleared
  · have hbefore : ∀ e, Meets (Function.update next c dead) live e d →
        Meets next live e d := by
      intro e he
      induction he with
      | here he => exact .here he
      | @later e d he htail ih =>
          by_cases hec : e = c
          · rw [hec, Function.update_self] at htail
            exact absurd htail.live_first hdead
          · rw [Function.update_of_ne hec] at ih
            exact .later he ih
    rintro (rfl | hcleared)
    · exact .here hlive
    · exact .later hlive (hbefore _ hcleared)

/-- The loop ends when it is started at `c`. -/
inductive Clears (live : α → Prop) (dead : α) : (α → α) → α → Prop
  | stop {next : α → α} {c : α} : ¬ live c → Clears live dead next c
  | step {next : α → α} {c : α} : live c →
      Clears live dead (Function.update next c dead) (next c) → Clears live dead next c

/-- Each node is cleared once, or is found cleared, which ends the loop. -/
theorem clears_of_closed (hdead : ¬ live dead) (nodes : Finset α)
    (hclosed : ∀ e ∈ nodes, live (next e) → next e ∈ nodes)
    (hfirst : live c → c ∈ nodes) : Clears live dead next c := by
  induction hcard : (nodes.filter fun e => next e ≠ dead).card using
    Nat.strong_induction_on generalizing next c with
  | h n ih =>
      by_cases hlive : live c
      swap
      · exact .stop hlive
      refine .step hlive ?_
      by_cases hcleared : next c = dead
      · exact .stop (hcleared ▸ hdead)
      have hfewer : (nodes.filter fun e => Function.update next c dead e ≠ dead) ⊂
          nodes.filter fun e => next e ≠ dead := by
        refine Finset.ssubset_iff_subset_ne.mpr ⟨?_, ?_⟩
        · intro e he
          obtain ⟨he, hne⟩ := Finset.mem_filter.mp he
          have hec : e ≠ c := by
            rintro rfl
            exact hne (Function.update_self _ _ _)
          rw [Function.update_of_ne hec] at hne
          exact Finset.mem_filter.mpr ⟨he, hne⟩
        · intro heq
          have hc : c ∈ nodes.filter fun e => next e ≠ dead :=
            Finset.mem_filter.mpr ⟨hfirst hlive, hcleared⟩
          rw [← heq] at hc
          exact (Finset.mem_filter.mp hc).2 (Function.update_self _ _ _)
      refine ih _ (hcard ▸ Finset.card_lt_card hfewer) ?_
        (fun hnext => hclosed c (hfirst hlive) hnext) rfl
      intro e he
      by_cases hec : e = c
      · rw [hec, Function.update_self]
        exact fun hd => absurd hd hdead
      · rw [Function.update_of_ne hec]
        exact hclosed e he

end EntropyOS.Foundation
