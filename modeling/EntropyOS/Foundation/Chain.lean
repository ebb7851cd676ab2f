import Mathlib.Tactic

/-!
# Linked chains

`Walk next live first visited last` describes the loop
`while (live(c)) c = next(c)` started at `first`: it visits exactly the nodes
`visited`, in that order, and leaves with `last`, the first node that is not
live.  A walk is finite, so it never meets a node twice.
-/

namespace EntropyOS.Foundation

variable {α : Type}

inductive Walk (next : α → α) (live : α → Prop) : α → List α → α → Prop
  | stop {c : α} : ¬ live c → Walk next live c [] c
  | step {c last : α} {visited : List α} :
      live c → Walk next live (next c) visited last →
        Walk next live c (c :: visited) last

namespace Walk

variable {next next' : α → α} {live : α → Prop} {first last : α}
  {visited : List α}

theorem unique {visited' : List α} {last' : α}
    (h : Walk next live first visited last)
    (h' : Walk next live first visited' last') :
    visited = visited' ∧ last = last' := by
  induction h generalizing visited' last' with
  | stop hstop =>
      cases h' with
      | stop => exact ⟨rfl, rfl⟩
      | step hlive _ => exact absurd hlive hstop
  | step hlive _ ih =>
      cases h' with
      | stop hstop => exact absurd hlive hstop
      | step _ htail =>
          obtain ⟨rfl, rfl⟩ := ih htail
          exact ⟨rfl, rfl⟩

theorem live_of_mem (h : Walk next live first visited last) {c : α}
    (hc : c ∈ visited) : live c := by
  induction h with
  | stop => simp at hc
  | step hlive _ ih =>
      rcases List.mem_cons.mp hc with rfl | hc
      · exact hlive
      · exact ih hc

theorem congr (h : Walk next live first visited last)
    (hnext : ∀ c ∈ visited, next' c = next c) :
    Walk next' live first visited last := by
  induction h with
  | stop hstop => exact .stop hstop
  | step hlive _ ih =>
      refine .step hlive ?_
      rw [hnext _ List.mem_cons_self]
      exact ih fun c hc => hnext c (List.mem_cons_of_mem _ hc)

theorem getD_eq_iterate (h : Walk next live first visited last) {j : Nat}
    (hj : j < visited.length) (default : α) :
    visited.getD j default = next^[j] first := by
  induction h generalizing j with
  | stop => simp at hj
  | step _ _ ih =>
      cases j with
      | zero => rfl
      | succ j =>
          rw [List.getD_cons_succ, Function.iterate_succ_apply]
          exact ih (by simpa using hj)

theorem drop {before after : List α} {c : α}
    (h : Walk next live first (before ++ c :: after) last) :
    Walk next live c (c :: after) last := by
  induction before generalizing first with
  | nil =>
      cases h with
      | step hlive htail => exact .step hlive htail
  | cons head before ih =>
      cases h with
      | step _ htail => exact ih htail

theorem nodup (h : Walk next live first visited last) : visited.Nodup := by
  induction h with
  | stop => exact List.nodup_nil
  | step hlive htail ih =>
      refine List.nodup_cons.mpr ⟨?_, ih⟩
      intro hmem
      -- a second visit would start a walk that is a proper tail of itself
      obtain ⟨before, after, rfl⟩ := List.append_of_mem hmem
      have hagain := (drop htail).unique (.step hlive htail)
      have hlength := congrArg List.length hagain.1
      simp at hlength
      omega

theorem not_live_last (h : Walk next live first visited last) : ¬ live last := by
  induction h with
  | stop hstop => exact hstop
  | step _ _ ih => exact ih

theorem last_eq_iterate (h : Walk next live first visited last) :
    last = next^[visited.length] first := by
  induction h with
  | stop => rfl
  | step _ _ ih => rw [List.length_cons, Function.iterate_succ_apply, ← ih]

/-- A walk ends where following the links leads to a node that is not live. -/
theorem exists_of_iterate {n : Nat} (h : ¬ live (next^[n] first)) :
    ∃ visited last, Walk next live first visited last := by
  induction n generalizing first with
  | zero => exact ⟨[], first, .stop h⟩
  | succ n ih =>
      by_cases hfirst : live first
      · obtain ⟨visited, last, hwalk⟩ := ih h
        exact ⟨first :: visited, last, .step hfirst hwalk⟩
      · exact ⟨[], first, .stop hfirst⟩

/-- Among `n` nodes a walk visits fewer than `n`, as its end is none of them. -/
theorem length_lt (h : Walk next live first visited last) {n : Nat} {f : α → Fin n}
    (hf : Function.Injective f) : visited.length < n := by
  have hlast : last ∉ visited := fun hmem => h.not_live_last (h.live_of_mem hmem)
  have hnodup : ((last :: visited).map f).Nodup :=
    (List.nodup_cons.mpr ⟨hlast, h.nodup⟩).map hf
  have hlength := hnodup.length_le_card
  rw [List.length_map, List.length_cons, Fintype.card_fin] at hlength
  omega

theorem head_eq (h : Walk next live first visited last)
    (hne : visited ≠ []) : ∃ rest, visited = first :: rest := by
  cases h with
  | stop => exact absurd rfl hne
  | step => exact ⟨_, rfl⟩

/-- Every link of a walk leads to a later node of it or to its end. -/
theorem next_of_mem (h : Walk next live first visited last) {c : α}
    (hc : c ∈ visited) : next c ∈ visited ∨ next c = last := by
  obtain ⟨before, after, rfl⟩ := List.append_of_mem hc
  cases drop h with
  | step _ htail =>
      cases htail with
      | stop => exact .inr rfl
      | step => exact .inl (by simp)

theorem of_isChain {c : α} {rest : List α}
    (hchain : (c :: rest).IsChain fun a b => next a = b)
    (hlive : ∀ a ∈ c :: rest, live a)
    (hlast : ∀ a, (c :: rest).getLast? = some a → next a = last)
    (hstop : ¬ live last) : Walk next live c (c :: rest) last := by
  induction rest generalizing c with
  | nil =>
      refine .step (hlive c (by simp)) ?_
      rw [hlast c (by simp)]
      exact .stop hstop
  | cons d rest ih =>
      rw [List.isChain_cons_cons] at hchain
      refine .step (hlive c (by simp)) ?_
      rw [hchain.1]
      apply ih hchain.2
      · exact fun a ha => hlive a (List.mem_cons_of_mem _ ha)
      · intro a ha
        exact hlast a (by rw [List.getLast?_cons_cons, ha])

end Walk

end EntropyOS.Foundation
