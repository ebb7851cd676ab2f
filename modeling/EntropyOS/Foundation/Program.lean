import Mathlib.Tactic
import EntropyOS.Foundation.Sizes

/-!
# Programs with state, and running them against an abstract state

A program threads a concrete state and need not return: `none` is a loop that
never ends, or a trap, and not an error result.  `Runs` is the big-step
judgement used to relate code to a model.  It names the abstract states before
and after, so a proof follows the statements of the program, with `Runs.bind`
between them.

A loop that need not end is a `partial_fixpoint`.  Its recursive call is put
together by `apply`: written as an application it would leave its own text in the
body of the definition.
-/

namespace EntropyOS.Foundation

abbrev Program (σ : Type) := StateT σ Option

/-- The processor stops, as on a division by zero. -/
def trap {σ α : Type} : Program σ α := fun _ => none

/-- Go on if an access is in bounds; there is no way to go on if it is not. -/
def demand {σ : Type} (allowed : Prop) [Decidable allowed] : Program σ Unit :=
  if allowed then pure () else trap

section Execution

variable {σ α β : Type}

theorem Program.bind_apply (program : Program σ α)
    (next : α → Program σ β) (s : σ) :
    (program >>= next) s = (program s).bind fun r => next r.1 r.2 := rfl

theorem Program.bind_of_some {program : Program σ α}
    {next : α → Program σ β} {s s' : σ} {a : α}
    (h : program s = some (a, s')) : (program >>= next) s = next a s' := by
  rw [Program.bind_apply, h]
  rfl

theorem Program.get_bind (next : σ → Program σ β) (s : σ) :
    ((get : Program σ σ) >>= next) s = next s s := rfl

/-- A sequence that ends passes through a state in between. -/
theorem Program.exists_of_bind {program : Program σ α}
    {next : α → Program σ β} {s s' : σ} {b : β}
    (h : (program >>= next) s = some (b, s')) :
    ∃ a middle, program s = some (a, middle) ∧ next a middle = some (b, s') := by
  rw [Program.bind_apply] at h
  obtain ⟨⟨a, middle⟩, hfirst, hsecond⟩ := Option.bind_eq_some_iff.mp h
  exact ⟨a, middle, hfirst, hsecond⟩

/-- Run a program on one component of a larger state. -/
def Program.onPart {τ : Type} (part : σ → τ) (put : σ → τ → σ)
    (program : Program τ α) : Program σ α := fun s =>
  (program (part s)).map fun r => (r.1, put s r.2)

theorem Program.onPart_of_some {τ : Type} {part : σ → τ} {put : σ → τ → σ}
    {program : Program τ α} {s : σ} {a : α} {t : τ}
    (h : program (part s) = some (a, t)) :
    program.onPart part put s = some (a, put s t) := by
  rw [Program.onPart, h]
  rfl

@[simp] theorem Program.pure_apply (a : α) (s : σ) :
    (pure a : Program σ α) s = some (a, s) := rfl

theorem demand_bind (allowed : Prop) [Decidable allowed]
    (next : Unit → Program σ α) (s : σ) :
    (demand allowed >>= next) s = if allowed then next () s else none := by
  rw [demand]
  split
  · rfl
  · rfl

/-- Started in `s`, the program ends and returns `a`. -/
def Returns (program : Program σ α) (s : σ) (a : α) : Prop :=
  ∃ s', program s = some (a, s')

theorem Returns.unique {program : Program σ α} {s : σ} {a b : α}
    (ha : Returns program s a) (hb : Returns program s b) : a = b := by
  obtain ⟨sa, ha⟩ := ha
  obtain ⟨sb, hb⟩ := hb
  rw [ha] at hb
  exact congrArg Prod.fst (Option.some.inj hb)

/-- Two states give the same results when the program returns in both. -/
def SameResult (program : Program σ α) (s s' : σ) : Prop :=
  ∃ a, Returns program s a ∧ Returns program s' a

end Execution

section Frames

variable {σ α β : Type} {r : σ → σ → Prop}

/-- Whenever the program ends, the states before and after are related. -/
def Within (r : σ → σ → Prop) (program : Program σ α) : Prop :=
  ∀ s a s', program s = some (a, s') → r s s'

theorem Within.pure [Std.Refl r] (a : α) :
    Within r (Pure.pure a : Program σ α) := by
  intro s b s' h
  cases h
  exact Std.Refl.refl s

theorem Within.bind [IsTrans σ r] {program : Program σ α}
    {next : α → Program σ β} (first : Within r program)
    (second : ∀ a, Within r (next a)) : Within r (program >>= next) := by
  intro s b s' h
  obtain ⟨a, middle, hfirst, hsecond⟩ := Program.exists_of_bind h
  exact IsTrans.trans _ _ _ (first s a middle hfirst)
    (second a middle b s' hsecond)

theorem Within.ite {c : Prop} [Decidable c] {yes no : Program σ α}
    (hyes : Within r yes) (hno : Within r no) :
    Within r (if c then yes else no) := by
  split
  · exact hyes
  · exact hno

theorem Within.get [Std.Refl r] : Within r (get : Program σ σ) := by
  intro s b s' h
  cases h
  exact Std.Refl.refl s

theorem Within.modify {f : σ → σ} (h : ∀ s, r s (f s)) :
    Within r (modify f : Program σ Unit) := by
  intro s b s' hrun
  cases hrun
  exact h s

end Frames

section Limits

/--
A value of the least upper bound of a set of partial functions is a value of one
of them, in an order where only `none` is below something else.
-/
theorem exists_value_of_sup {P β : Type} {c : (P → Option β) → Prop}
    {g : P → Option β} {rel : Option β → Option β → Prop}
    (sup : ∀ h : P → Option β, (∀ p, rel (g p) (h p)) ↔
      ∀ f, c f → ∀ p, rel (f p) (h p))
    (bot : ∀ b, rel none b) (self : ∀ b, rel b b)
    (only : ∀ a b, rel a b → a = none ∨ a = b) {p : P} {r : β}
    (hval : g p = some r) : ∃ f, c f ∧ f p = some r := by
  classical
  by_contra hall
  -- otherwise the bound without this value would be an upper bound too
  have hcut := (sup fun q => if q = p then none else g q).mpr
    (fun f hf q => by
      have hbelow := (sup g).mp (fun _ => self _) f hf q
      split
      · next hhere =>
          subst hhere
          rcases only _ _ hbelow with hnone | hsame
          · rw [hnone]
            exact bot none
          · exact absurd ⟨f, hf, hsame.trans hval⟩ hall
      · exact hbelow) p
  rw [if_pos rfl, hval] at hcut
  rcases only _ _ hcut with hnone | hsame
  · cases hnone
  · cases hsame

/--
A run of a loop is a run of one of its approximations.  The loop is a choice from
their least upper bounds, and its order is found to be flat where it is known.
-/
theorem exists_run_of_sup {ι σ α : Type} {c : (ι → Program σ α) → Prop}
    {rel : Option (α × σ) → Option (α × σ) → Prop}
    (hexists : ∃ g : ι → Program σ α, ∀ h : ι → Program σ α,
      (∀ i s, rel (g i s) (h i s)) ↔ ∀ f, c f → ∀ i s, rel (f i s) (h i s))
    {i : ι} {s : σ} {r : α × σ} (hrun : Classical.choose hexists i s = some r)
    (bot : ∀ b, rel none b := by intro; constructor)
    (self : ∀ b, rel b b := by intro; constructor)
    (only : ∀ a b, rel a b → a = none ∨ a = b := by
      intro a b h
      cases h with
      | bot => exact .inl rfl
      | refl => exact .inr rfl) :
    ∃ f, c f ∧ f i s = some r := by
  have sup := Classical.choose_spec hexists
  obtain ⟨f, ⟨f, hf, rfl⟩, hval⟩ := @exists_value_of_sup (ι × σ) (α × σ)
    (fun f => ∃ f', c f' ∧ f = fun p => f' p.1 p.2)
    (fun p => Classical.choose hexists p.1 p.2) rel
    (fun h => by
      have hsup := sup fun i s => h (i, s)
      simp only [Prod.forall]
      rw [hsup]
      constructor
      · rintro hall _ ⟨f, hf, rfl⟩ i s
        exact hall f hf i s
      · exact fun hall f hf i s => hall _ ⟨f, hf, rfl⟩ i s)
    bot self only (i, s) r hrun
  exact ⟨f, hf, hval⟩

theorem exists_run_of_sup₂ {ι κ σ α : Type} {c : (ι → κ → Program σ α) → Prop}
    {rel : Option (α × σ) → Option (α × σ) → Prop}
    (hexists : ∃ g : ι → κ → Program σ α, ∀ h : ι → κ → Program σ α,
      (∀ i k s, rel (g i k s) (h i k s)) ↔ ∀ f, c f → ∀ i k s, rel (f i k s) (h i k s))
    {i : ι} {k : κ} {s : σ} {r : α × σ} (hrun : Classical.choose hexists i k s = some r)
    (bot : ∀ b, rel none b := by intro; constructor)
    (self : ∀ b, rel b b := by intro; constructor)
    (only : ∀ a b, rel a b → a = none ∨ a = b := by
      intro a b h
      cases h with
      | bot => exact .inl rfl
      | refl => exact .inr rfl) :
    ∃ f, c f ∧ f i k s = some r := by
  have sup := Classical.choose_spec hexists
  obtain ⟨f, ⟨f, hf, rfl⟩, hval⟩ := @exists_value_of_sup (ι × κ × σ) (α × σ)
    (fun f => ∃ f', c f' ∧ f = fun p => f' p.1 p.2.1 p.2.2)
    (fun p => Classical.choose hexists p.1 p.2.1 p.2.2) rel
    (fun h => by
      have hsup := sup fun i k s => h (i, k, s)
      simp only [Prod.forall]
      rw [hsup]
      constructor
      · rintro hall _ ⟨f, hf, rfl⟩ i k s
        exact hall f hf i k s
      · exact fun hall f hf i k s => hall _ ⟨f, hf, rfl⟩ i k s)
    bot self only (i, k, s) r hrun
  exact ⟨f, hf, hval⟩

end Limits

section Refinement

variable {σ τ α β : Type} {R : σ → τ → Prop}

/--
From every concrete state that represents `t`, the program returns `a` in a
state that represents `t'`.
-/
def Runs (R : σ → τ → Prop) (t : τ) (program : Program σ α) (a : α)
    (t' : τ) : Prop :=
  ∀ s, R s t → ∃ s', program s = some (a, s') ∧ R s' t'

theorem Runs.pure (t : τ) (a : α) :
    Runs R t (Pure.pure a : Program σ α) a t :=
  fun s hs => ⟨s, rfl, hs⟩

theorem Runs.bind {t t' t'' : τ} {program : Program σ α}
    {next : α → Program σ β} {a : α} {b : β}
    (first : Runs R t program a t') (second : Runs R t' (next a) b t'') :
    Runs R t (program >>= next) b t'' := by
  intro s hs
  obtain ⟨s', hfirst, hs'⟩ := first s hs
  obtain ⟨s'', hsecond, hs''⟩ := second s' hs'
  exact ⟨s'', by rw [Program.bind_of_some hfirst, hsecond], hs''⟩

theorem Runs.if_pos {t t' : τ} {c : Prop} [Decidable c]
    {yes no : Program σ α} {a : α} (hc : c) (h : Runs R t yes a t') :
    Runs R t (if c then yes else no) a t' := by
  rwa [ite_cond_eq_true _ _ (eq_true hc)]

theorem Runs.if_neg {t t' : τ} {c : Prop} [Decidable c]
    {yes no : Program σ α} {a : α} (hc : ¬ c) (h : Runs R t no a t') :
    Runs R t (if c then yes else no) a t' := by
  rwa [ite_cond_eq_false _ _ (eq_false hc)]

theorem Runs.of_reads {t : τ} {program : Program σ α} {a : α}
    (h : ∀ s, R s t → program s = some (a, s)) : Runs R t program a t :=
  fun s hs => ⟨s, h s hs, hs⟩

theorem Runs.deterministic {t t' : τ} {program : Program σ α} {a b : α}
    {s s' : σ} (h : Runs R t program a t') (hs : R s t)
    (hrun : program s = some (b, s')) : b = a ∧ R s' t' := by
  obtain ⟨s'', ha, hs''⟩ := h s hs
  rw [ha] at hrun
  obtain ⟨rfl, rfl⟩ := Prod.mk.inj (Option.some.inj hrun)
  exact ⟨rfl, hs''⟩

theorem Runs.returns {t t' : τ} {program : Program σ α} {a : α} {s : σ}
    (h : Runs R t program a t') (hs : R s t) : Returns program s a := by
  obtain ⟨s', ha, -⟩ := h s hs
  exact ⟨s', ha⟩

/--
Started where `t` is represented, the program comes to run `rest`, and `t'` is
represented by then.
-/
def Leads (R : σ → τ → Prop) (t : τ) (program : Program σ α) (t' : τ)
    (rest : Program σ α) : Prop :=
  ∀ s, R s t → ∃ s', R s' t' ∧ program s = rest s'

theorem Leads.refl (t : τ) (program : Program σ α) :
    Leads R t program t program :=
  fun s hs => ⟨s, hs, rfl⟩

theorem Leads.bind {t t' t'' : τ} {program : Program σ α}
    {next : α → Program σ β} {a : α} {rest : Program σ β}
    (first : Runs R t program a t') (second : Leads R t' (next a) t'' rest) :
    Leads R t (program >>= next) t'' rest := by
  intro s hs
  obtain ⟨s', hfirst, hs'⟩ := first s hs
  obtain ⟨s'', hs'', hsecond⟩ := second s' hs'
  exact ⟨s'', hs'', by rw [Program.bind_of_some hfirst, hsecond]⟩

theorem Leads.if_pos {t t' : τ} {c : Prop} [Decidable c]
    {yes no rest : Program σ α} (hc : c) (h : Leads R t yes t' rest) :
    Leads R t (if c then yes else no) t' rest := by
  rwa [ite_cond_eq_true _ _ (eq_true hc)]

theorem Leads.if_neg {t t' : τ} {c : Prop} [Decidable c]
    {yes no rest : Program σ α} (hc : ¬ c) (h : Leads R t no t' rest) :
    Leads R t (if c then yes else no) t' rest := by
  rwa [ite_cond_eq_false _ _ (eq_false hc)]

theorem Leads.trans {t t' t'' : τ} {program middle rest : Program σ α}
    (first : Leads R t program t' middle) (second : Leads R t' middle t'' rest) :
    Leads R t program t'' rest := by
  intro s hs
  obtain ⟨s', hs', hfirst⟩ := first s hs
  obtain ⟨s'', hs'', hsecond⟩ := second s' hs'
  exact ⟨s'', hs'', hfirst.trans hsecond⟩

theorem Leads.runs {t t' t'' : τ} {program rest : Program σ α} {a : α}
    (h : Leads R t program t' rest) (hrest : Runs R t' rest a t'') :
    Runs R t program a t'' := by
  intro s hs
  obtain ⟨s', hs', heq⟩ := h s hs
  obtain ⟨s'', hrun, hs''⟩ := hrest s' hs'
  exact ⟨s'', heq.trans hrun, hs''⟩

theorem Leads.returns {t t' : τ} {program rest : Program σ α} {a : α}
    (h : Leads R t program t' rest) (hrest : ∀ s, Returns rest s a) :
    ∀ s, R s t → Returns program s a := by
  intro s hs
  obtain ⟨s', -, heq⟩ := h s hs
  obtain ⟨s'', hrun⟩ := hrest s'
  exact ⟨s'', heq.trans hrun⟩

end Refinement

section Outcomes

variable {σ τ α β : Type} {Q : α → σ → Prop} {P : β → σ → Prop}

/-- Started in `s`, the program ends, and `Q` holds of what it returns and leaves. -/
def Ensures (program : Program σ α) (s : σ) (Q : α → σ → Prop) : Prop :=
  ∃ a s', program s = some (a, s') ∧ Q a s'

theorem Ensures.of_some {program : Program σ α} {s s' : σ} {a : α}
    (h : program s = some (a, s')) : Ensures program s fun b t => b = a ∧ t = s' :=
  ⟨a, s', h, rfl, rfl⟩

theorem Ensures.pure {s : σ} {a : α} (h : Q a s) :
    Ensures (Pure.pure a : Program σ α) s Q :=
  ⟨a, s, rfl, h⟩

theorem Ensures.bind {program : Program σ α} {next : α → Program σ β} {s : σ}
    (first : Ensures program s Q) (second : ∀ a s', Q a s' → Ensures (next a) s' P) :
    Ensures (program >>= next) s P := by
  obtain ⟨a, middle, hfirst, ha⟩ := first
  obtain ⟨b, s', hsecond, hb⟩ := second a middle ha
  exact ⟨b, s', by rw [Program.bind_of_some hfirst, hsecond], hb⟩

theorem Ensures.if_pos {c : Prop} [Decidable c] {yes no : Program σ α} {s : σ}
    (hc : c) (h : Ensures yes s Q) : Ensures (if c then yes else no) s Q := by
  rwa [ite_cond_eq_true _ _ (eq_true hc)]

theorem Ensures.if_neg {c : Prop} [Decidable c] {yes no : Program σ α} {s : σ}
    (hc : ¬ c) (h : Ensures no s Q) : Ensures (if c then yes else no) s Q := by
  rwa [ite_cond_eq_false _ _ (eq_false hc)]

theorem Ensures.mono {program : Program σ α} {s : σ} {Q' : α → σ → Prop}
    (h : Ensures program s Q) (hweaker : ∀ a s', Q a s' → Q' a s') :
    Ensures program s Q' := by
  obtain ⟨a, s', hrun, ha⟩ := h
  exact ⟨a, s', hrun, hweaker a s' ha⟩

theorem Runs.ensures {R : σ → τ → Prop} {t t' : τ} {program : Program σ α} {a : α}
    {s : σ} (h : Runs R t program a t') (hs : R s t) :
    Ensures program s fun b s' => b = a ∧ R s' t' := by
  obtain ⟨s', hrun, hs'⟩ := h s hs
  exact ⟨a, s', hrun, rfl, hs'⟩

/-- The program always ends, and the states before and after are related. -/
def EndsWithin (r : σ → σ → Prop) (program : Program σ α) : Prop :=
  ∀ s, Ensures program s fun _ s' => r s s'

section EndsWithin

variable {r : σ → σ → Prop}

theorem EndsWithin.of_apply {program : Program σ α} {f : σ → α} {g : σ → σ}
    (h : ∀ s, program s = some (f s, g s)) (hr : ∀ s, r s (g s)) :
    EndsWithin r program :=
  fun s => ⟨f s, g s, h s, hr s⟩

theorem EndsWithin.pure [Std.Refl r] (a : α) :
    EndsWithin r (Pure.pure a : Program σ α) :=
  fun s => Ensures.pure (Std.Refl.refl s)

theorem EndsWithin.bind [IsTrans σ r] {program : Program σ α}
    {next : α → Program σ β} (first : EndsWithin r program)
    (second : ∀ a, EndsWithin r (next a)) : EndsWithin r (program >>= next) :=
  fun s => Ensures.bind (first s) fun a middle hfirst =>
    (second a middle).mono fun _ _ hsecond => IsTrans.trans _ _ _ hfirst hsecond

theorem EndsWithin.ite {c : Prop} [Decidable c] {yes no : Program σ α}
    (hyes : EndsWithin r yes) (hno : EndsWithin r no) :
    EndsWithin r (if c then yes else no) := by
  split
  · exact hyes
  · exact hno

end EndsWithin

theorem Ensures.iff_of_iff {program : Program σ α} {s : σ} {c : Prop}
    (h : Ensures program s fun a s' => Q a s' ↔ c) : Ensures program s Q ↔ c := by
  obtain ⟨a, s', hrun, hiff⟩ := h
  constructor
  · rintro ⟨b, s'', hrun', hb⟩
    rw [hrun] at hrun'
    cases hrun'
    exact hiff.mp hb
  · exact fun hc => ⟨a, s', hrun, hiff.mpr hc⟩

end Outcomes

end EntropyOS.Foundation
