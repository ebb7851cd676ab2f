import EntropyOS.Scheduler.Suspension

/-!
# Round robin

`scheduler_run_once` runs the first ready task from the cursor on, and leaves
the cursor behind it.  So a task can be passed over only where
`scheduler_add_task` moves the cursor: it does so past every slot between the
cursor and the free slot that it takes.
-/

namespace EntropyOS.Scheduler

open EntropyOS.Foundation

/-- How far it is from one slot to another, going round. -/
def gap (i j : Fin 16) : Nat := (j.val + 16 - i.val) % 16

theorem slot_wrap {index : Int} (h : 0 ≤ index) : slot (wrap index) = slot index := by
  apply Fin.ext
  simp only [slot, wrap, Fin.ofNat, Int.tmod_eq_emod_of_nonneg h]
  omega

theorem gap_slot {index : Int} (h : 0 ≤ index) {i : Nat} (hi : i < 16) :
    gap (slot index) (slot (index + i)) = i := by
  simp only [gap, slot, Fin.ofNat]
  omega

/-- From the cursor on, a slot is met after `gap` steps. -/
theorem slot_gap {index : Int} (h : 0 ≤ index) (j : Fin 16) :
    slot (index + gap (slot index) j) = j := by
  apply Fin.ext
  have hj := j.isLt
  simp only [gap, slot, Fin.ofNat]
  omega

theorem gap_lt (i j : Fin 16) : gap i j < 16 := Nat.mod_lt _ (by decide)

/-- A slot that is no further than `b` and comes before `b` cannot be `a`. -/
theorem gap_next {cursor a b i : Fin 16} {next : Int}
    (hbetween : gap cursor b < gap a b) (hfirst : gap cursor i ≤ gap cursor b)
    (hne : i ≠ b) (hnext : slot next = i) (hnonneg : 0 ≤ next) :
    i ≠ a ∧ gap (slot (next + 1)) b < gap a b := by
  have hval : i.val ≠ b.val := fun h => hne (Fin.ext h)
  have hi := congrArg Fin.val hnext
  simp only [gap, slot, Fin.ofNat] at *
  constructor
  · rintro rfl
    omega
  · omega

section Steps

variable {Fn Arg World : Type}

def Callbacks.Silent (callbacks : Callbacks Fn Arg World) : Prop :=
  ∀ fn arg dt world, ∃ world', callbacks fn arg dt world = .done world'

def Table.Runnable (s : Table Fn Arg) (i : Fin 16) : Prop :=
  (s.tasks i).state = .ready ∧ (s.tasks i).fn ≠ none

theorem Table.Ok.runnable {s : Table Fn Arg} (h : s.Ok) {i : Fin 16}
    (hready : (s.tasks i).state = .ready) : s.Runnable i := by
  refine ⟨hready, fun hfn => ?_⟩
  rw [(h.tasks i).fn, hready] at hfn
  cases hfn

variable [DecidableEq Fn] [DecidableEq Arg]

section Silent

variable {callbacks : Callbacks Fn Arg World} (hsilent : callbacks.Silent)

include hsilent

theorem runTask_silent {idx : Int} {fn : Fn} {m : Machine Fn Arg World}
    (hfn : (m.table.tasks (slot idx)).fn = some fn) (dt : ℚ) :
    ∃ world, runTask callbacks idx dt m = some ((),
      { table := m.table.set (slot idx)
          { m.table.tasks (slot idx) with stats :=
            { runCount := (m.table.tasks (slot idx)).stats.runCount + 1
              totalTime := (m.table.tasks (slot idx)).stats.totalTime + dt } }
        world := world
        events := .activated idx fn m.table :: m.events }) := by
  obtain ⟨world, hdone⟩ := hsilent fn (m.table.tasks (slot idx)).arg dt m.world
  refine ⟨world, ?_⟩
  rw [runTask, Program.get_bind]
  conv_lhs => simp only [hfn, hdone]
  rfl

/-- `scheduler_run_once` runs nothing, or the first task that is ready. -/
theorem runFirst_cases {m m' : Machine Fn Arg World} {dt : ℚ} {count i : Nat}
    (hrun : runFirst callbacks dt count i m = some ((), m')) :
    m' = m ∨ ∃ k fn world stats, i ≤ k ∧ k < i + count ∧
      m.table.Runnable (slot (wrap (m.table.nextIndex + (k : Nat)))) ∧
      (∀ j : Nat, i ≤ j → j < k →
        ¬ m.table.Runnable (slot (wrap (m.table.nextIndex + j)))) ∧
      m' =
        { table := { m.table.set (slot (wrap (m.table.nextIndex + k)))
              { m.table.tasks (slot (wrap (m.table.nextIndex + k))) with
                stats := stats } with
            nextIndex := wrap (wrap (m.table.nextIndex + k) + 1) }
          world := world
          events :=
            .activated (wrap (m.table.nextIndex + k)) fn m.table :: m.events } := by
  induction count generalizing i with
  | zero =>
      cases hrun
      exact Or.inl rfl
  | succ count ih =>
      rw [runFirst, Program.get_bind]
        at hrun
      split at hrun
      · next hready =>
          obtain ⟨fn, hfn⟩ := Option.ne_none_iff_exists'.mp hready.2
          obtain ⟨world, htask⟩ := runTask_silent hsilent hfn dt
          rw [Program.bind_of_some htask] at hrun
          cases hrun
          exact Or.inr ⟨i, fn, world, _, le_rfl, by omega, hready,
            fun j hj hlt => absurd hlt (by omega), rfl⟩
      · next hready =>
          rcases ih hrun with hnone | ⟨k, fn, world, stats, hik, hk, hrunnable,
            hbefore, heq⟩
          · exact Or.inl hnone
          · refine Or.inr ⟨k, fn, world, stats, by omega, by omega, hrunnable,
              fun j hj hlt => ?_, heq⟩
            by_cases hji : j = i
            · rw [hji]
              exact hready
            · exact hbefore j (by omega) hlt

end Silent

/-- No task like the one to be added is in the table. -/
def Table.New (s : Table Fn Arg) (fn : Option Fn) (arg : Option Arg) : Prop :=
  fn ≠ none ∧ ∀ i, ¬ ((s.tasks i).state ≠ .empty ∧ (s.tasks i).fn = fn ∧
    (s.tasks i).arg = arg)

theorem Table.addTask_cases (s : Table Fn Arg) (fn : Option Fn)
    (arg : Option Arg) :
    (s.addTask fn arg).2 = s ∨ s.New fn arg ∧ ∃ i f, fn = some f ∧ i < 16 ∧
      (s.tasks (slot (wrap (s.nextIndex + (i : Nat))))).state = .empty ∧
      (∀ j : Nat, j < i →
        (s.tasks (slot (wrap (s.nextIndex + j)))).state ≠ .empty) ∧
      (s.addTask fn arg).2 =
        { s.set (slot (wrap (s.nextIndex + i))) (newTask f arg) with
          taskCount := s.taskCount + 1
          nextIndex := wrap (wrap (s.nextIndex + i) + 1) } := by
  cases fn with
  | none => exact Or.inl rfl
  | some f =>
      unfold Table.addTask
      rw [if_neg (by simp)]
      split
      · exact Or.inl rfl
      next hnew =>
      split
      next i hfound =>
        refine Or.inr ⟨⟨by simp, fun j hj => ?_⟩, i, f, rfl, ?_, ?_, ?_, rfl⟩
        · have hnone := List.find?_eq_none.mp hnew j (List.mem_range.mpr j.isLt)
          simp only [slot_natCast j.isLt, decide_eq_true_eq] at hnone
          exact hnone hj
        · exact List.mem_range.mp (List.mem_of_find?_eq_some hfound)
        · simpa using List.find?_some hfound
        · intro j hj
          have hbefore := (List.find?_range_eq_some.mp hfound).2.2 j hj
          simpa using hbefore
      next => exact Or.inl rfl

end Steps

/-! ## Fairness over a run -/

section Rounds

variable {Fn Arg World : Type}

def Event.Activates (b : Fin 16) : Event Fn Arg → Prop
  | activated id _ _ => slot id = b
  | returned .. => False

/-- The task in the slot is ready in all the states that are recorded. -/
def StaysReady (b : Fin 16) (events : List (Event Fn Arg)) : Prop :=
  ∀ e ∈ events, (e.table.tasks b).state = .ready

/--
Between two activations of one task, every other task that is ready all the
time is activated.
-/
def Machine.Fair (m : Machine Fn Arg World) : Prop :=
  ∀ later middle earlier id fn table id' fn' table' b,
    m.events = later ++ .activated id' fn' table' ::
      (middle ++ .activated id fn table :: earlier) →
    slot id' = slot id → b ≠ slot id →
    StaysReady b (.activated id' fn' table' ::
      (middle ++ [.activated id fn table])) →
    ∃ e ∈ middle, e.Activates b

/-- The cursor has not come to `b` yet, going round from the last activation. -/
def Machine.Awaits (m : Machine Fn Arg World) : Prop :=
  ∀ middle earlier id fn table b,
    m.events = middle ++ .activated id fn table :: earlier →
    b ≠ slot id → StaysReady b (middle ++ [.activated id fn table]) →
    (∀ e ∈ middle, ¬ e.Activates b) →
    (m.table.tasks b).state = .ready ∧
      gap (slot m.table.nextIndex) b < gap (slot id) b

structure Machine.InTurn (m : Machine Fn Arg World) : Prop where
  table : m.table.Ok
  fair : m.Fair
  awaits : m.Awaits

/-- A ready task lies between the cursor and the first free slot. -/
def Table.Overtakes (s : Table Fn Arg) : Prop :=
  ∃ b i, (s.tasks b).state = .ready ∧ (s.tasks i).state = .empty ∧
    (∀ j, (s.tasks j).state = .empty →
      gap (slot s.nextIndex) i ≤ gap (slot s.nextIndex) j) ∧
    gap (slot s.nextIndex) b < gap (slot s.nextIndex) i

/-- The operations among which `scheduler_run_once` is fair. -/
def Op.Rotates : Op Fn Arg → Prop
  | runOnce _ | call (.addTask ..) | call (.removeTask _)
  | call (.removeByFn _) => True
  | _ => False

theorem Task.tick_ready {task : Task Fn Arg} (h : task.state = .ready)
    (dt : ℚ) : task.tick dt = task := by
  simp [Task.tick, h]

theorem Machine.init_inTurn (world : World) :
    (⟨Table.init, world, []⟩ : Machine Fn Arg World).InTurn := by
  constructor
  case table => exact Table.init_ok
  case fair =>
    intro later middle earlier id fn table id' fn' table' b hevents
    simp at hevents
  case awaits =>
    intro middle earlier id fn table b hevents
    simp at hevents

theorem Table.removeTask_nextIndex (s : Table Fn Arg) (id : Int) :
    (s.removeTask id).nextIndex = s.nextIndex := by
  unfold Table.removeTask
  split
  · rfl
  split
  · rfl
  · rfl

theorem Table.removeFrom_nextIndex [DecidableEq Fn] (fn : Fn) (count i : Nat)
    (s : Table Fn Arg) : (s.removeFrom fn count i).nextIndex = s.nextIndex := by
  induction count generalizing s i with
  | zero => rfl
  | succ count ih =>
      rw [Table.removeFrom]
      split
      · rw [ih, Table.removeTask_nextIndex]
      · exact ih _ _

/-- Where nothing is overtaken, an addition brings the cursor closer. -/
theorem Table.addTask_gap [DecidableEq Fn] [DecidableEq Arg]
    {s : Table Fn Arg} (hok : s.Ok) {fn : Option Fn} {arg : Option Arg}
    (hpasses : s.New fn arg → ¬ s.Overtakes) {b : Fin 16}
    (hready : (s.tasks b).state = .ready) :
    gap (slot (s.addTask fn arg).2.nextIndex) b ≤ gap (slot s.nextIndex) b := by
  rcases s.addTask_cases fn arg with hsame | ⟨hnew, i, f, -, hi, hfree, hused,
    heq⟩
  · rw [hsame]
  have hnext := hok.next
  have hidx := @wrap_range (s.nextIndex + i) (by omega)
  have hslot : slot (wrap (s.nextIndex + (i : Nat))) = slot (s.nextIndex + i) :=
    slot_wrap (by omega)
  have hgap := gap_slot hnext.1 hi
  rw [heq]
  simp only
  rw [slot_wrap (by omega)]
  have hle : gap (slot s.nextIndex) (slot (wrap (s.nextIndex + (i : Nat)))) ≤
      gap (slot s.nextIndex) b := by
    by_contra hless
    refine hpasses hnew ⟨b, _, hready, hfree, fun j hj => ?_, not_le.mp hless⟩
    by_contra hcloser
    rw [hslot, hgap] at hcloser
    refine hused (gap (slot s.nextIndex) j) (not_le.mp hcloser) ?_
    rw [slot_wrap (by omega), slot_gap hnext.1]
    exact hj
  have hne : (slot (wrap (s.nextIndex + (i : Nat)))).val ≠ b.val := by
    intro hval
    rw [Fin.ext hval, hready] at hfree
    cases hfree
  simp only [gap, slot, Fin.ofNat] at hle hne ⊢
  omega

namespace Machine.InTurn

variable {m : Machine Fn Arg World}

theorem tick (h : m.InTurn) (dt : ℚ) :
    ({ m with table := m.table.tickSleepTimers dt } :
      Machine Fn Arg World).InTurn := by
  constructor
  case table => exact h.table.tickSleepTimers dt
  case fair => exact h.fair
  case awaits =>
    intro middle earlier id fn table b hevents hb hstays hnone
    obtain ⟨hready, hgap⟩ := h.awaits middle earlier id fn table b hevents hb
      hstays hnone
    refine ⟨?_, hgap⟩
    simp only [Table.tickSleepTimers, Task.tick_ready hready, hready]

/-- Until it is its turn, a ready task lies before the one that ran last. -/
theorem activate (h : m.InTurn) {k : Nat} (hk : k < 16)
    (hbefore : ∀ j : Nat, j < k →
      ¬ m.table.Runnable (slot (wrap (m.table.nextIndex + j))))
    (fn : Fn) (world : World) (stats : TaskStats) :
    ({ table := { m.table.set (slot (wrap (m.table.nextIndex + k)))
          { m.table.tasks (slot (wrap (m.table.nextIndex + k))) with
            stats := stats } with
        nextIndex := wrap (wrap (m.table.nextIndex + k) + 1) }
       world := world
       events := .activated (wrap (m.table.nextIndex + k)) fn m.table ::
         m.events } : Machine Fn Arg World).InTurn := by
  have hnext := h.table.next
  have hidx := @wrap_range (m.table.nextIndex + k) (by omega)
  have hcursor : slot (wrap (m.table.nextIndex + (k : Nat))) =
      slot (m.table.nextIndex + k) := slot_wrap (by omega)
  have hgapk := @gap_slot m.table.nextIndex hnext.1 k hk
  -- the slot that runs is the first ready one
  have hfirst : ∀ b, (m.table.tasks b).state = .ready →
      gap (slot m.table.nextIndex) (slot (wrap (m.table.nextIndex + k))) ≤
        gap (slot m.table.nextIndex) b := by
    intro b hready
    by_contra hless
    rw [hcursor, hgapk] at hless
    refine hbefore (gap (slot m.table.nextIndex) b) (by omega) ?_
    rw [slot_wrap (by omega), slot_gap hnext.1]
    exact h.table.runnable hready
  have hstate : ∀ b, ((m.table.set (slot (wrap (m.table.nextIndex + k)))
      { m.table.tasks (slot (wrap (m.table.nextIndex + k))) with
        stats := stats }).tasks b).state = (m.table.tasks b).state := by
    intro b
    by_cases hb : b = slot (wrap (m.table.nextIndex + k))
    · rw [hb, Table.set_self]
    · rw [Table.set_other _ hb]
  constructor
  case table =>
    have htask := h.table.tasks (slot (wrap (m.table.nextIndex + k)))
    have hset : (m.table.set (slot (wrap (m.table.nextIndex + k)))
        { m.table.tasks (slot (wrap (m.table.nextIndex + k))) with
          stats := stats }).Ok :=
      h.table.set ⟨htask.fn, htask.asleep, htask.awake⟩ ⟨rfl, rfl, Iff.rfl⟩
    exact hset.advance (by omega)
  case fair =>
    intro later middle earlier id' fn' table' id'' fn'' table'' b hevents hsame
      hb hstays
    cases later with
    | cons e later =>
        obtain ⟨-, htail⟩ := List.cons.inj hevents
        exact h.fair later middle earlier _ _ _ _ _ _ b htail hsame hb hstays
    | nil =>
        obtain ⟨hhead, htail⟩ := List.cons.inj hevents
        cases hhead
        by_contra hnone
        have hmiddle : ∀ e ∈ middle, ¬ e.Activates b :=
          fun e he hactivates => hnone ⟨e, he, hactivates⟩
        obtain ⟨hready, hgap⟩ := h.awaits middle earlier id' fn' table' b htail
          hb (fun e he => hstays e (List.mem_cons_of_mem _ he)) hmiddle
        exact (gap_next hgap (hfirst b hready) (hsame ▸ hb.symm) rfl
          hidx.1).1 hsame
  case awaits =>
    intro middle earlier id' fn' table' b hevents hb hstays hnone
    rw [hstate, slot_wrap (by omega)]
    cases middle with
    | nil =>
        obtain ⟨hhead, -⟩ := List.cons.inj hevents
        cases hhead
        have hready := hstays _ List.mem_cons_self
        refine ⟨hready, ?_⟩
        have hval : b.val ≠ (slot (wrap (m.table.nextIndex + k))).val :=
          fun heq => hb (Fin.ext heq)
        simp only [gap, slot, Fin.ofNat] at hval ⊢
        omega
    | cons e middle =>
        obtain ⟨rfl, htail⟩ := List.cons.inj hevents
        obtain ⟨hready, hgap⟩ := h.awaits middle earlier id' fn' table' b htail
          hb (fun e he => hstays e (List.mem_cons_of_mem _ he))
          fun e he => hnone e (List.mem_cons_of_mem _ he)
        have hother : slot (wrap (m.table.nextIndex + k)) ≠ b :=
          hnone _ List.mem_cons_self
        exact ⟨hready, (gap_next hgap (hfirst b hready) hother rfl hidx.1).2⟩

variable [DecidableEq Fn] [DecidableEq Arg]

/-- A call that does not take the cursor away from a ready task. -/
theorem call (h : m.InTurn) (c : Call Fn Arg)
    (hcursor : ∀ b, (m.table.tasks b).state = .ready →
      gap (slot (c.run m.table).2.nextIndex) b ≤
        gap (slot m.table.nextIndex) b) :
    ({ m with
      table := (c.run m.table).2
      events := .returned c (c.run m.table).1 (c.run m.table).2 :: m.events } :
      Machine Fn Arg World).InTurn := by
  constructor
  case table => exact h.table.call c
  case fair =>
    intro later middle earlier id fn table id' fn' table' b hevents hsame hb
      hstays
    cases later with
    | nil => cases hevents
    | cons e later =>
        obtain ⟨-, htail⟩ := List.cons.inj hevents
        exact h.fair later middle earlier _ _ _ _ _ _ b htail hsame hb hstays
  case awaits =>
    intro middle earlier id fn table b hevents hb hstays hnone
    cases middle with
    | nil => cases hevents
    | cons e middle =>
        obtain ⟨rfl, htail⟩ := List.cons.inj hevents
        obtain ⟨hready, hgap⟩ := h.awaits middle earlier id fn table b htail hb
          (fun e he => hstays e (List.mem_cons_of_mem _ he))
          fun e he => hnone e (List.mem_cons_of_mem _ he)
        exact ⟨hstays _ List.mem_cons_self,
          lt_of_le_of_lt (hcursor b hready) hgap⟩

section Silent

variable {callbacks : Callbacks Fn Arg World} (hsilent : callbacks.Silent)

include hsilent

theorem op (h : m.InTurn) {op : Op Fn Arg} {m' : Machine Fn Arg World}
    (hrotates : op.Rotates)
    (hpasses : ∀ fn arg, op = .call (.addTask fn arg) →
      m.table.New fn arg → ¬ m.table.Overtakes)
    (hrun : op.run callbacks m = some ((), m')) : m'.InTurn := by
  cases op with
  | call c =>
      obtain ⟨_, middle, hcall, hrest⟩ := Program.exists_of_bind hrun
      cases hcall
      cases hrest
      refine h.call c fun b hready => ?_
      cases c with
      | addTask fn arg =>
          exact Table.addTask_gap h.table (hpasses fn arg rfl) hready
      | removeTask id =>
          exact le_of_eq (by rw [Call.run, Table.removeTask_nextIndex])
      | removeByFn fn =>
          cases fn with
          | none => exact le_rfl
          | some fn =>
              exact le_of_eq (by
                rw [Call.run, Table.removeByFn, Table.removeFrom_nextIndex])
      | setPriority | suspend | resume | sleep => cases hrotates
  | runOnce dt =>
      obtain ⟨_, ticked, htick, hrest⟩ := Program.exists_of_bind hrun
      cases htick
      have hticked := h.tick dt
      rcases runFirst_cases hsilent hrest with hnone | ⟨k, fn, world, stats, -,
        hk, -, hbefore, heq⟩
      · rw [hnone]
        exact hticked
      · rw [heq]
        exact hticked.activate (by omega)
          (fun j hj => hbefore j (Nat.zero_le j) hj) fn world stats
  | runAll dt => cases hrotates

theorem runOps (h : m.InTurn) {ops : List (Op Fn Arg)}
    {m' : Machine Fn Arg World} (hrotates : ∀ op ∈ ops, op.Rotates)
    (hpasses : ∀ past fn arg rest now,
      ops = past ++ .call (.addTask fn arg) :: rest →
      Scheduler.runOps callbacks past m = some ((), now) →
      now.table.New fn arg → ¬ now.table.Overtakes)
    (hrun : Scheduler.runOps callbacks ops m = some ((), m')) : m'.InTurn := by
  induction ops generalizing m with
  | nil =>
      cases hrun
      exact h
  | cons op ops ih =>
      obtain ⟨_, middle, hfirst, hrest⟩ := Program.exists_of_bind hrun
      have hmiddle : middle.InTurn := by
        refine h.op hsilent (hrotates op List.mem_cons_self)
          (fun fn arg heq => ?_) hfirst
        exact hpasses [] fn arg ops m (by rw [heq, List.nil_append]) rfl
      refine ih hmiddle (fun op hop => hrotates op (List.mem_cons_of_mem _ hop))
        (fun past fn arg rest now hops hpast => ?_) hrest
      refine hpasses (op :: past) fn arg rest now
        (by rw [hops, List.cons_append]) ?_
      rw [Scheduler.runOps, Program.bind_of_some hfirst]
      exact hpast

end Silent

end Machine.InTurn

end Rounds

section Guarantee

variable {Fn Arg World : Type} [DecidableEq Fn] [DecidableEq Arg]

/--
Between two runs of a task, every other task that is ready all the time runs,
when no addition takes a free slot behind a ready task, seen from the cursor.
-/
theorem no_starvation {callbacks : Callbacks Fn Arg World}
    (hsilent : callbacks.Silent) (world : World) {ops : List (Op Fn Arg)}
    {m : Machine Fn Arg World} (hrotates : ∀ op ∈ ops, op.Rotates)
    (hpasses : ∀ past fn arg rest now,
      ops = past ++ .call (.addTask fn arg) :: rest →
      runOps callbacks past ⟨Table.init, world, []⟩ = some ((), now) →
      now.table.New fn arg → ¬ now.table.Overtakes)
    (hrun : runOps callbacks ops ⟨Table.init, world, []⟩ = some ((), m)) :
    m.Fair :=
  ((Machine.init_inTurn world).runOps hsilent hrotates hpasses hrun).fair

omit [DecidableEq Fn] [DecidableEq Arg] in
theorem Table.not_overtakes {s : Table Fn Arg}
    (hfree : (s.tasks (slot s.nextIndex)).state = .empty) : ¬ s.Overtakes := by
  rintro ⟨b, i, -, -, hfirst, hbefore⟩
  have hzero : gap (slot s.nextIndex) (slot s.nextIndex) = 0 := by
    simp [gap]
  have hle := hfirst _ hfree
  omega

end Guarantee

theorem two_tasks_take_turns :
    ∃ m, runOps (idleTask : Callbacks Unit Bool Unit)
        [.call (.addTask (some ()) none),
          .call (.addTask (some ()) (some false)),
          .runOnce 1, .runOnce 1, .runOnce 1]
        ⟨Table.init, (), []⟩ = some ((), m) ∧ m.Fair := by
  obtain ⟨_, m, hrun, -⟩ := keeps_runOps (idleTask : Callbacks Unit Bool Unit)
    [.call (.addTask (some ()) none), .call (.addTask (some ()) (some false)),
      .runOnce 1, .runOnce 1, .runOnce 1] ⟨Table.init, (), []⟩
    ⟨Table.init_ok, by simp⟩
  refine ⟨m, hrun, no_starvation (fun _ _ _ world => ⟨world, rfl⟩) ()
    (by simp [Op.Rotates]) (fun past fn arg rest now hops hpast _ => ?_) hrun⟩
  -- both additions find the slot at the cursor free
  apply Table.not_overtakes
  match past with
  | [] =>
      cases hpast
      rfl
  | [op] =>
      simp only [List.cons_append, List.nil_append, List.cons.injEq] at hops
      obtain ⟨rfl, -⟩ := hops
      cases hpast
      rfl
  | _ :: _ :: past =>
      have hlater := congrArg (List.drop 2) hops
      have hadd : Op.call (.addTask fn arg) ∈
          [Op.runOnce (1 : ℚ), .runOnce 1, .runOnce 1] := by
        simp only [List.drop_succ_cons, List.drop_zero, List.cons_append]
          at hlater
        rw [hlater]
        simp
      simp at hadd

/-- The third task takes a slot behind the second, which is then passed over. -/
theorem second_task_passed_over :
    ∃ m, runOps (idleTask : Callbacks Unit Bool Unit)
        [.call (.addTask (some ()) none),
          .call (.addTask (some ()) (some false)), .runOnce 1,
          .call (.addTask (some ()) (some true)), .runOnce 1]
        ⟨Table.init, (), []⟩ = some ((), m) ∧ ¬ m.Fair := by
  let one : Table Unit Bool := { Table.init.set 0 (newTask () none) with
    taskCount := 1
    nextIndex := 1 }
  let two : Table Unit Bool := { one.set 1 (newTask () (some false)) with
    taskCount := 2
    nextIndex := 2 }
  let ran : Table Unit Bool :=
    { two.set 0 { newTask () none with stats := ⟨1, 0 + 1⟩ } with nextIndex := 1 }
  let three : Table Unit Bool := { ran.set 2 (newTask () (some true)) with
    taskCount := 3
    nextIndex := 3 }
  have hone : (Call.addTask (some ()) none).run Table.init = (0, one) := rfl
  have htwo : (Call.addTask (some ()) (some false)).run one = (1, two) := rfl
  have hthree : (Call.addTask (some ()) (some true)).run ran = (2, three) := rfl
  have hfirst : ∀ events, runFirst (idleTask : Callbacks Unit Bool Unit) 1 16 0
      ⟨two, (), events⟩ = some ((), ⟨ran, (), .activated 0 () two :: events⟩) :=
    fun _ => rfl
  have hagain : ∀ events, ∃ m, runFirst (idleTask : Callbacks Unit Bool Unit)
      1 16 0 ⟨three, (), events⟩ = some ((), m) ∧
      m.events = .activated 0 () three :: events := fun _ => ⟨_, rfl, rfl⟩
  let added : List (Event Unit Bool) :=
    [.returned (.addTask (some ()) (some false)) 1 two,
      .returned (.addTask (some ()) none) 0 one]
  have htick := Table.tickSleepTimers_awake (s := two) (by decide) 1
  have htick' := Table.tickSleepTimers_awake (s := three) (by decide) 1
  obtain ⟨m, hlast, hevents⟩ := hagain
    (.returned (.addTask (some ()) (some true)) 2 three ::
      .activated 0 () two :: added)
  refine ⟨m, ?_, fun hfair => ?_⟩
  · rw [runOps_cons (run_call hone), runOps_cons (run_call htwo),
      runOps_cons ((run_runOnce htick).trans (hfirst added)),
      runOps_cons (run_call hthree),
      runOps_cons ((run_runOnce htick').trans hlast)]
    rfl
  · obtain ⟨e, he, hactivates⟩ := hfair []
      [.returned (.addTask (some ()) (some true)) 2 three] added 0 () two 0 ()
      three 1 hevents rfl (by decide) (by
        intro e he
        simp only [List.cons_append, List.nil_append, List.mem_cons,
          List.not_mem_nil, or_false] at he
        rcases he with rfl | rfl | rfl
        · rfl
        · rfl
        · rfl)
    rw [List.mem_singleton.mp he] at hactivates
    exact hactivates

end EntropyOS.Scheduler
