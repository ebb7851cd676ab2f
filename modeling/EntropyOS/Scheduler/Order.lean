import EntropyOS.Scheduler.Fairness

/-!
# One round of all tasks

When the tasks leave the scheduler alone, `scheduler_run_all` changes nothing
but statistics, so each band can be read off the table at entry.  The bands
follow one another in descending priority, and within a band the slots come in
the order of their distance from the cursor.
-/

namespace EntropyOS.Scheduler

open EntropyOS.Foundation

section Rounds

variable {Fn Arg World : Type}

def Task.count (n : Nat) (dt : ℚ) (task : Task Fn Arg) : Task Fn Arg :=
  { task with stats :=
    { runCount := task.stats.runCount + UInt64.ofNat n
      totalTime := task.stats.totalTime + n * dt } }

@[simp] theorem Task.count_state (n : Nat) (dt : ℚ) (task : Task Fn Arg) :
    (task.count n dt).state = task.state := rfl

@[simp] theorem Task.count_fn (n : Nat) (dt : ℚ) (task : Task Fn Arg) :
    (task.count n dt).fn = task.fn := rfl

@[simp] theorem Task.count_prio (n : Nat) (dt : ℚ) (task : Task Fn Arg) :
    (task.count n dt).prio = task.prio := rfl

@[simp] theorem Task.count_zero (dt : ℚ) (task : Task Fn Arg) :
    task.count 0 dt = task := by
  simp [Task.count]

theorem Task.count_count (k n : Nat) (dt : ℚ) (task : Task Fn Arg) :
    (task.count k dt).count n dt = task.count (k + n) dt := by
  simp only [Task.count, Task.mk.injEq, TaskStats.mk.injEq, true_and, and_true]
  constructor
  · rw [UInt64.ofNat_add, UInt64.add_assoc]
  · push_cast
    ring

def Event.slot? : Event Fn Arg → Option (Fin 16)
  | activated id _ _ => some (slot id)
  | returned .. => none

def activations (events : List (Event Fn Arg)) : List (Fin 16) :=
  events.reverse.filterMap Event.slot?

theorem activations_append (later earlier : List (Event Fn Arg)) :
    activations (later ++ earlier) =
      activations earlier ++ activations later := by
  simp [activations]

/-- The slots that the inner loop finds in a band, from `i` on. -/
def Table.band (s : Table Fn Arg) (prio : Priority) (count i : Nat) :
    List (Fin 16) :=
  ((List.range' i count).map fun k : Nat => slot (s.nextIndex + k)).filter
    fun j => (s.tasks j).state = .ready ∧ (s.tasks j).prio = prio

/-- All that becomes of a machine when these slots run, one after the other. -/
structure Machine.Ran (dt : ℚ) (ran : List (Fin 16))
    (m m' : Machine Fn Arg World) : Prop where
  events : ∃ new, m'.events = new ++ m.events ∧ activations new = ran
  tasks : ∀ i, m'.table.tasks i = (m.table.tasks i).count (ran.count i) dt
  nextIndex : m'.table.nextIndex = m.table.nextIndex

namespace Machine.Ran

variable {dt : ℚ} {ran ran' : List (Fin 16)} {m m' m'' : Machine Fn Arg World}

theorem refl (dt : ℚ) (m : Machine Fn Arg World) : Ran dt [] m m :=
  ⟨⟨[], rfl, rfl⟩, by simp, rfl⟩

theorem trans (h : Ran dt ran m m') (h' : Ran dt ran' m' m'') :
    Ran dt (ran ++ ran') m m'' := by
  constructor
  case events =>
    obtain ⟨new, hevents, hran⟩ := h.events
    obtain ⟨new', hevents', hran'⟩ := h'.events
    refine ⟨new' ++ new, ?_, ?_⟩
    · rw [hevents', hevents, List.append_assoc]
    · rw [activations_append, hran, hran']
  case tasks =>
    intro i
    rw [h'.tasks, h.tasks, Task.count_count, List.count_append]
  case nextIndex => rw [h'.nextIndex, h.nextIndex]

theorem band (h : Ran dt ran m m') (prio : Priority) (count i : Nat) :
    m'.table.band prio count i = m.table.band prio count i := by
  simp only [Table.band, h.nextIndex, h.tasks, Task.count_state, Task.count_prio]

end Machine.Ran

theorem Table.mem_band {s : Table Fn Arg} (hnext : 0 ≤ s.nextIndex)
    {prio : Priority} {i : Fin 16} :
    i ∈ s.band prio 16 0 ↔
      (s.tasks i).state = .ready ∧ (s.tasks i).prio = prio := by
  have hmet : ∃ k : Nat, k < 16 ∧ slot (s.nextIndex + k) = i :=
    ⟨_, gap_lt _ i, slot_gap hnext i⟩
  simp [Table.band, hmet]

theorem Table.band_sorted {s : Table Fn Arg} (hnext : 0 ≤ s.nextIndex)
    (prio : Priority) :
    (s.band prio 16 0).Pairwise fun i j =>
      gap (slot s.nextIndex) i < gap (slot s.nextIndex) j := by
  apply List.Pairwise.filter
  rw [List.pairwise_map]
  refine List.Pairwise.imp_of_mem ?_ (@List.pairwise_lt_range' 0 16 1 (by decide))
  intro k n hk hn hless
  rw [List.mem_range'_1] at hk hn
  rw [gap_slot hnext (by omega), gap_slot hnext (by omega)]
  exact hless

/-- A band comes before another one, and a slot before those further away. -/
def Table.Before (s : Table Fn Arg) (i j : Fin 16) : Prop :=
  (s.tasks j).prio < (s.tasks i).prio ∨
    (s.tasks i).prio = (s.tasks j).prio ∧
      gap (slot s.nextIndex) i < gap (slot s.nextIndex) j

def Table.round (s : Table Fn Arg) : List (Fin 16) :=
  s.band prioCritical 16 0 ++ (s.band prioHigh 16 0 ++
    (s.band prioNormal 16 0 ++ s.band prioLow 16 0))

theorem Table.mem_round {s : Table Fn Arg} (hnext : 0 ≤ s.nextIndex)
    {i : Fin 16} : i ∈ s.round ↔
      (s.tasks i).state = .ready ∧ (s.tasks i).prio ≤ prioCritical := by
  have hband : (s.tasks i).prio ≤ prioCritical ↔
      (s.tasks i).prio = prioCritical ∨ (s.tasks i).prio = prioHigh ∨
        (s.tasks i).prio = prioNormal ∨ (s.tasks i).prio = prioLow := by
    simp only [UInt32.le_iff_toNat_le, ← UInt32.toNat_inj, prioCritical,
      prioHigh, prioNormal, prioLow, UInt32.reduceToNat]
    omega
  simp only [Table.round, List.mem_append, Table.mem_band hnext, hband,
    and_or_left]

theorem Table.round_sorted {s : Table Fn Arg} (hnext : 0 ≤ s.nextIndex) :
    s.round.Pairwise s.Before := by
  have hband : ∀ prio, (s.band prio 16 0).Pairwise s.Before := by
    intro prio
    refine List.Pairwise.imp_of_mem ?_ (s.band_sorted hnext prio)
    intro i j hi hj hless
    have hi := ((Table.mem_band hnext).mp hi).2
    have hj := ((Table.mem_band hnext).mp hj).2
    exact Or.inr ⟨hi.trans hj.symm, hless⟩
  have hlater : ∀ prio i j, i ∈ s.band prio 16 0 → (s.tasks j).prio < prio →
      s.Before i j := by
    intro prio i j hi hless
    rw [← ((Table.mem_band hnext).mp hi).2] at hless
    exact Or.inl hless
  simp only [Table.round, List.pairwise_append, List.mem_append]
  refine ⟨hband _, ⟨hband _, ⟨hband _, hband _, ?_⟩, ?_⟩, ?_⟩
  · intro i hi j hj
    exact hlater _ i j hi (by rw [((Table.mem_band hnext).mp hj).2]; decide)
  · rintro i hi j (hj | hj)
    · exact hlater _ i j hi (by rw [((Table.mem_band hnext).mp hj).2]; decide)
    · exact hlater _ i j hi (by rw [((Table.mem_band hnext).mp hj).2]; decide)
  · rintro i hi j (hj | hj | hj)
    · exact hlater _ i j hi (by rw [((Table.mem_band hnext).mp hj).2]; decide)
    · exact hlater _ i j hi (by rw [((Table.mem_band hnext).mp hj).2]; decide)
    · exact hlater _ i j hi (by rw [((Table.mem_band hnext).mp hj).2]; decide)

end Rounds

section Runs

variable {Fn Arg World : Type} [DecidableEq Fn] [DecidableEq Arg]
  {callbacks : Callbacks Fn Arg World}

theorem runTask_ran (hsilent : callbacks.Silent) {idx : Int} {fn : Fn}
    {m m' : Machine Fn Arg World} {dt : ℚ}
    (hfn : (m.table.tasks (slot idx)).fn = some fn)
    (hrun : runTask callbacks idx dt m = some ((), m')) :
    m.Ran dt [slot idx] m' := by
  obtain ⟨world, htask⟩ := runTask_silent hsilent hfn dt
  rw [htask] at hrun
  cases hrun
  constructor
  case events => exact ⟨[.activated idx fn m.table], rfl, rfl⟩
  case tasks =>
    intro i
    by_cases hi : i = slot idx
    · subst hi
      rw [Table.set_self, List.count_singleton_self, Task.count]
      simp
    · rw [Table.set_other _ hi, List.count_singleton, if_neg (by simp [Ne.symm hi]),
        Task.count_zero]
  case nextIndex => rfl

theorem runBand_ran (hsilent : callbacks.Silent) {prio : Priority} {dt : ℚ}
    {count i : Nat} {m m' : Machine Fn Arg World} (hm : m.Ok)
    (hrun : runBand callbacks prio dt count i m = some ((), m')) :
    m.Ran dt (m.table.band prio count i) m' := by
  induction count generalizing m i with
  | zero =>
      cases hrun
      exact Machine.Ran.refl dt _
  | succ count ih =>
      have hnext := hm.table.next
      rw [runBand, Program.get_bind]
        at hrun
      have hslot : slot (wrap (m.table.nextIndex + (i : Nat))) =
          slot (m.table.nextIndex + i) := slot_wrap (by omega)
      have hband : m.table.band prio (count + 1) i =
          (if (m.table.tasks (slot (m.table.nextIndex + i))).state = .ready ∧
              (m.table.tasks (slot (m.table.nextIndex + i))).prio = prio then
            [slot (m.table.nextIndex + i)] else []) ++
            m.table.band prio count (i + 1) := by
        rw [Table.band, List.range'_succ, List.map_cons, List.filter_cons]
        simp only [decide_eq_true_eq]
        split
        · rfl
        · rfl
      rw [hband]
      simp only [hslot] at hrun
      split at hrun
      · next hready =>
          obtain ⟨_, middle, hfirst, hrest⟩ := Program.exists_of_bind hrun
          obtain ⟨fn, hfn⟩ := Option.ne_none_iff_exists'.mp hready.2.1
          rw [← hslot] at hfn
          have hran := runTask_ran hsilent hfn hfirst
          obtain ⟨_, hkeeps, hmiddle⟩ := exists_runTask callbacks hm (by
            rw [hfn]
            simp) dt
          rw [hfirst] at hkeeps
          cases hkeeps
          rw [if_pos ⟨hready.1, hready.2.2⟩, ← hran.band, ← hslot]
          exact hran.trans (ih hmiddle hrest)
      · next hready =>
          rw [if_neg, List.nil_append]
          · exact ih hm hrun
          · rintro ⟨hstate, hprio⟩
            exact hready ⟨hstate, (hm.table.runnable hstate).2, hprio⟩

omit [DecidableEq Fn] [DecidableEq Arg] in
theorem Task.tick_kept (dt : ℚ) (task : Task Fn Arg) :
    (task.tick dt).prio = task.prio ∧ (task.tick dt).stats = task.stats := by
  unfold Task.tick
  split_ifs
  · simp
  · simp
  · simp

/-- What is left of `scheduler_run_all` after the timers. -/
theorem runAll_ran (hsilent : callbacks.Silent) {dt : ℚ}
    {m m' : Machine Fn Arg World} (hm : m.Ok)
    (hrun : runAll callbacks dt m = some ((), m')) :
    ∃ last, Machine.Ran dt (m.table.tickSleepTimers dt).round
        { m with table := m.table.tickSleepTimers dt } last ∧
      m' = { last with table :=
        { last.table with nextIndex := wrap (last.table.nextIndex + 1) } } := by
  obtain ⟨_, ticked, htick, hrest⟩ := Program.exists_of_bind hrun
  cases htick
  have hticked : ({ m with table := m.table.tickSleepTimers dt } :
      Machine Fn Arg World).Ok :=
    ⟨hm.table.tickSleepTimers dt, hm.events⟩
  obtain ⟨_, first, hcritical, hrest⟩ := Program.exists_of_bind hrest
  have hfirst := (keeps_runBand callbacks _ dt 16 0).ok hticked hcritical
  have hran := runBand_ran hsilent hticked hcritical
  obtain ⟨_, second, hhigh, hrest⟩ := Program.exists_of_bind hrest
  have hsecond := (keeps_runBand callbacks _ dt 16 0).ok hfirst hhigh
  have hran' := runBand_ran hsilent hfirst hhigh
  obtain ⟨_, third, hnormal, hrest⟩ := Program.exists_of_bind hrest
  have hthird := (keeps_runBand callbacks _ dt 16 0).ok hsecond hnormal
  have hran'' := runBand_ran hsilent hsecond hnormal
  obtain ⟨_, last, hlow, hrest⟩ := Program.exists_of_bind hrest
  have hran''' := runBand_ran hsilent hthird hlow
  cases hrest
  rw [hran''.band, hran'.band, hran.band] at hran'''
  rw [hran'.band, hran.band] at hran''
  rw [hran.band] at hran'
  exact ⟨last, hran.trans (hran'.trans (hran''.trans hran''')), rfl⟩

/--
When the tasks leave the scheduler alone, `scheduler_run_all` runs the slots
that are ready after the timers tick, in descending priority and then in the
order of their distance from the cursor.  It counts these runs, changes no
other statistics, and moves the cursor on by one.
-/
theorem execution_order {past : Callbacks Fn Arg World}
    (hsilent : callbacks.Silent) (world : World) {ops : List (Op Fn Arg)}
    {m : Machine Fn Arg World}
    (hpast : runOps past ops ⟨Table.init, world, []⟩ = some ((), m))
    (hprio : ∀ i, (m.table.tasks i).prio ≤ prioCritical) (dt : ℚ) :
    ∃ m' new, runAll callbacks dt m = some ((), m') ∧
      m'.events = new ++ m.events ∧
      (∀ i, i ∈ activations new ↔
        ((m.table.tickSleepTimers dt).tasks i).state = .ready) ∧
      (activations new).Pairwise m.table.Before ∧
      (∀ i, i ∈ activations new → (m'.table.tasks i).stats =
        { runCount := (m.table.tasks i).stats.runCount + 1
          totalTime := (m.table.tasks i).stats.totalTime + dt }) ∧
      (∀ i, i ∉ activations new →
        (m'.table.tasks i).stats = (m.table.tasks i).stats) ∧
      m'.table.nextIndex = (m.table.nextIndex + 1) % 16 := by
  have hm := (keeps_runOps past ops).ok ⟨Table.init_ok, by simp⟩ hpast
  obtain ⟨_, m', hrun, -⟩ := keeps_op callbacks (.runAll dt) m hm
  obtain ⟨last, hran, rfl⟩ := runAll_ran hsilent hm hrun
  obtain ⟨new, hevents, hnew⟩ := hran.events
  have hnext : 0 ≤ (m.table.tickSleepTimers dt).nextIndex := hm.table.next.1
  have hsorted : (m.table.tickSleepTimers dt).round.Pairwise m.table.Before := by
    refine (Table.round_sorted hnext).imp ?_
    intro i j hbefore
    simp only [Table.Before, Table.tickSleepTimers, Task.tick_kept] at hbefore
    exact hbefore
  have hnodup : (m.table.tickSleepTimers dt).round.Nodup := by
    refine hsorted.imp ?_
    rintro i _ hbefore rfl
    rcases hbefore with hless | ⟨-, hless⟩
    · exact UInt32.lt_irrefl _ hless
    · exact lt_irrefl _ hless
  refine ⟨_, new, hrun, hevents, ?_⟩
  rw [hnew]
  refine ⟨fun i => ?_, hsorted, fun i hi => ?_, fun i hi => ?_, ?_⟩
  · rw [Table.mem_round hnext]
    simp only [and_iff_left_iff_imp]
    intro _
    rw [Table.tickSleepTimers, (Task.tick_kept dt _).1]
    exact hprio i
  · rw [hran.tasks, List.count_eq_one_of_mem hnodup hi, Task.count]
    simp [Table.tickSleepTimers, Task.tick_kept]
  · rw [hran.tasks, List.count_eq_zero_of_not_mem hi, Task.count_zero]
    exact (Task.tick_kept dt _).2
  · simp only [hran.nextIndex]
    exact Int.tmod_eq_emod_of_nonneg (Int.add_nonneg hnext (by decide))

end Runs

/-- The second task has the higher priority, and runs first. -/
theorem second_task_first :
    ∃ m m' new, runOps (idleTask : Callbacks Unit Bool Unit)
        [.call (.addTask (some ()) none),
          .call (.addTask (some ()) (some false)),
          .call (.setPriority 1 prioHigh)]
        ⟨Table.init, (), []⟩ = some ((), m) ∧
      runAll idleTask 1 m = some ((), m') ∧ m'.events = new ++ m.events ∧
      0 ∈ activations new ∧ 1 ∈ activations new ∧ m.table.Before 1 0 ∧
      (activations new).Pairwise m.table.Before := by
  let one : Table Unit Bool := { Table.init.set 0 (newTask () none) with
    taskCount := 1
    nextIndex := 1 }
  let two : Table Unit Bool := { one.set 1 (newTask () (some false)) with
    taskCount := 2
    nextIndex := 2 }
  let raised : Table Unit Bool := two.set 1
    { newTask () (some false) with prio := prioHigh }
  have hone : (Call.addTask (some ()) none).run Table.init = (0, one) := rfl
  have htwo : (Call.addTask (some ()) (some false)).run one = (1, two) := rfl
  have hraised : (Call.setPriority 1 prioHigh).run two = (0, raised) := rfl
  let m : Machine Unit Bool Unit := ⟨raised, (),
    [.returned (.setPriority 1 prioHigh) 0 raised,
      .returned (.addTask (some ()) (some false)) 1 two,
      .returned (.addTask (some ()) none) 0 one]⟩
  have hpast : runOps (idleTask : Callbacks Unit Bool Unit)
      [.call (.addTask (some ()) none),
        .call (.addTask (some ()) (some false)),
        .call (.setPriority 1 prioHigh)]
      ⟨Table.init, (), []⟩ = some ((), m) := by
    rw [runOps_cons (run_call hone), runOps_cons (run_call htwo),
      runOps_cons (run_call hraised)]
    rfl
  obtain ⟨m', new, hrun, hevents, hready, hsorted, -⟩ := execution_order
    (fun _ _ _ world => ⟨world, rfl⟩) () hpast (by decide) 1
  have htick : m.table.tickSleepTimers 1 = raised :=
    Table.tickSleepTimers_awake (by decide) 1
  rw [htick] at hready
  exact ⟨m, m', new, hpast, hrun, hevents, (hready 0).mpr rfl,
    (hready 1).mpr rfl, by unfold Table.Before; decide, hsorted⟩

end EntropyOS.Scheduler
