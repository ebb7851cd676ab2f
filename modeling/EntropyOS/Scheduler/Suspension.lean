import EntropyOS.Scheduler.Invariant

/-!
# Suspended tasks

`scheduler_suspend` takes effect on a task that is ready, and the timer of a
task that is asleep goes on.  A task that did get suspended stays so until one
of the calls is made that give it another state.
-/

namespace EntropyOS.Scheduler

open EntropyOS.Foundation

section Runs

variable {Fn Arg World : Type} [DecidableEq Fn] [DecidableEq Arg]

/-- A property of machines that none of the steps of a run can end. -/
structure Preserved (P : Machine Fn Arg World → Prop) : Prop where
  tick : ∀ m dt, P m → P { m with table := m.table.tickSleepTimers dt }
  activate : ∀ m idx fn, P m → (m.table.tasks (slot idx)).state = .ready →
    P { m with events := .activated idx fn m.table :: m.events }
  call : ∀ m c, P m →
    P { m with
      table := (c.run m.table).2
      events := .returned c (c.run m.table).1 (c.run m.table).2 :: m.events }
  world : ∀ m world, P m → P { m with world := world }
  stats : ∀ m i stats, P m → P { m with
    table := m.table.set i { m.table.tasks i with stats := stats } }
  cursor : ∀ m next, P m →
    P { m with table := { m.table with nextIndex := next } }

namespace Preserved

variable {P : Machine Fn Arg World → Prop} (h : Preserved P)

include h

theorem runScript (script : Script Fn Arg World) {m m' : Machine Fn Arg World}
    (hm : P m) (hrun : Scheduler.runScript script m = some ((), m')) : P m' := by
  induction script generalizing m with
  | done world =>
      cases hrun
      exact h.world m world hm
  | call c next ih =>
      obtain ⟨result, middle, hcall, hrest⟩ := Program.exists_of_bind hrun
      cases hcall
      exact ih _ (h.call m c hm) hrest

variable (callbacks : Callbacks Fn Arg World)

theorem runTask {idx : Int} {dt : ℚ} {m m' : Machine Fn Arg World} (hm : P m)
    (hready : (m.table.tasks (slot idx)).state = .ready)
    (hrun : Scheduler.runTask callbacks idx dt m = some ((), m')) : P m' := by
  rw [Scheduler.runTask, Program.get_bind]
    at hrun
  cases hfn : (m.table.tasks (slot idx)).fn with
  | none =>
      simp only [hfn] at hrun
      cases hrun
  | some fn =>
      simp only [hfn] at hrun
      obtain ⟨_, activated, hset, hrest⟩ := Program.exists_of_bind hrun
      cases hset
      obtain ⟨_, middle, hscript, hstats⟩ := Program.exists_of_bind hrest
      cases hstats
      have hmiddle := h.runScript _ (h.activate m idx fn hm hready) hscript
      exact h.stats middle _ _ hmiddle

theorem runBand {prio : Priority} {dt : ℚ} {count i : Nat}
    {m m' : Machine Fn Arg World} (hm : P m)
    (hrun : Scheduler.runBand callbacks prio dt count i m = some ((), m')) :
    P m' := by
  induction count generalizing i m with
  | zero =>
      cases hrun
      exact hm
  | succ count ih =>
      rw [Scheduler.runBand, Program.get_bind]
        at hrun
      simp only at hrun
      split at hrun
      · next hready =>
          obtain ⟨_, middle, hfirst, hrest⟩ := Program.exists_of_bind hrun
          exact ih (h.runTask callbacks hm hready.1 hfirst) hrest
      · exact ih hm hrun

theorem runFirst {dt : ℚ} {count i : Nat} {m m' : Machine Fn Arg World}
    (hm : P m)
    (hrun : Scheduler.runFirst callbacks dt count i m = some ((), m')) :
    P m' := by
  induction count generalizing i with
  | zero =>
      cases hrun
      exact hm
  | succ count ih =>
      rw [Scheduler.runFirst, Program.get_bind]
        at hrun
      split at hrun
      · next hready =>
          obtain ⟨_, middle, hfirst, hrest⟩ := Program.exists_of_bind hrun
          cases hrest
          exact h.cursor middle _ (h.runTask callbacks hm hready.1 hfirst)
      · exact ih hrun

theorem op {op : Op Fn Arg} {m m' : Machine Fn Arg World} (hm : P m)
    (hrun : op.run callbacks m = some ((), m')) : P m' := by
  cases op with
  | call c =>
      obtain ⟨_, middle, hcall, hrest⟩ := Program.exists_of_bind hrun
      cases hcall
      cases hrest
      exact h.call m c hm
  | runOnce dt =>
      obtain ⟨_, ticked, htick, hrest⟩ := Program.exists_of_bind hrun
      cases htick
      exact h.runFirst callbacks (h.tick m dt hm) hrest
  | runAll dt =>
      obtain ⟨_, ticked, htick, hrest⟩ := Program.exists_of_bind hrun
      cases htick
      obtain ⟨_, critical, hcritical, hrest⟩ := Program.exists_of_bind hrest
      obtain ⟨_, high, hhigh, hrest⟩ := Program.exists_of_bind hrest
      obtain ⟨_, normal, hnormal, hrest⟩ := Program.exists_of_bind hrest
      obtain ⟨_, low, hlow, hrest⟩ := Program.exists_of_bind hrest
      cases hrest
      have hcritical' := h.runBand callbacks (h.tick m dt hm) hcritical
      have hhigh' := h.runBand callbacks hcritical' hhigh
      have hnormal' := h.runBand callbacks hhigh' hnormal
      exact h.cursor low _ (h.runBand callbacks hnormal' hlow)

theorem runOps {ops : List (Op Fn Arg)} {m m' : Machine Fn Arg World}
    (hm : P m) (hrun : Scheduler.runOps callbacks ops m = some ((), m')) :
    P m' := by
  induction ops generalizing m with
  | nil =>
      cases hrun
      exact hm
  | cons op ops ih =>
      obtain ⟨_, middle, hfirst, hrest⟩ := Program.exists_of_bind hrun
      exact ih (h.op callbacks hm hfirst) hrest

end Preserved

end Runs

/-! ## What a suspended task waits for -/

section Waiting

variable {Fn Arg World : Type}

/-- The calls that resume the task with this id and function, or remove it. -/
def Call.Releases (id : Int) (fn : Option Fn) : Call Fn Arg → Prop
  | resume other => other = id
  | removeTask other => other = id
  | removeByFn other => other = fn
  | _ => False

def Call.SetsTimer (id : Int) : Call Fn Arg → Prop
  | sleep other seconds => other = id ∧ 0 < seconds
  | _ => False

/-- The slot holds a task with this function, which is suspended. -/
structure Table.Waits (s : Table Fn Arg) (id : Int) (fn : Option Fn) : Prop where
  valid : idValid id
  state : (s.tasks (slot id)).state = .suspended
  fn : (s.tasks (slot id)).fn = fn

theorem slot_injective {id other : Int} (h : idValid id) (h' : idValid other)
    (heq : slot other = slot id) : other = id := by
  have hval := congrArg Fin.val heq
  simp only [slot, Fin.ofNat] at hval
  simp only [idValid] at h h'
  omega

namespace Table.Waits

variable {s : Table Fn Arg} {id : Int} {fn : Option Fn}

theorem set (h : s.Waits id fn) {i : Fin 16} (task : Task Fn Arg)
    (hi : i ≠ slot id) : (s.set i task).Waits id fn :=
  ⟨h.valid, by rw [Table.set_other task hi.symm, h.state],
    by rw [Table.set_other task hi.symm, h.fn]⟩

theorem other_slot (h : s.Waits id fn) {other : Int} (hvalid : idValid other)
    (hother : other ≠ id) : slot other ≠ slot id :=
  fun heq => hother (slot_injective h.valid hvalid heq)

theorem tick (h : s.Waits id fn) (dt : ℚ) :
    (s.tickSleepTimers dt).Waits id fn := by
  have hsame : (s.tickSleepTimers dt).tasks (slot id) = s.tasks (slot id) := by
    simp [Table.tickSleepTimers, Task.tick, h.state]
  exact ⟨h.valid, by rw [hsame, h.state], by rw [hsame, h.fn]⟩

private theorem guard (h : s.Waits id fn) {s' : Table Fn Arg} {other : Int}
    (hvalid : idValid other → s'.Waits id fn) :
    (if ¬ idValid other then s else s').Waits id fn := by
  split
  · exact h
  · next hother => exact hvalid (not_not.mp hother)

theorem removeTask (h : s.Waits id fn) {other : Int} (hother : other ≠ id) :
    (s.removeTask other).Waits id fn := by
  refine h.guard fun hvalid => ?_
  split
  · exact h
  · have hset := h.set { s.tasks (slot other) with
      fn := none
      arg := none
      state := .empty
      prio := prioNormal
      sleepRemaining := 0
      name := [] } (h.other_slot hvalid hother)
    exact ⟨hset.valid, hset.state, hset.fn⟩

theorem setPriority (h : s.Waits id fn) (other : Int) (prio : Priority) :
    (s.setPriority other prio).Waits id fn := by
  refine h.guard fun _ => ?_
  split
  · exact h
  · by_cases hslot : slot other = slot id
    · rw [hslot]
      exact ⟨h.valid, by simpa [Table.set_self] using h.state,
        by simpa [Table.set_self] using h.fn⟩
    · exact h.set _ hslot

theorem suspend (h : s.Waits id fn) (other : Int) :
    (s.suspend other).Waits id fn := by
  refine h.guard fun _ => ?_
  split
  · next hready =>
      refine h.set _ fun hslot => ?_
      rw [hslot, h.state] at hready
      cases hready
  · exact h

theorem resume (h : s.Waits id fn) {other : Int} (hother : other ≠ id) :
    (s.resume other).Waits id fn := by
  refine h.guard fun hvalid => ?_
  split
  · exact h.set _ (h.other_slot hvalid hother)
  · exact h

theorem sleep (h : s.Waits id fn) {other : Int} {seconds : ℚ}
    (hother : ¬ (other = id ∧ 0 < seconds)) :
    (s.sleep other seconds).Waits id fn := by
  refine h.guard fun hvalid => ?_
  split
  · exact h
  · split
    · exact h
    · next hlong =>
        exact h.set _ (h.other_slot hvalid fun heq =>
          hother ⟨heq, not_le.mp hlong⟩)

variable [DecidableEq Fn]

theorem removeFrom (h : s.Waits id fn) {other : Fn} (hother : some other ≠ fn)
    (count i : Nat) (hcount : i + count ≤ 16) :
    (s.removeFrom other count i).Waits id fn := by
  induction count generalizing s i with
  | zero => exact h
  | succ count ih =>
      rw [Table.removeFrom]
      split
      · next hfound =>
          refine ih (h.removeTask fun heq => ?_) (i + 1) (by omega)
          rw [heq, h.fn] at hfound
          exact hother hfound.2.symm
      · exact ih h (i + 1) (by omega)

variable [DecidableEq Arg]

theorem addTask (h : s.Waits id fn) (new : Option Fn) (arg : Option Arg) :
    (s.addTask new arg).2.Waits id fn := by
  unfold Table.addTask
  split
  · exact h
  split
  · exact h
  split
  · next i hfound =>
      have hfree := List.find?_some hfound
      simp only [decide_eq_true_eq] at hfree
      have hslot : slot (wrap (s.nextIndex + i)) ≠ slot id := by
        intro heq
        rw [heq, h.state] at hfree
        cases hfree
      have hset := h.set
        { fn := new
          arg := arg
          state := .ready
          prio := prioNormal
          sleepRemaining := 0
          stats := ⟨0, 0⟩
          name := schedStrncpy unnamed nameMax } hslot
      exact ⟨hset.valid, hset.state, hset.fn⟩
  · exact h

theorem call (h : s.Waits id fn) {c : Call Fn Arg}
    (hreleases : ¬ c.Releases id fn) (htimer : ¬ c.SetsTimer id) :
    (c.run s).2.Waits id fn := by
  cases c with
  | addTask new arg => exact h.addTask new arg
  | removeTask other => exact h.removeTask hreleases
  | removeByFn other =>
      cases other with
      | none => exact h
      | some other => exact h.removeFrom hreleases 16 0 (by omega)
  | setPriority other prio => exact h.setPriority other prio
  | suspend other => exact h.suspend other
  | resume other => exact h.resume hreleases
  | sleep other seconds => exact h.sleep htimer

omit [DecidableEq Fn] [DecidableEq Arg] in
theorem stats (h : s.Waits id fn) (i : Fin 16) (stats : TaskStats) :
    (s.set i { s.tasks i with stats := stats }).Waits id fn := by
  by_cases hslot : i = slot id
  · rw [hslot]
    exact ⟨h.valid, by simpa [Table.set_self] using h.state,
      by simpa [Table.set_self] using h.fn⟩
  · exact h.set _ hslot

end Table.Waits

def Idle (id : Int) (events : List (Event Fn Arg)) : Prop :=
  ∀ other fn table, .activated other fn table ∈ events → slot other ≠ slot id

/-- None of the calls resumes or removes the task, or sets its timer. -/
def Undisturbed (id : Int) (fn : Option Fn) (events : List (Event Fn Arg)) :
    Prop :=
  ∀ c result table, .returned c result table ∈ events →
    ¬ c.Releases id fn ∧ ¬ c.SetsTimer id

def Machine.KeepsSuspended (id : Int) (m : Machine Fn Arg World) : Prop :=
  ∀ later earlier result table fn,
    m.events = later ++ .returned (.suspend id) result table :: earlier →
    table.Waits id fn → Undisturbed id fn later →
    m.table.Waits id fn ∧ Idle id later

variable [DecidableEq Fn] [DecidableEq Arg]

theorem preserved_keepsSuspended (id : Int) :
    Preserved (Machine.KeepsSuspended id :
      Machine Fn Arg World → Prop) := by
  constructor
  case tick =>
    intro m dt hm later earlier result table fn hevents hwaits hquiet
    obtain ⟨hnow, hidle⟩ := hm later earlier result table fn hevents hwaits hquiet
    exact ⟨hnow.tick dt, hidle⟩
  case activate =>
    intro m idx started hm hready later earlier result table fn hevents hwaits
      hquiet
    cases later with
    | nil => cases hevents
    | cons e later =>
        obtain ⟨rfl, htail⟩ := List.cons.inj hevents
        obtain ⟨hnow, hidle⟩ := hm later earlier result table fn htail hwaits
          fun c r t hc => hquiet c r t (List.mem_cons_of_mem _ hc)
        refine ⟨hnow, fun other f t ht => ?_⟩
        rcases List.mem_cons.mp ht with heq | ht
        · cases heq
          intro hslot
          rw [hslot, hnow.state] at hready
          cases hready
        · exact hidle other f t ht
  case call =>
    intro m c hm later earlier result table fn hevents hwaits hquiet
    cases later with
    | nil =>
        obtain ⟨heq, -⟩ := List.cons.inj hevents
        cases heq
        exact ⟨hwaits, fun _ _ _ ht => by cases ht⟩
    | cons e later =>
        obtain ⟨rfl, htail⟩ := List.cons.inj hevents
        obtain ⟨hnow, hidle⟩ := hm later earlier result table fn htail hwaits
          fun c r t hc => hquiet c r t (List.mem_cons_of_mem _ hc)
        obtain ⟨hreleases, htimer⟩ := hquiet c _ _ List.mem_cons_self
        refine ⟨hnow.call hreleases htimer, fun other f t ht => ?_⟩
        rcases List.mem_cons.mp ht with heq | ht
        · cases heq
        · exact hidle other f t ht
  case world =>
    intro m world hm
    exact hm
  case stats =>
    intro m i stats hm later earlier result table fn hevents hwaits hquiet
    obtain ⟨hnow, hidle⟩ := hm later earlier result table fn hevents hwaits hquiet
    exact ⟨hnow.stats i stats, hidle⟩
  case cursor =>
    intro m next hm later earlier result table fn hevents hwaits hquiet
    obtain ⟨hnow, hidle⟩ := hm later earlier result table fn hevents hwaits hquiet
    exact ⟨⟨hnow.valid, hnow.state, hnow.fn⟩, hidle⟩

omit [DecidableEq Fn] [DecidableEq Arg] in
/-- `scheduler_suspend` takes effect unless the task is asleep. -/
theorem Table.suspend_waits_iff {s : Table Fn Arg} {id : Int}
    {fn : Option Fn} :
    (s.suspend id).Waits id fn ↔ idValid id ∧
      ((s.tasks (slot id)).state = .ready ∨
        (s.tasks (slot id)).state = .suspended) ∧
      (s.tasks (slot id)).fn = fn := by
  constructor
  · rintro ⟨hvalid, hstate, hfn⟩
    rw [Table.suspend, if_neg (not_not.mpr hvalid)] at hstate hfn
    by_cases hready : (s.tasks (slot id)).state = .ready
    · rw [if_pos hready, Table.set_self] at hfn
      exact ⟨hvalid, Or.inl hready, hfn⟩
    · rw [if_neg hready] at hstate hfn
      exact ⟨hvalid, Or.inr hstate, hfn⟩
  · rintro ⟨hvalid, hready | hsuspended, hfn⟩
    · rw [Table.suspend, if_neg (not_not.mpr hvalid), if_pos hready]
      exact ⟨hvalid, by rw [Table.set_self], by rw [Table.set_self, hfn]⟩
    · exact Table.Waits.suspend ⟨hvalid, hsuspended, hfn⟩ id

/--
A call of `scheduler_suspend` suspends a task that is ready.  From then on,
whatever is called from outside and by the tasks themselves, the task does not
run before a call resumes or removes it or puts it to sleep.
-/
theorem suspended_task_waits (callbacks : Callbacks Fn Arg World) :
    (∀ (s : Table Fn Arg) id fn, (s.suspend id).Waits id fn ↔ idValid id ∧
      ((s.tasks (slot id)).state = .ready ∨
        (s.tasks (slot id)).state = .suspended) ∧
      (s.tasks (slot id)).fn = fn) ∧
    ∀ world ops m, runOps callbacks ops ⟨Table.init, world, []⟩ =
      some ((), m) → ∀ id, m.KeepsSuspended id := by
  constructor
  · intro s id fn
    exact Table.suspend_waits_iff
  · intro world ops m hrun id
    refine (preserved_keepsSuspended id).runOps callbacks ?_ hrun
    intro later earlier result table fn hevents
    simp at hevents

end Waiting

/-! ## Runs of tasks that do nothing -/

section Idle

variable {Fn Arg World : Type}

def idleTask : Callbacks Fn Arg World := fun _ _ _ world => .done world

/-- A task as `scheduler_add_task` enters it. -/
def newTask (fn : Fn) (arg : Option Arg) : Task Fn Arg where
  fn := some fn
  arg := arg
  state := .ready
  prio := prioNormal
  sleepRemaining := 0
  stats := ⟨0, 0⟩
  name := schedStrncpy unnamed nameMax

theorem Table.tickSleepTimers_awake {s : Table Fn Arg}
    (h : ∀ i, (s.tasks i).state ≠ .sleeping) (dt : ℚ) :
    s.tickSleepTimers dt = s := by
  have htasks : (fun i => (s.tasks i).tick dt) = s.tasks := by
    funext i
    rw [Task.tick, if_pos (h i)]
  rw [Table.tickSleepTimers, htasks]

theorem Table.tickSleepTimers_set (s : Table Fn Arg) (i : Fin 16)
    (task : Task Fn Arg) (dt : ℚ) :
    (s.set i task).tickSleepTimers dt =
      (s.tickSleepTimers dt).set i (task.tick dt) := by
  have htasks : (fun j => ((s.set i task).tasks j).tick dt) =
      Function.update (fun j => (s.tasks j).tick dt) i (task.tick dt) := by
    funext j
    by_cases hj : j = i
    · rw [hj, Table.set_self, Function.update_self]
    · rw [Table.set_other task hj, Function.update_of_ne hj]
  rw [Table.tickSleepTimers, htasks]
  rfl

variable [DecidableEq Fn] [DecidableEq Arg]
  {callbacks : Callbacks Fn Arg World}

theorem runOps_cons {op : Op Fn Arg} {ops : List (Op Fn Arg)}
    {m m' : Machine Fn Arg World} (h : op.run callbacks m = some ((), m')) :
    runOps callbacks (op :: ops) m = runOps callbacks ops m' :=
  Program.bind_of_some h

theorem run_call {c : Call Fn Arg} {m : Machine Fn Arg World} {result : Int}
    {table : Table Fn Arg} (h : c.run m.table = (result, table)) :
    (Op.call c).run callbacks m = some ((), { m with
      table := table
      events := .returned c result table :: m.events }) := by
  have hrun : (Op.call c).run callbacks m = some ((), { m with
      table := (c.run m.table).2
      events := .returned c (c.run m.table).1 (c.run m.table).2 ::
        m.events }) := rfl
  rw [hrun, h]

theorem run_runOnce {dt : ℚ} {m : Machine Fn Arg World} {table : Table Fn Arg}
    (h : m.table.tickSleepTimers dt = table) :
    (Op.runOnce dt).run callbacks m =
      runFirst callbacks dt 16 0 { m with table := table } := by
  rw [← h]
  rfl

end Idle

/-- Two tasks; the second one runs while the first is suspended. -/
theorem suspended_while_other_runs :
    ∃ m earlier table table', runOps (idleTask : Callbacks Unit Unit Unit)
        [.call (.addTask (some ()) none), .call (.addTask (some ()) (some ())),
          .call (.suspend 0), .runOnce 1]
        ⟨Table.init, (), []⟩ = some ((), m) ∧
      m.events = [.activated 1 () table'] ++
        .returned (.suspend 0) 0 table :: earlier ∧
      m.table.Waits 0 (some ()) ∧ Idle 0 [.activated 1 () table'] := by
  let one : Table Unit Unit := { Table.init.set 0 (newTask () none) with
    taskCount := 1
    nextIndex := 1 }
  let two : Table Unit Unit := { one.set 1 (newTask () (some ())) with
    taskCount := 2
    nextIndex := 2 }
  let suspended := two.set 0 { newTask () none with state := .suspended }
  have hone : (Call.addTask (some ()) none).run Table.init = (0, one) := rfl
  have htwo : (Call.addTask (some ()) (some ())).run one = (1, two) := rfl
  have hsuspend : (Call.suspend 0).run two = (0, suspended) := rfl
  have htick : suspended.tickSleepTimers 1 = suspended :=
    Table.tickSleepTimers_awake (by decide) 1
  have hsecond : ∀ events, ∃ m, runFirst (idleTask : Callbacks Unit Unit Unit)
      1 16 0 ⟨suspended, (), events⟩ = some ((), m) ∧
      m.events = .activated 1 () suspended :: events :=
    fun events => ⟨_, rfl, rfl⟩
  let earlier : List (Event Unit Unit) :=
    [.returned (.addTask (some ()) (some ())) 1 two,
      .returned (.addTask (some ()) none) 0 one]
  obtain ⟨m, hlast, hevents⟩ :=
    hsecond (.returned (.suspend 0) 0 suspended :: earlier)
  have hrun : runOps (idleTask : Callbacks Unit Unit Unit)
      [.call (.addTask (some ()) none), .call (.addTask (some ()) (some ())),
        .call (.suspend 0), .runOnce 1]
      ⟨Table.init, (), []⟩ = some ((), m) := by
    rw [runOps_cons (run_call hone), runOps_cons (run_call htwo),
      runOps_cons (run_call hsuspend), runOps_cons ((run_runOnce htick).trans hlast)]
    rfl
  have hkept := (suspended_task_waits idleTask).2 () _ m hrun 0
    [.activated 1 () suspended] earlier 0 suspended (some ()) hevents
    ⟨by decide, rfl, rfl⟩ (by simp [Undisturbed])
  exact ⟨m, earlier, suspended, suspended, hrun, hevents, hkept⟩

/--
A task that is asleep when it is suspended runs when its timer expires, and so
does one that is put to sleep while it is suspended.
-/
theorem suspended_task_runs :
    (∃ m later earlier table, runOps (idleTask : Callbacks Unit Unit Unit)
        [.call (.addTask (some ()) none), .call (.sleep 0 1),
          .call (.suspend 0), .runOnce 1]
        ⟨Table.init, (), []⟩ = some ((), m) ∧
      m.events = later ++ .returned (.suspend 0) 0 table :: earlier ∧
      (table.tasks (slot 0)).state ≠ .empty ∧
      (∀ c result table, .returned c result table ∈ later →
        ¬ c.Releases 0 (some ())) ∧ ¬ Idle 0 later) ∧
    ∃ m later earlier table, runOps (idleTask : Callbacks Unit Unit Unit)
        [.call (.addTask (some ()) none), .call (.suspend 0),
          .call (.sleep 0 1), .runOnce 1]
        ⟨Table.init, (), []⟩ = some ((), m) ∧
      m.events = later ++ .returned (.suspend 0) 0 table :: earlier ∧
      (table.tasks (slot 0)).state ≠ .empty ∧
      (∀ c result table, .returned c result table ∈ later →
        ¬ c.Releases 0 (some ())) ∧ ¬ Idle 0 later := by
  let one : Table Unit Unit := { Table.init.set 0 (newTask () none) with
    taskCount := 1
    nextIndex := 1 }
  let asleep := one.set 0
    { newTask () none with sleepRemaining := 1, state := .sleeping }
  let suspended := one.set 0 { newTask () none with state := .suspended }
  have hone : (Call.addTask (some ()) none).run Table.init = (0, one) := rfl
  have hwake : asleep.tickSleepTimers 1 = one.set 0 (newTask () none) := by
    rw [Table.tickSleepTimers_set, Table.tickSleepTimers_awake (by decide)]
    simp [Task.tick, newTask]
  have hfirst : ∀ events, ∃ m, runFirst (idleTask : Callbacks Unit Unit Unit)
      1 16 0 ⟨one.set 0 (newTask () none), (), events⟩ = some ((), m) ∧
      m.events = .activated 0 () (one.set 0 (newTask () none)) :: events :=
    fun events => ⟨_, rfl, rfl⟩
  constructor
  · have hsleep : (Call.sleep 0 1).run one = (0, asleep) := rfl
    have hsuspend : (Call.suspend 0).run asleep = (0, asleep) := rfl
    let earlier : List (Event Unit Unit) :=
      [.returned (.sleep 0 1) 0 asleep,
        .returned (.addTask (some ()) none) 0 one]
    obtain ⟨m, hlast, hevents⟩ :=
      hfirst (.returned (.suspend 0) 0 asleep :: earlier)
    refine ⟨m, [.activated 0 () _], earlier, asleep, ?_, hevents, by decide, by simp,
      fun hidle => hidle 0 () _ List.mem_cons_self rfl⟩
    rw [runOps_cons (run_call hone), runOps_cons (run_call hsleep),
      runOps_cons (run_call hsuspend),
      runOps_cons ((run_runOnce hwake).trans hlast)]
    rfl
  · have hsuspend : (Call.suspend 0).run one = (0, suspended) := rfl
    have hsleep : (Call.sleep 0 1).run suspended = (0, asleep) := by
      have hset : suspended.set 0 { newTask () none with
          sleepRemaining := 1, state := .sleeping } = asleep := by
        simp [suspended, asleep, Table.set]
      exact congrArg (Prod.mk (0 : Int)) hset
    obtain ⟨m, hlast, hevents⟩ := hfirst
      [.returned (.sleep 0 1) 0 asleep, .returned (.suspend 0) 0 suspended,
        .returned (.addTask (some ()) none) 0 one]
    refine ⟨m, [.activated 0 () _, .returned (.sleep 0 1) 0 asleep], _,
      suspended, ?_, hevents, by decide, ?_, fun hidle => hidle 0 () _
        List.mem_cons_self rfl⟩
    · rw [runOps_cons (run_call hone), runOps_cons (run_call hsuspend),
        runOps_cons (run_call hsleep),
        runOps_cons ((run_runOnce hwake).trans hlast)]
      rfl
    · intro c result table hc
      simp only [List.mem_cons, reduceCtorEq, false_or, List.not_mem_nil,
        or_false] at hc
      cases hc
      exact id

end EntropyOS.Scheduler
