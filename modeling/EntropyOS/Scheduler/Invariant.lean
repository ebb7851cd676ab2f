import EntropyOS.Scheduler.Operations

/-!
# The task table is sound at every call-out

Each operation replaces at most one entry, so what has to be checked is the new
entry and, where an entry is taken or given back, the count and the uniqueness
of tasks.  A script is a sequence of such operations, and the loops interleave
scripts with updates of the statistics.
-/

namespace EntropyOS.Scheduler

open EntropyOS.Foundation

section Tables

variable {Fn Arg : Type}

/-- An entry on its own: empty without a function, and timed when asleep. -/
structure Task.Ok (task : Task Fn Arg) : Prop where
  fn : task.fn = none ↔ task.state = .empty
  asleep : task.state = .sleeping → 0 < task.sleepRemaining
  awake : task.state ≠ .sleeping → task.sleepRemaining = 0

def Table.used (s : Table Fn Arg) : Finset (Fin 16) :=
  Finset.univ.filter fun i => (s.tasks i).state ≠ .empty

structure Table.Ok (s : Table Fn Arg) : Prop where
  count : s.taskCount = s.used.card
  next : 0 ≤ s.nextIndex ∧ s.nextIndex < 16
  tasks : ∀ i, (s.tasks i).Ok
  unique : ∀ i j, (s.tasks i).state ≠ .empty → (s.tasks j).state ≠ .empty →
    (s.tasks i).fn = (s.tasks j).fn → (s.tasks i).arg = (s.tasks j).arg → i = j

/-- Both entries stand for the same task, or both are empty. -/
structure Task.Same (task task' : Task Fn Arg) : Prop where
  fn : task'.fn = task.fn
  arg : task'.arg = task.arg
  empty : task'.state = .empty ↔ task.state = .empty

theorem Task.cleared_ok : (Task.cleared : Task Fn Arg).Ok :=
  ⟨by simp [Task.cleared], by simp [Task.cleared], by simp [Task.cleared]⟩

theorem Table.init_ok : (Table.init : Table Fn Arg).Ok := by
  constructor
  case count =>
    have hnone : (Table.init : Table Fn Arg).used = ∅ := by
      simp [Table.used, Table.init, Task.cleared]
    rw [hnone]
    rfl
  case next => exact ⟨le_refl 0, by simp [Table.init]⟩
  case tasks => exact fun _ => Task.cleared_ok
  case unique =>
    intro i j hi
    exact absurd rfl hi

/-! ## Replacing entries -/

variable {s s' : Table Fn Arg}

theorem Table.mem_used {i : Fin 16} : i ∈ s.used ↔ (s.tasks i).state ≠ .empty := by
  simp [Table.used]

theorem Table.Ok.congr (h : s.Ok) (hcount : s'.taskCount = s.taskCount)
    (hnext : 0 ≤ s'.nextIndex ∧ s'.nextIndex < 16)
    (hok : ∀ i, (s'.tasks i).Ok)
    (hsame : ∀ i, (s.tasks i).Same (s'.tasks i)) : s'.Ok := by
  have hused : s'.used = s.used := by
    ext i
    rw [Table.mem_used, Table.mem_used, ne_eq, (hsame i).empty]
  constructor
  case count => rw [hcount, hused, h.count]
  case next => exact hnext
  case tasks => exact hok
  case unique =>
    intro i j hi hj hfn harg
    rw [ne_eq, (hsame i).empty] at hi
    rw [ne_eq, (hsame j).empty] at hj
    rw [(hsame i).fn, (hsame j).fn] at hfn
    rw [(hsame i).arg, (hsame j).arg] at harg
    exact h.unique i j hi hj hfn harg

theorem Task.Same.refl (task : Task Fn Arg) : task.Same task :=
  ⟨rfl, rfl, Iff.rfl⟩

theorem Table.Ok.set (h : s.Ok) {i : Fin 16} {task : Task Fn Arg}
    (hok : task.Ok) (hsame : (s.tasks i).Same task) : (s.set i task).Ok := by
  refine h.congr rfl h.next (fun j => ?_) (fun j => ?_)
  · by_cases hj : j = i
    · subst hj
      simpa [Table.set] using hok
    · simpa [Table.set, hj] using h.tasks j
  · by_cases hj : j = i
    · subst hj
      simpa [Table.set] using hsame
    · simpa [Table.set, hj] using Task.Same.refl (s.tasks j)

theorem Table.set_self (i : Fin 16) (task : Task Fn Arg) :
    (s.set i task).tasks i = task := Function.update_self ..

theorem Table.set_other {i j : Fin 16} (task : Task Fn Arg) (hj : j ≠ i) :
    (s.set i task).tasks j = s.tasks j := Function.update_of_ne hj ..

/-- A task that goes leaves the other entries and a count of one less. -/
theorem Table.Ok.vacate (h : s.Ok) {i : Fin 16} {task : Task Fn Arg}
    (hused : (s.tasks i).state ≠ .empty) (hempty : task.state = .empty)
    (hok : task.Ok) {count : Int} (hcount : count = s.taskCount - 1) :
    ({ s.set i task with taskCount := count } : Table Fn Arg).Ok := by
  have hset : ({ s.set i task with taskCount := count } : Table Fn Arg).used =
      s.used.erase i := by
    ext j
    rw [Table.mem_used, Finset.mem_erase, Table.mem_used]
    by_cases hj : j = i
    · subst hj
      simp [Table.set_self, hempty]
    · simp [Table.set_other _ hj, hj]
  constructor
  case count =>
    have hmem : i ∈ s.used := Table.mem_used.mpr hused
    have hpos := Finset.card_pos.mpr ⟨i, hmem⟩
    have hless : count = ((s.used.card - 1 : Nat) : Int) := by
      rw [hcount, h.count]
      omega
    rw [hset, Finset.card_erase_of_mem hmem]
    exact hless
  case next => exact h.next
  case tasks =>
    intro j
    by_cases hj : j = i
    · subst hj
      simpa only [Table.set_self] using hok
    · simpa only [Table.set_other _ hj] using h.tasks j
  case unique =>
    intro j k hj hk
    have hji : j ≠ i := by
      rintro rfl
      exact hj (by simpa only [Table.set_self] using hempty)
    have hki : k ≠ i := by
      rintro rfl
      exact hk (by simpa only [Table.set_self] using hempty)
    simp only [Table.set_other _ hji, Table.set_other _ hki] at hj hk ⊢
    exact h.unique j k hj hk

theorem Table.Ok.occupy (h : s.Ok) {i : Fin 16} {task : Task Fn Arg}
    (hfree : (s.tasks i).state = .empty) (hused : task.state ≠ .empty)
    (hok : task.Ok) (hnew : ∀ j, (s.tasks j).state ≠ .empty →
      (s.tasks j).fn = task.fn → (s.tasks j).arg ≠ task.arg)
    {next : Int} (hnext : 0 ≤ next ∧ next < 16) :
    ({ s.set i task with
      taskCount := s.taskCount + 1
      nextIndex := next } : Table Fn Arg).Ok := by
  have hset : ({ s.set i task with
      taskCount := s.taskCount + 1
      nextIndex := next } : Table Fn Arg).used = insert i s.used := by
    ext j
    rw [Table.mem_used, Finset.mem_insert, Table.mem_used]
    by_cases hj : j = i
    · subst hj
      simp [Table.set_self, hused]
    · simp [Table.set_other _ hj, hj]
  constructor
  case count =>
    have hmem : i ∉ s.used := fun hmem => Table.mem_used.mp hmem hfree
    rw [hset, Finset.card_insert_of_notMem hmem, h.count]
    push_cast
    rfl
  case next => exact hnext
  case tasks =>
    intro j
    by_cases hj : j = i
    · subst hj
      simpa only [Table.set_self] using hok
    · simpa only [Table.set_other _ hj] using h.tasks j
  case unique =>
    intro j k hj hk hfn harg
    by_cases hji : j = i
    · by_cases hki : k = i
      · rw [hji, hki]
      · subst hji
        simp only [Table.set_self, Table.set_other _ hki] at hk hfn harg
        exact absurd harg.symm (hnew k hk hfn.symm)
    · by_cases hki : k = i
      · subst hki
        simp only [Table.set_self, Table.set_other _ hji] at hj hfn harg
        exact absurd harg (hnew j hj hfn)
      · simp only [Table.set_other _ hji, Table.set_other _ hki] at hj hk hfn harg
        exact h.unique j k hj hk hfn harg

/-! ## The operations -/

theorem Task.Ok.tick {task : Task Fn Arg} (h : task.Ok) (dt : ℚ) :
    (task.tick dt).Ok ∧ task.Same (task.tick dt) := by
  unfold Task.tick
  split_ifs with hawake hover
  · exact ⟨h, Task.Same.refl task⟩
  · have hstate : task.state = .sleeping := not_not.mp hawake
    refine ⟨⟨?_, by simp, by simp⟩, ⟨rfl, rfl, ?_⟩⟩
    · rw [h.fn, hstate]
      simp
    · rw [hstate]
      simp
  · have hstate : task.state = .sleeping := not_not.mp hawake
    refine ⟨⟨h.fn, fun _ => ?_, fun hne => absurd hstate hne⟩, ⟨rfl, rfl, Iff.rfl⟩⟩
    exact not_le.mp hover

theorem Table.Ok.tickSleepTimers (h : s.Ok) (dt : ℚ) :
    (s.tickSleepTimers dt).Ok :=
  h.congr rfl h.next (fun i => ((h.tasks i).tick dt).1)
    (fun i => ((h.tasks i).tick dt).2)

private theorem Table.Ok.guard (h : s.Ok) (id : Int) (hok : s'.Ok) :
    (if ¬ idValid id then s else s').Ok := by
  split
  · exact h
  · exact hok

theorem Table.Ok.setPriority (h : s.Ok) (id : Int) (prio : Priority) :
    (s.setPriority id prio).Ok := by
  refine h.guard id ?_
  split
  · exact h
  · have htask := h.tasks (slot id)
    exact h.set ⟨htask.fn, htask.asleep, htask.awake⟩ ⟨rfl, rfl, Iff.rfl⟩

theorem Table.Ok.suspend (h : s.Ok) (id : Int) : (s.suspend id).Ok := by
  refine h.guard id ?_
  split
  · next hready =>
      have htask := h.tasks (slot id)
      refine h.set ⟨?_, by simp, fun _ => ?_⟩ ⟨rfl, rfl, by simp [hready]⟩
      · rw [htask.fn, hready]
        simp
      · exact htask.awake (by simp [hready])
  · exact h

theorem Table.Ok.resume (h : s.Ok) (id : Int) : (s.resume id).Ok := by
  refine h.guard id ?_
  split
  · next hstopped =>
      have hused : (s.tasks (slot id)).state ≠ .empty := by
        rcases hstopped with heq | heq
        · simp [heq]
        · simp [heq]
      have hfn := (h.tasks (slot id)).fn
      exact h.set ⟨by simp [hfn, hused], by simp, by simp⟩
        ⟨rfl, rfl, by simp [hused]⟩
  · exact h

theorem Table.Ok.sleep (h : s.Ok) (id : Int) (seconds : ℚ) :
    (s.sleep id seconds).Ok := by
  refine h.guard id ?_
  split
  · exact h
  · next hused =>
      split
      · exact h
      · next hlong =>
          have hfn := (h.tasks (slot id)).fn
          exact h.set ⟨by simp [hfn, hused], fun _ => not_le.mp hlong, by simp⟩
            ⟨rfl, rfl, by simp [hused]⟩

theorem Table.Ok.removeTask (h : s.Ok) (id : Int) : (s.removeTask id).Ok := by
  refine h.guard id ?_
  split
  · exact h
  · next hused =>
      have hpos := Finset.card_pos.mpr ⟨_, Table.mem_used.mpr hused⟩
      have hcount := h.count
      refine h.vacate hused rfl ⟨by simp, by simp, by simp⟩ ?_
      rw [if_pos (by omega)]

theorem wrap_range {index : Int} (h : 0 ≤ index) :
    0 ≤ wrap index ∧ wrap index < 16 := by
  rw [wrap, Int.tmod_eq_emod_of_nonneg h]
  omega

/-- The cursor can be set to any index the loops compute. -/
theorem Table.Ok.advance (h : s.Ok) {index : Int} (hindex : 0 ≤ index) :
    ({ s with nextIndex := wrap index } : Table Fn Arg).Ok :=
  h.congr rfl (wrap_range hindex) h.tasks fun _ => Task.Same.refl _

variable [DecidableEq Fn]

theorem Table.Ok.removeFrom (h : s.Ok) (fn : Fn) (count i : Nat) :
    (s.removeFrom fn count i).Ok := by
  induction count generalizing s i with
  | zero => exact h
  | succ count ih =>
      rw [Table.removeFrom]
      split
      · exact ih (h.removeTask i) (i + 1)
      · exact ih h (i + 1)

theorem Table.Ok.removeByFn (h : s.Ok) (fn : Option Fn) : (s.removeByFn fn).Ok := by
  cases fn with
  | none => exact h
  | some fn => exact h.removeFrom fn 16 0

structure Table.Holds (s : Table Fn Arg) (id : Int) (fn : Option Fn)
    (arg : Option Arg) : Prop where
  valid : idValid id
  used : (s.tasks (slot id)).state ≠ .empty
  fn : (s.tasks (slot id)).fn = fn
  arg : (s.tasks (slot id)).arg = arg

theorem slot_natCast {i : Nat} (hi : i < 16) : (slot i : Fin 16) = ⟨i, hi⟩ := by
  apply Fin.ext
  simp [slot, Fin.ofNat, Nat.mod_eq_of_lt hi]

variable [DecidableEq Arg]

/-- An addition keeps the table sound, and the id it returns is the task's. -/
theorem Table.Ok.addTask (h : s.Ok) (fn : Option Fn) (arg : Option Arg) :
    (s.addTask fn arg).2.Ok ∧
      ((s.addTask fn arg).1 ≠ -1 →
        (s.addTask fn arg).2.Holds (s.addTask fn arg).1 fn arg) := by
  unfold Table.addTask
  split
  · exact ⟨h, fun hne => absurd rfl hne⟩
  next hfn =>
  split
  next i hfound =>
    -- the task is there already
    have hmatch := List.find?_some hfound
    have hi := List.mem_range.mp (List.mem_of_find?_eq_some hfound)
    simp only [decide_eq_true_eq] at hmatch
    exact ⟨h, fun _ => ⟨by simp only [idValid]; omega, hmatch.1, hmatch.2.1,
      hmatch.2.2⟩⟩
  next hnew =>
    split
    next i hfound =>
      have hfree := List.find?_some hfound
      simp only [decide_eq_true_eq] at hfree
      have hrange := @wrap_range (s.nextIndex + i) (by have := h.next; omega)
      have hnext := @wrap_range (wrap (s.nextIndex + i) + 1) (by omega)
      refine ⟨h.occupy hfree (by simp) ⟨by simpa using hfn, by simp, by simp⟩ ?_ hnext,
        fun _ => ⟨hrange, ?_, ?_, ?_⟩⟩
      · intro j hused hsame harg
        have hnone := List.find?_eq_none.mp hnew j (List.mem_range.mpr j.isLt)
        simp only [slot_natCast j.isLt, decide_eq_true_eq] at hnone
        exact hnone ⟨hused, hsame, harg⟩
      · simp [Table.set_self]
      · simp [Table.set_self]
      · simp [Table.set_self]
    next => exact ⟨h, fun hne => absurd rfl hne⟩

theorem Table.Ok.call (h : s.Ok) (c : Call Fn Arg) : (c.run s).2.Ok := by
  cases c with
  | addTask fn arg => exact (h.addTask fn arg).1
  | removeTask id => exact h.removeTask id
  | removeByFn fn => exact h.removeByFn fn
  | setPriority id prio => exact h.setPriority id prio
  | suspend id => exact h.suspend id
  | resume id => exact h.resume id
  | sleep id seconds => exact h.sleep id seconds

end Tables

/-! ## Runs -/

section Runs

variable {Fn Arg World : Type}

/-- The table was sound then, and a new id was that of the task. -/
structure Event.Ok (e : Event Fn Arg) : Prop where
  table : e.table.Ok
  id : ∀ fn arg result table, e = .returned (.addTask fn arg) result table →
    result ≠ -1 → table.Holds result fn arg

structure Machine.Ok (m : Machine Fn Arg World) : Prop where
  table : m.table.Ok
  events : ∀ e ∈ m.events, e.Ok

/-- The program returns, and keeps the machine sound. -/
def Keeps {α : Type} (program : Program (Machine Fn Arg World) α) : Prop :=
  ∀ m : Machine Fn Arg World, m.Ok → ∃ a m', program m = some (a, m') ∧ m'.Ok

theorem Keeps.pure {α : Type} (a : α) :
    Keeps (Pure.pure a : Program (Machine Fn Arg World) α) :=
  fun m hm => ⟨a, m, rfl, hm⟩

theorem Keeps.bind {α β : Type} {program : Program (Machine Fn Arg World) α}
    {next : α → Program (Machine Fn Arg World) β} (first : Keeps program)
    (second : ∀ a, Keeps (next a)) : Keeps (program >>= next) := by
  intro m hm
  obtain ⟨a, m', hfirst, hm'⟩ := first m hm
  obtain ⟨b, m'', hsecond, hm''⟩ := second a m' hm'
  exact ⟨b, m'', by rw [Program.bind_of_some hfirst, hsecond], hm''⟩

theorem Keeps.modifyTable {f : Table Fn Arg → Table Fn Arg}
    (h : ∀ s, s.Ok → (f s).Ok) :
    Keeps (modifyTable f : Program (Machine Fn Arg World) Unit) :=
  fun m hm => ⟨(), _, rfl, h m.table hm.table, hm.events⟩

theorem Keeps.ok {α : Type} {program : Program (Machine Fn Arg World) α} {a : α}
    {m m' : Machine Fn Arg World} (h : Keeps program) (hm : m.Ok)
    (hrun : program m = some (a, m')) : m'.Ok := by
  obtain ⟨b, m'', hkeeps, hm''⟩ := h m hm
  rw [hrun] at hkeeps
  cases hkeeps
  exact hm''

variable [DecidableEq Fn] [DecidableEq Arg]

theorem keeps_makeCall (c : Call Fn Arg) :
    Keeps (makeCall c : Program (Machine Fn Arg World) Int) := by
  intro m hm
  have hok := hm.table.call c
  refine ⟨_, _, rfl, hok, ?_⟩
  intro e he
  rcases List.mem_cons.mp he with rfl | he
  · refine ⟨hok, fun fn arg result table heq hresult => ?_⟩
    cases heq
    exact (hm.table.addTask fn arg).2 hresult
  · exact hm.events e he

theorem keeps_runScript (script : Script Fn Arg World) :
    Keeps (runScript script) := by
  induction script with
  | done world => exact fun m hm => ⟨(), _, rfl, hm.table, hm.events⟩
  | call c next ih => exact (keeps_makeCall c).bind ih

variable (callbacks : Callbacks Fn Arg World)

/-- A task with a function runs, and may change the whole table meanwhile. -/
theorem exists_runTask {m : Machine Fn Arg World} (hm : m.Ok) {idx : Int}
    (hfn : (m.table.tasks (slot idx)).fn ≠ none) (dt : ℚ) :
    ∃ m', runTask callbacks idx dt m = some ((), m') ∧ m'.Ok := by
  obtain ⟨fn, hfn⟩ := Option.ne_none_iff_exists'.mp hfn
  have hactivated : (({ m with events := .activated idx fn m.table :: m.events } :
      Machine Fn Arg World)).Ok := by
    refine ⟨hm.table, fun e he => ?_⟩
    rcases List.mem_cons.mp he with rfl | he
    · exact ⟨hm.table, fun _ _ _ _ heq => by cases heq⟩
    · exact hm.events e he
  have hrest : Keeps (do
      runScript (callbacks fn (m.table.tasks (slot idx)).arg dt m.world)
      modifyTable fun s : Table Fn Arg =>
        let task := s.tasks (slot idx)
        s.set (slot idx) { task with stats :=
          { runCount := task.stats.runCount + 1
            totalTime := task.stats.totalTime + dt } }) := by
    refine (keeps_runScript _).bind fun _ => Keeps.modifyTable fun s hs => ?_
    have htask := hs.tasks (slot idx)
    exact hs.set ⟨htask.fn, htask.asleep, htask.awake⟩ ⟨rfl, rfl, Iff.rfl⟩
  obtain ⟨_, m', hrun, hm'⟩ := hrest _ hactivated
  refine ⟨m', ?_, hm'⟩
  unfold runTask
  rw [Program.get_bind]
  simp only [hfn]
  exact hrun

theorem keeps_runBand (prio : Priority) (dt : ℚ) (count i : Nat) :
    Keeps (runBand callbacks prio dt count i) := by
  induction count generalizing i with
  | zero => exact Keeps.pure ()
  | succ count ih =>
      intro m hm
      rw [runBand, Program.get_bind]
      simp only
      split
      · next hready =>
          obtain ⟨m', hrun, hm'⟩ := exists_runTask callbacks hm hready.2.1 dt
          obtain ⟨_, m'', hrest, hm''⟩ := ih (i + 1) m' hm'
          exact ⟨(), m'', by rw [Program.bind_of_some hrun]; exact hrest, hm''⟩
      · exact ih (i + 1) m hm

theorem keeps_runFirst (dt : ℚ) (count i : Nat) :
    Keeps (runFirst callbacks dt count i) := by
  induction count generalizing i with
  | zero => exact Keeps.pure ()
  | succ count ih =>
      intro m hm
      rw [runFirst, Program.get_bind]
      split
      · next hready =>
          obtain ⟨m', hrun, hm'⟩ := exists_runTask callbacks hm hready.2 dt
          have hidx := @wrap_range (m.table.nextIndex + i) (by
            have := hm.table.next
            omega)
          rw [Program.bind_of_some hrun]
          exact Keeps.modifyTable (fun s hs => hs.advance (by omega)) m' hm'
      · exact ih (i + 1) m hm

theorem keeps_op (op : Op Fn Arg) : Keeps (op.run callbacks) := by
  have htick : ∀ dt, Keeps (modifyTable (Table.tickSleepTimers dt) :
      Program (Machine Fn Arg World) Unit) :=
    fun dt => Keeps.modifyTable fun s hs => hs.tickSleepTimers dt
  cases op with
  | call c => exact (keeps_makeCall c).bind fun _ => Keeps.pure ()
  | runOnce dt =>
      exact (htick dt).bind fun _ => keeps_runFirst callbacks dt 16 0
  | runAll dt =>
      refine (htick dt).bind fun _ => ?_
      refine (keeps_runBand callbacks prioCritical dt 16 0).bind fun _ => ?_
      refine (keeps_runBand callbacks prioHigh dt 16 0).bind fun _ => ?_
      refine (keeps_runBand callbacks prioNormal dt 16 0).bind fun _ => ?_
      refine (keeps_runBand callbacks prioLow dt 16 0).bind fun _ => ?_
      refine Keeps.modifyTable fun s hs => hs.advance ?_
      have hnext := hs.next
      omega

theorem keeps_runOps (ops : List (Op Fn Arg)) : Keeps (runOps callbacks ops) := by
  induction ops with
  | nil => exact Keeps.pure ()
  | cons op ops ih => exact (keeps_op callbacks op).bind fun _ => ih

/--
Whatever is called from outside and by the tasks themselves, the scheduler
comes back, and the table is sound then, at every activation of a task and
after every call a task makes.
-/
theorem table_sound_throughout (world : World) (ops : List (Op Fn Arg)) :
    ∃ m, runOps callbacks ops ⟨Table.init, world, []⟩ = some ((), m) ∧
      m.table.Ok ∧ ∀ e ∈ m.events, e.Ok := by
  obtain ⟨_, m, hrun, hm⟩ := keeps_runOps callbacks ops ⟨Table.init, world, []⟩
    ⟨Table.init_ok, by simp⟩
  exact ⟨m, hrun, hm.table, hm.events⟩

end Runs

end EntropyOS.Scheduler
