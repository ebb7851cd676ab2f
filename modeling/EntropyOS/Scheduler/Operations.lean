import EntropyOS.Foundation.Program

/-!
# The cooperative scheduler

The task table of `scheduler.c` and its operations.  A task is a callback that
may call the scheduler while it runs; what it calls, depending on what the
calls return, is its script.  Times are exact.
-/

namespace EntropyOS.Scheduler

open EntropyOS.Foundation

inductive TaskState where
  | empty
  | ready
  | sleeping
  | suspended
  deriving DecidableEq

/-- `task_priority_t`, with the values a caller can pass beyond the four. -/
abbrev Priority := UInt32

def prioLow : Priority := 0
def prioNormal : Priority := 1
def prioHigh : Priority := 2
def prioCritical : Priority := 3

def nameMax : Nat := 24

structure TaskStats where
  runCount : UInt64
  totalTime : ℚ

/-- `task_entry_t`; `none` is a null pointer. -/
structure Task (Fn Arg : Type) where
  fn : Option Fn
  arg : Option Arg
  state : TaskState
  prio : Priority
  sleepRemaining : ℚ
  stats : TaskStats
  name : List UInt8

/-- The file-scope variables; `SCHEDULER_MAX_TASKS` is 16. -/
structure Table (Fn Arg : Type) where
  tasks : Fin 16 → Task Fn Arg
  taskCount : Int
  nextIndex : Int

def slot (index : Int) : Fin 16 := Fin.ofNat 16 index.toNat

def wrap (index : Int) : Int := index.tmod 16

def idValid (id : Int) : Prop := 0 ≤ id ∧ id < 16

instance (id : Int) : Decidable (idValid id) :=
  inferInstanceAs (Decidable (_ ∧ _))

/-- `sched_strncpy` from a C string. -/
def schedStrncpy (src : List UInt8) (n : Nat) : List UInt8 :=
  (src.takeWhile (· ≠ 0)).take (n - 1)

def unnamed : List UInt8 := [0x75, 0x6E, 0x6E, 0x61, 0x6D, 0x65, 0x64]

section Operations

variable {Fn Arg : Type}

def Task.cleared : Task Fn Arg where
  fn := none
  arg := none
  state := .empty
  prio := prioNormal
  sleepRemaining := 0
  stats := ⟨0, 0⟩
  name := []

def Table.init : Table Fn Arg where
  tasks := fun _ => Task.cleared
  taskCount := 0
  nextIndex := 0

def Table.set (s : Table Fn Arg) (i : Fin 16) (task : Task Fn Arg) :
    Table Fn Arg :=
  { s with tasks := Function.update s.tasks i task }

def Task.tick (dt : ℚ) (task : Task Fn Arg) : Task Fn Arg :=
  if task.state ≠ .sleeping then task
  else if task.sleepRemaining - dt ≤ 0 then
    { task with sleepRemaining := 0, state := .ready }
  else { task with sleepRemaining := task.sleepRemaining - dt }

def Table.tickSleepTimers (dt : ℚ) (s : Table Fn Arg) : Table Fn Arg :=
  { s with tasks := fun i => (s.tasks i).tick dt }

def Table.removeTask (id : Int) (s : Table Fn Arg) : Table Fn Arg :=
  if ¬ idValid id then s
  else if (s.tasks (slot id)).state = .empty then s
  else
    { s.set (slot id) { s.tasks (slot id) with
        fn := none
        arg := none
        state := .empty
        prio := prioNormal
        sleepRemaining := 0
        name := [] } with
      taskCount := if s.taskCount > 0 then s.taskCount - 1 else s.taskCount }

def Table.setPriority (id : Int) (prio : Priority) (s : Table Fn Arg) :
    Table Fn Arg :=
  if ¬ idValid id then s
  else if (s.tasks (slot id)).state = .empty then s
  else s.set (slot id) { s.tasks (slot id) with prio := prio }

def Table.suspend (id : Int) (s : Table Fn Arg) : Table Fn Arg :=
  if ¬ idValid id then s
  else if (s.tasks (slot id)).state = .ready then
    s.set (slot id) { s.tasks (slot id) with state := .suspended }
  else s

def Table.resume (id : Int) (s : Table Fn Arg) : Table Fn Arg :=
  if ¬ idValid id then s
  else if (s.tasks (slot id)).state = .suspended ∨
      (s.tasks (slot id)).state = .sleeping then
    s.set (slot id) { s.tasks (slot id) with
      sleepRemaining := 0
      state := .ready }
  else s

def Table.sleep (id : Int) (seconds : ℚ) (s : Table Fn Arg) : Table Fn Arg :=
  if ¬ idValid id then s
  else if (s.tasks (slot id)).state = .empty then s
  else if seconds ≤ 0 then s
  else
    s.set (slot id) { s.tasks (slot id) with
      sleepRemaining := seconds
      state := .sleeping }

variable [DecidableEq Fn] [DecidableEq Arg]

def Table.addTask (fn : Option Fn) (arg : Option Arg) (s : Table Fn Arg) :
    Int × Table Fn Arg :=
  if fn = none then (-1, s)
  else
    match (List.range 16).find? fun i : Nat =>
        (s.tasks (slot i)).state ≠ .empty ∧ (s.tasks (slot i)).fn = fn ∧
          (s.tasks (slot i)).arg = arg with
    | some i => (i, s)
    | none =>
        -- from the round-robin cursor on
        match (List.range 16).find? fun i : Nat =>
            (s.tasks (slot (wrap (s.nextIndex + i)))).state = .empty with
        | some i =>
            let idx := wrap (s.nextIndex + i)
            (idx,
              { s.set (slot idx)
                  { fn := fn
                    arg := arg
                    state := .ready
                    prio := prioNormal
                    sleepRemaining := 0
                    stats := ⟨0, 0⟩
                    name := schedStrncpy unnamed nameMax } with
                taskCount := s.taskCount + 1
                nextIndex := wrap (idx + 1) })
        | none => (-1, s)

/-- The loop of `scheduler_remove_by_fn`, from entry `i` on. -/
def Table.removeFrom (fn : Fn) : (count i : Nat) → Table Fn Arg → Table Fn Arg
  | 0, _, s => s
  | count + 1, i, s =>
      if (s.tasks (slot i)).state ≠ .empty ∧ (s.tasks (slot i)).fn = some fn then
        removeFrom fn count (i + 1) (s.removeTask i)
      else removeFrom fn count (i + 1) s

def Table.removeByFn (fn : Option Fn) (s : Table Fn Arg) : Table Fn Arg :=
  match fn with
  | none => s
  | some fn => s.removeFrom fn 16 0

end Operations

/-! ## Calls, scripts and runs -/

inductive Call (Fn Arg : Type) where
  | addTask (fn : Option Fn) (arg : Option Arg)
  | removeTask (id : Int)
  | removeByFn (fn : Option Fn)
  | setPriority (id : Int) (prio : Priority)
  | suspend (id : Int)
  | resume (id : Int)
  | sleep (id : Int) (seconds : ℚ)

section Runs

variable {Fn Arg World : Type} [DecidableEq Fn] [DecidableEq Arg]

/-- The result and the table; a call without a result counts as returning 0. -/
def Call.run (c : Call Fn Arg) (s : Table Fn Arg) : Int × Table Fn Arg :=
  match c with
  | addTask fn arg => s.addTask fn arg
  | removeTask id => (0, s.removeTask id)
  | removeByFn fn => (0, s.removeByFn fn)
  | setPriority id prio => (0, s.setPriority id prio)
  | suspend id => (0, s.suspend id)
  | resume id => (0, s.resume id)
  | sleep id seconds => (0, s.sleep id seconds)

/-- What one activation of a task does, up to the world it leaves behind. -/
inductive Script (Fn Arg World : Type) where
  | done (world : World)
  | call (c : Call Fn Arg) (next : Int → Script Fn Arg World)

/-- What is recorded of a run: activations, and calls that returned. -/
inductive Event (Fn Arg : Type) where
  | activated (id : Int) (fn : Fn) (table : Table Fn Arg)
  | returned (c : Call Fn Arg) (result : Int) (table : Table Fn Arg)

def Event.table : Event Fn Arg → Table Fn Arg
  | activated _ _ table => table
  | returned _ _ table => table

/-- The table, the state the tasks share, and the record, latest first. -/
structure Machine (Fn Arg World : Type) where
  table : Table Fn Arg
  world : World
  events : List (Event Fn Arg)

/-- What the tasks do: the code behind the function pointers. -/
abbrev Callbacks (Fn Arg World : Type) :=
  Fn → Option Arg → ℚ → World → Script Fn Arg World

def modifyTable (f : Table Fn Arg → Table Fn Arg) :
    Program (Machine Fn Arg World) Unit :=
  modify fun m => { m with table := f m.table }

def makeCall (c : Call Fn Arg) : Program (Machine Fn Arg World) Int := do
  let m ← get
  let (result, table) := c.run m.table
  set { m with
    table := table
    events := .returned c result table :: m.events }
  return result

def runScript : Script Fn Arg World → Program (Machine Fn Arg World) Unit
  | .done world => modify fun m => { m with world := world }
  | .call c next => do
      let result ← makeCall c
      runScript (next result)

variable (callbacks : Callbacks Fn Arg World)

/-- `run_task`; calling a null pointer would stop the processor. -/
def runTask (idx : Int) (dt : ℚ) : Program (Machine Fn Arg World) Unit := do
  let m ← get
  let task := m.table.tasks (slot idx)
  match task.fn with
  | none => trap
  | some fn =>
      set { m with events := .activated idx fn m.table :: m.events }
      runScript (callbacks fn task.arg dt m.world)
      modifyTable fun s =>
        let task := s.tasks (slot idx)
        s.set (slot idx) { task with stats :=
          { runCount := task.stats.runCount + 1
            totalTime := task.stats.totalTime + dt } }

def runBand (prio : Priority) (dt : ℚ) :
    (count i : Nat) → Program (Machine Fn Arg World) Unit
  | 0, _ => pure ()
  | count + 1, i => do
      let s := (← get).table
      let idx := wrap (s.nextIndex + i)
      let task := s.tasks (slot idx)
      if task.state = .ready ∧ task.fn ≠ none ∧ task.prio = prio then
        runTask callbacks idx dt
      runBand prio dt count (i + 1)

def runAll (dt : ℚ) : Program (Machine Fn Arg World) Unit := do
  modifyTable (Table.tickSleepTimers dt)
  runBand callbacks prioCritical dt 16 0
  runBand callbacks prioHigh dt 16 0
  runBand callbacks prioNormal dt 16 0
  runBand callbacks prioLow dt 16 0
  modifyTable fun s => { s with nextIndex := wrap (s.nextIndex + 1) }

def runFirst (dt : ℚ) : (count i : Nat) → Program (Machine Fn Arg World) Unit
  | 0, _ => pure ()
  | count + 1, i => do
      let s := (← get).table
      let idx := wrap (s.nextIndex + i)
      let task := s.tasks (slot idx)
      if task.state = .ready ∧ task.fn ≠ none then
        runTask callbacks idx dt
        modifyTable fun s => { s with nextIndex := wrap (idx + 1) }
      else
        runFirst dt count (i + 1)

def runOnce (dt : ℚ) : Program (Machine Fn Arg World) Unit := do
  modifyTable (Table.tickSleepTimers dt)
  runFirst callbacks dt 16 0

/-- What the program around the scheduler calls. -/
inductive Op (Fn Arg : Type) where
  | call (c : Call Fn Arg)
  | runOnce (dt : ℚ)
  | runAll (dt : ℚ)

def Op.run : Op Fn Arg → Program (Machine Fn Arg World) Unit
  | call c => do
      let _ ← makeCall c
  | runOnce dt => Scheduler.runOnce callbacks dt
  | runAll dt => Scheduler.runAll callbacks dt

def runOps : List (Op Fn Arg) → Program (Machine Fn Arg World) Unit
  | [] => pure ()
  | op :: ops => do
      op.run callbacks
      runOps ops

end Runs

end EntropyOS.Scheduler
