import EntropyOS.Scheduler.Fairness

/-!
# Tasks that change the table under the scan

`scheduler_run_all` looks up the cursor and the priority of a slot anew at each
step, and a task can change both.  The round is sound as long as no call moves
a task from one side of the scan to the other: what has run has to stay behind
the scan, and what is still to run ahead of it.
-/

namespace EntropyOS.Scheduler

open EntropyOS.Foundation

section Positions

variable {Fn Arg : Type}

/-- The band that is being scanned, and the number of slots done in it. -/
structure Scan where
  band : Nat
  position : Nat

/-- The scan does not come to a slot of this priority, so far from the cursor. -/
def Scan.Passed (scan : Scan) (prio : Priority) (distance : Nat) : Prop :=
  scan.band < prio.toNat ∨
    prio.toNat = scan.band ∧ distance < scan.position

/-- Where the scan is once the latest activation is over. -/
def scanAt : List (Event Fn Arg) → Scan
  | [] => ⟨0, 0⟩
  | .activated id _ table :: _ =>
      { band := (table.tasks (slot id)).prio.toNat
        position := gap (slot table.nextIndex) (slot id) + 1 }
  | .returned .. :: earlier => scanAt earlier

def Event.task? : Event Fn Arg → Option (Fn × Option Arg)
  | activated id fn table => some (fn, (table.tasks (slot id)).arg)
  | returned .. => none

def invoked (events : List (Event Fn Arg)) : List (Fn × Option Arg) :=
  events.filterMap Event.task?

def Table.HasRun (s : Table Fn Arg) (events : List (Event Fn Arg))
    (j : Fin 16) : Prop :=
  ∃ fn, (s.tasks j).fn = some fn ∧ (fn, (s.tasks j).arg) ∈ invoked events

/-- The call removes the task in the slot or changes its priority. -/
def Call.Names (j : Fin 16) : Call Fn Arg → Prop
  | removeTask id | setPriority id _ => id = (j.val : Int)
  | _ => False

/-- The round that starts with this table has to invoke the task in the slot. -/
structure Owed (entry : Table Fn Arg) (events : List (Event Fn Arg))
    (j : Fin 16) : Prop where
  ready : (entry.tasks j).state = .ready
  prio : (entry.tasks j).prio ≤ prioCritical
  left : ∀ c result table, .returned c result table ∈ events → ¬ c.Names j

/-- The task in the slot lies behind the scan. -/
def Table.Behind (s : Table Fn Arg) (scan : Scan) (j : Fin 16) : Prop :=
  scan.Passed (s.tasks j).prio (gap (slot s.nextIndex) j)

/-- Every task runs at most once, and every task that is owed a run has one. -/
structure RunsOnce (entry : Table Fn Arg) (events : List (Event Fn Arg)) :
    Prop where
  once : (invoked events).Nodup
  all : ∀ j, Owed entry events j → entry.HasRun events j

variable [DecidableEq Fn] [DecidableEq Arg]

/--
No task that has run comes to lie ahead of the scan, and none that is owed a
run behind it.  An addition moves the cursor, and with it the distances of all
slots; the new task itself lies furthest from the new cursor.
-/
def Call.Orderly (entry : Table Fn Arg) (events : List (Event Fn Arg))
    (s : Table Fn Arg) : Call Fn Arg → Prop
  | setPriority id prio => idValid id → s.HasRun events (slot id) →
      (scanAt events).Passed prio (gap (slot s.nextIndex) (slot id))
  | addTask fn arg =>
      let distance := gap (slot (s.addTask fn arg).2.nextIndex)
      (∀ j, (s.tasks j).state = .ready → s.HasRun events j →
        (scanAt events).Passed (s.tasks j).prio (distance j)) ∧
      (∀ j, Owed entry events j →
        (scanAt events).Passed (s.tasks j).prio (distance j) →
        s.Behind (scanAt events) j) ∧
      (s.New fn arg → (∃ i, (s.tasks i).state = .empty) →
        (∃ f, fn = some f ∧ (f, arg) ∈ invoked events) →
        (scanAt events).Passed prioNormal 15)
  | _ => True

/-- Every call in the round is orderly, where it was made. -/
def Orderly (entry : Table Fn Arg) : List (Event Fn Arg) → Prop
  | .returned c _ _ :: e :: earlier =>
      c.Orderly entry (e :: earlier) e.table ∧ Orderly entry (e :: earlier)
  | _ :: earlier => Orderly entry earlier
  | [] => True

end Positions

section Tables

variable {Fn Arg : Type} {s : Table Fn Arg}

theorem slot_eq_iff {id : Int} (h : idValid id) {j : Fin 16} :
    slot id = j ↔ id = (j.val : Int) := by
  have hj := j.isLt
  rw [idValid] at h
  rw [Fin.ext_iff]
  simp only [slot, Fin.ofNat]
  omega

theorem Table.removeTask_cases (s : Table Fn Arg) (id : Int) (j : Fin 16) :
    (s.removeTask id).tasks j = s.tasks j ∨
      id = (j.val : Int) ∧ ((s.removeTask id).tasks j).state = .empty := by
  unfold Table.removeTask
  split
  · exact Or.inl rfl
  next hvalid =>
  split
  · exact Or.inl rfl
  by_cases hj : j = slot id
  · subst hj
    right
    simp only [Table.set_self, and_true]
    exact (slot_eq_iff (not_not.mp hvalid)).mp rfl
  · exact Or.inl (Table.set_other _ hj)

theorem Table.setPriority_cases (s : Table Fn Arg) (id : Int)
    (prio : Priority) (j : Fin 16) :
    (s.setPriority id prio).tasks j = s.tasks j ∨
      idValid id ∧ slot id = j ∧
        (s.setPriority id prio).tasks j = { s.tasks j with prio := prio } := by
  unfold Table.setPriority
  split
  · exact Or.inl rfl
  next hvalid =>
  split
  · exact Or.inl rfl
  by_cases hj : j = slot id
  · subst hj
    right
    rw [Table.set_self]
    exact ⟨not_not.mp hvalid, rfl, rfl⟩
  · exact Or.inl (Table.set_other _ hj)

theorem Table.setPriority_nextIndex (s : Table Fn Arg) (id : Int)
    (prio : Priority) : (s.setPriority id prio).nextIndex = s.nextIndex := by
  unfold Table.setPriority
  split
  · rfl
  split
  · rfl
  · rfl

theorem gap_behind {index : Int} (h : 0 ≤ index) :
    gap (slot (index + 1)) (slot index) = 15 := by
  simp only [gap, slot, Fin.ofNat]
  omega

end Tables

section Tracking

variable {Fn Arg : Type} {s s' : Table Fn Arg}

@[simp] theorem invoked_returned (c : Call Fn Arg) (result : Int)
    (table : Table Fn Arg) (events : List (Event Fn Arg)) :
    invoked (.returned c result table :: events) = invoked events := rfl

@[simp] theorem invoked_activated (id : Int) (fn : Fn) (table : Table Fn Arg)
    (events : List (Event Fn Arg)) :
    invoked (.activated id fn table :: events) =
      (fn, (table.tasks (slot id)).arg) :: invoked events := rfl

theorem Owed.tail {entry : Table Fn Arg} {e : Event Fn Arg}
    {events : List (Event Fn Arg)} {j : Fin 16}
    (h : Owed entry (e :: events) j) : Owed entry events j :=
  ⟨h.ready, h.prio, fun c result table hc =>
    h.left c result table (List.mem_cons_of_mem _ hc)⟩

theorem Table.hasRun_congr {events : List (Event Fn Arg)} {j : Fin 16}
    (h : s'.tasks j = s.tasks j) : s'.HasRun events j ↔ s.HasRun events j := by
  rw [Table.HasRun, Table.HasRun, h]

theorem Table.behind_congr {scan : Scan} {j : Fin 16}
    (h : s'.tasks j = s.tasks j) (hnext : s'.nextIndex = s.nextIndex) :
    s'.Behind scan j ↔ s.Behind scan j := by
  rw [Table.Behind, Table.Behind, h, hnext]

/-- What has run lies behind the scan, and what is owed a run lies ahead. -/
structure Tracks (entry : Table Fn Arg) (events : List (Event Fn Arg))
    (scan : Scan) (s : Table Fn Arg) : Prop where
  once : (invoked events).Nodup
  ran : ∀ j, (s.tasks j).state = .ready → s.HasRun events j → s.Behind scan j
  kept : ∀ j, Owed entry events j →
    ∃ stats, s.tasks j = { entry.tasks j with stats := stats }
  owed : ∀ j, Owed entry events j → s.Behind scan j → s.HasRun events j

namespace Tracks

variable {entry : Table Fn Arg} {events : List (Event Fn Arg)} {scan : Scan}

theorem ready (h : Tracks entry events scan s) {j : Fin 16}
    (howed : Owed entry events j) : (s.tasks j).state = .ready := by
  obtain ⟨stats, heq⟩ := h.kept j howed
  rw [heq]
  exact howed.ready

theorem start (h : ∀ j, (entry.tasks j).prio ≤ prioCritical →
    ¬ entry.Behind scan j) : Tracks entry [] scan entry := by
  constructor
  case once => exact List.nodup_nil
  case ran =>
    rintro j - ⟨fn, -, hmem⟩
    cases hmem
  case kept => exact fun j _ => ⟨(entry.tasks j).stats, rfl⟩
  case owed => exact fun j howed hbehind => absurd hbehind (h j howed.prio)

/-- The scan moves on, past no slot that still has to run. -/
theorem advance (h : Tracks entry events scan s) {scan' : Scan}
    (hpassed : ∀ prio distance, scan.Passed prio distance →
      scan'.Passed prio distance)
    (hskipped : ∀ j, (s.tasks j).state = .ready → s.Behind scan' j →
      s.Behind scan j) : Tracks entry events scan' s where
  once := h.once
  ran j hready hran := hpassed _ _ (h.ran j hready hran)
  kept := h.kept
  owed j howed hbehind :=
    h.owed j howed (hskipped j (h.ready howed) hbehind)

/-- The slot at the scan runs: it has not run before, and lies behind now. -/
theorem activate {b i : Nat} (h : Tracks entry events ⟨b, i⟩ s) (hok : s.Ok)
    {id : Int} {fn : Fn} (hready : (s.tasks (slot id)).state = .ready)
    (hfn : (s.tasks (slot id)).fn = some fn)
    (hprio : (s.tasks (slot id)).prio.toNat = b)
    (hgap : gap (slot s.nextIndex) (slot id) = i) :
    Tracks entry (.activated id fn s :: events) ⟨b, i + 1⟩ s := by
  have hpassed : ∀ prio distance, Scan.Passed ⟨b, i⟩ prio distance →
      Scan.Passed ⟨b, i + 1⟩ prio distance := by
    rintro prio distance (hband | ⟨hband, hless⟩)
    · exact Or.inl hband
    · exact Or.inr ⟨hband, Nat.lt_succ_of_lt hless⟩
  constructor
  case once =>
    rw [invoked_activated, List.nodup_cons]
    refine ⟨fun hmem => ?_, h.once⟩
    rcases h.ran (slot id) hready ⟨fn, hfn, hmem⟩ with hband | ⟨-, hless⟩
    · exact absurd hprio (Nat.ne_of_gt hband)
    · exact absurd hgap (Nat.ne_of_lt hless)
  case ran =>
    rintro j hj ⟨fn', hfn', hmem⟩
    rw [invoked_activated, List.mem_cons] at hmem
    rcases hmem with heq | hmem
    · obtain ⟨rfl, harg⟩ := Prod.mk.inj heq
      have hsame : j = slot id := by
        apply hok.unique j (slot id)
        · simp [hj]
        · simp [hready]
        · rw [hfn', hfn]
        · exact harg
      rw [hsame]
      exact Or.inr ⟨hprio, by rw [hgap]; exact Nat.lt_succ_self i⟩
    · exact hpassed _ _ (h.ran j hj ⟨fn', hfn', hmem⟩)
  case kept => exact fun j howed => h.kept j howed.tail
  case owed =>
    intro j howed hbehind
    by_cases hj : j = slot id
    · rw [hj]
      exact ⟨fn, hfn, List.mem_cons_self⟩
    · have hbefore : s.Behind ⟨b, i⟩ j := by
        rcases hbehind with hband | ⟨hband, hless⟩
        · exact Or.inl hband
        · refine Or.inr ⟨hband, ?_⟩
          have hval : j.val ≠ (slot id).val := fun heq => hj (Fin.ext heq)
          simp only [gap] at hgap hless ⊢
          omega
      obtain ⟨fn', hfn', hmem⟩ := h.owed j howed.tail hbefore
      exact ⟨fn', hfn', List.mem_cons_of_mem _ hmem⟩

theorem stats (h : Tracks entry events scan s) (i : Fin 16)
    (stats : TaskStats) :
    Tracks entry events scan (s.set i { s.tasks i with stats := stats }) := by
  have hsame : ∀ j, ∃ stats', (s.set i { s.tasks i with stats := stats }).tasks j =
      { s.tasks j with stats := stats' } := by
    intro j
    by_cases hj : j = i
    · subst hj
      exact ⟨stats, Table.set_self j _⟩
    · exact ⟨(s.tasks j).stats, Table.set_other _ hj⟩
  constructor
  case once => exact h.once
  case ran =>
    intro j hready hran
    obtain ⟨stats', heq⟩ := hsame j
    rw [Table.HasRun, heq] at hran
    rw [heq] at hready
    rw [Table.Behind, heq]
    exact h.ran j hready hran
  case kept =>
    intro j howed
    obtain ⟨stats', heq⟩ := hsame j
    obtain ⟨before, hentry⟩ := h.kept j howed
    exact ⟨stats', by rw [heq, hentry]⟩
  case owed =>
    intro j howed hbehind
    obtain ⟨stats', heq⟩ := hsame j
    rw [Table.Behind, heq] at hbehind
    rw [Table.HasRun, heq]
    exact h.owed j howed hbehind

/-- A call that leaves the slots that are owed a run where they are. -/
theorem change (h : Tracks entry events scan s) {c : Call Fn Arg} {result : Int}
    {table : Table Fn Arg}
    (hran : ∀ j, (s'.tasks j).state = .ready → s'.HasRun events j →
      s'.Behind scan j)
    (howed : ∀ j, Owed entry events j → ¬ c.Names j →
      s'.tasks j = s.tasks j ∧ (s'.Behind scan j → s.Behind scan j)) :
    Tracks entry (.returned c result table :: events) scan s' := by
  have hleft : ∀ j, Owed entry (.returned c result table :: events) j →
      s'.tasks j = s.tasks j ∧ (s'.Behind scan j → s.Behind scan j) :=
    fun j hj => howed j hj.tail (hj.left c result table List.mem_cons_self)
  constructor
  case once => exact h.once
  case ran => exact hran
  case kept =>
    intro j hj
    rw [(hleft j hj).1]
    exact h.kept j hj.tail
  case owed =>
    intro j hj hbehind
    exact (Table.hasRun_congr (hleft j hj).1).mpr
      (h.owed j hj.tail ((hleft j hj).2 hbehind))

section Calls

variable [DecidableEq Fn] [DecidableEq Arg] {result : Int}
  {table : Table Fn Arg}

omit [DecidableEq Fn] [DecidableEq Arg] in
theorem removeTask (h : Tracks entry events scan s) (id : Int) :
    Tracks entry (.returned (.removeTask id) result table :: events) scan
      (s.removeTask id) := by
  apply h.change
  · intro j hready hran
    rcases s.removeTask_cases id j with hsame | ⟨-, hempty⟩
    · rw [hsame] at hready
      exact (Table.behind_congr hsame (s.removeTask_nextIndex id)).mpr
        (h.ran j hready ((Table.hasRun_congr hsame).mp hran))
    · rw [hready] at hempty
      cases hempty
  · intro j _ hother
    rcases s.removeTask_cases id j with hsame | ⟨hid, -⟩
    · exact ⟨hsame, (Table.behind_congr hsame (s.removeTask_nextIndex id)).mp⟩
    · exact absurd hid hother

theorem setPriority (h : Tracks entry events (scanAt events) s) {id : Int}
    {prio : Priority}
    (horderly : (Call.setPriority id prio).Orderly entry events s) :
    Tracks entry (.returned (.setPriority id prio) result table :: events)
      (scanAt events) (s.setPriority id prio) := by
  have hnext := s.setPriority_nextIndex id prio
  apply h.change
  · intro j hready hran
    rcases s.setPriority_cases id prio j with hsame | ⟨hvalid, hslot, heq⟩
    · rw [hsame] at hready
      exact (Table.behind_congr hsame hnext).mpr
        (h.ran j hready ((Table.hasRun_congr hsame).mp hran))
    · subst hslot
      rw [Table.HasRun, heq] at hran
      rw [Table.Behind, heq, hnext]
      exact horderly hvalid hran
  · intro j _ hother
    rcases s.setPriority_cases id prio j with hsame | ⟨hvalid, hslot, -⟩
    · exact ⟨hsame, (Table.behind_congr hsame hnext).mp⟩
    · exact absurd ((slot_eq_iff hvalid).mp hslot) hother

theorem addTask (h : Tracks entry events (scanAt events) s) (hok : s.Ok)
    {fn : Option Fn} {arg : Option Arg}
    (horderly : (Call.addTask fn arg).Orderly entry events s) :
    Tracks entry (.returned (.addTask fn arg) result table :: events)
      (scanAt events) (s.addTask fn arg).2 := by
  obtain ⟨hran, howed, hagain⟩ := horderly
  rcases s.addTask_cases fn arg with hsame | ⟨hnew, i, f, rfl, -, hfree, -, heq⟩
  · rw [hsame]
    exact h.change h.ran fun j _ _ => ⟨rfl, id⟩
  have hnext := hok.next
  have hidx := @wrap_range (s.nextIndex + i) (by omega)
  rw [heq] at hran howed ⊢
  generalize hi : slot (wrap (s.nextIndex + (i : Nat))) = new at *
  have hother : ∀ j, j ≠ new → ∀ count next,
      ({ s.set new (newTask f arg) with
        taskCount := count
        nextIndex := next } : Table Fn Arg).tasks j = s.tasks j :=
    fun j hj _ _ => Table.set_other _ hj
  apply h.change
  · intro j hready hasRun
    by_cases hj : j = new
    · subst hj
      have htask : ∀ count next,
          ({ s.set j (newTask f arg) with
            taskCount := count
            nextIndex := next } : Table Fn Arg).tasks j = newTask f arg :=
        fun _ _ => Table.set_self j _
      obtain ⟨f', hf', hmem⟩ := hasRun
      rw [htask] at hf' hmem
      cases hf'
      rw [Table.Behind, htask, slot_wrap (by omega), ← hi, gap_behind hidx.1]
      exact hagain hnew ⟨j, hfree⟩ ⟨f, rfl, hmem⟩
    · have hsame := hother j hj (s.taskCount + 1)
        (wrap (wrap (s.nextIndex + i) + 1))
      rw [hsame] at hready
      rw [Table.Behind, hsame]
      exact hran j hready ((Table.hasRun_congr hsame).mp hasRun)
  · intro j hj _
    have hne : j ≠ new := by
      rintro rfl
      rw [h.ready hj] at hfree
      cases hfree
    have hsame := hother j hne (s.taskCount + 1)
      (wrap (wrap (s.nextIndex + i) + 1))
    refine ⟨hsame, fun hbehind => ?_⟩
    rw [Table.Behind, hsame] at hbehind
    exact howed j hj hbehind

end Calls

end Tracks

end Tracking

/-! ## Rounds -/

/-- `scheduler_add_task`, `scheduler_set_priority` or `scheduler_remove_task`. -/
def Call.Manages {Fn Arg : Type} : Call Fn Arg → Prop
  | addTask .. | setPriority .. | removeTask _ => True
  | _ => False

/-- Every call in the script is of this kind, whatever the calls return. -/
def Script.Only {Fn Arg World : Type} (P : Call Fn Arg → Prop) :
    Script Fn Arg World → Prop
  | .done _ => True
  | .call c next => P c ∧ ∀ result, (next result).Only P

section Rounds

variable {Fn Arg World : Type} [DecidableEq Fn] [DecidableEq Arg]
  {entry : Table Fn Arg} {past : List (Event Fn Arg)}
  {m m' : Machine Fn Arg World}

/-- The events since `past` are tracked up to the scan. -/
structure Progress (entry : Table Fn Arg) (past : List (Event Fn Arg))
    (scan : Scan) (m : Machine Fn Arg World) : Prop where
  table : m.table.Ok
  tracks : ∃ new, m.events = new ++ past ∧
    (Orderly entry new → Tracks entry new scan m.table)

/-- The same while a task runs; the last event left the table as it is. -/
structure Midway (entry : Table Fn Arg) (past : List (Event Fn Arg))
    (scan : Scan) (m : Machine Fn Arg World) : Prop where
  table : m.table.Ok
  tracks : ∃ e earlier, m.events = e :: earlier ++ past ∧
    e.table = m.table ∧ scanAt (e :: earlier) = scan ∧
    (Orderly entry (e :: earlier) →
      Tracks entry (e :: earlier) scan m.table)

theorem Midway.call {scan : Scan} (h : Midway entry past scan m)
    {c : Call Fn Arg} (hmanages : c.Manages) :
    Midway entry past scan { m with
      table := (c.run m.table).2
      events := .returned c (c.run m.table).1 (c.run m.table).2 :: m.events } := by
  obtain ⟨e, earlier, hevents, htable, rfl, htracks⟩ := h.tracks
  refine ⟨h.table.call c, .returned c (c.run m.table).1 (c.run m.table).2,
    e :: earlier, ?_, rfl, rfl, ?_⟩
  · rw [hevents]
    rfl
  · rintro ⟨hcall, horderly⟩
    rw [htable] at hcall
    have hbefore := htracks horderly
    cases c with
    | addTask fn arg => exact hbefore.addTask h.table hcall
    | removeTask id => exact hbefore.removeTask id
    | setPriority id prio => exact hbefore.setPriority hcall
    | removeByFn | suspend | resume | sleep => cases hmanages

theorem Midway.runScript {scan : Scan} {script : Script Fn Arg World}
    (honly : script.Only Call.Manages) (h : Midway entry past scan m)
    (hrun : runScript script m = some ((), m')) :
    Midway entry past scan m' := by
  induction script generalizing m with
  | done world =>
      cases hrun
      exact ⟨h.table, h.tracks⟩
  | call c next ih =>
      obtain ⟨result, middle, hcall, hrest⟩ := Program.exists_of_bind hrun
      cases hcall
      exact ih _ (honly.2 _) (h.call honly.1) hrest

variable {callbacks : Callbacks Fn Arg World}
  (honly : ∀ fn arg dt world, (callbacks fn arg dt world).Only Call.Manages)

include honly

theorem Progress.runTask {prio : Priority} {i : Nat} {idx : Int} {dt : ℚ}
    (h : Progress entry past ⟨prio.toNat, i⟩ m)
    (hready : (m.table.tasks (slot idx)).state = .ready)
    (hprio : (m.table.tasks (slot idx)).prio = prio)
    (hgap : gap (slot m.table.nextIndex) (slot idx) = i)
    (hrun : runTask callbacks idx dt m = some ((), m')) :
    Progress entry past ⟨prio.toNat, i + 1⟩ m' := by
  obtain ⟨new, hevents, htracks⟩ := h.tracks
  obtain ⟨fn, hfn⟩ :=
    Option.ne_none_iff_exists'.mp (h.table.runnable hready).2
  unfold Scheduler.runTask at hrun
  rw [Program.get_bind] at hrun
  simp only [hfn] at hrun
  have hstart : Midway entry past ⟨prio.toNat, i + 1⟩
      { m with events := .activated idx fn m.table :: m.events } := by
    refine ⟨h.table, .activated idx fn m.table, new, ?_, rfl, ?_, ?_⟩
    · rw [hevents]
      rfl
    · rw [scanAt, hprio, hgap]
    · intro horderly
      exact (htracks horderly).activate h.table hready hfn (by rw [hprio]) hgap
  obtain ⟨_, _, hset, hrest⟩ := Program.exists_of_bind hrun
  cases hset
  obtain ⟨_, ended, hscript, hlast⟩ := Program.exists_of_bind hrest
  have hended := hstart.runScript (honly _ _ _ _) hscript
  cases hlast
  obtain ⟨e, earlier, hevents', -, -, htracks'⟩ := hended.tracks
  constructor
  case table =>
    have htask := hended.table.tasks (slot idx)
    exact hended.table.set ⟨htask.fn, htask.asleep, htask.awake⟩
      ⟨rfl, rfl, Iff.rfl⟩
  case tracks =>
    exact ⟨e :: earlier, hevents', fun horderly =>
      (htracks' horderly).stats (slot idx) _⟩

theorem Progress.runBand {prio : Priority} {count i : Nat} {dt : ℚ}
    (h : Progress entry past ⟨prio.toNat, i⟩ m) (hcount : i + count = 16)
    (hrun : runBand callbacks prio dt count i m = some ((), m')) :
    Progress entry past ⟨prio.toNat, 16⟩ m' := by
  induction count generalizing m i with
  | zero =>
      cases hrun
      rw [Nat.add_zero] at hcount
      rw [← hcount]
      exact h
  | succ count ih =>
      rw [Scheduler.runBand, Program.get_bind]
        at hrun
      have hnext := h.table.next
      have hslot : slot (wrap (m.table.nextIndex + (i : Nat))) =
          slot (m.table.nextIndex + i) := slot_wrap (by omega)
      have hgap := @gap_slot m.table.nextIndex hnext.1 i (by omega)
      rw [← hslot] at hgap
      split at hrun
      · next hready =>
          obtain ⟨_, middle, hfirst, hrest⟩ := Program.exists_of_bind hrun
          exact ih (h.runTask honly hready.1 hready.2.2 hgap hfirst) (by omega)
            hrest
      · next hidle =>
          refine ih ⟨h.table, ?_⟩ (by omega) hrun
          obtain ⟨new, hevents, htracks⟩ := h.tracks
          refine ⟨new, hevents, fun horderly => (htracks horderly).advance ?_ ?_⟩
          · rintro prio' distance (hband | ⟨hband, hless⟩)
            · exact Or.inl hband
            · exact Or.inr ⟨hband, Nat.lt_succ_of_lt hless⟩
          · rintro j hready (hband | ⟨hband, hless⟩)
            · exact Or.inl hband
            refine Or.inr ⟨hband, lt_of_le_of_ne (Nat.le_of_lt_succ hless) ?_⟩
            -- the slot at the scan is not one that is ready in this band
            intro heq
            have hdistance : gap (slot m.table.nextIndex) j = i := heq
            have hj : j = slot (wrap (m.table.nextIndex + (i : Nat))) := by
              rw [hslot, ← hdistance, slot_gap hnext.1]
            rw [hj] at hready hband
            exact hidle ⟨hready, (h.table.runnable hready).2,
              UInt32.toNat_inj.mp hband⟩

theorem Progress.runBelow {prio : Priority} {scan : Scan} {dt : ℚ}
    (h : Progress entry past scan m) (hband : scan.band = prio.toNat + 1)
    (hover : scan.position = 16)
    (hrun : Scheduler.runBand callbacks prio dt 16 0 m = some ((), m')) :
    Progress entry past ⟨prio.toNat, 16⟩ m' := by
  refine Progress.runBand honly ⟨h.table, ?_⟩ rfl hrun
  obtain ⟨new, hevents, htracks⟩ := h.tracks
  refine ⟨new, hevents, fun horderly => (htracks horderly).advance ?_ ?_⟩
  · intro prio' distance hpassed
    unfold Scan.Passed at *
    simp only
    omega
  · intro j _ hbehind
    have hgap := gap_lt (slot m.table.nextIndex) j
    unfold Table.Behind Scan.Passed at *
    simp only at hbehind
    omega

theorem tracks_runAll {dt : ℚ} (hm : m.table.Ok)
    (hrun : runAll callbacks dt m = some ((), m')) :
    ∃ new s, m'.events = new ++ m.events ∧
      (Orderly (m.table.tickSleepTimers dt) new →
        Tracks (m.table.tickSleepTimers dt) new ⟨0, 16⟩ s) := by
  obtain ⟨_, ticked, htick, hrest⟩ := Program.exists_of_bind hrun
  cases htick
  have hstart : Progress (m.table.tickSleepTimers dt) m.events
      ⟨prioCritical.toNat, 0⟩ { m with table := m.table.tickSleepTimers dt } := by
    refine ⟨hm.tickSleepTimers dt, [], rfl, fun _ => Tracks.start ?_⟩
    rintro j hprio (hband | ⟨-, hless⟩)
    · exact absurd (UInt32.le_iff_toNat_le.mp hprio) (Nat.not_le.mpr hband)
    · exact absurd hless (Nat.not_lt_zero _)
  obtain ⟨_, first, hcritical, hrest⟩ := Program.exists_of_bind hrest
  have hfirst := hstart.runBand honly rfl hcritical
  obtain ⟨_, second, hhigh, hrest⟩ := Program.exists_of_bind hrest
  have hsecond := hfirst.runBelow honly rfl rfl hhigh
  obtain ⟨_, third, hnormal, hrest⟩ := Program.exists_of_bind hrest
  have hthird := hsecond.runBelow honly rfl rfl hnormal
  obtain ⟨_, last, hlow, hrest⟩ := Program.exists_of_bind hrest
  obtain ⟨new, hevents, htracks⟩ := (hthird.runBelow honly rfl rfl hlow).tracks
  cases hrest
  exact ⟨new, last.table, hevents, htracks⟩

/--
Whatever happened before, a round that the tasks do not disorder invokes no
task twice, and every task that is ready after the timers tick and that nobody
removes or gives another priority.
-/
theorem each_task_runs_once {before : Callbacks Fn Arg World} (world : World)
    {ops : List (Op Fn Arg)}
    (hpast : runOps before ops ⟨Table.init, world, []⟩ = some ((), m)) (dt : ℚ) :
    ∃ m' new, runAll callbacks dt m = some ((), m') ∧
      m'.events = new ++ m.events ∧
      (Orderly (m.table.tickSleepTimers dt) new →
        RunsOnce (m.table.tickSleepTimers dt) new) := by
  have hm := (keeps_runOps before ops).ok ⟨Table.init_ok, by simp⟩ hpast
  obtain ⟨_, m', hrun, -⟩ := keeps_op callbacks (.runAll dt) m hm
  obtain ⟨new, s, hevents, htracks⟩ := tracks_runAll honly hm.table hrun
  refine ⟨m', new, hrun, hevents, fun horderly => ?_⟩
  have hdone := htracks horderly
  refine ⟨hdone.once, fun j howed => ?_⟩
  have hbehind : s.Behind ⟨0, 16⟩ j := by
    rcases Nat.eq_zero_or_pos (s.tasks j).prio.toNat with hzero | hpos
    · exact Or.inr ⟨hzero, gap_lt _ j⟩
    · exact Or.inl hpos
  have hran := hdone.owed j howed hbehind
  obtain ⟨stats, heq⟩ := hdone.kept j howed
  rw [Table.HasRun, heq] at hran
  exact hran

end Rounds

/-- The tasks give the task in the first slot this priority. -/
def setsFirst (prio : Priority) : Callbacks Unit Unit Unit := fun _ _ _ world =>
  .call (.setPriority 0 prio) fun _ => .done world

def addsThird : Callbacks (Fin 3) Unit Unit := fun fn _ _ world =>
  match fn with
  | 0 => .call (.addTask (some 2) none) fun _ => .done world
  | _ => .done world

theorem raised_task_runs_once :
    ∃ m m' new, runOps (idleTask : Callbacks Unit Unit Unit)
        [.call (.addTask (some ()) none)] ⟨Table.init, (), []⟩ = some ((), m) ∧
      runAll (setsFirst prioCritical) 1 m = some ((), m') ∧
      m'.events = new ++ m.events ∧ new ≠ [] ∧
      RunsOnce (m.table.tickSleepTimers 1) new := by
  let one : Table Unit Unit := { Table.init.set 0 (newTask () none) with
    taskCount := 1
    nextIndex := 1 }
  let ticked := one.tickSleepTimers 1
  let m : Machine Unit Unit Unit :=
    ⟨one, (), [.returned (.addTask (some ()) none) 0 one]⟩
  have hone : (Call.addTask (some ()) none).run Table.init = (0, one) := rfl
  have hpast : runOps (idleTask : Callbacks Unit Unit Unit)
      [.call (.addTask (some ()) none)] ⟨Table.init, (), []⟩ = some ((), m) := by
    rw [runOps_cons (run_call hone)]
    rfl
  have honly : ∀ fn arg dt world,
      (setsFirst prioCritical fn arg dt world).Only Call.Manages :=
    fun _ _ _ _ => ⟨trivial, fun _ => trivial⟩
  obtain ⟨m', new, hrun, hevents, honce⟩ :=
    each_task_runs_once honly () hpast 1
  have hround : ∃ last,
      runAll (setsFirst prioCritical) 1 m = some ((), last) ∧ last.events =
        [.returned (.setPriority 0 prioCritical) 0
            (ticked.setPriority 0 prioCritical),
          .activated 0 () ticked] ++ m.events := ⟨_, rfl, rfl⟩
  obtain ⟨last, hlast, hround⟩ := hround
  rw [hrun] at hlast
  cases hlast
  rw [hevents] at hround
  have hnew := List.append_cancel_right hround
  refine ⟨m, m', new, hpast, hrun, hevents, by simp [hnew], honce ?_⟩
  rw [hnew]
  exact ⟨fun _ _ => Or.inl (by decide), trivial⟩

/--
A task that lowers its own priority runs twice.  A task that registers another
one moves the cursor, and the slot behind it is passed over.
-/
theorem demoted_twice_and_passed_over :
    (∃ m m' new, runOps (idleTask : Callbacks Unit Unit Unit)
        [.call (.addTask (some ()) none)] ⟨Table.init, (), []⟩ = some ((), m) ∧
      runAll (setsFirst prioLow) 1 m = some ((), m') ∧
      m'.events = new ++ m.events ∧ ¬ (invoked new).Nodup) ∧
    ∃ m m' new, runOps (idleTask : Callbacks (Fin 3) Unit Unit)
        [.call (.addTask (some 0) none), .call (.addTask (some 1) none)]
        ⟨Table.init, (), []⟩ = some ((), m) ∧
      runAll addsThird 1 m = some ((), m') ∧
      m'.events = new ++ m.events ∧
      Owed (m.table.tickSleepTimers 1) new 1 ∧
      ¬ (m.table.tickSleepTimers 1).HasRun new 1 := by
  constructor
  · let one : Table Unit Unit := { Table.init.set 0 (newTask () none) with
      taskCount := 1
      nextIndex := 1 }
    let m : Machine Unit Unit Unit :=
      ⟨one, (), [.returned (.addTask (some ()) none) 0 one]⟩
    have hone : (Call.addTask (some ()) none).run Table.init = (0, one) := rfl
    have hround : ∃ last new, runAll (setsFirst prioLow) 1 m = some ((), last) ∧
        last.events = new ++ m.events ∧
        invoked new = [((), none), ((), none)] :=
      ⟨_, [.returned _ _ _, .activated _ _ _, .returned _ _ _,
        .activated _ _ _], rfl, rfl, rfl⟩
    obtain ⟨last, new, hrun, hevents, hnew⟩ := hround
    refine ⟨m, last, new, ?_, hrun, hevents, by simp [hnew]⟩
    rw [runOps_cons (run_call hone)]
    rfl
  · let one : Table (Fin 3) Unit := { Table.init.set 0 (newTask 0 none) with
      taskCount := 1
      nextIndex := 1 }
    let two : Table (Fin 3) Unit := { one.set 1 (newTask 1 none) with
      taskCount := 2
      nextIndex := 2 }
    let m : Machine (Fin 3) Unit Unit :=
      ⟨two, (), [.returned (.addTask (some 1) none) 1 two,
        .returned (.addTask (some 0) none) 0 one]⟩
    have hone : (Call.addTask (some 0) none).run Table.init = (0, one) := rfl
    have htwo : (Call.addTask (some 1) none).run one = (1, two) := rfl
    have hround : ∃ last table table' table'',
        runAll addsThird 1 m = some ((), last) ∧ last.events =
          [.activated 2 2 table'', .returned (.addTask (some 2) none) 2 table',
            .activated 0 0 table] ++ m.events := ⟨_, _, _, _, rfl, rfl⟩
    obtain ⟨last, table, table', table'', hrun, hevents⟩ := hround
    refine ⟨m, last, _, ?_, hrun, hevents, ⟨rfl, by decide, ?_⟩, ?_⟩
    · rw [runOps_cons (run_call hone), runOps_cons (run_call htwo)]
      rfl
    · intro c result now hc
      simp only [List.mem_cons, reduceCtorEq, Event.returned.injEq, false_or,
        List.not_mem_nil, or_false] at hc
      rw [hc.1]
      exact id
    · rintro ⟨fn, hfn, hmem⟩
      have hfn : fn = 1 := (Option.some.inj hfn).symm
      subst hfn
      simp [invoked, Event.task?] at hmem

end EntropyOS.Scheduler
