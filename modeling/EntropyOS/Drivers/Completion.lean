import EntropyOS.Drivers.Ahci

/-!
# Completed commands

What `ahci_issue_and_wait` learns from the registers, and what the calls above
it report.  A wait ends when the bit of its slot is clear or when its polls are
spent, and the status alone decides what is reported then.
-/

namespace EntropyOS.Ahci

open EntropyOS.Foundation

/-! ## Polling -/

theorem ahciRead32_apply (base off : Nat) (s : State) :
    ahciRead32 base off s = some (s.shown (base + off), s.look (base + off)) :=
  rfl

theorem ahciWrite32_apply (base off : Nat) (val : UInt32) (s : State) :
    ahciWrite32 base off val s = some ((), s.record (.write (base + off) val)) :=
  rfl

/-- After `n` reads of one register. -/
def State.looked (s : State) (address n : Nat) : State :=
  (fun t : State => t.look address)^[n] s

theorem State.looked_succ (s : State) (address n : Nat) :
    s.looked address (n + 1) = (s.look address).looked address n :=
  Function.iterate_succ_apply _ n s

theorem State.looked_succ' (s : State) (address n : Nat) :
    s.looked address (n + 1) = (s.looked address n).look address :=
  Function.iterate_succ_apply' _ n s

def State.Pending (s : State) (address : Nat) (bits : UInt32) (n : Nat) : Prop :=
  ∀ k < n, (s.looked address k).shown address &&& bits ≠ 0

section Polls

variable {s : State} (base off : Nat) (bits : UInt32) (n : Nat)

theorem State.pending_succ :
    s.Pending (base + off) bits (n + 1) ↔
      s.shown (base + off) &&& bits ≠ 0 ∧
        (s.look (base + off)).Pending (base + off) bits n := by
  constructor
  · intro h
    refine ⟨h 0 (Nat.succ_pos n), fun k hk => ?_⟩
    rw [← State.looked_succ]
    exact h (k + 1) (Nat.succ_lt_succ hk)
  · rintro ⟨hfirst, hrest⟩ k hk
    cases k with
    | zero => exact hfirst
    | succ k =>
        rw [State.looked_succ]
        exact hrest k (Nat.lt_of_succ_lt_succ hk)

/--
The wait ends at the first read that sees the bits clear, or after all of its
reads if none does.
-/
theorem waitClear_cases (s : State) :
    (s.Pending (base + off) bits n ∧
      waitClear base off bits n s = some ((), s.looked (base + off) n)) ∨
    ∃ k < n, s.Pending (base + off) bits k ∧
      (s.looked (base + off) k).shown (base + off) &&& bits = 0 ∧
      waitClear base off bits n s = some ((), s.looked (base + off) (k + 1)) := by
  induction n generalizing s with
  | zero => exact Or.inl ⟨fun k hk => absurd hk (Nat.not_lt_zero k), rfl⟩
  | succ n ih =>
      rw [waitClear, Program.bind_of_some (ahciRead32_apply base off s)]
      by_cases hclear : s.shown (base + off) &&& bits = 0
      · rw [if_pos hclear]
        exact Or.inr ⟨0, Nat.succ_pos n,
          fun k hk => absurd hk (Nat.not_lt_zero k), hclear, rfl⟩
      · rw [if_neg hclear]
        rcases ih (s.look (base + off)) with
          ⟨hpending, hrun⟩ | ⟨k, hk, hpending, hzero, hrun⟩
        · left
          rw [State.looked_succ]
          exact ⟨(State.pending_succ base off bits n).mpr ⟨hclear, hpending⟩, hrun⟩
        · right
          refine ⟨k + 1, Nat.succ_lt_succ hk,
            (State.pending_succ base off bits k).mpr ⟨hclear, hpending⟩, ?_, ?_⟩
          · rw [State.looked_succ]
            exact hzero
          · rw [State.looked_succ]
            exact hrun

end Polls

theorem State.looked_controller (s : State) (address n : Nat) :
    (s.looked address n).controller = s.controller := by
  induction n generalizing s with
  | zero => rfl
  | succ n ih =>
      rw [State.looked_succ, ih]
      rfl

theorem State.looked_accesses (s : State) (address n : Nat) :
    ∃ polls, (s.looked address n).accesses = polls ++ s.accesses ∧
      ∀ access ∈ polls, ∃ k < n,
        access = .read address ((s.looked address k).shown address) := by
  induction n generalizing s with
  | zero => exact ⟨[], rfl, fun access h => absurd h List.not_mem_nil⟩
  | succ n ih =>
      obtain ⟨polls, hlog, hpolls⟩ := ih (s.look address)
      refine ⟨polls ++ [.read address (s.shown address)], ?_, ?_⟩
      · rw [State.looked_succ, hlog, State.look_accesses, List.append_assoc]
        rfl
      · intro access haccess
        rcases List.mem_append.mp haccess with hlater | hfirst
        · obtain ⟨k, hk, hread⟩ := hpolls access hlater
          rw [← State.looked_succ] at hread
          exact ⟨k + 1, Nat.succ_lt_succ hk, hread⟩
        · exact ⟨0, Nat.succ_pos n, List.mem_singleton.mp hfirst⟩

/-! ## Completion -/

/--
Since a command was last issued, and it was that of the slot, a read of PORT_CI
showed its bit clear, and a read of PORT_IS after that showed no error.
-/
def Completed (portBase : Nat) (slot : Fin 32) (accesses : List Access) : Prop :=
  ∃ later earlier issued ci status,
    accesses = (later ++ .read (portBase + portCi) ci :: earlier) ++
      .write (portBase + portCi) (slotBit slot) :: issued ∧
    (∀ access ∈ later ++ earlier, ¬ access.Issues portBase) ∧
    ci &&& slotBit slot = 0 ∧
    .read (portBase + portIs) status ∈ later ∧ status &&& portIsTfes = 0

theorem Completed.append {portBase : Nat} {slot : Fin 32}
    {accesses : List Access} (h : Completed portBase slot accesses)
    (before : List Access) : Completed portBase slot (accesses ++ before) := by
  obtain ⟨later, earlier, issued, ci, status, rfl, hrecent, hci, hstatus⟩ := h
  refine ⟨later, earlier, issued ++ before, ci, status, ?_, hrecent, hci, hstatus⟩
  rw [List.append_assoc]
  rfl

/-- Between two states, a command of the slot was issued and completed. -/
def CompletedIn (portBase : Nat) (slot : Fin 32) (s s' : State) : Prop :=
  ∃ during, s'.accesses = during ++ s.accesses ∧ Completed portBase slot during

theorem CompletedIn.completed {portBase : Nat} {slot : Fin 32} {s s' : State}
    (h : CompletedIn portBase slot s s') :
    Completed portBase slot s'.accesses := by
  obtain ⟨during, hduring, hcompleted⟩ := h
  rw [hduring]
  exact hcompleted.append s.accesses

theorem CompletedIn.from {portBase : Nat} {slot : Fin 32} {s s₁ s' : State}
    (h : CompletedIn portBase slot s₁ s') (hs : s.accesses <:+ s₁.accesses) :
    CompletedIn portBase slot s s' := by
  obtain ⟨during, hduring, hcompleted⟩ := h
  obtain ⟨before, hbefore⟩ := hs
  refine ⟨during ++ before, ?_, hcompleted.append before⟩
  rw [hduring, ← hbefore, List.append_assoc]

def State.issued (s : State) (portBase : Nat) (slot : Fin 32) : State :=
  (s.record (.write (portBase + portIs) 0xFFFFFFFF)).record
    (.write (portBase + portCi) (slotBit slot))

def State.StaysPending (s : State) (portBase : Nat) (slot : Fin 32) : Prop :=
  (s.issued portBase slot).Pending (portBase + portCi) (slotBit slot)
    ahciCmdTimeout

/-- The command is pending at every poll, and PORT_IS shows no error then. -/
def State.StallsQuietly (s : State) (portBase : Nat) (slot : Fin 32) : Prop :=
  s.StaysPending portBase slot ∧
    ((s.issued portBase slot).looked (portBase + portCi) ahciCmdTimeout).shown
      (portBase + portIs) &&& portIsTfes = 0

section Status

variable (portBase : Nat)

theorem consumeStatus_eq (s : State) :
    ∃ later s',
      consumeStatus portBase s = some
        (if s.shown (portBase + portIs) &&& portIsTfes = 0 then 0 else -1, s') ∧
      s'.accesses = later ++
        .read (portBase + portIs) (s.shown (portBase + portIs)) :: s.accesses ∧
      ∀ access ∈ later, ¬ access.Issues portBase ∧
        ∀ value, access ≠ .read (portBase + portCi) value := by
  unfold consumeStatus
  rw [Program.bind_of_some (ahciRead32_apply portBase portIs s)]
  by_cases hzero : s.shown (portBase + portIs) = 0
  · refine ⟨[], s.look (portBase + portIs), ?_, rfl,
      fun access h => absurd h List.not_mem_nil⟩
    rw [if_neg (not_not_intro hzero), hzero]
    rfl
  rw [if_pos hzero, Program.bind_of_some (ahciWrite32_apply portBase portIs _ _)]
  by_cases herror : s.shown (portBase + portIs) &&& portIsTfes = 0
  · rw [if_neg (not_not_intro herror), if_pos herror]
    refine ⟨[.write (portBase + portIs) (s.shown (portBase + portIs))], _, rfl,
      rfl, ?_⟩
    simp [Access.Issues, portIs, portCi]
  · rw [if_pos herror, if_neg herror]
    let t := (s.look (portBase + portIs)).record
      (.write (portBase + portIs) (s.shown (portBase + portIs)))
    refine ⟨[.write (portBase + portSerr) 0xFFFFFFFF,
      .read (portBase + portSerr)
        ((t.look (portBase + portTfd)).shown (portBase + portSerr)),
      .read (portBase + portTfd) (t.shown (portBase + portTfd)),
      .write (portBase + portIs) (s.shown (portBase + portIs))], _, rfl, rfl, ?_⟩
    simp [Access.Issues, portIs, portCi, portSerr, portTfd]

/-- The last command issued is the same however the accesses are split at it. -/
theorem last_issue_unique {recent recent' issued issued' : List Access}
    {v v' : UInt32}
    (h : recent ++ .write (portBase + portCi) v :: issued =
      recent' ++ .write (portBase + portCi) v' :: issued')
    (hrecent : ∀ access ∈ recent, ¬ access.Issues portBase)
    (hrecent' : ∀ access ∈ recent', ¬ access.Issues portBase) :
    recent = recent' ∧ v = v' := by
  induction recent generalizing recent' with
  | nil =>
      cases recent' with
      | nil =>
          cases h
          exact ⟨rfl, rfl⟩
      | cons access rest =>
          cases h
          exact absurd rfl (hrecent' _ List.mem_cons_self)
  | cons access rest ih =>
      cases recent' with
      | nil =>
          cases h
          exact absurd rfl (hrecent _ List.mem_cons_self)
      | cons access' rest' =>
          obtain ⟨hsame, hrest⟩ := List.cons_eq_cons.mp h
          obtain ⟨hrests, hv⟩ := ih hrest
            (fun a ha => hrecent a (List.mem_cons_of_mem access ha))
            (fun a ha => hrecent' a (List.mem_cons_of_mem access' ha))
          rw [hsame, hrests]
          exact ⟨rfl, hv⟩

end Status

section Waiting

variable (portBase : Nat) (slot : Fin 32)

/-- After the polls, PORT_IS alone decides the result. -/
theorem ahciIssueAndWait_polled {s t : State}
    (hwait : waitClear portBase portCi (slotBit slot) ahciCmdTimeout
      (s.issued portBase slot) = some ((), t)) :
    ∃ later s',
      ahciIssueAndWait portBase slot s = some
        (if t.shown (portBase + portIs) &&& portIsTfes = 0 then 0 else -1, s') ∧
      s'.accesses = later ++
        .read (portBase + portIs) (t.shown (portBase + portIs)) :: t.accesses ∧
      ∀ access ∈ later, ¬ access.Issues portBase ∧
        ∀ value, access ≠ .read (portBase + portCi) value := by
  obtain ⟨later, s', hstatus, hlog, hlater⟩ := consumeStatus_eq portBase t
  refine ⟨later, s', ?_, hlog, hlater⟩
  unfold ahciIssueAndWait
  rw [Program.bind_of_some (ahciWrite32_apply portBase portIs 0xFFFFFFFF s),
    Program.bind_of_some (ahciWrite32_apply portBase portCi (slotBit slot) _)]
  exact (Program.bind_of_some hwait).trans hstatus

theorem polls_not_issues {s : State} {n : Nat} {polls : List Access}
    (hpolls : ∀ access ∈ polls, ∃ k < n, access =
      .read (portBase + portCi)
        ((s.looked (portBase + portCi) k).shown (portBase + portCi))) :
    ∀ access ∈ polls, ¬ access.Issues portBase := by
  intro access haccess
  obtain ⟨k, -, rfl⟩ := hpolls access haccess
  exact not_false

/-- A quiet stall is reported as a success, of a command that is not complete. -/
theorem ahciIssueAndWait_quiet {s : State} (h : s.StallsQuietly portBase slot) :
    ∃ s', ahciIssueAndWait portBase slot s = some (0, s') ∧
      ∀ slot', ¬ Completed portBase slot' s'.accesses := by
  obtain ⟨hpending, hstatus⟩ := h
  have hwait : waitClear portBase portCi (slotBit slot) ahciCmdTimeout
      (s.issued portBase slot) = some ((), (s.issued portBase slot).looked
        (portBase + portCi) ahciCmdTimeout) := by
    rcases waitClear_cases portBase portCi (slotBit slot) ahciCmdTimeout
      (s.issued portBase slot) with ⟨-, hrun⟩ | ⟨k, hk, -, hclear, -⟩
    · exact hrun
    · exact absurd hclear (hpending k hk)
  obtain ⟨later, s', hrun, hlog, hlater⟩ :=
    ahciIssueAndWait_polled portBase slot hwait
  obtain ⟨polls, hpolled, hpolls⟩ := State.looked_accesses
    (s.issued portBase slot) (portBase + portCi) ahciCmdTimeout
  rw [if_pos hstatus] at hrun
  generalize State.shown _ (portBase + portIs) = reading at hlog
  refine ⟨s', hrun, ?_⟩
  rintro slot' ⟨later', earlier, issued, ci, status, hsplit, hrecent, hci, -, -⟩
  -- the accesses since the issue, as the run made them
  have hrun' : s'.accesses = (later ++ .read (portBase + portIs) reading :: polls) ++
      .write (portBase + portCi) (slotBit slot) ::
        .write (portBase + portIs) 0xFFFFFFFF :: s.accesses := by
    rw [hlog, hpolled, List.append_assoc]
    rfl
  obtain ⟨hsame, hslots⟩ := last_issue_unique portBase (hrun'.symm.trans hsplit)
    (by
      intro access haccess
      rcases List.mem_append.mp haccess with hin | hin
      · exact (hlater access hin).1
      rcases List.mem_cons.mp hin with rfl | hin
      · exact not_false
      · exact polls_not_issues portBase hpolls access hin)
    (by
      intro access haccess
      rcases List.mem_append.mp haccess with hin | hin
      · exact hrecent access (List.mem_append_left _ hin)
      rcases List.mem_cons.mp hin with rfl | hin
      · exact not_false
      · exact hrecent access (List.mem_append_right _ hin))
  have hread : Access.read (portBase + portCi) ci ∈
      later ++ .read (portBase + portIs) reading :: polls := by
    rw [hsame]
    exact List.mem_append_right _ List.mem_cons_self
  rcases List.mem_append.mp hread with hin | hin
  · exact (hlater _ hin).2 ci rfl
  rcases List.mem_cons.mp hin with hstat | hin
  · simp [portCi, portIs] at hstat
  · obtain ⟨k, hk, hvalue⟩ := hpolls _ hin
    cases hvalue
    rw [← hslots] at hci
    exact hpending k hk hci

theorem ahciIssueAndWait_sound {s : State}
    (h : ¬ s.StallsQuietly portBase slot) :
    ∃ r s', ahciIssueAndWait portBase slot s = some (r, s') ∧
      (r = 0 ∧ ¬ s.StaysPending portBase slot ∧
        CompletedIn portBase slot s s' ∨ r = -1) := by
  rcases waitClear_cases portBase portCi (slotBit slot) ahciCmdTimeout
    (s.issued portBase slot) with ⟨hpending, hwait⟩ | ⟨k, hk, -, hclear, hwait⟩
  · obtain ⟨later, s', hrun, -, -⟩ := ahciIssueAndWait_polled portBase slot hwait
    rw [if_neg fun hstatus => h ⟨hpending, hstatus⟩] at hrun
    exact ⟨-1, s', hrun, Or.inr rfl⟩
  obtain ⟨later, s', hrun, hlog, hlater⟩ :=
    ahciIssueAndWait_polled portBase slot hwait
  refine ⟨_, s', hrun, ?_⟩
  split
  · next hstatus =>
    left
    refine ⟨rfl, fun hpending => hpending k hk hclear, ?_⟩
    obtain ⟨polls, hpolled, hpolls⟩ := State.looked_accesses
      (s.issued portBase slot) (portBase + portCi) k
    refine ⟨((later ++ [.read (portBase + portIs) _]) ++
      .read (portBase + portCi) _ :: polls) ++
      [.write (portBase + portCi) (slotBit slot),
        .write (portBase + portIs) 0xFFFFFFFF], ?_,
      later ++ [.read (portBase + portIs) _], polls, _, _, _, rfl, ?_, hclear,
      List.mem_append_right _ List.mem_cons_self, hstatus⟩
    · rw [hlog, State.looked_succ', State.look_accesses, hpolled]
      simp only [List.append_assoc, List.cons_append, List.nil_append]
      rfl
    · intro access haccess
      rcases List.mem_append.mp haccess with hin | hin
      · rcases List.mem_append.mp hin with hin | hin
        · exact (hlater access hin).1
        · rw [List.mem_singleton.mp hin]
          exact not_false
      · exact polls_not_issues portBase hpolls access hin
  · exact Or.inr rfl

/--
Success is reported only for a command that was seen to complete, and one that
stays pending is reported as a failure.
-/
def WaitsTruthfully (s : State) : Prop :=
  (∀ s', ahciIssueAndWait portBase slot s = some (0, s') →
    CompletedIn portBase slot s s') ∧
  (s.StaysPending portBase slot →
    ∀ r s', ahciIssueAndWait portBase slot s = some (r, s') → r = -1)

theorem waitsTruthfully_iff_not_quiet (s : State) :
    WaitsTruthfully portBase slot s ↔ ¬ s.StallsQuietly portBase slot := by
  constructor
  · rintro ⟨hsuccess, -⟩ hquiet
    obtain ⟨s', hrun, hincomplete⟩ :=
      ahciIssueAndWait_quiet portBase slot hquiet
    exact hincomplete slot (hsuccess s' hrun).completed
  · intro h
    obtain ⟨r, s', hrun, hresult⟩ := ahciIssueAndWait_sound portBase slot h
    rw [WaitsTruthfully, hrun]
    constructor
    · rintro s'' hzero
      cases hzero
      rcases hresult with ⟨-, -, hcompleted⟩ | hfails
      · exact hcompleted
      · cases hfails
    · rintro hpending r' s'' hsame
      cases hsame
      rcases hresult with ⟨-, hnot, -⟩ | hfails
      · exact absurd hpending hnot
      · exact hfails

theorem ahciIssueAndWait_ends (s : State) :
    ∃ r s', ahciIssueAndWait portBase slot s = some (r, s') ∧
      (r = 0 ∨ r = -1) := by
  by_cases hquiet : s.StallsQuietly portBase slot
  · obtain ⟨s', hrun, -⟩ := ahciIssueAndWait_quiet portBase slot hquiet
    exact ⟨0, s', hrun, Or.inl rfl⟩
  · obtain ⟨r, s', hrun, hresult⟩ := ahciIssueAndWait_sound portBase slot hquiet
    exact ⟨r, s', hrun, hresult.imp_left And.left⟩

end Waiting

/-! ## Calls -/

structure Extends (s s' : State) : Prop where
  accesses : s.accesses <:+ s'.accesses

instance : Std.Refl Extends := ⟨fun _ => ⟨List.suffix_rfl⟩⟩

instance : IsTrans State Extends :=
  ⟨fun _ _ _ h h' => ⟨h.accesses.trans h'.accesses⟩⟩

theorem ahciRead32_extends (base off : Nat) :
    EndsWithin Extends (ahciRead32 base off) :=
  EndsWithin.of_apply (ahciRead32_apply base off) fun _ => ⟨List.suffix_cons _ _⟩

theorem ahciWrite32_extends (base off : Nat) (val : UInt32) :
    EndsWithin Extends (ahciWrite32 base off val) :=
  EndsWithin.of_apply (ahciWrite32_apply base off val)
    fun _ => ⟨List.suffix_cons _ _⟩

theorem waitClear_extends (base off : Nat) (bits : UInt32) (n : Nat) :
    EndsWithin Extends (waitClear base off bits n) := by
  induction n with
  | zero => exact EndsWithin.pure ()
  | succ n ih =>
      exact (ahciRead32_extends base off).bind fun value =>
        EndsWithin.ite (EndsWithin.pure ()) ih

theorem ahciFindFreeSlot_extends (portBase : Nat) :
    EndsWithin Extends (ahciFindFreeSlot portBase) :=
  (ahciRead32_extends _ _).bind fun _ =>
    (ahciRead32_extends _ _).bind fun _ => EndsWithin.pure _

theorem ahciPortInit_extends (portNum : UInt8) :
    EndsWithin Extends (ahciPortInit portNum) := by
  have hstop : ∀ portBase, EndsWithin Extends (ahciPortStop portBase) :=
    fun portBase => (ahciRead32_extends _ _).bind fun _ =>
      (ahciWrite32_extends _ _ _).bind fun _ => waitClear_extends _ _ _ _
  have hstart : ∀ portBase, EndsWithin Extends (ahciPortStart portBase) :=
    fun portBase => (waitClear_extends _ _ _ _).bind fun _ =>
      (ahciRead32_extends _ _).bind fun _ => ahciWrite32_extends _ _ _
  have hget : EndsWithin Extends (get : Program State State) :=
    EndsWithin.of_apply (fun _ => rfl) fun s => ⟨List.suffix_rfl⟩
  refine hget.bind fun s => EndsWithin.ite (EndsWithin.pure _) ?_
  refine (hstop _).bind fun _ => ?_
  refine (ahciWrite32_extends _ _ _).bind fun _ => ?_
  refine (ahciWrite32_extends _ _ _).bind fun _ => ?_
  refine (ahciWrite32_extends _ _ _).bind fun _ => ?_
  refine (ahciWrite32_extends _ _ _).bind fun _ => ?_
  refine (ahciWrite32_extends _ _ _).bind fun _ => ?_
  refine (ahciWrite32_extends _ _ _).bind fun _ => ?_
  refine (hstart _).bind fun _ => ?_
  refine EndsWithin.bind ?_ fun _ => EndsWithin.pure 0
  exact EndsWithin.of_apply (fun _ => rfl) fun s => ⟨List.suffix_rfl⟩

theorem ahciIssueAndWait_extends (portBase : Nat) (slot : Fin 32) {s s' : State}
    {r : Int} (h : ahciIssueAndWait portBase slot s = some (r, s')) :
    Extends s s' := by
  have hconsume : EndsWithin Extends (consumeStatus portBase) := by
    intro t
    obtain ⟨later, t', hrun, hlog, -⟩ := consumeStatus_eq portBase t
    refine ⟨_, t', hrun, ⟨?_⟩⟩
    rw [hlog]
    exact (List.suffix_cons _ _).trans (List.suffix_append _ _)
  have hall : EndsWithin Extends (ahciIssueAndWait portBase slot) :=
    (ahciWrite32_extends _ _ _).bind fun _ =>
      (ahciWrite32_extends _ _ _).bind fun _ =>
        (waitClear_extends _ _ _ _).bind fun _ => hconsume
  obtain ⟨r', s'', hrun, hextends⟩ := hall s
  rw [hrun] at h
  cases h
  exact hextends

/-- A command is built in a slot, and the driver comes to wait for it. -/
def AttemptIn (portBase : Nat) (slot : Fin 32) (command : Command) :
    Nat → State → State → Prop
  | 0, _, _ => False
  | attempts + 1, s, t =>
      t = s.record (.build slot command) ∨
      0 < attempts ∧ ∃ r s₁ status s₂,
        ahciIssueAndWait portBase slot (s.record (.build slot command)) =
          some (r, s₁) ∧ r ≠ 0 ∧
        ahciPortInit s₁.activePort s₁ = some (status, s₂) ∧
        AttemptIn portBase slot command attempts s₂ t

section Attempts

variable (portBase : Nat) (slot : Fin 32) (command : Command)

theorem writeAttempts_succ {s s₁ : State} {r : Int} (n : Nat)
    (hrun : ahciIssueAndWait portBase slot (s.record (.build slot command)) =
      some (r, s₁)) :
    writeAttempts portBase slot command (n + 1) s =
      if r = 0 then some (0, s₁)
      else (do
        if 0 < n then
          let s ← get
          let _status ← ahciPortInit s.activePort
        writeAttempts portBase slot command n : Program State Int) s₁ := by
  rw [writeAttempts, Program.bind_of_some (show ahciBuildCmd slot command s =
    some ((), s.record (.build slot command)) from rfl), Program.bind_of_some hrun]
  split
  · rfl
  · rfl

theorem writeAttempts_quiet (n : Nat) {s t : State}
    (hattempt : AttemptIn portBase slot command n s t)
    (hquiet : t.StallsQuietly portBase slot) :
    ∃ s', writeAttempts portBase slot command n s = some (0, s') ∧
      ∀ slot', ¬ Completed portBase slot' s'.accesses := by
  induction n generalizing s with
  | zero => exact absurd hattempt not_false
  | succ n ih =>
      rcases hattempt with rfl | ⟨hn, r, s₁, status, s₂, hrun, hr, hinit, hlater⟩
      · obtain ⟨s', hrun, hincomplete⟩ :=
          ahciIssueAndWait_quiet portBase slot hquiet
        exact ⟨s', (writeAttempts_succ portBase slot command n hrun).trans
          (if_pos rfl), hincomplete⟩
      · obtain ⟨s', hrest, hincomplete⟩ := ih hlater
        refine ⟨s', ?_, hincomplete⟩
        rw [writeAttempts_succ portBase slot command n hrun, if_neg hr, if_pos hn,
          Program.get_bind, Program.bind_of_some hinit]
        exact hrest

theorem writeAttempts_sound (n : Nat) {s : State}
    (h : ∀ t, AttemptIn portBase slot command n s t →
      ¬ t.StallsQuietly portBase slot) :
    ∃ r s', writeAttempts portBase slot command n s = some (r, s') ∧
      (r = 0 ∧ CompletedIn portBase slot s s' ∨ r = -1) := by
  induction n generalizing s with
  | zero => exact ⟨-1, s, rfl, Or.inr rfl⟩
  | succ n ih =>
      obtain ⟨r, s₁, hrun, hresult⟩ :=
        ahciIssueAndWait_sound portBase slot (h _ (Or.inl rfl))
      rw [writeAttempts_succ portBase slot command n hrun]
      have hbuilt : s.accesses <:+
          (s.record (.build slot command)).accesses := List.suffix_cons _ _
      rcases hresult with ⟨rfl, -, hcompleted⟩ | rfl
      · exact ⟨0, s₁, if_pos rfl, Or.inl ⟨rfl, hcompleted.from hbuilt⟩⟩
      rw [if_neg (by decide)]
      rcases Nat.eq_zero_or_pos n with rfl | hn
      · exact ⟨-1, s₁, rfl, Or.inr rfl⟩
      -- the port is reset, and the next attempt starts
      obtain ⟨status, s₂, hinit, hreset⟩ := ahciPortInit_extends s₁.activePort s₁
      obtain ⟨r, s', hrest, hlast⟩ := ih fun t ht =>
        h t (Or.inr ⟨hn, -1, s₁, status, s₂, hrun, by decide, hinit, ht⟩)
      have hissued := ahciIssueAndWait_extends portBase slot hrun
      refine ⟨r, s', ?_, hlast.imp_left fun ⟨hzero, hcompleted⟩ => ⟨hzero,
        hcompleted.from
          (hbuilt.trans (hissued.accesses.trans hreset.accesses))⟩⟩
      rw [if_pos hn,
        Program.get_bind, Program.bind_of_some hinit]
      exact hrest

theorem writeAttempts_one (s : State) :
    writeAttempts portBase slot command 1 s =
      ahciIssueAndWait portBase slot (s.record (.build slot command)) := by
  obtain ⟨r, s', hrun, hr⟩ := ahciIssueAndWait_ends portBase slot
    (s.record (.build slot command))
  rw [writeAttempts_succ portBase slot command 0 hrun, hrun]
  rcases hr with rfl | rfl
  · rfl
  · rfl

end Attempts

inductive Call where
  | read (lba : Nat) (buffer : Option Buf)
  | write (lba : Nat) (buffer : Option Buf)
  | flush

namespace Call

def run : Call → Program State Int
  | .read lba buffer => do
      let (status, _) ← sataReadSector lba buffer
      return status
  | .write lba buffer => sataWriteSector lba buffer
  | .flush => sataFlushCache

/-- The command of the call; there is none for a null buffer. -/
def command : Call → Option Command
  | .read lba buffer => buffer.map fun buf =>
      Command.make false 1 (some buf) 512 ataReadDmaEx lba 1
  | .write lba buffer => buffer.map fun buf =>
      Command.make true 1 (some buf) 512 ataWriteDmaEx lba 1
  | .flush => some (Command.make false 0 none 0 ataFlushCacheExt 0 0)

/-- How often the call looks whether the port is idle. -/
def idlePolls : Call → Nat
  | .read _ _ => 1000
  | .write _ _ => 1000
  | .flush => 0

def attempts : Call → Nat
  | .read _ _ => 1
  | .write _ _ => 3
  | .flush => 1

/-- The call, started in `s`, comes to wait for a command in the state `t`. -/
def Waits (call : Call) (s : State) (slot : Fin 32) (t : State) : Prop :=
  s.Usable ∧ ∃ command s₀ s₁, call.command = some command ∧
    waitClear s.portBase portTfd (portTfdBsy ||| portTfdDrq) call.idlePolls s =
      some ((), s₀) ∧
    ahciFindFreeSlot s.portBase s₀ = some (some slot, s₁) ∧
    AttemptIn s.portBase slot command call.attempts s₁ t

/-- The call reports success only if its command completed. -/
def Truthful (call : Call) (s : State) : Prop :=
  ∀ s', call.run s = some (0, s') → ∃ slot, CompletedIn s.portBase slot s s'

theorem run_refused (call : Call) {s : State}
    (h : ¬ s.Usable ∨ call.command = none) : call.run s = some (-1, s) := by
  cases call with
  | read lba buffer =>
      have hread : sataReadSector lba buffer s = some ((-1, buffer), s) := by
        rw [sataReadSector, Program.get_bind]
        by_cases hs : s.Usable
        · rw [if_neg (not_not_intro hs)]
          rw [Option.map_eq_none_iff.mp (h.resolve_left (not_not_intro hs))]
          rfl
        · rw [if_pos hs]
          rfl
      rw [run, Program.bind_of_some hread]
      rfl
  | write lba buffer =>
      rw [run, sataWriteSector, Program.get_bind]
      by_cases hs : s.Usable
      · rw [if_neg (not_not_intro hs)]
        rw [Option.map_eq_none_iff.mp (h.resolve_left (not_not_intro hs))]
        rfl
      · rw [if_pos hs]
        rfl
  | flush =>
      rw [run, sataFlushCache, Program.get_bind]
      rcases h with hs | hcommand
      · rw [if_pos hs]
        rfl
      · cases hcommand

section Run

variable {call : Call} {s s₀ s₁ : State} {command : Command} (hs : s.Usable)
  (hcommand : call.command = some command)
  (hidle : waitClear s.portBase portTfd (portTfdBsy ||| portTfdDrq) call.idlePolls
    s = some ((), s₀))

include hs hcommand hidle

theorem run_without_slot
    (hslot : ahciFindFreeSlot s.portBase s₀ = some (none, s₁)) :
    call.run s = some (-1, s₁) := by
  cases call with
  | read lba buffer =>
      obtain ⟨buf, rfl, -⟩ := Option.map_eq_some_iff.mp hcommand
      simp only [idlePolls] at hidle
      have hread : sataReadSector lba (some buf) s = some ((-1, some buf), s₁) := by
        rw [sataReadSector, Program.get_bind, if_neg (not_not_intro hs)]
        simp only
        rw [Program.bind_of_some hidle, Program.bind_of_some hslot]
        rfl
      rw [run, Program.bind_of_some hread]
      rfl
  | write lba buffer =>
      obtain ⟨buf, rfl, -⟩ := Option.map_eq_some_iff.mp hcommand
      simp only [idlePolls] at hidle
      rw [run, sataWriteSector, Program.get_bind, if_neg (not_not_intro hs)]
      simp only
      rw [Program.bind_of_some hidle, Program.bind_of_some hslot]
      rfl
  | flush =>
      cases hidle
      rw [run, sataFlushCache, Program.get_bind,
        if_neg (not_not_intro hs), Program.bind_of_some hslot]
      rfl

theorem run_with_slot {slot : Fin 32}
    (hslot : ahciFindFreeSlot s.portBase s₀ = some (some slot, s₁)) :
    call.run s = writeAttempts s.portBase slot command call.attempts s₁ := by
  have hbuild : ∀ command', ahciBuildCmd slot command' s₁ =
      some ((), s₁.record (.build slot command')) := fun _ => rfl
  cases call with
  | read lba buffer =>
      obtain ⟨buf, rfl, rfl⟩ := Option.map_eq_some_iff.mp hcommand
      simp only [idlePolls] at hidle
      obtain ⟨r, s', hrun, -⟩ := ahciIssueAndWait_ends s.portBase slot
        (s₁.record (.build slot
          (Command.make false 1 (some buf) 512 ataReadDmaEx lba 1)))
      have hread : sataReadSector lba (some buf) s =
          some ((r, some (s'.controller.delivers s'.accesses buf)), s') := by
        rw [sataReadSector, Program.get_bind, if_neg (not_not_intro hs)]
        simp only
        rw [Program.bind_of_some hidle, Program.bind_of_some hslot]
        simp only
        rw [Program.bind_of_some (hbuild _), Program.bind_of_some hrun]
        rfl
      rw [run, Program.bind_of_some hread, attempts, writeAttempts_one, hrun]
      rfl
  | write lba buffer =>
      obtain ⟨buf, rfl, rfl⟩ := Option.map_eq_some_iff.mp hcommand
      simp only [idlePolls] at hidle
      rw [run, sataWriteSector, Program.get_bind, if_neg (not_not_intro hs)]
      simp only
      rw [Program.bind_of_some hidle, Program.bind_of_some hslot]
      rfl
  | flush =>
      cases hidle
      cases hcommand
      obtain ⟨r, s', hrun, hr⟩ := ahciIssueAndWait_ends s.portBase slot
        (s₁.record (.build slot (Command.make false 0 none 0 ataFlushCacheExt 0 0)))
      rw [run, sataFlushCache, Program.get_bind,
        if_neg (not_not_intro hs), Program.bind_of_some hslot]
      simp only
      rw [Program.bind_of_some (hbuild _), Program.bind_of_some hrun, attempts,
        writeAttempts_one, hrun]
      rcases hr with rfl | rfl
      · rfl
      · rfl

end Run

theorem truthful_iff (call : Call) (s : State) :
    call.Truthful s ↔
      ∀ slot t, call.Waits s slot t → ¬ t.StallsQuietly s.portBase slot := by
  by_cases hready : ¬ s.Usable ∨ call.command = none
  · rw [Truthful, run_refused call hready]
    constructor
    · rintro - slot t ⟨hs, command, s₀, s₁, hcommand, -⟩
      rcases hready with hnot | hnone
      · exact absurd hs hnot
      · rw [hnone] at hcommand
        cases hcommand
    · rintro - s' hzero
      cases hzero
  obtain ⟨hs, hcommand⟩ := not_or.mp hready
  obtain ⟨command, hcommand⟩ := Option.ne_none_iff_exists'.mp hcommand
  obtain ⟨⟨⟩, s₀, hidle, hs₀⟩ := waitClear_extends s.portBase portTfd
    (portTfdBsy ||| portTfdDrq) call.idlePolls s
  obtain ⟨found, s₁, hslot, hs₁⟩ := ahciFindFreeSlot_extends s.portBase s₀
  cases found with
  | none =>
      rw [Truthful, run_without_slot (not_not.mp hs) hcommand hidle hslot]
      constructor
      · rintro - slot t ⟨-, command', s₀', s₁', -, hidle', hslot', -⟩
        rw [hidle] at hidle'
        cases hidle'
        rw [hslot] at hslot'
        cases hslot'
      · rintro - s' hzero
        cases hzero
  | some slot =>
      rw [Truthful, run_with_slot (not_not.mp hs) hcommand hidle hslot]
      constructor
      · rintro htruthful slot' t
          ⟨-, command', s₀', s₁', hcommand', hidle', hslot', hattempt⟩ hquiet
        rw [hidle] at hidle'
        cases hidle'
        rw [hslot] at hslot'
        cases hslot'
        rw [hcommand] at hcommand'
        cases hcommand'
        obtain ⟨s', hrun, hincomplete⟩ :=
          writeAttempts_quiet s.portBase slot command call.attempts hattempt hquiet
        obtain ⟨slot'', hcompleted⟩ := htruthful s' hrun
        exact hincomplete slot'' hcompleted.completed
      · intro h s' hzero
        obtain ⟨r, s'', hrun, hresult⟩ := writeAttempts_sound s.portBase slot
          command call.attempts fun t ht => h slot t
            ⟨not_not.mp hs, command, s₀, s₁, hcommand, hidle, hslot, ht⟩
        rw [hrun] at hzero
        cases hzero
        rcases hresult with ⟨-, hcompleted⟩ | hfails
        · exact ⟨slot, hcompleted.from (hs₀.accesses.trans hs₁.accesses)⟩
        · cases hfails

end Call

/--
Success is reported for completed commands only, exactly where no command that
is waited for stays pending through all the polls while PORT_IS shows no error.
-/
theorem success_means_completed_iff (s : State) :
    (∀ portBase slot, WaitsTruthfully portBase slot s ↔
      ¬ s.StallsQuietly portBase slot) ∧
    ∀ call : Call, call.Truthful s ↔
      ∀ slot t, call.Waits s slot t → ¬ t.StallsQuietly s.portBase slot :=
  ⟨fun portBase slot => waitsTruthfully_iff_not_quiet portBase slot s,
    fun call => call.truthful_iff s⟩

/-- The driver after its initialisation, with port 0 of a controller. -/
def State.startup (controller : Controller) : State where
  controller := controller
  accesses := []
  cmdListMem := 0x100000
  fisMem := 0x101000
  ahciBase := 0xFEB00000
  ahciInitialized := true
  activePort := 0

def Access.isBuild : Access → Bool
  | .build _ _ => true
  | _ => false

/-- A controller that never completes a command and never shows an error. -/
def silentController : Controller where
  shows := fun accesses address =>
    if address % 0x80 = portCi ∧ accesses.any Access.isBuild then slotBit 0 else 0
  delivers := fun _ buf => buf

theorem silent_stalls {s : State} (hs : s.controller = silentController)
    (hbuilt : s.accesses.any Access.isBuild) :
    s.StallsQuietly 0xFEB00100 0 := by
  have hcontroller : ∀ k, ((s.issued 0xFEB00100 0).looked
      (0xFEB00100 + portCi) k).controller = silentController := by
    intro k
    rw [State.looked_controller]
    exact hs
  constructor
  · intro k hk
    obtain ⟨polls, hpolled, -⟩ := State.looked_accesses (s.issued 0xFEB00100 0)
      (0xFEB00100 + portCi) k
    have hany : ((s.issued 0xFEB00100 0).looked
        (0xFEB00100 + portCi) k).accesses.any Access.isBuild := by
      rw [hpolled, List.any_append]
      simp [State.issued, State.record, hbuilt]
    rw [State.shown, hcontroller k]
    simp only [silentController, hany]
    decide
  · rw [State.shown, hcontroller]
    simp only [silentController]
    rw [if_neg (by rintro ⟨haddress, -⟩; exact absurd haddress (by decide))]
    decide

theorem ahciFindFreeSlot_first (portBase : Nat) (s : State)
    (hactive : s.shown (portBase + portSact) = 0)
    (hissued : (s.look (portBase + portSact)).shown (portBase + portCi) = 0) :
    ahciFindFreeSlot portBase s = some (some 0,
      (s.look (portBase + portSact)).look (portBase + portCi)) := by
  unfold ahciFindFreeSlot
  rw [Program.bind_of_some (ahciRead32_apply portBase portSact s),
    Program.bind_of_some (ahciRead32_apply portBase portCi _), hactive, hissued]
  rfl

/-- The flush of a cache is reported as done while its command is pending. -/
theorem silent_flush_not_truthful :
    ¬ WaitsTruthfully 0xFEB00100 0
      ((State.startup silentController).record
        (.build 0 (Command.make false 0 none 0 ataFlushCacheExt 0 0))) ∧
    ¬ Call.flush.Truthful (State.startup silentController) := by
  constructor
  · rw [waitsTruthfully_iff_not_quiet, not_not]
    exact silent_stalls rfl rfl
  · intro htruthful
    have hslot := ahciFindFreeSlot_first 0xFEB00100
      (State.startup silentController) rfl rfl
    exact (Call.flush.truthful_iff _).mp htruthful 0 _
      ⟨⟨rfl, by decide⟩, _, _, _, rfl, rfl, hslot, Or.inl rfl⟩
      (silent_stalls rfl rfl)

end EntropyOS.Ahci
