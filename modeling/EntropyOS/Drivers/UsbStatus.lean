import EntropyOS.Drivers.UsbHost

/-!
# Status packets and the commands they answer

A host sends and asks for packets in any order, and the disk may fail at any
time.  Each call leaves a trace: a CBW that was accepted, a data phase that
ended well, or a status packet that was delivered.
-/

namespace EntropyOS.Usb

open EntropyOS.Foundation

/-! ## One call -/

theorem writeBlocks_ends (lba blockSize : Nat) (src : Buf) (count i : Nat)
    (s : System) :
    ∃ status s', writeBlocks lba blockSize src count i s =
      some (status, s') := by
  induction count generalizing i s with
  | zero => exact ⟨_, _, rfl⟩
  | succ count ih =>
      obtain ⟨status, s', hwrite⟩ := blockWriteSector_ends s (lba + i)
        (Sector.ofBuf fun k => src (u32 (i * blockSize) + k))
      rw [writeBlocks]
      simp only [Program.bind_of_some hwrite]
      split
      · exact ⟨_, _, rfl⟩
      · exact ih (i + 1) s'

theorem readBlocks_ends (lba blockSize count i : Nat) (buf : Buf)
    (s : System) :
    ∃ result s', readBlocks lba blockSize count i buf s =
      some (result, s') := by
  induction count generalizing i buf s with
  | zero => exact ⟨_, _, rfl⟩
  | succ count ih =>
      obtain ⟨sector, s', hread⟩ := blockReadSector_ends s (lba + i)
      rw [readBlocks, Program.bind_of_some hread]
      cases sector with
      | none => exact ⟨_, _, rfl⟩
      | some sector => exact ih (i + 1) _ s'

theorem bulkOut_cases (buf : Buf) (len actual : Nat) (s : Host) :
    ∃ result s', bulkOut buf len actual s = some (result, s') ∧
      (IsCbw buf len ∧ s'.usbms = s.usbms.acceptCbw buf ∨
        ¬ IsCbw buf len ∧ s.usbms.WritePending ∧ result.1 = 0 ∧
          s'.usbms = s.usbms.prepareCsw ∨
        ¬ IsCbw buf len ∧ ¬ (s.usbms.WritePending ∧ result.1 = 0) ∧
          s'.usbms = s.usbms) := by
  unfold bulkOut
  by_cases hcbw : IsCbw buf len
  · rw [if_pos hcbw]
    exact ⟨_, _, rfl, Or.inl ⟨hcbw, rfl⟩⟩
  rw [if_neg hcbw, Program.get_bind]
  by_cases hpending : s.usbms.WritePending
  · obtain ⟨status, system', hwrite⟩ := writeBlocks_ends s.usbms.lba
      s.usbms.blockSize buf s.usbms.count 0 s.system
    rw [if_pos hpending, Program.bind_of_some (onSystem_of_some hwrite)]
    by_cases hstatus : status = 0
    · rw [if_neg (not_not_intro hstatus)]
      exact ⟨_, _, rfl, Or.inr (Or.inl ⟨hcbw, hpending, rfl, rfl⟩)⟩
    · rw [if_pos hstatus]
      exact ⟨_, _, rfl, Or.inr (Or.inr ⟨hcbw, by simp, rfl⟩)⟩
  · rw [if_neg hpending]
    exact ⟨_, _, rfl, Or.inr (Or.inr ⟨hcbw, by simp [hpending], rfl⟩)⟩

def Usbms.DataPending (u : Usbms) : Prop :=
  u.ReadPending 0x25 ∨ u.ReadPending 0x28

instance (u : Usbms) : Decidable u.DataPending :=
  inferInstanceAs (Decidable (_ ∨ _))

theorem bulkIn_cases (buf : Buf) (len actual : Nat) (s : Host) :
    ∃ result s', bulkIn buf len actual s = some (result, s') ∧
      (s.usbms.DataPending ∧ result.1 = 0 ∧
          s'.usbms = s.usbms.prepareCsw ∨
        s.usbms.DataPending ∧ result.1 ≠ 0 ∧ s'.usbms = s.usbms ∨
        ¬ s.usbms.DataPending ∧ (s.usbms.expectCsw = true ∧ 13 ≤ len) ∧
          result.2.1 = buf.overlay 0 13 s.usbms.cswPacket ∧
          s'.usbms = { s.usbms with expectCsw := false } ∨
        ¬ s.usbms.DataPending ∧ ¬ (s.usbms.expectCsw = true ∧ 13 ≤ len) ∧
          s'.usbms = s.usbms) := by
  unfold bulkIn
  rw [Program.get_bind]
  by_cases hcapacity : s.usbms.ReadPending 0x25
  · have hpending : s.usbms.DataPending := Or.inl hcapacity
    simp only [if_pos hcapacity]
    split
    · exact ⟨_, _, rfl, Or.inr (Or.inl ⟨hpending, by simp, rfl⟩)⟩
    · exact ⟨_, _, rfl, Or.inl ⟨hpending, rfl, rfl⟩⟩
  by_cases hread : s.usbms.ReadPending 0x28
  · have hpending : s.usbms.DataPending := Or.inr hread
    simp only [if_neg hcapacity, if_pos hread]
    split
    · exact ⟨_, _, rfl, Or.inr (Or.inl ⟨hpending, by simp, rfl⟩)⟩
    split
    · exact ⟨_, _, rfl, Or.inr (Or.inl ⟨hpending, by simp, rfl⟩)⟩
    obtain ⟨⟨status, buf'⟩, system', hloop⟩ := readBlocks_ends s.usbms.lba
      s.usbms.blockSize s.usbms.count 0 buf s.system
    rw [Program.bind_of_some (onSystem_of_some hloop)]
    simp only
    split
    · exact ⟨_, _, rfl, Or.inr (Or.inl ⟨hpending, by simp, rfl⟩)⟩
    · exact ⟨_, _, rfl, Or.inl ⟨hpending, rfl, rfl⟩⟩
  have hpending : ¬ s.usbms.DataPending := by
    rintro (h | h)
    · exact hcapacity h
    · exact hread h
  simp only [if_neg hcapacity, if_neg hread]
  split
  · next hcsw =>
    exact ⟨_, _, rfl, Or.inr (Or.inr (Or.inl ⟨hpending, hcsw, rfl, rfl⟩))⟩
  · next hcsw =>
    exact ⟨_, _, rfl, Or.inr (Or.inr (Or.inr ⟨hpending, hcsw, rfl⟩))⟩

/-! ## A run of calls -/

inductive Event where
  /-- A CBW with this tag was accepted. -/
  | accepted (tag : Nat)
  /-- The data phase of the current CBW ended with the result 0. -/
  | completed
  /-- A status packet was delivered. -/
  | status (packet : Buf)

inductive Call where
  | bulkOut (buf : Buf) (len : Nat)
  | bulkIn (buf : Buf) (len : Nat)

/-- Make a call and report what it did, by the branch that it took. -/
def Call.run : Call → Program Host (List Event)
  | bulkOut buf len => do
      let u := (← get).usbms
      let (result, _) ← Usb.bulkOut buf len 0
      if IsCbw buf len then
        return [.accepted (readLe buf 4 4)]
      if u.WritePending ∧ result = 0 then
        return [.completed]
      return []
  | bulkIn buf len => do
      let u := (← get).usbms
      let (result, buf, _) ← Usb.bulkIn buf len 0
      if u.DataPending then
        return if result = 0 then [.completed] else []
      if u.expectCsw = true ∧ 13 ≤ len then
        return [.status buf]
      return []

def runCalls : List Call → Program Host (List Event)
  | [] => return []
  | call :: calls => do
      let first ← call.run
      let rest ← runCalls calls
      return first ++ rest

/--
Each status packet comes next after the end of a data phase, which comes next
after the acceptance of the CBW whose tag the packet carries.
-/
def StatusMatches (events : List Event) : Prop :=
  ∀ before packet after, events = before ++ .status packet :: after →
    ∃ earlier, before =
      earlier ++ [.accepted (readLe packet 4 4), .completed]

theorem StatusMatches.append {events : List Event} {event : Event}
    (h : StatusMatches events)
    (hnew : ∀ packet, event = .status packet → ∃ earlier, events =
      earlier ++ [.accepted (readLe packet 4 4), .completed]) :
    StatusMatches (events ++ [event]) := by
  intro before packet after hsplit
  rcases List.eq_nil_or_concat' after with rfl | ⟨after, last, rfl⟩
  · obtain ⟨rfl, hlast⟩ := List.append_inj' hsplit rfl
    exact hnew packet (List.head_eq_of_cons_eq hlast)
  · rw [← List.cons_append, ← List.append_assoc] at hsplit
    obtain ⟨hinit, -⟩ := List.append_inj' hsplit rfl
    exact h before packet after hinit

structure Usbms.Tracks (u : Usbms) (events : List Event) : Prop where
  tag : u.cbwTag < 4294967296
  command : u.cbwValid = true →
    ∃ earlier, events = earlier ++ [.accepted u.cbwTag]
  status : u.expectCsw = true → readLe u.cswPacket 4 4 = u.cbwTag ∧
    ∃ earlier, events = earlier ++ [.accepted u.cbwTag, .completed]

namespace Usbms.Tracks

variable {u : Usbms} {events : List Event} (h : u.Tracks events)

theorem startup : Usbms.startup.Tracks [] := by
  constructor <;> simp [Usbms.startup]

theorem accept (packet : Buf) :
    (u.acceptCbw packet).Tracks
      (events ++ [.accepted (readLe packet 4 4)]) where
  tag := readLe_lt packet 4 4
  command := fun _ => ⟨events, rfl⟩
  status := by simp [Usbms.acceptCbw]

include h

theorem complete (hvalid : u.cbwValid = true) :
    u.prepareCsw.Tracks (events ++ [.completed]) where
  tag := h.tag
  command := by simp [Usbms.prepareCsw]
  status := by
    intro _
    constructor
    · have hbytes : ∀ i < 4,
          u.prepareCsw.cswPacket (4 + i) = byteOf u.cbwTag i := by
        intro i hi
        interval_cases i <;> rfl
      rw [readLe_of_bytes hbytes]
      exact Nat.mod_eq_of_lt h.tag
    · obtain ⟨earlier, rfl⟩ := h.command hvalid
      exact ⟨earlier, by simp [Usbms.prepareCsw]⟩

theorem not_valid (hcsw : u.expectCsw = true) : u.cbwValid = false := by
  by_contra hvalid
  obtain ⟨earlier, hcommand⟩ := h.command (by simpa using hvalid)
  obtain ⟨-, earlier', hstatus⟩ := h.status hcsw
  rw [hcommand] at hstatus
  have hlast := congrArg List.getLast? hstatus
  simp at hlast

theorem deliver (hcsw : u.expectCsw = true) (packet : Buf) :
    ({ u with expectCsw := false } : Usbms).Tracks
      (events ++ [.status packet]) where
  tag := h.tag
  command := by simp [h.not_valid hcsw]
  status := by simp

end Usbms.Tracks

theorem Usbms.DataPending.valid {u : Usbms} (h : u.DataPending) :
    u.cbwValid = true := by
  rcases h with hcapacity | hread
  · exact hcapacity.1
  · exact hread.1

theorem readLe_overlay_csw (buf packet : Buf) :
    readLe (buf.overlay 0 13 packet) 4 4 = readLe packet 4 4 := by
  apply readLe_congr
  intro i hi
  exact if_pos (by omega)

theorem Call.run_tracks (call : Call) {s : Host} {events : List Event}
    (h : s.usbms.Tracks events) (hmatches : StatusMatches events) :
    ∃ new s', call.run s = some (new, s') ∧ s'.usbms.Tracks (events ++ new) ∧
      StatusMatches (events ++ new) := by
  cases call with
  | bulkOut buf len =>
      obtain ⟨⟨result, actual⟩, s', hrun, hcases⟩ := bulkOut_cases buf len 0 s
      rw [run, Program.get_bind, Program.bind_of_some hrun]
      simp only at hcases ⊢
      rcases hcases with ⟨hcbw, hnext⟩ | ⟨hcbw, hpending, hresult, hnext⟩ |
        ⟨hcbw, hidle, hnext⟩
      · rw [if_pos hcbw]
        refine ⟨_, s', rfl, ?_, hmatches.append (by simp)⟩
        rw [hnext]
        exact Usbms.Tracks.accept buf
      · rw [if_neg hcbw, if_pos ⟨hpending, hresult⟩]
        refine ⟨_, s', rfl, ?_, hmatches.append (by simp)⟩
        rw [hnext]
        exact h.complete hpending.1
      · rw [if_neg hcbw, if_neg hidle]
        refine ⟨_, s', rfl, ?_, ?_⟩
        · rwa [hnext, List.append_nil]
        · rwa [List.append_nil]
  | bulkIn buf len =>
      obtain ⟨⟨result, packet, actual⟩, s', hrun, hcases⟩ :=
        bulkIn_cases buf len 0 s
      rw [run, Program.get_bind, Program.bind_of_some hrun]
      simp only at hcases ⊢
      rcases hcases with ⟨hpending, hresult, hnext⟩ |
        ⟨hpending, hresult, hnext⟩ | ⟨hpending, hcsw, hpacket, hnext⟩ |
        ⟨hpending, hcsw, hnext⟩
      · rw [if_pos hpending, if_pos hresult]
        refine ⟨_, s', rfl, ?_, hmatches.append (by simp)⟩
        rw [hnext]
        exact h.complete hpending.valid
      · rw [if_pos hpending, if_neg hresult]
        refine ⟨_, s', rfl, ?_, ?_⟩
        · rwa [hnext, List.append_nil]
        · rwa [List.append_nil]
      · rw [if_neg hpending, if_pos hcsw]
        refine ⟨_, s', rfl, ?_, hmatches.append ?_⟩
        · rw [hnext]
          exact h.deliver hcsw.1 packet
        · intro delivered hdelivered
          obtain rfl := Event.status.inj hdelivered
          obtain ⟨htag, hearlier⟩ := h.status hcsw.1
          rwa [hpacket, readLe_overlay_csw, htag]
      · rw [if_neg hpending, if_neg hcsw]
        refine ⟨_, s', rfl, ?_, ?_⟩
        · rwa [hnext, List.append_nil]
        · rwa [List.append_nil]

theorem runCalls_tracks (calls : List Call) {s : Host} {events : List Event}
    (h : s.usbms.Tracks events) (hmatches : StatusMatches events) :
    ∃ new s', runCalls calls s = some (new, s') ∧
      StatusMatches (events ++ new) := by
  induction calls generalizing s events with
  | nil => exact ⟨[], s, rfl, by rwa [List.append_nil]⟩
  | cons call calls ih =>
      obtain ⟨first, s', hfirst, htracks, hfirstMatches⟩ :=
        call.run_tracks h hmatches
      obtain ⟨rest, s'', hrest, hrestMatches⟩ := ih htracks hfirstMatches
      refine ⟨first ++ rest, s'', ?_, by rwa [← List.append_assoc]⟩
      rw [runCalls, Program.bind_of_some hfirst, Program.bind_of_some hrest]
      rfl

end EntropyOS.Usb
