import EntropyOS.Drivers.Ps2

/-!
# Scancodes

`ps2_keyboard_poll` forgets the prefix 0xE0 as soon as it has skipped it, so the
byte that completes an extended sequence is looked at as if it stood alone.
-/

namespace EntropyOS.Ps2

open EntropyOS.Foundation

def Poll.scancode : Poll → State → Option UInt8
  | .touchpad, _ => none
  | .keyboard, s => (keyboardPoll s).1

def scancodes : List Poll → State → List UInt8
  | [], _ => []
  | poll :: polls, s => (poll.scancode s).toList ++ scancodes polls (poll.run s)

/-! ## What is reported -/

private theorem make_bits : ∀ b : Fin 256,
    ((⟨⟨b⟩⟩ : UInt8) &&& 0x80 ≠ 0 ↔ ¬ (⟨⟨b⟩⟩ : UInt8) < 0x80) ∧
      ((⟨⟨b⟩⟩ : UInt8) < 0x80 → (⟨⟨b⟩⟩ : UInt8) &&& 0x7F = ⟨⟨b⟩⟩) := by
  decide +kernel

theorem and_high_ne_zero (b : UInt8) : b &&& 0x80 ≠ 0 ↔ ¬ b < 0x80 :=
  (make_bits b.toFin).1

theorem and_low_of_make {b : UInt8} (h : b < 0x80) : b &&& 0x7F = b :=
  (make_bits b.toFin).2 h

theorem takeScancode_examined (s : State) :
    (takeScancode s).2.examined.filter (· < 0x80) =
      s.examined.filter (· < 0x80) ++ (takeScancode s).1.toList := by
  fun_induction takeScancode s with
  | case1 s h => simp
  | case2 s ring h s' ih => simpa [s'] using ih
  | case3 s b ring h s' hextended hskip ih =>
      have hmake : ¬ b < 0x80 := by
        rcases hskip with hbreak | rfl
        · exact (and_high_ne_zero b).mp hbreak
        · decide
      simpa [s', hmake] using ih
  | case4 s b ring h s' hextended hmake =>
      rw [not_or, and_high_ne_zero, not_not] at hmake
      simp [s', hmake.1, and_low_of_make hmake.1]

theorem processIncoming_examined (s : State) :
    (processIncoming s).examined = s.examined := by
  fun_induction processIncoming s with
  | case1 s hnone => rfl
  | case2 s hsome hnone => rfl
  | case3 s hsome hready r haux ih => exact ih.trans (readData_same s.looked.looked).2
  | case4 s hsome hready r haux ih => exact ih.trans (readData_same s.looked.looked).2

theorem touchpadPoll_examined (s : State) :
    (touchpadPoll s).2.examined = s.examined :=
  (touchpadPoll_same s).2.2.1.trans (processIncoming_examined s)

/-- Whatever is examined and below 0x80 was reported. -/
theorem runPolls_examined (polls : List Poll) (s : State) :
    (runPolls polls s).examined.filter (· < 0x80) =
      s.examined.filter (· < 0x80) ++ scancodes polls s := by
  induction polls generalizing s with
  | nil => simp [runPolls, scancodes]
  | cons poll polls ih =>
      rw [runPolls, List.foldl_cons, ← runPolls, ih, scancodes, ← List.append_assoc]
      congr 1
      cases poll with
      | touchpad =>
          change (touchpadPoll s).2.examined.filter _ = _
          rw [touchpadPoll_examined]
          simp [Poll.scancode]
      | keyboard =>
          have htake := takeScancode_examined (processIncoming s)
          rw [processIncoming_examined] at htake
          exact htake

/-! ## What should be -/

/-- The keys of a stream: 0xE0 and the byte after it are one extended sequence. -/
def keys : List UInt8 → List UInt8
  | b :: c :: rest =>
      if b = 0xE0 then keys rest
      else if b < 0x80 then b :: keys (c :: rest)
      else keys (c :: rest)
  | [b] => if b < 0x80 then [b] else []
  | [] => []

/-- The second byte of every extended sequence is a break code. -/
def NoExtendedMake : List UInt8 → Prop
  | b :: c :: rest =>
      if b = 0xE0 then ¬ c < 0x80 ∧ NoExtendedMake rest else NoExtendedMake (c :: rest)
  | _ => True

theorem length_keys_le (stream : List UInt8) :
    (keys stream).length ≤ (stream.filter (· < 0x80)).length := by
  fun_induction keys stream with
  | case1 c rest ih =>
      refine ih.trans (List.Sublist.length_le (List.Sublist.filter _ ?_))
      exact (List.sublist_cons_self c rest).trans (List.sublist_cons_self _ _)
  | case2 b c rest hextended hmake ih => simpa [hmake] using ih
  | case3 b c rest hextended hbreak ih => simpa [hbreak] using ih
  | case4 b hmake => simp [hmake]
  | case5 b hbreak => simp [hbreak]
  | case6 => simp

theorem filter_eq_keys_iff (stream : List UInt8) :
    stream.filter (· < 0x80) = keys stream ↔ NoExtendedMake stream := by
  fun_induction keys stream with
  | case1 c rest ih =>
      rw [NoExtendedMake, if_pos rfl, ← ih]
      by_cases hc : c < 0x80
      · -- the byte is reported, and the list is too long
        refine iff_of_false (fun h => ?_) fun h => h.1 hc
        have hlength := congrArg List.length h
        have hle := length_keys_le rest
        simp [hc] at hlength
        omega
      · simp [hc]
  | case2 b c rest hextended hmake ih => simp [NoExtendedMake, hextended, hmake, ← ih]
  | case3 b c rest hextended hbreak ih => simp [NoExtendedMake, hextended, hbreak, ← ih]
  | case4 b hmake => simp [NoExtendedMake, hmake]
  | case5 b hbreak => simp [NoExtendedMake, hbreak]
  | case6 => simp [NoExtendedMake]

/--
A run of polls that drops no byte of the keyboard and looks at all of them reports
the keys of the stream if and only if no extended sequence is a make code.
-/
theorem scancodes_eq_keys_iff (incoming : List Incoming) (ready : Nat → Bool)
    (polls : List Poll)
    (hkept : (runPolls polls (.startup incoming ready)).kbdStream = bytesOf false incoming)
    (hkbd : (runPolls polls (.startup incoming ready)).kbd.contents = [])
    (hincoming : bytesOf false (runPolls polls (.startup incoming ready)).incoming = []) :
    scancodes polls (.startup incoming ready) = keys (bytesOf false incoming) ↔
      NoExtendedMake (bytesOf false incoming) := by
  have hexamined : (runPolls polls (.startup incoming ready)).examined =
      bytesOf false incoming := by
    rw [← hkept, State.kbdStream, hkbd, hincoming, List.append_nil, List.append_nil]
  have hreported := runPolls_examined polls (.startup incoming ready)
  rw [hexamined] at hreported
  rw [← filter_eq_keys_iff, hreported]
  rfl

/-! ## Polling until nothing is left -/

theorem incoming_eq_nil {s : State} (hready : ∀ k, s.ready k = true)
    (h : s.status &&& statusOutputBuffer = 0) : s.incoming = [] := by
  cases hincoming : s.incoming with
  | nil => rfl
  | cons next rest =>
      simp only [State.status, hincoming, hready, if_true] at h
      cases haux : next.aux with
      | false => rw [haux] at h; exact absurd h (by decide)
      | true => rw [haux] at h; exact absurd h (by decide)

theorem processIncoming_incoming {s : State} (hready : ∀ k, s.ready k = true) :
    (processIncoming s).incoming = [] := by
  fun_induction processIncoming s with
  | case1 s hnone => exact incoming_eq_nil (s := s) hready hnone
  | case2 s hsome hnone => exact incoming_eq_nil (s := s.looked) (fun k => hready _) hnone
  | case3 s hsome hshown r haux ih =>
      refine ih fun k => ?_
      exact (congrFun (readData_same s.looked.looked).1 k).trans (hready _)
  | case4 s hsome hshown r haux ih =>
      refine ih fun k => ?_
      exact (congrFun (readData_same s.looked.looked).1 k).trans (hready _)

theorem takeScancode_length (s : State) :
    (takeScancode s).2.incoming = s.incoming ∧
      (takeScancode s).2.kbd.contents.length ≤ s.kbd.contents.length - 1 := by
  fun_induction takeScancode s with
  | case1 s h => simp [(s.kbd.pop_eq_none_iff).mp h]
  | case2 s ring h s' ih =>
      refine ⟨ih.1, ih.2.trans ?_⟩
      simp [s', RingBuffer.contents_pop h]
  | case3 s b ring h s' hextended hskip ih =>
      refine ⟨ih.1, ih.2.trans ?_⟩
      simp [s', RingBuffer.contents_pop h]
  | case4 s b ring h s' hextended hmake => simp [s', RingBuffer.contents_pop h]

theorem runPolls_keyboard {s : State} (hincoming : s.incoming = []) (n : Nat) :
    (runPolls (List.replicate n .keyboard) s).incoming = [] ∧
      (runPolls (List.replicate n .keyboard) s).kbd.contents.length ≤
        s.kbd.contents.length - n := by
  induction n generalizing s with
  | zero => exact ⟨hincoming, le_rfl⟩
  | succ n ih =>
      have hstatus : s.status = 0 := by rw [State.status, hincoming]
      have hidle : processIncoming s = s.looked := by
        rw [processIncoming, hstatus, if_pos (by decide)]
      obtain ⟨htaken, hlength⟩ := takeScancode_length s.looked
      have hpoll : Poll.keyboard.run s = (takeScancode s.looked).2 := by
        rw [Poll.run, keyboardPoll, hidle]
      obtain ⟨hnone, hle⟩ := ih (s := Poll.keyboard.run s) (by
        rw [hpoll, htaken]
        exact hincoming)
      rw [hpoll] at hle hnone
      refine ⟨?_, ?_⟩
      · rw [List.replicate_succ, runPolls, List.foldl_cons, ← runPolls, hpoll]
        exact hnone
      · rw [List.replicate_succ, runPolls, List.foldl_cons, ← runPolls, hpoll]
        have hsame : s.looked.kbd = s.kbd := rfl
        rw [hsame] at hlength
        omega

theorem runPolls_cons (poll : Poll) (polls : List Poll) (s : State) :
    runPolls (poll :: polls) s = runPolls polls (poll.run s) :=
  rfl

/-- Up to 63 bytes of the keyboard are all looked at if it is polled often enough. -/
theorem keyboard_drained (bytes : List UInt8) (hlength : bytes.length ≤ 63) {n : Nat}
    (hn : 63 ≤ n) :
    ∃ s, s = runPolls (.keyboard :: List.replicate n .keyboard)
        (.startup (bytes.map (⟨false, ·⟩)) fun _ => true) ∧
      s.kbdStream = bytes ∧ s.kbd.contents = [] ∧ s.incoming = [] := by
  have hwaiting :
      (State.startup (bytes.map (⟨false, ·⟩)) fun _ => true).waiting ≤ 63 := by
    simpa [State.waiting, State.startup, contents_emptyRing] using hlength
  have hlost := ((runPolls_steps (.keyboard :: List.replicate n .keyboard)
    (.startup (bytes.map (⟨false, ·⟩)) fun _ => true)).lost_eq hwaiting).2
  have hkept := (demultiplexing _ _ _ hlost).2.1
  have hroom := ((runPolls_steps [.keyboard]
    (.startup (bytes.map (⟨false, ·⟩)) fun _ => true)).lost_eq hwaiting).1
  have hfirst : (Poll.keyboard.run
      (.startup (bytes.map (⟨false, ·⟩)) fun _ => true)).incoming = [] := by
    rw [Poll.run, keyboardPoll, (takeScancode_length _).1]
    exact processIncoming_incoming fun _ => rfl
  rw [bytesOf_map, runPolls_cons] at hkept
  rw [runPolls_cons] at hroom
  refine ⟨_, rfl, hkept, ?_⟩
  rw [runPolls_cons]
  generalize Poll.keyboard.run (.startup (bytes.map (⟨false, ·⟩)) fun _ => true) = t
    at hroom hfirst
  obtain ⟨hincoming, hkbd⟩ := runPolls_keyboard hfirst n
  have hring : t.waiting ≤ 63 := hroom
  rw [State.waiting] at hring
  exact ⟨List.length_eq_zero_iff.mp (by omega), hincoming⟩

theorem scancodes_of_two_keys :
    scancodes (.keyboard :: List.replicate 63 .keyboard)
      (.startup ([0x1E, 0xE0, 0xC8, 0x9E, 0x30].map (⟨false, ·⟩)) fun _ => true) =
      keys [0x1E, 0xE0, 0xC8, 0x9E, 0x30] := by
  obtain ⟨s, rfl, hkept, hkbd, hincoming⟩ :=
    keyboard_drained [0x1E, 0xE0, 0xC8, 0x9E, 0x30] (by decide) (le_refl 63)
  have hkeys := scancodes_eq_keys_iff _ _ _ (hkept.trans (bytesOf_map _ _).symm) hkbd
    (by rw [hincoming]; rfl)
  rw [bytesOf_map] at hkeys
  exact hkeys.mpr (by simp [NoExtendedMake])

/-- The arrow key up is reported as the 8 of the number pad. -/
theorem extended_make_reported :
    ¬ ∀ incoming ready polls,
      (runPolls polls (.startup incoming ready)).kbdStream = bytesOf false incoming →
      (runPolls polls (.startup incoming ready)).kbd.contents = [] →
      bytesOf false (runPolls polls (.startup incoming ready)).incoming = [] →
      scancodes polls (.startup incoming ready) = keys (bytesOf false incoming) := by
  intro hclaim
  obtain ⟨s, rfl, hkept, hkbd, hincoming⟩ :=
    keyboard_drained [0xE0, 0x48] (by decide) (le_refl 63)
  have hkeys := hclaim _ _ _ (hkept.trans (bytesOf_map _ _).symm) hkbd
    (by rw [hincoming]; rfl)
  rw [State.kbdStream, hkbd, hincoming] at hkept
  have hreported := runPolls_examined (.keyboard :: List.replicate 63 .keyboard)
    (.startup ([0xE0, 0x48].map (⟨false, ·⟩)) fun _ => true)
  rw [hkeys, bytesOf_map] at hreported
  have hexamined : (runPolls (.keyboard :: List.replicate 63 .keyboard)
      (.startup ([0xE0, 0x48].map (⟨false, ·⟩)) fun _ => true)).examined =
        [0xE0, 0x48] := by
    simpa [bytesOf] using hkept
  rw [hexamined] at hreported
  exact absurd hreported (by decide)

end EntropyOS.Ps2
