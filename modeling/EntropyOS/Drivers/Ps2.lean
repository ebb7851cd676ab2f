import EntropyOS.Foundation.RingBuffer

/-!
# The PS/2 demultiplexer

Both polls first move what the controller has into two rings, and then read
their own ring.  When the controller shows the next byte is left open.  The
lists of packets and of scancodes that were taken belong to the model only.
-/

namespace EntropyOS.Ps2

open EntropyOS.Foundation

/-- A byte on its way, with the device it comes from. -/
structure Incoming where
  aux : Bool
  byte : UInt8
  deriving DecidableEq

structure Packet where
  b0 : UInt8
  b1 : UInt8
  b2 : UInt8
  deriving DecidableEq

def Packet.bytes (packet : Packet) : List UInt8 := [packet.b0, packet.b1, packet.b2]

abbrev ByteRing := RingBuffer UInt8 64

/-- The static variables of `ps2.c` and the controller. -/
structure State where
  incoming : List Incoming
  /-- Whether the next byte shows up at each of the looks to come. -/
  ready : Nat → Bool
  mouse : ByteRing
  kbd : ByteRing
  mouseBytes : Nat
  kbdBytes : Nat
  absPosX : Int
  absPosY : Int
  /-- Taken by `touchpad_poll` so far. -/
  packets : List Packet
  /-- Examined by `ps2_keyboard_poll` so far. -/
  examined : List UInt8
  /-- How many bytes came to a ring that held 63. -/
  lost : Nat

def emptyRing : ByteRing := ⟨fun _ => 0, 0, 0, by decide, by decide⟩

theorem contents_emptyRing : emptyRing.contents = [] := rfl

def State.startup (incoming : List Incoming) (ready : Nat → Bool) : State where
  incoming := incoming
  ready := ready
  mouse := emptyRing
  kbd := emptyRing
  mouseBytes := 0
  kbdBytes := 0
  absPosX := 16384
  absPosY := 16384
  packets := []
  examined := []
  lost := 0

/-! ## The controller -/

def statusOutputBuffer : UInt8 := 0x01

def statusAux : UInt8 := 0x20

/-- What `inb(KBD_STATUS_PORT)` returns. -/
def State.status (s : State) : UInt8 :=
  match s.incoming with
  | [] => 0
  | next :: _ =>
      if s.ready 0 then
        if next.aux then statusOutputBuffer ||| statusAux else statusOutputBuffer
      else 0

def State.looked (s : State) : State := { s with ready := fun k => s.ready (k + 1) }

/-- `inb(KBD_DATA_PORT)`. -/
def readData (s : State) : UInt8 × State :=
  match s.incoming with
  | [] => (0, s)
  | next :: rest => (next.byte, { s with incoming := rest })

abbrev ringPush (ring : ByteRing) (val : UInt8) : ByteRing := ring.push val

/-- `ring_pop`; `none` is the result -1. -/
abbrev ringPop (ring : ByteRing) : Option (UInt8 × ByteRing) := ring.pop

def pushMouse (s : State) (b : UInt8) : State :=
  { s with
    mouse := ringPush s.mouse b
    mouseBytes := s.mouseBytes + 1
    lost := if s.mouse.contents.length = 63 then s.lost + 1 else s.lost }

def pushKbd (s : State) (b : UInt8) : State :=
  { s with
    kbd := ringPush s.kbd b
    kbdBytes := s.kbdBytes + 1
    lost := if s.kbd.contents.length = 63 then s.lost + 1 else s.lost }

theorem exists_incoming {s : State} (h : s.status &&& statusOutputBuffer ≠ 0) :
    ∃ next rest, s.incoming = next :: rest ∧
      (s.status &&& statusAux ≠ 0 ↔ next.aux = true) := by
  cases hincoming : s.incoming with
  | nil =>
      have hstatus : s.status = 0 := by rw [State.status, hincoming]
      rw [hstatus] at h
      exact absurd (by decide) h
  | cons next rest =>
      refine ⟨next, rest, rfl, ?_⟩
      simp only [State.status, hincoming] at h ⊢
      cases hready : s.ready 0 with
      | false => simp [hready] at h
      | true =>
          cases next.aux with
          | false => decide
          | true => decide

def processIncoming (s : State) : State :=
  if s.status &&& statusOutputBuffer = 0 then s.looked
  else if _h : s.looked.status &&& statusOutputBuffer = 0 then s.looked.looked
  else
    let r := readData s.looked.looked
    if s.looked.status &&& statusAux ≠ 0 then processIncoming (pushMouse r.2 r.1)
    else processIncoming (pushKbd r.2 r.1)
termination_by s.incoming.length
decreasing_by
  all_goals
    obtain ⟨next, rest, hincoming, -⟩ := exists_incoming _h
    have hsame : s.looked.looked.incoming = s.looked.incoming := rfl
    have hstart : s.looked.incoming = s.incoming := rfl
    simp only [readData, hsame, hincoming, pushMouse, pushKbd]
    rw [← hstart, hincoming]
    simp

/-! ## The touchpad -/

structure Motion where
  any : Bool
  dx : Int
  dy : Int
  buttons : UInt8

/-- A byte with the sign bit that comes in the first byte. -/
def signExtend (b sign : UInt8) : Int :=
  if sign ≠ 0 then (b.toNat : Int) - 256 else b.toNat

/-- One packet; without bit 3 in its first byte it is skipped. -/
def Motion.add (m : Motion) (packet : Packet) : Motion :=
  if packet.b0 &&& 0x08 = 0 then m
  else
    { any := true
      dx := m.dx + signExtend packet.b1 (packet.b0 &&& 0x10)
      dy := m.dy + signExtend packet.b2 (packet.b0 &&& 0x20)
      buttons := packet.b0 &&& 0x07 }

/-- The loop of `touchpad_poll`. -/
def takePackets (s : State) (m : Motion) : State × Motion :=
  match _h0 : ringPop s.mouse with
  | none => (s, m)
  | some (b0, ring0) =>
      match _h1 : ringPop ring0 with
      | none => ({ s with mouse := ring0.unread 1 }, m)
      | some (b1, ring1) =>
          match _h2 : ringPop ring1 with
          | none => ({ s with mouse := ring1.unread 2 }, m)
          | some (b2, ring2) =>
              takePackets
                { s with mouse := ring2, packets := s.packets ++ [⟨b0, b1, b2⟩] }
                (m.add ⟨b0, b1, b2⟩)
termination_by s.mouse.contents.length
decreasing_by
  rw [RingBuffer.contents_pop _h0, RingBuffer.contents_pop _h1,
    RingBuffer.contents_pop _h2]
  simp only [List.length_cons]
  omega

def clamp (low high value : Int) : Int := max low (min high value)

/-- `touchpad_poll`; `none` is the result 0. -/
def touchpadPoll (s : State) : Option (Int × Int × UInt8) × State :=
  let (s, m) := takePackets (processIncoming s) ⟨false, 0, 0, 0⟩
  if m.any then
    let dx := clamp (-128) 127 m.dx
    let dy := clamp (-128) 127 m.dy
    (some (dx, dy, m.buttons),
      { s with
        absPosX := clamp 0 32767 (s.absPosX + dx * 512)
        absPosY := clamp 0 32767 (s.absPosY - dy * 512) })
  else (none, s)

/-! ## The keyboard -/

/-- The loop of `ps2_keyboard_poll`. -/
def takeScancode (s : State) : Option UInt8 × State :=
  match _h : ringPop s.kbd with
  | none => (none, s)
  | some (b, ring) =>
      let s' := { s with kbd := ring, examined := s.examined ++ [b] }
      if b = 0xE0 then takeScancode s'
      else if b &&& 0x80 ≠ 0 ∨ b = 0xFA then takeScancode s'
      else (some (b &&& 0x7F), s')
termination_by s.kbd.contents.length
decreasing_by
  all_goals
    rw [RingBuffer.contents_pop _h]
    simp

/-- `ps2_keyboard_poll`; `none` is the result 0. -/
def keyboardPoll (s : State) : Option UInt8 × State :=
  takeScancode (processIncoming s)

/-! ## Schedules -/

inductive Poll where
  | touchpad
  | keyboard
  deriving DecidableEq

def Poll.run : Poll → State → State
  | .touchpad, s => (touchpadPoll s).2
  | .keyboard, s => (keyboardPoll s).2

def runPolls (polls : List Poll) (s : State) : State :=
  polls.foldl (fun s poll => poll.run s) s

/-! ## What a poll can do -/

/-- A byte arrives, or one of the polls takes what it takes. -/
inductive Step (s : State) : State → Prop
  | idle {s' : State} : s'.incoming = s.incoming → s'.mouse = s.mouse →
      s'.kbd = s.kbd → s'.packets = s.packets → s'.examined = s.examined →
      s'.lost = s.lost → Step s s'
  | arrive {next : Incoming} {rest : List Incoming} : s.incoming = next :: rest →
      Step s (if next.aux then pushMouse { s with incoming := rest } next.byte
        else pushKbd { s with incoming := rest } next.byte)
  | packet {b0 b1 b2 : UInt8} {ring : ByteRing} :
      s.mouse.contents = b0 :: b1 :: b2 :: ring.contents →
      Step s { s with mouse := ring, packets := s.packets ++ [⟨b0, b1, b2⟩] }
  | scancode {b : UInt8} {ring : ByteRing} : s.kbd.contents = b :: ring.contents →
      Step s { s with kbd := ring, examined := s.examined ++ [b] }

abbrev Steps : State → State → Prop := Relation.ReflTransGen Step

theorem readData_eq {s : State} {next : Incoming} {rest : List Incoming}
    (h : s.incoming = next :: rest) :
    readData s = (next.byte, { s with incoming := rest }) := by
  simp only [readData, h]

theorem readData_same (s : State) :
    (readData s).2.ready = s.ready ∧ (readData s).2.examined = s.examined := by
  unfold readData
  split
  · exact ⟨rfl, rfl⟩
  · exact ⟨rfl, rfl⟩

theorem looked_steps (s : State) : Steps s s.looked :=
  .single (.idle rfl rfl rfl rfl rfl rfl)

theorem processIncoming_steps (s : State) : Steps s (processIncoming s) := by
  fun_induction processIncoming s with
  | case1 s hnone => exact looked_steps s
  | case2 s hsome hnone => exact (looked_steps s).trans (looked_steps _)
  | case3 s hsome hready r haux ih =>
      obtain ⟨next, rest, hincoming, hkind⟩ := exists_incoming hready
      have hpush := Step.arrive (s := s.looked.looked) hincoming
      have hr : r = _ := readData_eq (s := s.looked.looked) hincoming
      rw [if_pos (hkind.mp haux)] at hpush
      rw [hr] at ih ⊢
      exact (((looked_steps s).trans (looked_steps _)).tail hpush).trans ih
  | case4 s hsome hready r haux ih =>
      obtain ⟨next, rest, hincoming, hkind⟩ := exists_incoming hready
      have hpush := Step.arrive (s := s.looked.looked) hincoming
      have hr : r = _ := readData_eq (s := s.looked.looked) hincoming
      rw [if_neg (mt hkind.mpr haux)] at hpush
      rw [hr] at ih ⊢
      exact (((looked_steps s).trans (looked_steps _)).tail hpush).trans ih

/-- The loop takes groups of three, and puts back what does not fill a group. -/
theorem takePackets_steps (s : State) (m : Motion) :
    Steps s (takePackets s m).1 ∧ (takePackets s m).1.mouse.contents.length < 3 := by
  fun_induction takePackets s m with
  | case1 s m h0 =>
      rw [(s.mouse.pop_eq_none_iff).mp h0]
      exact ⟨.refl, by decide⟩
  | case2 s m b0 ring0 h0 h1 =>
      have hback : ring0.unread 1 = s.mouse := by
        rw [RingBuffer.unread_pop h0 (by decide), RingBuffer.unread_zero]
      rw [hback, RingBuffer.contents_pop h0, (ring0.pop_eq_none_iff).mp h1]
      exact ⟨.refl, by simp⟩
  | case3 s m b0 ring0 h0 b1 ring1 h1 h2 =>
      have hback : ring1.unread 2 = s.mouse := by
        rw [RingBuffer.unread_pop h1 (by decide), RingBuffer.unread_pop h0 (by decide),
          RingBuffer.unread_zero]
      rw [hback, RingBuffer.contents_pop h0, RingBuffer.contents_pop h1,
        (ring1.pop_eq_none_iff).mp h2]
      exact ⟨.refl, by simp⟩
  | case4 s m b0 ring0 h0 b1 ring1 h1 b2 ring2 h2 ih =>
      refine ⟨.head (.packet ?_) ih.1, ih.2⟩
      rw [RingBuffer.contents_pop h0, RingBuffer.contents_pop h1,
        RingBuffer.contents_pop h2]

theorem touchpadPoll_steps (s : State) :
    Steps s (touchpadPoll s).2 ∧ (touchpadPoll s).2.mouse.contents.length < 3 := by
  obtain ⟨htake, hshort⟩ := takePackets_steps (processIncoming s) ⟨false, 0, 0, 0⟩
  have hall := (processIncoming_steps s).trans htake
  rw [touchpadPoll]
  generalize takePackets (processIncoming s) ⟨false, 0, 0, 0⟩ = r at hall hshort
  obtain ⟨t, m⟩ := r
  simp only
  split
  · exact ⟨hall.tail (.idle rfl rfl rfl rfl rfl rfl), hshort⟩
  · exact ⟨hall, hshort⟩

theorem takePackets_same (s : State) (m : Motion) :
    (takePackets s m).1.incoming = s.incoming ∧ (takePackets s m).1.ready = s.ready ∧
      (takePackets s m).1.examined = s.examined ∧ (takePackets s m).1.lost = s.lost := by
  fun_induction takePackets s m with
  | case1 s m h0 => exact ⟨rfl, rfl, rfl, rfl⟩
  | case2 s m b0 ring0 h0 h1 => exact ⟨rfl, rfl, rfl, rfl⟩
  | case3 s m b0 ring0 h0 b1 ring1 h1 h2 => exact ⟨rfl, rfl, rfl, rfl⟩
  | case4 s m b0 ring0 h0 b1 ring1 h1 b2 ring2 h2 ih => exact ih

theorem touchpadPoll_same (s : State) :
    (touchpadPoll s).2.incoming = (processIncoming s).incoming ∧
      (touchpadPoll s).2.ready = (processIncoming s).ready ∧
      (touchpadPoll s).2.examined = (processIncoming s).examined ∧
      (touchpadPoll s).2.lost = (processIncoming s).lost := by
  have hsame := takePackets_same (processIncoming s) ⟨false, 0, 0, 0⟩
  rw [touchpadPoll]
  generalize takePackets (processIncoming s) ⟨false, 0, 0, 0⟩ = r at hsame
  obtain ⟨t, m⟩ := r
  simp only
  split
  · exact hsame
  · exact hsame

theorem takeScancode_steps (s : State) : Steps s (takeScancode s).2 := by
  fun_induction takeScancode s with
  | case1 s h => exact .refl
  | case2 s ring h s' ih => exact .head (.scancode (RingBuffer.contents_pop h)) ih
  | case3 s b ring h s' hprefix hskip ih =>
      exact .head (.scancode (RingBuffer.contents_pop h)) ih
  | case4 s b ring h s' hprefix hmake =>
      exact .single (.scancode (RingBuffer.contents_pop h))

theorem runPolls_steps (polls : List Poll) (s : State) : Steps s (runPolls polls s) := by
  induction polls generalizing s with
  | nil => exact .refl
  | cons poll polls ih =>
      refine Relation.ReflTransGen.trans ?_ (ih _)
      cases poll with
      | touchpad => exact (touchpadPoll_steps s).1
      | keyboard => exact (processIncoming_steps s).trans (takeScancode_steps _)

/-! ## What is kept -/

def bytesOf (aux : Bool) (incoming : List Incoming) : List UInt8 :=
  (incoming.filter fun next => next.aux = aux).map Incoming.byte

theorem bytesOf_map (aux : Bool) (bytes : List UInt8) :
    bytesOf aux (bytes.map (⟨aux, ·⟩)) = bytes := by
  induction bytes with
  | nil => rfl
  | cons b bytes ih => simpa [bytesOf] using ih

/-- The auxiliary bytes, from the first one that was taken to the last to come. -/
def State.auxStream (s : State) : List UInt8 :=
  s.packets.flatMap Packet.bytes ++ s.mouse.contents ++ bytesOf true s.incoming

def State.kbdStream (s : State) : List UInt8 :=
  s.examined ++ s.kbd.contents ++ bytesOf false s.incoming

theorem contents_ringPush {ring : ByteRing} (h : ring.contents.length ≠ 63)
    (b : UInt8) : (ringPush ring b).contents = ring.contents ++ [b] := by
  apply RingBuffer.contents_push
  rw [RingBuffer.length_contents] at h
  omega

/-- Unless a byte is lost, both streams stay the same. -/
theorem Step.conserves {s s' : State} (h : Step s s') (hlost : s'.lost = 0) :
    s.lost = 0 ∧ s'.auxStream = s.auxStream ∧ s'.kbdStream = s.kbdStream := by
  cases h with
  | idle hincoming hmouse hkbd hpackets hexamined hsame =>
      rw [hsame] at hlost
      refine ⟨hlost, ?_, ?_⟩
      · rw [State.auxStream, State.auxStream, hpackets, hmouse, hincoming]
      · rw [State.kbdStream, State.kbdStream, hexamined, hkbd, hincoming]
  | @arrive next rest hincoming =>
      obtain ⟨aux, byte⟩ := next
      cases aux with
      | true =>
          simp only [if_true, pushMouse] at hlost ⊢
          split at hlost
          · omega
          · next hroom =>
            refine ⟨hlost, ?_, ?_⟩
            · simp [State.auxStream, hincoming, bytesOf, contents_ringPush hroom]
            · simp [State.kbdStream, hincoming, bytesOf]
      | false =>
          simp only [Bool.false_eq_true, if_false, pushKbd] at hlost ⊢
          split at hlost
          · omega
          · next hroom =>
            refine ⟨hlost, ?_, ?_⟩
            · simp [State.auxStream, hincoming, bytesOf]
            · simp [State.kbdStream, hincoming, bytesOf, contents_ringPush hroom]
  | packet hmouse =>
      refine ⟨hlost, ?_, rfl⟩
      simp [State.auxStream, Packet.bytes, hmouse]
  | scancode hkbd =>
      refine ⟨hlost, rfl, ?_⟩
      simp [State.kbdStream, hkbd]

theorem Steps.conserves {s s' : State} (h : Steps s s') (hlost : s'.lost = 0) :
    s.lost = 0 ∧ s'.auxStream = s.auxStream ∧ s'.kbdStream = s.kbdStream := by
  induction h with
  | refl => exact ⟨hlost, rfl, rfl⟩
  | tail _ hstep ih =>
      obtain ⟨hmiddle, haux', hkbd'⟩ := hstep.conserves hlost
      obtain ⟨hstart, haux, hkbd⟩ := ih hmiddle
      exact ⟨hstart, haux'.trans haux, hkbd'.trans hkbd⟩

def State.waiting (s : State) : Nat :=
  s.mouse.contents.length + s.kbd.contents.length + s.incoming.length

/-- While at most 63 bytes wait, there is room for each of them. -/
theorem Step.waiting_le {s s' : State} (h : Step s s') (hwaiting : s.waiting ≤ 63) :
    s'.waiting ≤ s.waiting ∧ s'.lost = s.lost := by
  cases h with
  | idle hincoming hmouse hkbd _ _ hsame =>
      simp only [State.waiting, hincoming, hmouse, hkbd]
      exact ⟨le_rfl, hsame⟩
  | @arrive next rest hincoming =>
      obtain ⟨aux, byte⟩ := next
      simp only [State.waiting, hincoming, List.length_cons] at hwaiting ⊢
      cases aux with
      | true =>
          have hroom : s.mouse.contents.length ≠ 63 := by omega
          simp only [if_true, pushMouse, contents_ringPush hroom, hroom, if_false,
            List.length_append, List.length_singleton]
          exact ⟨by omega, trivial⟩
      | false =>
          have hroom : s.kbd.contents.length ≠ 63 := by omega
          simp only [Bool.false_eq_true, if_false, pushKbd, contents_ringPush hroom,
            hroom, List.length_append, List.length_singleton]
          exact ⟨by omega, trivial⟩
  | packet hmouse =>
      simp only [State.waiting, hmouse, List.length_cons]
      exact ⟨by omega, trivial⟩
  | scancode hkbd =>
      simp only [State.waiting, hkbd, List.length_cons]
      exact ⟨by omega, trivial⟩

/-- Streams of at most 63 bytes are safe, however they are polled. -/
theorem Steps.lost_eq {s s' : State} (h : Steps s s') (hwaiting : s.waiting ≤ 63) :
    s'.waiting ≤ 63 ∧ s'.lost = s.lost := by
  induction h with
  | refl => exact ⟨hwaiting, rfl⟩
  | tail _ hstep ih =>
      obtain ⟨hle, hlost⟩ := hstep.waiting_le ih.1
      exact ⟨hle.trans ih.1, hlost.trans ih.2⟩

/-! ## Any two schedules -/

/-- Nothing is left but what does not fill a packet. -/
structure State.Drained (s : State) : Prop where
  incoming : s.incoming = []
  mouse : s.mouse.contents.length < 3
  kbd : s.kbd.contents = []

theorem packets_unique {ps qs : List Packet} {rest rest' : List UInt8}
    (hrest : rest.length < 3) (hrest' : rest'.length < 3)
    (h : ps.flatMap Packet.bytes ++ rest = qs.flatMap Packet.bytes ++ rest') :
    ps = qs := by
  induction ps generalizing qs with
  | nil =>
      cases qs with
      | nil => rfl
      | cons q qs =>
          have hlength := congrArg List.length h
          simp [Packet.bytes] at hlength
          omega
  | cons p ps ih =>
      cases qs with
      | nil =>
          have hlength := congrArg List.length h
          simp [Packet.bytes] at hlength
          omega
      | cons q qs =>
          simp only [List.flatMap_cons, Packet.bytes, List.cons_append, List.nil_append,
            List.cons.injEq] at h
          obtain ⟨h0, h1, h2, htail⟩ := h
          obtain rfl : p = q := by
            cases p
            cases q
            simp_all
          rw [ih htail]

/--
A schedule that loses no byte takes packets and scancodes off the two streams
in order, and any two such schedules that take everything take the same.
-/
theorem demultiplexing (incoming : List Incoming) (ready : Nat → Bool)
    (polls : List Poll) (h : (runPolls polls (.startup incoming ready)).lost = 0) :
    (runPolls polls (.startup incoming ready)).auxStream = bytesOf true incoming ∧
    (runPolls polls (.startup incoming ready)).kbdStream = bytesOf false incoming ∧
    (polls.getLast? = some .touchpad →
      (runPolls polls (.startup incoming ready)).mouse.contents.length < 3) ∧
    ((runPolls polls (.startup incoming ready)).Drained →
      ∀ ready' polls', (runPolls polls' (.startup incoming ready')).lost = 0 →
        (runPolls polls' (.startup incoming ready')).Drained →
        (runPolls polls' (.startup incoming ready')).packets =
          (runPolls polls (.startup incoming ready)).packets ∧
        (runPolls polls' (.startup incoming ready')).examined =
          (runPolls polls (.startup incoming ready)).examined) := by
  have hstreams : ∀ ready polls, (runPolls polls (.startup incoming ready)).lost = 0 →
      (runPolls polls (.startup incoming ready)).auxStream = bytesOf true incoming ∧
      (runPolls polls (.startup incoming ready)).kbdStream = bytesOf false incoming := by
    intro ready polls hlost
    obtain ⟨-, haux, hkbd⟩ :=
      (runPolls_steps polls (.startup incoming ready)).conserves hlost
    rw [haux, hkbd]
    simp [State.auxStream, State.kbdStream, State.startup, contents_emptyRing]
  obtain ⟨haux, hkbd⟩ := hstreams ready polls h
  refine ⟨haux, hkbd, ?_, ?_⟩
  · intro hlast
    obtain ⟨before, rfl⟩ : ∃ before, polls = before ++ [.touchpad] :=
      List.getLast?_eq_some_iff.mp hlast
    rw [runPolls, List.foldl_append]
    exact (touchpadPoll_steps _).2
  · intro hdrained ready' polls' h' hdrained'
    obtain ⟨haux', hkbd'⟩ := hstreams ready' polls' h'
    constructor
    · have hsame := haux'.trans haux.symm
      simp only [State.auxStream, hdrained.incoming, hdrained'.incoming] at hsame
      refine packets_unique hdrained'.mouse hdrained.mouse ?_
      simpa [bytesOf] using hsame
    · have hsame := hkbd'.trans hkbd.symm
      simpa [State.kbdStream, hdrained.incoming, hdrained'.incoming, hdrained.kbd,
        hdrained'.kbd, bytesOf] using hsame

theorem packet_around_scancode :
    (runPolls [.touchpad, .keyboard] (.startup
        [⟨true, 8⟩, ⟨false, 30⟩, ⟨true, 1⟩, ⟨true, 2⟩] fun _ => true)).lost = 0 ∧
    (runPolls [.touchpad, .keyboard] (.startup
        [⟨true, 8⟩, ⟨false, 30⟩, ⟨true, 1⟩, ⟨true, 2⟩] fun _ => true)).auxStream =
      [8, 1, 2] :=
  have hlost := ((runPolls_steps [.touchpad, .keyboard] (.startup
    [⟨true, 8⟩, ⟨false, 30⟩, ⟨true, 1⟩, ⟨true, 2⟩] fun _ => true)).lost_eq
      (by decide)).2
  ⟨hlost, (demultiplexing _ _ _ hlost).1⟩

end EntropyOS.Ps2
