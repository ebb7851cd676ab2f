import EntropyOS.Drivers.Ps2

/-!
# Two parsers for mouse packets

`touchpad.c` takes the stream byte by byte and skips single bytes until it is in
step again.  `ps2.c` takes it in groups of three and skips a whole group.
-/

namespace EntropyOS.Ps2

open EntropyOS.Foundation

/-- A packet as it is reported: the buttons and the two movements. -/
structure Report where
  buttons : UInt8
  dx : Int
  dy : Int
  deriving DecidableEq

/-- Bit 3, which the first byte of a packet has. -/
def Synced (b : UInt8) : Prop := b &&& 0x08 ≠ 0

instance : DecidablePred Synced := fun _ => inferInstanceAs (Decidable (_ ≠ _))

def Packet.report (packet : Packet) : Report where
  buttons := packet.b0 &&& 0x07
  dx := signExtend packet.b1 (packet.b0 &&& 0x10)
  dy := signExtend packet.b2 (packet.b0 &&& 0x20)

/-- What a packet adds to the totals of a poll. -/
def Motion.addReport (m : Motion) (report : Report) : Motion where
  any := true
  dx := m.dx + report.dx
  dy := m.dy + report.dy
  buttons := report.buttons

/-! ## The parser of `touchpad.c` -/

/-- `packet_idx` and `packet`. -/
structure Parser where
  packetIdx : Fin 3
  packet : Fin 3 → UInt8

structure Touchpad where
  parser : Parser
  absPosX : Int
  absPosY : Int
  /-- Decoded so far; they belong to the model only. -/
  reports : List Report

def Touchpad.startup : Touchpad where
  parser := ⟨0, fun _ => 0⟩
  absPosX := 16384
  absPosY := 16384
  reports := []

/-- One round of the loop: a byte is skipped, or stored, or ends a packet. -/
def takeByte (p : Parser) (b : UInt8) : Parser × Option Report :=
  if p.packetIdx = 0 ∧ ¬ Synced b then (p, none)
  else
    let packet := Function.update p.packet p.packetIdx b
    if p.packetIdx.val + 1 < 3 then (⟨p.packetIdx + 1, packet⟩, none)
    else (⟨0, packet⟩, some (Packet.report ⟨packet 0, packet 1, packet 2⟩))

def bytewiseLoop : List UInt8 → Parser → Motion → Parser × Motion
  | [], p, m => (p, m)
  | b :: rest, p, m =>
      match takeByte p b with
      | (p, none) => bytewiseLoop rest p m
      | (p, some report) => bytewiseLoop rest p (m.addReport report)

def bytewiseReports : List UInt8 → Parser → List Report
  | [], _ => []
  | b :: rest, p => (takeByte p b).2.toList ++ bytewiseReports rest (takeByte p b).1

/-- `touchpad_poll` of `touchpad.c`. -/
def bytewisePoll (available : List UInt8) (t : Touchpad) :
    Option (Int × Int × UInt8) × Touchpad :=
  let (p, m) := bytewiseLoop available t.parser ⟨false, 0, 0, 0⟩
  let t := { t with
    parser := p
    reports := t.reports ++ bytewiseReports available t.parser }
  if m.any then
    let dx := clamp (-128) 127 m.dx
    let dy := clamp (-128) 127 m.dy
    (some (dx, dy, m.buttons),
      { t with
        absPosX := clamp 0 32767 (t.absPosX + dx * 512)
        absPosY := clamp 0 32767 (t.absPosY - dy * 512) })
  else (none, t)

def bytewisePolls (pieces : List (List UInt8)) (t : Touchpad) : Touchpad :=
  pieces.foldl (fun t available => (bytewisePoll available t).2) t

/-! ## The two ways to cut a stream -/

def groupReports : List UInt8 → List Report
  | b0 :: b1 :: b2 :: rest =>
      if Synced b0 then Packet.report ⟨b0, b1, b2⟩ :: groupReports rest
      else groupReports rest
  | _ => []

def syncReports : List UInt8 → List Report
  | b0 :: b1 :: b2 :: rest =>
      if Synced b0 then Packet.report ⟨b0, b1, b2⟩ :: syncReports rest
      else syncReports (b1 :: b2 :: rest)
  | _ => []

theorem bytewiseLoop_eq (bytes : List UInt8) (p : Parser) (m : Motion) :
    bytewiseLoop bytes p m =
      (bytes.foldl (fun p b => (takeByte p b).1) p,
        (bytewiseReports bytes p).foldl Motion.addReport m) := by
  induction bytes generalizing p m with
  | nil => rfl
  | cons b rest ih =>
      rw [bytewiseLoop, bytewiseReports, List.foldl_cons]
      generalize takeByte p b = r
      obtain ⟨p', report⟩ := r
      cases report with
      | none => exact ih p' m
      | some report => exact ih p' (m.addReport report)

theorem bytewiseReports_append (xs ys : List UInt8) (p : Parser) :
    bytewiseReports (xs ++ ys) p =
      bytewiseReports xs p ++
        bytewiseReports ys (xs.foldl (fun p b => (takeByte p b).1) p) := by
  induction xs generalizing p with
  | nil => rfl
  | cons b xs ih =>
      rw [List.cons_append, bytewiseReports, ih, bytewiseReports, List.append_assoc,
        List.foldl_cons]

theorem bytewisePoll_state (available : List UInt8) (t : Touchpad) :
    (bytewisePoll available t).2.parser =
      available.foldl (fun p b => (takeByte p b).1) t.parser ∧
    (bytewisePoll available t).2.reports =
      t.reports ++ bytewiseReports available t.parser := by
  simp only [bytewisePoll, bytewiseLoop_eq]
  split
  · exact ⟨rfl, rfl⟩
  · exact ⟨rfl, rfl⟩

theorem bytewisePolls_reports (pieces : List (List UInt8)) (t : Touchpad) :
    (bytewisePolls pieces t).reports =
      t.reports ++ bytewiseReports pieces.flatten t.parser := by
  induction pieces generalizing t with
  | nil => simp [bytewisePolls, bytewiseReports]
  | cons piece pieces ih =>
      obtain ⟨hparser, hreports⟩ := bytewisePoll_state piece t
      have hrest := ih (bytewisePoll piece t).2
      rw [hparser, hreports] at hrest
      rw [bytewisePolls, List.foldl_cons, ← bytewisePolls, hrest, List.flatten_cons,
        bytewiseReports_append, List.append_assoc]

theorem takeByte_skip {p : Parser} (hp : p.packetIdx = 0) {b : UInt8} (hb : ¬ Synced b) :
    takeByte p b = (p, none) :=
  if_pos ⟨hp, hb⟩

theorem bytewiseReports_packet {p : Parser} (hp : p.packetIdx = 0) {b0 : UInt8}
    (hb : Synced b0) (b1 b2 : UInt8) (rest : List UInt8) :
    ∃ p' : Parser, p'.packetIdx = 0 ∧ bytewiseReports (b0 :: b1 :: b2 :: rest) p =
      Packet.report ⟨b0, b1, b2⟩ :: bytewiseReports rest p' := by
  obtain ⟨idx, packet⟩ := p
  obtain rfl : idx = 0 := hp
  refine ⟨⟨0, Function.update (Function.update (Function.update packet 0 b0) 1 b1) 2 b2⟩,
    rfl, ?_⟩
  simp [bytewiseReports, takeByte, hb]

theorem bytewiseReports_of_short {p : Parser} (hp : p.packetIdx = 0) {bytes : List UInt8}
    (hshort : bytes.length < 3) : bytewiseReports bytes p = [] := by
  obtain ⟨idx, packet⟩ := p
  obtain rfl : idx = 0 := hp
  match bytes with
  | [] => rfl
  | [b0] => by_cases hb : Synced b0 <;> simp [bytewiseReports, takeByte, hb]
  | [b0, b1] =>
      by_cases hb : Synced b0
      · simp [bytewiseReports, takeByte, hb]
      · by_cases hb' : Synced b1 <;> simp [bytewiseReports, takeByte, hb, hb']
  | _ :: _ :: _ :: _ => simp only [List.length_cons] at hshort; omega

theorem bytewiseReports_eq {p : Parser} (hp : p.packetIdx = 0) (bytes : List UInt8) :
    bytewiseReports bytes p = syncReports bytes := by
  fun_induction syncReports bytes generalizing p with
  | case1 b0 b1 b2 rest hb ih =>
      obtain ⟨p', hp', hreports⟩ := bytewiseReports_packet hp hb b1 b2 rest
      rw [hreports, ih hp']
  | case2 b0 b1 b2 rest hb ih =>
      rw [bytewiseReports, takeByte_skip hp hb]
      exact ih hp
  | case3 bytes hshort =>
      refine bytewiseReports_of_short hp ?_
      match bytes with
      | [] | [_] | [_, _] => simp
      | b0 :: b1 :: b2 :: rest => exact absurd rfl (hshort b0 b1 b2 rest)

/-! ## Streams that stay in step -/

theorem reports_of_short {bytes : List UInt8} (h : bytes.length < 3) :
    groupReports bytes = [] ∧ syncReports bytes = [] := by
  match bytes with
  | [] | [_] | [_, _] => exact ⟨rfl, rfl⟩
  | _ :: _ :: _ :: _ => simp only [List.length_cons] at h; omega

theorem syncReports_skip {b : UInt8} (hb : ¬ Synced b) (rest : List UInt8) :
    syncReports (b :: rest) = syncReports rest := by
  match rest with
  | [] | [_] => rfl
  | b1 :: b2 :: rest => rw [syncReports, if_neg hb]

/--
Cut the stream into groups of three.  Where one begins with a byte without bit 3,
its other bytes have none either, or the stream ends before the packet that one of
them would begin is complete.
-/
def InStep : List UInt8 → Prop
  | b0 :: b1 :: b2 :: rest =>
      if Synced b0 then InStep rest
      else if Synced b1 then rest = []
      else if Synced b2 then rest.length < 2
      else InStep rest
  | _ => True

/-- A group without bit 3 between two packets. -/
example : InStep [8, 1, 2, 0, 1, 2, 9, 3, 4] := by
  simp only [InStep]
  decide

theorem agree_iff_from_three (stream : List UInt8) :
    (∀ n, groupReports (stream.take n) = syncReports (stream.take n)) ↔
      ∀ n, groupReports (stream.take (n + 3)) = syncReports (stream.take (n + 3)) := by
  refine ⟨fun h n => h (n + 3), fun h n => ?_⟩
  by_cases hn : n < 3
  · have hshort : (stream.take n).length < 3 := by
      rw [List.length_take]
      omega
    rw [(reports_of_short hshort).1, (reports_of_short hshort).2]
  · obtain ⟨m, rfl⟩ := Nat.exists_eq_add_of_le' (not_lt.mp hn)
    exact h m

/-- The parsers agree at every moment of a stream, or are apart when it is out of step. -/
theorem groupReports_eq_iff (stream : List UInt8) :
    (∀ n, groupReports (stream.take n) = syncReports (stream.take n)) ↔
      InStep stream := by
  rw [agree_iff_from_three]
  fun_induction InStep stream with
  | case1 b0 b1 b2 rest hb ih =>
      rw [← ih, ← agree_iff_from_three rest]
      simp only [List.take_succ_cons, groupReports, syncReports, hb, if_true,
        List.cons.injEq, true_and]
  | case2 b0 b1 b2 rest hb hb1 =>
      constructor
      · intro h
        match rest with
        | [] => rfl
        | b3 :: rest =>
            -- the fourth byte completes the packet that the second began
            have hn := h 1
            simp [groupReports, syncReports, hb, hb1] at hn
      · rintro rfl n
        simp [groupReports, syncReports, hb]
  | case3 b0 b1 b2 rest hb hb1 hb2 =>
      constructor
      · intro h
        match rest with
        | [] | [_] => simp
        | b3 :: b4 :: rest =>
            have hn := h 2
            simp [groupReports, syncReports, hb, hb1, hb2] at hn
      · intro hrest n
        have hshort : (rest.take n).length < 2 := by
          rw [List.length_take]
          omega
        simp only [List.take_succ_cons]
        rw [syncReports_skip hb, syncReports_skip hb1, groupReports, if_neg hb,
          (reports_of_short (by omega)).1,
          (reports_of_short (by rw [List.length_cons]; omega)).2]
  | case4 b0 b1 b2 rest hb hb1 hb2 ih =>
      rw [← ih, ← agree_iff_from_three rest]
      simp only [List.take_succ_cons, groupReports, hb, if_false, syncReports_skip hb,
        syncReports_skip hb1, syncReports_skip hb2]
  | case5 stream hshort =>
      rw [← agree_iff_from_three]
      refine iff_of_true (fun n => ?_) trivial
      have hlength : (stream.take n).length < 3 := by
        rw [List.length_take]
        match stream with
        | [] | [_] | [_, _] => simp
        | b0 :: b1 :: b2 :: rest => exact absurd rfl (hshort b0 b1 b2 rest)
      rw [(reports_of_short hlength).1, (reports_of_short hlength).2]

/-! ## The reports of `ps2.c` -/

/-- The packets that `touchpad_poll` did not skip. -/
def State.reports (s : State) : List Report :=
  (s.packets.filter fun packet => Synced packet.b0).map Packet.report

/-- The auxiliary bytes that came so far and were not dropped. -/
def State.arrived (s : State) : List UInt8 :=
  s.packets.flatMap Packet.bytes ++ s.mouse.contents

theorem auxStream_eq (s : State) : s.auxStream = s.arrived ++ bytesOf true s.incoming :=
  rfl

theorem reports_eq {s : State} (hmouse : s.mouse.contents.length < 3) :
    s.reports = groupReports s.arrived := by
  rw [State.reports, State.arrived]
  induction s.packets with
  | nil => exact (reports_of_short hmouse).1.symm
  | cons packet packets ih =>
      rw [List.flatMap_cons, List.append_assoc]
      change _ = groupReports (packet.b0 :: packet.b1 :: packet.b2 ::
        (packets.flatMap Packet.bytes ++ s.mouse.contents))
      rw [groupReports, ← ih]
      by_cases hb : Synced packet.b0
      · rw [if_pos hb, List.filter_cons_of_pos (by simpa using hb), List.map_cons]
      · rw [if_neg hb, List.filter_cons_of_neg (by simpa using hb)]

theorem length_mouse_of_last {polls : List Poll} (hlast : polls.getLast? = some .touchpad)
    (s : State) : (runPolls polls s).mouse.contents.length < 3 := by
  obtain ⟨before, rfl⟩ := List.getLast?_eq_some_iff.mp hlast
  rw [runPolls, List.foldl_append]
  exact (touchpadPoll_steps _).2

/-! ## A byte for each poll -/

/-- Each poll finds one byte, and looks in vain for a second one. -/
def dripReady (k : Nat) : Bool := k % 3 ≠ 2

/-- The touchpad alone, and nothing dropped so far. -/
structure Dripping (s : State) (rest : List UInt8) : Prop where
  incoming : s.incoming = rest.map (⟨true, ·⟩)
  ready : s.ready = dripReady
  mouse : s.mouse.contents.length < 3
  lost : s.lost = 0

theorem Dripping.processed {s : State} {b : UInt8} {rest : List UInt8}
    (h : Dripping s (b :: rest)) :
    (processIncoming s).incoming = rest.map (⟨true, ·⟩) ∧
      (processIncoming s).ready = dripReady ∧ (processIncoming s).lost = 0 := by
  have hincoming : s.incoming = ⟨true, b⟩ :: rest.map (⟨true, ·⟩) := h.incoming
  have hfirst : s.status = statusOutputBuffer ||| statusAux := by
    rw [State.status, hincoming, h.ready]
    rfl
  have hsecond : s.looked.status = statusOutputBuffer ||| statusAux := by
    rw [State.status, State.looked, hincoming, h.ready]
    rfl
  have hread : readData s.looked.looked =
      (b, { s.looked.looked with incoming := rest.map (⟨true, ·⟩) }) :=
    readData_eq (s := s.looked.looked) hincoming
  generalize hpush :
    pushMouse { s.looked.looked with incoming := rest.map (⟨true, ·⟩) } b = t at hread
  have hthird : t.status = 0 := by
    rw [State.status, ← hpush]
    simp only [pushMouse, State.looked, h.ready]
    cases rest with
    | nil => rfl
    | cons c rest => rfl
  have hrun : processIncoming s = t.looked := by
    rw [processIncoming, hfirst, if_neg (by decide), hsecond, dif_neg (by decide),
      if_pos (by decide), hread, hpush, processIncoming, hthird, if_pos (by decide)]
  rw [hrun, ← hpush]
  refine ⟨rfl, ?_, ?_⟩
  · funext k
    change s.ready (k + 1 + 1 + 1) = dripReady k
    rw [h.ready, dripReady, dripReady]
    simp only [Nat.add_assoc, Nat.add_mod_right]
  · have hroom : s.mouse.contents.length ≠ 63 := by
      have := h.mouse
      omega
    change (if s.mouse.contents.length = 63 then s.lost + 1 else s.lost) = 0
    rw [if_neg hroom, h.lost]

theorem Dripping.poll {s : State} {b : UInt8} {rest : List UInt8}
    (h : Dripping s (b :: rest)) : Dripping (touchpadPoll s).2 rest := by
  obtain ⟨hincoming, hready, hlost⟩ := h.processed
  obtain ⟨hincoming', hready', -, hlost'⟩ := touchpadPoll_same s
  exact ⟨hincoming'.trans hincoming, hready'.trans hready, (touchpadPoll_steps s).2,
    hlost'.trans hlost⟩

theorem runPolls_dripping (stream : List UInt8) {n : Nat} (hn : n ≤ stream.length) :
    Dripping (runPolls (List.replicate n .touchpad)
      (.startup (stream.map (⟨true, ·⟩)) dripReady)) (stream.drop n) := by
  induction n with
  | zero => exact ⟨rfl, rfl, by simp [runPolls, State.startup, contents_emptyRing], rfl⟩
  | succ n ih =>
      have hprevious := ih (by omega)
      rw [List.drop_eq_getElem_cons (by omega)] at hprevious
      rw [List.replicate_succ', runPolls, List.foldl_append]
      exact hprevious.poll

theorem exists_arrived (stream : List UInt8) {n : Nat} (hn : n ≤ stream.length) :
    (runPolls (List.replicate n .touchpad)
        (.startup (stream.map (⟨true, ·⟩)) dripReady)).auxStream = stream ∧
      (runPolls (List.replicate n .touchpad)
        (.startup (stream.map (⟨true, ·⟩)) dripReady)).arrived = stream.take n := by
  have hdrip := runPolls_dripping stream hn
  have hstream := (demultiplexing _ _ _ hdrip.lost).1
  rw [bytesOf_map true] at hstream
  refine ⟨hstream, ?_⟩
  rw [auxStream_eq, hdrip.incoming, bytesOf_map true] at hstream
  exact List.append_cancel_right (hstream.trans (List.take_append_drop n stream).symm)

/--
While no byte of the mouse is dropped, both parsers report the same at every moment
of a stream if and only if it stays in step, however it is cut into polls.
-/
theorem parsers_agree_iff (stream : List UInt8) :
    (∀ incoming ready polls pieces, bytesOf true incoming = stream →
      (runPolls polls (.startup incoming ready)).auxStream = stream →
      polls.getLast? = some .touchpad →
      pieces.flatten = (runPolls polls (.startup incoming ready)).arrived →
        (runPolls polls (.startup incoming ready)).reports =
          (bytewisePolls pieces .startup).reports) ↔ InStep stream := by
  have hbytewise : ∀ pieces, (bytewisePolls pieces .startup).reports =
      syncReports pieces.flatten := fun pieces => by
    rw [bytewisePolls_reports, bytewiseReports_eq rfl]
    rfl
  rw [← groupReports_eq_iff]
  constructor
  · intro hagree
    have hwithin : ∀ n ≤ stream.length,
        groupReports (stream.take n) = syncReports (stream.take n) := by
      intro n hn
      obtain ⟨hstream, harrived⟩ := exists_arrived stream hn
      cases n with
      | zero => rfl
      | succ n =>
          have hlast :
              (List.replicate (n + 1) Poll.touchpad).getLast? = some .touchpad := by
            simp [List.getLast?_replicate]
          have hsame := hagree _ dripReady _ [stream.take (n + 1)]
            (bytesOf_map true stream) hstream hlast (by simpa using harrived.symm)
          rwa [reports_eq (length_mouse_of_last hlast _), harrived, hbytewise,
            List.flatten_singleton] at hsame
    intro n
    by_cases hn : n ≤ stream.length
    · exact hwithin n hn
    · rw [List.take_of_length_le (by omega), ← stream.take_length]
      exact hwithin _ le_rfl
  · intro hagree incoming ready polls pieces hincoming hstream hlast hpieces
    rw [reports_eq (length_mouse_of_last hlast _), hbytewise, hpieces]
    have hfront := auxStream_eq (runPolls polls (.startup incoming ready))
    rw [hstream] at hfront
    have htake := hagree (runPolls polls (.startup incoming ready)).arrived.length
    rwa [hfront, List.take_left] at htake

/-- One stray byte before a packet. -/
theorem stray_byte_loses_packet :
    ¬ ∀ stream incoming ready polls pieces, bytesOf true incoming = stream →
      (runPolls polls (.startup incoming ready)).auxStream = stream →
      polls.getLast? = some .touchpad →
      pieces.flatten = (runPolls polls (.startup incoming ready)).arrived →
        (runPolls polls (.startup incoming ready)).reports =
          (bytewisePolls pieces .startup).reports := by
  intro hclaim
  obtain ⟨hstream, harrived⟩ := exists_arrived [0, 8, 1, 2] (n := 4) (by decide)
  have hsame := hclaim _ _ dripReady _ [[0, 8, 1, 2]] (bytesOf_map _ _) hstream
    (by decide) harrived.symm
  rw [reports_eq (length_mouse_of_last (by decide) _), harrived] at hsame
  exact absurd hsame (by decide)

end EntropyOS.Ps2
