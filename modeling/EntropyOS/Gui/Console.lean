import EntropyOS.Gui.Clipping

/-!
# Text and the log console

Text stays on the screen wherever it begins.  The console keeps the last 64 lines
in a ring and draws them from the oldest on.
-/

namespace EntropyOS.Gui

open EntropyOS.Foundation

/-! ## Where text is drawn -/

section Text

variable {gop : Gop} (dest : Dest) (s : Screen)

def onScreen (gop : Gop) (stride : Nat) : Nat → Prop :=
  InBox stride 0 gop.horizontalResolution 0 gop.verticalResolution

theorem onScreen_of_row {stride y px n k : Nat} (hy : y < gop.verticalResolution)
    (hn : n ≤ gop.horizontalResolution - px) (hk : InRow (y * stride + px) n k) :
    onScreen gop stride k := by
  obtain ⟨hlow, hhigh⟩ := hk
  exact ⟨y, Nat.zero_le _, hy, k - y * stride, Nat.zero_le _, by omega, by omega⟩

theorem backgroundRows_draws {px clippedW : Nat} (py : Nat) (bg : UInt32)
    (hclip : clippedW ≤ gop.horizontalResolution - px) (count ry : Nat) :
    Draws dest (onScreen gop (s.stride gop dest)) s
      (backgroundRows gop dest px py clippedW bg count ry s) := by
  induction count generalizing ry s with
  | zero => exact .refl s
  | succ count ih =>
      simp only [backgroundRows]
      split
      · exact .refl s
      · next hy =>
        split
        · exact ih s (ry + 1)
        · have hrow := fillRow_draws gop dest (u32 (py + ry) * s.stride gop dest + px)
            clippedW s bg
          have hrest := ih (fillRow gop dest (u32 (py + ry) * s.stride gop dest + px) bg
            clippedW s) (ry + 1)
          rw [hrow.stride] at hrest
          exact (hrow.mono fun k => onScreen_of_row (not_le.mp hy) hclip).trans hrest

theorem glyphRows_draws (glyph : Nat → UInt8) (px py : Nat) (fg : UInt32)
    (count gy : Nat) :
    Draws dest (onScreen gop (s.stride gop dest)) s
      (glyphRows gop dest glyph px py fg count gy s) := by
  induction count generalizing gy s with
  | zero => exact .refl s
  | succ count ih =>
      simp only [glyphRows]
      split
      · exact .refl s
      next hy =>
      split
      · exact .refl s
      · have hrow := plotRow_draws dest (u32 (py + gy) * s.stride gop dest + px)
          (min 8 (gop.horizontalResolution - px)) s
          (fun gx => glyph gy &&& (0x80 >>> UInt8.ofNat gx) ≠ 0) fg
        have hrest := ih (plotRow dest (u32 (py + gy) * s.stride gop dest + px)
          (fun gx => glyph gy &&& (0x80 >>> UInt8.ofNat gx) ≠ 0) fg
          (min 8 (gop.horizontalResolution - px)) s) (gy + 1)
        rw [hrow.stride] at hrest
        exact (hrow.mono fun k => onScreen_of_row (not_le.mp hy) (by omega)).trans hrest

variable (font : Font) (fg bg : UInt32)

theorem drawChar_draws (hw : gop.horizontalResolution ≤ 2147483648) (c : UInt8)
    (px py : Nat) :
    Draws (s.dest gop) (onScreen gop (s.stride gop (s.dest gop))) s
      (drawChar gop font c px py fg bg s) := by
  simp only [drawChar]
  generalize hclipped : (if px < gop.horizontalResolution then
    if u32 (px + 10) > gop.horizontalResolution then gop.horizontalResolution - px
    else 10 else 0) = clippedW
  have hclip : clippedW ≤ gop.horizontalResolution - px := by
    rw [← hclipped, u32]
    split
    · split <;> omega
    · omega
  have hback := backgroundRows_draws (s.dest gop) s py bg hclip 16 0
  cases font8x16Get font c with
  | none => exact hback
  | some glyph =>
      have hglyph := @glyphRows_draws gop (s.dest gop)
        (backgroundRows gop (s.dest gop) px py clippedW bg 16 0 s) glyph px py fg 16 0
      rw [hback.stride] at hglyph
      exact hback.trans hglyph

theorem textLoop_draws (hw : gop.horizontalResolution ≤ 2147483648) (startPx : Nat)
    (string : List UInt8) (px py : Nat) :
    Draws (s.dest gop) (onScreen gop (s.stride gop (s.dest gop))) s
      (textLoop gop font startPx fg bg string px py s) := by
  induction string generalizing px py s with
  | nil => exact .refl s
  | cons c rest ih =>
      simp only [textLoop]
      split
      · split
        · exact .refl s
        · exact ih s _ _
      · generalize (if px ≥ gop.horizontalResolution then u32 (py + 16) else py) = py
        generalize (if px ≥ gop.horizontalResolution then startPx else px) = px
        split
        · exact .refl s
        · have hchar := drawChar_draws s font fg bg hw c px py
          have hrest := ih (drawChar gop font c px py fg bg s) (u32 (px + 10)) py
          rw [hchar.dest_eq, hchar.stride] at hrest
          exact hchar.trans hrest

end Text

/-- Text changes cells of the screen only, in the one buffer it draws to. -/
theorem textWithPos_on_screen (gop : Gop) (font : Font)
    (hw : gop.horizontalResolution ≤ 2147483648) (s : Screen) (col row : Nat)
    (fg bg : UInt8) (string : List UInt8) :
    Draws (s.dest gop) (InBox (s.stride gop (s.dest gop)) 0 gop.horizontalResolution 0
      gop.verticalResolution) s (textWithPos gop font col row fg bg string s) :=
  textLoop_draws s font _ _ hw _ string _ _

theorem textWithPos_negative_column :
    Draws .frame (InBox 32 0 32 0 32) smallScreen
      (textWithPos smallGop noFont (2 ^ 64 - 8) 0 0xF 0 [0x41, 0x0A, 0x42] smallScreen) :=
  textWithPos_on_screen smallGop noFont (by decide) smallScreen (2 ^ 64 - 8) 0 0xF 0
    [0x41, 0x0A, 0x42]

/-! ## The log console -/

/-- A string as the caller passes it: the bytes before the NUL. -/
structure CString where
  bytes : List UInt8
  ne_zero : ∀ c ∈ bytes, c ≠ 0

/-- A row of `s_logs`, which always holds a NUL. -/
structure LogLine where
  cells : Buf
  terminated : ∃ i < 160, cells i = 0

/-- What `text_with_pos` reads of the row. -/
def LogLine.string (line : LogLine) : List UInt8 :=
  ((List.range 160).map line.cells).takeWhile (· ≠ 0)

/-- The loop of `text` from index `i` on, and the NUL behind it. -/
def storeLine (cells : Buf) : List UInt8 → (i : Nat) → Buf
  | [], i => Function.update cells i 0
  | c :: rest, i =>
      if i < 159 then storeLine (Function.update cells i c) rest (i + 1)
      else Function.update cells i 0

theorem storeLine_of_lt (cells : Buf) (string : List UInt8) {i k : Nat} (hk : k < i) :
    storeLine cells string i k = cells k := by
  induction string generalizing cells i with
  | nil => exact Function.update_of_ne (by omega) _ _
  | cons c rest ih =>
      rw [storeLine]
      split
      · rw [ih _ (by omega), Function.update_of_ne (by omega)]
      · exact Function.update_of_ne (by omega) _ _

theorem storeLine_apply (cells : Buf) (string : List UInt8) {i : Nat} (hi : i ≤ 159) :
    (∀ k < min string.length (159 - i),
      storeLine cells string i (i + k) = string.getD k 0) ∧
    storeLine cells string i (i + min string.length (159 - i)) = 0 := by
  induction string generalizing cells i with
  | nil => exact ⟨fun k hk => by simp at hk, by simp [storeLine]⟩
  | cons c rest ih =>
      rw [storeLine]
      split
      · next hlt =>
        obtain ⟨hbytes, hnul⟩ := ih (Function.update cells i c)
          (show i + 1 ≤ 159 by omega)
        rw [List.length_cons]
        constructor
        · intro k hk
          cases k with
          | zero =>
              rw [storeLine_of_lt _ _ (by omega), Nat.add_zero, Function.update_self]
              rfl
          | succ k =>
              rw [show i + (k + 1) = i + 1 + k by omega, hbytes k (by omega)]
              rfl
        · rw [← hnul]
          congr 1
          omega
      · rw [show 159 - i = 0 by omega, Nat.min_zero, Nat.add_zero, Function.update_self]
        exact ⟨fun k hk => by omega, rfl⟩

def LogLine.store (line : LogLine) (string : CString) : LogLine where
  cells := storeLine line.cells string.bytes 0
  terminated :=
    ⟨min string.bytes.length 159, by omega, by
      simpa using (storeLine_apply line.cells string.bytes (Nat.zero_le 159)).2⟩

theorem takeWhile_cells (cells : Buf) {m n : Nat} (hm : m < n)
    (hne : ∀ k < m, cells k ≠ 0) (hnul : cells m = 0) :
    ((List.range n).map cells).takeWhile (· ≠ 0) = (List.range m).map cells := by
  obtain ⟨rest, rfl⟩ : ∃ rest, n = m + (rest + 1) := ⟨n - m - 1, by omega⟩
  rw [List.range_add, List.map_append, List.takeWhile_append_of_pos (by simpa using hne),
    List.range_succ_eq_map]
  simp [hnul]

theorem LogLine.string_store (line : LogLine) (string : CString) :
    (line.store string).string = string.bytes.take 159 := by
  obtain ⟨hbytes, hnul⟩ := storeLine_apply line.cells string.bytes (Nat.zero_le 159)
  simp only [Nat.zero_add, Nat.sub_zero] at hbytes hnul
  have hget : ∀ k (hk : k < min string.bytes.length 159),
      storeLine line.cells string.bytes 0 k = string.bytes.get ⟨k, by omega⟩ := by
    intro k hk
    rw [hbytes k hk, List.getD_eq_getElem?_getD, List.getElem?_eq_getElem (by omega)]
    rfl
  have hne : ∀ k < min string.bytes.length 159,
      storeLine line.cells string.bytes 0 k ≠ 0 := by
    intro k hk
    rw [hget k hk]
    exact string.ne_zero _ (List.get_mem _ _)
  rw [LogLine.string, LogLine.store, takeWhile_cells _ (by omega) hne hnul]
  refine List.ext_getElem (by simp [Nat.min_comm]) fun k hk hk' => ?_
  rw [List.getElem_map, List.getElem_range, List.getElem_take, hget k (by simpa using hk)]
  rfl

structure Console where
  sLogs : Nat → LogLine
  sLogsNext : Nat
  sLogsCount : Nat
  next_lt : sLogsNext < 64
  count_le : sLogsCount ≤ 64

theorem lines_pos : 0 < 64 := by decide

def Console.startup : Console where
  sLogs := fun _ => ⟨fun _ => 0, 0, by decide, rfl⟩
  sLogsNext := 0
  sLogsCount := 0
  next_lt := lines_pos
  count_le := by decide

def text (string : Option CString) (console : Console) : Console :=
  match string with
  | none => console
  | some string =>
      { sLogs := Function.update console.sLogs console.sLogsNext
          ((console.sLogs console.sLogsNext).store string)
        sLogsNext := (console.sLogsNext + 1) % 64
        sLogsCount := if console.sLogsCount < 64 then console.sLogsCount + 1
          else console.sLogsCount
        next_lt := Nat.mod_lt _ (by decide)
        count_le := by have := console.count_le; split <;> omega }

def runTexts (calls : List (Option CString)) : Console :=
  calls.foldl (fun console string => text string console) .startup

def renderHistory (gop : Gop) (font : Font) (console : Console) (s : Screen) : Screen :=
  let start := (console.sLogsNext + 64 - console.sLogsCount) % 64
  (List.range console.sLogsCount).foldl (fun s i =>
    textWithPos gop font 8 (40 + i * 18) 0xF 0
      (console.sLogs ((start + i) % 64)).string s) s

/-! ## The newest lines -/

/-- The strings of a sequence of calls, without the null pointers. -/
def written (calls : List (Option CString)) : List CString := calls.filterMap id

/-- The last 64 of them at most, each cut after 159 bytes. -/
def newestLines (calls : List (Option CString)) : List (List UInt8) :=
  ((written calls).drop ((written calls).length - 64)).map fun string =>
    string.bytes.take 159

def drawLines (gop : Gop) (font : Font) : List (List UInt8) → (i : Nat) → Screen → Screen
  | [], _, s => s
  | line :: rest, i, s =>
      drawLines gop font rest (i + 1)
        (textWithPos gop font 8 (40 + i * 18) 0xF 0 line s)

/-- The ring after `strings` were passed to `text`. -/
structure Console.Holds (console : Console) (strings : List CString) : Prop where
  next : console.sLogsNext = strings.length % 64
  count : console.sLogsCount = min strings.length 64
  line : ∀ j (hj : j < strings.length), strings.length ≤ j + 64 →
    (console.sLogs (j % 64)).string = (strings.get ⟨j, hj⟩).bytes.take 159

theorem Console.Holds.startup : Console.startup.Holds [] :=
  ⟨rfl, rfl, fun j hj => absurd hj (Nat.not_lt_zero j)⟩

theorem Console.Holds.text {console : Console} {strings : List CString}
    (h : console.Holds strings) (string : CString) :
    (text (some string) console).Holds (strings ++ [string]) := by
  have hnext := h.next
  have hcount := h.count
  constructor
  case next =>
    simp only [Gui.text, List.length_append, List.length_singleton]
    omega
  case count =>
    simp only [Gui.text, List.length_append, List.length_singleton]
    split <;> omega
  case line =>
    intro j hj hrecent
    simp only [List.length_append, List.length_singleton] at hj hrecent
    simp only [Gui.text]
    by_cases hlast : j = strings.length
    · subst hlast
      rw [← hnext, Function.update_self, LogLine.string_store]
      simp
    · rw [Function.update_of_ne (by omega), h.line j (by omega) (by omega)]
      simp [List.getElem_append_left (show j < strings.length by omega)]

theorem runTexts_holds (calls : List (Option CString)) :
    (runTexts calls).Holds (written calls) := by
  induction calls using List.reverseRecOn with
  | nil => exact .startup
  | append_singleton calls string ih =>
      rw [runTexts, List.foldl_append, List.foldl_cons, List.foldl_nil, ← runTexts,
        written, List.filterMap_append, ← written]
      cases string with
      | none => simpa [text] using ih
      | some string => exact ih.text string

theorem drawLines_append (gop : Gop) (font : Font) (lines : List (List UInt8))
    (line : List UInt8) (i : Nat) (s : Screen) :
    drawLines gop font (lines ++ [line]) i s =
      textWithPos gop font 8 (40 + (i + lines.length) * 18) 0xF 0 line
        (drawLines gop font lines i s) := by
  induction lines generalizing i s with
  | nil => rfl
  | cons first lines ih =>
      rw [List.cons_append, drawLines, ih, drawLines, List.length_cons]
      congr 3
      omega

theorem foldl_lines (gop : Gop) (font : Font) (line : Nat → List UInt8) (count : Nat)
    (s : Screen) :
    (List.range count).foldl (fun s i =>
      textWithPos gop font 8 (40 + i * 18) 0xF 0 (line i) s) s =
      drawLines gop font ((List.range count).map line) 0 s := by
  induction count with
  | zero => rfl
  | succ count ih =>
      rw [List.range_succ, List.foldl_append, ih, List.map_append, List.map_singleton,
        drawLines_append]
      simp

theorem Console.Holds.lines {console : Console} {strings : List CString}
    (h : console.Holds strings) :
    (List.range console.sLogsCount).map (fun i => (console.sLogs
        (((console.sLogsNext + 64 - console.sLogsCount) % 64 + i) % 64)).string) =
      (strings.drop (strings.length - 64)).map fun string => string.bytes.take 159 := by
  have hnext := h.next
  have hcount := h.count
  refine List.ext_getElem (by simp; omega) fun i hi hi' => ?_
  simp only [List.length_map, List.length_range] at hi
  have hindex : ((console.sLogsNext + 64 - console.sLogsCount) % 64 + i) % 64 =
      (strings.length - 64 + i) % 64 := by omega
  rw [List.getElem_map, List.getElem_range, hindex, h.line _ (by omega) (by omega)]
  simp

/--
After any sequence of calls of `text` the console draws the last 64 strings at
most, the oldest first, each cut after 159 bytes.
-/
theorem renderHistory_newest (gop : Gop) (font : Font) (calls : List (Option CString))
    (s : Screen) :
    renderHistory gop font (runTexts calls) s =
      drawLines gop font (newestLines calls) 0 s ∧
    (newestLines calls).length = min (written calls).length 64 := by
  constructor
  · simp only [renderHistory]
    rw [foldl_lines gop font (fun i => ((runTexts calls).sLogs
      ((((runTexts calls).sLogsNext + 64 - (runTexts calls).sLogsCount) % 64 + i) %
        64)).string), (runTexts_holds calls).lines, newestLines]
  · simp only [newestLines, List.length_map, List.length_drop]
    omega

end EntropyOS.Gui
