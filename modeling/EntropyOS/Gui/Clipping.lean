import EntropyOS.Gui.FrameFlag

/-!
# What drawing can touch

A routine that draws leaves every cell alone that does not show a pixel of its
box.  Boxes are clipped with 32-bit sums, and are right if these do not wrap.
-/

namespace EntropyOS.Gui

open EntropyOS.Foundation

/-! ## Frames -/

/-- Only the cells `P` of one buffer may differ. -/
structure Draws (dest : Dest) (P : Nat → Prop) (s s' : Screen) : Prop where
  off : ∀ k, ¬ P k → s'.pixels dest k = s.pixels dest k
  other : ∀ d, d ≠ dest → s'.pixels d = s.pixels d
  setup : s'.setup = s.setup

section Draws

variable {dest : Dest} {P Q : Nat → Prop} {s s' s'' : Screen}

theorem Draws.refl (s : Screen) : Draws dest P s s := ⟨fun _ _ => rfl, fun _ _ => rfl, rfl⟩

theorem Draws.trans (h : Draws dest P s s') (h' : Draws dest P s' s'') :
    Draws dest P s s'' :=
  ⟨fun k hk => (h'.off k hk).trans (h.off k hk),
    fun d hd => (h'.other d hd).trans (h.other d hd), h'.setup.trans h.setup⟩

theorem Draws.mono (h : Draws dest P s s') (hsub : ∀ k, P k → Q k) :
    Draws dest Q s s' :=
  ⟨fun k hk => h.off k (mt (hsub k) hk), h.other, h.setup⟩

theorem Draws.stride (h : Draws dest P s s') (gop : Gop) (d : Dest) :
    s'.stride gop d = s.stride gop d := by
  cases d with
  | back => exact congrArg (fun setup => setup.2.1) h.setup
  | frame => rfl

theorem Draws.dest_eq (h : Draws dest P s s') (gop : Gop) : s'.dest gop = s.dest gop := by
  have hsetup := h.setup
  simp only [Screen.setup, Prod.mk.injEq] at hsetup
  obtain ⟨hactive, hwidth, hheight, -⟩ := hsetup
  rw [Screen.dest, Screen.dest, hactive, hwidth, hheight]

end Draws

@[simp] theorem pixels_marked (s : Screen) (marked : Bool) (d : Dest) :
    ({ s with frameDirty := marked } : Screen).pixels d = s.pixels d := by
  cases d with
  | back => rfl
  | frame => rfl

@[simp] theorem pixels_setPixels (s : Screen) (dest : Dest) (pixels : Pixels) :
    (s.setPixels dest pixels).pixels dest = pixels := by
  cases dest with
  | back => rfl
  | frame => rfl

theorem Draws.marked {dest : Dest} {P : Nat → Prop} {s s' : Screen}
    (h : Draws dest P s s') (marked : Bool) :
    Draws dest P s { s' with frameDirty := marked } := by
  refine ⟨fun k hk => ?_, fun d hd => ?_, h.setup⟩
  · rw [pixels_marked]
    exact h.off k hk
  · rw [pixels_marked]
    exact h.other d hd

theorem setPixels_draws {dest : Dest} {P : Nat → Prop} {s : Screen} {pixels : Pixels}
    (h : ∀ k, ¬ P k → pixels k = s.pixels dest k) :
    Draws dest P s (s.setPixels dest pixels) := by
  refine ⟨fun k hk => ?_, fun d hd => ?_, setPixels_setup s dest pixels⟩
  · rw [pixels_setPixels]
    exact h k hk
  · cases dest with
    | back =>
        cases d with
        | back => exact absurd rfl hd
        | frame => rfl
    | frame =>
        cases d with
        | back => rfl
        | frame => exact absurd rfl hd

def InRow (off n k : Nat) : Prop := off ≤ k ∧ k < off + n

section Row

variable (gop : Gop) (dest : Dest) (off n : Nat) (s : Screen)

theorem fillRow_pixels (color : UInt32) :
    (fillRow gop dest off color n s).pixels dest =
      rowStored (s.pixels dest) off (fun _ => color) n := by
  simp only [fillRow, storeRow_eq, pixels_marked, pixels_setPixels]

theorem fillRow_on (color : UInt32) {k : Nat} (hk : InRow off n k) :
    (fillRow gop dest off color n s).pixels dest k = color := by
  rw [fillRow_pixels]
  exact if_pos hk

theorem fillRow_draws (color : UInt32) :
    Draws dest (InRow off n) s (fillRow gop dest off color n s) := by
  rw [fillRow, storeRow_eq]
  exact (setPixels_draws fun k hk => if_neg hk).marked true

theorem foldl_update_off {step : Pixels → Nat → Pixels}
    (hstep : ∀ mem i k, k ≠ off + i → step mem i k = mem k) (mem : Pixels) {k : Nat}
    (hk : ¬ InRow off n k) : (List.range n).foldl step mem k = mem k := by
  induction n with
  | zero => rfl
  | succ n ih =>
      have hbefore : ¬ InRow off n k := fun h => hk ⟨h.1, by have := h.2; omega⟩
      have hlast : k ≠ off + n := fun h => hk ⟨by omega, by omega⟩
      rw [List.range_succ, List.foldl_append, List.foldl_cons, List.foldl_nil,
        hstep _ _ _ hlast, ih hbefore]

theorem plotRow_draws (on : Nat → Bool) (color : UInt32) :
    Draws dest (InRow off n) s (plotRow dest off on color n s) := by
  refine setPixels_draws fun k hk => foldl_update_off off n (fun mem i k h => ?_) _ hk
  split
  · exact Function.update_of_ne h _ _
  · rfl

theorem blendRow_draws (mix : UInt32 → UInt32) :
    Draws dest (InRow off n) s (blendRow mix dest off n s) :=
  setPixels_draws fun _ hk =>
    foldl_update_off off n (fun _ _ _ h => Function.update_of_ne h _ _) _ hk

end Row

/-! ## Boxes -/

/-- Cell `k` shows a pixel of the columns `x0` to `x1` and the rows `y0` to `y1`. -/
def InBox (stride x0 x1 y0 y1 k : Nat) : Prop :=
  ∃ y, y0 ≤ y ∧ y < y1 ∧ ∃ x, x0 ≤ x ∧ x < x1 ∧ k = y * stride + x

theorem InBox.mono {stride x0 x1 y0 y1 a0 a1 b0 b1 k : Nat}
    (h : InBox stride x0 x1 y0 y1 k)
    (hsub : x0 < x1 → y0 < y1 → a0 ≤ x0 ∧ x1 ≤ a1 ∧ b0 ≤ y0 ∧ y1 ≤ b1) :
    InBox stride a0 a1 b0 b1 k := by
  obtain ⟨y, hlow, hhigh, x, hleft, hright, hk⟩ := h
  have hsub := hsub (by omega) (by omega)
  exact ⟨y, by omega, by omega, x, by omega, by omega, hk⟩

theorem InBox.of_row {stride x0 span y0 y1 y k : Nat} (hlow : y0 ≤ y) (hhigh : y < y1)
    (h : InRow (y * stride + x0) span k) : InBox stride x0 (x0 + span) y0 y1 k := by
  obtain ⟨hleft, hright⟩ := h
  exact ⟨y, hlow, hhigh, k - y * stride, by omega, by omega, by omega⟩

/-- The rows of a box are drawn one after the other, each in its place. -/
structure RowByRow (gop : Gop) (dest : Dest) (x0 span : Nat)
    (row : Nat → Screen → Screen) (rows : Nat → Nat → Screen → Screen) : Prop where
  zero : ∀ y s, rows 0 y s = s
  succ : ∀ count y s, rows (count + 1) y s = rows count (y + 1) (row y s)
  row_draws : ∀ y s, Draws dest (InRow (y * s.stride gop dest + x0) span) s (row y s)

section Boxes

variable {gop : Gop} {dest : Dest} {x0 span : Nat} {row : Nat → Screen → Screen}
  {rows : Nat → Nat → Screen → Screen}

theorem RowByRow.draws (h : RowByRow gop dest x0 span row rows) (count y : Nat)
    (s : Screen) :
    Draws dest (InBox (s.stride gop dest) x0 (x0 + span) y (y + count)) s
      (rows count y s) := by
  induction count generalizing y s with
  | zero =>
      rw [h.zero]
      exact .refl s
  | succ count ih =>
      have hfirst := h.row_draws y s
      have hrest := ih (y + 1) (row y s)
      rw [hfirst.stride] at hrest
      rw [h.succ]
      refine (hfirst.mono fun k hk => ?_).trans (hrest.mono fun k hk => ?_)
      · exact .of_row le_rfl (by omega) hk
      · exact hk.mono fun _ _ => ⟨le_rfl, le_rfl, by omega, by omega⟩

/-- What every row does to its cells is done to all of the box. -/
theorem RowByRow.pixels (h : RowByRow gop dest x0 span row rows) {Q : UInt32 → Prop}
    (hrow : ∀ y s k, InRow (y * s.stride gop dest + x0) span k →
      Q ((row y s).pixels dest k)) {count y : Nat} {s : Screen} {k : Nat}
    (hk : InBox (s.stride gop dest) x0 (x0 + span) y (y + count) k) :
    Q ((rows count y s).pixels dest k) := by
  induction count generalizing y s with
  | zero =>
      obtain ⟨j, hlow, hhigh, -⟩ := hk
      omega
  | succ count ih =>
      have hstride := (h.row_draws y s).stride gop dest
      rw [h.succ]
      by_cases hlater : InBox (s.stride gop dest) x0 (x0 + span) (y + 1) (y + 1 + count) k
      · exact ih (by rwa [hstride])
      · -- the rows after the first leave the cell alone
        obtain ⟨j, hlow, hhigh, x, hleft, hright, rfl⟩ := hk
        obtain rfl : j = y := by
          by_contra hne
          exact hlater ⟨j, by omega, by omega, x, hleft, hright, rfl⟩
        rw [(h.draws count (j + 1) (row j s)).off _ (by rwa [hstride])]
        exact hrow j s _ ⟨by omega, by omega⟩

end Boxes

theorem fillRows_rowByRow (gop : Gop) (dest : Dest) (x0 span : Nat) (color : UInt32) :
    RowByRow gop dest x0 span
      (fun y s => fillRow gop dest (y * s.stride gop dest + x0) color span s)
      (fillRows gop dest x0 color span) :=
  ⟨fun _ _ => rfl, fun _ _ _ => rfl, fun _ s => fillRow_draws gop dest _ span s color⟩

theorem blendRows_rowByRow (gop : Gop) (dest : Dest) (x0 span : Nat)
    (mix : UInt32 → UInt32) :
    RowByRow gop dest x0 span
      (fun y s => blendRow mix dest (y * s.stride gop dest + x0) span s)
      (blendRows gop mix dest x0 span) :=
  ⟨fun _ _ => rfl, fun _ _ _ => rfl, fun _ s => blendRow_draws dest _ span s mix⟩

/-! ## The two boxes -/

/-- The cells of the pixels that a box should cover, its sums taken as integers. -/
def Screen.boxCells (s : Screen) (gop : Gop) (x0 y0 w h : Nat) : Nat → Prop :=
  InBox (s.stride gop (s.dest gop)) x0 (min (x0 + w) gop.horizontalResolution) y0
    (min (y0 + h) gop.verticalResolution)

/-- The screen with other contents of the two buffers. -/
def Screen.holding (s : Screen) (back frame : Pixels) : Screen :=
  { s with staticBackbuffer := back, framebuffer := frame }

theorem Screen.pixels_holding (s : Screen) (c : UInt32) (d : Dest) (k : Nat) :
    (s.holding (fun _ => c) (fun _ => c)).pixels d k = c := by
  cases d with
  | back => rfl
  | frame => rfl

/-- `draw_box` gives the pixels of its box the colour, and touches no other cell. -/
def BoxExact (gop : Gop) (x0 y0 w h : Nat) (color : UInt32) (s : Screen) : Prop :=
  (∀ k, s.boxCells gop x0 y0 w h k →
    (drawBox gop x0 y0 w h color s).pixels (s.dest gop) k = color) ∧
  Draws (s.dest gop) (s.boxCells gop x0 y0 w h) s (drawBox gop x0 y0 w h color s)

/-- `draw_box_rgba` touches the pixels of its box only. -/
def BlendWithin (gop : Gop) (x0 y0 w h : Nat) (rgba : UInt32) (s : Screen) : Prop :=
  Draws (s.dest gop) (s.boxCells gop x0 y0 w h) s (drawBoxRgba gop x0 y0 w h rgba s)

/-- There is nothing to draw, or neither sum wraps. -/
def BoxFits (gop : Gop) (x0 y0 w h : Nat) : Prop :=
  gop.horizontalResolution ≤ x0 ∨ gop.verticalResolution ≤ y0 ∨ w = 0 ∨ h = 0 ∨
    (x0 + w < 4294967296 ∧ y0 + h < 4294967296)

/-- No row is drawn, or the sum of the columns does not wrap. -/
def BlendFits (gop : Gop) (x0 y0 w h : Nat) (rgba : UInt32) : Prop :=
  gop.horizontalResolution ≤ x0 ∨ gop.verticalResolution ≤ y0 ∨ h = 0 ∨
    rgba.toUInt8 = 0 ∨ x0 + w < 4294967296 ∨ 4294967296 ≤ y0 + h

/-- How many cells of each row are drawn from `x0` on. -/
def clippedSpan (sx x0 w : Nat) : Nat := u32 (min (u32 (x0 + w)) sx + 4294967296 - x0)

/-- How many rows are drawn from `y0` on. -/
def clippedCount (sy y0 h : Nat) : Nat := min (u32 (y0 + h)) sy - y0

section Clipped

variable {sx sy x0 y0 w h : Nat}

theorem clippedSpan_eq (hx : x0 < sx) (hsx : sx ≤ 32768) (hfit : x0 + w < 4294967296) :
    x0 + clippedSpan sx x0 w = min (x0 + w) sx := by
  rw [clippedSpan, u32, u32]
  omega

theorem clippedSpan_of_wraps (hx : x0 < sx) (hsx : sx ≤ 32768) (hw : w < 4294967296)
    (hwraps : 4294967296 ≤ x0 + w) : clippedSpan sx x0 w = w := by
  rw [clippedSpan, u32, u32]
  omega

theorem clippedCount_eq (hy : y0 < sy) (hfit : y0 + h < 4294967296) :
    y0 + clippedCount sy y0 h = min (y0 + h) sy := by
  rw [clippedCount, u32]
  omega

theorem clippedCount_of_wraps (hy0 : y0 < 4294967296) (hh : h < 4294967296)
    (hwraps : 4294967296 ≤ y0 + h) : clippedCount sy y0 h = 0 := by
  rw [clippedCount, u32]
  omega

variable {stride k : Nat}

/-- No row is drawn in a wrong place while the columns do not wrap. -/
theorem InBox.of_clipped (hx : x0 < sx) (hsx : sx ≤ 32768) (hy : y0 < sy)
    (hsy : sy ≤ 32768) (hh : h < 4294967296)
    (hfit : h = 0 ∨ x0 + w < 4294967296 ∨ 4294967296 ≤ y0 + h)
    (hk : InBox stride x0 (x0 + clippedSpan sx x0 w) y0 (y0 + clippedCount sy y0 h) k) :
    InBox stride x0 (min (x0 + w) sx) y0 (min (y0 + h) sy) k := by
  refine hk.mono fun _ hrows => ?_
  have hcount : y0 + h < 4294967296 := by
    by_contra hwraps
    rw [clippedCount_of_wraps (by omega) hh (by omega)] at hrows
    omega
  have hnone : h ≠ 0 := by
    rintro rfl
    rw [clippedCount_eq hy hcount] at hrows
    omega
  rw [clippedSpan_eq hx hsx (by omega), clippedCount_eq hy hcount]
  exact ⟨le_rfl, le_rfl, le_rfl, le_rfl⟩

/-- With a sum of columns that wraps, the last row goes on behind the box. -/
theorem exists_overflow (hx : x0 < sx) (hsx : sx ≤ 32768) (hy : y0 < sy)
    (hw : w < 4294967296) (hh : h ≠ 0) (hrows : y0 + h < 4294967296)
    (hwraps : 4294967296 ≤ x0 + w) (stride : Nat) :
    ∃ k, InBox stride x0 (x0 + clippedSpan sx x0 w) y0 (y0 + clippedCount sy y0 h) k ∧
      ¬ InBox stride x0 (min (x0 + w) sx) y0 (min (y0 + h) sy) k := by
  have hlast : y0 < min (y0 + h) sy := by omega
  refine ⟨(min (y0 + h) sy - 1) * stride + (x0 + w - 1), ?_, ?_⟩
  · rw [clippedSpan_of_wraps hx hsx hw hwraps, clippedCount_eq hy hrows]
    exact ⟨min (y0 + h) sy - 1, by omega, by omega, x0 + w - 1, by omega, by omega, rfl⟩
  · rintro ⟨y, -, hhigh, x, -, hright, hk⟩
    have hbefore := Nat.mul_le_mul_right stride
      (show y ≤ min (y0 + h) sy - 1 by omega)
    omega

end Clipped

/-! ## Colours without a reserved byte -/

theorem or_shifted_lt (a b c : UInt8) :
    (a.toUInt32 ||| (b.toUInt32 <<< 8) ||| (c.toUInt32 <<< 16)).toNat < 2 ^ 24 := by
  have ha : a.toUInt32.toNat < 2 ^ 24 := by
    have := a.toNat_lt
    simp only [UInt8.toNat_toUInt32]
    omega
  have hb : (b.toUInt32 <<< 8).toNat < 2 ^ 24 := by
    have := b.toNat_lt
    simp only [UInt32.toNat_shiftLeft, UInt8.toNat_toUInt32, Nat.shiftLeft_eq]
    change b.toNat * 2 ^ 8 % 2 ^ 32 < 2 ^ 24
    omega
  have hc : (c.toUInt32 <<< 16).toNat < 2 ^ 24 := by
    have := c.toNat_lt
    simp only [UInt32.toNat_shiftLeft, UInt8.toNat_toUInt32, Nat.shiftLeft_eq]
    change c.toNat * 2 ^ 16 % 2 ^ 32 < 2 ^ 24
    omega
  rw [UInt32.toNat_or, UInt32.toNat_or]
  exact Nat.or_lt_two_pow (Nat.or_lt_two_pow ha hb) hc

theorem packPixel_lt (fmt : PixelFormat) (r g b : UInt8) :
    (packPixel fmt r g b).toNat < 2 ^ 24 := by
  rw [packPixel]
  split
  · exact or_shifted_lt r g b
  · exact or_shifted_lt b g r

theorem blendPixel_lt (fmt : PixelFormat) (srcR srcG srcB srcA : UInt8) (dst : UInt32) :
    (blendPixel fmt srcR srcG srcB srcA dst).toNat < 2 ^ 24 := by
  simp only [blendPixel]
  split
  · exact or_shifted_lt _ _ _
  · exact or_shifted_lt _ _ _

theorem blendRow_lt {mix : UInt32 → UInt32} (hmix : ∀ v, (mix v).toNat < 2 ^ 24)
    (dest : Dest) {off n k : Nat} (s : Screen) (hk : InRow off n k) :
    ((blendRow mix dest off n s).pixels dest k).toNat < 2 ^ 24 := by
  rw [blendRow, pixels_setPixels]
  generalize s.pixels dest = mem
  obtain ⟨hlow, hhigh⟩ := hk
  induction n with
  | zero => omega
  | succ n ih =>
      rw [List.range_succ, List.foldl_append, List.foldl_cons, List.foldl_nil]
      by_cases hlast : k = off + n
      · rw [hlast, Function.update_self]
        exact hmix _
      · rw [Function.update_of_ne hlast]
        exact ih (by omega)

/-! ## When boxes are clipped right -/

section Fits

variable {gop : Gop} {x0 y0 w h : Nat} {s : Screen}

theorem drawBox_eq (color : UInt32) (hx : x0 < gop.horizontalResolution)
    (hy : y0 < gop.verticalResolution) :
    drawBox gop x0 y0 w h color s =
      fillRows gop (s.dest gop) x0 color (clippedSpan gop.horizontalResolution x0 w)
        (clippedCount gop.verticalResolution y0 h) y0 s :=
  if_neg (by omega)

theorem drawBox_outside (color : UInt32)
    (h' : gop.horizontalResolution ≤ x0 ∨ gop.verticalResolution ≤ y0) :
    drawBox gop x0 y0 w h color s = s :=
  if_pos h'

theorem not_boxCells_outside
    (h' : gop.horizontalResolution ≤ x0 ∨ gop.verticalResolution ≤ y0) (k : Nat) :
    ¬ s.boxCells gop x0 y0 w h k := by
  rintro ⟨y, hlow, hhigh, x, hleft, hright, -⟩
  omega

theorem drawBox_exact (hsx : gop.horizontalResolution ≤ 32768)
    (hsy : gop.verticalResolution ≤ 32768) (hh : h < 4294967296) (color : UInt32)
    (hfit : BoxFits gop x0 y0 w h) : BoxExact gop x0 y0 w h color s := by
  by_cases hout : gop.horizontalResolution ≤ x0 ∨ gop.verticalResolution ≤ y0
  · rw [BoxExact, drawBox_outside color hout]
    exact ⟨fun k hk => absurd hk (not_boxCells_outside hout k), .refl s⟩
  · rw [not_or, not_le, not_le] at hout
    obtain ⟨hx, hy⟩ := hout
    have hdrawn := Or.resolve_left (Or.resolve_left hfit (by omega)) (by omega)
    have hrows := fillRows_rowByRow gop (s.dest gop) x0
      (clippedSpan gop.horizontalResolution x0 w) color
    rw [BoxExact, drawBox_eq color hx hy]
    refine ⟨fun k hk => ?_, (hrows.draws _ _ s).mono fun k hk => ?_⟩
    · refine hrows.pixels (Q := (· = color)) (fun _ s _ => fillRow_on gop _ _ _ s color)
        (hk.mono fun hw hh => ?_)
      · have hsums : x0 + w < 4294967296 ∧ y0 + h < 4294967296 := by
          rcases hdrawn with rfl | rfl | hsums
          · omega
          · omega
          · exact hsums
        rw [clippedSpan_eq hx hsx hsums.1, clippedCount_eq hy hsums.2]
        exact ⟨le_rfl, le_rfl, le_rfl, le_rfl⟩
    · refine hk.of_clipped hx hsx hy hsy hh ?_
      rcases hdrawn with rfl | rfl | hsums
      · omega
      · exact .inl rfl
      · exact .inr (.inl hsums.1)

theorem boxFits_of_exact (hsx : gop.horizontalResolution ≤ 32768)
    (hsy : gop.verticalResolution ≤ 32768) (hw : w < 4294967296) (hh : h < 4294967296)
    (color : UInt32)
    (hexact : ∀ back frame, BoxExact gop x0 y0 w h color (s.holding back frame)) :
    BoxFits gop x0 y0 w h := by
  by_contra hfit
  simp only [BoxFits, not_or, not_le, not_and, not_lt] at hfit
  obtain ⟨hx, hy, hw0, hh0, hwraps⟩ := hfit
  obtain ⟨hon, hdraws⟩ := hexact (fun _ => color + 1) (fun _ => color + 1)
  have hfilled := s.pixels_holding (color + 1)
  have hne : color + 1 ≠ color := by simp
  generalize s.holding (fun _ => color + 1) (fun _ => color + 1) = s' at hon hdraws hfilled
  have hrows := fillRows_rowByRow gop (s'.dest gop) x0
    (clippedSpan gop.horizontalResolution x0 w) color
  rw [drawBox_eq color hx hy] at hon hdraws
  by_cases hcount : y0 + h < 4294967296
  · obtain ⟨k, hdrawn, hout⟩ := exists_overflow hx hsx hy hw hh0 hcount
      (by by_contra hsum; exact absurd (hwraps (by omega)) (by omega))
      (s'.stride gop (s'.dest gop))
    have hcolor := hrows.pixels (Q := (· = color))
      (fun _ s _ => fillRow_on gop _ _ _ s color) hdrawn
    rw [hdraws.off k hout, hfilled] at hcolor
    exact hne hcolor
  · rw [clippedCount_of_wraps (by omega) hh (by omega)] at hon
    have hfirst := hon _ ⟨y0, le_rfl, by omega, x0, le_rfl, by omega, rfl⟩
    rw [fillRows, hfilled] at hfirst
    exact hne hfirst

theorem drawBoxRgba_outside (rgba : UInt32)
    (h' : gop.horizontalResolution ≤ x0 ∨ gop.verticalResolution ≤ y0) :
    drawBoxRgba gop x0 y0 w h rgba s = s :=
  if_pos h'

/-- Where it draws at all, it draws row by row, and in colours without a reserved byte. -/
theorem drawBoxRgba_eq {rgba : UInt32} (hx : x0 < gop.horizontalResolution)
    (hy : y0 < gop.verticalResolution) (halpha : rgba.toUInt8 ≠ 0) :
    ∃ row rows, RowByRow gop (s.dest gop) x0
        (clippedSpan gop.horizontalResolution x0 w) row rows ∧
      (∀ y s' k, InRow (y * s'.stride gop (s.dest gop) + x0)
          (clippedSpan gop.horizontalResolution x0 w) k →
        ((row y s').pixels (s.dest gop) k).toNat < 2 ^ 24) ∧
      ∃ marked, drawBoxRgba gop x0 y0 w h rgba s =
        { rows (clippedCount gop.verticalResolution y0 h) y0 s with
          frameDirty := marked } := by
  have hin : ¬ (x0 ≥ gop.horizontalResolution ∨ y0 ≥ gop.verticalResolution) := by omega
  by_cases hopaque : rgba.toUInt8 = 255
  · refine ⟨_, _, fillRows_rowByRow gop (s.dest gop) x0 _ (packPixel gop.pixelFormat
      (rgba >>> 24).toUInt8 (rgba >>> 16).toUInt8 (rgba >>> 8).toUInt8), ?_, ?_⟩
    · intro y s' k hk
      rw [fillRow_on gop _ _ _ s' _ hk]
      exact packPixel_lt _ _ _ _
    · simp only [drawBoxRgba, hin, if_false, hopaque, if_true]
      exact ⟨_, rfl⟩
  · refine ⟨_, _, blendRows_rowByRow gop (s.dest gop) x0 _ (blendPixel gop.pixelFormat
      (rgba >>> 24).toUInt8 (rgba >>> 16).toUInt8 (rgba >>> 8).toUInt8 rgba.toUInt8),
      ?_, ?_⟩
    · intro y s' k hk
      exact blendRow_lt (blendPixel_lt _ _ _ _ _) _ _ hk
    · simp only [drawBoxRgba, hin, if_false, hopaque, halpha]
      exact ⟨_, rfl⟩

theorem drawBoxRgba_transparent {rgba : UInt32} (halpha : rgba.toUInt8 = 0) :
    drawBoxRgba gop x0 y0 w h rgba s = s := by
  simp only [drawBoxRgba, halpha, if_true]
  split
  · rfl
  · rfl

theorem drawBoxRgba_within (hsx : gop.horizontalResolution ≤ 32768)
    (hsy : gop.verticalResolution ≤ 32768) (hh : h < 4294967296) {rgba : UInt32}
    (hfit : BlendFits gop x0 y0 w h rgba) : BlendWithin gop x0 y0 w h rgba s := by
  rw [BlendWithin]
  by_cases hout : gop.horizontalResolution ≤ x0 ∨ gop.verticalResolution ≤ y0
  · rw [drawBoxRgba_outside rgba hout]
    exact .refl s
  by_cases halpha : rgba.toUInt8 = 0
  · rw [drawBoxRgba_transparent halpha]
    exact .refl s
  · rw [not_or, not_le, not_le] at hout
    obtain ⟨row, rows, hrows, -, marked, heq⟩ :=
      drawBoxRgba_eq (w := w) (h := h) (s := s) hout.1 hout.2 halpha
    rw [heq]
    refine ((hrows.draws _ _ s).mono fun k hk => ?_).marked marked
    refine hk.of_clipped hout.1 hsx hout.2 hsy hh ?_
    rcases Or.resolve_left (Or.resolve_left hfit (by omega)) (by omega) with
      hnone | hclear | hsums
    · exact .inl hnone
    · exact absurd hclear halpha
    · exact .inr hsums

theorem blendFits_of_within (hsx : gop.horizontalResolution ≤ 32768)
    (hw : w < 4294967296) (rgba : UInt32)
    (hwithin : ∀ back frame, BlendWithin gop x0 y0 w h rgba (s.holding back frame)) :
    BlendFits gop x0 y0 w h rgba := by
  by_contra hfit
  simp only [BlendFits, not_or, not_le, not_lt] at hfit
  obtain ⟨hx, hy, hh0, halpha, hwraps, hcount⟩ := hfit
  have hdraws := hwithin (fun _ => 0xFF000000) (fun _ => 0xFF000000)
  have hfilled := s.pixels_holding 0xFF000000
  generalize s.holding (fun _ => 0xFF000000) (fun _ => 0xFF000000) = s' at hdraws hfilled
  obtain ⟨row, rows, hrows, hlow, marked, heq⟩ :=
    drawBoxRgba_eq (w := w) (h := h) (s := s') hx hy halpha
  obtain ⟨k, hdrawn, hout⟩ := exists_overflow hx hsx hy hw hh0 hcount hwraps
    (s'.stride gop (s'.dest gop))
  have hpixel := hrows.pixels (Q := (·.toNat < 2 ^ 24)) hlow hdrawn
  have hkept := hdraws.off k hout
  rw [heq, pixels_marked, hfilled] at hkept
  rw [hkept] at hpixel
  exact absurd hpixel (by decide)

/--
`draw_box` is exact, whatever the memory holds, if and only if there is nothing to
draw or neither sum wraps; `draw_box_rgba` stays inside the box if and only if it
draws no row or the sum of the columns does not wrap.
-/
theorem boxes_clip_iff (gop : Gop) (hsx : gop.horizontalResolution ≤ 32768)
    (hsy : gop.verticalResolution ≤ 32768) (s : Screen) (x0 y0 w h color rgba : UInt32) :
    ((∀ back frame, BoxExact gop x0.toNat y0.toNat w.toNat h.toNat color
        (s.holding back frame)) ↔ BoxFits gop x0.toNat y0.toNat w.toNat h.toNat) ∧
    ((∀ back frame, BlendWithin gop x0.toNat y0.toNat w.toNat h.toNat rgba
        (s.holding back frame)) ↔ BlendFits gop x0.toNat y0.toNat w.toNat h.toNat rgba) :=
  ⟨⟨boxFits_of_exact hsx hsy w.toNat_lt h.toNat_lt color,
      fun hfit _ _ => drawBox_exact hsx hsy h.toNat_lt color hfit⟩,
    ⟨blendFits_of_within hsx w.toNat_lt rgba,
      fun hfit _ _ => drawBoxRgba_within hsx hsy h.toNat_lt hfit⟩⟩

theorem boxes_clip_small :
    (∀ back frame, BoxExact smallGop 30 30 4 4 7 (smallScreen.holding back frame)) ∧
    (∀ back frame,
      BlendWithin smallGop 30 30 4 4 128 (smallScreen.holding back frame)) :=
  ⟨(boxes_clip_iff smallGop (by decide) (by decide) smallScreen 30 30 4 4 7 128).1.mpr
      (by unfold BoxFits; decide),
    (boxes_clip_iff smallGop (by decide) (by decide) smallScreen 30 30 4 4 7 128).2.mpr
      (by unfold BlendFits; decide)⟩

/-- A box as wide as can be, from the second column on. -/
theorem wide_box_not_clipped :
    ¬ ∀ (gop : Gop) (s : Screen) (x0 y0 w h color : UInt32),
      gop.horizontalResolution ≤ 32768 → gop.verticalResolution ≤ 32768 →
      BoxExact gop x0.toNat y0.toNat w.toNat h.toNat color s ∧
        ∀ rgba, BlendWithin gop x0.toNat y0.toNat w.toNat h.toNat rgba s := by
  intro hclaim
  have hfits := @boxFits_of_exact smallGop 1 0 4294967295 1 smallScreen
    (by decide) (by decide) (by decide) (by decide) 0 fun back frame =>
      (hclaim smallGop (smallScreen.holding back frame) 1 0 4294967295 1 0
        (by decide) (by decide)).1
  revert hfits
  unfold BoxFits
  decide

end Fits

/-! ## Copies -/

theorem rowCopy_draws (gop : Gop) (dst src n : Nat) (s : Screen) :
    Draws .frame (InRow dst n) s (rowCopy gop dst src n s) := by
  rw [rowCopy_eq]
  exact @setPixels_draws .frame _ s _ fun k hk => if_neg hk

theorem copyRows_rowByRow (gop : Gop) (w : Nat) :
    RowByRow gop .frame 0 w
      (fun y s => rowCopy gop (y * gop.pixelsPerScanLine) (y * w) w s) (copyRows gop w) :=
  ⟨fun _ _ => rfl, fun _ _ _ => rfl, fun _ s => rowCopy_draws gop _ _ w s⟩

theorem InBox.of_lt {w h k : Nat} (hk : k < w * h) : InBox w 0 w 0 h k := by
  have hw : 0 < w := Nat.pos_of_mul_pos_right (by omega : 0 < w * h)
  exact ⟨k / w, Nat.zero_le _, Nat.div_lt_of_lt_mul hk, k % w, Nat.zero_le _,
    Nat.mod_lt k hw, (Nat.div_add_mod' k w).symm⟩

/--
The blit copies every pixel of the backbuffer to its place in the framebuffer and
changes nothing else; `fill_row` gives its cells the colour and changes nothing else.
-/
theorem blit_and_fill (gop : Gop) (s : Screen) (hactive : s.active = true)
    (hpitch : s.backbufWidth ≤ gop.pixelsPerScanLine) :
    ((∀ x < s.backbufWidth, ∀ y < s.backbufHeight,
        (blitBackbuffer gop s).framebuffer (y * gop.pixelsPerScanLine + x) =
          s.staticBackbuffer (y * s.backbufWidth + x)) ∧
      Draws .frame (InBox gop.pixelsPerScanLine 0 s.backbufWidth 0 s.backbufHeight) s
        (blitBackbuffer gop s)) ∧
    ∀ dest off color n,
      (∀ i < n, (fillRow gop dest off color n s).pixels dest (off + i) = color) ∧
      Draws dest (InRow off n) s (fillRow gop dest off color n s) := by
  refine ⟨?_, fun dest off color n =>
    ⟨fun i hi => ?_, fillRow_draws gop dest off n s color⟩⟩
  · simp only [blitBackbuffer, hactive, not_true_eq_false, if_false]
    by_cases hwhole : gop.pixelsPerScanLine = s.backbufWidth
    · rw [if_pos hwhole]
      have hcopy := rowCopy_draws gop 0 0 (s.backbufWidth * s.backbufHeight) s
      refine ⟨fun x hx y hy => ?_, (hcopy.mono fun k hk => ?_).marked false⟩
      · have hle := Nat.mul_le_mul_left s.backbufWidth
          (show y + 1 ≤ s.backbufHeight by omega)
        rw [Nat.mul_succ, Nat.mul_comm _ y] at hle
        rw [rowCopy_eq, hwhole]
        refine (if_pos (by omega)).trans ?_
        simp
      · rw [hwhole]
        exact .of_lt (by simpa using hk.2)
    · rw [if_neg hwhole]
      obtain ⟨-, -, -, hrows⟩ := copyRows_spec gop hpitch s.backbufHeight 0 s
      have hdraws := (copyRows_rowByRow gop s.backbufWidth).draws s.backbufHeight 0 s
      rw [Nat.zero_add, Nat.zero_add] at hdraws
      exact ⟨fun x hx y hy => hrows x hx y (by omega) (by omega), hdraws.marked false⟩
  · exact fillRow_on gop dest off n s color ⟨by omega, by omega⟩

/-- One word of each line of the framebuffer is off the screen, and keeps its colour. -/
theorem blit_with_gap :
    let gop := { smallGop with pixelsPerScanLine := 33 }
    let s := (initBackbuffer smallGop smallScreen).holding UInt32.ofNat fun _ => 7
    (blitBackbuffer gop s).framebuffer (2 * 33 + 1) = 2 * 32 + 1 ∧
      (blitBackbuffer gop s).framebuffer (2 * 33 + 32) = 7 := by
  intro gop s
  obtain ⟨hpixels, hdraws⟩ := (blit_and_fill gop s rfl (by decide)).1
  refine ⟨hpixels 1 (by decide) 2 (by decide), hdraws.off (2 * 33 + 32) ?_⟩
  rintro ⟨y, -, -, x, -, hx, heq⟩
  have hwidth : s.backbufWidth = 32 := rfl
  rw [show gop.pixelsPerScanLine = 33 from rfl] at heq
  omega

end EntropyOS.Gui
