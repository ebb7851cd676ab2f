import EntropyOS.Gui.Drawing

/-!
# The frame flag

`refresh_frame_ticks` skips the blit while the flag is 0.  Every routine that
fills a row sets the flag; `draw_icon` writes the backbuffer and does not.
-/

namespace EntropyOS.Gui

open EntropyOS.Foundation

/-! ## Rows -/

/-- Memory after the first `n` pixels of a row were stored. -/
def rowStored (mem : Pixels) (off : Nat) (f : Nat → UInt32) (n : Nat) : Pixels :=
  fun k => if off ≤ k ∧ k < off + n then f (k - off) else mem k

section Rows

variable (mem : Pixels) (off : Nat) (f : Nat → UInt32)

theorem rowStored_zero : rowStored mem off f 0 = mem := by
  funext k
  rw [rowStored, if_neg (by omega)]

theorem store32_rowStored (i : Nat) :
    store32 (rowStored mem off f i) off f i = rowStored mem off f (i + 1) := by
  funext k
  by_cases hk : k = off + i
  · rw [store32, hk, Function.update_self, rowStored, if_pos (by omega)]
    congr 1
    omega
  · rw [store32, Function.update_of_ne hk, rowStored, rowStored]
    refine if_congr ?_ rfl rfl
    omega

theorem store64_rowStored (j : Nat) :
    store64 (rowStored mem off f (2 * j)) off f j =
      rowStored mem off f (2 * (j + 1)) := by
  have hlow := store32_rowStored mem off f (2 * j)
  have hhigh := store32_rowStored mem off f (2 * j + 1)
  rw [store32] at hlow hhigh
  rw [store64, hlow, hhigh, Nat.mul_succ]

theorem foldl_store32 (i count : Nat) :
    (List.range' i count).foldl (store32 · off f ·) (rowStored mem off f i) =
      rowStored mem off f (i + count) := by
  induction count generalizing i with
  | zero => rfl
  | succ count ih =>
      rw [List.range'_succ, List.foldl_cons, store32_rowStored, ih]
      congr 1
      omega

theorem foldl_store64 (j count : Nat) :
    (List.range' j count).foldl (store64 · off f ·) (rowStored mem off f (2 * j)) =
      rowStored mem off f (2 * (j + count)) := by
  induction count generalizing j with
  | zero => rfl
  | succ count ih =>
      rw [List.range'_succ, List.foldl_cons, store64_rowStored, ih]
      congr 2
      omega

theorem foldl_unrolled (count : Nat) :
    (List.range count).foldl (fun mem k =>
      store64 (store64 (store64 (store64 mem off f (4 * k)) off f (4 * k + 1))
        off f (4 * k + 2)) off f (4 * k + 3)) mem =
      rowStored mem off f (2 * (4 * count)) := by
  induction count with
  | zero => exact (rowStored_zero mem off f).symm
  | succ count ih =>
      rw [List.range_succ, List.foldl_append, ih, List.foldl_cons, List.foldl_nil,
        store64_rowStored, store64_rowStored, store64_rowStored, store64_rowStored,
        Nat.mul_succ 4]

theorem storeRow_eq (aligned : Bool) (n : Nat) :
    storeRow aligned mem off f n = rowStored mem off f n := by
  cases aligned with
  | false =>
      have hall := foldl_store32 mem off f 0 n
      rw [rowStored_zero, Nat.zero_add] at hall
      exact hall
  | true =>
      have hwords := foldl_store64 mem off f (n / 2 / 4 * 4) (n / 2 - n / 2 / 4 * 4)
      have htail := foldl_store32 mem off f (n / 2 * 2) (n - n / 2 * 2)
      rw [show n / 2 / 4 * 4 + (n / 2 - n / 2 / 4 * 4) = n / 2 by omega,
        Nat.mul_comm 2 (n / 2)] at hwords
      rw [show n / 2 * 2 + (n - n / 2 * 2) = n by omega] at htail
      simp only [storeRow, if_true]
      rw [foldl_unrolled, Nat.mul_comm 4, hwords, htail]

end Rows

/-! ## Routines that set the flag -/

/-- Where the buffers are, which drawing leaves alone. -/
def Screen.setup (s : Screen) : Bool × Nat × Nat × Nat :=
  (s.active, s.backbufWidth, s.backbufHeight, s.backbufferBase)

/-- A screen that is not marked afterwards is unchanged. -/
structure Marks (s s' : Screen) : Prop where
  setup : s'.setup = s.setup
  unmarked : s'.frameDirty = false → s' = s

theorem Marks.refl (s : Screen) : Marks s s := ⟨rfl, fun _ => rfl⟩

theorem Marks.trans {s s' s'' : Screen} (h : Marks s s') (h' : Marks s' s'') :
    Marks s s'' := by
  refine ⟨h'.setup.trans h.setup, fun hclear => ?_⟩
  obtain rfl := h'.unmarked hclear
  exact h.unmarked hclear

/-- Whatever is done to the pixels of a screen that ends up marked. -/
theorem Marks.of_dirty {s s' : Screen} (hsetup : s'.setup = s.setup)
    (hdirty : s'.frameDirty = true) : Marks s s' :=
  ⟨hsetup, fun hclear => by simp [hdirty] at hclear⟩

section Pixels

variable (s : Screen) (dest : Dest) (pixels : Pixels)

theorem setPixels_setup : (s.setPixels dest pixels).setup = s.setup := by
  cases dest with
  | back => rfl
  | frame => rfl

theorem setPixels_frameDirty :
    (s.setPixels dest pixels).frameDirty = s.frameDirty := by
  cases dest with
  | back => rfl
  | frame => rfl

end Pixels

section Marks

variable (gop : Gop) (dest : Dest) (s : Screen)

theorem fillRow_marks (off : Nat) (color : UInt32) (n : Nat) :
    Marks s (fillRow gop dest off color n s) :=
  .of_dirty (setPixels_setup s dest _) rfl

theorem fillRows_marks (x0 : Nat) (color : UInt32) (span count y : Nat) :
    Marks s (fillRows gop dest x0 color span count y s) := by
  induction count generalizing y s with
  | zero => exact .refl s
  | succ count ih => exact (fillRow_marks gop dest s _ color span).trans (ih _ _)

theorem blendRows_setup (mix : UInt32 → UInt32) (x0 span count y : Nat) :
    (blendRows gop mix dest x0 span count y s).setup = s.setup := by
  induction count generalizing y s with
  | zero => rfl
  | succ count ih => exact (ih _ _).trans (setPixels_setup s dest _)

theorem drawBox_marks (x0 y0 w h : Nat) (color : UInt32) :
    Marks s (drawBox gop x0 y0 w h color s) := by
  rw [drawBox]
  split
  · exact .refl s
  · exact fillRows_marks gop _ s _ _ _ _ _

theorem drawBoxRgba_marks (x0 y0 w h : Nat) (rgba : UInt32) :
    Marks s (drawBoxRgba gop x0 y0 w h rgba s) := by
  simp only [drawBoxRgba]
  split
  · exact .refl s
  split
  · exact .refl s
  split
  · exact fillRows_marks gop _ s _ _ _ _ _
  · exact .of_dirty (blendRows_setup gop _ s _ _ _ _ _) rfl

theorem clearScreenFb_marks (r g b : UInt8) :
    Marks s (clearScreenFb gop r g b s) := by
  rw [clearScreenFb]
  split
  · exact .refl s
  · exact fillRows_marks gop _ s _ _ _ _ _

/-! ### Text -/

theorem plotRow_setup (off : Nat) (on : Nat → Bool) (color : UInt32) (count : Nat) :
    (plotRow dest off on color count s).setup = s.setup := setPixels_setup s dest _

theorem plotRow_frameDirty (off : Nat) (on : Nat → Bool) (color : UInt32)
    (count : Nat) : (plotRow dest off on color count s).frameDirty = s.frameDirty :=
  setPixels_frameDirty s dest _

theorem glyphRows_same (glyph : Nat → UInt8) (px py : Nat) (fg : UInt32)
    (count gy : Nat) :
    (glyphRows gop dest glyph px py fg count gy s).setup = s.setup ∧
      (glyphRows gop dest glyph px py fg count gy s).frameDirty = s.frameDirty := by
  induction count generalizing gy s with
  | zero => exact ⟨rfl, rfl⟩
  | succ count ih =>
      simp only [glyphRows]
      split
      · exact ⟨rfl, rfl⟩
      split
      · exact ⟨rfl, rfl⟩
      · obtain ⟨hsetup, hdirty⟩ := ih (plotRow dest _ _ fg _ s) (gy + 1)
        rw [hsetup, hdirty]
        exact ⟨plotRow_setup dest s _ _ _ _, plotRow_frameDirty dest s _ _ _ _⟩

theorem backgroundRows_marks (px py clippedW : Nat) (bg : UInt32) (count ry : Nat) :
    Marks s (backgroundRows gop dest px py clippedW bg count ry s) := by
  induction count generalizing ry s with
  | zero => exact .refl s
  | succ count ih =>
      simp only [backgroundRows]
      split
      · exact .refl s
      split
      · exact ih _ _
      · exact (fillRow_marks gop dest s _ bg clippedW).trans (ih _ _)

theorem drawChar_marks (font : Font) (c : UInt8) {px py : Nat} (fg bg : UInt32)
    (hpy : py + 16 ≤ gop.verticalResolution)
    (hscreen : gop.verticalResolution < 4294967296) :
    Marks s (drawChar gop font c px py fg bg s) := by
  simp only [drawChar]
  by_cases hpx : px < gop.horizontalResolution
  · -- the first row of the background is filled
    rw [if_pos hpx]
    generalize hwidth : (if u32 (px + 10) > gop.horizontalResolution then
      gop.horizontalResolution - px else 10) = width
    have hpositive : width ≠ 0 := by
      rw [← hwidth]
      split
      · omega
      · decide
    have hfirst : u32 (py + 0) < gop.verticalResolution := by
      rw [u32_of_lt (by omega)]
      omega
    have hmarked := backgroundRows_marks gop (s.dest gop)
      (fillRow gop (s.dest gop) (u32 (py + 0) * s.stride gop (s.dest gop) + px) bg width
        s) px py width bg 15 1
    have hrows : backgroundRows gop (s.dest gop) px py width bg 16 0 s =
        backgroundRows gop (s.dest gop) px py width bg 15 1 (fillRow gop (s.dest gop)
          (u32 (py + 0) * s.stride gop (s.dest gop) + px) bg width s) := by
      rw [backgroundRows]
      simp only [not_le.mpr hfirst, hpositive, if_false]
    rw [← hrows] at hmarked
    have hsetup := hmarked.setup.trans (fillRow_marks gop (s.dest gop) s _ bg width).setup
    have hdirty : (backgroundRows gop (s.dest gop) px py width bg 16 0 s).frameDirty =
        true := by
      by_contra hclear
      rw [Bool.not_eq_true] at hclear
      have hsame := hmarked.unmarked hclear
      rw [hsame] at hclear
      simp [fillRow] at hclear
    cases font8x16Get font c with
    | none => exact .of_dirty hsetup hdirty
    | some glyph =>
        obtain ⟨hglyph, hflag⟩ := glyphRows_same gop (s.dest gop)
          (backgroundRows gop (s.dest gop) px py width bg 16 0 s) glyph px py fg 16 0
        exact .of_dirty (hglyph.trans hsetup) (hflag.trans hdirty)
  · -- nothing is drawn to the right of the screen
    rw [if_neg hpx]
    have hbackground := backgroundRows_marks gop (s.dest gop) s px py 0 bg 16 0
    cases font8x16Get font c with
    | none => exact hbackground
    | some glyph =>
        refine hbackground.trans ?_
        generalize backgroundRows gop (s.dest gop) px py 0 bg 16 0 s = s'
        simp only [glyphRows, not_lt.mp hpx, if_true]
        split
        · exact .refl s'
        · exact .refl s'

theorem textLoop_marks (font : Font) (startPx : Nat) (fg bg : UInt32)
    (string : List UInt8) (px py : Nat)
    (hscreen : gop.verticalResolution < 4294967296) :
    Marks s (textLoop gop font startPx fg bg string px py s) := by
  induction string generalizing px py s with
  | nil => exact .refl s
  | cons c string ih =>
      simp only [textLoop]
      split
      · split
        · exact .refl s
        · exact ih _ _ _
      · generalize (if px ≥ gop.horizontalResolution then u32 (py + 16) else py) = py
        generalize (if px ≥ gop.horizontalResolution then startPx else px) = px
        split
        · exact .refl s
        · next hroom =>
          exact (drawChar_marks gop s font c fg bg (not_lt.mp hroom) hscreen).trans
            (ih _ _ _)

end Marks

/-! ## Icons -/

/-- Pixel `k` of the backbuffer is one that an icon at `x`, `y` paints. -/
def Icon.Paints (icon : Icon) (w x y k : Nat) : Prop :=
  ∃ dy < 32, ∃ dx < 32, icon.pixels dy dx ≠ iconDot ∧ k = (y + dy) * w + x + dx

def Icon.Shown (icon : Icon) (gop : Gop) (x y : Nat) (color : UInt8) (s : Screen) :
    Prop :=
  ∀ k, icon.Paints gop.horizontalResolution x y k →
    s.staticBackbuffer k = iconColor gop.pixelFormat color

/-- The pixels `P` of the backbuffer get the colour, and nothing else changes. -/
structure Painted (P : Nat → Prop) (color : UInt32) (s s' : Screen) : Prop where
  on : ∀ k, P k → s'.staticBackbuffer k = color
  off : ∀ k, ¬ P k → s'.staticBackbuffer k = s.staticBackbuffer k
  framebuffer : s'.framebuffer = s.framebuffer
  frameDirty : s'.frameDirty = s.frameDirty
  setup : s'.setup = s.setup

section Icons

variable {P Q : Nat → Prop} {color : UInt32} {s s' s'' : Screen}

theorem Painted.none (h : ∀ k, ¬ P k) : Painted P color s s :=
  ⟨fun k hk => absurd hk (h k), fun _ _ => rfl, rfl, rfl, rfl⟩

theorem Painted.trans (h : Painted P color s s') (h' : Painted Q color s' s'') :
    Painted (fun k => P k ∨ Q k) color s s'' := by
  constructor
  case on =>
    intro k hk
    by_cases hq : Q k
    · exact h'.on k hq
    · rw [h'.off k hq]
      exact h.on k (hk.resolve_right hq)
  case off =>
    intro k hk
    rw [h'.off k fun hq => hk (.inr hq), h.off k fun hp => hk (.inl hp)]
  case framebuffer => exact h'.framebuffer.trans h.framebuffer
  case frameDirty => exact h'.frameDirty.trans h.frameDirty
  case setup => exact h'.setup.trans h.setup

theorem Painted.congr (h : Painted P color s s') (hsame : ∀ k, Q k ↔ P k) :
    Painted Q color s s' :=
  ⟨fun k hk => h.on k ((hsame k).mp hk), fun k hk => h.off k (mt (hsame k).mpr hk),
    h.framebuffer, h.frameDirty, h.setup⟩

/-- Painting over pixels that have the colour already changes nothing. -/
theorem Painted.eq_self (h : Painted P color s s')
    (hshown : ∀ k, P k → s.staticBackbuffer k = color) : s' = s := by
  have hback : s'.staticBackbuffer = s.staticBackbuffer := by
    funext k
    by_cases hk : P k
    · rw [h.on k hk, hshown k hk]
    · exact h.off k hk
  have hsetup := h.setup
  have hframe := h.framebuffer
  have hdirty := h.frameDirty
  cases s
  cases s'
  simp_all [Screen.setup]

theorem plotRow_painted (off : Nat) (on : Nat → Bool) (color : UInt32) (count : Nat)
    (s : Screen) :
    Painted (fun k => ∃ i < count, on i = true ∧ k = off + i) color s
      (plotRow .back off on color count s) := by
  induction count with
  | zero => exact .none (by simp)
  | succ count ih =>
      have hlast : Painted (fun k => on count = true ∧ k = off + count) color
          (plotRow .back off on color count s)
          (plotRow .back off on color (count + 1) s) := by
        simp only [plotRow, Screen.setPixels, Screen.pixels, List.range_succ,
          List.foldl_append, List.foldl_cons, List.foldl_nil]
        by_cases hon : on count = true
        · rw [if_pos hon]
          refine ⟨?_, ?_, rfl, rfl, rfl⟩
          · rintro k ⟨-, rfl⟩
            exact Function.update_self _ _ _
          · intro k hk
            exact Function.update_of_ne (fun h => hk ⟨hon, h⟩) _ _
        · rw [if_neg hon]
          exact .none fun k hk => hon hk.1
      refine (ih.trans hlast).congr fun k => ⟨?_, ?_⟩
      · rintro ⟨i, hi, hset, hk⟩
        rcases Nat.lt_succ_iff_lt_or_eq.mp hi with hlt | rfl
        · exact .inl ⟨i, hlt, hset, hk⟩
        · exact .inr ⟨hset, hk⟩
      · rintro (⟨i, hi, hset, hk⟩ | ⟨hset, hk⟩)
        · exact ⟨i, by omega, hset, hk⟩
        · exact ⟨count, by omega, hset, hk⟩

theorem iconRows_painted {gop : Gop} {icon : Icon} {x y w : Nat} (color : UInt32)
    {count dy : Nat} (hrows : y + dy + count ≤ gop.verticalResolution)
    (hscreen : gop.verticalResolution < 4294967296) (hw : s.backbufWidth = w) :
    Painted (fun k => ∃ j < count, ∃ dx < 32, icon.pixels (dy + j) dx ≠ iconDot ∧
        k = (y + (dy + j)) * w + x + dx) color s
      (iconRows gop .back icon x y color count dy s) := by
  induction count generalizing dy s with
  | zero => exact .none (by simp)
  | succ count ih =>
      have hin : ¬ u32 (y + dy) ≥ gop.verticalResolution := by
        rw [u32_of_lt (by omega)]
        omega
      have hfirst := plotRow_painted ((y + dy) * w + x)
        (fun dx => icon.pixels dy dx ≠ iconDot) color 32 s
      have hwidth : (plotRow .back ((y + dy) * w + x)
          (fun dx => icon.pixels dy dx ≠ iconDot) color 32 s).backbufWidth = w := hw
      have hrest := ih (show y + (dy + 1) + count ≤ _ by omega) hwidth
      rw [iconRows, if_neg hin, u32_of_lt (by omega), Screen.stride, hw]
      refine (hfirst.trans hrest).congr fun k => ⟨?_, ?_⟩
      · rintro ⟨j, hj, dx, hdx, hdot, hk⟩
        cases j with
        | zero => exact .inl ⟨dx, hdx, by simpa using hdot, hk⟩
        | succ j =>
            rw [show dy + (j + 1) = dy + 1 + j by omega] at hdot hk
            exact .inr ⟨j, by omega, dx, hdx, hdot, hk⟩
      · rintro (⟨dx, hdx, hdot, hk⟩ | ⟨j, hj, dx, hdx, hdot, hk⟩)
        · exact ⟨0, by omega, dx, hdx, by simpa using hdot, hk⟩
        · rw [show dy + 1 + j = dy + (j + 1) by omega] at hdot hk
          exact ⟨j + 1, by omega, dx, hdx, hdot, hk⟩

end Icons

/-! ## The screen and its buffer -/

/-- What `init_backbuffer` leaves for this screen. -/
structure Screen.Ready (s : Screen) (gop : Gop) : Prop where
  active : s.active = true
  width : s.backbufWidth = gop.horizontalResolution
  height : s.backbufHeight = gop.verticalResolution

theorem Screen.Ready.dest {s : Screen} {gop : Gop} (h : s.Ready gop) :
    s.dest gop = .back := if_pos ⟨h.active, h.width, h.height⟩

theorem Screen.Ready.of_setup {s s' : Screen} {gop : Gop} (h : s.Ready gop)
    (hsetup : s'.setup = s.setup) : s'.Ready gop := by
  simp only [Screen.setup, Prod.mk.injEq] at hsetup
  obtain ⟨hactive, hwidth, hheight, -⟩ := hsetup
  exact ⟨hactive.trans h.active, hwidth.trans h.width, hheight.trans h.height⟩

/-- Every pixel of the screen shows what is in the backbuffer. -/
def Screen.UpToDate (s : Screen) (gop : Gop) : Prop :=
  ∀ x < gop.horizontalResolution, ∀ y < gop.verticalResolution,
    s.framebuffer (y * gop.pixelsPerScanLine + x) =
      s.staticBackbuffer (y * gop.horizontalResolution + x)

/-- While the flag is 0 there is nothing to blit. -/
def Screen.Clean (s : Screen) (gop : Gop) : Prop :=
  s.frameDirty = false → s.UpToDate gop

theorem Marks.clean {s s' : Screen} {gop : Gop} (h : Marks s s')
    (hs : s.Clean gop) : s'.Clean gop := by
  intro hclear
  obtain rfl := h.unmarked hclear
  exact hs hclear

theorem rowCopy_eq (gop : Gop) (dst src n : Nat) (s : Screen) :
    rowCopy gop dst src n s =
      { s with
        framebuffer := rowStored s.framebuffer dst
          (fun i => s.staticBackbuffer (src + i)) n } := by
  rw [rowCopy, storeRow_eq]

theorem copyRows_spec (gop : Gop) {w : Nat} (hpitch : w ≤ gop.pixelsPerScanLine)
    (count y : Nat) (s : Screen) :
    (copyRows gop w count y s).setup = s.setup ∧
    (copyRows gop w count y s).staticBackbuffer = s.staticBackbuffer ∧
    (∀ x < w, ∀ j, j < y → (copyRows gop w count y s).framebuffer
      (j * gop.pixelsPerScanLine + x) =
        s.framebuffer (j * gop.pixelsPerScanLine + x)) ∧
    ∀ x < w, ∀ j, y ≤ j → j < y + count →
      (copyRows gop w count y s).framebuffer (j * gop.pixelsPerScanLine + x) =
        s.staticBackbuffer (j * w + x) := by
  induction count generalizing y s with
  | zero => exact ⟨rfl, rfl, fun _ _ _ _ => rfl, fun _ _ _ _ _ => by omega⟩
  | succ count ih =>
      obtain ⟨hsetup, hback, hbefore, hrows⟩ := ih (y + 1)
        (rowCopy gop (y * gop.pixelsPerScanLine) (y * w) w s)
      rw [copyRows]
      rw [rowCopy_eq] at hsetup hback hbefore hrows ⊢
      refine ⟨hsetup, hback, ?_, ?_⟩
      · intro x hx j hj
        rw [hbefore x hx j (by omega)]
        refine if_neg ?_
        have hle := Nat.mul_le_mul_right gop.pixelsPerScanLine (show j + 1 ≤ y by omega)
        rw [Nat.succ_mul] at hle
        omega
      · intro x hx j hlow hhigh
        by_cases hj : j = y
        · rw [hbefore x hx j (by omega), hj]
          refine (if_pos (by omega)).trans ?_
          rw [Nat.add_sub_cancel_left]
        · exact hrows x hx j (by omega) (by omega)

theorem blitBackbuffer_clean {gop : Gop} {s : Screen} (h : s.Ready gop)
    (hpitch : gop.horizontalResolution ≤ gop.pixelsPerScanLine) :
    (blitBackbuffer gop s).setup = s.setup ∧ (blitBackbuffer gop s).UpToDate gop := by
  simp only [blitBackbuffer, h.active, not_true_eq_false, if_false, h.width, h.height]
  by_cases hwhole : gop.pixelsPerScanLine = gop.horizontalResolution
  · rw [if_pos hwhole, rowCopy_eq]
    refine ⟨rfl, fun x hx y hy => ?_⟩
    have hle := Nat.mul_le_mul_right gop.horizontalResolution
      (show y + 1 ≤ gop.verticalResolution by omega)
    rw [Nat.succ_mul, Nat.mul_comm gop.verticalResolution] at hle
    rw [hwhole]
    refine (if_pos (by omega)).trans ?_
    simp
  · rw [if_neg hwhole]
    obtain ⟨hsetup, hback, -, hrows⟩ := copyRows_spec gop hpitch gop.verticalResolution
      0 s
    refine ⟨hsetup, fun x hx y hy => ?_⟩
    simp only [hback]
    exact hrows x hx y (by omega) (by omega)

/-! ## Runs -/

inductive Call where
  | putPixel (x y : Nat) (color : UInt32)
  | drawBox (x0 y0 w h : Nat) (color : UInt32)
  | drawBoxRgba (x0 y0 w h : Nat) (rgba : UInt32)
  | clearScreenFb (r g b : UInt8)
  | textWithPos (col row : Nat) (fg bg : UInt8) (string : List UInt8)
  | drawIcon (icon : Icon) (x y : Nat) (color : UInt8)
  | blitBackbuffer

def Call.run (gop : Gop) (font : Font) : Call → Screen → Screen
  | .putPixel x y color => Gui.putPixel gop x y color
  | .drawBox x0 y0 w h color => Gui.drawBox gop x0 y0 w h color
  | .drawBoxRgba x0 y0 w h rgba => Gui.drawBoxRgba gop x0 y0 w h rgba
  | .clearScreenFb r g b => Gui.clearScreenFb gop r g b
  | .textWithPos col row fg bg string => Gui.textWithPos gop font col row fg bg string
  | .drawIcon icon x y color => Gui.drawIcon gop icon x y color
  | .blitBackbuffer => Gui.blitBackbuffer gop

/-- The shape lies inside the screen; text stops at its edges by itself. -/
def Call.Inside (gop : Gop) : Call → Prop
  | .putPixel x y _ => x < gop.horizontalResolution ∧ y < gop.verticalResolution
  | .drawBox x0 y0 w h _ | .drawBoxRgba x0 y0 w h _ =>
      x0 + w ≤ gop.horizontalResolution ∧ y0 + h ≤ gop.verticalResolution
  | .drawIcon _ x y _ =>
      x + 32 ≤ gop.horizontalResolution ∧ y + 32 ≤ gop.verticalResolution
  | .clearScreenFb _ _ _ | .textWithPos _ _ _ _ _ | .blitBackbuffer => True

def runCalls (gop : Gop) (font : Font) (calls : List Call) (s : Screen) : Screen :=
  calls.foldl (fun s c => c.run gop font s) s

/-- An icon that is drawn while the flag is 0 is on the screen already. -/
def Call.Unseen (gop : Gop) (s : Screen) : Call → Prop
  | .drawIcon icon x y color => s.frameDirty = false → icon.Shown gop x y color s
  | _ => True

section Runs

variable {gop : Gop} {s : Screen}

theorem drawIcon_painted (h : s.Ready gop) {icon : Icon} {x y : Nat} (color : UInt8)
    (hy : y + 32 ≤ gop.verticalResolution)
    (hscreen : gop.verticalResolution < 4294967296) :
    Painted (icon.Paints gop.horizontalResolution x y)
      (iconColor gop.pixelFormat color) s (drawIcon gop icon x y color s) := by
  have hrows : Painted _ _ s (iconRows gop .back icon x y
      (iconColor gop.pixelFormat color) 32 0 s) :=
    iconRows_painted _ (by omega) hscreen h.width
  rw [drawIcon, h.dest]
  refine hrows.congr fun k => ?_
  simp only [Icon.Paints, Nat.zero_add]

/-- An icon keeps the screen clean if it shows nothing new, or the flag is set. -/
theorem drawIcon_clean_iff (h : s.Ready gop) (hs : s.Clean gop) {icon : Icon}
    {x y : Nat} (color : UInt8) (hx : x + 32 ≤ gop.horizontalResolution)
    (hy : y + 32 ≤ gop.verticalResolution)
    (hscreen : gop.verticalResolution < 4294967296) :
    (drawIcon gop icon x y color s).Clean gop ↔
      (s.frameDirty = false → icon.Shown gop x y color s) := by
  have hpaint : Painted _ _ s (drawIcon gop icon x y color s) :=
    drawIcon_painted h color hy hscreen
  constructor
  · intro hclean hclear k hk
    have hafter := hclean (hpaint.frameDirty.trans hclear)
    obtain ⟨dy, hdy, dx, hdx, hdot, rfl⟩ := hk
    have hnow := hafter (x + dx) (by omega) (y + dy) (by omega)
    have hthen := hs hclear (x + dx) (by omega) (y + dy) (by omega)
    rw [← Nat.add_assoc, ← Nat.add_assoc] at hnow hthen
    rw [hpaint.framebuffer, hpaint.on _ ⟨dy, hdy, dx, hdx, hdot, rfl⟩] at hnow
    exact hthen.symm.trans hnow
  · intro hshown hclear
    have hbefore := hpaint.frameDirty.symm.trans hclear
    rw [hpaint.eq_self (hshown hbefore)]
    exact hs hbefore

theorem putPixel_marks (h : s.Ready gop) (x y : Nat) (color : UInt32) :
    Marks s (putPixel gop x y color s) := by
  rw [putPixel]
  split
  · exact .refl s
  · rw [h.dest]
    exact .of_dirty rfl rfl

theorem Call.run_ready (h : s.Ready gop) (font : Font)
    (hpitch : gop.horizontalResolution ≤ gop.pixelsPerScanLine)
    (hscreen : gop.verticalResolution < 4294967296) {c : Call} (hc : c.Inside gop) :
    (c.run gop font s).Ready gop := by
  cases c with
  | putPixel x y color => exact h.of_setup (putPixel_marks h x y color).setup
  | drawBox x0 y0 w ht color =>
      exact h.of_setup (drawBox_marks gop s x0 y0 w ht color).setup
  | drawBoxRgba x0 y0 w ht rgba =>
      exact h.of_setup (drawBoxRgba_marks gop s x0 y0 w ht rgba).setup
  | clearScreenFb r g b => exact h.of_setup (clearScreenFb_marks gop s r g b).setup
  | textWithPos col row fg bg string =>
      exact h.of_setup (textLoop_marks gop s font _ _ _ string _ _ hscreen).setup
  | drawIcon icon x y color =>
      exact h.of_setup (drawIcon_painted h color hc.2 hscreen).setup
  | blitBackbuffer => exact h.of_setup (blitBackbuffer_clean h hpitch).1

theorem Call.run_clean_iff (h : s.Ready gop) (hs : s.Clean gop) (font : Font)
    (hpitch : gop.horizontalResolution ≤ gop.pixelsPerScanLine)
    (hscreen : gop.verticalResolution < 4294967296) {c : Call} (hc : c.Inside gop) :
    (c.run gop font s).Clean gop ↔ c.Unseen gop s := by
  cases c with
  | putPixel x y color => exact iff_of_true ((putPixel_marks h x y color).clean hs) trivial
  | drawBox x0 y0 w ht color =>
      exact iff_of_true ((drawBox_marks gop s x0 y0 w ht color).clean hs) trivial
  | drawBoxRgba x0 y0 w ht rgba =>
      exact iff_of_true ((drawBoxRgba_marks gop s x0 y0 w ht rgba).clean hs) trivial
  | clearScreenFb r g b =>
      exact iff_of_true ((clearScreenFb_marks gop s r g b).clean hs) trivial
  | textWithPos col row fg bg string =>
      exact iff_of_true
        ((textLoop_marks gop s font _ _ _ string _ _ hscreen).clean hs) trivial
  | drawIcon icon x y color => exact drawIcon_clean_iff h hs color hc.1 hc.2 hscreen
  | blitBackbuffer =>
      exact iff_of_true (fun _ => (blitBackbuffer_clean h hpitch).2) trivial

theorem runCalls_clean_iff (h : s.Ready gop) (hs : s.Clean gop) (font : Font)
    (hpitch : gop.horizontalResolution ≤ gop.pixelsPerScanLine)
    (hscreen : gop.verticalResolution < 4294967296) {calls : List Call}
    (hcalls : ∀ c ∈ calls, c.Inside gop) :
    (∀ before after, calls = before ++ after →
        (runCalls gop font before s).Clean gop) ↔
      ∀ before c after, calls = before ++ c :: after →
        c.Unseen gop (runCalls gop font before s) := by
  induction calls generalizing s with
  | nil =>
      refine iff_of_true ?_ (by simp)
      intro before after h
      obtain ⟨rfl, -⟩ := List.nil_eq_append_iff.mp h
      exact hs
  | cons c calls ih =>
      have hc := hcalls c (by simp)
      have hrest : ∀ d ∈ calls, d.Inside gop := fun d hd =>
        hcalls d (List.mem_cons_of_mem _ hd)
      have hready := Call.run_ready h font hpitch hscreen hc
      have hstep := Call.run_clean_iff h hs font hpitch hscreen hc
      constructor
      · intro hall
        have hone := hall [c] calls rfl
        intro before d after hsplit
        cases before with
        | nil =>
            obtain ⟨rfl, -⟩ := List.cons.inj hsplit
            exact hstep.mp hone
        | cons b before =>
            obtain ⟨rfl, htail⟩ := List.cons.inj hsplit
            refine (ih hready hone hrest).mp (fun front back hfront => ?_) before d after
              htail
            exact hall (c :: front) back (by rw [hfront, List.cons_append])
      · intro hall
        have hone := hstep.mpr (hall [] c calls rfl)
        intro before after hsplit
        cases before with
        | nil => exact hs
        | cons b before =>
            obtain ⟨rfl, htail⟩ := List.cons.inj hsplit
            refine (ih hready hone hrest).mpr (fun front d back hfront => ?_) before after
              htail
            exact hall (c :: front) d back (by rw [hfront, List.cons_append])

theorem initBackbuffer_ready (hw : gop.horizontalResolution ≤ 1920)
    (hh : gop.verticalResolution ≤ 1200) : (initBackbuffer gop s).Ready gop := by
  rw [initBackbuffer, if_pos ⟨hw, hh⟩]
  exact ⟨rfl, rfl, rfl⟩

theorem initBackbuffer_frameDirty :
    (initBackbuffer gop s).frameDirty = s.frameDirty := by
  rw [initBackbuffer]
  split
  · rfl
  · rfl

/--
From start-up on, a clear flag means that the screen is up to date after every
call, if and only if no icon that is drawn while it is clear shows anything new.
-/
theorem clean_throughout_iff (hw : gop.horizontalResolution ≤ 1920)
    (hh : gop.verticalResolution ≤ 1200)
    (hpitch : gop.horizontalResolution ≤ gop.pixelsPerScanLine)
    (hs : s.frameDirty = true) (font : Font) {calls : List Call}
    (hcalls : ∀ c ∈ calls, c.Inside gop) :
    (∀ before after, calls = before ++ after →
        (runCalls gop font before (initBackbuffer gop s)).Clean gop) ↔
      ∀ before c after, calls = before ++ c :: after →
        c.Unseen gop (runCalls gop font before (initBackbuffer gop s)) := by
  refine runCalls_clean_iff (initBackbuffer_ready hw hh) (fun hclear => ?_) font hpitch
    (by omega) hcalls
  rw [initBackbuffer_frameDirty, hs] at hclear
  simp at hclear

end Runs

/-! ## A screen of 32 by 32 pixels -/

def smallGop : Gop where
  horizontalResolution := 32
  verticalResolution := 32
  pixelsPerScanLine := 32
  pixelFormat := .blueGreenRedReserved8BitPerColor
  frameBufferBase := 0

def smallScreen : Screen where
  staticBackbuffer := fun _ => 0
  backbufferBase := 0
  active := false
  backbufWidth := 0
  backbufHeight := 0
  framebuffer := fun _ => 0
  frameDirty := true

def noFont : Font := ⟨fun _ => false, fun _ _ => 0⟩

def solidIcon : Icon := ⟨fun _ _ => 0x23⟩

/-- An icon that is drawn on a marked frame goes out with the next blit. -/
theorem clean_with_icon_before_blit :
    (runCalls smallGop noFont
      [.putPixel 0 0 1, .drawIcon solidIcon 0 0 15, .blitBackbuffer]
      (initBackbuffer smallGop smallScreen)).Clean smallGop := by
  refine (clean_throughout_iff (by decide) (by decide) le_rfl rfl noFont ?_).mpr ?_ _ []
    (List.append_nil _).symm
  · simp [Call.Inside, smallGop]
  · rintro (_ | ⟨b, _ | ⟨c, _ | ⟨d, before⟩⟩⟩) e after h
    · obtain ⟨rfl, -⟩ := List.cons.inj h
      trivial
    · simp only [List.cons_append, List.nil_append, List.cons.injEq] at h
      obtain ⟨rfl, rfl, -⟩ := h
      intro hclear
      exact absurd hclear (by decide)
    · simp only [List.cons_append, List.nil_append, List.cons.injEq] at h
      obtain ⟨-, -, rfl, -⟩ := h
      trivial
    · simp at h

/-- After a blit the flag is 0, and the icon that follows does not change that. -/
theorem icon_hidden_after_blit :
    ¬ ∀ (gop : Gop) (font : Font) (s : Screen) (calls : List Call),
      gop.horizontalResolution ≤ 1920 → gop.verticalResolution ≤ 1200 →
      gop.horizontalResolution ≤ gop.pixelsPerScanLine → s.frameDirty = true →
      (∀ c ∈ calls, c.Inside gop) →
      (runCalls gop font calls (initBackbuffer gop s)).Clean gop := by
  intro hclaim
  have hclean := hclaim smallGop noFont smallScreen
    [.blitBackbuffer, .drawIcon solidIcon 0 0 15] (by decide) (by decide) le_rfl rfl
    (by simp [Call.Inside, smallGop])
  have hready : (initBackbuffer smallGop smallScreen).Ready smallGop :=
    initBackbuffer_ready (by decide) (by decide)
  obtain ⟨hsetup, hupToDate⟩ := blitBackbuffer_clean hready le_rfl
  have hshown : solidIcon.Shown smallGop 0 0 15
      (blitBackbuffer smallGop (initBackbuffer smallGop smallScreen)) :=
    (drawIcon_clean_iff (hready.of_setup hsetup) (fun _ => hupToDate) 15 (by decide)
      (by decide) (by decide)).mp hclean rfl
  have hpixel := hshown 0 ⟨0, by decide, 0, by decide, by decide, rfl⟩
  exact absurd hpixel (by decide)

end EntropyOS.Gui
