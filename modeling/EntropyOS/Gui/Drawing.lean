import EntropyOS.Foundation.Bytes

/-!
# Drawing

The routines of `helpers.c`, `icons.c` and `console.c` that draw on the screen,
with the backbuffer or without it.  The pointers they are given are not null.
-/

namespace EntropyOS.Gui

open EntropyOS.Foundation

abbrev Pixels := Nat → UInt32

inductive PixelFormat where
  | redGreenBlueReserved8BitPerColor
  | blueGreenRedReserved8BitPerColor
  | bitMask
  | bltOnly
  deriving DecidableEq

/-- What the routines use of `EFI_GRAPHICS_OUTPUT_PROTOCOL`. -/
structure Gop where
  horizontalResolution : Nat
  verticalResolution : Nat
  pixelsPerScanLine : Nat
  pixelFormat : PixelFormat
  frameBufferBase : Nat

structure Screen where
  staticBackbuffer : Pixels
  /-- The address of `static_backbuffer`. -/
  backbufferBase : Nat
  /-- Whether `g_backbuffer` points to it. -/
  active : Bool
  backbufWidth : Nat
  backbufHeight : Nat
  framebuffer : Pixels
  frameDirty : Bool

/-! ## Rows -/

def store64 (mem : Pixels) (off : Nat) (f : Nat → UInt32) (j : Nat) : Pixels :=
  Function.update (Function.update mem (off + 2 * j) (f (2 * j))) (off + (2 * j + 1))
    (f (2 * j + 1))

def store32 (mem : Pixels) (off : Nat) (f : Nat → UInt32) (i : Nat) : Pixels :=
  Function.update mem (off + i) (f i)

def storeRow (aligned : Bool) (mem : Pixels) (off : Nat) (f : Nat → UInt32)
    (n : Nat) : Pixels :=
  if aligned then
    let n64 := n / 2
    let n64x4 := n64 / 4 * 4
    let mem := (List.range (n64 / 4)).foldl (fun mem k =>
      store64 (store64 (store64 (store64 mem off f (4 * k)) off f (4 * k + 1))
        off f (4 * k + 2)) off f (4 * k + 3)) mem
    let mem := (List.range' n64x4 (n64 - n64x4)).foldl (store64 · off f ·) mem
    (List.range' (n64 * 2) (n - n64 * 2)).foldl (store32 · off f ·) mem
  else (List.range' 0 n).foldl (store32 · off f ·) mem

inductive Dest where
  | back
  | frame
  deriving DecidableEq

def Screen.pixels (s : Screen) : Dest → Pixels
  | .back => s.staticBackbuffer
  | .frame => s.framebuffer

def Screen.setPixels (s : Screen) (dest : Dest) (pixels : Pixels) : Screen :=
  match dest with
  | .back => { s with staticBackbuffer := pixels }
  | .frame => { s with framebuffer := pixels }

def Screen.base (s : Screen) (gop : Gop) : Dest → Nat
  | .back => s.backbufferBase
  | .frame => gop.frameBufferBase

/-- The number of pixels from one row to the next. -/
def Screen.stride (s : Screen) (gop : Gop) : Dest → Nat
  | .back => s.backbufWidth
  | .frame => gop.pixelsPerScanLine

def fillRow (gop : Gop) (dest : Dest) (off : Nat) (color : UInt32) (n : Nat)
    (s : Screen) : Screen :=
  let aligned := (s.base gop dest + 4 * off) % 8 = 0
  { s.setPixels dest (storeRow aligned (s.pixels dest) off (fun _ => color) n) with
    frameDirty := true }

/-- `row_copy` from the backbuffer to the framebuffer. -/
def rowCopy (gop : Gop) (dst src n : Nat) (s : Screen) : Screen :=
  let aligned := (s.base gop .frame + 4 * dst) % 8 = 0 ∧
    (s.base gop .back + 4 * src) % 8 = 0
  { s with
    framebuffer := storeRow aligned s.framebuffer dst
      (fun i => s.staticBackbuffer (src + i)) n }

def fillRows (gop : Gop) (dest : Dest) (x0 : Nat) (color : UInt32) (span : Nat) :
    (count y : Nat) → Screen → Screen
  | 0, _, s => s
  | count + 1, y, s =>
      fillRows gop dest x0 color span count (y + 1)
        (fillRow gop dest (y * s.stride gop dest + x0) color span s)

/-! ## Colours -/

def packPixel (fmt : PixelFormat) (r g b : UInt8) : UInt32 :=
  if fmt = .redGreenBlueReserved8BitPerColor then
    r.toUInt32 ||| (g.toUInt32 <<< 8) ||| (b.toUInt32 <<< 16)
  else b.toUInt32 ||| (g.toUInt32 <<< 8) ||| (r.toUInt32 <<< 16)

def blend (s d a : UInt8) : UInt8 :=
  let x := s.toUInt32 * a.toUInt32 + d.toUInt32 * (255 - a.toUInt32)
  ((x + (x >>> 8) + 0x80) >>> 8).toUInt8

def blendPixel (fmt : PixelFormat) (srcR srcG srcB srcA : UInt8) (dst : UInt32) :
    UInt32 :=
  let first := dst.toUInt8
  let second := (dst >>> 8).toUInt8
  let third := (dst >>> 16).toUInt8
  if fmt = .redGreenBlueReserved8BitPerColor then
    (blend srcR first srcA).toUInt32 ||| ((blend srcG second srcA).toUInt32 <<< 8) |||
      ((blend srcB third srcA).toUInt32 <<< 16)
  else
    (blend srcB first srcA).toUInt32 ||| ((blend srcG second srcA).toUInt32 <<< 8) |||
      ((blend srcR third srcA).toUInt32 <<< 16)

def iconColor (fmt : PixelFormat) (color : UInt8) : UInt32 :=
  let (r, g, b) : UInt8 × UInt8 × UInt8 :=
    match color with
    | 0x0 => (0, 0, 0)
    | 0x1 => (0, 0, 255)
    | 0x2 => (0, 255, 0)
    | 0x3 => (0, 255, 255)
    | 0x4 => (255, 0, 0)
    | 0x5 => (255, 0, 255)
    | 0x6 => (170, 85, 0)
    | 0x7 => (170, 170, 170)
    | 0x8 => (85, 85, 85)
    | 0x9 => (85, 85, 255)
    | 0xA => (85, 255, 85)
    | 0xB => (85, 255, 255)
    | 0xC => (255, 85, 85)
    | 0xD => (255, 85, 255)
    | 0xE => (255, 255, 85)
    | _ => (255, 255, 255)
  packPixel fmt r g b

/-- The colours of `text_with_pos`, with the one for all others. -/
def textColor (fmt : PixelFormat) (other : UInt8) (color : UInt8) : UInt32 :=
  let (r, g, b) : UInt8 × UInt8 × UInt8 :=
    match color with
    | 0x0 => (0x00, 0x00, 0x00)
    | 0x1 => (0x00, 0x00, 0xAA)
    | 0x2 => (0x00, 0xAA, 0x00)
    | 0x3 => (0x00, 0xAA, 0xAA)
    | 0x4 => (0xAA, 0x00, 0x00)
    | 0x5 => (0xAA, 0x00, 0xAA)
    | 0x6 => (0xAA, 0x55, 0x00)
    | 0x7 => (0xCC, 0xCC, 0xCC)
    | 0xF => (0xFF, 0xFF, 0xFF)
    | _ => (other, other, other)
  packPixel fmt r g b

/-! ## Shapes -/

/-- The backbuffer, when it is there and has the size of the screen. -/
def Screen.dest (s : Screen) (gop : Gop) : Dest :=
  if s.active ∧ s.backbufWidth = gop.horizontalResolution ∧
      s.backbufHeight = gop.verticalResolution then .back
  else .frame

def putPixel (gop : Gop) (x y : Nat) (color : UInt32) (s : Screen) : Screen :=
  if x ≥ gop.horizontalResolution ∨ y ≥ gop.verticalResolution then s
  else
    match s.dest gop with
    | .back =>
        { s with
          staticBackbuffer := Function.update s.staticBackbuffer
            (u32 (y * s.backbufWidth + x)) color
          frameDirty := true }
    | .frame =>
        { s with
          framebuffer := Function.update s.framebuffer
            (u32 (y * gop.pixelsPerScanLine + x)) color }

def drawBox (gop : Gop) (x0 y0 w h : Nat) (color : UInt32) (s : Screen) : Screen :=
  let sx := gop.horizontalResolution
  let sy := gop.verticalResolution
  if x0 ≥ sx ∨ y0 ≥ sy then s
  else
    let x1 := min (u32 (x0 + w)) sx
    let y1 := min (u32 (y0 + h)) sy
    fillRows gop (s.dest gop) x0 color (u32 (x1 + 4294967296 - x0)) (y1 - y0) y0 s

def blendRow (mix : UInt32 → UInt32) (dest : Dest) (off n : Nat) (s : Screen) :
    Screen :=
  s.setPixels dest ((List.range n).foldl (fun mem x =>
    Function.update mem (off + x) (mix (mem (off + x)))) (s.pixels dest))

def blendRows (gop : Gop) (mix : UInt32 → UInt32) (dest : Dest) (x0 span : Nat) :
    (count y : Nat) → Screen → Screen
  | 0, _, s => s
  | count + 1, y, s =>
      blendRows gop mix dest x0 span count (y + 1)
        (blendRow mix dest (y * s.stride gop dest + x0) span s)

def drawBoxRgba (gop : Gop) (x0 y0 w h : Nat) (rgba : UInt32) (s : Screen) :
    Screen :=
  let sx := gop.horizontalResolution
  let sy := gop.verticalResolution
  if x0 ≥ sx ∨ y0 ≥ sy then s
  else
    let x1 := min (u32 (x0 + w)) sx
    let y1 := min (u32 (y0 + h)) sy
    let srcR := (rgba >>> 24).toUInt8
    let srcG := (rgba >>> 16).toUInt8
    let srcB := (rgba >>> 8).toUInt8
    let srcA := rgba.toUInt8
    let span := u32 (x1 + 4294967296 - x0)
    let fmt := gop.pixelFormat
    if srcA = 0 then s
    else if srcA = 255 then
      fillRows gop (s.dest gop) x0 (packPixel fmt srcR srcG srcB) span (y1 - y0) y0 s
    else
      { blendRows gop (blendPixel fmt srcR srcG srcB srcA) (s.dest gop) x0 span
          (y1 - y0) y0 s with
        frameDirty := true }

def clearScreenFb (gop : Gop) (r g b : UInt8) (s : Screen) : Screen :=
  if gop.pixelFormat = .bltOnly then s
  else
    fillRows gop (s.dest gop) 0 (packPixel gop.pixelFormat r g b)
      gop.horizontalResolution gop.verticalResolution 0 s

def initBackbuffer (gop : Gop) (s : Screen) : Screen :=
  if gop.horizontalResolution ≤ 1920 ∧ gop.verticalResolution ≤ 1200 then
    { s with
      active := true
      backbufWidth := gop.horizontalResolution
      backbufHeight := gop.verticalResolution }
  else { s with active := false, backbufWidth := 0, backbufHeight := 0 }

def copyRows (gop : Gop) (w : Nat) : (count y : Nat) → Screen → Screen
  | 0, _, s => s
  | count + 1, y, s =>
      copyRows gop w count (y + 1)
        (rowCopy gop (y * gop.pixelsPerScanLine) (y * w) w s)

def blitBackbuffer (gop : Gop) (s : Screen) : Screen :=
  if ¬ s.active then s
  else
    let w := s.backbufWidth
    let h := s.backbufHeight
    let s := if gop.pixelsPerScanLine = w then rowCopy gop 0 0 (w * h) s
      else copyRows gop w h 0 s
    { s with frameDirty := false }

/-! ## Icons -/

/-- The characters of an icon; a dot is not drawn. -/
structure Icon where
  pixels : Nat → Nat → UInt8

def iconDot : UInt8 := 0x2E

/-- Write the colour where `on` holds, in a row of `count` pixels. -/
def plotRow (dest : Dest) (off : Nat) (on : Nat → Bool) (color : UInt32)
    (count : Nat) (s : Screen) : Screen :=
  s.setPixels dest ((List.range count).foldl (fun mem i =>
    if on i then Function.update mem (off + i) color else mem) (s.pixels dest))

def iconRows (gop : Gop) (dest : Dest) (icon : Icon) (x y : Nat) (color : UInt32) :
    (count dy : Nat) → Screen → Screen
  | 0, _, s => s
  | count + 1, dy, s =>
      if u32 (y + dy) ≥ gop.verticalResolution then s
      else
        iconRows gop dest icon x y color count (dy + 1)
          (plotRow dest (u32 (y + dy) * s.stride gop dest + x)
            (fun dx => icon.pixels dy dx ≠ iconDot) color 32 s)

def drawIcon (gop : Gop) (icon : Icon) (x y : Nat) (color : UInt8) (s : Screen) :
    Screen :=
  iconRows gop (s.dest gop) icon x y (iconColor gop.pixelFormat color) 32 0 s

/-! ## Text -/

structure Font where
  asciiPresent : Nat → Bool
  asciiFont : Nat → Nat → UInt8

def font8x16Get (font : Font) (c : UInt8) : Option (Nat → UInt8) :=
  if c < 32 ∨ c > 127 then none
  else if ! font.asciiPresent (c.toNat - 32) then none
  else some (font.asciiFont (c.toNat - 32))

def backgroundRows (gop : Gop) (dest : Dest) (px py clippedW : Nat) (bg : UInt32) :
    (count ry : Nat) → Screen → Screen
  | 0, _, s => s
  | count + 1, ry, s =>
      let y := u32 (py + ry)
      if y ≥ gop.verticalResolution then s
      else if clippedW = 0 then backgroundRows gop dest px py clippedW bg count (ry + 1) s
      else
        backgroundRows gop dest px py clippedW bg count (ry + 1)
          (fillRow gop dest (y * s.stride gop dest + px) bg clippedW s)

def glyphRows (gop : Gop) (dest : Dest) (glyph : Nat → UInt8) (px py : Nat)
    (fg : UInt32) : (count gy : Nat) → Screen → Screen
  | 0, _, s => s
  | count + 1, gy, s =>
      let y := u32 (py + gy)
      if y ≥ gop.verticalResolution then s
      else if px ≥ gop.horizontalResolution then s
      else
        glyphRows gop dest glyph px py fg count (gy + 1)
          (plotRow dest (y * s.stride gop dest + px)
            (fun gx => glyph gy &&& (0x80 >>> UInt8.ofNat gx) ≠ 0) fg
            (min 8 (gop.horizontalResolution - px)) s)

def drawChar (gop : Gop) (font : Font) (c : UInt8) (px py : Nat) (fg bg : UInt32)
    (s : Screen) : Screen :=
  let screenW := gop.horizontalResolution
  let clippedW :=
    if px < screenW then if u32 (px + 10) > screenW then screenW - px else 10 else 0
  let dest := s.dest gop
  let s := backgroundRows gop dest px py clippedW bg 16 0 s
  match font8x16Get font c with
  | none => s
  | some glyph => glyphRows gop dest glyph px py fg 16 0 s

def textLoop (gop : Gop) (font : Font) (startPx : Nat) (fg bg : UInt32) :
    List UInt8 → (px py : Nat) → Screen → Screen
  | [], _, _, s => s
  | c :: rest, px, py, s =>
      if c = 0x0A then
        let py := u32 (py + 16)
        if py + 16 > gop.verticalResolution then s
        else textLoop gop font startPx fg bg rest startPx py s
      else
        -- at the right edge the text goes on in the next line
        let wraps := px ≥ gop.horizontalResolution
        let py := if wraps then u32 (py + 16) else py
        let px := if wraps then startPx else px
        if py + 16 > gop.verticalResolution then s
        else
          textLoop gop font startPx fg bg rest (u32 (px + 10)) py
            (drawChar gop font c px py fg bg s)

/-- `text_with_pos`; `string` is what stands before the NUL. -/
def textWithPos (gop : Gop) (font : Font) (col row : Nat) (fg bg : UInt8)
    (string : List UInt8) (s : Screen) : Screen :=
  textLoop gop font (u32 col) (textColor gop.pixelFormat 0xFF fg)
    (textColor gop.pixelFormat 0x00 bg) string (u32 col) (u32 row) s

end EntropyOS.Gui
