import Hamachi.FrameBuffers

namespace Hamachi.Display

/-!
# The screens of `gui.cpp`

What the drawing routines write, in their order.  Every screen starts with the
skeleton, which covers all of it; only the rectangle of the network list and
the icons of its toolbox depend on the input and are not clipped.
-/

/-- The counter of a loop from `first` while it is below `stop`. -/
def between (first stop : Int) : List Int :=
  (List.range (stop - first).toNat).map fun (i : Nat) => first + i

@[simp] theorem mem_between
    {first stop i : Int} :
    i ∈ between first stop ↔ first ≤ i ∧ i < stop := by
  simp only [between, List.mem_map, List.mem_range]
  constructor
  · rintro ⟨steps, below, rfl⟩
    omega
  · rintro ⟨reached, below⟩
    exact ⟨(i - first).toNat, by omega, by omega⟩

/-- Two loops, one in the other, that draw some of the pixels they come to. -/
def drawWhere
    (outer inner : List Int)
    (drawn : Int → Int → Prop)
    [∀ i j, Decidable (drawn i j)]
    (write : Int → Int → PixelWrite) :
    List PixelWrite :=
  outer.flatMap fun i =>
    inner.flatMap fun j => if drawn i j then [write i j] else []

theorem mem_drawWhere
    {outer inner : List Int}
    {drawn : Int → Int → Prop}
    [∀ i j, Decidable (drawn i j)]
    {write : Int → Int → PixelWrite}
    {pixel : PixelWrite} :
    pixel ∈ drawWhere outer inner drawn write ↔
      ∃ i ∈ outer, ∃ j ∈ inner, drawn i j ∧ pixel = write i j := by
  simp only [drawWhere, List.mem_flatMap]
  refine exists_congr fun i => and_congr_right fun _ =>
    exists_congr fun j => and_congr_right fun _ => ?_
  split <;> simp_all

section Drawing

variable (face : Byte → Option Glyph)

/-- `DrawText` from the start of a text. -/
def drawString
    (txt : List Byte)
    (startX startY : Int)
    (bgColor fgColor : Color) :
    List PixelWrite :=
  drawText scene face startX startY bgColor fgColor ⟨0, 0⟩ txt

/-- The loop of `GetTextDimensions`. -/
def measure : Pen → Int × Int → List Byte → Int × Int
  | _, size, [] => size
  | pen, (width, height), char :: txt =>
      match face char with
      | none => measure pen (width, height) txt
      | some glyph =>
          if char = newline then
            measure ⟨0, pen.yOffset + glyph.width * 2⟩ (width, height) txt
          else
            let xOffset := pen.xOffset + glyph.advance
            measure ⟨xOffset, pen.yOffset⟩
              (if xOffset ≥ width then xOffset else width,
                if pen.yOffset + glyph.width ≥ height then
                  pen.yOffset + glyph.width * 2
                else
                  height)
              txt

/-- `GetTextDimensions`. -/
def getTextDimensions (txt : List Byte) : Int × Int :=
  measure face ⟨0, 0⟩ (0, 0) txt

/-- The width that `GetTextDimensions` finds. -/
def textWidth (txt : List Byte) : Int :=
  (getTextDimensions face txt).1

def blue : Color := ⟨128, 128, 255⟩
def red : Color := ⟨255, 0, 0⟩
def green : Color := ⟨0, 255, 0⟩
def purple : Color := ⟨255, 64, 255⟩
def grey : Color := ⟨192, 192, 192⟩
def darkGray : Color := ⟨64, 64, 64⟩

/-- `drawSkeleton`. -/
def drawSkeleton : List PixelWrite :=
  drawWhere (between 0 1080) (between 0 1920) (fun _ _ => True)
      (fun i j => ⟨j, i, if i < 60 then blue else white⟩) ++
    drawString face (chars "LogMeIn Hamachi (unofficial)") 0 40 blue white

/-- `drawExclamationMark`. -/
def drawExclamationMark : List PixelWrite :=
  drawWhere (between 250 500) (between 835 1085)
      (fun i j => j ≥ 1085 - i / 2 ∧ j ≤ 835 + i / 2)
      (fun i j => ⟨j, i, red⟩) ++
    drawWhere (between 325 475) (between 955 965)
      (fun i _ => i < 465 ∨ i ≥ 470)
      (fun i j => ⟨j, i, black⟩)

/-- A text in the middle of the screen. -/
def drawCentered
    (txt : List Byte)
    (middle y : Int)
    (bgColor fgColor : Color) :
    List PixelWrite :=
  drawString face txt (middle - textWidth face txt / 2) y bgColor fgColor

/-- `drawMessage`. -/
def drawMessage (message : List Byte) (y : Int := 530) : List PixelWrite :=
  drawCentered face message 960 y white black

/-- `drawCircle`. -/
def drawCircle (x y : Int) : List PixelWrite :=
  drawWhere (between 0 50) (between 0 50)
    (fun i j =>
      (i - 25) * (i - 25) + (j - 25) * (j - 25) ≥ 12 * 12 ∧
        (i - 25) * (i - 25) + (j - 25) * (j - 25) ≤ 15 * 15)
    (fun i j => ⟨x + i, y + j, red⟩)

/-- `drawTriangle`. -/
def drawTriangle (x y : Int) : List PixelWrite :=
  (between 12 38).flatMap fun j =>
    (between (25 - (j - 9) * 5 / 6) (25 + (j - 9) * 5 / 6)).flatMap fun i =>
      if j ≥ 35 ∨ i ≤ 27 - (j - 12) * 5 / 6 ∨ i ≥ 23 + (j - 12) * 5 / 6 then
        [⟨x + i, y + j, green⟩]
      else
        []

/-- `drawSquare`. -/
def drawSquare (x y : Int) : List PixelWrite :=
  (between 10 40).flatMap fun i =>
    (between 0 4).flatMap fun j =>
      [⟨x + i, y + j + 10, purple⟩, ⟨x + j + 10, y + i, purple⟩,
        ⟨x + i, y - j + 40, purple⟩, ⟨x - j + 40, y + i, purple⟩]

/-- `drawOptionsButton`. -/
def drawOptionsButton (x y : Int) : List PixelWrite :=
  let fold (i : Int) : Int := if i ≥ 7 then 14 - i else i
  let foldDown (j : Int) : Int := if j ≥ 15 then 29 - j else j
  drawWhere (between 0 15) (between 0 30)
    (fun i j =>
      fold i ≥ 5 ∨ foldDown j ≥ 5 ∨
        (fold i - 5) * (fold i - 5) + (foldDown j - 5) * (foldDown j - 5) < 25)
    (fun i j => ⟨x + i, y + j + 10, darkGray⟩)

/-- `drawNetworkListToolbox`. -/
def drawNetworkListToolbox : List PixelWrite :=
  let w1 := textWidth face (chars "Create network")
  let w2 := textWidth face (chars "Connect to network")
  let w3 := textWidth face (chars "Leave network")
  drawTriangle 0 1030 ++
    drawString face (chars "Create network") 50 1065 white black ++
    drawSquare (100 + w1) 1030 ++
    drawString face (chars "Connect to network") (150 + w1) 1065 white black ++
    drawCircle (200 + w1 + w2) 1030 ++
    drawString face (chars "Leave network") (250 + w1 + w2) 1065 white black ++
    drawOptionsButton (300 + w1 + w2 + w3) 1030 ++
    drawString face (chars "Dump logs to USB") (330 + w1 + w2 + w3) 1065
      white black

/-- `drawInput`, with its colors. -/
def drawInput
    (y margin : Int)
    (bgColor borderColor textColor : Color)
    (text : List Byte) :
    List PixelWrite :=
  (between margin (1920 - margin + 1)).flatMap (fun x =>
      [⟨x, y, borderColor⟩, ⟨x, y + 40, borderColor⟩]) ++
    (between y (y + 40 + 1)).flatMap (fun i =>
      [⟨margin, i, borderColor⟩, ⟨1920 - margin, i, borderColor⟩]) ++
    drawWhere (between (margin + 1) (1920 - margin))
      (between (y + 1) (y + 40)) (fun _ _ => True)
      (fun i j => ⟨i, j, bgColor⟩) ++
    drawString face text (margin + 5) (y + 30) bgColor textColor

/-- `drawInput` of an input without the focus. -/
def drawPlainInput
    (y margin : Int)
    (msg : List Byte) :
    List PixelWrite :=
  drawInput face y margin grey gray gray msg

/-- `drawFocusedInput`. -/
def drawFocusedInput
    (y margin : Int)
    (msg : List Byte) :
    List PixelWrite :=
  drawInput face y margin white black black msg

/-- `drawLoginFormText`. -/
def drawLoginFormText (title : List Byte) : List PixelWrite :=
  drawSkeleton face ++
    drawString face title 10 90 white black ++
    drawString face (chars "Network name:") 20 140 white black ++
    drawString face (chars "Password:") 20 240 white black

/-- The fields of `gui_login` and its button: `ys`, `margins` and `ptrs`. -/
def formInputs
    (login password formName : List Byte) :
    List (Int × Int × List Byte) :=
  [(150, 20, login), (250, 20, password), (300, 720, formName)]

/-- `drawLoginForm`. -/
def drawLoginForm
    (login password formName : List Byte)
    (idx : Nat) :
    List PixelWrite :=
  drawLoginFormText face formName ++
    (formInputs login password formName).zipIdx.flatMap
      fun ((y, margin, msg), i) =>
        if i = idx then
          drawFocusedInput face y margin msg
        else
          drawPlainInput face y margin msg

/-- `drawError`. -/
def drawError (message : List Byte) (ild : Bool) : List PixelWrite :=
  drawSkeleton face ++
    drawExclamationMark ++
    drawMessage face message ++
    if ild then
      []
    else
      drawMessage face (chars "Press OPTIONS to dump logs") 650

/-- The button of `showErrorDialog` and `gui_show_notification`. -/
def drawOk : List PixelWrite :=
  drawRectangle 720 540 480 40 blue ++
    drawCentered face (chars "OK") 960 570 blue white

/-- The buttons of `gui_show_question`. -/
def drawChoice (choice : Bool) : List PixelWrite :=
  drawRectangle 482 540 476 40 (if choice then gray else blue) ++
    drawRectangle 962 540 476 40 (if choice then blue else gray) ++
    drawCentered face (chars "Cancel") 720 570
      (if choice then gray else blue) white ++
    drawCentered face (chars "OK") 1200 570
      (if choice then blue else gray) white

end Drawing

end Hamachi.Display
