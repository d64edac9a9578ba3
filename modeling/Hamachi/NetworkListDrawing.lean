import Hamachi.CString
import Hamachi.Gui
import Mathlib.Tactic.Ring

namespace Hamachi

/-!
# Drawing the network list

What `drawNetworks` writes to the frame buffer, as a list of pixels.  The text
routine of `graphics.cpp` checks every pixel against the screen; the rectangle
that marks the cursor does not.
-/

/-- `struct Color`. -/
structure Color where
  r : Byte
  g : Byte
  b : Byte
  deriving DecidableEq

/-- The size of a `Scene2D`. -/
structure Scene where
  width : Int
  height : Int

/-- The scene of `gui_preinit`. -/
def scene : Scene where
  width := 1920
  height := 1080

/-- A call of `DrawPixel`. -/
structure PixelWrite where
  x : Int
  y : Int
  color : Color
  deriving DecidableEq

/-- The index in the frame buffer. -/
def PixelWrite.pixel (write : PixelWrite) (scene : Scene) : Int :=
  write.y * scene.width + write.x

/-- The coordinates are those of a pixel of the scene. -/
def PixelWrite.OnScreen (write : PixelWrite) (scene : Scene) : Prop :=
  0 ≤ write.x ∧ write.x < scene.width ∧
    0 ≤ write.y ∧ write.y < scene.height

instance (write : PixelWrite) (scene : Scene) :
    Decidable (write.OnScreen scene) :=
  inferInstanceAs (Decidable (_ ∧ _))

/-- A pixel of the scene lies in the frame buffer. -/
theorem PixelWrite.OnScreen.pixel_inside
    {write : PixelWrite}
    {scene : Scene}
    (onScreen : write.OnScreen scene) :
    0 ≤ write.pixel scene ∧
      write.pixel scene < scene.width * scene.height := by
  obtain ⟨left, right, top, bottom⟩ := onScreen
  have width : 0 ≤ scene.width := by
    omega
  have rows : write.y * scene.width ≤ (scene.height - 1) * scene.width :=
    Int.mul_le_mul_of_nonneg_right (by omega) width
  constructor
  · exact Int.add_nonneg (Int.mul_nonneg top width) left
  · calc
      write.y * scene.width + write.x
          < write.y * scene.width + scene.width := by
            omega
      _ ≤ (scene.height - 1) * scene.width + scene.width := by
            omega
      _ = scene.width * scene.height := by
            ring

/-- `Scene2D::DrawRectangle`. -/
def drawRectangle (x y w h : Int) (color : Color) : List PixelWrite :=
  (List.range h.toNat).flatMap fun (yPos : Nat) =>
    (List.range w.toNat).map fun (xPos : Nat) => ⟨x + xPos, y + yPos, color⟩

/-- A glyph that FreeType has rendered into its slot. -/
structure Glyph where
  width : Nat
  rows : Nat
  left : Int
  top : Int
  advance : Int
  buffer : Nat → Byte

/-- Where `DrawText` puts the next glyph. -/
structure Pen where
  xOffset : Int
  yOffset : Int

/-- One component between the background and the foreground. -/
def interpolate (pixel fgColor bgColor : Byte) : Byte :=
  BitVec.ofNat 8
    ((pixel.toNat * fgColor.toNat +
      (255 - pixel.toNat) * bgColor.toNat) / 255)

/-- The pixel of a glyph, unless it is blank or not on the screen. -/
def Glyph.write
    (scene : Scene)
    (glyph : Glyph)
    (x y : Int)
    (xPos yPos : Nat)
    (bgColor fgColor : Color) :
    Option PixelWrite :=
  let pixel := glyph.buffer (yPos * glyph.width + xPos)
  let write : PixelWrite := {
    x := x + xPos + glyph.left
    y := y + yPos - glyph.top
    color := {
      r := interpolate pixel fgColor.r bgColor.r
      g := interpolate pixel fgColor.g bgColor.g
      b := interpolate pixel fgColor.b bgColor.b
    }
  }
  if write.OnScreen scene ∧ pixel ≠ 0 then some write else none

/-- `Scene2D::DrawText`; `face` is what FreeType renders for a character, or
`none` where it reports an error. -/
def drawText
    (scene : Scene)
    (face : Byte → Option Glyph)
    (startX startY : Int)
    (bgColor fgColor : Color) :
    Pen → List Byte → List PixelWrite
  | _, [] => []
  | pen, char :: txt =>
      match face char with
      | none =>
          drawText scene face startX startY bgColor fgColor pen txt
      | some glyph =>
          if char = newline then
            drawText scene face startX startY bgColor fgColor
              ⟨0, pen.yOffset + glyph.width * 2⟩ txt
          else
            ((List.range glyph.rows).flatMap fun yPos =>
              (List.range glyph.width).filterMap fun xPos =>
                glyph.write scene (startX + pen.xOffset)
                  (startY + pen.yOffset) xPos yPos bgColor fgColor) ++
              drawText scene face startX startY bgColor fgColor
                ⟨pen.xOffset + glyph.advance, pen.yOffset⟩ txt

def white : Color := ⟨255, 255, 255⟩
def black : Color := ⟨0, 0, 0⟩
def gray : Color := ⟨128, 128, 128⟩

/-- `drawNetworks`. -/
def drawNetworks
    (face : Byte → Option Glyph)
    (networks : List (List Byte))
    (cur : Int) :
    List PixelWrite :=
  drawRectangle 0 (65 + 40 * cur) 1920 35 gray ++
    networks.zipIdx.flatMap fun (name, i) =>
      drawText scene face 0 (90 + 40 * i)
        (if i = cur then gray else white) (if i = cur then white else black)
        ⟨0, 0⟩ name

/-- The cursors with which the loop of `gui_show_network_list` draws; under the
message of `doDumpLogs` it does not. -/
def listFrames (netCnt : Int) : ListCursor → List Keys → List Int
  | cursor, pads =>
      (if cursor.dumping then [] else [cursor.curNet]) ++
        match pads with
        | [] => []
        | keys :: rest =>
            match networkListKeys netCnt cursor keys with
            | .goesOn next => listFrames netCnt next rest
            | .returns _ => []

/-- The cursors that `gui_show_network_list` shows. -/
def shownCursors
    (networks : List (List Byte))
    (curNet : Int)
    (pads : List Keys) :
    List Int :=
  let netCnt : Int := networks.length
  if netCnt = 0 then
    []
  else
    listFrames netCnt
      ⟨if curNet ≥ netCnt then netCnt - 1 else curNet, false⟩ pads

/-- What `drawNetworks` writes in the course of `gui_show_network_list`. -/
def networkListWrites
    (face : Byte → Option Glyph)
    (networks : List (List Byte))
    (curNet : Int)
    (pads : List Keys) :
    List PixelWrite :=
  (shownCursors networks curNet pads).flatMap (drawNetworks face networks)

/-- What `DrawText` writes is on the screen, whatever the font. -/
theorem drawText_onScreen
    {scene : Scene}
    {face : Byte → Option Glyph}
    {startX startY : Int}
    {bgColor fgColor : Color}
    {pen : Pen}
    {txt : List Byte} :
    ∀ write ∈ drawText scene face startX startY bgColor fgColor pen txt,
      write.OnScreen scene := by
  induction txt generalizing pen with
  | nil =>
      intro write member
      cases member
  | cons char txt inductionHypothesis =>
      intro write member
      rw [drawText] at member
      split at member
      · exact inductionHypothesis write member
      · split at member
        · exact inductionHypothesis write member
        · rcases List.mem_append.mp member with inGlyph | later
          · obtain ⟨yPos, _, inRow⟩ := List.mem_flatMap.mp inGlyph
            obtain ⟨xPos, _, isWrite⟩ := List.mem_filterMap.mp inRow
            simp only [Glyph.write] at isWrite
            split at isWrite
            · rename_i checked
              cases isWrite
              exact checked.1
            · cases isWrite
          · exact inductionHypothesis write later

/-- A rectangle is on the screen when its corners are. -/
theorem drawRectangle_onScreen_iff
    {scene : Scene}
    {x y w h : Int}
    {color : Color}
    (wide : 0 < w)
    (high : 0 < h) :
    (∀ write ∈ drawRectangle x y w h color, write.OnScreen scene) ↔
      0 ≤ x ∧ x + w ≤ scene.width ∧ 0 ≤ y ∧ y + h ≤ scene.height := by
  have member :
      ∀ {i j : Nat}, (i : Int) < w → (j : Int) < h →
        ⟨x + i, y + j, color⟩ ∈ drawRectangle x y w h color := by
    intro i j column row
    refine List.mem_flatMap.mpr ⟨j, List.mem_range.mpr (by omega), ?_⟩
    exact List.mem_map.mpr ⟨i, List.mem_range.mpr (by omega), rfl⟩
  constructor
  · intro onScreen
    obtain ⟨left, _, top, _⟩ :=
      onScreen _ (member (show ((0 : Nat) : Int) < w from wide)
        (show ((0 : Nat) : Int) < h from high))
    obtain ⟨_, right, _, bottom⟩ :=
      onScreen _ (@member (w.toNat - 1) (h.toNat - 1)
        (by omega) (by omega))
    dsimp only at left right top bottom
    omega
  · rintro ⟨left, right, top, bottom⟩ write isWrite
    obtain ⟨j, row, inRow⟩ := List.mem_flatMap.mp isWrite
    obtain ⟨i, column, rfl⟩ := List.mem_map.mp inRow
    rw [List.mem_range] at row column
    refine ⟨?_, ?_, ?_, ?_⟩ <;> dsimp only <;> omega

/-- A frame is on the screen when its cursor is one of the rows that fit. -/
theorem drawNetworks_onScreen_iff
    {face : Byte → Option Glyph}
    {networks : List (List Byte)}
    {cur : Int} :
    (∀ write ∈ drawNetworks face networks cur, write.OnScreen scene) ↔
      -1 ≤ cur ∧ cur ≤ 24 := by
  have rows :
      ∀ write ∈ networks.zipIdx.flatMap fun (name, i) =>
          drawText scene face 0 (90 + 40 * i)
            (if i = cur then gray else white)
            (if i = cur then white else black) ⟨0, 0⟩ name,
        write.OnScreen scene := by
    intro write member
    obtain ⟨row, _, inRow⟩ := List.mem_flatMap.mp member
    exact drawText_onScreen write inRow
  rw [drawNetworks, List.forall_mem_append,
    drawRectangle_onScreen_iff (by decide) (by decide)]
  simp only [scene]
  constructor
  · rintro ⟨rectangle, _⟩
    omega
  · intro fits
    exact ⟨by omega, rows⟩

/-- The writes of all frames are on the screen when all frames fit. -/
theorem networkListWrites_onScreen_iff
    {face : Byte → Option Glyph}
    {networks : List (List Byte)}
    {curNet : Int}
    {pads : List Keys} :
    (∀ write ∈ networkListWrites face networks curNet pads,
        write.OnScreen scene) ↔
      ∀ cur ∈ shownCursors networks curNet pads, -1 ≤ cur ∧ cur ≤ 24 := by
  simp only [← @drawNetworks_onScreen_iff face networks]
  constructor
  · intro onScreen cur shown write member
    exact onScreen write (List.mem_flatMap.mpr ⟨cur, shown, member⟩)
  · intro onScreen write member
    obtain ⟨cur, shown, inFrame⟩ := List.mem_flatMap.mp member
    exact onScreen cur shown write inFrame

/-- What every poll keeps holds of every frame. -/
theorem listFrames_invariant
    {Inv : Int → Prop}
    {netCnt : Int}
    (kept :
      ∀ {cursor keys next},
        Inv cursor.curNet →
        networkListKeys netCnt cursor keys = .goesOn next →
        Inv next.curNet)
    {cursor : ListCursor}
    {pads : List Keys}
    (holds : Inv cursor.curNet) :
    ∀ cur ∈ listFrames netCnt cursor pads, Inv cur := by
  have now :
      ∀ {cursor : ListCursor}, Inv cursor.curNet →
        ∀ cur ∈ (if cursor.dumping then [] else [cursor.curNet]), Inv cur := by
    intro cursor holds cur member
    split at member
    · cases member
    · rwa [List.mem_singleton.mp member]
  induction pads generalizing cursor with
  | nil =>
      simpa only [listFrames, List.append_nil] using now holds
  | cons keys rest inductionHypothesis =>
      rw [listFrames, List.forall_mem_append]
      refine ⟨now holds, ?_⟩
      cases polled : networkListKeys netCnt cursor keys with
      | goesOn next =>
          exact inductionHypothesis (kept holds polled)
      | returns result =>
          exact fun _ member => absurd member List.not_mem_nil

/-- From a cursor inside of the list, no frame leaves it. -/
theorem listFrames_inside
    {netCnt : Int}
    {cursor : ListCursor}
    {pads : List Keys}
    (inside : 0 ≤ cursor.curNet ∧ cursor.curNet < netCnt) :
    ∀ cur ∈ listFrames netCnt cursor pads, 0 ≤ cur ∧ cur < netCnt := by
  refine @listFrames_invariant (fun cur => 0 ≤ cur ∧ cur < netCnt) _ ?_ _ _
    inside
  intro cursor keys next holds isNext
  unfold networkListKeys at isNext
  grind

/-- The first frame shows the cursor as it is. -/
theorem listFrames_first
    (netCnt cur : Int)
    (pads : List Keys) :
    cur ∈ listFrames netCnt ⟨cur, false⟩ pads := by
  unfold listFrames
  simp

/-- Pressing down moves the cursor through the rest of the list. -/
theorem listFrames_down
    {netCnt cur : Int}
    {steps : Nat}
    (inside : cur + steps < netCnt) :
    cur + steps ∈
      listFrames netCnt ⟨cur, false⟩
        (List.replicate steps { down := true }) := by
  induction steps generalizing cur with
  | zero =>
      simpa using listFrames_first netCnt cur []
  | succ steps inductionHypothesis =>
      have moves :
          networkListKeys netCnt ⟨cur, false⟩ { down := true } =
            .goesOn ⟨cur + 1, false⟩ := by
        have below : cur + 1 < netCnt := by
          omega
        simp [networkListKeys, below]
      have later := @inductionHypothesis (cur + 1) (by omega)
      rw [List.replicate_succ, listFrames, moves]
      refine List.mem_append.mpr (.inr ?_)
      rwa [Nat.cast_succ, add_comm (steps : Int) 1, ← add_assoc]

/-- On the inputs that keep the list on the screen, it has no networks or the
cursor starts inside of a list of at most 25. -/
def FitsScreen (networks : List (List Byte)) (curNet : Int) : Prop :=
  networks = [] ∨ 0 ≤ curNet ∧ networks.length ≤ 25

/-- Every frame fits, whatever the buttons, exactly from these inputs. -/
theorem shownCursors_fit_iff
    {networks : List (List Byte)}
    {curNet : Int} :
    (∀ pads, ∀ cur ∈ shownCursors networks curNet pads,
        -1 ≤ cur ∧ cur ≤ 24) ↔
      FitsScreen networks curNet := by
  by_cases isEmpty : networks = []
  · simp [FitsScreen, shownCursors, isEmpty]
  have counted : (networks.length : Int) ≠ 0 := by
    simpa using isEmpty
  simp only [FitsScreen, isEmpty, false_or, shownCursors, if_neg counted]
  constructor
  · intro fits
    constructor
    · by_contra negative
      rw [not_le] at negative
      rw [if_neg (by omega)] at fits
      -- Up is not stopped below the first row.
      have moves :
          networkListKeys networks.length ⟨curNet, false⟩ { up := true } =
            .goesOn ⟨curNet - 1, false⟩ := by
        have notZero : curNet ≠ 0 := by
          omega
        simp [networkListKeys, notZero]
      have second :
          curNet - 1 ∈
            listFrames networks.length ⟨curNet, false⟩
              [{ up := true }] := by
        rw [listFrames, moves]
        exact List.mem_append.mpr (.inr (listFrames_first _ _ []))
      have := fits _ _ second
      omega
    · by_contra long
      have first := fits [] _ (listFrames_first _ _ [])
      split at first
      · omega
      · rename_i inside
        rw [if_neg inside] at fits
        obtain ⟨steps, reaches⟩ :
            ∃ steps : Nat, curNet + steps = 25 :=
          ⟨(25 - curNet).toNat, by omega⟩
        have last := fits _ _ (listFrames_down
          (show curNet + steps < networks.length by omega))
        omega
  · rintro ⟨notNegative, short⟩ pads cur shown
    have inside := listFrames_inside (by dsimp only; split <;> omega)
      cur shown
    omega

/-- In a run of the network list every write is on the screen exactly when
every frame is drawn with a cursor from `-1` to `24`; and that is so whatever
the buttons exactly without networks, or from a cursor that is not negative in
a list of at most 25. -/
theorem networkListWrites_onScreen
    (face : Byte → Option Glyph)
    (networks : List (List Byte))
    (curNet : Int) :
    (∀ pads,
      (∀ write ∈ networkListWrites face networks curNet pads,
          write.OnScreen scene) ↔
        ∀ cur ∈ shownCursors networks curNet pads,
          -1 ≤ cur ∧ cur ≤ 24) ∧
      ((∀ pads, ∀ write ∈ networkListWrites face networks curNet pads,
          write.OnScreen scene) ↔
        FitsScreen networks curNet) := by
  refine ⟨fun pads => networkListWrites_onScreen_iff, ?_⟩
  simp only [networkListWrites_onScreen_iff]
  exact shownCursors_fit_iff

/-- With 26 networks the rectangle of the last one leaves the screen. -/
theorem not_networkListWrites_onScreen :
    ¬ ∀ (face : Byte → Option Glyph) (networks : List (List Byte))
      (curNet : Int) (pads : List Keys),
      ∀ write ∈ networkListWrites face networks curNet pads,
        write.OnScreen scene := by
  intro onScreen
  have fits := networkListWrites_onScreen_iff.mp
    (onScreen (fun _ => none) (List.replicate 26 [104]) 25 []) 25
    (listFrames_first 26 25 [])
  exact absurd fits.2 (by decide)

end Hamachi
