import Hamachi.Dialogs

namespace Hamachi.Display

/-!
# What the screens cover

A screen writes every pixel, so that what was in the frame buffer before does
not show; and it writes nothing else exactly where its drawing fits.
-/

variable {face : Byte → Option Glyph}

/-- All pixels are on the screen. -/
def AllOnScreen (writes : List PixelWrite) : Prop :=
  ∀ write ∈ writes, write.OnScreen scene

theorem allOnScreen_append
    {first later : List PixelWrite} :
    AllOnScreen (first ++ later) ↔ AllOnScreen first ∧ AllOnScreen later :=
  List.forall_mem_append

theorem drawString_onScreen
    {txt : List Byte}
    {startX startY : Int}
    {bgColor fgColor : Color} :
    AllOnScreen (drawString face txt startX startY bgColor fgColor) :=
  drawText_onScreen

/-- Loops are on the screen when every pixel is that they draw. -/
theorem drawWhere_onScreen
    {outer inner : List Int}
    {drawn : Int → Int → Prop}
    [∀ i j, Decidable (drawn i j)]
    {write : Int → Int → PixelWrite}
    (onScreen :
      ∀ i ∈ outer, ∀ j ∈ inner, drawn i j → (write i j).OnScreen scene) :
    AllOnScreen (drawWhere outer inner drawn write) := by
  intro pixel member
  obtain ⟨i, isOuter, j, isInner, isDrawn, rfl⟩ := mem_drawWhere.mp member
  exact onScreen i isOuter j isInner isDrawn

/-- A loop is on the screen when every turn of it is. -/
theorem flatMap_onScreen
    {Item : Type}
    {items : List Item}
    {writes : Item → List PixelWrite}
    (onScreen : ∀ item ∈ items, AllOnScreen (writes item)) :
    AllOnScreen (items.flatMap writes) := by
  intro pixel member
  obtain ⟨item, isItem, inItem⟩ := List.mem_flatMap.mp member
  exact onScreen item isItem pixel inItem

/-- A pixel is on the screen by its coordinates. -/
theorem onScreen_of_bounds
    {x y : Int}
    {color : Color}
    (bounds : 0 ≤ x ∧ x < 1920 ∧ 0 ≤ y ∧ y < 1080) :
    PixelWrite.OnScreen ⟨x, y, color⟩ scene :=
  bounds

theorem drawSkeleton_onScreen :
    AllOnScreen (drawSkeleton face) := by
  refine allOnScreen_append.mpr ⟨?_, drawString_onScreen⟩
  refine drawWhere_onScreen fun i isOuter j isInner _ => ?_
  rw [mem_between] at isOuter isInner
  exact onScreen_of_bounds ⟨isInner.1, isInner.2, isOuter⟩

theorem drawExclamationMark_onScreen :
    AllOnScreen drawExclamationMark := by
  refine allOnScreen_append.mpr ⟨?_, ?_⟩ <;>
    refine drawWhere_onScreen fun i isOuter j isInner _ => ?_ <;>
    rw [mem_between] at isOuter isInner <;>
    exact onScreen_of_bounds (by omega)

theorem drawMessage_onScreen
    {message : List Byte}
    {y : Int} :
    AllOnScreen (drawMessage face message y) :=
  drawString_onScreen

theorem drawCircle_onScreen
    {x y : Int}
    (fits : 0 ≤ x ∧ x ≤ 1870 ∧ 0 ≤ y ∧ y ≤ 1030) :
    AllOnScreen (drawCircle x y) := by
  refine drawWhere_onScreen fun i isOuter j isInner _ => ?_
  rw [mem_between] at isOuter isInner
  exact onScreen_of_bounds (by omega)

theorem drawTriangle_onScreen
    {x y : Int}
    (fits : 0 ≤ x ∧ x ≤ 1870 ∧ 0 ≤ y ∧ y ≤ 1030) :
    AllOnScreen (drawTriangle x y) := by
  refine flatMap_onScreen fun j isOuter =>
    flatMap_onScreen fun i isInner => ?_
  rw [mem_between] at isOuter isInner
  intro pixel member
  split at member
  · rw [List.mem_singleton.mp member]
    exact onScreen_of_bounds (by omega)
  · cases member

theorem drawSquare_onScreen
    {x y : Int}
    (fits : 0 ≤ x ∧ x ≤ 1870 ∧ 0 ≤ y ∧ y ≤ 1030) :
    AllOnScreen (drawSquare x y) := by
  refine flatMap_onScreen fun i isOuter =>
    flatMap_onScreen fun j isInner => ?_
  rw [mem_between] at isOuter isInner
  simp only [AllOnScreen, List.forall_mem_cons, List.not_mem_nil,
    false_imp_iff, implies_true, and_true]
  exact ⟨onScreen_of_bounds (by omega), onScreen_of_bounds (by omega),
    onScreen_of_bounds (by omega), onScreen_of_bounds (by omega)⟩

/-- The button of the toolbox is 15 pixels wide, from its left edge on. -/
theorem drawOptionsButton_onScreen_iff
    {x : Int}
    (left : 0 ≤ x) :
    AllOnScreen (drawOptionsButton x 1030) ↔ x ≤ 1905 := by
  constructor
  · intro onScreen
    have corner := onScreen ⟨x + 14, 1030 + 5 + 10, darkGray⟩
      (mem_drawWhere.mpr ⟨14, by decide, 5, by decide, by decide, rfl⟩)
    have right : x + 14 < 1920 := corner.2.1
    omega
  · intro fits
    refine drawWhere_onScreen fun i isOuter j isInner _ => ?_
    rw [mem_between] at isOuter isInner
    exact onScreen_of_bounds (by omega)

/-- A text has no negative width, whatever the font. -/
theorem textWidth_nonneg
    {txt : List Byte} :
    0 ≤ textWidth face txt := by
  have kept :
      ∀ {txt : List Byte} {pen : Pen} {size : Int × Int},
        0 ≤ size.1 → 0 ≤ (measure face pen size txt).1 := by
    intro txt
    induction txt with
    | nil =>
        exact id
    | cons char txt inductionHypothesis =>
        intro pen size nonneg
        rw [measure]
        split
        · exact inductionHypothesis nonneg
        · split
          · exact inductionHypothesis nonneg
          · refine inductionHypothesis ?_
            dsimp only
            split <;> omega
  exact kept (le_refl 0)

/-- The toolbox fits the screen exactly when its texts leave room for it. -/
theorem drawNetworkListToolbox_onScreen_iff :
    AllOnScreen (drawNetworkListToolbox face) ↔ ToolboxFits face := by
  rw [ToolboxFits]
  have w1 := @textWidth_nonneg face (chars "Create network")
  have w2 := @textWidth_nonneg face (chars "Connect to network")
  have w3 := @textWidth_nonneg face (chars "Leave network")
  simp only [drawNetworkListToolbox, allOnScreen_append,
    drawString_onScreen, and_true]
  rw [drawOptionsButton_onScreen_iff (by omega)]
  constructor
  · rintro ⟨_, button⟩
    omega
  · intro fits
    refine ⟨⟨⟨?_, ?_⟩, ?_⟩, by omega⟩
    · exact drawTriangle_onScreen (by omega)
    · exact drawSquare_onScreen (by omega)
    · exact drawCircle_onScreen (by omega)

theorem drawInput_onScreen
    {y margin : Int}
    {bgColor borderColor textColor : Color}
    {text : List Byte}
    (fits : 0 < margin ∧ margin ≤ 960 ∧ 0 ≤ y ∧ y < 1040) :
    AllOnScreen
      (drawInput face y margin bgColor borderColor textColor text) := by
  refine allOnScreen_append.mpr
    ⟨allOnScreen_append.mpr
      ⟨allOnScreen_append.mpr ⟨?_, ?_⟩, ?_⟩, drawString_onScreen⟩
  · refine flatMap_onScreen fun x isCounter => ?_
    rw [mem_between] at isCounter
    simp only [AllOnScreen, List.forall_mem_cons, List.not_mem_nil,
      false_imp_iff, implies_true, and_true]
    exact ⟨onScreen_of_bounds (by omega), onScreen_of_bounds (by omega)⟩
  · refine flatMap_onScreen fun i isCounter => ?_
    rw [mem_between] at isCounter
    simp only [AllOnScreen, List.forall_mem_cons, List.not_mem_nil,
      false_imp_iff, implies_true, and_true]
    exact ⟨onScreen_of_bounds (by omega), onScreen_of_bounds (by omega)⟩
  · refine drawWhere_onScreen fun i isOuter j isInner _ => ?_
    rw [mem_between] at isOuter isInner
    exact onScreen_of_bounds (by omega)

theorem drawLoginForm_onScreen
    {login password formName : List Byte}
    {idx : Nat} :
    AllOnScreen (drawLoginForm face login password formName idx) := by
  refine allOnScreen_append.mpr ⟨?_, flatMap_onScreen ?_⟩
  · simp only [drawLoginFormText, allOnScreen_append, drawString_onScreen,
      drawSkeleton_onScreen, and_true]
  · rintro ⟨⟨y, margin, msg⟩, i⟩ isInput
    have fits : 0 < margin ∧ margin ≤ 960 ∧ 0 ≤ y ∧ y < 1040 := by
      have isField := List.fst_mem_of_mem_zipIdx isInput
      simp only [formInputs, List.mem_cons, Prod.mk.injEq,
        List.not_mem_nil, or_false] at isField
      omega
    dsimp only
    split <;> exact drawInput_onScreen fits

theorem drawRectangle_onScreen
    {x y w h : Int}
    {color : Color}
    (high : 0 < w ∧ 0 < h)
    (fits : 0 ≤ x ∧ x + w ≤ 1920 ∧ 0 ≤ y ∧ y + h ≤ 1080) :
    AllOnScreen (drawRectangle x y w h color) :=
  (drawRectangle_onScreen_iff high.1 high.2).mpr fits

theorem drawOk_onScreen :
    AllOnScreen (drawOk face) :=
  allOnScreen_append.mpr
    ⟨drawRectangle_onScreen (by decide) (by decide), drawString_onScreen⟩

theorem drawChoice_onScreen
    {choice : Bool} :
    AllOnScreen (drawChoice face choice) := by
  simp only [drawChoice, allOnScreen_append]
  refine ⟨⟨⟨?_, ?_⟩, drawString_onScreen⟩, drawString_onScreen⟩
  · exact drawRectangle_onScreen (by decide) (by decide)
  · exact drawRectangle_onScreen (by decide) (by decide)

theorem drawError_onScreen
    {message : List Byte}
    {ild : Bool} :
    AllOnScreen (drawError face message ild) := by
  simp only [drawError, allOnScreen_append, drawSkeleton_onScreen,
    drawExclamationMark_onScreen, drawMessage_onScreen, true_and]
  split
  · exact fun _ member => absurd member List.not_mem_nil
  · exact drawMessage_onScreen

/-- Every pixel of a screen is on it exactly where the drawing fits. -/
theorem Shown.draw_onScreen_iff
    (shown : Shown) :
    AllOnScreen (shown.draw face) ↔ shown.Fits face := by
  cases shown with
  | errorScreen message =>
      exact iff_true_intro drawError_onScreen
  | errorDialog message ild =>
      exact iff_true_intro (allOnScreen_append.mpr
        ⟨drawError_onScreen, drawOk_onScreen⟩)
  | notification message =>
      refine iff_true_intro ?_
      simp only [draw, allOnScreen_append, drawSkeleton_onScreen,
        drawMessage_onScreen, drawOk_onScreen, and_true]
  | statusMessage message =>
      exact iff_true_intro (allOnScreen_append.mpr
        ⟨drawSkeleton_onScreen, drawMessage_onScreen⟩)
  | networkList networks curNet =>
      simp only [draw, Fits]
      split
      · rename_i isEmpty
        simp only [allOnScreen_append, drawSkeleton_onScreen,
          drawMessage_onScreen, drawNetworkListToolbox_onScreen_iff,
          isEmpty, true_and, true_or]
      · rename_i notEmpty
        simp only [allOnScreen_append, drawSkeleton_onScreen,
          drawNetworkListToolbox_onScreen_iff, notEmpty, true_and, false_or]
        exact and_congr_left fun _ => drawNetworks_onScreen_iff
  | question msg choice =>
      refine iff_true_intro ?_
      simp only [draw, allOnScreen_append, drawSkeleton_onScreen,
        drawMessage_onScreen, drawChoice_onScreen, and_true]
  | login form =>
      exact iff_true_intro drawLoginForm_onScreen

/-- Every screen that a dialog gets to from this one fits. -/
def Shown.Good (face : Byte → Option Glyph) : Shown → Prop
  | networkList networks curNet =>
      (networks.length = 0 ∨
        0 ≤ curNet ∧ curNet < networks.length ∧ networks.length ≤ 25) ∧
        ToolboxFits face
  | _ => True

/-- What a dialog goes on with is good. -/
def Next.Good (face : Byte → Option Glyph) : Next → Prop
  | .redraw shown => shown.Good face
  | _ => True

theorem Shown.Good.onScreen
    {shown : Shown}
    (good : shown.Good face) :
    AllOnScreen (shown.draw face) := by
  refine shown.draw_onScreen_iff.mpr ?_
  cases shown with
  | networkList networks curNet =>
      obtain ⟨inside, toolbox⟩ := good
      exact ⟨by omega, toolbox⟩
  | _ => trivial

theorem Request.Fits.good
    {request : Request}
    (fits : request.Fits face) :
    request.shown.Good face := by
  cases request with
  | networkList networks curNet =>
      obtain ⟨inside, toolbox⟩ := fits
      rw [FitsScreen, ← List.length_eq_zero_iff] at inside
      rw [Request.shown]
      split
      · rename_i isEmpty
        exact ⟨.inl isEmpty, toolbox⟩
      · refine ⟨?_, toolbox⟩
        split <;> omega
  | _ => trivial

theorem Shown.enter_good
    (form : LoginForm) :
    (Shown.enter form).Good face := by
  unfold Shown.enter
  split <;> trivial

/-- No key leads to a screen that does not fit. -/
theorem Shown.Good.pressed
    {shown : Shown}
    (good : shown.Good face)
    (keys : Keys) :
    (shown.pressed keys).Good face := by
  cases shown with
  | networkList networks curNet =>
      obtain ⟨inside, toolbox⟩ := good
      simp only [Shown.pressed]
      split
      · rename_i isEmpty
        split
        · trivial
        · trivial
        · exact ⟨.inl isEmpty, toolbox⟩
      · rename_i notEmpty
        split
        · trivial
        · trivial
        · rename_i next goesOn
          refine ⟨.inr ?_, toolbox⟩
          unfold networkListKeys at goesOn
          grind
  | errorScreen message =>
      simp only [Shown.pressed]
      split <;> trivial
  | errorDialog message ild =>
      simp only [Shown.pressed]
      split_ifs <;> trivial
  | notification message =>
      simp only [Shown.pressed]
      split <;> trivial
  | statusMessage message =>
      trivial
  | question msg choice =>
      simp only [Shown.pressed]
      split <;> trivial
  | login form =>
      simp only [Shown.pressed]
      split_ifs <;> first | trivial | exact Shown.enter_good form

theorem Shown.Good.dumped
    {shown : Shown}
    (good : shown.Good face)
    (keys : Keys) :
    (shown.dumped keys).Good face := by
  cases shown with
  | errorDialog message ild =>
      simp only [Shown.dumped]
      split <;> trivial
  | _ => exact good

theorem Shown.Good.edited
    {shown : Shown}
    (good : shown.Good face)
    (ime : ImeResult) :
    (shown.edited ime).Good face := by
  cases shown with
  | login form =>
      trivial
  | _ => exact good

theorem Shown.flipped_good
    {shown : Shown}
    {next : Next}
    (flips : shown.flipped = some next) :
    next.Good face := by
  cases shown with
  | statusMessage message =>
      cases flips
      trivial
  | login form =>
      simp only [Shown.flipped] at flips
      split at flips
      · cases flips
        exact Shown.enter_good form
      · cases flips
  | _ => cases flips

theorem Shown.dumpResult_good
    (err : Option (List Byte)) :
    (Shown.dumpResult err).Good face := by
  cases err <;> trivial

/-- The skeleton writes every pixel of the screen. -/
theorem drawSkeleton_covers
    {point : Int × Int}
    (onScreen : OnScreen point) :
    ∃ write ∈ drawSkeleton face, (write.x, write.y) = point := by
  obtain ⟨left, right, top, bottom⟩ := onScreen
  refine ⟨_, List.mem_append_left _ (mem_drawWhere.mpr
    ⟨point.2, mem_between.mpr ⟨top, bottom⟩, point.1,
      mem_between.mpr ⟨left, right⟩, trivial, rfl⟩), rfl⟩

/-- Every screen starts with the skeleton. -/
theorem Shown.drawSkeleton_prefix
    (shown : Shown) :
    drawSkeleton face <+: shown.draw face := by
  cases shown <;>
    simp only [draw, drawError, drawLoginForm, drawLoginFormText] <;>
    (try split) <;>
    simp only [List.append_assoc, List.prefix_append]

/-- Every screen writes every pixel. -/
theorem Shown.draw_covers
    (shown : Shown)
    {point : Int × Int}
    (onScreen : OnScreen point) :
    ∃ write ∈ shown.draw face, (write.x, write.y) = point := by
  obtain ⟨write, inSkeleton, isPoint⟩ := @drawSkeleton_covers face _ onScreen
  exact ⟨write, shown.drawSkeleton_prefix.subset inSkeleton, isPoint⟩

end Hamachi.Display
