import Mathlib.Tactic.Common
import Mathlib.Algebra.Group.Nat.Defs
import Mathlib.Data.Int.Basic
import Mathlib.Logic.Function.Iterate

/-!
# The terminal widget

A model of `user/libui/terminal.c`: the grid of cells with its scrollback, the parser of escape
sequences, and what the widget tells its window to repaint.

The parser and the cursor never read a cell.  So everything down to `feedByte` is written over a
`Surface`, the three things it does to the grid: scroll by a line, erase a part of a row, put a
cell. `RowRing` is the grid of the source, one ring of rows over a flat array, and `ringSurface` its
three operations.  A write outside the array is not undefined here: it changes no cell and sets
`outside`.

An `int` is an integer.  Where a sum can leave the 32 bits it is wrapped (`wrapInt`); everywhere
else the operands are cell coordinates.
-/

namespace ShitOs

def MAX_COLUMNS : ℤ := 400
def MAX_ROWS : ℤ := 200
def SCROLLBACK_ROWS : ℤ := 2000
def MAX_PARAMETERS : ℕ := 16

/-- An `int` after an addition or a multiplication that may overflow. -/
def wrapInt (x : ℤ) : ℤ := x.bmod (2 ^ 32)

/-- What an `int` can hold. -/
def IsInt (x : ℤ) : Prop := -2147483648 ≤ x ∧ x ≤ 2147483647
  deriving Decidable

lemma wrapInt_of_isInt {x : ℤ} (h : IsInt x) : wrapInt x = x :=
  Int.bmod_eq_of_le_mul_two (by have := h.1; omega) (by have := h.2; omega)

def ATTR_BOLD : BitVec 8 := 0x01
def ATTR_INVERSE : BitVec 8 := 0x02
def ATTR_DIM : BitVec 8 := 0x04

structure Cell where
  ch : UInt8
  attributes : BitVec 8
  foreground : ℤ
  background : ℤ
  deriving DecidableEq

/-- What `erase_cells` leaves behind. -/
def blankCell (background : ℤ) : Cell := ⟨0x20, 0, -1, background⟩

inductive ParserState
  | ground | escape | csi | osc
  deriving DecidableEq

/-- The place the widget has been given, and the size of a cell of its font. -/
structure Geometry where
  width : ℤ
  height : ℤ
  cellWidth : ℤ
  cellHeight : ℤ
  cellWidth_pos : 0 < cellWidth
  cellHeight_pos : 0 < cellHeight

namespace Geometry

variable (g : Geometry)

/-- The columns `reshape` makes of the width. -/
def columns : ℤ := min (max (g.width.tdiv g.cellWidth) 1) MAX_COLUMNS

/-- The rows `reshape` makes of the height. -/
def rows : ℤ := min (max (g.height.tdiv g.cellHeight) 1) MAX_ROWS

def storageRows : ℤ := if SCROLLBACK_ROWS > g.rows then SCROLLBACK_ROWS else g.rows

end Geometry

/-! ## The grid -/

/-- What the rest of the terminal does to its grid.  Rows are those of the screen. -/
structure Surface (G : Type*) where
  /-- Scroll by one row; the new last row is full of the given cell. -/
  scroll : G → Cell → G
  /-- Fill a part of a row. -/
  erase : G → (y start finish : ℤ) → Cell → G
  /-- Set one cell. -/
  put : G → (y x : ℤ) → Cell → G

/-- The ring of rows, with what was written outside of it. -/
structure RowRing where
  storage : ℤ → Cell
  top : ℤ
  used : ℤ
  outside : Bool

namespace RowRing

variable (g : Geometry) (r : RowRing)

/-- `row_at`: where a row begins in the storage. -/
def rowAt (index : ℤ) : ℤ := (r.top + index).tmod g.storageRows * g.columns

def screenRow (y : ℤ) : ℤ := r.rowAt g (r.used - g.rows + y)

/-- An assignment to one cell of the storage. -/
def store (offset : ℤ) (cell : Cell) : RowRing :=
  if 0 ≤ offset ∧ offset < g.storageRows * g.columns then
    { r with storage := Function.update r.storage offset cell }
  else { r with outside := true }

def eraseCells (row start finish : ℤ) (blank : Cell) : RowRing :=
  let start := max start 0
  let finish := min finish g.columns
  (List.range (finish - start).toNat).foldl (fun r (i : ℕ) =>
    r.store g (row + (start + i)) blank) r

def clearRow (row : ℤ) (blank : Cell) : RowRing := r.eraseCells g row 0 g.columns blank

/-- `scroll_up`, as far as the ring goes. -/
def scrollUp (blank : Cell) : RowRing :=
  let r :=
    if r.used < g.storageRows then { r with used := r.used + 1 }
    else { r with top := (r.top + 1).tmod g.storageRows }
  r.clearRow g (r.screenRow g (g.rows - 1)) blank

/-- The ring after `reset_grid`. -/
def fresh (blank : Cell) : RowRing := ⟨fun _ => blank, 0, g.rows, false⟩

end RowRing

/-- The grid of the source. -/
def ringSurface (g : Geometry) : Surface RowRing where
  scroll r blank := r.scrollUp g blank
  erase r y start finish blank := r.eraseCells g (r.screenRow g y) start finish blank
  put r y x cell := r.store g (r.screenRow g y + x) cell

/-! ## The terminal -/

/-- The fields of `UiTerminal`, over a grid. -/
structure UiTerminal (G : Type*) where
  grid : G
  view : ℤ
  cursorX : ℤ
  cursorY : ℤ
  savedX : ℤ
  savedY : ℤ
  cursorVisible : Bool
  attributes : BitVec 8
  foreground : ℤ
  background : ℤ
  dirtyTop : ℤ
  dirtyBottom : ℤ
  state : ParserState
  parameters : ℕ → ℤ
  parameterCount : ℕ
  privateMarker : Bool

namespace UiTerminal

section Feed

variable {G : Type*} (g : Geometry) (on : Surface G) (t : UiTerminal G)

def touchRows (start finish : ℤ) : UiTerminal G :=
  let start := max start 0
  let finish := min finish g.rows
  if start ≥ finish then t
  else if t.dirtyTop ≥ t.dirtyBottom then { t with dirtyTop := start, dirtyBottom := finish }
  else { t with dirtyTop := min t.dirtyTop start, dirtyBottom := max t.dirtyBottom finish }

def touchAll : UiTerminal G := t.touchRows g 0 g.rows

/-- The cell `erase_cells` writes. -/
def blank : Cell := blankCell t.background

def scrollUp : UiTerminal G :=
  { ({ t with grid := on.scroll t.grid t.blank }.touchAll g) with view := 0 }

/-- The loop that brings the cursor back onto the screen, by scrolling. -/
def scrollToCursor : UiTerminal G :=
  (fun t => let t := scrollUp g on t; { t with cursorY := t.cursorY - 1 })^[
    (t.cursorY - g.rows + 1).toNat] t

def parameter (index : ℕ) (fallback : ℤ) : ℤ :=
  if index ≥ t.parameterCount then fallback
  else if t.parameters index > 0 then t.parameters index else fallback

/-- What one code of `apply_sgr` does. -/
def applyCode (code : ℤ) : UiTerminal G :=
  if code = 0 then { t with attributes := 0, foreground := -1, background := -1 }
  else if code = 1 then { t with attributes := t.attributes ||| ATTR_BOLD }
  else if code = 2 then { t with attributes := t.attributes ||| ATTR_DIM }
  else if code = 7 then { t with attributes := t.attributes ||| ATTR_INVERSE }
  else if code = 22 then { t with attributes := t.attributes &&& ~~~(ATTR_BOLD ||| ATTR_DIM) }
  else if code = 27 then { t with attributes := t.attributes &&& ~~~ATTR_INVERSE }
  else if 30 ≤ code ∧ code ≤ 37 then { t with foreground := code - 30 }
  else if code = 39 then { t with foreground := -1 }
  else if 40 ≤ code ∧ code ≤ 47 then { t with background := code - 40 }
  else if code = 49 then { t with background := -1 }
  else if 90 ≤ code ∧ code ≤ 97 then { t with foreground := code - 90 + 8 }
  else if 100 ≤ code ∧ code ≤ 107 then { t with background := code - 100 + 8 }
  else t

def applySgr : UiTerminal G :=
  if t.parameterCount = 0 then t.applyCode 0
  else (List.range t.parameterCount).foldl (fun t i => t.applyCode (t.parameters i)) t

/-- A row of the screen is cleared. -/
def clearScreenRow (y : ℤ) : UiTerminal G :=
  { t with grid := on.erase t.grid y 0 g.columns t.blank }

/-- The rows of the screen from `start` on, up to `finish`, are cleared. -/
def clearScreenRows (start finish : ℤ) : UiTerminal G :=
  (List.range (finish - start).toNat).foldl (fun t (i : ℕ) => clearScreenRow g on t (start + i)) t

def eraseInDisplay (mode : ℤ) : UiTerminal G :=
  if mode = 0 then
    clearScreenRows g on
      { t with grid := on.erase t.grid t.cursorY t.cursorX g.columns t.blank }
        (t.cursorY + 1) g.rows
  else if mode = 1 then
    let t := clearScreenRows g on t 0 t.cursorY
    { t with grid := on.erase t.grid t.cursorY 0 (t.cursorX + 1) t.blank }
  else clearScreenRows g on t 0 g.rows

def eraseInLine (mode : ℤ) : UiTerminal G :=
  let start := if mode = 0 then t.cursorX else 0
  let finish := if mode = 1 then t.cursorX + 1 else g.columns
  { t with grid := on.erase t.grid t.cursorY start finish t.blank }.touchRows g t.cursorY
    (t.cursorY + 1)

/-- The end of `execute_csi`: the cursor is brought back onto the screen. -/
def clampCursor : UiTerminal G :=
  { t with
    cursorX := if t.cursorX < 0 then 0 else if t.cursorX ≥ g.columns then g.columns - 1
    else t.cursorX
    cursorY := if t.cursorY < 0 then 0 else if t.cursorY ≥ g.rows then g.rows - 1 else t.cursorY }

/-- The switch of `execute_csi`. -/
def executeFinal (final : UInt8) : UiTerminal G :=
  if final = 0x41 /- A -/ then { t with cursorY := t.cursorY - t.parameter 0 1 }
  else if final = 0x42 /- B -/ then { t with cursorY := wrapInt (t.cursorY + t.parameter 0 1) }
  else if final = 0x43 /- C -/ then { t with cursorX := wrapInt (t.cursorX + t.parameter 0 1) }
  else if final = 0x44 /- D -/ then { t with cursorX := t.cursorX - t.parameter 0 1 }
  else if final = 0x47 /- G -/ then { t with cursorX := t.parameter 0 1 - 1 }
  else if final = 0x64 /- d -/ then { t with cursorY := t.parameter 0 1 - 1 }
  else if final = 0x48 /- H -/ ∨ final = 0x66 /- f -/ then
    { t with cursorY := t.parameter 0 1 - 1, cursorX := t.parameter 1 1 - 1 }
  else if final = 0x4a /- J -/ then eraseInDisplay g on t (t.parameter 0 0)
  else if final = 0x4b /- K -/ then eraseInLine g on t (t.parameter 0 0)
  else if final = 0x6d /- m -/ then t.applySgr
  else if final = 0x68 /- h -/ ∨ final = 0x6c /- l -/ then
    if t.privateMarker ∧ t.parameter 0 0 = 25 then { t with cursorVisible := final = 0x68 } else t
  else if final = 0x73 /- s -/ then { t with savedX := t.cursorX, savedY := t.cursorY }
  else if final = 0x75 /- u -/ then { t with cursorX := t.savedX, cursorY := t.savedY }
  else t

def executeCsi (final : UInt8) : UiTerminal G := (executeFinal g on t final).clampCursor g

def putCharacter (c : UInt8) : UiTerminal G :=
  let t := if t.cursorX ≥ g.columns then { t with cursorX := 0, cursorY := t.cursorY + 1 } else t
  let t := scrollToCursor g on t
  let cell : Cell := ⟨c, t.attributes, t.foreground, t.background⟩
  let t := { t with grid := on.put t.grid t.cursorY t.cursorX cell }.touchRows g t.cursorY
    (t.cursorY + 1)
  { t with cursorX := t.cursorX + 1 }

/-- A digit of a parameter. -/
def takeDigit (c : UInt8) : UiTerminal G :=
  let count := if t.parameterCount = 0 then 1 else t.parameterCount
  if count ≤ MAX_PARAMETERS then
    { t with
      parameterCount := count
      parameters := Function.update t.parameters (count - 1)
        (wrapInt (t.parameters (count - 1) * 10 + (c.toNat - 0x30 : ℤ))) }
  else { t with parameterCount := count }

/-- The separator between two parameters. -/
def takeSeparator : UiTerminal G :=
  let count := if t.parameterCount = 0 then 1 else t.parameterCount
  if count < MAX_PARAMETERS then
    { t with parameterCount := count + 1, parameters := Function.update t.parameters count 0 }
  else { t with parameterCount := count }

/-- What `feed_byte` does in the ground state. -/
def feedGround (c : UInt8) : UiTerminal G :=
  if c = 0x1b then { t with state := .escape }
  else if c = 0x0d then { t with cursorX := 0 }
  else if c = 0x0a then scrollToCursor g on { t with cursorY := t.cursorY + 1 }
  else if c = 0x08 then if t.cursorX > 0 then { t with cursorX := t.cursorX - 1 } else t
  else if c = 0x09 then
    let x := (t.cursorX + 8) / 8 * 8
    { t with cursorX := if x ≥ g.columns then g.columns - 1 else x }
  else if c = 0x07 then t
  else if c < 32 then t
  else putCharacter g on t c

def feedByte (c : UInt8) : UiTerminal G :=
  match t.state with
  | .escape =>
    if c = 0x5b then
      { t with
        state := .csi
        parameterCount := 0
        privateMarker := false
        parameters := Function.update t.parameters 0 0 }
    else if c = 0x5d then { t with state := .osc }
    else { t with state := .ground }
  | .csi =>
    if c = 0x3f then { t with privateMarker := true }
    else if 0x30 ≤ c ∧ c ≤ 0x39 then t.takeDigit c
    else if c = 0x3b then t.takeSeparator
    else { executeCsi g on t c with state := .ground }
  | .osc =>
    if c = 0x07 then { t with state := .ground }
    else if c = 0x1b then { t with state := .escape }
    else t
  | .ground => feedGround g on t c

/-- The loop of `ui_terminal_feed`. -/
def feedBytes (bytes : List UInt8) : UiTerminal G := bytes.foldl (feedByte g on) t

end Feed

/-- A terminal as `ui_terminal_create` and `reshape` leave it, over a given grid. -/
def created {G : Type*} (g : Geometry) (grid : G) : UiTerminal G :=
  touchAll g
    { grid := grid
      view := 0
      cursorX := 0
      cursorY := 0
      savedX := 0
      savedY := 0
      cursorVisible := true
      attributes := 0
      foreground := -1
      background := -1
      dirtyTop := 0
      dirtyBottom := 0
      state := .ground
      parameters := fun _ => 0
      parameterCount := 0
      privateMarker := false }

end UiTerminal

/-! ## Repainting -/

/-- A rectangle of the widget, in pixels. -/
structure UiRect where
  x : ℤ
  y : ℤ
  width : ℤ
  height : ℤ
  deriving DecidableEq

/-- What is to be seen of one row: its cells, and where the cursor block is, if it is in this row.
-/
structure RowPicture where
  cells : List Cell
  cursor : Option ℤ
  deriving DecidableEq

namespace UiTerminal

variable (g : Geometry) (t : UiTerminal RowRing)

/-- The row `y` of the visible area, as `terminal_paint` draws it. -/
def picture (y : ℤ) : RowPicture where
  cells :=
    let index := t.grid.used - g.rows - t.view + y
    if index < 0 ∨ index ≥ t.grid.used then []
    else (List.range g.columns.toNat).map fun (x : ℕ) =>
      t.grid.storage (t.grid.rowAt g index + x)
  cursor := if t.cursorVisible ∧ t.view = 0 ∧ t.cursorY = y then some t.cursorX else none

/-- `ui_terminal_feed`: the terminal, and the rectangle it invalidates. -/
def feed (bytes : List UInt8) : UiTerminal RowRing × Option UiRect :=
  let was := t.cursorY
  let t := feedBytes g (ringSurface g) t bytes
  let t := (t.touchRows g was (was + 1)).touchRows g t.cursorY (t.cursorY + 1)
  if t.dirtyTop ≥ t.dirtyBottom then (t, none)
  else
    (t, some ⟨0, t.dirtyTop * g.cellHeight, g.width, (t.dirtyBottom - t.dirtyTop) * g.cellHeight⟩)

/-- The view is moved by `distance` rows, and stays within the history. -/
def scrollView (distance : ℤ) : UiTerminal RowRing :=
  let view := wrapInt (t.view + distance)
  let furthest := t.grid.used - g.rows
  let view := if view > furthest then furthest else view
  { t with view := if view < 0 then 0 else view }.touchAll g

/-- `terminal_on_key`, as far as it changes the view: a key that is pressed brings the live screen
back, and the two page keys then scroll. -/
def pressKey (pageUp pageDown : Bool) : UiTerminal RowRing × Bool :=
  let moved := t.view ≠ 0
  let t := if moved then { t with view := 0 }.touchAll g else t
  if pageUp then (t.scrollView g (g.rows - 1), true)
  else if pageDown then (t.scrollView g (-(g.rows - 1)), true)
  else (t, moved)

end UiTerminal

/-- A terminal, what each of its rows showed when it was last drawn, and what has been invalidated
since the last paint. -/
structure TerminalWidget where
  terminal : UiTerminal RowRing
  painted : ℤ → RowPicture
  invalidated : List UiRect

inductive WidgetEvent
  | feed (bytes : List UInt8)
  | wheel (wheel : ℤ)
  | key (pageUp pageDown : Bool)
  /-- `terminal_paint`, with a clip between two heights.  The window takes the smallest rectangle
  around all its damage, that of other widgets included. -/
  | paint (clipTop clipBottom : ℤ)
  deriving DecidableEq

namespace TerminalWidget

variable (g : Geometry)

/-- The rectangle of `ui_widget_invalidate`. -/
def wholeWidget : UiRect := ⟨0, 0, g.width, g.height⟩

/-- The rows `terminal_paint` draws: those the clip can show. -/
def redrawn (clipTop clipBottom y : ℤ) : Bool :=
  max (clipTop.tdiv g.cellHeight) 0 ≤ y ∧
    y < min ((clipBottom + g.cellHeight - 1).tdiv g.cellHeight) g.rows

/-- One event.  A paint is clipped to a region that holds all the damage; everything else is
possible at any time. -/
def step (s : TerminalWidget) : WidgetEvent → Option TerminalWidget
  | .feed bytes =>
    let fed := s.terminal.feed g bytes
    some { s with terminal := fed.1, invalidated := s.invalidated ++ fed.2.toList }
  | .wheel wheel =>
    if wheel = 0 then some s
    else
      some { s with
        terminal := s.terminal.scrollView g (wrapInt (wheel * 3))
        invalidated := s.invalidated ++ [wholeWidget g] }
  | .key pageUp pageDown =>
    let pressed := s.terminal.pressKey g pageUp pageDown
    some { s with
      terminal := pressed.1
      invalidated := s.invalidated ++ if pressed.2 then [wholeWidget g] else [] }
  | .paint clipTop clipBottom =>
    if ∀ rect ∈ s.invalidated,
        clipTop ≤ max rect.y 0 ∧ min (rect.y + rect.height) g.height ≤ clipBottom then
      some
        { terminal := { s.terminal with dirtyTop := 0, dirtyBottom := 0 }
          painted := fun y =>
            if redrawn g clipTop clipBottom y then s.terminal.picture g y else s.painted y
          invalidated := [] }
    else none

/-- A widget that has just been shaped and painted for the first time. -/
def initial : TerminalWidget :=
  let terminal := UiTerminal.created g (RowRing.fresh g (blankCell (-1)))
  { terminal := { terminal with dirtyTop := 0, dirtyBottom := 0 }
    painted := terminal.picture g
    invalidated := [] }

end TerminalWidget

end ShitOs
