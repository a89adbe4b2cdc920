import ShitOs.Construction.UiTerminal

/-!
# Widgets

A model of what `user/libui/widget.c`, `window.c` and `paint.c` do with the rectangles of a tree of
widgets: which of them are painted and where, and which is under the pointer.  A widget has a name
in place of its address.  Coordinates are `int`s, and their sums and differences wrap.
-/

namespace ShitOs

/-- `ui_rect_contains`. -/
def UiRect.Contains (r : UiRect) (x y : ℤ) : Prop :=
  x ≥ r.x ∧ y ≥ r.y ∧ x < wrapInt (r.x + r.width) ∧ y < wrapInt (r.y + r.height)
  deriving Decidable

/-- The part of `UiPainter` that says where it draws. -/
structure UiPainter where
  originX : ℤ
  originY : ℤ
  clip : UiRect

/-- `ui_painter_for`. -/
def UiPainter.painterFor (parent : UiPainter) (child : UiRect) : UiPainter :=
  let originX := wrapInt (parent.originX + child.x)
  let originY := wrapInt (parent.originY + child.y)
  let x1 := wrapInt (originX + child.width)
  let y1 := wrapInt (originY + child.height)
  let clipX := if originX > parent.clip.x then originX else parent.clip.x
  let clipY := if originY > parent.clip.y then originY else parent.clip.y
  let parentRight := wrapInt (parent.clip.x + parent.clip.width)
  let parentBottom := wrapInt (parent.clip.y + parent.clip.height)
  let right := if x1 < parentRight then x1 else parentRight
  let bottom := if y1 < parentBottom then y1 else parentBottom
  ⟨originX, originY, clipX, clipY, if right > clipX then wrapInt (right - clipX) else 0,
    if bottom > clipY then wrapInt (bottom - clipY) else 0⟩

/-- A widget; its rectangle is relative to the one it is in. -/
inductive UiWidget (α : Type*)
  | node (name : α) (visible : Bool) (rect : UiRect) (children : List (UiWidget α))

namespace UiWidget

variable {α : Type*}

mutual

/-- `ui_widget_at`. -/
def widgetAt : UiWidget α → ℤ → ℤ → Option α
  | .node name visible rect children, x, y =>
    if visible = false ∨ ¬ rect.Contains x y then none
    else (widgetAtLast children (wrapInt (x - rect.x)) (wrapInt (y - rect.y))).or (some name)

/-- Its loop over the children, from the last one. -/
def widgetAtLast : List (UiWidget α) → ℤ → ℤ → Option α
  | [], _, _ => none
  | child :: later, x, y => (widgetAtLast later x y).or (child.widgetAt x y)

end

mutual

/-- `paint_widget`: the widgets that are painted, in order, and the clip of the painter each is
given. -/
def paintWidget (painter : UiPainter) : UiWidget α → List (α × UiRect)
  | .node name visible rect children =>
    if visible = false then []
    else if rect.width ≤ 0 ∨ rect.height ≤ 0 then []
    else
      let painter := painter.painterFor rect
      if painter.clip.width ≤ 0 ∨ painter.clip.height ≤ 0 then []
      else (name, painter.clip) :: paintChildren painter children

/-- Its loop over the children. -/
def paintChildren (painter : UiPainter) : List (UiWidget α) → List (α × UiRect)
  | [] => []
  | child :: later => child.paintWidget painter ++ paintChildren painter later

end

/-- `repaint` with all of a surface damaged. -/
def repaint (root : UiWidget α) (width height : ℤ) : List (α × UiRect) :=
  root.paintWidget ⟨0, 0, 0, 0, width, height⟩

end UiWidget
end ShitOs
