import ShitOs.Construction.Widget
import Mathlib.Algebra.Ring.Int.Defs

/-!
# Boxes

A model of `box_layout` in `user/libui/widget.c`.  A child is what the box reads of it, and what the
method `measure` of its class says.

Lengths are `int`s and wrap.  A sum that is wrapped term by term is the sum wrapped at the end.
-/

namespace ShitOs

inductive UiOrientation
  | horizontal
  | vertical
  deriving DecidableEq

structure BoxChild where
  visible : Bool
  measured : ℤ × ℤ
  fixedWidth : ℤ
  fixedHeight : ℤ
  expandX : Bool
  expandY : Bool

structure UiBox where
  orientation : UiOrientation
  spacing : ℤ
  padding : ℤ
  width : ℤ
  height : ℤ
  children : List BoxChild

/-- `ui_widget_measure`. -/
def BoxChild.measure (c : BoxChild) : ℤ × ℤ :=
  (if c.fixedWidth > 0 then c.fixedWidth else c.measured.1,
    if c.fixedHeight > 0 then c.fixedHeight else c.measured.2)

namespace UiBox

variable (box : UiBox)

def innerWidth : ℤ := wrapInt (box.width - box.padding * 2)

def innerHeight : ℤ := wrapInt (box.height - box.padding * 2)

def available : ℤ := if box.orientation = .horizontal then box.innerWidth else box.innerHeight

/-- What a child wants in the direction of the box. -/
def along (c : BoxChild) : ℤ :=
  if box.orientation = .horizontal then c.measure.1 else c.measure.2

def expands (c : BoxChild) : Bool :=
  if box.orientation = .horizontal then c.expandX else c.expandY

/-- The children that the two loops do not skip. -/
def shown : List BoxChild := box.children.filter (·.visible)

def expanders : ℕ := box.shown.countP box.expands

def wanted : ℤ :=
  wrapInt ((box.shown.map box.along).sum +
    if box.shown.length > 1 then box.spacing * (box.shown.length - 1) else 0)

def shortfall : ℤ :=
  let shortfall := wrapInt (box.wanted - box.available)
  if shortfall < 0 then 0 else shortfall

def leftover : ℤ :=
  let leftover := wrapInt (box.available - box.wanted)
  if leftover < 0 then 0 else leftover

def share : ℤ := if box.expanders > 0 then box.leftover.tdiv box.expanders else 0

def remainder : ℤ := if box.expanders > 0 then box.leftover.tmod box.expanders else 0

/-- What is taken back from a child. -/
def give (along : ℤ) : ℤ :=
  if box.shortfall > 0 ∧ box.wanted > 0 then
    let give := (wrapInt (along * box.shortfall)).tdiv box.wanted
    if give > along then along else give
  else 0

/-- The rectangle of a child that is `along` long. -/
def rect (c : BoxChild) (cursor along : ℤ) : UiRect :=
  match box.orientation with
  | .horizontal => ⟨cursor, box.padding, along,
      if c.expandY ∨ c.fixedHeight = 0 then box.innerHeight else c.measure.2⟩
  | .vertical => ⟨box.padding, cursor,
      if c.expandX ∨ c.fixedWidth = 0 then box.innerWidth else c.measure.1, along⟩

/-- How long a child gets. -/
def size (c : BoxChild) (remainder : ℤ) : ℤ :=
  wrapInt (box.along c - box.give (box.along c) +
    if box.expands c then box.share + (if remainder > 0 then 1 else 0) else 0)

/-- The second loop. -/
def place : List BoxChild → ℤ → ℤ → List UiRect
  | [], _, _ => []
  | c :: rest, cursor, remainder =>
    let along := box.size c remainder
    box.rect c cursor along :: place rest (wrapInt (cursor + (along + box.spacing)))
      (if box.expands c ∧ remainder > 0 then remainder - 1 else remainder)

/-- `box_layout`: the rectangles of the children that are visible. -/
def layout : List UiRect := box.place box.shown box.padding box.remainder

end UiBox
end ShitOs
