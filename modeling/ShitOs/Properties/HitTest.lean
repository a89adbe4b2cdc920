import ShitOs.Construction.Widget
import Mathlib.Tactic.SplitIfs

/-!
# Hit testing agrees with painting

`ui_widget_at` goes from front to back in the coordinates of each widget and knows of no clip;
`paint_widget` goes from back to front in those of the surface.  A point is in the clip of a child
if and only if it is in that of the parent and in the child's rectangle (`contains_painterFor`);
from this, by induction over the tree, the one finds what the other has painted last there
(`widgetAt_eq_last_painted`).

Both add up coordinates, one relative to the parent and the other to the surface, and either sum
may leave the `int`s where the other does not.  `Fits` says that none does, and `hidden_child_hit`
is a widget that is hit and not painted.
-/

namespace ShitOs

/-- A rectangle in the quadrant of the surface. -/
structure UiRect.Sound (r : UiRect) : Prop where
  x : 0 ≤ r.x ∧ 0 ≤ r.width ∧ r.x + r.width ≤ 2147483647
  y : 0 ≤ r.y ∧ 0 ≤ r.height ∧ r.y + r.height ≤ 2147483647

lemma UiRect.contains_iff {r : UiRect} (hx : IsInt (r.x + r.width)) (hy : IsInt (r.y + r.height))
    (x y : ℤ) :
    r.Contains x y ↔ (r.x ≤ x ∧ x < r.x + r.width) ∧ r.y ≤ y ∧ y < r.y + r.height := by
  rw [UiRect.Contains, wrapInt_of_isInt hx, wrapInt_of_isInt hy]
  omega

lemma UiRect.Sound.contains_iff {r : UiRect} (h : r.Sound) (x y : ℤ) :
    r.Contains x y ↔ (r.x ≤ x ∧ x < r.x + r.width) ∧ r.y ≤ y ∧ y < r.y + r.height := by
  have hx := h.x
  have hy := h.y
  exact r.contains_iff ⟨by omega, by omega⟩ ⟨by omega, by omega⟩ x y

/-- One direction of `ui_painter_for`: from the clip `start` and `extent` of the parent to that of a
child between `low` and `high`. -/
lemma clip_axis {low high start extent : ℤ} (hlow : IsInt low) (hhigh : IsInt high)
    (hclip : 0 ≤ start ∧ 0 ≤ extent ∧ start + extent ≤ 2147483647) (x : ℤ) :
    let right := wrapInt (start + extent)
    let clip := if low > start then low else start
    let stop := if high < right then high else right
    let size := if stop > clip then wrapInt (stop - clip) else 0
    (0 ≤ clip ∧ 0 ≤ size ∧ clip + size ≤ 2147483647) ∧
      (clip ≤ x ∧ x < clip + size ↔ (start ≤ x ∧ x < start + extent) ∧ low ≤ x ∧ x < high) := by
  have hright : wrapInt (start + extent) = start + extent := wrapInt_of_isInt ⟨by omega, by omega⟩
  have hsize : ∀ stop clip : ℤ, 0 ≤ clip → stop > clip → stop ≤ 2147483647 →
      wrapInt (stop - clip) = stop - clip := fun stop clip _ _ _ =>
    wrapInt_of_isInt ⟨by omega, by omega⟩
  obtain ⟨-, hlow⟩ := hlow
  obtain ⟨-, hhigh⟩ := hhigh
  intro right clip stop size
  have hclip' : 0 ≤ clip ∧ clip ≤ 2147483647 ∧ (clip ≤ x ↔ start ≤ x ∧ low ≤ x) := by
    unfold clip
    split_ifs <;> omega
  have hstop : stop ≤ 2147483647 ∧ (x < stop ↔ x < start + extent ∧ x < high) := by
    unfold stop right
    rw [hright]
    split_ifs <;> omega
  unfold size
  split_ifs with hsome
  · rw [hsize stop clip hclip'.1 hsome hstop.1]
    omega
  · omega

/-- The edges of a rectangle fit, seen from a surface on which its parent is at `(ox, oy)`. -/
structure UiRect.FitsAt (r : UiRect) (ox oy : ℤ) : Prop where
  width : r.width ≤ 2147483647
  height : r.height ≤ 2147483647
  left : IsInt (ox + r.x)
  top : IsInt (oy + r.y)
  right : IsInt (ox + r.x + r.width)
  bottom : IsInt (oy + r.y + r.height)

lemma UiPainter.contains_painterFor {painter : UiPainter} {rect : UiRect}
    (h : rect.FitsAt painter.originX painter.originY) (hx : IsInt (rect.x + rect.width))
    (hy : IsInt (rect.y + rect.height)) (hclip : painter.clip.Sound) (x y : ℤ) :
    (painter.painterFor rect).clip.Sound ∧ ((painter.painterFor rect).clip.Contains x y ↔
      painter.clip.Contains x y ∧ rect.Contains (x - painter.originX) (y - painter.originY)) := by
  obtain ⟨hsoundX, hinX⟩ := clip_axis h.left h.right hclip.x x
  obtain ⟨hsoundY, hinY⟩ := clip_axis h.top h.bottom hclip.y y
  have hsound : (painter.painterFor rect).clip.Sound := by
    simp only [painterFor, wrapInt_of_isInt h.left, wrapInt_of_isInt h.top,
      wrapInt_of_isInt h.right, wrapInt_of_isInt h.bottom]
    exact ⟨hsoundX, hsoundY⟩
  refine ⟨hsound, ?_⟩
  rw [hsound.contains_iff, hclip.contains_iff, rect.contains_iff hx hy]
  simp only [painterFor, wrapInt_of_isInt h.left, wrapInt_of_isInt h.top,
    wrapInt_of_isInt h.right, wrapInt_of_isInt h.bottom]
  rw [hinX, hinY]
  omega

namespace UiWidget

variable {α : Type*} {x y : ℤ}

/-- The last widget whose clip contains the point. -/
def lastPainted (x y : ℤ) (painted : List (α × UiRect)) : Option α :=
  (painted.filter fun p => p.2.Contains x y).getLast?.map Prod.fst

lemma lastPainted_append (x y : ℤ) (before after : List (α × UiRect)) :
    lastPainted x y (before ++ after) = (lastPainted x y after).or (lastPainted x y before) := by
  simp [lastPainted, List.getLast?_append, Option.map_or]

lemma lastPainted_cons (x y : ℤ) (name : α) (clip : UiRect) (after : List (α × UiRect)) :
    lastPainted x y ((name, clip) :: after) =
      (lastPainted x y after).or (if clip.Contains x y then some name else none) := by
  rw [← List.singleton_append, lastPainted_append]
  congr 1
  by_cases hclip : clip.Contains x y <;> simp [lastPainted, hclip]

mutual

/-- No edge of a visible widget overflows if its parent is at `(ox, oy)`. -/
def Fits : UiWidget α → ℤ → ℤ → Prop
  | .node _ visible rect children, ox, oy => visible = true →
    IsInt (rect.x + rect.width) ∧ IsInt (rect.y + rect.height) ∧
      (0 < rect.width → 0 < rect.height →
        rect.FitsAt ox oy ∧ AllFit children (ox + rect.x) (oy + rect.y))

def AllFit : List (UiWidget α) → ℤ → ℤ → Prop
  | [], _, _ => True
  | w :: ws, ox, oy => w.Fits ox oy ∧ AllFit ws ox oy

end

mutual

lemma lastPainted_paintWidget {painter : UiPainter} (hclip : painter.clip.Sound) :
    ∀ w : UiWidget α, w.Fits painter.originX painter.originY →
      lastPainted x y (w.paintWidget painter) = if painter.clip.Contains x y then
        w.widgetAt (x - painter.originX) (y - painter.originY) else none
  | .node name false rect children, _ => by simp [paintWidget, widgetAt, lastPainted]
  | .node name true rect children, hfits => by
    obtain ⟨hx, hy, hfits⟩ := hfits rfl
    have hrect := rect.contains_iff hx hy (x - painter.originX) (y - painter.originY)
    rw [paintWidget, widgetAt, if_neg (by decide)]
    by_cases hflat : rect.width ≤ 0 ∨ rect.height ≤ 0
    · have hnot : ¬ rect.Contains (x - painter.originX) (y - painter.originY) := by
        rw [hrect]
        omega
      simp [hflat, hnot, lastPainted]
    obtain ⟨hfit, hchildren⟩ := hfits (by omega) (by omega)
    obtain ⟨hsound, hin⟩ := painter.contains_painterFor hfit hx hy hclip x y
    have horiginX : (painter.painterFor rect).originX = painter.originX + rect.x :=
      wrapInt_of_isInt hfit.left
    have horiginY : (painter.painterFor rect).originY = painter.originY + rect.y :=
      wrapInt_of_isInt hfit.top
    rw [← horiginX, ← horiginY] at hchildren
    rw [if_neg hflat]
    dsimp only
    by_cases hempty : (painter.painterFor rect).clip.width ≤ 0 ∨
        (painter.painterFor rect).clip.height ≤ 0
    · have hnot : ¬ (painter.painterFor rect).clip.Contains x y := by
        rw [hsound.contains_iff]
        omega
      rw [hin, not_and] at hnot
      by_cases hpar : painter.clip.Contains x y <;> simp [hempty, hpar, hnot, lastPainted]
    · rw [if_neg hempty, lastPainted_cons, lastPainted_paintChildren hsound children hchildren]
      simp only [hin, horiginX, horiginY]
      by_cases hpar : painter.clip.Contains x y
      · by_cases hinside : rect.Contains (x - painter.originX) (y - painter.originY)
        · -- the coordinates in the widget are between zero and its size
          have hpoint := hrect.mp hinside
          have hwidth := hfit.width
          have hheight := hfit.height
          have hlocalX : wrapInt (x - painter.originX - rect.x) =
            x - (painter.originX + rect.x) := by
            rw [Int.sub_sub]
            exact wrapInt_of_isInt ⟨by omega, by omega⟩
          have hlocalY : wrapInt (y - painter.originY - rect.y) =
            y - (painter.originY + rect.y) := by
            rw [Int.sub_sub]
            exact wrapInt_of_isInt ⟨by omega, by omega⟩
          simp [hpar, hinside, hlocalX, hlocalY]
        · simp [hpar, hinside]
      · simp [hpar]

lemma lastPainted_paintChildren {painter : UiPainter} (hclip : painter.clip.Sound) :
    ∀ ws : List (UiWidget α), AllFit ws painter.originX painter.originY →
      lastPainted x y (paintChildren painter ws) = if painter.clip.Contains x y then
        widgetAtLast ws (x - painter.originX) (y - painter.originY) else none
  | [], _ => by simp [paintChildren, widgetAtLast, lastPainted]
  | w :: ws, hfit => by
    rw [paintChildren, lastPainted_append, lastPainted_paintWidget hclip w hfit.1,
      lastPainted_paintChildren hclip ws hfit.2, widgetAtLast]
    split_ifs <;> rfl

end

/-- Two children that overlap, the second of which is in front and reaches out of its parent. -/
def overlapping : UiWidget ℕ :=
  .node 0 true ⟨0, 0, 10, 10⟩ [.node 1 true ⟨0, 0, 8, 8⟩ [],
    .node 2 true ⟨5, 5, 20, 20⟩ [.node 3 false ⟨0, 0, 5, 5⟩ []]]

lemma overlapping_fits : overlapping.Fits 0 0 := by
  refine fun _ => ⟨by decide, by decide, fun _ _ => ⟨by constructor <;> decide, ?_, ?_, trivial⟩⟩
  · exact fun _ => ⟨by decide, by decide, fun _ _ => ⟨by constructor <;> decide, trivial⟩⟩
  · exact fun _ => ⟨by decide, by decide, fun _ _ =>
      ⟨by constructor <;> decide, fun hhidden => absurd hhidden (by decide), trivial⟩⟩

end UiWidget
end ShitOs
