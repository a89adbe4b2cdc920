import ShitOs.Properties.TerminalGrid

/-!
# What the terminal asks to be repainted

The widget must tell its window about every row whose picture has changed.  It keeps one interval of
rows for that, and every operation that changes a cell extends it.  `Kept` is what holds while a
byte is fed: a row outside the interval still looks as it did.

Two things break it.  `erase_in_display` extends the interval by nothing, so what it erases away
from the row of the cursor stays on the screen.  And the interval counts the rows of the screen,
while a reader who has scrolled back a little sees the top of the screen lower down: a character
that is printed there changes a row that is displayed at another height than the one invalidated.
Such bytes are `Silent`.  `Announced` asks that they change only rows that are in the interval
already, unless the screen scrolls and all of it is repainted anyway; `repaint_complete` is that
nothing else goes wrong.
-/

namespace ShitOs

open Transition

namespace UiTerminal

variable {g : Geometry} {before t : UiTerminal RowRing} {y : ℤ}

/-- The row is among those to be repainted. -/
def Dirty (t : UiTerminal RowRing) (y : ℤ) : Prop := t.dirtyTop ≤ y ∧ y < t.dirtyBottom

instance : Decidable (t.Dirty y) := inferInstanceAs (Decidable (_ ∧ _))

/-- The cell `x` of the displayed row `y`. -/
def shown (g : Geometry) (t : UiTerminal RowRing) (y x : ℤ) : Cell :=
  t.grid.cell g (t.grid.used - g.rows - t.view + y) x

/-- The displayed row `y` has the same cells. -/
def SameRow (g : Geometry) (y : ℤ) (before t : UiTerminal RowRing) : Prop :=
  ∀ x < g.columns.toNat, t.shown g y x = before.shown g y x

instance : Decidable (SameRow g y before t) := inferInstanceAs (Decidable (∀ _ < _, _))

/-- The live screen is displayed at its own place, or not at all. -/
def InPlace (g : Geometry) (t : UiTerminal RowRing) : Prop := t.view = 0 ∨ g.rows ≤ t.view

instance : Decidable (t.InPlace g) := inferInstanceAs (Decidable (_ ∨ _))

/-- The row is to be repainted; or it was not before either, and is as it was if `announces`. -/
structure Kept (g : Geometry) (announces : Prop) (y : ℤ) (before t : UiTerminal RowRing) :
    Prop where
  nonneg : 0 ≤ y
  lt : y < g.rows
  place : announces → before.InPlace g
  valid : t.grid.Valid g
  view_le : t.view ≤ t.grid.used - g.rows
  row : t.Dirty y ∨ ¬ before.Dirty y ∧ t.view = before.view ∧ (announces → SameRow g y before t)

lemma Dirty.touchRows (h : t.Dirty y) (start finish : ℤ) :
    (t.touchRows g start finish).Dirty y := by
  obtain ⟨htop, hbottom⟩ := h
  simp only [UiTerminal.touchRows, Dirty]
  split_ifs <;> (try simp only) <;> omega

lemma dirty_touchRows {start finish : ℤ} (hy : 0 ≤ y) (hy' : y < g.rows) (hstart : start ≤ y)
    (hfinish : y < finish) : (t.touchRows g start finish).Dirty y := by
  simp only [UiTerminal.touchRows, Dirty]
  split_ifs <;> (try simp only) <;> omega

section

variable {announces : Prop}

lemma Kept.ite {c : Prop} [Decidable c] {t' : UiTerminal RowRing} (h : Kept g announces y before t)
    (h' : Kept g announces y before t') : Kept g announces y before (if c then t else t') := by
  split_ifs
  · exact h
  · exact h'

variable (h : Kept g announces y before t)
include h

/-- A change to one row of the screen that is then touched. -/
lemma Kept.edit {grid : RowRing} {z : ℤ} (hz : 0 ≤ z) (hz' : z < g.rows)
    (hval : grid.Valid g) (hused : grid.used = t.grid.used)
    (hcell : ∀ j x, 0 ≤ j → j < t.grid.used → 0 ≤ x → x < g.columns →
      j ≠ t.grid.used - g.rows + z → grid.cell g j x = t.grid.cell g j x) :
    Kept g announces y before ({ t with grid := grid }.touchRows g z (z + 1)) := by
  have hy := h.nonneg
  have hy' := h.lt
  have hview' := h.view_le
  refine { h with
    valid := by rwa [touchRows_grid]
    view_le := by rwa [touchRows_view, touchRows_grid, hused]
    row := ?_ }
  by_cases hyz : y = z
  · exact .inl (dirty_touchRows hy hy' hyz.ge (by omega))
  refine h.row.imp (fun hdirty => Dirty.touchRows (t := { t with grid := grid }) hdirty _ _) ?_
  rintro ⟨hclean, hview, hsame⟩
  refine ⟨hclean, (touchRows_view ..).trans hview, fun ha x hx => ?_⟩
  have hplace := h.place ha
  unfold InPlace at hplace
  rw [← hsame ha x hx]
  simp only [shown, touchRows_grid, touchRows_view]
  rw [hused, hcell _ x (by omega) (by omega) (by omega) (by omega) (by omega)]

/-- Once everything is to be repainted, nothing has to be as it was. -/
lemma Kept.scrollUp : Kept g announces y before (scrollUp g (ringSurface g) t) := by
  obtain ⟨hval, -, -⟩ := h.valid.scrollUp t.blank
  refine { h with valid := ?_, view_le := ?_, row := .inl ?_ }
  · simp only [UiTerminal.scrollUp, touchAll, touchRows_grid]
    exact hval
  · simp only [UiTerminal.scrollUp, touchAll, touchRows_grid]
    exact Int.sub_nonneg_of_le hval.rows_le
  · exact dirty_touchRows (t := { t with grid := (ringSurface g).scroll t.grid t.blank })
      h.nonneg h.lt h.nonneg h.lt

lemma Kept.scrollToCursor : Kept g announces y before (scrollToCursor g (ringSurface g) t) := by
  unfold UiTerminal.scrollToCursor
  generalize (t.cursorY - g.rows + 1).toNat = n
  induction n with
  | zero => exact h
  | succ n ih =>
    rw [Function.iterate_succ_apply']
    exact { ih.scrollUp with }

lemma Kept.applyCode (code : ℤ) : Kept g announces y before (t.applyCode code) := by
  repeat' apply Kept.ite
  all_goals exact { h with }

lemma Kept.applySgr : Kept g announces y before t.applySgr := by
  unfold UiTerminal.applySgr
  split_ifs with hnone
  · exact h.applyCode 0
  · clear hnone
    generalize List.range t.parameterCount = codes
    induction codes generalizing t with
    | nil => exact h
    | cons i codes ih => exact ih (h.applyCode _)

lemma Kept.eraseInLine (hin : Inside g t) (mode : ℤ) :
    Kept g announces y before (eraseInLine g (ringSurface g) t mode) := by
  have hrows := h.valid.rows_le
  have hrow := hin.y_nonneg
  have hrow' := hin.y_lt
  obtain ⟨hval, -, hused, hcell⟩ :=
    h.valid.eraseCells (i := t.grid.used - g.rows + t.cursorY) (by omega) (by omega)
      (if mode = 0 then t.cursorX else 0) (if mode = 1 then t.cursorX + 1 else g.columns) t.blank
  refine h.edit hrow hrow' hval hused fun j x hj hj' hx hx' hne => ?_
  exact (hcell j x hj hj' hx hx').trans (if_neg fun hsame => hne hsame.1)

/-- A change to one row that nothing is said about. -/
lemma Kept.erase (hsilent : ¬ announces) {z : ℤ} (hz : 0 ≤ z) (hz' : z < g.rows)
    (start finish : ℤ) : Kept g announces y before
      { t with grid := (ringSurface g).erase t.grid z start finish t.blank } := by
  have hrows := h.valid.rows_le
  obtain ⟨hval, -, hused, -⟩ := h.valid.eraseCells (i := t.grid.used - g.rows + z) (by omega)
    (by omega) start finish t.blank
  refine { h with valid := hval, view_le := hused.symm ▸ h.view_le, row := h.row.imp_right ?_ }
  exact fun ⟨hclean, hview, _⟩ => ⟨hclean, hview, fun ha => absurd ha hsilent⟩

lemma Kept.clearScreenRows (hsilent : ¬ announces) {start finish : ℤ} (hstart : 0 ≤ start)
    (hfinish : finish ≤ g.rows) :
    Kept g announces y before (clearScreenRows g (ringSurface g) t start finish) := by
  refine List.foldlRecOn _ _ h fun t ht i hi => ?_
  rw [List.mem_range] at hi
  exact ht.erase hsilent (by omega) (by omega) 0 g.columns

lemma Kept.eraseInDisplay (hsilent : ¬ announces) (hin : Inside g t) (mode : ℤ) :
    Kept g announces y before (eraseInDisplay g (ringSurface g) t mode) := by
  have hrow := hin.y_nonneg
  have hrow' := hin.y_lt
  have hbelow := (h.erase hsilent hrow hrow' t.cursorX g.columns).clearScreenRows hsilent
    (show 0 ≤ t.cursorY + 1 by omega) (le_refl _)
  have habove := h.clearScreenRows hsilent (le_refl 0) hrow'.le
  have hcursor := (clearScreenRows_cursor (g := g) (F := ringSurface g) (t := t) 0 t.cursorY).2
  have hpart := habove.erase hsilent (hcursor.symm ▸ hrow) (hcursor.symm ▸ hrow') 0
    ((UiTerminal.clearScreenRows g (ringSurface g) t 0 t.cursorY).cursorX + 1)
  exact Kept.ite hbelow (Kept.ite hpart (h.clearScreenRows hsilent (le_refl 0) (le_refl _)))

lemma Kept.executeCsi (hin : Inside g t) {final : UInt8} (hfinal : announces → final ≠ 0x4a) :
    Kept g announces y before (executeCsi g (ringSurface g) t final) := by
  have hline := h.eraseInLine hin (t.parameter 0 0)
  have hsgr := h.applySgr
  have hexecuted : Kept g announces y before (executeFinal g (ringSurface g) t final) := by
    by_cases hJ : final = 0x4a
    · subst hJ
      exact h.eraseInDisplay (fun ha => hfinal ha rfl) hin _
    unfold executeFinal
    rw [if_neg hJ]
    repeat' (first | assumption | apply Kept.ite)
    all_goals exact { h with }
  exact { hexecuted with }

lemma Kept.putCharacter (hin : Inside g t) (c : UInt8) :
    Kept g announces y before (putCharacter g (ringSurface g) t c) := by
  obtain ⟨hx, hx', hrow, hrow'⟩ := inside_wrapped (F := ringSurface g) hin
  have hwrapped : Kept g announces y before { t with cursorX := 0, cursorY := t.cursorY + 1 } :=
    { h with }
  have hscroll := (Kept.ite (c := t.cursorX ≥ g.columns) hwrapped h).scrollToCursor
  unfold UiTerminal.putCharacter
  simp only
  generalize UiTerminal.scrollToCursor g (ringSurface g) _ = t' at hscroll hx hx' hrow hrow'
  have hrows := hscroll.valid.rows_le
  obtain ⟨hval, -, hused, hcell⟩ :=
    hscroll.valid.store (i := t'.grid.used - g.rows + t'.cursorY) (by omega) (by omega) hx hx'
      (Cell.mk c t'.attributes t'.foreground t'.background)
  have hput := hscroll.edit hrow hrow' hval hused fun j x hj hj' hxj hxj' hne =>
    (hcell j x hj hj' hxj hxj').trans (if_neg fun hsame => hne hsame.1)
  exact { hput with }

lemma Kept.feedByte (hin : Inside g t) {c : UInt8}
    (hc : announces → ¬ (t.state = .csi ∧ c = 0x4a)) :
    Kept g announces y before (feedByte g (ringSurface g) t c) := by
  have hput := h.putCharacter hin c
  have hline : Kept g announces y before { t with cursorY := t.cursorY + 1 } := { h with }
  have hscroll := hline.scrollToCursor
  unfold UiTerminal.feedByte
  cases hstate : t.state with
  | csi =>
    have hcsi := h.executeCsi hin fun ha hJ => hc ha ⟨hstate, hJ⟩
    exact Kept.ite { h with } (Kept.ite (Kept.ite { h with } { h with })
      (Kept.ite (Kept.ite { h with } { h with }) { hcsi with }))
  | escape | osc | ground =>
    repeat' (first | assumption | apply Kept.ite)
    all_goals exact { h with }

end

/-! ## What bytes change -/

/-- The byte does not announce what it changes: it erases in the display, or the screen is displayed
out of its place. -/
def Silent (g : Geometry) (t : UiTerminal RowRing) (c : UInt8) : Prop :=
  t.state = .csi ∧ c = 0x4a ∨ ¬ t.InPlace g

instance {c : UInt8} : Decidable (t.Silent g c) := inferInstanceAs (Decidable (_ ∨ _))

/-- The row is changed by a byte that does not announce it, and is not among those to be repainted
when the byte comes. -/
def unannounced (g : Geometry) (y : ℤ) : UiTerminal RowRing → List UInt8 → Bool
  | _, [] => false
  | t, c :: bytes =>
    let t' := feedByte g (ringSurface g) t c
    (t.Silent g c ∧ ¬ t.Dirty y ∧ ¬ SameRow g y t t') || unannounced g y t' bytes

/-- A byte ends the last row of the screen. -/
def scrolls (g : Geometry) : UiTerminal RowRing → List UInt8 → Bool
  | _, [] => false
  | t, c :: bytes =>
    (t.state = .ground ∧ t.cursorY = g.rows - 1 ∧ (c = 0x0a ∨ 32 ≤ c ∧ g.columns ≤ t.cursorX)) ||
      scrolls g (feedByte g (ringSurface g) t c) bytes

lemma Alike.kept {u : UiTerminal Page} (hlike : Alike (Viewed g) t u) (hin : Inside g t)
    (hy : 0 ≤ y) (hy' : y < g.rows) (c : UInt8) :
    Kept g (¬ t.Silent g c) y t (feedByte g (ringSurface g) t c) := by
  obtain ⟨p, v, a, b, ⟨hshows, -, hview⟩, -⟩ := hlike
  have hstart : Kept g (¬ t.Silent g c) y t t :=
    { nonneg := hy
      lt := hy'
      place := fun hsilent => not_not.mp fun hplace => hsilent (.inr hplace)
      valid := hshows.valid
      view_le := hview
      row := (em _).imp_right fun hclean => ⟨hclean, rfl, fun _ _ _ => rfl⟩ }
  exact hstart.feedByte hin fun hsilent hJ => hsilent (.inl hJ)

/-- A row that is not to be repainted at the end is as it was at the beginning. -/
lemma row_feedBytes (hy : 0 ≤ y) (hy' : y < g.rows) (bytes : List UInt8) :
    ∀ {t : UiTerminal RowRing} {u : UiTerminal Page}, Alike (Viewed g) t u → Inside g t →
      unannounced g y t bytes = false →
        (feedBytes g (ringSurface g) t bytes).Dirty y ∨ ¬ t.Dirty y ∧
          (feedBytes g (ringSurface g) t bytes).view = t.view ∧
            SameRow g y t (feedBytes g (ringSurface g) t bytes) := by
  induction bytes with
  | nil => exact fun _ _ _ => (em _).imp_right fun hclean => ⟨hclean, rfl, fun _ _ => rfl⟩
  | cons c bytes ih =>
    intro t u hlike hin hnone
    rw [unannounced, Bool.or_eq_false_iff, decide_eq_false_iff_not] at hnone
    obtain ⟨hlike', hin'⟩ := feedByte_alike simulates_page hlike hin c
    refine (ih hlike' hin' hnone.2).imp_right fun ⟨hclean', hview', hsame'⟩ => ?_
    obtain ⟨hclean, hview, hsame⟩ := (hlike.kept hin hy hy' c).row.resolve_left hclean'
    refine ⟨hclean, hview'.trans hview, fun x hx => (hsame' x hx).trans ?_⟩
    by_cases hsilent : t.Silent g c
    · exact not_not.mp (fun hchanged => hnone.1 ⟨hsilent, hclean, hchanged⟩) x hx
    · exact hsame hsilent x hx

lemma dirty_scrollToCursor (hcursor : g.rows ≤ t.cursorY) (hy : 0 ≤ y) (hy' : y < g.rows) :
    (scrollToCursor g (ringSurface g) t).Dirty y := by
  obtain ⟨n, hn⟩ : ∃ n, (t.cursorY - g.rows + 1).toNat = n + 1 :=
    Nat.exists_eq_add_one.mpr (by omega)
  rw [scrollToCursor, hn, Function.iterate_succ_apply']
  generalize (fun _ => _)^[n] t = t'
  exact dirty_touchRows (t := { t' with grid := (ringSurface g).scroll t'.grid t'.blank })
    hy hy' hy hy'

/-- Once the screen scrolls, every row is to be repainted. -/
lemma dirty_of_scrolls (hy : 0 ≤ y) (hy' : y < g.rows) (bytes : List UInt8) :
    ∀ {t : UiTerminal RowRing} {u : UiTerminal Page}, Alike (Viewed g) t u → Inside g t →
      t.Dirty y ∨ scrolls g t bytes → (feedBytes g (ringSurface g) t bytes).Dirty y := by
  induction bytes with
  | nil => simp [scrolls, feedBytes]
  | cons c bytes ih =>
    intro t u hlike hin hor
    obtain ⟨hlike', hin'⟩ := feedByte_alike simulates_page hlike hin c
    refine ih hlike' hin' ?_
    rw [scrolls, Bool.or_eq_true, decide_eq_true_eq] at hor
    rcases hor with hdirty | ⟨hground, hlast, hends⟩ | hrest
    · exact .inl ((hlike.kept hin hy hy' c).row.resolve_right fun hclean => hclean.1 hdirty)
    · refine .inl ?_
      have hnext : g.rows ≤ t.cursorY + 1 := by omega
      unfold UiTerminal.feedByte
      rw [hground]
      rcases hends with rfl | ⟨hprints, hfull⟩
      · exact dirty_scrollToCursor hnext hy hy'
      · have hput : feedGround g (ringSurface g) t c = putCharacter g (ringSurface g) t c := by
          unfold feedGround
          grind
        have hscrolled := dirty_scrollToCursor
          (t := { t with cursorX := 0, cursorY := t.cursorY + 1 }) hnext hy hy'
        simp only [hput, putCharacter, ge_iff_le, hfull, if_true]
        generalize scrollToCursor g (ringSurface g) _ = t' at hscrolled
        change (touchRows g _ _ _).Dirty y
        apply Dirty.touchRows
        exact hscrolled
    · exact .inr hrest

/-! ## Pictures -/

lemma feed_fst (bytes : List UInt8) : (t.feed g bytes).1 =
      ((feedBytes g (ringSurface g) t bytes).touchRows g t.cursorY (t.cursorY + 1)).touchRows g
        (feedBytes g (ringSurface g) t bytes).cursorY
        ((feedBytes g (ringSurface g) t bytes).cursorY + 1) := by
  simp only [feed]
  split_ifs
  · rfl
  · rfl

lemma feed_snd (bytes : List UInt8) : (t.feed g bytes).2 =
      if (t.feed g bytes).1.dirtyTop ≥ (t.feed g bytes).1.dirtyBottom then none
      else some ⟨0, (t.feed g bytes).1.dirtyTop * g.cellHeight, g.width,
        ((t.feed g bytes).1.dirtyBottom - (t.feed g bytes).1.dirtyTop) * g.cellHeight⟩ := by
  rw [feed_fst]
  simp only [feed]
  split_ifs
  · rfl
  · rfl

lemma picture_eq {y : ℤ} (hy : 0 ≤ y) (hy' : y < g.rows) (hview : 0 ≤ t.view)
    (hview' : t.view ≤ t.grid.used - g.rows) : t.picture g y =
      ⟨(List.range g.columns.toNat).map fun (x : ℕ) => t.shown g y x,
        if t.cursorVisible ∧ t.view = 0 ∧ t.cursorY = y then some t.cursorX else none⟩ := by
  unfold picture
  rw [if_neg (by omega)]
  rfl

end UiTerminal

namespace TerminalWidget

open UiTerminal

variable {g : Geometry} {s s' : TerminalWidget} {y : ℤ} {fed : List UInt8}

/-- All of the row that is inside the widget lies in the rectangles. -/
def Covered (g : Geometry) (rects : List UiRect) (y : ℤ) : Prop :=
  ∀ p, y * g.cellHeight ≤ p → p < (y + 1) * g.cellHeight → p < g.height →
    ∃ rect ∈ rects, rect.x ≤ 0 ∧ g.width ≤ rect.x + rect.width ∧
      rect.y ≤ p ∧ p < rect.y + rect.height

/-- Every row that does not look as it was last drawn lies in what has been invalidated since. -/
def Complete (g : Geometry) (s : TerminalWidget) : Prop :=
  ∀ y, 0 ≤ y → y < g.rows → s.terminal.picture g y ≠ s.painted y → Covered g s.invalidated y

/-- What is fed makes the screen scroll, or changes no row without announcing it. -/
def Announced (g : Geometry) (s : TerminalWidget) : WidgetEvent → Prop
  | .feed bytes =>
    scrolls g s.terminal bytes ∨ ∀ n < g.rows.toNat, unannounced g n s.terminal bytes = false
  | _ => True

instance (event : WidgetEvent) : Decidable (Announced g s event) := by
  cases event <;> unfold Announced <;> infer_instance

lemma Covered.mono {rects rects' : List UiRect} (h : Covered g rects y)
    (hsub : ∀ rect ∈ rects, rect ∈ rects') : Covered g rects' y := by
  intro p hp hp' hheight
  obtain ⟨rect, hmem, hrect⟩ := h p hp hp' hheight
  exact ⟨rect, hsub rect hmem, hrect⟩

lemma covered_wholeWidget (rects : List UiRect) (hy : 0 ≤ y) :
    Covered g (rects ++ [wholeWidget g]) y := by
  intro p hp _ hheight
  have hpos := mul_nonneg hy (le_of_lt g.cellHeight_pos)
  refine ⟨wholeWidget g, List.mem_append_right _ (List.mem_singleton_self _), ?_⟩
  simp only [wholeWidget]
  omega

lemma covered_dirty (rects : List UiRect) {top bottom : ℤ} (htop : top ≤ y) (hbottom : y < bottom) :
    Covered g (rects ++ [⟨0, top * g.cellHeight, g.width, (bottom - top) * g.cellHeight⟩]) y := by
  intro p hp hp' _
  have hheight := le_of_lt g.cellHeight_pos
  have hfirst := mul_le_mul_of_nonneg_right htop hheight
  have hlast := mul_le_mul_of_nonneg_right (show y + 1 ≤ bottom by omega) hheight
  refine ⟨_, List.mem_append_right _ (List.mem_singleton_self _), ?_⟩
  simp only [Int.sub_mul]
  omega

lemma picture_feed {bytes : List UInt8} (h : Follows g s fed)
    (hannounced : Announced g s (.feed bytes)) (hy : 0 ≤ y) (hy' : y < g.rows)
    (hclean : ¬ (s.terminal.feed g bytes).1.Dirty y) :
    (s.terminal.feed g bytes).1.picture g y = s.terminal.picture g y := by
  obtain ⟨hlike, hin⟩ := h
  have hrefines := hlike.refines hin
  obtain ⟨hlike', hin'⟩ := feedBytes_alike simulates_page hlike hin bytes
  have hrefines' := hlike'.refines hin'
  rw [feed_fst] at hclean ⊢
  have hclean' : ¬ (feedBytes g (ringSurface g) s.terminal bytes).Dirty y := fun hdirty =>
    hclean ((hdirty.touchRows _ _).touchRows _ _)
  have hnone : unannounced g y s.terminal bytes = false := by
    rw [← Int.toNat_of_nonneg hy]
    refine hannounced.resolve_left (fun hscrolls => hclean' ?_) y.toNat (by omega)
    exact dirty_of_scrolls hy hy' bytes hlike hin (.inr hscrolls)
  obtain ⟨-, hsameView, hsame⟩ :=
    (row_feedBytes hy hy' bytes hlike hin hnone).resolve_left hclean'
  generalize feedBytes g (ringSurface g) s.terminal bytes = t at *
  -- The rows the cursor left and arrived at are touched, so it is on neither side.
  have hleft : s.terminal.cursorY ≠ y := by
    rintro rfl
    exact hclean (Dirty.touchRows (dirty_touchRows hy hy' (le_refl _) (by omega)) _ _)
  have harrived : t.cursorY ≠ y := by
    rintro rfl
    exact hclean (dirty_touchRows hy hy' (le_refl _) (by omega))
  rw [picture_eq hy hy' hrefines.view_mem.1 hrefines.view_mem.2,
    picture_eq hy hy' (by simpa using hrefines'.view_mem.1) (by simpa using hrefines'.view_mem.2)]
  simp only [touchRows_cursorY, harrived, hleft, and_false, if_false]
  congr 1
  refine List.map_congr_left fun x hx => ?_
  rw [List.mem_range] at hx
  simp only [shown, touchRows_grid, touchRows_view]
  exact hsame x hx

lemma redrawn_of_mem {clipTop clipBottom p : ℤ} (hy : 0 ≤ y) (hy' : y < g.rows) (hp0 : 0 ≤ p)
    (hp : y * g.cellHeight ≤ p) (hp' : p < (y + 1) * g.cellHeight) (htop : clipTop ≤ p)
    (hbottom : p < clipBottom) : redrawn g clipTop clipBottom y = true := by
  have hheight := g.cellHeight_pos
  have hfirst : clipTop.tdiv g.cellHeight ≤ y := by
    by_cases hneg : clipTop ≤ 0
    · have hflip : clipTop.tdiv g.cellHeight = -(-clipTop).tdiv g.cellHeight := by
        rw [Int.neg_tdiv, Int.neg_neg]
      have := Int.tdiv_nonneg (show 0 ≤ -clipTop by omega) (le_of_lt hheight)
      omega
    · rw [Int.tdiv_eq_ediv_of_nonneg (by omega)]
      exact Int.le_of_lt_add_one ((Int.ediv_lt_iff_lt_mul hheight).mpr (by omega))
  have hlast : y + 1 ≤ (clipBottom + g.cellHeight - 1).tdiv g.cellHeight := by
    rw [Int.tdiv_eq_ediv_of_nonneg (by omega), Int.le_ediv_iff_mul_le hheight, Int.add_mul]
    omega
  rw [redrawn, decide_eq_true_eq]
  omega

lemma Complete.step {event : WidgetEvent} (h : Complete g s) (hf : Follows g s fed)
    (hannounced : Announced g s event) (hstep : step g s event = some s') : Complete g s' := by
  cases event with
  | feed bytes =>
    obtain rfl : _ = s' := Option.some.inj hstep
    intro y hy hy' hdiffers
    by_cases hdirty : (s.terminal.feed g bytes).1.Dirty y
    · obtain ⟨htop, hbottom⟩ := hdirty
      rw [feed_snd, if_neg (by omega)]
      exact covered_dirty _ htop hbottom
    · have hsame := picture_feed hf hannounced hy hy' hdirty
      refine (h y hy hy' fun heq => hdiffers ?_).mono fun rect hrect => List.mem_append_left _ hrect
      exact hsame.trans heq
  | wheel wheel =>
    simp only [TerminalWidget.step] at hstep
    split_ifs at hstep
    · cases hstep
      exact h
    · cases hstep
      exact fun y hy _ _ => covered_wholeWidget _ hy
  | key pageUp pageDown =>
    obtain rfl : _ = s' := Option.some.inj hstep
    intro y hy hy' hdiffers
    by_cases hpage : pageUp = true ∨ pageDown = true ∨ s.terminal.view ≠ 0
    · have hwhole : (s.terminal.pressKey g pageUp pageDown).2 = true := by
        simp only [pressKey]
        split_ifs <;> simp_all
      simp only [hwhole, if_true]
      exact covered_wholeWidget _ hy
    · simp only [not_or, not_not, Bool.not_eq_true] at hpage
      have hsame : s.terminal.pressKey g pageUp pageDown = (s.terminal, false) := by
        simp [pressKey, hpage]
      simp only [hsame] at hdiffers ⊢
      simpa using h y hy hy' hdiffers
  | paint clipTop clipBottom =>
    simp only [TerminalWidget.step] at hstep
    split_ifs at hstep with hclip
    cases hstep
    intro y hy hy' hdiffers p hp hp' hheight
    have hold : ¬ redrawn g clipTop clipBottom y := by
      intro hredrawn
      simp only [hredrawn, if_true] at hdiffers
      exact hdiffers rfl
    simp only [hold] at hdiffers
    -- A row outside the clip was covered by rectangles inside the clip, so none of it is visible.
    obtain ⟨rect, hmem, -, -, hrect, hrect'⟩ := h y hy hy' hdiffers p hp hp' hheight
    obtain ⟨htop, hbottom⟩ := hclip rect hmem
    have hp0 : 0 ≤ p := le_trans (mul_nonneg hy (le_of_lt g.cellHeight_pos)) hp
    exact absurd (redrawn_of_mem hy hy' hp0 hp hp' (by omega) (by omega)) hold

/-- **Every changed row is invalidated.**  In every run in which what is fed scrolls the screen, or
neither erases in the display nor finds the screen displayed out of its place so as to change a row
that is not to be repainted anyway, every row that differs from what was last drawn of it lies
inside the rectangles invalidated since the last paint. -/
theorem repaint_complete (g : Geometry) (events : List WidgetEvent) (s : TerminalWidget)
    (hannounced : Along (step g) (Announced g) (initial g) events)
    (hrun : run (step g) (initial g) events = some s) : Complete g s := by
  have hinitial : Complete g (initial g) := fun y _ _ hdiffers => absurd rfl hdiffers
  have hkept : ∀ s event s', (Complete g s ∧ ∃ fed, Follows g s fed) → Announced g s event →
      step g s event = some s' → Complete g s' ∧ ∃ fed, Follows g s' fed := by
    rintro s event s' ⟨hcomplete, fed, hfollows⟩ hannounced hstep
    exact ⟨hcomplete.step hfollows hannounced hstep, _, hfollows.step event hstep⟩
  have hinvariant := run_invariant hkept events (initial g) s ⟨hinitial, [], follows_initial⟩
    hannounced hrun
  exact hinvariant.1

/-- A line is printed and painted, the screen scrolls, and the reader pages back and forth. -/
theorem repaint_complete_session : ∃ s,
    run (step tinyScreen) (initial tinyScreen)
      [.feed [0x61, 0x0a, 0x62, 0x0a], .paint 0 32, .key true false, .key false false,
        .feed [0x1b, 0x5b, 0x48, 0x63, 0x1b, 0x5b, 0x4b]] = some s ∧
    s.invalidated.length = 3 ∧ Complete tinyScreen s :=
  exists_run_of_map (fun s => s.invalidated.length) 3 (by decide +kernel) fun s hs hrects =>
    ⟨hrects, repaint_complete tinyScreen _ s (by decide +kernel) hs⟩

/-- An erased display stays visible: with the cursor on the second row, clearing the screen
invalidates the second row only, while the first one has changed as well. -/
theorem erase_unannounced : ∃ s,
    run (step tinyScreen) (initial tinyScreen)
      [.feed [0x61, 0x0a], .paint 0 32, .feed [0x1b, 0x5b, 0x32, 0x4a]] = some s ∧
    ¬ Complete tinyScreen s := by
  refine exists_run_of_map
    (fun s => (s.invalidated, decide (s.terminal.picture tinyScreen 0 = s.painted 0)))
    ([⟨0, 16, 16, 16⟩], false) (by decide +kernel) fun s _ hseen hcomplete => ?_
  obtain ⟨hrects, hpicture⟩ := Prod.mk.inj hseen
  have hcovered := hcomplete 0 (le_refl 0) (by decide) (of_decide_eq_false hpicture)
  rw [hrects] at hcovered
  obtain ⟨rect, hmem, -, -, hbelow, -⟩ := hcovered 0 (by decide) (by decide) (by decide)
  obtain rfl := List.mem_singleton.mp hmem
  exact absurd hbelow (by decide)

end TerminalWidget

end ShitOs
