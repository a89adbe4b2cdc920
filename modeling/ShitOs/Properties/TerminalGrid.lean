import ShitOs.Framework.Transition
import ShitOs.Construction.UiTerminal
import Mathlib.Algebra.Order.Group.Int
import Mathlib.Data.Int.Order.Basic
import Mathlib.Tactic.Linarith

/-!
# The ring of rows is the end of an endless page

The terminal widget keeps its rows in a ring: scrolling moves an index, and once the ring is full
the oldest row becomes the new bottom line.  What this stands for is simpler: a list of rows
(`Page`) to which every scroll appends a blank one, and the screen is the last `rows` of it.

The proof has two halves that do not know of each other.  `Valid.store`, `Valid.eraseCells` and
`Valid.scrollUp` say what the three operations do to the cells of the ring, addressed as the source
addresses them; `Shows` relates the ring to the page and is kept by all three.  The other half is
about the parser.  `Simulates` asks of a relation between two grids that the operations keep it, and
`feedBytes_alike` concludes that two terminals that are fed the same bytes over such grids stay in
step.  That the operations are only ever asked for rows and columns of the screen is part of the
same induction (`Inside`).
-/

namespace ShitOs

open Transition

/-! ## Sizes -/

namespace Geometry

variable (g : Geometry)

lemma columns_pos : 0 < g.columns := by
  unfold columns MAX_COLUMNS
  omega

lemma rows_pos : 0 < g.rows := by
  unfold rows MAX_ROWS
  omega

lemma rows_le_storageRows : g.rows ≤ g.storageRows := by
  unfold storageRows
  split_ifs <;> omega

lemma storageRows_pos : 0 < g.storageRows :=
  lt_of_lt_of_le g.rows_pos g.rows_le_storageRows

end Geometry

/-! ## The ring -/

namespace RowRing

variable {g : Geometry} {r : RowRing} {i x : ℤ}

/-- The indices are where they belong, and nothing was written outside. -/
structure Valid (g : Geometry) (r : RowRing) : Prop where
  top_nonneg : 0 ≤ r.top
  top_lt : r.top < g.storageRows
  rows_le : g.rows ≤ r.used
  used_le : r.used ≤ g.storageRows
  inside : r.outside = false

/-- The cell `x` of the row `i` of the ring. -/
def cell (g : Geometry) (r : RowRing) (i x : ℤ) : Cell := r.storage (r.rowAt g i + x)

section

variable (h : r.Valid g) (hi : 0 ≤ i)
include h hi

lemma Valid.rowAt_eq : r.rowAt g i = (r.top + i) % g.storageRows * g.columns := by
  have := h.top_nonneg
  rw [rowAt, Int.tmod_eq_emod_of_nonneg (by omega)]

lemma Valid.rowAt_mem (hx : 0 ≤ x) (hx' : x < g.columns) :
    0 ≤ r.rowAt g i + x ∧ r.rowAt g i + x < g.storageRows * g.columns := by
  have hlow := Int.emod_nonneg (r.top + i) (ne_of_gt g.storageRows_pos)
  have hhigh := Int.emod_lt_of_pos (r.top + i) g.storageRows_pos
  rw [h.rowAt_eq hi]
  constructor
  · have := mul_nonneg hlow (le_of_lt g.columns_pos)
    omega
  · nlinarith [g.columns_pos]

lemma Valid.eq_of_rowAt_eq {j y : ℤ} (hj : 0 ≤ j)
    (hi' : i < r.used) (hj' : j < r.used) (hx : 0 ≤ x) (hx' : x < g.columns) (hy : 0 ≤ y)
    (hy' : y < g.columns) (heq : r.rowAt g i + x = r.rowAt g j + y) : i = j ∧ x = y := by
  have hused := h.used_le
  rw [h.rowAt_eq hi, h.rowAt_eq hj] at heq
  have hsplit : ∀ a z : ℤ, 0 ≤ z → z < g.columns →
      (a * g.columns + z) / g.columns = a ∧ (a * g.columns + z) % g.columns = z := by
    intro a z hz hz'
    rw [Int.add_comm, Int.add_mul_ediv_right _ _ (ne_of_gt g.columns_pos),
      Int.ediv_eq_zero_of_lt hz hz', Int.add_mul_emod_self_right, Int.emod_eq_of_lt hz hz']
    exact ⟨Int.zero_add a, rfl⟩
  obtain ⟨hrow, hcolumn⟩ := hsplit ((r.top + i) % g.storageRows) x hx hx'
  obtain ⟨hrow', hcolumn'⟩ := hsplit ((r.top + j) % g.storageRows) y hy hy'
  rw [heq] at hrow hcolumn
  refine ⟨?_, hcolumn.symm.trans hcolumn'⟩
  have hmod : (r.top + i) % g.storageRows = (r.top + j) % g.storageRows := hrow.symm.trans hrow'
  have hzero : (i - j) % g.storageRows = 0 := by
    rw [show i - j = r.top + i - (r.top + j) by omega, Int.sub_emod, hmod, Int.sub_self,
      Int.zero_emod]
  obtain ⟨k, hk⟩ := Int.dvd_of_emod_eq_zero hzero
  have hk0 : k = 0 := by
    by_contra hne
    obtain hpos | hneg : 1 ≤ k ∨ k ≤ -1 := by omega
    · nlinarith [g.storageRows_pos]
    · nlinarith [g.storageRows_pos]
  subst hk0
  omega

lemma Valid.store (hi' : i < r.used) (hx : 0 ≤ x) (hx' : x < g.columns) (c : Cell) :
    (r.store g (r.rowAt g i + x) c).Valid g ∧
      (r.store g (r.rowAt g i + x) c).top = r.top ∧
      (r.store g (r.rowAt g i + x) c).used = r.used ∧
      ∀ j z, 0 ≤ j → j < r.used → 0 ≤ z → z < g.columns →
        (r.store g (r.rowAt g i + x) c).cell g j z = if j = i ∧ z = x then c else r.cell g j z := by
  rw [RowRing.store, if_pos (h.rowAt_mem hi hx hx')]
  refine ⟨{ h with }, rfl, rfl, fun j z hj hj' hz hz' => ?_⟩
  show Function.update r.storage (r.rowAt g i + x) c (r.rowAt g j + z) = _
  by_cases hsame : j = i ∧ z = x
  · rw [if_pos hsame, hsame.1, hsame.2, Function.update_self]
  · rw [if_neg hsame, Function.update_of_ne]
    · rfl
    · exact fun heq => hsame (h.eq_of_rowAt_eq hj hi hj' hi' hz hz' hx hx' heq)

/-- Erasing fills the part of the row that is on the screen, and nothing else. -/
lemma Valid.eraseCells (hi' : i < r.used) (start finish : ℤ) (c : Cell) :
    (r.eraseCells g (r.rowAt g i) start finish c).Valid g ∧
      (r.eraseCells g (r.rowAt g i) start finish c).top = r.top ∧
      (r.eraseCells g (r.rowAt g i) start finish c).used = r.used ∧
      ∀ j z, 0 ≤ j → j < r.used → 0 ≤ z → z < g.columns →
        (r.eraseCells g (r.rowAt g i) start finish c).cell g j z =
          if j = i ∧ start ≤ z ∧ z < finish then c else r.cell g j z := by
  -- After `n` cells the erased part ends `n` columns behind its start.
  have hprogress : ∀ n : ℕ, n = 0 ∨ max start 0 + n ≤ g.columns →
      let after := (List.range n).foldl (fun (r' : RowRing) (k : ℕ) =>
        r'.store g (r.rowAt g i + (max start 0 + k)) c) r
      after.Valid g ∧ after.top = r.top ∧ after.used = r.used ∧
        ∀ j z, 0 ≤ j → j < r.used → 0 ≤ z → z < g.columns →
          after.cell g j z =
            if j = i ∧ max start 0 ≤ z ∧ z < max start 0 + n then c else r.cell g j z := by
    intro n
    induction n with
    | zero =>
      intro _
      refine ⟨h, rfl, rfl, fun j z _ _ _ _ => ?_⟩
      rw [if_neg (by omega)]
      rfl
    | succ n ih =>
      intro hn
      obtain ⟨hval, htop, hused, hcell⟩ := ih (by omega)
      rw [List.range_succ, List.foldl_append, List.foldl_cons, List.foldl_nil]
      generalize (List.range n).foldl _ r = after at hval htop hused hcell
      have hrow : r.rowAt g i = after.rowAt g i := by rw [rowAt, rowAt, htop]
      rw [hrow]
      obtain ⟨hval', htop', hused', hcell'⟩ :=
        hval.store hi (hused ▸ hi') (x := max start 0 + n) (by omega) (by omega) c
      refine ⟨hval', htop'.trans htop, hused'.trans hused, fun j z hj hj' hz hz' => ?_⟩
      rw [hcell' j z hj (hused ▸ hj') hz hz', hcell j z hj hj' hz hz']
      grind
  unfold RowRing.eraseCells
  obtain ⟨hval, htop, hused, hcell⟩ :=
    hprogress (min finish g.columns - max start 0).toNat (by omega)
  refine ⟨hval, htop, hused, fun j z hj hj' hz hz' => ?_⟩
  rw [hcell j z hj hj' hz hz']
  refine if_congr ?_ rfl rfl
  omega

end

/-- A scroll moves every row up by one and adds an empty one at the bottom. -/
lemma Valid.scrollUp (h : r.Valid g) (c : Cell) : (r.scrollUp g c).Valid g ∧
      (r.scrollUp g c).used = min (r.used + 1) g.storageRows ∧
      ∀ j z, 0 ≤ j → j < (r.scrollUp g c).used → 0 ≤ z → z < g.columns →
        (r.scrollUp g c).cell g j z =
          if j = (r.scrollUp g c).used - 1 then c
          else r.cell g (j + (r.used + 1 - (r.scrollUp g c).used)) z := by
  have htop := h.top_nonneg
  have hrows := g.rows_pos
  have hle := h.rows_le
  have hstorage := g.storageRows_pos
  -- The ring with its new row, before that row is cleared.
  obtain ⟨moved, hmoved, hval, hused, hrow⟩ : ∃ moved : RowRing,
      r.scrollUp g c = moved.clearRow g (moved.screenRow g (g.rows - 1)) c ∧ moved.Valid g ∧
        moved.used = min (r.used + 1) g.storageRows ∧
        ∀ j z, 0 ≤ j → moved.cell g j z = r.cell g (j + (r.used + 1 - moved.used)) z := by
    by_cases hroom : r.used < g.storageRows
    · refine ⟨{ r with used := r.used + 1 }, by rw [RowRing.scrollUp, if_pos hroom], ?_, ?_, ?_⟩
      · exact { h with rows_le := by show g.rows ≤ r.used + 1; omega, used_le := hroom }
      · show r.used + 1 = _
        omega
      · intro j z hj
        rw [Int.sub_self, Int.add_zero]
        rfl
    · refine ⟨{ r with top := (r.top + 1).tmod g.storageRows },
        by rw [RowRing.scrollUp, if_neg hroom], ?_, ?_, ?_⟩
      · have hmod := Int.tmod_eq_emod_of_nonneg (b := g.storageRows) (show 0 ≤ r.top + 1 by omega)
        refine { h with top_nonneg := ?_, top_lt := ?_ }
        · show 0 ≤ (r.top + 1).tmod g.storageRows
          exact hmod ▸ Int.emod_nonneg _ (ne_of_gt g.storageRows_pos)
        · show (r.top + 1).tmod g.storageRows < _
          exact hmod ▸ Int.emod_lt_of_pos _ g.storageRows_pos
      · have := h.used_le
        show r.used = _
        omega
      · intro j z hj
        show r.storage (((r.top + 1).tmod g.storageRows + j).tmod g.storageRows * g.columns + z) =
          r.storage ((r.top + (j + (r.used + 1 - r.used))).tmod g.storageRows * g.columns + z)
        rw [Int.tmod_eq_emod_of_nonneg (show 0 ≤ r.top + 1 by omega),
          Int.tmod_eq_emod_of_nonneg (by
            have := Int.emod_nonneg (r.top + 1) (ne_of_gt g.storageRows_pos)
            omega),
          Int.tmod_eq_emod_of_nonneg (by omega), Int.emod_add_emod]
        congr 4
        omega
  have hlast : moved.screenRow g (g.rows - 1) = moved.rowAt g (moved.used - 1) := by
    rw [screenRow]
    congr 1
    omega
  rw [hmoved, clearRow, hlast]
  obtain ⟨hval', -, hused', hcell⟩ := hval.eraseCells (i := moved.used - 1) (by omega) (by omega)
    0 g.columns c
  refine ⟨hval', hused'.trans hused, fun j z hj hj' hz hz' => ?_⟩
  rw [hused'] at hj' ⊢
  rw [hcell j z hj hj' hz hz', hrow j z hj]
  refine if_congr ?_ rfl rfl
  omega

lemma valid_fresh (c : Cell) : (fresh g c).Valid g where
  top_nonneg := le_refl 0
  top_lt := g.storageRows_pos
  rows_le := le_refl g.rows
  used_le := g.rows_le_storageRows
  inside := rfl

end RowRing

/-! ## The endless page

What the ring stands for: a list of rows, the oldest first, of which the screen shows the last ones.
-/

/-- A list of rows that only grows. -/
structure Page where
  lines : List (ℤ → Cell)

namespace Page

variable (g : Geometry) (p : Page)

/-- The cell `x` of the row `i`, if there is such a row. -/
def cell (i x : ℤ) : Option Cell := p.lines[i.toNat]?.map fun line => line x

/-- A row of the screen is changed. -/
def edit (y : ℤ) (change : (ℤ → Cell) → ℤ → Cell) : Page :=
  ⟨p.lines.modify (p.lines.length - g.rows + y).toNat change⟩

/-- A page without history. -/
def fresh (c : Cell) : Page := ⟨List.replicate g.rows.toNat fun _ => c⟩

end Page

/-- What the terminal does to an endless page: a scroll appends a blank row. -/
def pageSurface (g : Geometry) : Surface Page where
  scroll p c := ⟨p.lines ++ [fun _ => c]⟩
  erase p y start finish c := p.edit g y fun line x => if start ≤ x ∧ x < finish then c else line x
  put p y x c := p.edit g y fun line => Function.update line x c

/-- The ring holds the last rows of the page, as many as fit. -/
structure Shows (g : Geometry) (r : RowRing) (p : Page) : Prop where
  valid : r.Valid g
  used : r.used = min (p.lines.length : ℤ) g.storageRows
  cell : ∀ i x, 0 ≤ i → i < r.used → 0 ≤ x → x < g.columns →
    p.cell (p.lines.length - r.used + i) x = some (r.cell g i x)

namespace Shows

variable {g : Geometry} {r : RowRing} {p : Page}

lemma fresh (c : Cell) : Shows g (RowRing.fresh g c) (Page.fresh g c) := by
  have hrows := g.rows_pos
  have hlen : ((Page.fresh g c).lines.length : ℤ) = g.rows := by
    rw [Page.fresh, List.length_replicate]
    omega
  refine ⟨RowRing.valid_fresh c, ?_, fun i x hi hi' _ _ => ?_⟩
  · rw [hlen, min_eq_left g.rows_le_storageRows]
    rfl
  · have hindex : (((Page.fresh g c).lines.length : ℤ) - (RowRing.fresh g c).used + i).toNat <
        g.rows.toNat := by
      rw [hlen]
      omega
    have hline : (Page.fresh g c).lines[(((Page.fresh g c).lines.length : ℤ) -
        (RowRing.fresh g c).used + i).toNat]? = some fun _ => c :=
      List.getElem?_replicate.trans (if_pos hindex)
    rw [Page.cell, hline]
    rfl

lemma scroll (h : Shows g r p) (c : Cell) :
    Shows g ((ringSurface g).scroll r c) ((pageSurface g).scroll p c) := by
  obtain ⟨hval, hused, hcell⟩ := h.valid.scrollUp c
  have hold := h.used
  show Shows g (r.scrollUp g c) ⟨p.lines ++ [fun _ => c]⟩
  generalize r.scrollUp g c = after at hval hused hcell
  refine ⟨hval, ?_, fun i x hi hi' hx hx' => ?_⟩
  · rw [List.length_append, List.length_singleton]
    push_cast
    omega
  · rw [hcell i x hi hi' hx hx', Page.cell, List.length_append, List.length_singleton]
    push_cast
    by_cases hlast : i = after.used - 1
    · rw [if_pos hlast, List.getElem?_append_right (by omega),
        show ((p.lines.length : ℤ) + 1 - after.used + i).toNat - p.lines.length = 0 by omega]
      rfl
    · rw [if_neg hlast, List.getElem?_append_left (by omega),
        ← h.cell (i + (r.used + 1 - after.used)) x (by omega) (by omega) hx hx', Page.cell]
      congr 3
      omega

lemma edit (h : Shows g r p) {r' : RowRing} {y : ℤ} (hy : 0 ≤ y)
    (change : (ℤ → Cell) → ℤ → Cell) (hval : r'.Valid g) (hused : r'.used = r.used)
    (hsame : ∀ i x, 0 ≤ i → i < r.used → 0 ≤ x → x < g.columns → i ≠ r.used - g.rows + y →
      r'.cell g i x = r.cell g i x)
    (hchange : ∀ line x, 0 ≤ x → x < g.columns →
      (line x = r.cell g (r.used - g.rows + y) x) →
        change line x = r'.cell g (r.used - g.rows + y) x) :
    Shows g r' (p.edit g y change) := by
  have hold := h.used
  have hrows := h.valid.rows_le
  refine ⟨hval, ?_, fun i x hi hi' hx hx' => ?_⟩
  · rw [hused, hold, Page.edit, List.length_modify]
  · rw [hused] at hi'
    have hbefore := h.cell i x hi hi' hx hx'
    rw [Page.cell] at hbefore
    obtain ⟨line, hline, hvalue⟩ := Option.map_eq_some_iff.mp hbefore
    rw [Page.cell, Page.edit, List.length_modify, List.getElem?_modify, hused, hline]
    simp only [Option.map_eq_map, Option.map_some]
    by_cases hrow : i = r.used - g.rows + y
    · rw [if_pos (by omega), hrow, ← hchange line x hx hx' (hrow ▸ hvalue)]
    · rw [if_neg (by omega), hsame i x hi hi' hx hx' hrow, ← hvalue]

lemma erase (h : Shows g r p) {y : ℤ} (hy : 0 ≤ y) (hy' : y < g.rows)
    (start finish : ℤ) (c : Cell) :
    Shows g ((ringSurface g).erase r y start finish c)
      ((pageSurface g).erase p y start finish c) := by
  have hrows := h.valid.rows_le
  obtain ⟨hval, -, hused, hcell⟩ :=
    h.valid.eraseCells (i := r.used - g.rows + y) (by omega) (by omega) start finish c
  refine h.edit hy _ hval hused (fun i x hi hi' hx hx' hne => ?_) fun line x hx hx' hline => ?_
  · exact (hcell i x hi hi' hx hx').trans (if_neg fun hsame => hne hsame.1)
  · refine Eq.trans ?_ (hcell (r.used - g.rows + y) x (by omega) (by omega) hx hx').symm
    rw [hline]
    exact if_congr (by rw [eq_self_iff_true, true_and]) rfl rfl

lemma put (h : Shows g r p) {y x : ℤ} (hy : 0 ≤ y) (hy' : y < g.rows) (hx : 0 ≤ x)
    (hx' : x < g.columns) (c : Cell) :
    Shows g ((ringSurface g).put r y x c) ((pageSurface g).put p y x c) := by
  have hrows := h.valid.rows_le
  obtain ⟨hval, -, hused, hcell⟩ :=
    h.valid.store (i := r.used - g.rows + y) (by omega) (by omega) hx hx' c
  refine h.edit hy _ hval hused (fun i z hi hi' hz hz' hne => ?_) fun line z hz hz' hline => ?_
  · exact (hcell i z hi hi' hz hz').trans (if_neg fun hsame => hne hsame.1)
  · refine Eq.trans ?_ (hcell (r.used - g.rows + y) z (by omega) (by omega) hz hz').symm
    rw [← hline]
    by_cases hzx : z = x
    · rw [if_pos ⟨rfl, hzx⟩, hzx, Function.update_self]
    · rw [if_neg fun hsame => hzx hsame.2, Function.update_of_ne hzx]

end Shows

/-! ## One terminal over two grids

Two terminals that are fed the same bytes differ in their grids only, which stay related if every
operation keeps them so.  The relation may speak of the view of the first of them, which a scroll
resets. -/

section Simulation

variable {G H : Type*} {g : Geometry} {F : Surface G} {F' : Surface H} {S : G → ℤ → H → Prop}

/-- The relation `S` is kept by everything a terminal does to its grid. -/
structure Simulates (g : Geometry) (F : Surface G) (F' : Surface H) (S : G → ℤ → H → Prop) :
    Prop where
  scroll : ∀ {a v b}, S a v b → ∀ c, S (F.scroll a c) 0 (F'.scroll b c)
  erase : ∀ {a v b y}, S a v b → 0 ≤ y → y < g.rows → ∀ start finish c,
    S (F.erase a y start finish c) v (F'.erase b y start finish c)
  put : ∀ {a v b y x}, S a v b → 0 ≤ y → y < g.rows → 0 ≤ x → x < g.columns → ∀ c,
    S (F.put a y x c) v (F'.put b y x c)

namespace UiTerminal

variable {c : Prop} {t' : UiTerminal G}

/-- The same terminal over another grid, with a view and rows to repaint of its own. -/
def onGrid (t : UiTerminal G) (h : H) (view dirtyTop dirtyBottom : ℤ) : UiTerminal H :=
  { t with grid := h, view := view, dirtyTop := dirtyTop, dirtyBottom := dirtyBottom }

/-- Two terminals that differ in their grids only, and these are related. -/
def Alike (S : G → ℤ → H → Prop) (t : UiTerminal G) (u : UiTerminal H) : Prop :=
  ∃ h v a b, S t.grid t.view h ∧ u = t.onGrid h v a b

/-- The cursor is on the screen, or just behind the last column. -/
structure Inside (g : Geometry) (t : UiTerminal G) : Prop where
  x_nonneg : 0 ≤ t.cursorX
  x_le : t.cursorX ≤ g.columns
  y_nonneg : 0 ≤ t.cursorY
  y_lt : t.cursorY < g.rows

variable {t : UiTerminal G} {u : UiTerminal H}

section Touch

variable (g) (t) (start finish : ℤ)

lemma touchRows_eq : ∃ a b, t.touchRows g start finish =
    { t with dirtyTop := a, dirtyBottom := b } := by
  simp only [touchRows]
  split_ifs
  · exact ⟨_, _, rfl⟩
  · exact ⟨_, _, rfl⟩
  · exact ⟨_, _, rfl⟩

@[simp] lemma touchRows_grid : (t.touchRows g start finish).grid = t.grid := by
  obtain ⟨a, b, h⟩ := touchRows_eq g t start finish
  rw [h]

@[simp] lemma touchRows_view : (t.touchRows g start finish).view = t.view := by
  obtain ⟨a, b, h⟩ := touchRows_eq g t start finish
  rw [h]

@[simp] lemma touchRows_cursorX : (t.touchRows g start finish).cursorX = t.cursorX := by
  obtain ⟨a, b, h⟩ := touchRows_eq g t start finish
  rw [h]

@[simp] lemma touchRows_cursorY : (t.touchRows g start finish).cursorY = t.cursorY := by
  obtain ⟨a, b, h⟩ := touchRows_eq g t start finish
  rw [h]

@[simp] lemma touchRows_cursorVisible :
    (t.touchRows g start finish).cursorVisible = t.cursorVisible := by
  obtain ⟨a, b, h⟩ := touchRows_eq g t start finish
  rw [h]

end Touch

lemma Alike.touchRows (h : Alike S t u) (start finish : ℤ) :
    Alike S (t.touchRows g start finish) (u.touchRows g start finish) := by
  obtain ⟨grid, v, a, b, hS, rfl⟩ := h
  obtain ⟨a', b', ht⟩ := touchRows_eq g t start finish
  obtain ⟨a'', b'', hu⟩ := touchRows_eq g (t.onGrid grid v a b) start finish
  rw [ht, hu]
  exact ⟨grid, v, a'', b'', hS, rfl⟩

lemma Alike.scrollUp (hsim : Simulates g F F' S) (h : Alike S t u) :
    Alike S (scrollUp g F t) (scrollUp g F' u) := by
  obtain ⟨grid, v, a, b, hS, rfl⟩ := h
  have hscroll := hsim.scroll hS t.blank
  unfold UiTerminal.scrollUp touchAll
  obtain ⟨a', b', ht⟩ := touchRows_eq g { t with grid := F.scroll t.grid t.blank } 0 g.rows
  obtain ⟨a'', b'', hu⟩ := touchRows_eq g
    { t.onGrid grid v a b with grid := F'.scroll grid t.blank } 0 g.rows
  rw [ht]
  refine ⟨_, 0, a'', b'', hscroll, ?_⟩
  show { UiTerminal.touchRows g { t.onGrid grid v a b with grid := F'.scroll grid t.blank } 0
    g.rows with
    view := 0 } = _
  rw [hu]
  rfl

@[simp] lemma scrollUp_cursorX (t : UiTerminal G) : (scrollUp g F t).cursorX = t.cursorX := by
  simp [scrollUp, touchAll]

@[simp] lemma scrollUp_cursorY (t : UiTerminal G) : (scrollUp g F t).cursorY = t.cursorY := by
  simp [scrollUp, touchAll]

lemma scrollToCursor_cursor (t : UiTerminal G) : (scrollToCursor g F t).cursorX = t.cursorX ∧
      (scrollToCursor g F t).cursorY = min t.cursorY (g.rows - 1) := by
  have hloop : ∀ n : ℕ,
      ((fun t => let t := scrollUp g F t; { t with cursorY := t.cursorY - 1 })^[n] t).cursorX =
        t.cursorX ∧
      ((fun t => let t := scrollUp g F t; { t with cursorY := t.cursorY - 1 })^[n] t).cursorY =
        t.cursorY - n := by
    intro n
    induction n with
    | zero => exact ⟨rfl, (Int.sub_zero _).symm⟩
    | succ n ih =>
      rw [Function.iterate_succ_apply']
      obtain ⟨hx, hy⟩ := ih
      refine ⟨(scrollUp_cursorX _).trans hx, ?_⟩
      show (UiTerminal.scrollUp g F _).cursorY - 1 = _
      rw [scrollUp_cursorY, hy]
      push_cast
      omega
  obtain ⟨hx, hy⟩ := hloop (t.cursorY - g.rows + 1).toNat
  refine ⟨hx, hy.trans ?_⟩
  omega

lemma Alike.scrollToCursor (hsim : Simulates g F F' S) (h : Alike S t u) :
    Alike S (scrollToCursor g F t) (scrollToCursor g F' u) := by
  have hcnt : u.cursorY = t.cursorY := by
    obtain ⟨grid, v, a, b, -, rfl⟩ := h
    rfl
  unfold UiTerminal.scrollToCursor
  rw [hcnt]
  generalize (t.cursorY - g.rows + 1).toNat = n
  induction n with
  | zero => exact h
  | succ n ih =>
    rw [Function.iterate_succ_apply', Function.iterate_succ_apply']
    obtain ⟨grid, v, a, b, hS, hu⟩ := ih.scrollUp hsim
    refine ⟨grid, v, a, b, hS, ?_⟩
    simp only [hu]
    rfl

/-! ### Where the cursor is -/

lemma clearScreenRows_cursor (start finish : ℤ) :
    (clearScreenRows g F t start finish).cursorX = t.cursorX ∧
      (clearScreenRows g F t start finish).cursorY = t.cursorY := by
  unfold clearScreenRows
  generalize (List.range (finish - start).toNat) = rows
  induction rows generalizing t with
  | nil => exact ⟨rfl, rfl⟩
  | cons i rows ih => exact ih

/-- Whatever a sequence did to the cursor, it ends up on the screen. -/
lemma inside_executeCsi (final : UInt8) : Inside g (executeCsi g F t final) := by
  have hcolumns := g.columns_pos
  have hrows := g.rows_pos
  unfold executeCsi clampCursor
  generalize executeFinal g F t final = t'
  constructor <;> simp only <;> split_ifs <;> omega

/-- Where `put_character` puts its character: on the row of the cursor, or on the next one. -/
lemma inside_wrapped (hin : Inside g t) :
    let t' := scrollToCursor g F
      (if t.cursorX ≥ g.columns then { t with cursorX := 0, cursorY := t.cursorY + 1 } else t)
    0 ≤ t'.cursorX ∧ t'.cursorX < g.columns ∧ 0 ≤ t'.cursorY ∧ t'.cursorY < g.rows := by
  have hcolumns := g.columns_pos
  obtain ⟨hx, hx', hy, hy'⟩ := hin
  intro t'
  obtain ⟨hcx, hcy⟩ := scrollToCursor_cursor (g := g) (F := F)
    (if t.cursorX ≥ g.columns then { t with cursorX := 0, cursorY := t.cursorY + 1 } else t)
  rw [hcx, hcy]
  split_ifs with hwrap
  · exact ⟨le_refl 0, hcolumns, by simp only; omega, by simp only; omega⟩
  · omega

lemma inside_putCharacter (hin : Inside g t) (c : UInt8) : Inside g (putCharacter g F t c) := by
  obtain ⟨hx, hx', hy, hy'⟩ := inside_wrapped (F := F) hin
  constructor <;> simp only [putCharacter, touchRows_cursorX, touchRows_cursorY] <;> omega

lemma Inside.ite [Decidable c] (h : Inside g t) (h' : Inside g t') :
    Inside g (if c then t else t') := by
  split_ifs
  · exact h
  · exact h'

lemma inside_feedGround (hin : Inside g t) (c : UInt8) : Inside g (feedGround g F t c) := by
  have hcolumns := g.columns_pos
  have hput := inside_putCharacter (F := F) hin c
  have hx := hin.x_nonneg
  have hx' := hin.x_le
  have hy := hin.y_nonneg
  have hy' := hin.y_lt
  obtain ⟨hcx, hcy⟩ := scrollToCursor_cursor (g := g) (F := F) { t with cursorY := t.cursorY + 1 }
  have hscroll : Inside g (scrollToCursor g F { t with cursorY := t.cursorY + 1 }) := by
    constructor <;> simp only [hcx, hcy] <;> omega
  have htab : ∀ x : ℤ, 0 ≤ x → Inside g
      { t with cursorX := if x ≥ g.columns then g.columns - 1 else x } := by
    intro x hx0
    constructor <;> simp only <;> (try split_ifs) <;> omega
  refine Inside.ite { hin with }
    (Inside.ite ⟨le_refl 0, le_of_lt hcolumns, hy, hy'⟩ (Inside.ite hscroll
    (Inside.ite ?_ (Inside.ite (htab _ (by omega)) (Inside.ite hin (Inside.ite hin hput))))))
  split_ifs with hpos
  · exact ⟨by simp only; omega, by simp only; omega, hy, hy'⟩
  · exact hin

/-! ### Escape sequences -/

lemma Alike.ite [Decidable c] {u' : UiTerminal H} (h : Alike S t u) (h' : Alike S t' u') :
    Alike S (if c then t else t') (if c then u else u') := by
  split_ifs
  · exact h
  · exact h'

lemma Alike.applyCode (h : Alike S t u) (code : ℤ) :
    Alike S (t.applyCode code) (u.applyCode code) := by
  obtain ⟨grid, v, a, b, hS, rfl⟩ := h
  repeat' apply Alike.ite
  all_goals exact ⟨grid, v, a, b, hS, rfl⟩

lemma Alike.parameters (h : Alike S t u) : u.parameters = t.parameters := by
  obtain ⟨grid, v, a, b, -, rfl⟩ := h
  rfl

lemma Alike.applySgr (h : Alike S t u) : Alike S t.applySgr u.applySgr := by
  have hcnt : u.parameterCount = t.parameterCount := by
    obtain ⟨grid, v, a, b, -, rfl⟩ := h
    rfl
  unfold UiTerminal.applySgr
  rw [hcnt]
  split_ifs
  · exact h.applyCode 0
  · refine List.foldl_rel h fun i _ t u hlike => ?_
    rw [hlike.parameters]
    exact hlike.applyCode _

variable (hsim : Simulates g F F' S) (h : Alike S t u)

include hsim h

lemma Alike.erase {y : ℤ} (hy : 0 ≤ y) (hy' : y < g.rows) (start finish : ℤ) :
    Alike S { t with grid := F.erase t.grid y start finish t.blank }
      { u with grid := F'.erase u.grid y start finish u.blank } := by
  obtain ⟨grid, v, a, b, hS, rfl⟩ := h
  exact ⟨_, v, a, b, hsim.erase hS hy hy' start finish t.blank, rfl⟩

lemma Alike.clearScreenRows {start finish : ℤ} (hstart : 0 ≤ start) (hfinish : finish ≤ g.rows) :
    Alike S (clearScreenRows g F t start finish) (clearScreenRows g F' u start finish) := by
  refine List.foldl_rel h fun i hi t u hlike => ?_
  rw [List.mem_range] at hi
  exact hlike.erase hsim (by omega) (by omega) 0 g.columns

variable (hin : Inside g t)

include hin

lemma Alike.eraseInDisplay (mode : ℤ) :
    Alike S (eraseInDisplay g F t mode) (eraseInDisplay g F' u mode) := by
  have hy := hin.y_nonneg
  have hy' := hin.y_lt
  have hnext : 0 ≤ t.cursorY + 1 := by omega
  have hbelow := (h.erase hsim hy hy' t.cursorX g.columns).clearScreenRows hsim hnext (le_refl _)
  have habove := h.clearScreenRows hsim (le_refl 0) (le_of_lt hy')
  have hcursor := (clearScreenRows_cursor (g := g) (F := F) (t := t) 0 t.cursorY).2
  have hall := h.clearScreenRows hsim (le_refl 0) (le_refl g.rows)
  obtain ⟨grid, v, a, b, -, rfl⟩ := h
  refine Alike.ite hbelow (Alike.ite ?_ hall)
  simp only
  rw [show (t.onGrid grid v a b).cursorY = t.cursorY from rfl]
  generalize UiTerminal.clearScreenRows g F t 0 t.cursorY = t' at habove hcursor
  generalize UiTerminal.clearScreenRows g F' _ 0 t.cursorY = u' at habove
  obtain ⟨grid', v', a', b', hS', rfl⟩ := habove
  exact ⟨_, v', a', b', hsim.erase hS' (hcursor ▸ hy) (hcursor ▸ hy') 0 _ _, rfl⟩

lemma Alike.eraseInLine (mode : ℤ) :
    Alike S (eraseInLine g F t mode) (eraseInLine g F' u mode) := by
  have herased := (h.erase hsim hin.y_nonneg hin.y_lt (if mode = 0 then t.cursorX else 0)
    (if mode = 1 then t.cursorX + 1 else g.columns)).touchRows (g := g) t.cursorY (t.cursorY + 1)
  obtain ⟨grid, v, a, b, -, rfl⟩ := h
  exact herased

lemma Alike.executeFinal (final : UInt8) :
    Alike S (executeFinal g F t final) (executeFinal g F' u final) := by
  have hdisplay := h.eraseInDisplay hsim hin (t.parameter 0 0)
  have hline := h.eraseInLine hsim hin (t.parameter 0 0)
  have hsgr := h.applySgr
  obtain ⟨grid, v, a, b, hS, rfl⟩ := h
  repeat' (first | assumption | apply Alike.ite)
  all_goals exact ⟨grid, v, a, b, hS, rfl⟩

lemma Alike.executeCsi (final : UInt8) :
    Alike S (executeCsi g F t final) (executeCsi g F' u final) := by
  obtain ⟨grid, v, a, b, hS, hu⟩ := h.executeFinal hsim hin final
  rw [UiTerminal.executeCsi, UiTerminal.executeCsi, hu]
  exact ⟨grid, v, a, b, hS, rfl⟩

/-! ### Bytes -/

lemma Alike.putCharacter (c : UInt8) : Alike S (putCharacter g F t c) (putCharacter g F' u c) := by
  obtain ⟨hx, hx', hy, hy'⟩ := inside_wrapped (F := F) hin
  have hwrapped : Alike S
      (if t.cursorX ≥ g.columns then { t with cursorX := 0, cursorY := t.cursorY + 1 } else t)
      (if u.cursorX ≥ g.columns then { u with cursorX := 0, cursorY := u.cursorY + 1 } else u) := by
    obtain ⟨grid, v, a, b, hS, rfl⟩ := h
    exact Alike.ite ⟨grid, v, a, b, hS, rfl⟩ ⟨grid, v, a, b, hS, rfl⟩
  have hscroll := hwrapped.scrollToCursor hsim
  unfold UiTerminal.putCharacter
  simp only
  generalize UiTerminal.scrollToCursor g F _ = t' at hscroll hx hx' hy hy'
  generalize UiTerminal.scrollToCursor g F' _ = u' at hscroll
  obtain ⟨grid, v, a, b, hS, rfl⟩ := hscroll
  have hput : Alike S
      { t' with grid := F.put t'.grid t'.cursorY t'.cursorX (Cell.mk c t'.attributes t'.foreground
          t'.background) }
      { t'.onGrid grid v a b with grid := F'.put grid t'.cursorY t'.cursorX (Cell.mk c t'.attributes
          t'.foreground t'.background) } :=
    ⟨_, v, a, b, hsim.put hS hy hy' hx hx' _, rfl⟩
  obtain ⟨grid', v', a', b', hS', hu⟩ := hput.touchRows (g := g) t'.cursorY (t'.cursorY + 1)
  refine ⟨grid', v', a', b', hS', ?_⟩
  simp only [onGrid] at hu ⊢
  rw [hu]

lemma Alike.feedGround (c : UInt8) : Alike S (feedGround g F t c) (feedGround g F' u c) := by
  have hput := h.putCharacter hsim hin c
  have hline : Alike S { t with cursorY := t.cursorY + 1 } { u with cursorY := u.cursorY + 1 } := by
    obtain ⟨grid, v, a, b, hS, rfl⟩ := h
    exact ⟨grid, v, a, b, hS, rfl⟩
  have hscroll := hline.scrollToCursor hsim
  obtain ⟨grid, v, a, b, hS, rfl⟩ := h
  repeat' (first | assumption | apply Alike.ite)
  all_goals exact ⟨grid, v, a, b, hS, rfl⟩

lemma feedByte_alike (c : UInt8) :
    Alike S (feedByte g F t c) (feedByte g F' u c) ∧ Inside g (feedByte g F t c) := by
  have hstate : u.state = t.state := by
    obtain ⟨grid, v, a, b, -, rfl⟩ := h
    rfl
  have hcsi := h.executeCsi hsim hin c
  have hcsi' := inside_executeCsi (g := g) (F := F) (t := t) c
  have hground := h.feedGround hsim hin c
  have hground' := inside_feedGround (F := F) hin c
  unfold feedByte
  rw [hstate]
  obtain ⟨grid, v, a, b, hS, rfl⟩ := h
  cases t.state with
  | escape =>
    refine ⟨?_, ?_⟩
    · repeat' apply Alike.ite
      all_goals exact ⟨grid, v, a, b, hS, rfl⟩
    · exact Inside.ite { hin with } (Inside.ite { hin with } { hin with })
  | csi =>
    refine ⟨?_, ?_⟩
    · refine Alike.ite ⟨grid, v, a, b, hS, rfl⟩ (Alike.ite ?_ (Alike.ite ?_ ?_))
      · exact Alike.ite ⟨grid, v, a, b, hS, rfl⟩ ⟨grid, v, a, b, hS, rfl⟩
      · exact Alike.ite ⟨grid, v, a, b, hS, rfl⟩ ⟨grid, v, a, b, hS, rfl⟩
      · obtain ⟨grid', v', a', b', hS', hu⟩ := hcsi
        refine ⟨grid', v', a', b', hS', ?_⟩
        simp only [hu]
        rfl
    · refine Inside.ite { hin with } (Inside.ite ?_ (Inside.ite ?_ { hcsi' with }))
      · exact Inside.ite { hin with } { hin with }
      · exact Inside.ite { hin with } { hin with }
  | osc =>
    refine ⟨?_, ?_⟩
    · repeat' apply Alike.ite
      all_goals exact ⟨grid, v, a, b, hS, rfl⟩
    · exact Inside.ite { hin with } (Inside.ite { hin with } { hin with })
  | ground => exact ⟨hground, hground'⟩

lemma feedBytes_alike (bytes : List UInt8) :
    Alike S (feedBytes g F t bytes) (feedBytes g F' u bytes) ∧
      Inside g (feedBytes g F t bytes) := by
  induction bytes generalizing t u with
  | nil => exact ⟨h, hin⟩
  | cons c bytes ih =>
    obtain ⟨h', hin'⟩ := feedByte_alike hsim h hin c
    exact ih h' hin'

end UiTerminal

end Simulation

/-! ## The widget -/

namespace UiTerminal

variable {g : Geometry}

/-- The ring shows the page, and the view is within what the ring holds. -/
def Viewed (g : Geometry) (r : RowRing) (view : ℤ) (p : Page) : Prop :=
  Shows g r p ∧ 0 ≤ view ∧ view ≤ r.used - g.rows

lemma simulates_page : Simulates g (ringSurface g) (pageSurface g) (Viewed g) where
  scroll := by
    rintro r v p ⟨hshows, -, -⟩ c
    have hscroll := hshows.scroll c
    have := hscroll.valid.rows_le
    exact ⟨hscroll, le_refl 0, by omega⟩
  erase := by
    rintro r v p y ⟨hshows, hview, hview'⟩ hy hy' start finish c
    have herased := hshows.erase hy hy' start finish c
    have hused : ((ringSurface g).erase r y start finish c).used = r.used := by
      rw [herased.used, hshows.used]
      simp only [pageSurface, Page.edit, List.length_modify]
    exact ⟨herased, hview, hused ▸ hview'⟩
  put := by
    rintro r v p y x ⟨hshows, hview, hview'⟩ hy hy' hx hx' c
    have hput := hshows.put hy hy' hx hx' c
    have hused : ((ringSurface g).put r y x c).used = r.used := by
      rw [hput.used, hshows.used]
      simp only [pageSurface, Page.edit, List.length_modify]
    exact ⟨hput, hview, hused ▸ hview'⟩

/-- What the terminal is for: the same parser over an endless page, fed these bytes. -/
def endless (g : Geometry) (bytes : List UInt8) : UiTerminal Page :=
  feedBytes g (pageSurface g) (created g (Page.fresh g (blankCell (-1)))) bytes

/-- The terminal holds the end of what the endless one holds, and every index is in its range. -/
structure Refines (g : Geometry) (t : UiTerminal RowRing) (u : UiTerminal Page) : Prop where
  used : t.grid.used = min (u.grid.lines.length : ℤ) g.storageRows
  history : ∀ i x, 0 ≤ i → i < t.grid.used → 0 ≤ x → x < g.columns →
    u.grid.cell (u.grid.lines.length - t.grid.used + i) x =
      some (t.grid.storage (t.grid.rowAt g i + x))
  screen : ∀ y x, 0 ≤ y → y < g.rows → 0 ≤ x → x < g.columns →
    u.grid.cell (u.grid.lines.length - g.rows + y) x =
      some (t.grid.storage (t.grid.screenRow g y + x))
  cursor : t.cursorX = u.cursorX ∧ t.cursorY = u.cursorY
  cursorX_mem : 0 ≤ t.cursorX ∧ t.cursorX ≤ g.columns
  cursorY_mem : 0 ≤ t.cursorY ∧ t.cursorY < g.rows
  used_mem : g.rows ≤ t.grid.used ∧ t.grid.used ≤ g.storageRows
  top_mem : 0 ≤ t.grid.top ∧ t.grid.top < g.storageRows
  view_mem : 0 ≤ t.view ∧ t.view ≤ t.grid.used - g.rows
  inside : t.grid.outside = false

lemma Alike.refines {t : UiTerminal RowRing} {u : UiTerminal Page} (h : Alike (Viewed g) t u)
    (hin : Inside g t) : Refines g t u := by
  obtain ⟨p, v, a, b, ⟨hshows, hview, hview'⟩, rfl⟩ := h
  have hrows := hshows.valid.rows_le
  exact
    { used := hshows.used
      history := hshows.cell
      screen := by
        intro y x hy hy' hx hx'
        have hcell := hshows.cell (t.grid.used - g.rows + y) x (by omega) (by omega) hx hx'
        rw [show (p.lines.length : ℤ) - t.grid.used + (t.grid.used - g.rows + y) =
          p.lines.length - g.rows + y by omega] at hcell
        exact hcell
      cursor := ⟨rfl, rfl⟩
      cursorX_mem := ⟨hin.x_nonneg, hin.x_le⟩
      cursorY_mem := ⟨hin.y_nonneg, hin.y_lt⟩
      used_mem := ⟨hrows, hshows.valid.used_le⟩
      top_mem := ⟨hshows.valid.top_nonneg, hshows.valid.top_lt⟩
      view_mem := ⟨hview, hview'⟩
      inside := hshows.valid.inside }

variable {t : UiTerminal RowRing} {u : UiTerminal Page}

lemma Alike.touched (h : Alike (Viewed g) t u) (start finish : ℤ) :
    Alike (Viewed g) (t.touchRows g start finish) u := by
  obtain ⟨p, v, a, b, hviewed, rfl⟩ := h
  obtain ⟨a', b', htouch⟩ := touchRows_eq g t start finish
  rw [htouch]
  exact ⟨p, v, a, b, hviewed, rfl⟩

lemma Inside.touched (hin : Inside g t) (start finish : ℤ) :
    Inside g (t.touchRows g start finish) := by
  obtain ⟨a', b', htouch⟩ := touchRows_eq g t start finish
  rw [htouch]
  exact { hin with }

lemma Inside.viewed (hin : Inside g t) (view : ℤ) : Inside g { t with view := view } :=
  { hin with }

/-- Moving the view changes nothing the parser or the page see. -/
lemma Alike.scrollView (h : Alike (Viewed g) t u) (distance : ℤ) :
    Alike (Viewed g) (t.scrollView g distance) u := by
  obtain ⟨p, v, a, b, ⟨hshows, hview, hview'⟩, rfl⟩ := h
  obtain ⟨a', b', htouch⟩ := touchRows_eq g
    { t with view :=
        if (if wrapInt (t.view + distance) > t.grid.used - g.rows then t.grid.used - g.rows
            else wrapInt (t.view + distance)) < 0 then 0
        else if wrapInt (t.view + distance) > t.grid.used - g.rows then t.grid.used - g.rows
          else wrapInt (t.view + distance) } 0 g.rows
  unfold UiTerminal.scrollView touchAll
  simp only
  rw [htouch]
  refine ⟨p, v, a, b, ⟨hshows, ?_, ?_⟩, rfl⟩
  · simp only
    split_ifs <;> omega
  · simp only
    split_ifs <;> omega

lemma Inside.scrollView (hin : Inside g t) (distance : ℤ) : Inside g (t.scrollView g distance) :=
  (hin.viewed _).touched 0 g.rows

lemma Alike.showBottom (h : Alike (Viewed g) t u) :
    Alike (Viewed g) ({ t with view := 0 }.touchAll g) u := by
  obtain ⟨p, v, a, b, ⟨hshows, hview, hview'⟩, rfl⟩ := h
  obtain ⟨a', b', htouch⟩ := touchRows_eq g { t with view := 0 } 0 g.rows
  rw [touchAll, htouch]
  exact ⟨p, v, a, b, ⟨hshows, le_refl 0, by simp only; omega⟩, rfl⟩

end UiTerminal

namespace WidgetEvent

/-- The bytes an event feeds to the terminal. -/
def bytes : WidgetEvent → List UInt8
  | .feed bytes => bytes
  | _ => []

end WidgetEvent

namespace TerminalWidget

open UiTerminal

variable {g : Geometry} {s s' : TerminalWidget}

/-- The widget follows the endless terminal that was fed the same bytes. -/
def Follows (g : Geometry) (s : TerminalWidget) (fed : List UInt8) : Prop :=
  Alike (Viewed g) s.terminal (endless g fed) ∧ Inside g s.terminal

lemma follows_initial : Follows g (initial g) [] := by
  have hcolumns := g.columns_pos
  have hrows := g.rows_pos
  obtain ⟨a, b, hring⟩ := touchRows_eq g
    (UiTerminal.mk (RowRing.fresh g (blankCell (-1))) 0 0 0 0 0 true 0 (-1) (-1) 0 0 .ground
      (fun _ => 0) 0 false) 0 g.rows
  obtain ⟨a', b', hpage⟩ := touchRows_eq g
    (UiTerminal.mk (Page.fresh g (blankCell (-1))) 0 0 0 0 0 true 0 (-1) (-1) 0 0 .ground
      (fun _ => 0) 0 false) 0 g.rows
  have hterminal : (initial g).terminal =
      UiTerminal.mk (RowRing.fresh g (blankCell (-1))) 0 0 0 0 0 true 0 (-1) (-1) 0 0 .ground
      (fun _ => 0) 0 false := by
    simp only [initial, created, touchAll, hring]
  refine ⟨⟨Page.fresh g (blankCell (-1)), 0, a', b', ?_, ?_⟩, ?_⟩
  · rw [hterminal]
    exact ⟨Shows.fresh _, le_refl 0, by simp only [RowRing.fresh]; omega⟩
  · rw [hterminal]
    exact hpage
  · rw [hterminal]
    constructor <;> simp only <;> omega

lemma Follows.step {fed : List UInt8} (h : Follows g s fed) (event : WidgetEvent)
    (hstep : step g s event = some s') : Follows g s' (fed ++ event.bytes) := by
  obtain ⟨hlike, hin⟩ := h
  cases event with
  | feed bytes =>
    obtain ⟨hfed, hin'⟩ := feedBytes_alike simulates_page hlike hin bytes
    have hendless : endless g (fed ++ bytes) = feedBytes g (pageSurface g) (endless g fed) bytes :=
      List.foldl_append
    rw [WidgetEvent.bytes, Follows, hendless]
    obtain rfl : _ = s' := Option.some.inj hstep
    simp only [UiTerminal.feed]
    generalize feedBytes g (ringSurface g) s.terminal bytes = t at hfed hin'
    have htouched := (hfed.touched s.terminal.cursorY (s.terminal.cursorY + 1)).touched
      t.cursorY (t.cursorY + 1)
    have hinside := (hin'.touched s.terminal.cursorY (s.terminal.cursorY + 1)).touched
      t.cursorY (t.cursorY + 1)
    split_ifs
    · exact ⟨htouched, hinside⟩
    · exact ⟨htouched, hinside⟩
  | wheel wheel =>
    rw [show WidgetEvent.bytes (.wheel wheel) = [] from rfl, List.append_nil]
    simp only [TerminalWidget.step] at hstep
    split_ifs at hstep
    · cases hstep
      exact ⟨hlike, hin⟩
    · cases hstep
      exact ⟨hlike.scrollView _, hin.scrollView _⟩
  | key pageUp pageDown =>
    rw [show WidgetEvent.bytes (.key pageUp pageDown) = [] from rfl, List.append_nil]
    obtain rfl : _ = s' := Option.some.inj hstep
    have hbottom : Alike (Viewed g)
        (if s.terminal.view ≠ 0 then { s.terminal with view := 0 }.touchAll g else s.terminal)
        (endless g fed) := by
      split_ifs
      · exact hlike.showBottom
      · exact hlike
    have hbottom' : Inside g
        (if s.terminal.view ≠ 0 then { s.terminal with view := 0 }.touchAll g else s.terminal) :=
      Inside.ite ((hin.viewed 0).touched 0 g.rows) hin
    unfold Follows pressKey
    simp only
    generalize (if s.terminal.view ≠ 0 then { s.terminal with view := 0 }.touchAll g
      else s.terminal) = t at hbottom hbottom'
    split_ifs
    · exact ⟨hbottom.scrollView _, hbottom'.scrollView _⟩
    · exact ⟨hbottom.scrollView _, hbottom'.scrollView _⟩
    · exact ⟨hbottom, hbottom'⟩
  | paint clipTop clipBottom =>
    rw [show WidgetEvent.bytes (.paint clipTop clipBottom) = [] from rfl, List.append_nil]
    simp only [TerminalWidget.step] at hstep
    split_ifs at hstep
    cases hstep
    obtain ⟨p, v, a, b, hviewed, hu⟩ := hlike
    exact ⟨⟨p, v, a, b, hviewed, hu⟩, { hin with }⟩

lemma Follows.run (events : List WidgetEvent) : ∀ (s : TerminalWidget) (fed : List UInt8),
    Follows g s fed → run (TerminalWidget.step g) s events = some s' →
      Follows g s' (fed ++ events.flatMap WidgetEvent.bytes) := by
  induction events with
  | nil =>
    intro s fed h hrun
    cases hrun
    rw [List.flatMap_nil, List.append_nil]
    exact h
  | cons event events ih =>
    intro s fed h hrun
    obtain ⟨t, ht, hrest⟩ := run_cons.mp hrun
    rw [List.flatMap_cons, ← List.append_assoc]
    exact ih t _ (h.step event ht) hrest

/-- **The grid is the end of an endless page.**  Whatever bytes the terminal is fed, in whatever
pieces, and however the user scrolls and the window paints in between: the rows of the ring are the
last rows of the page that was fed the same bytes, as many as the ring holds; the screen is the last
`rows` of them; the cursor is where it is on the page; every index is in its range; and no cell
outside the storage was ever written. -/
theorem grid_refines_page (g : Geometry) (events : List WidgetEvent) (s : TerminalWidget)
    (hrun : run (step g) (initial g) events = some s) :
    UiTerminal.Refines g s.terminal (endless g (events.flatMap WidgetEvent.bytes)) := by
  obtain ⟨hlike, hin⟩ := Follows.run events (initial g) [] follows_initial hrun
  exact hlike.refines hin

/-- Two rows of two cells. -/
def tinyScreen : Geometry := ⟨16, 32, 8, 16, by decide, by decide⟩

/-- Text that wraps and scrolls, a look back at the history, a repaint, and a cursor movement that
arrives in two pieces. -/
theorem grid_refines_page_session : ∃ s,
    run (step tinyScreen) (initial tinyScreen)
      [.feed [0x61, 0x62, 0x63, 0x0a, 0x64], .wheel 1, .paint 0 32, .feed [0x1b, 0x5b, 0x39],
        .feed [0x48, 0x65]] = some s ∧
    (s.terminal.cursorX, s.terminal.cursorY, s.terminal.grid.used) = (1, 1, 3) ∧
    UiTerminal.Refines tinyScreen s.terminal (endless tinyScreen
      [0x61, 0x62, 0x63, 0x0a, 0x64, 0x1b, 0x5b, 0x39, 0x48, 0x65]) :=
  exists_run_of_map (fun s => (s.terminal.cursorX, s.terminal.cursorY, s.terminal.grid.used))
    (1, 1, 3)
    (by decide +kernel) fun s hs hview => ⟨hview, grid_refines_page tinyScreen _ s hs⟩

end TerminalWidget

end ShitOs
