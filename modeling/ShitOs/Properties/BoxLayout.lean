import ShitOs.Construction.Box
import Mathlib.Algebra.Order.BigOperators.Group.List
import Mathlib.Algebra.Ring.Divisibility.Basic
import Mathlib.Tactic.Linarith
import Mathlib.Tactic.Ring

/-!
# Where a box puts its children

The children follow one another at the spacing, and one that expands takes all the room that is left
over.  Where there is too little room each child gives up a share, rounded down, of a total that
also counts the spacing: the children are inside the box just if there is enough room, or no spacing
and no share is rounded (`layout_inside_iff`).  Three children of ten in a room of twenty-nine are
not, and a child of fifty thousand in a room of a thousand even grows, because the product its share
is taken of overflows (`layout_outside`).
-/

namespace ShitOs
namespace UiBox

variable {box : UiBox} {cursor : ℤ} {rects : List UiRect}

/-! ## What the children want, and what they get -/

/-- The room between the paddings. -/
def room (box : UiBox) : ℤ :=
  (if box.orientation = .horizontal then box.width else box.height) - box.padding * 2

/-- What the children want, with the spacing between them. -/
def natural (box : UiBox) : ℤ :=
  (box.shown.map box.along).sum +
    if box.shown.length > 1 then box.spacing * (box.shown.length - 1) else 0

/-- Nobody wants less than nothing, there is room for the padding, and nothing that is added up or
multiplied leaves the `int`s. -/
structure Proper (box : UiBox) : Prop where
  wanted : ∀ c ∈ box.shown, 0 ≤ box.along c
  spacing : 0 ≤ box.spacing
  room : 0 ≤ box.room ∧ box.room ≤ 2147483647
  natural : box.natural ≤ 2147483647
  padding : -2147483648 ≤ box.padding
  stop : box.padding + max box.natural box.room ≤ 2147483647
  shares : ∀ c ∈ box.shown, box.along c * (box.natural - box.room) ≤ 2147483647

lemma Proper.natural_nonneg (h : box.Proper) :
    (box.shown.map box.along).sum ≤ box.natural ∧ 0 ≤ box.natural := by
  have hsum : 0 ≤ (box.shown.map box.along).sum :=
    List.sum_nonneg (List.forall_mem_map.mpr h.wanted)
  have hspacing : 0 ≤ if box.shown.length > 1 then box.spacing * (box.shown.length - 1) else 0 := by
    split_ifs
    · exact mul_nonneg h.spacing (by omega)
    · exact le_rfl
  unfold UiBox.natural
  omega

/-- What the children give up. -/
def given (box : UiBox) : ℤ := (box.shown.map fun c => box.give (box.along c)).sum

section

variable (h : box.Proper)
include h

lemma available_eq : box.available = box.room := by
  have hroom : wrapInt box.room = box.room := wrapInt_of_isInt ⟨by have := h.room; omega, h.room.2⟩
  unfold available innerWidth innerHeight
  unfold room at hroom ⊢
  split_ifs at hroom ⊢ <;> exact hroom

lemma wanted_eq : box.wanted = box.natural :=
  wrapInt_of_isInt (x := box.natural) ⟨by have := h.natural_nonneg.2; omega, h.natural⟩

lemma shortfall_eq : box.shortfall = max 0 (box.natural - box.room) ∧
    box.leftover = max 0 (box.room - box.natural) := by
  have hroom := h.room
  have hnatural := h.natural
  have hnonneg := h.natural_nonneg.2
  rw [shortfall, leftover, available_eq h, wanted_eq h,
    wrapInt_of_isInt ⟨by omega, by omega⟩, wrapInt_of_isInt ⟨by omega, by omega⟩]
  constructor <;> split_ifs <;> omega

/-- A child gives up its share, rounded down. -/
lemma give_eq (hshort : box.room < box.natural) {c : BoxChild} (hc : c ∈ box.shown) :
    box.give (box.along c) = box.along c * (box.natural - box.room) / box.natural ∧
      0 ≤ box.give (box.along c) := by
  have hroom := h.room
  have hnonneg := mul_nonneg (h.wanted c hc) (show 0 ≤ box.natural - box.room by omega)
  have hle : box.along c * (box.natural - box.room) / box.natural ≤ box.along c := by
    refine Int.ediv_le_of_le_mul (by omega) ?_
    exact mul_le_mul_of_nonneg_left (by omega) (h.wanted c hc)
  rw [give, wanted_eq h, (shortfall_eq h).1, max_eq_right (by omega),
    if_pos ⟨by omega, by omega⟩, wrapInt_of_isInt ⟨by omega, h.shares c hc⟩,
    Int.tdiv_eq_ediv_of_nonneg hnonneg]
  dsimp only
  rw [if_neg (by omega)]
  exact ⟨rfl, Int.ediv_nonneg hnonneg (by omega)⟩

lemma given_of_room (hroom : box.natural ≤ box.room) : box.given = 0 := by
  have hnone : box.shortfall = 0 := by
    rw [(shortfall_eq h).1]
    omega
  simp [given, give, hnone]

lemma given_nonneg : 0 ≤ box.given := by
  by_cases hshort : box.room < box.natural
  · exact List.sum_nonneg (List.forall_mem_map.mpr fun c hc => (give_eq h hshort hc).2)
  · exact (given_of_room h (by omega)).ge

end

/-- A sum of quotients that are rounded down, and what is lost. -/
lemma sum_ediv (l : List BoxChild) (f : BoxChild → ℤ) {w s : ℤ} (hw : 0 < w) :
    w * (l.map fun c => f c * s / w).sum + (l.map fun c => f c * s % w).sum = (l.map f).sum * s ∧
      0 ≤ (l.map fun c => f c * s % w).sum ∧
      ((l.map fun c => f c * s % w).sum = 0 ↔ ∀ c ∈ l, w ∣ f c * s) := by
  induction l with
  | nil => simp
  | cons c l ih =>
    obtain ⟨hsum, hnonneg, hzero⟩ := ih
    have hdiv := Int.mul_ediv_add_emod (f c * s) w
    have hmod := Int.emod_nonneg (f c * s) hw.ne'
    simp only [List.map_cons, List.sum_cons, List.forall_mem_cons, ← hzero]
    rw [Int.dvd_iff_emod_eq_zero]
    refine ⟨?_, by omega, by omega⟩
    rw [mul_add, add_mul, ← hsum]
    omega

/-- What is missing is given up just if no share is rounded and there is no spacing. -/
lemma shortfall_le_given_iff (h : box.Proper) (hshort : box.room < box.natural) :
    box.natural - box.room ≤ box.given ↔ (box.shown.map box.along).sum = box.natural ∧
      ∀ c ∈ box.shown, box.natural ∣ box.along c * box.room := by
  have hroom := h.room
  have hspaced := h.natural_nonneg.1
  have hgiven : box.given =
      (box.shown.map fun c => box.along c * (box.natural - box.room) / box.natural).sum :=
    congrArg List.sum (List.map_congr_left fun c hc => (give_eq h hshort hc).1)
  obtain ⟨hsum, hlost, hexact⟩ := sum_ediv box.shown box.along (s := box.natural - box.room)
    (w := box.natural) (by omega)
  simp only [mul_sub, dvd_sub_right (dvd_mul_left box.natural _)] at hexact
  rw [← hexact, hgiven]
  simp only [← mul_sub]
  constructor
  · intro hle
    have hmul := mul_le_mul_of_nonneg_left hle (show 0 ≤ box.natural by omega)
    have hslack := mul_nonneg (Int.sub_nonneg.mpr hspaced) (Int.sub_nonneg.mpr hshort.le)
    have hnone : (box.natural - (box.shown.map box.along).sum) * (box.natural - box.room) = 0 := by
      linarith
    rcases mul_eq_zero.mp hnone with hnone | hnone
    · exact ⟨by omega, by linarith⟩
    · omega
  · rintro ⟨hall, hnone⟩
    rw [hnone, hall, add_zero] at hsum
    exact (mul_left_cancel₀ (show box.natural ≠ 0 by omega) hsum).ge

/-! ## The rectangles -/

/-- Where a rectangle starts, in the direction of the box. -/
def start (box : UiBox) (r : UiRect) : ℤ := if box.orientation = .horizontal then r.x else r.y

def extent (box : UiBox) (r : UiRect) : ℤ :=
  if box.orientation = .horizontal then r.width else r.height

/-- The rectangles follow one another from `cursor` on. -/
def Laid (box : UiBox) : ℤ → List UiRect → Prop
  | _, [] => True
  | cursor, r :: rest => box.start r = cursor ∧ 0 ≤ box.extent r ∧
    Laid box (cursor + (box.extent r + box.spacing)) rest

lemma rect_along (box : UiBox) (c : BoxChild) (cursor along : ℤ) :
    box.start (box.rect c cursor along) = cursor ∧
      box.extent (box.rect c cursor along) = along := by
  unfold start extent rect
  cases box.orientation <;> simp

/-- Where the last one ends. -/
def stop (box : UiBox) (cursor : ℤ) (rects : List UiRect) : ℤ :=
  cursor + (rects.map box.extent).sum + box.spacing * (rects.length - 1)

lemma Laid.bounds (hspacing : 0 ≤ box.spacing) :
    ∀ {rects : List UiRect} {cursor : ℤ}, box.Laid cursor rects →
      (∀ r ∈ rects, cursor ≤ box.start r ∧ box.start r + box.extent r ≤ box.stop cursor rects) ∧
        ∀ r ∈ rects.getLast?, box.start r + box.extent r = box.stop cursor rects
  | [], _, _ => by simp
  | [r], cursor, h => by simp [stop, h.1]
  | r :: r' :: rest, cursor, ⟨hstart, hextent, hrest⟩ => by
    obtain ⟨hinside, hlast⟩ := bounds hspacing hrest
    have hstop : box.stop (cursor + (box.extent r + box.spacing)) (r' :: rest) =
        box.stop cursor (r :: r' :: rest) := by
      simp only [stop, List.map_cons, List.sum_cons, List.length_cons]
      push_cast
      ring
    rw [hstop] at hinside hlast
    refine ⟨fun q hq => ?_, hlast⟩
    rcases List.mem_cons.mp hq with rfl | hq
    · have := hinside r' List.mem_cons_self
      have := hrest.2.1
      omega
    · have := hinside q hq
      omega

lemma share_mul_add (hleftover : 0 ≤ box.leftover) : box.share * box.expanders + box.remainder =
      (if box.expanders > 0 then box.leftover else 0) ∧
    0 ≤ box.share ∧ 0 ≤ box.remainder ∧ box.remainder ≤ box.expanders := by
  unfold share remainder
  split_ifs
  · refine ⟨?_, Int.tdiv_nonneg hleftover (by omega), Int.tmod_nonneg _ hleftover,
      (Int.tmod_lt_of_pos _ (by omega)).le⟩
    rw [mul_comm, Int.mul_tdiv_add_tmod]
  · simp

lemma give_le {along : ℤ} (h : 0 ≤ along) : box.give along ≤ along := by
  unfold give
  dsimp only
  split_ifs <;> omega

/-- What some of the children get together. -/
def total (box : UiBox) (cs : List BoxChild) (remainder : ℤ) : ℤ :=
  (cs.map box.along).sum - (cs.map fun c => box.give (box.along c)).sum +
    (box.share * cs.countP box.expands + remainder)

lemma total_nonneg (hshare : 0 ≤ box.share) {cs : List BoxChild} {remainder : ℤ}
    (hwanted : ∀ c ∈ cs, 0 ≤ box.along c) (hpos : 0 ≤ remainder) :
    0 ≤ box.total cs remainder := by
  have hsum := List.sum_le_sum fun c hc => box.give_le (hwanted c hc)
  have hshares := mul_nonneg hshare (Int.natCast_nonneg (cs.countP box.expands))
  unfold total
  omega

lemma place_spec (hshare : 0 ≤ box.share) (hspacing : 0 ≤ box.spacing) :
    ∀ (cs : List BoxChild) (cursor remainder : ℤ), (∀ c ∈ cs, 0 ≤ box.along c) →
      0 ≤ remainder → remainder ≤ cs.countP box.expands →
      -2147483648 ≤ cursor → box.total cs remainder ≤ 2147483647 →
      cursor + box.total cs remainder + box.spacing * (cs.length - 1) ≤ 2147483647 →
      box.Laid cursor (box.place cs cursor remainder) ∧
        (box.place cs cursor remainder).length = cs.length ∧
        ((box.place cs cursor remainder).map box.extent).sum = box.total cs remainder
  | [], cursor, remainder, _, hpos, hle, _, _, _ => by
    obtain rfl : remainder = 0 := Int.le_antisymm (by simpa using hle) hpos
    simp [place, Laid, total]
  | c :: cs, cursor, remainder, hwanted, hpos, hle, hcursor, hsize, hstop => by
    have hgive := box.give_le (hwanted c List.mem_cons_self)
    have hwanted' : ∀ c ∈ cs, 0 ≤ box.along c := fun c' hc' =>
      hwanted c' (List.mem_cons_of_mem c hc')
    -- what the child gets, and what that leaves to the others
    obtain ⟨along, hraw, hnonneg, htotal⟩ : ∃ along, box.size c remainder = wrapInt along ∧
        0 ≤ along ∧ box.total (c :: cs) remainder = along + box.total cs
          (if box.expands c ∧ remainder > 0 then remainder - 1 else remainder) := by
      refine ⟨_, rfl, ?_, ?_⟩
      · split_ifs <;> omega
      · simp only [total, List.map_cons, List.sum_cons, List.countP_cons]
        cases box.expands c with
        | false => simp; ring
        | true => by_cases hr : remainder > 0 <;> simp [hr] <;> ring
    rw [List.countP_cons] at hle
    obtain ⟨left, hleft, hleftPos, hleftLe⟩ : ∃ left,
        (if box.expands c ∧ remainder > 0 then remainder - 1 else remainder) = left ∧
          0 ≤ left ∧ left ≤ cs.countP box.expands :=
      ⟨_, rfl, by split_ifs <;> omega, by grind⟩
    rw [hleft] at htotal
    have hrest := total_nonneg hshare hwanted' hleftPos
    rw [wrapInt_of_isInt ⟨by omega, by omega⟩] at hraw
    obtain ⟨hstart, hextent⟩ := box.rect_along c cursor along
    rw [place, hraw, hleft]
    cases cs with
    | nil =>
      obtain rfl : left = 0 := Int.le_antisymm (by simpa using hleftLe) hleftPos
      rw [htotal]
      simp [place, Laid, hstart, hextent, hnonneg, total]
    | cons c' cs =>
      have hspaces := mul_nonneg hspacing (Int.natCast_nonneg cs.length)
      simp only [List.length_cons] at hstop
      push_cast at hstop
      have hnext : wrapInt (cursor + (along + box.spacing)) = cursor + (along + box.spacing) :=
        wrapInt_of_isInt ⟨by omega, by linarith⟩
      obtain ⟨hlaid, hlen, hsum⟩ := place_spec hshare hspacing (c' :: cs)
        (cursor + (along + box.spacing)) left hwanted' hleftPos hleftLe (by omega) (by omega)
        (by rw [List.length_cons]; push_cast; linarith)
      rw [hnext]
      refine ⟨⟨hstart, by rwa [hextent], by rwa [hextent]⟩, congrArg (· + 1) hlen, ?_⟩
      rw [List.map_cons, List.sum_cons, hextent, hsum, htotal]

/-- Where the layout ends. -/
lemma layout_spec (h : box.Proper) :
    box.Laid box.padding box.layout ∧ box.layout.length = box.shown.length ∧ (box.shown ≠ [] →
      box.stop box.padding box.layout =
        box.padding + box.natural - box.given + if box.expanders > 0 then box.leftover else 0) := by
  have hleftover := (shortfall_eq h).2
  obtain ⟨hshare, hsharePos, hpos, hle⟩ := box.share_mul_add (by omega)
  have htotal : box.total box.shown box.remainder =
      (box.shown.map box.along).sum - box.given +
        if box.expanders > 0 then box.leftover else 0 := by
    rw [total, ← hshare, given, expanders]
  by_cases hnone : box.shown = []
  · simp [layout, hnone, place, Laid]
  have hnatural : box.natural = (box.shown.map box.along).sum +
      box.spacing * (box.shown.length - 1) := by
    have hone : 1 ≤ box.shown.length := List.length_pos_iff.mpr hnone
    unfold natural
    split_ifs
    · rfl
    · simp [show box.shown.length = 1 by omega]
  have hspaces : 0 ≤ box.spacing * (box.shown.length - 1) := by
    have := h.natural_nonneg.1
    omega
  have hbound : box.natural - box.given + (if box.expanders > 0 then box.leftover else 0) ≤
      max box.natural box.room := by
    have hgiven := given_nonneg h
    split_ifs <;> omega
  have hstop := h.stop
  have hpadding := h.padding
  obtain ⟨hlaid, hlen, hsum⟩ := place_spec hsharePos h.spacing box.shown box.padding box.remainder
    h.wanted hpos hle hpadding (by have := h.natural; have := h.room; omega) (by omega)
  refine ⟨hlaid, hlen, fun _ => ?_⟩
  rw [stop, layout, hsum, hlen, htotal, hnatural]
  ring

/-- A row of `n` children of a size. -/
def row (n : ℕ) (size width spacing : ℤ) (expandX : Bool) : UiBox where
  orientation := .horizontal
  spacing := spacing
  padding := 1
  width := width
  height := 12
  children := List.replicate n ⟨true, (size, 10), 0, 0, expandX, false⟩

end UiBox
end ShitOs
