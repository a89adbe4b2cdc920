import Mathlib.Data.List.Basic
import Mathlib.Data.List.GetD
import Mathlib.Order.Nat

/-!
# Overwriting a part of a list

`overwrite fill xs offset ys` puts `ys` over what `xs` has from `offset` on.  If `xs` ends before
`offset`, the gap is filled; if `ys` goes beyond the end of `xs`, the list grows.  Writing nothing
changes nothing.

Writing piece by piece is the same as writing at once: `overwrite_append`.  Seen as a function that
has the fill behind the end, the list changes in the range that is written (`getD_overwrite`).
-/

namespace ShitOs

lemma getD_concat {α : Type*} (l : List α) (a d : α) (i : ℕ) :
    (l ++ [a]).getD i d = if i = l.length then a else l.getD i d := by
  obtain hlt | rfl | hgt := lt_trichotomy i l.length
  · rw [List.getD_append _ _ _ _ hlt, if_neg hlt.ne]
  · rw [List.getD_append_right _ _ _ _ le_rfl, if_pos rfl, Nat.sub_self]
    rfl
  · rw [List.getD_eq_default _ _ (by simp; omega), if_neg hgt.ne', List.getD_eq_default _ _ hgt.le]

variable {α : Type*} (fill : α) (xs ys zs : List α) (offset : ℕ)

/-- `xs` with `ys` written over it from `offset` on. -/
def overwrite : List α :=
  if ys.isEmpty then xs else (xs.rightpad offset fill).take offset ++ ys ++
    xs.drop (offset + ys.length)

@[simp] lemma overwrite_nil : overwrite fill xs [] offset = xs := rfl

lemma overwrite_of_ne_nil {ys : List α} (h : ys ≠ []) : overwrite fill xs ys offset =
    (xs.rightpad offset fill).take offset ++ ys ++ xs.drop (offset + ys.length) := by
  rw [overwrite, if_neg (by simpa using h)]

/-- What is written last may be written in a second step. -/
lemma overwrite_append : overwrite fill (overwrite fill xs ys offset) zs (offset + ys.length) =
    overwrite fill xs (ys ++ zs) offset := by
  rcases eq_or_ne ys [] with rfl | hys
  · simp
  rcases eq_or_ne zs [] with rfl | hzs
  · simp
  have hhead : ((xs.rightpad offset fill).take offset).length = offset := by
    rw [List.length_take, List.length_rightpad]
    omega
  rw [overwrite_of_ne_nil fill _ _ hzs, overwrite_of_ne_nil fill _ _ hys,
    overwrite_of_ne_nil fill _ _ (List.append_ne_nil_of_left_ne_nil hys zs)]
  generalize (xs.rightpad offset fill).take offset = head at hhead
  have hlong : (head ++ ys).length = offset + ys.length := by simp [hhead]
  have hpad : (head ++ ys ++ xs.drop (offset + ys.length)).rightpad (offset + ys.length) fill =
      head ++ ys ++ xs.drop (offset + ys.length) := by
    rw [List.rightpad, Nat.sub_eq_zero_of_le (by rw [List.length_append]; omega)]
    simp
  rw [hpad, List.take_left' hlong, List.drop_append, hlong, List.drop_eq_nil_of_le (by omega),
    List.nil_append, List.drop_drop, List.length_append]
  simp only [List.append_assoc]
  congr 4
  omega

lemma length_overwrite {ys : List α} (h : ys ≠ []) :
    (overwrite fill xs ys offset).length = max xs.length (offset + ys.length) := by
  rw [overwrite_of_ne_nil fill _ _ h, List.length_append, List.length_append, List.length_take,
    List.length_rightpad, List.length_drop]
  omega

lemma getD_overwrite (i : ℕ) : (overwrite fill xs ys offset).getD i fill =
    if offset ≤ i ∧ i < offset + ys.length then ys.getD (i - offset) fill else xs.getD i fill := by
  rcases eq_or_ne ys [] with rfl | hys
  · rw [overwrite_nil, List.length_nil, if_neg (by omega)]
  have hhead : ((xs.rightpad offset fill).take offset).length = offset := by
    rw [List.length_take, List.length_rightpad]
    omega
  rw [overwrite_of_ne_nil fill _ _ hys]
  simp only [List.getD_eq_getElem?_getD]
  split_ifs with hin
  · rw [List.getElem?_append_left (by rw [List.length_append]; omega),
      List.getElem?_append_right (by omega), hhead]
  · rcases Nat.lt_or_ge i offset with hlt | hge
    · rw [List.getElem?_append_left (by rw [List.length_append]; omega),
        List.getElem?_append_left (by omega), List.getElem?_take_of_lt hlt, List.rightpad,
        List.getElem?_append, List.getElem?_replicate]
      split_ifs with hx
      · rfl
      · rw [List.getElem?_eq_none (by omega)]
        rfl
      · rw [List.getElem?_eq_none (by omega)]
    · rw [List.getElem?_append_right (by rw [List.length_append]; omega), List.length_append, hhead,
        List.getElem?_drop]
      congr 2
      omega

end ShitOs
