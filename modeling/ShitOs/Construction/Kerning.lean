import Mathlib.Data.BitVec
import Mathlib.Tactic.Common

/-!
# Kerning

A model of `tt_kern` (`user/libui/truetype.c`), which looks up by how much a pair of glyphs is moved
together.  A pointer into the font is an offset.
-/

namespace ShitOs

/-- What `tt_kern` reads of a font. -/
structure TtFont where
  data : ℕ → BitVec 8
  /-- Where the table is; 0 if there is none. -/
  kern : ℕ

namespace TtFont

def u16At (data : ℕ → BitVec 8) (p : ℕ) : ℕ :=
  (data p).toNat <<< 8 ||| (data (p + 1)).toNat

def i16At (data : ℕ → BitVec 8) (p : ℕ) : ℤ :=
  (BitVec.ofNat 16 (u16At data p)).toInt

def u32At (data : ℕ → BitVec 8) (p : ℕ) : ℕ :=
  (data p).toNat <<< 24 ||| (data (p + 1)).toNat <<< 16 ||| (data (p + 2)).toNat <<< 8 |||
    (data (p + 3)).toNat

/-- The binary search of `tt_kern` in the pairs of a subtable. -/
def search (data : ℕ → BitVec 8) (subtable want low high : ℕ) : Option ℤ :=
  if low < high then
    let middle := (low + high) / 2
    let entry := subtable + 14 + middle * 6
    let key := u32At data entry
    if key < want then search data subtable want (middle + 1) high
    else if want < key then search data subtable want low middle
    else some (i16At data (entry + 4))
  else none
termination_by high - low

/-- The loop of `tt_kern` over the subtables. -/
def kernLoop (data : ℕ → BitVec 8) (left right : ℕ) : ℕ → ℕ → ℤ
  | 0, _ => 0
  | tables + 1, subtable =>
    let length := u16At data (subtable + 2)
    let coverage := u16At data (subtable + 4)
    let found :=
      if coverage &&& 0xff00 = 0 ∧ coverage &&& 1 ≠ 0 then
        search data subtable ((left <<< 16 ||| right) % 2 ^ 32) 0 (u16At data (subtable + 6))
      else none
    match found with
    | some value => value
    | none => kernLoop data left right tables (subtable + length)

def ttKern (font : TtFont) (left right : ℕ) : ℤ :=
  if font.kern = 0 then 0
  else kernLoop font.data left right (u16At font.data (font.kern + 2)) (font.kern + 4)

end TtFont
end ShitOs
