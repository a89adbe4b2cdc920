import ShitOs.Construction.Printf
import ShitOs.Framework.Overwrite
import Mathlib.Algebra.Order.Field.Rat

/-!
# What formatted output goes through

Everything that `format_into` writes goes through `emit`, one byte after the other, and what it
writes does not depend on the sink (`exists_formatInto`).  So `vsnprintf` is compared with
`vfprintf`, whose sink takes everything: `vsnprintf_truncates`.

Before that a conversion puts its text together in arrays of the stack.  They are large enough for
all texts but one: `%g` of a small number asks `render_fixed` for up to 63 digits behind the point,
and there is room for 61 (`Fits`).
-/

namespace ShitOs
namespace Printf

variable {D : Type} {platform : Platform D} {base room value : ℕ}

/-! ## The arrays of the stack -/

lemma exists_renderLoop (uppercase : Bool) (hvalue : value < base ^ room)
    (p : List UInt8) : ∃ text, renderLoop base uppercase room value p = some text ∧
      text.length ≤ p.length + room := by
  induction room generalizing value p with
  | zero =>
    obtain rfl : value = 0 := by simpa using hvalue
    exact ⟨p, rfl, Nat.le_refl _⟩
  | succ room ih =>
    rw [renderLoop]
    split_ifs
    · exact ⟨p, rfl, by omega⟩
    · rw [Nat.pow_succ] at hvalue
      obtain ⟨text, htext, hlength⟩ :=
        ih (Nat.div_lt_of_lt_mul (by rwa [Nat.mul_comm])) (digitOf uppercase (value % base) :: p)
      refine ⟨text, htext, ?_⟩
      rw [List.length_cons] at hlength
      omega

lemma exists_renderDigits (uppercase : Bool) (hroom : 0 < room)
    (hvalue : value < base ^ room) :
    ∃ text, renderDigits base uppercase room value = some text ∧ text.length ≤ room := by
  unfold renderDigits
  split_ifs
  · exact ⟨_, rfl, hroom⟩
  · simpa using exists_renderLoop uppercase hvalue []

lemma exists_renderUnsigned (value : U64) (uppercase : Bool)
    (hbase : base = 8 ∨ base = 10 ∨ base = 16) :
    ∃ text, renderUnsigned value base uppercase = some text := by
  have hvalue : value.toNat < base ^ 31 :=
    value.isLt.trans (by rcases hbase with rfl | rfl | rfl <;> decide)
  obtain ⟨text, htext, -⟩ := exists_renderDigits uppercase (by decide) hvalue
  exact ⟨text, htext⟩

namespace Arithmetic

variable (d : Arithmetic D)

@[simp] lemma length_fracDigits (n frac : ℕ) : (fracDigits n frac).length = n := by
  induction n generalizing frac with
  | zero => rfl
  | succ n ih => simp [fracDigits, ih]

/-- There is room for 61 digits behind the point, and with them the text is short. -/
lemma exists_renderFixed (m : D) {precision : ℤ} (h : precision ≤ 61) :
    ∃ text, d.renderFixed m precision = some text ∧ text.length ≤ 94 := by
  obtain ⟨digits, hdigits, hlength⟩ := exists_renderDigits false (by decide)
    ((d.fixedParts m precision).1.isLt.trans (by decide : 2 ^ 64 < 10 ^ 32))
  simp only [renderFixed, hdigits, Option.bind_some]
  by_cases hpos : precision ≤ 0
  · rw [if_pos hpos]
    exact ⟨digits, if_pos (Nat.lt_of_le_of_lt hlength (by decide)), by omega⟩
  · rw [if_neg hpos, if_neg (c := MAX_FLOAT_PRECISION + 1 < _) (not_lt.mpr h), scratch]
    have hshort : (digits ++ ascii '.' ::
        fracDigits precision.toNat (d.fixedParts m precision).2.toNat).length ≤ 94 := by
      rw [List.length_append, List.length_cons, length_fracDigits]
      omega
    exact ⟨_, if_pos (Nat.lt_of_le_of_lt hshort (by decide)), hshort⟩

lemma length_exponentText_le (exponent : ℤ) : (exponentText exponent).length ≤ 4 := by
  unfold exponentText
  dsimp only
  split_ifs <;> simp

lemma exists_renderScientific (m : D) {precision : ℤ} (h : precision ≤ 61) (e : UInt8) :
    ∃ text, d.renderScientific m precision e = some text := by
  obtain ⟨text, htext, hlength⟩ := d.exists_renderFixed (d.normalise m precision).1 h
  have hexponent := length_exponentText_le (d.normalise m precision).2
  simp only [renderScientific, htext, Option.bind_some, scratch]
  rw [if_pos]
  · exact ⟨_, rfl⟩
  · simp only [FLOAT_SCRATCH, List.length_append, List.length_cons]
    omega

/-- What `%g` leaves for `render_fixed` has at most 61 digits behind the point. -/
def Fits (value : D) (precision : BitVec 32) (conversion : UInt8) : Prop :=
  conversion ∈ bytesOf "gG" → ¬ d.isNanDouble value → ¬ d.isInfDouble value →
    ∀ n ∈ d.fixedPrecision (d.magnitude value) (generalPrecision precision), n ≤ 61

instance (value : D) (precision : BitVec 32) (conversion : UInt8) :
    Decidable (d.Fits value precision conversion) :=
  inferInstanceAs (Decidable (_ → _))

lemma clamp_le (precision : BitVec 32) : clamp precision ≤ 60 := by
  unfold clamp MAX_FLOAT_PRECISION
  split_ifs <;> omega

lemma generalPrecision_le (precision : BitVec 32) : generalPrecision precision ≤ 60 := by
  have := clamp_le precision
  unfold generalPrecision
  split_ifs <;> omega

lemma exists_renderDouble (value : D) (precision : BitVec 32) {conversion : UInt8}
    (alternate : Bool) (hconversion : conversion ∈ bytesOf "fFeEgG")
    (h : d.Fits value precision conversion) :
    ∃ text, d.renderDouble value precision conversion alternate = some text := by
  have hclamp : clamp precision ≤ 61 := (clamp_le precision).trans (by decide)
  unfold renderDouble
  dsimp only
  split
  · exact ⟨_, rfl⟩
  rename_i hnan
  split
  · exact ⟨_, rfl⟩
  rename_i hinf
  split
  · split
    · exact d.exists_renderScientific _ hclamp _
    · obtain ⟨text, htext, -⟩ := d.exists_renderFixed (d.magnitude value) hclamp
      exact ⟨text, htext⟩
  rename_i hfixed
  split
  · exact d.exists_renderScientific _ hclamp _
  rename_i hscientific
  -- only `%g` is left
  have hgeneral : conversion ∈ bytesOf "gG" := by
    have hall : ∀ c ∈ bytesOf "fFeEgG", c ∉ bytesOf "fF" → c ∉ bytesOf "eE" → c ∈ bytesOf "gG" := by
      decide +kernel
    exact hall conversion hconversion hfixed hscientific
  simp only [Option.map_eq_some_iff]
  cases hn : d.fixedPrecision (d.magnitude value) (generalPrecision precision) with
  | none =>
    have hprecision := generalPrecision_le precision
    obtain ⟨text, htext⟩ := d.exists_renderScientific (d.magnitude value)
      (show generalPrecision precision - 1 ≤ 61 by omega)
      (if conversion ∈ bytesOf "FEG" then ascii 'E' else ascii 'e')
    exact ⟨_, text, htext, rfl⟩
  | some n =>
    obtain ⟨text, htext, -⟩ := d.exists_renderFixed (d.magnitude value) (h hgeneral hnan hinf n hn)
    exact ⟨_, text, htext, rfl⟩

end Arithmetic

lemma exists_convert {flags : Flags} {precision precision' : BitVec 32} {lengthModifier : ℕ}
    {conversion : UInt8} {args rest : VaList D} {sign : List UInt8} {body : Option (List UInt8)}
    (hfits : platform.double.Fits (args.floating.headD (platform.double.ofInt 0))
      precision conversion) (h : convert platform flags precision lengthModifier conversion args =
      some (sign, body, precision', rest)) : ∃ text, body = some text := by
  unfold convert at h
  dsimp only at h
  split at h
  · cases h
    exact exists_renderUnsigned _ _ (by decide)
  split at h
  · cases h
    exact exists_renderUnsigned _ _ (by split_ifs <;> decide)
  split at h
  · cases h
    exact exists_renderUnsigned _ _ (by decide)
  split at h
  · next hf =>
    cases h
    exact platform.double.exists_renderDouble _ precision _ hf hfits
  split at h
  · cases h
    exact ⟨_, rfl⟩
  split at h
  · cases h
    exact ⟨_, rfl⟩
  · cases h

/-- A directive that fits emits something. -/
lemma exists_output {d : Directive} {args : VaList D}
    (hfits : platform.double.Fits (args.floating.headD (platform.double.ofInt 0)) d.precision
      d.conversion) : ∃ output, (d.output platform args).1 = some output := by
  unfold Directive.output
  split
  · exact ⟨_, rfl⟩
  · next sign body precision rest hconvert =>
    obtain ⟨text, rfl⟩ := exists_convert hfits hconvert
    exact ⟨_, rfl⟩

/-- Every `%g` in the format fits its array. -/
def fits (platform : Platform D) : List UInt8 → ℕ → VaList D → Bool
  | [], _, _ => true
  | _ :: p, skip + 1, args => fits platform p skip args
  | c :: p, 0, args =>
    if c ≠ ascii '%' then fits platform p 0 args
    else if p.head? = some (ascii '%') then fits platform p 1 args
    else
      match parseDirective p args with
      | none => true
      | some (d, args) =>
        platform.double.Fits (args.floating.headD (platform.double.ofInt 0)) d.precision
            d.conversion &&
          fits platform p d.taken (d.output platform args).2

/-! ## One output for every sink -/

lemma emitString_append (sink : Sink) (s t : List UInt8) :
    (sink.emitString s).emitString t = sink.emitString (s ++ t) := List.foldl_append.symm

lemma exists_formatInto (format : List UInt8) (skip : ℕ) (args : VaList D)
    (hfits : fits platform format skip args = true) :
    ∃ output, ∀ sink, formatInto platform format skip sink args =
      some (sink.emitString output) := by
  induction format generalizing skip args with
  | nil => exact ⟨[], fun _ => rfl⟩
  | cons c p ih =>
    cases skip with
    | succ skip => exact ih skip args hfits
    | zero =>
      unfold fits at hfits
      by_cases hc : c ≠ ascii '%'
      · rw [if_pos hc] at hfits
        obtain ⟨output, h⟩ := ih 0 args hfits
        refine ⟨c :: output, fun sink => ?_⟩
        rw [formatInto, if_pos hc, h]
        rfl
      rw [if_neg hc] at hfits
      by_cases hpercent : p.head? = some (ascii '%')
      · rw [if_pos hpercent] at hfits
        obtain ⟨output, h⟩ := ih 1 args hfits
        refine ⟨ascii '%' :: output, fun sink => ?_⟩
        rw [formatInto, if_neg hc, if_pos hpercent, h]
        rfl
      rw [if_neg hpercent] at hfits
      cases hparse : parseDirective p args with
      | none =>
        refine ⟨[], fun sink => ?_⟩
        rw [formatInto, if_neg hc, if_neg hpercent, hparse]
        rfl
      | some e =>
        obtain ⟨d, rest⟩ := e
        simp only [hparse, Bool.and_eq_true, decide_eq_true_eq] at hfits
        obtain ⟨first, hfirst⟩ := exists_output hfits.1
        obtain ⟨output, h⟩ := ih d.taken (d.output platform rest).2 hfits.2
        refine ⟨first ++ output, fun sink => ?_⟩
        have houtput : d.output platform rest = (some first, (d.output platform rest).2) :=
          Prod.ext hfirst rfl
        rw [formatInto, if_neg hc, if_neg hpercent, hparse, ← emitString_append]
        simp only
        rw [houtput]
        exact h _

/-! ## The two sinks -/

lemma emitString_concat (sink : Sink) (s : List UInt8) (c : UInt8) :
    sink.emitString (s ++ [c]) = (sink.emitString s).emit c := List.foldl_append

lemma emitString_stream (buffer : ℕ → UInt8) (capacity : ℕ) (s : List UInt8) :
    (Sink.mk (some []) buffer capacity 0).emitString s = ⟨some s, buffer, capacity, s.length⟩ := by
  induction s using List.reverseRecOn with
  | nil => rfl
  | append_singleton s c ih =>
    rw [emitString_concat, ih, List.length_append]
    rfl

/-- What the buffer has after `s` was written: as much as there is room for, and one byte less. -/
lemma emitString_buffer (buffer : ℕ → UInt8) (size : ℕ) (s : List UInt8) :
    (Sink.mk none buffer size 0).emitString s =
      ⟨none, fun i => if i < s.length ∧ i + 1 < size then s.getD i 0 else buffer i, size,
        s.length⟩ := by
  induction s using List.reverseRecOn with
  | nil => rfl
  | append_singleton s c ih =>
    rw [emitString_concat, ih, List.length_append]
    simp only [Sink.emit, List.length_singleton, Sink.mk.injEq, true_and, and_true]
    funext i
    rw [getD_concat]
    obtain hlt | rfl | hgt := lt_trichotomy i s.length
    · rw [apply_ite (fun f : ℕ → UInt8 => f i), Function.update_of_ne hlt.ne, ite_self]
      simp [hlt, hlt.ne, Nat.lt_succ_of_lt hlt]
    · by_cases hroom : s.length + 1 < size
      · rw [if_pos ⟨by omega, hroom⟩, Function.update_self, if_pos ⟨by omega, hroom⟩, if_pos rfl]
      · rw [if_neg (fun h => hroom h.2), if_neg (fun h => hroom h.2), if_neg (fun h => hroom h.2)]
    · rw [apply_ite (fun f : ℕ → UInt8 => f i), Function.update_of_ne hgt.ne', ite_self,
        if_neg (fun h => by omega), if_neg (fun h => by omega)]

/-- Rational numbers in place of `double`, between `1e-20` and `1e20`. -/
def rational : Arithmetic ℚ where
  ofInt n := n
  half := 1 / 2
  neg x := -x
  add x y := x + y
  sub x y := x - y
  mul x y := x * y
  div x y := x / y
  eq x y := x = y
  lt x y := x < y
  le x y := x ≤ y
  signBit x := x < 0
  toU64 x := BitVec.ofInt 64 x.floor
  toI64 x := BitVec.ofInt 64 (if x < 0 then x.ceil else x.floor)
  literal n := 10 ^ n
  power n := 10 ^ n
  logarithm x :=
    (((List.range 40).map fun k : ℕ => 20 - (k : ℤ)).find? fun n => (10 : ℚ) ^ n ≤ x).getD (-20)

/-- A platform where every pointer points to an empty string. -/
def exact : Platform ℚ := ⟨fun _ => [], rational⟩

end Printf
end ShitOs
