import ShitOs.Construction.TextField
import ShitOs.Properties.Memmove

/-!
# The text field is a zipper

A `Zipper` is a text with a position in it.  `Holds` says that a field is one: the bytes in front
of the caret and behind it, and a NUL.  Every call keeps it (`Holds.perform`), and
`ui_textfield_set_text` establishes it in whatever was there before.
-/

namespace ShitOs

/-- A text with a position in it; the bytes in front of the position are nearest first. -/
structure Zipper where
  before : List (BitVec 8)
  after : List (BitVec 8)

namespace Zipper

def text (z : Zipper) : List (BitVec 8) := z.before.reverse ++ z.after

def left : Zipper → Zipper
  | ⟨c :: before, after⟩ => ⟨before, c :: after⟩
  | z => z

def right : Zipper → Zipper
  | ⟨before, c :: after⟩ => ⟨c :: before, after⟩
  | z => z

/-- Removes the byte in front of the position. -/
def delete (z : Zipper) : Zipper := ⟨z.before.tail, z.after⟩

/-- Puts a byte in front of the position, unless the text is as long as it may be. -/
def insert (z : Zipper) (c : BitVec 8) : Zipper :=
  if z.text.length < TEXT_MAX - 1 then ⟨c :: z.before, z.after⟩ else z

/-- A text of at most `TEXT_MAX - 1` bytes, with the position at its end. -/
def ofText (text : Option (ℕ → BitVec 8)) : Zipper :=
  ⟨(stringAt (text.getD fun _ => 0) (TEXT_MAX - 1)).reverse, []⟩

/-- What a key does. -/
def key (z : Zipper) (event : UiKeyEvent) : Zipper :=
  if event.pressed = false then z
  else if event.keycode = KEY_LEFT then z.left
  else if event.keycode = KEY_RIGHT then z.right
  else if event.keycode = KEY_HOME then ⟨[], z.text⟩
  else if event.keycode = KEY_END then ⟨z.text.reverse, []⟩
  else if event.codepoint = 8 then z.delete
  else if event.codepoint < 32 ∨ event.codepoint > 126 then z
  else z.insert (event.codepoint.setWidth 8)

def perform (z : Zipper) : UiTextField.Call → Zipper
  | .key event => z.key event
  | .setText text => ofText text

end Zipper

namespace UiTextField

open Function

/-- The field holds the text and the position of the zipper, and nothing behind the buffer has
changed. -/
structure Holds (outside : ℕ → BitVec 8) (f : UiTextField) (z : Zipper) : Prop where
  caret : f.caret = z.before.length
  length : f.length = z.text.length
  bound : z.text.length < TEXT_MAX
  bytes : ∀ i ≤ z.text.length, f.text i = z.text[i]?.getD 0
  frame : ∀ i, TEXT_MAX ≤ i → f.text i = outside i

variable {outside : ℕ → BitVec 8} {f : UiTextField} {z z' : Zipper}

section

variable (h : Holds outside f z)
include h

lemma Holds.move (z' : Zipper) (htext : z'.text = z.text) :
    Holds outside { f with caret := z'.before.length } z' where
  caret := rfl
  length := htext ▸ h.length
  bound := htext ▸ h.bound
  bytes := htext ▸ h.bytes
  frame := h.frame

lemma Holds.left :
    Holds outside (if f.caret > 0 then { f with caret := f.caret - 1 } else f) z.left := by
  obtain ⟨before, after⟩ := z
  have hcaret := h.caret
  cases before with
  | nil => rwa [if_neg (by simp [hcaret])]
  | cons c before =>
    have hmove := h.move ⟨before, c :: after⟩ (by simp [Zipper.text])
    rw [if_pos (by simp [hcaret]), show f.caret - 1 = before.length by simp [hcaret]]
    exact hmove

lemma Holds.right :
    Holds outside (if f.caret < f.length then { f with caret := f.caret + 1 } else f) z.right := by
  obtain ⟨before, after⟩ := z
  have hcaret := h.caret
  have hlen := h.length
  cases after with
  | nil => rwa [if_neg (by simp [hcaret, hlen, Zipper.text])]
  | cons c after =>
    have hmove := h.move ⟨c :: before, after⟩ (by simp [Zipper.text])
    have hlt : f.caret < f.length := by
      simp only [hcaret, hlen, Zipper.text, List.length_append, List.length_reverse,
        List.length_cons]
      omega
    rw [if_pos hlt, show f.caret + 1 = (c :: before).length by simp [hcaret]]
    exact hmove

/-- `memmove` closes the gap: the bytes behind the caret, and the NUL, move down by one. -/
lemma Holds.backspace : Holds outside f.backspace z.delete := by
  obtain ⟨before, after⟩ := z
  obtain ⟨hcaret, hlen, hbound, hbytes, hframe⟩ := h
  unfold UiTextField.backspace
  cases before with
  | nil =>
    rw [if_neg (by simp [hcaret])]
    exact ⟨hcaret, hlen, hbound, hbytes, hframe⟩
  | cons c before =>
    simp only [Zipper.text, Zipper.delete, List.reverse_cons, List.append_assoc, List.length_append,
      List.length_cons, List.length_reverse, List.length_nil] at *
    rw [if_pos (by omega), ByteCopy.Libc.memmove, ByteCopy.memmove_eq,
      show f.caret.toNat = before.length + 1 by
        omega, show (f.caret - 1).toNat = before.length by omega,
      show (f.length - f.caret + 1).toNat = after.length + 1 by omega]
    refine ⟨by simp; omega, by simp [Zipper.text]; omega, by simp [Zipper.text]; omega,
      fun i hi => ?_, fun i hi => (if_neg (by omega)).trans (hframe i hi)⟩
    simp only [Zipper.text, List.tail_cons, List.length_append, List.length_reverse] at hi ⊢
    unfold ByteCopy.moved
    grind

lemma Holds.insert (c : BitVec 8) : Holds outside (f.insert c) (z.insert c) := by
  obtain ⟨before, after⟩ := z
  have hlen := h.length
  unfold UiTextField.insert
  by_cases hfull : f.length + 1 ≥ TEXT_MAX
  · rw [if_pos hfull, Zipper.insert, if_neg (by omega)]
    exact h
  · rw [if_neg hfull, Zipper.insert, if_pos (by omega), ByteCopy.Libc.memmove, ByteCopy.memmove_eq]
    obtain ⟨hcaret, -, hbound, hbytes, hframe⟩ := h
    simp only [Zipper.text, List.length_append, List.length_reverse] at *
    rw [show f.caret.toNat =
      before.length by omega, show (f.caret + 1).toNat = before.length + 1 by omega,
      show (f.length - f.caret + 1).toNat = after.length + 1 by omega]
    refine ⟨by simp [hcaret], by simp [Zipper.text]; omega, by simp [Zipper.text]; omega,
      fun i hi => ?_, fun i hi =>
      (update_of_ne (by omega) ..).trans ((if_neg (by omega)).trans (hframe i hi))⟩
    simp only [Zipper.text, List.reverse_cons, List.append_assoc, List.length_append,
      List.length_reverse] at hi ⊢
    unfold ByteCopy.moved
    grind [update_apply]

omit h in
/-- A string that is followed by a NUL is read back. -/
lemma stringAt_eq {s : ℕ → BitVec 8} {l : List (BitVec 8)} {limit : ℕ} (hnul : ∀ c ∈ l, c ≠ 0)
    (hlimit : l.length < limit) (hs : ∀ i ≤ l.length, s i = l[i]?.getD 0) :
    stringAt s limit = l := by
  induction l generalizing s limit with
  | nil =>
    cases limit with
    | zero => rfl
    | succ limit => exact if_pos (hs 0 (by simp))
  | cons c l ih =>
    obtain ⟨limit, rfl⟩ := Nat.exists_eq_add_of_lt (Nat.zero_lt_of_lt hlimit)
    rw [List.length_cons] at hlimit hs
    have hc : s 0 = c := hs 0 (by omega)
    rw [Nat.zero_add, stringAt, hc, if_neg (hnul c List.mem_cons_self)]
    rw [ih (fun d hd => hnul d (List.mem_cons_of_mem c hd)) (by omega) fun i hi =>
      hs (i + 1) (by omega)]

omit h in
lemma stringAt_spec (s : ℕ → BitVec 8) (limit : ℕ) :
    (stringAt s limit).length ≤ limit ∧ ∀ c ∈ stringAt s limit, c ≠ 0 := by
  induction limit generalizing s with
  | zero => simp [stringAt]
  | succ limit ih =>
    obtain ⟨hlen, hnul⟩ := ih fun i => s (i + 1)
    rw [stringAt]
    by_cases h : s 0 = 0
    · rw [if_pos h]
      simp
    · rw [if_neg h]
      exact ⟨Nat.succ_le_succ hlen, List.forall_mem_cons.mpr ⟨h, hnul⟩⟩

omit h in
/-- Whatever was there, the field holds the text that it is given. -/
lemma holds_setText (f : UiTextField) (text : Option (ℕ → BitVec 8)) :
    Holds f.text (f.setText text) (.ofText text) := by
  obtain ⟨hlen, hnul⟩ := stringAt_spec (text.getD fun _ => 0) (TEXT_MAX - 1)
  have htext : (Zipper.ofText text).text = stringAt (text.getD fun _ => 0) (TEXT_MAX - 1) := by
    simp [Zipper.ofText, Zipper.text]
  have hbytes : ∀ i ≤ (Zipper.ofText text).text.length,
      (f.setText text).text i = (Zipper.ofText text).text[i]?.getD 0 := by
    intro i hi
    rw [htext] at hi ⊢
    unfold setText strncpy
    grind [update_apply]
  rw [← htext] at hlen hnul
  have hlt : (Zipper.ofText text).text.length < TEXT_MAX := by
    unfold TEXT_MAX at hlen ⊢
    omega
  have hstrlen : strlen (f.setText text).text = (Zipper.ofText text).text.length :=
    congrArg List.length (stringAt_eq hnul hlt hbytes)
  have hcaret : (Zipper.ofText text).before.length = (Zipper.ofText text).text.length := by
    simp [Zipper.ofText, Zipper.text]
  refine ⟨congrArg Nat.cast (hstrlen.trans hcaret.symm), congrArg Nat.cast hstrlen, hlt, hbytes,
    fun i hi => ?_⟩
  unfold setText strncpy
  dsimp only
  rw [update_of_ne (by omega), if_neg (by omega)]

lemma Holds.ite {c : Prop} [Decidable c] {f' : UiTextField} {z' : Zipper}
    (h' : Holds outside f' z') : Holds outside (if c then f else f') (if c then z else z') := by
  split_ifs
  · exact h
  · exact h'

lemma Holds.perform (call : Call) : Holds outside (f.perform call) (z.perform call) := by
  cases call with
  | setText text =>
    have hset := holds_setText f text
    exact { hset with frame := fun i hi => (hset.frame i hi).trans (h.frame i hi) }
  | key event =>
    have hhome := h.move ⟨[], z.text⟩ (by simp [Zipper.text])
    have hend := h.move ⟨z.text.reverse, []⟩ (by simp [Zipper.text])
    rw [List.length_reverse, ← h.length] at hend
    simp only [UiTextField.perform, onKey, apply_ite Prod.fst, Zipper.perform, Zipper.key]
    -- The tests are the same on both sides.
    apply h.ite
    apply h.left.ite
    apply h.right.ite
    apply hhome.ite
    apply hend.ite
    apply h.backspace.ite
    apply h.ite
    exact h.insert _

lemma Holds.inRange :
    0 ≤ f.caret ∧ f.caret ≤ f.length ∧ f.length < TEXT_MAX ∧ f.text f.length.toNat = 0 := by
  obtain ⟨hcaret, hlen, hbound, hbytes, -⟩ := h
  have hnul := hbytes _ le_rfl
  rw [List.getElem?_eq_none le_rfl] at hnul
  simp only [Zipper.text, List.length_append, List.length_reverse] at hlen hbound hnul
  refine ⟨by omega, by omega, by omega, ?_⟩
  rwa [hlen]

end

/-- Whatever a text field is given and whatever keys are pressed, it behaves as a zipper over at
most `TEXT_MAX - 1` bytes, with its caret in the text and a NUL behind it. -/
theorem textField_refines_zipper (f : UiTextField) (text : Option (ℕ → BitVec 8))
    (calls : List Call) :
    let f' := calls.foldl perform (f.setText text)
    Holds f.text f' (calls.foldl Zipper.perform (.ofText text)) ∧
      0 ≤ f'.caret ∧ f'.caret ≤ f'.length ∧ f'.length < TEXT_MAX ∧ f'.text f'.length.toNat = 0 := by
  have hholds : Holds f.text (calls.foldl perform (f.setText text))
      (calls.foldl Zipper.perform (.ofText text)) := by
    induction calls using List.reverseRecOn with
    | nil => exact holds_setText f text
    | append_singleton calls call ih =>
      rw [List.foldl_concat, List.foldl_concat]
      exact ih.perform call
  exact ⟨hholds, hholds.inRange⟩

end UiTextField
end ShitOs
