import ShitOs.Construction.Memmove
import Mathlib.Data.Int.Notation

/-!
# The text field

A model of the text field of `user/libui/controls.c`: `textfield_on_key` and
`ui_textfield_set_text`, on the buffer and the two counters.  The buffer is the memory from its
first byte on, so that a write behind its end would be seen.  What `ui_widget_invalidate` does is
left out, and so is painting.
-/

namespace ShitOs

def TEXT_MAX : ℕ := 256

def KEY_LEFT : BitVec 32 := 0x14B
def KEY_RIGHT : BitVec 32 := 0x14D
def KEY_HOME : BitVec 32 := 0x147
def KEY_END : BitVec 32 := 0x14F

/-- The bytes in front of the first NUL, and at most `limit` of them. -/
def stringAt (s : ℕ → BitVec 8) : ℕ → List (BitVec 8)
  | 0 => []
  | limit + 1 => if s 0 = 0 then [] else s 0 :: stringAt (fun i => s (i + 1)) limit

/-- `strncpy`: the string, and zeros behind it. -/
def strncpy (dest src : ℕ → BitVec 8) (n : ℕ) : ℕ → BitVec 8 := fun i =>
  if i < n then (stringAt src n)[i]?.getD 0 else dest i

/-- `strlen` of a string that ends within `TEXT_MAX` bytes. -/
def strlen (s : ℕ → BitVec 8) : ℕ := (stringAt s TEXT_MAX).length

/-- The fields of `UiKeyEvent` that are read here. -/
structure UiKeyEvent where
  keycode : BitVec 32
  codepoint : BitVec 32
  pressed : Bool

structure UiTextField where
  text : ℕ → BitVec 8
  length : ℤ
  caret : ℤ

namespace UiTextField

/-- `textfield_on_key` at a backspace. -/
def backspace (f : UiTextField) : UiTextField :=
  if f.caret > 0 then
    { text := ByteCopy.Libc.memmove f.text (f.caret - 1).toNat f.caret.toNat
        (f.length - f.caret + 1).toNat
      length := f.length - 1
      caret := f.caret - 1 }
  else f

/-- `textfield_on_key` at a printable character. -/
def insert (f : UiTextField) (c : BitVec 8) : UiTextField :=
  if f.length + 1 ≥ TEXT_MAX then f
  else
    let text := ByteCopy.Libc.memmove f.text (f.caret + 1).toNat f.caret.toNat
      (f.length - f.caret + 1).toNat
    { text := Function.update text f.caret.toNat c
      length := f.length + 1
      caret := f.caret + 1 }

/-- `textfield_on_key`, with what it returns. -/
def onKey (f : UiTextField) (event : UiKeyEvent) : UiTextField × Bool :=
  if event.pressed = false then (f, true)
  else if event.keycode = KEY_LEFT then
    (if f.caret > 0 then { f with caret := f.caret - 1 } else f, true)
  else if event.keycode = KEY_RIGHT then
    (if f.caret < f.length then { f with caret := f.caret + 1 } else f, true)
  else if event.keycode = KEY_HOME then ({ f with caret := 0 }, true)
  else if event.keycode = KEY_END then ({ f with caret := f.length }, true)
  else if event.codepoint = 8 then (f.backspace, true)
  else if event.codepoint < 32 ∨ event.codepoint > 126 then (f, false)
  else (f.insert (event.codepoint.setWidth 8), true)

/-- `ui_textfield_set_text`.  A null pointer is `none`. -/
def setText (f : UiTextField) (text : Option (ℕ → BitVec 8)) : UiTextField :=
  let t := Function.update (strncpy f.text (text.getD fun _ => 0) (TEXT_MAX - 1)) (TEXT_MAX - 1) 0
  ⟨t, strlen t, strlen t⟩

/-- What happens to a text field. -/
inductive Call
  | key (event : UiKeyEvent)
  | setText (text : Option (ℕ → BitVec 8))

def perform (f : UiTextField) : Call → UiTextField
  | .key event => (f.onKey event).1
  | .setText text => f.setText text

end UiTextField
end ShitOs
