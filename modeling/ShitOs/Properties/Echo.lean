import ShitOs.Framework.Overwrite
import ShitOs.Properties.LineDiscipline
import Mathlib.Data.List.Induction

/-!
# What is echoed and what is edited

In canonical mode the line being edited is shown by echoing what is typed.  The discipline does not
remember what it echoed for a byte: a printable byte takes one column and every other byte two, but
an erased byte is taken from the row with one backspace, one space and one backspace.

`Shows` is the relation between the row and the line, and `shows_iff` says what a run has to do to
keep it: no byte of two columns is erased, and no byte is typed whose second column is not
printable. `char` is signed, so every byte above 127 is below 32 and gets a caret as well; what
follows the caret may then be a control character itself.
-/

namespace ShitOs

open Function Transition LineDiscipline

/-! ## The row -/

def Printable (c : UInt8) : Prop := 32 ≤ c ∧ c < 127

instance (c : UInt8) : Decidable (Printable c) := inferInstanceAs (Decidable (_ ∧ _))

/-- A row of a terminal. -/
structure EchoRow where
  cells : ℕ → UInt8
  cursor : ℕ

namespace EchoRow

variable {c : UInt8}

def blank : EchoRow := ⟨fun _ => SPACE, 0⟩

/-- What the terminal does with a byte it is sent. -/
def put (r : EchoRow) (c : UInt8) : EchoRow :=
  if c = NEWLINE then blank
  else if c = BACKSPACE then { r with cursor := r.cursor - 1 }
  else if Printable c then ⟨update r.cells r.cursor c, r.cursor + 1⟩
  else r

variable {r : EchoRow}

lemma put_of_printable (h : Printable c) : r.put c = ⟨update r.cells r.cursor c, r.cursor + 1⟩ := by
  have hnewline : c ≠ NEWLINE := by
    rintro rfl
    exact absurd h (by decide)
  have hbackspace : c ≠ BACKSPACE := by
    rintro rfl
    exact absurd h (by decide)
  rw [put, if_neg hnewline, if_neg hbackspace, if_pos h]

lemma printable_put (h : ∀ i, Printable (r.cells i)) (c : UInt8) (i : ℕ) :
    Printable ((r.put c).cells i) := by
  unfold put
  split_ifs with _ _ hc
  · exact (by decide : Printable SPACE)
  · exact h i
  · obtain rfl | hne := eq_or_ne i r.cursor
    · simpa using hc
    · simpa [hne] using h i
  · exact h i

lemma printable_foldl (bytes : List UInt8) (h : ∀ i, Printable (r.cells i)) (i : ℕ) :
    Printable ((bytes.foldl put r).cells i) := by
  induction bytes generalizing r with
  | nil => exact h i
  | cons c bytes ih => exact ih (printable_put h c)

/-- The row has `text` from `start` on, nothing behind it, and the cursor at its end. -/
structure Has (r : EchoRow) (start : ℕ) (text : List UInt8) : Prop where
  cursor : r.cursor = start + text.length
  cells : ∀ i, r.cells (start + i) = text.getD i SPACE

variable {start : ℕ} {text : List UInt8}

lemma has_blank : blank.Has 0 [] := ⟨rfl, fun _ => rfl⟩

lemma Has.put (h : r.Has start text) (hc : Printable c) : (r.put c).Has start (text ++ [c]) := by
  rw [put_of_printable hc]
  refine ⟨by simp [h.cursor, Nat.add_assoc], fun i => ?_⟩
  rw [getD_concat, ← h.cells, h.cursor]
  simp only [update_apply, Nat.add_left_cancel_iff]

lemma Has.puts {bytes : List UInt8} (h : r.Has start text) (hbytes : ∀ b ∈ bytes, Printable b) :
    (bytes.foldl EchoRow.put r).Has start (text ++ bytes) := by
  induction bytes generalizing r text with
  | nil => simpa using h
  | cons b bytes ih =>
    simpa using ih (h.put (hbytes b (by simp))) fun c hc => hbytes c (by simp [hc])

lemma Has.rubOut (h : r.Has start (text ++ [c])) :
    ([BACKSPACE, SPACE, BACKSPACE].foldl EchoRow.put r).Has start text := by
  have hcursor : r.cursor - 1 = start + text.length := by
    have := h.cursor
    simp only [List.length_append, List.length_singleton] at this
    omega
  have hbackspace : ∀ r : EchoRow, r.put BACKSPACE = { r with cursor := r.cursor - 1 } := fun _ =>
    rfl
  simp only [List.foldl_cons, List.foldl_nil, hbackspace,
    put_of_printable (show Printable SPACE by decide), hcursor, Nat.add_sub_cancel]
  refine ⟨rfl, fun i => ?_⟩
  have hcell := h.cells i
  rw [getD_concat] at hcell
  simp only [update_apply, Nat.add_left_cancel_iff]
  split_ifs at hcell ⊢ with hi
  · rw [hi, List.getD_eq_default _ _ le_rfl]
  · exact hcell

lemma Has.rubOuts :
    ∀ {n : ℕ} {r : EchoRow} {text : List UInt8}, r.Has start text → n ≤ text.length →
    ((List.replicate n [BACKSPACE, SPACE, BACKSPACE]).flatten.foldl EchoRow.put r).Has start
      (text.take (text.length - n))
  | 0, r, text, h, _ => by simpa using h
  | n + 1, r, text, h, hle => by
    obtain ⟨before, c, rfl⟩ := (List.eq_nil_or_concat' text).resolve_left
      (by rintro rfl; simp at hle)
    simp only [List.length_append, List.length_singleton] at hle
    have hrest := h.rubOut.rubOuts (n := n) (by omega)
    rw [List.replicate_succ, List.flatten_cons, List.foldl_append, List.length_append,
      List.length_singleton, Nat.add_sub_add_right, List.take_append_of_le_length (Nat.sub_le _ _)]
    exact hrest

lemma Has.cursor_inj {text' : List UInt8} (h : r.Has start text) (h' : r.Has start text') :
    text.length = text'.length := by
  have := h.cursor.symm.trans h'.cursor
  omega

end EchoRow

/-! ## The line on the row -/

/-- How a byte is shown. -/
def caretOf (c : UInt8) : List UInt8 := if Printable c then [c] else [CARET, c + AT]

def rendering (line : List UInt8) : List UInt8 := line.flatMap caretOf

lemma length_caretOf (c : UInt8) : (caretOf c).length = if Printable c then 1 else 2 := by
  unfold caretOf
  split_ifs <;> rfl

lemma rendering_append (line : List UInt8) (c : UInt8) :
    rendering (line ++ [c]) = rendering line ++ caretOf c := by
  simp [rendering]

lemma length_le_rendering (line : List UInt8) : line.length ≤ (rendering line).length := by
  induction line using List.reverseRecOn with
  | nil => simp [rendering]
  | append_singleton line c ih =>
    rw [rendering_append, List.length_append, List.length_append, length_caretOf]
    split_ifs <;> simp <;> omega

lemma length_rendering_eq (line : List UInt8) :
    (rendering line).length = line.length ↔ ∀ c ∈ line, Printable c := by
  induction line using List.reverseRecOn with
  | nil => simp [rendering]
  | append_singleton line c ih =>
    have hle := length_le_rendering line
    rw [rendering_append, List.length_append, List.length_append, length_caretOf]
    simp only [List.mem_append, List.mem_singleton, or_imp, forall_and, forall_eq, ← ih,
      List.length_singleton]
    split_ifs with hc
    · simp [hc]
    · simp only [hc, and_false, iff_false]
      omega

/-- A terminal in canonical mode, the row it is echoed on, and where on the row the line starts. -/
structure EditedLine where
  discipline : LineDiscipline
  row : EchoRow
  start : ℕ

namespace EditedLine

/-- A byte is typed.  After the end of a line the text starts at the cursor. -/
def type (e : EditedLine) (byte : UInt8) : EditedLine :=
  let fed := e.discipline.feed byte
  let row := fed.2.echoed.foldl EchoRow.put e.row
  { discipline := fed.1
    row := row
    start :=
      match e.discipline.termios.key byte with
      | .signal | .endOfFile | .newline => row.cursor
      | _ => e.start }

/-- A terminal that was just set up, on a blank row. -/
def initial (adoptsReaders : Bool) : EditedLine := ⟨.configured adoptsReaders, .blank, 0⟩

/-- The row shows the line, with the cursor right after it. -/
def Shows (e : EditedLine) : Prop := e.row.Has e.start (rendering e.discipline.line)

/-- What the echo can follow: a byte with a printable picture, and erasing bytes of one column. -/
def Follows (e : EditedLine) (byte : UInt8) : Prop :=
  match e.discipline.termios.key byte with
  | .erase => ∀ c ∈ e.discipline.line.getLast?, Printable c
  | .kill => ∀ c ∈ e.discipline.line, Printable c
  | .ordinary c => e.discipline.line.length + 1 < LINE_BUFFER_SIZE → ∀ b ∈ caretOf c, Printable b
  | _ => True

/-- The modes are those of `configure`, and the terminal shows nothing but printable bytes. -/
structure Default (e : EditedLine) : Prop where
  modes : e.discipline.termios = defaultTermios
  printable : ∀ i, Printable (e.row.cells i)

variable {e : EditedLine}

lemma key_default (byte : UInt8) : (∀ c, defaultTermios.key byte ≠ .raw c) ∧
      ∀ c, defaultTermios.key byte = .ordinary c → c ≠ NEWLINE ∧ c ≠ BACKSPACE ∧ c ≠ DELETE := by
  have hcanonical : defaultTermios.lflag &&& ICANON ≠ 0 := by decide
  unfold Termios.key
  generalize (if defaultTermios.iflag &&& ICRNL ≠ 0 ∧ byte = CARRIAGE_RETURN then NEWLINE
    else byte) = b
  dsimp only
  split_ifs with _ herase _ _ hnewline
  case neg =>
    refine ⟨by simp, ?_⟩
    rintro c ⟨⟩
    rw [not_or] at herase
    exact ⟨hnewline, herase.1, herase.2⟩
  all_goals simp

/-- With the echo on, a byte that is kept is echoed as it is shown. -/
lemma echo_eq {s : LineDiscipline} (hmodes : s.termios = defaultTermios) {c : UInt8}
    (hnewline : c ≠ NEWLINE) (hbackspace : c ≠ BACKSPACE) (hdelete : c ≠ DELETE) :
    s.echo c = caretOf c := by
  have hecho : s.termios.lflag &&& ECHO ≠ 0 := by
    rw [hmodes]
    decide
  rw [echo, if_neg hecho, if_neg hnewline, if_neg hbackspace, caretOf]
  by_cases hprintable : Printable c
  · exact (if_pos hprintable).trans (if_pos hprintable).symm
  · have hcontrol : c < 32 ∨ 128 ≤ c := by
      have hne : c.toNat ≠ 127 := fun heq => hdelete (UInt8.toNat_inj.mp heq)
      simp only [Printable, UInt8.le_iff_toNat_le, UInt8.lt_iff_toNat_lt] at hprintable ⊢
      simp at hprintable ⊢
      omega
    rw [if_neg hprintable]
    exact (if_neg hprintable).trans (if_pos hcontrol)

lemma Default.type (h : e.Default) (byte : UInt8) : (e.type byte).Default := by
  refine ⟨?_, EchoRow.printable_foldl _ h.printable⟩
  rw [← h.modes]
  simp only [EditedLine.type, (feed_cases byte).1]
  cases e.discipline.termios.key byte with
  | raw c =>
    simp only [press, pushReady]
    split_ifs <;> rfl
  | ordinary c =>
    simp only [press]
    split_ifs <;> rfl
  | endOfFile | newline => exact commitLine_modes.1
  | _ => rfl

/-- **One byte.**  The row goes on showing the line exactly if the echo can follow. -/
lemma Shows.type_iff (h : e.Shows) (hd : e.Default) (byte : UInt8) :
    (e.type byte).Shows ↔ e.Follows byte := by
  obtain ⟨hpress, b, hechoed⟩ := feed_cases (s := e.discipline) byte
  have hcells := (hd.type byte).printable
  obtain ⟨hraw, hordinary⟩ := key_default byte
  rw [← hd.modes] at hraw hordinary
  have hnewline : e.discipline.echo NEWLINE = [NEWLINE] := by
    rw [echo, hd.modes]
    rfl
  have hbackspace : e.discipline.echo BACKSPACE = [BACKSPACE, SPACE, BACKSPACE] := by
    rw [echo, hd.modes]
    rfl
  unfold Shows at h ⊢
  unfold Follows
  simp only [EditedLine.type, hpress, hechoed] at hcells ⊢
  cases hkey : e.discipline.termios.key byte with
  | raw c => exact absurd hkey (hraw c)
  | signal =>
    simp only [echoes, hnewline, List.foldl_append]
    exact iff_of_true EchoRow.has_blank trivial
  | newline =>
    simp only [echoes, press, hnewline, commitLine_modes.2]
    exact iff_of_true EchoRow.has_blank trivial
  | endOfFile =>
    simp only [echoes, press, commitLine_modes.2]
    refine iff_of_true ⟨rfl, fun i => ?_⟩ trivial
    simp only [List.foldl_nil, h.cursor]
    rw [Nat.add_assoc, h.cells, List.getD_eq_default _ _ (Nat.le_add_right _ _)]
    rfl
  | erase =>
    simp only [echoes, press]
    obtain hnil | ⟨line, c, hline⟩ := List.eq_nil_or_concat' e.discipline.line
    · rw [hnil] at h ⊢
      simpa using h
    · rw [hline, rendering_append] at h
      simp only [hline, List.dropLast_concat, List.getLast?_concat, hbackspace]
      unfold caretOf at h
      split_ifs at h with hc
      · simpa [hc] using h.rubOut
      · -- the caret stays
        have hrow :=
          (List.append_assoc .. ▸ h :
          e.row.Has e.start ((rendering line ++ [CARET]) ++ [c + AT])).rubOut
        refine iff_of_false (fun hshows => ?_) (by simpa using hc)
        have hlen := hrow.cursor_inj (by simpa using hshows)
        simp at hlen
  | kill =>
    simp only [echoes, press, hbackspace, List.map_const']
    have hle := length_le_rendering e.discipline.line
    have hrow := h.rubOuts hle
    rw [← length_rendering_eq]
    refine ⟨fun hshows => ?_, fun heq => ?_⟩
    · have := hrow.cursor_inj hshows
      simp only [List.length_take, rendering, List.flatMap_nil, List.length_nil] at this hle ⊢
      omega
    · rwa [heq, Nat.sub_self, List.take_zero] at hrow
  | ordinary c =>
    obtain ⟨hc₁, hc₂, hc₃⟩ := hordinary c hkey
    rw [hkey] at hcells
    simp only [echoes, press, echo_eq hd.modes hc₁ hc₂ hc₃] at hcells ⊢
    split_ifs at hcells ⊢ with hroom
    · rw [rendering_append]
      refine ⟨fun hshows _ b hb => ?_, fun hprintable => h.puts (hprintable hroom)⟩
      obtain ⟨i, hi, rfl⟩ := List.getElem_of_mem hb
      have hcell := hshows.cells ((rendering e.discipline.line).length + i)
      rw [List.getD_append_right _ _ _ _ (Nat.le_add_right _ _), Nat.add_sub_cancel_left,
        List.getD_eq_getElem _ _ hi] at hcell
      exact hcell ▸ hcells _
    · exact iff_of_true h fun hlt => absurd hlt hroom

/-- **Echo and edit buffer.**  Along every sequence of bytes the row shows the line all the time
exactly if no byte of two columns is erased and no byte is kept whose picture is not printable. -/
theorem echo_matches_iff (adoptsReaders : Bool) (bytes : List UInt8) :
    (∀ typed, typed <+: bytes → (typed.foldl type (initial adoptsReaders)).Shows) ↔
      Along (fun e byte => some (e.type byte)) Follows (initial adoptsReaders) bytes := by
  suffices hfrom : ∀ {e : EditedLine}, e.Shows → e.Default →
      ((∀ typed, typed <+: bytes → (typed.foldl EditedLine.type e).Shows) ↔
        Along (fun e byte => some (e.type byte)) Follows e bytes) from
    hfrom EchoRow.has_blank ⟨rfl, fun _ => (by decide : Printable SPACE)⟩
  induction bytes with
  | nil =>
    intro e h _
    exact iff_of_true (fun typed htyped => by rwa [List.prefix_nil.mp htyped]) trivial
  | cons byte bytes ih =>
    intro e h hd
    simp only [Along, Option.mem_def, Option.some.injEq, forall_eq', ← h.type_iff hd byte]
    refine ⟨fun hall => ?_, ?_⟩
    · have hnext := hall [byte] (by simp)
      refine ⟨hnext, (ih hnext (hd.type byte)).mp fun typed htyped => hall (byte :: typed) ?_⟩
      exact List.cons_prefix_cons.mpr ⟨rfl, htyped⟩
    · rintro ⟨hnext, hrest⟩ typed htyped
      cases typed with
      | nil => exact h
      | cons b typed =>
        obtain ⟨rfl, hrest'⟩ := List.cons_prefix_cons.mp htyped
        exact (ih hnext (hd.type b)).mpr hrest typed hrest'

/-- `^A` and a backspace: the line is empty, and the caret is still on the row. -/
theorem caret_left_behind :
    ([1, BACKSPACE].foldl type (initial true)).discipline.line = [] ∧
      ([1, BACKSPACE].foldl type (initial true)).start = 0 ∧
      ([1, BACKSPACE].foldl type (initial true)).row.cells 0 = CARET ∧
      ¬ ([1, BACKSPACE].foldl type (initial true)).Shows := by
  have hline : ([1, BACKSPACE].foldl type (initial true)).discipline.line = [] := by decide +kernel
  have hstart : ([1, BACKSPACE].foldl type (initial true)).start = 0 := by decide +kernel
  have hcell : ([1, BACKSPACE].foldl type (initial true)).row.cells 0 = CARET := by decide +kernel
  refine ⟨hline, hstart, hcell, fun hshows => ?_⟩
  have hblank := hshows.cells 0
  rw [hline, hstart] at hblank
  exact absurd (hcell.symm.trans hblank) (by decide)

end EditedLine
end ShitOs
