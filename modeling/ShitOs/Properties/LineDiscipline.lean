import ShitOs.Framework.Transition
import ShitOs.Construction.LineDiscipline

/-!
# What is typed and what is read

The specification is one queue.  Each byte typed is a `Key` under the modes of the moment; editing
keys change the line, and a key that completes something puts it at the end of the queue: a line, a
mark for the end of the file, or, without canonical mode, the byte itself.  Reads take from the
front.

The discipline keeps that queue in two places, the ring of bytes and one flag for the mark, and the
flag is looked at only when the ring is empty.  So a mark is in its place as long as nothing is
completed between the `VEOF` that sets it and the read that returns it (`Orderly`).

`reads_in_order` is the refinement: along every run that keeps to this, and in which the ring never
overflows, what the reads have returned is a beginning of the queue, and a read waits only when it
has returned all of it.  `eof_after_line` is a run that does not.
-/

namespace ShitOs

open Transition LineDiscipline

/-! ## The specification -/

/-- What a byte means under the modes of the moment. -/
inductive Key
  | signal
  | raw (c : UInt8)
  | erase
  | kill
  | endOfFile
  | newline
  | ordinary (c : UInt8)

/-- The key a byte is. -/
def Termios.key (t : Termios) (byte : UInt8) : Key :=
  let c := if t.iflag &&& ICRNL ≠ 0 ∧ byte = CARRIAGE_RETURN then NEWLINE else byte
  if t.lflag &&& ISIG ≠ 0 ∧ (c = t.cc VINTR ∨ c = t.cc VQUIT ∨ c = t.cc VSUSP) then .signal
  else if t.lflag &&& ICANON = 0 then .raw c
  else if c = t.cc VERASE ∨ c = DELETE then .erase
  else if c = t.cc VKILL then .kill
  else if c = t.cc VEOF then .endOfFile
  else if c = NEWLINE then .newline
  else .ordinary c

/-- What has been completed so far, oldest first, and the line being edited. -/
structure Typed where
  completed : List TerminalItem
  line : List UInt8

namespace Typed

/-- The line goes into the queue, with what ends it. -/
def complete (e : Typed) (ending : List TerminalItem) : Typed where
  completed := e.completed ++ e.line.map .byte ++ ending
  line := []

/-- Canonical editing.  A line has room for `LINE_BUFFER_SIZE - 1` bytes and its end. -/
def press (e : Typed) : Key → Typed
  | .signal => { e with line := [] }
  | .raw c => e.complete [.byte c]
  | .erase => { e with line := e.line.dropLast }
  | .kill => { e with line := [] }
  | .endOfFile => e.complete (if e.line = [] then [.endOfFile] else [])
  | .newline => e.complete [.byte NEWLINE]
  | .ordinary c =>
    if e.line.length + 1 < LINE_BUFFER_SIZE then { e with line := e.line ++ [c] } else e

/-- What is typed in a sequence of events, and under which modes. -/
def after : List TerminalEvent → Termios → Typed → Typed
  | [], _, e => e
  | .feed byte :: events, t, e => after events t (e.press (t.key byte))
  | .setTermios t :: events, _, e => after events t e
  | _ :: events, t, e => after events t e

/-- All that is completed by a sequence of events on a terminal that was just set up. -/
def stream (events : List TerminalEvent) : List TerminalItem :=
  (after events defaultTermios ⟨[], []⟩).completed

end Typed

/-! ## The discipline, key by key -/

namespace LineDiscipline

variable {s : LineDiscipline}

lemma pushReady_of_available (c : UInt8) (hroom : s.ready.used + 1 < READY_BUFFER_SIZE) :
    s.pushReady c = { s with ready := s.ready.push c } :=
  if_pos ((Ring.available_pos_iff _).mpr hroom)

lemma foldl_pushReady {bytes : List UInt8}
    (hroom : s.ready.used + bytes.length < READY_BUFFER_SIZE) :
    ∃ ring, bytes.foldl pushReady s = { s with ready := ring } ∧
      ring.content = s.ready.content ++ bytes := by
  induction bytes generalizing s with
  | nil => exact ⟨s.ready, rfl, by simp⟩
  | cons c bytes ih =>
    rw [List.length_cons] at hroom
    have havailable : s.ready.used + 1 < READY_BUFFER_SIZE := by omega
    have hused := Ring.used_push s.ready c ((Ring.available_pos_iff _).mpr havailable)
    rw [List.foldl_cons, pushReady_of_available c havailable]
    obtain ⟨ring, heq, hcont⟩ := ih (s := { s with ready := s.ready.push c }) (by
      simp only [hused]
      omega)
    refine ⟨ring, heq, ?_⟩
    rw [hcont]
    simp only
    rw [Ring.content_push _ _ ((Ring.available_pos_iff _).mpr havailable), List.append_assoc]
    rfl

lemma commitLine_eq (hroom : s.ready.used + s.line.length < READY_BUFFER_SIZE) :
    ∃ ring, s.commitLine = { s with ready := ring, line := [] } ∧
      ring.content = s.ready.content ++ s.line := by
  obtain ⟨ring, heq, hcont⟩ := foldl_pushReady hroom
  exact ⟨ring, by rw [commitLine, heq], hcont⟩

/-- What a key does to the discipline. -/
def press (s : LineDiscipline) : Key → LineDiscipline
  | .signal => { s with line := [] }
  | .raw c => s.pushReady c
  | .erase => { s with line := s.line.dropLast }
  | .kill => { s with line := [] }
  | .endOfFile => { s with sawEof := if s.line = [] then true else s.sawEof }.commitLine
  | .newline =>
    { s with line := if s.line.length < LINE_BUFFER_SIZE then s.line ++ [NEWLINE] else s.line
      }.commitLine
  | .ordinary c =>
    if s.line.length + 1 < LINE_BUFFER_SIZE then { s with line := s.line ++ [c] } else s

/-- What a key echoes, when the byte it came from is `c`. -/
def echoes (s : LineDiscipline) (c : UInt8) : Key → List UInt8
  | .signal => s.echo c ++ s.echo NEWLINE
  | .raw c => s.echo c
  | .erase => if s.line = [] then [] else s.echo BACKSPACE
  | .kill => (s.line.map fun _ => s.echo BACKSPACE).flatten
  | .endOfFile => []
  | .newline => s.echo NEWLINE
  | .ordinary c => if s.line.length + 1 < LINE_BUFFER_SIZE then s.echo c else []

lemma feed_cases (byte : UInt8) : (s.feed byte).1 = s.press (s.termios.key byte) ∧
    ∃ c, (s.feed byte).2.echoed = s.echoes c (s.termios.key byte) := by
  unfold feed Termios.key
  generalize (if s.termios.iflag &&& ICRNL ≠ 0 ∧ byte = CARRIAGE_RETURN then NEWLINE else byte) = c
  have hsig : s.signalOf c = none ↔ ¬ (s.termios.lflag &&& ISIG ≠ 0 ∧
      (c = s.termios.cc VINTR ∨ c = s.termios.cc VQUIT ∨ c = s.termios.cc VSUSP)) := by
    unfold signalOf
    split_ifs <;> simp_all
  dsimp only
  cases hcase : s.signalOf c with
  | some signal =>
    rw [if_pos (not_not.mp (mt hsig.mpr (by simp [hcase])))]
    exact ⟨rfl, c, rfl⟩
  | none =>
    rw [if_neg (hsig.mp hcase)]
    by_cases hraw : s.termios.lflag &&& ICANON = 0
    · simp only [if_pos hraw]
      exact ⟨rfl, c, rfl⟩
    simp only [if_neg hraw]
    by_cases herase : c = s.termios.cc VERASE ∨ c = DELETE
    · simp only [if_pos herase, press, echoes]
      by_cases hempty : s.line = []
      · have hsame : s.line.dropLast = s.line := by simp [hempty]
        simp only [if_pos hempty, hsame]
        exact ⟨trivial, c, trivial⟩
      · simp only [if_neg hempty]
        exact ⟨trivial, c, trivial⟩
    simp only [if_neg herase]
    by_cases hkill : c = s.termios.cc VKILL
    · simp only [if_pos hkill]
      exact ⟨rfl, c, rfl⟩
    simp only [if_neg hkill]
    by_cases heof : c = s.termios.cc VEOF
    · simp only [if_pos heof]
      exact ⟨rfl, c, rfl⟩
    simp only [if_neg heof]
    by_cases hnewline : c = NEWLINE
    · simp only [if_pos hnewline]
      exact ⟨rfl, c, rfl⟩
    simp only [if_neg hnewline, press, echoes]
    split_ifs
    · exact ⟨rfl, c, rfl⟩
    · exact ⟨rfl, c, rfl⟩

lemma commitLine_modes : s.commitLine.termios = s.termios ∧ s.commitLine.line = [] := by
  have hpush : ∀ (bytes : List UInt8) (s : LineDiscipline), (bytes.foldl pushReady s).termios =
    s.termios := by
    intro bytes
    induction bytes with
    | nil => exact fun _ => rfl
    | cons c bytes ih =>
      intro s
      rw [List.foldl_cons, ih, pushReady]
      split_ifs <;> rfl
  exact ⟨hpush _ s, rfl⟩

/-- What has been completed and not been read. -/
def unread (s : LineDiscipline) : List TerminalItem :=
  s.ready.content.map .byte ++ if s.sawEof then [.endOfFile] else []

/-- The bytes a key puts into the ring. -/
def completes (s : LineDiscipline) : Key → ℕ
  | .raw _ => 1
  | .endOfFile => s.line.length
  | .newline => s.line.length + 1
  | _ => 0

/-- Nothing is completed while the end of the file waits to be read, and no byte goes past a line.
-/
def Clear (s : LineDiscipline) : Key → Prop
  | .raw _ => s.line = [] ∧ s.sawEof = false
  | .endOfFile => s.sawEof = false
  | .newline => s.sawEof = false
  | _ => True

instance (s : LineDiscipline) (key : Key) : Decidable (s.Clear key) := by
  cases key <;> unfold Clear <;> infer_instance

end LineDiscipline

namespace Terminal

variable {s s' : Terminal} {e : Typed}

/-- There is room in the ring for what the event puts into it. -/
def Fits (s : Terminal) : TerminalEvent → Prop
  | .feed byte =>
    s.discipline.ready.used + s.discipline.completes (s.discipline.termios.key byte) <
      READY_BUFFER_SIZE
  | _ => True

/-- Nothing gets ahead of what was typed before it. -/
def Orderly (s : Terminal) : TerminalEvent → Prop
  | .feed byte => s.discipline.Clear (s.discipline.termios.key byte)
  | _ => True

instance (s : Terminal) (event : TerminalEvent) : Decidable (Fits s event) := by
  cases event <;> unfold Fits <;> infer_instance

instance (s : Terminal) (event : TerminalEvent) : Decidable (Orderly s event) := by
  cases event <;> unfold Orderly <;> infer_instance

/-- The terminal has the queue of the specification: part of it has been read, and the rest is in
the ring and the flag. -/
structure Tracks (s : Terminal) (e : Typed) : Prop where
  queue : s.delivered ++ s.discipline.unread = e.completed
  line : s.discipline.line = e.line
  short : s.discipline.line.length < LINE_BUFFER_SIZE
  connected : s.discipline.hungUp = false

/-- A key, when there is room for what it completes and nothing is in the way. -/
lemma Tracks.press {key : Key} (h : Tracks s e)
    (hfits : s.discipline.ready.used + s.discipline.completes key < READY_BUFFER_SIZE)
    (hord : s.discipline.Clear key) :
    Tracks { s with discipline := s.discipline.press key } (e.press key) ∧
      (s.discipline.press key).termios = s.discipline.termios := by
  obtain ⟨hqueue, hline, hshort, hconn⟩ := h
  have hnil : ([] : List UInt8).length < LINE_BUFFER_SIZE := by decide
  cases key with
  | signal => exact ⟨⟨hqueue, rfl, hnil, hconn⟩, rfl⟩
  | kill => exact ⟨⟨hqueue, rfl, hnil, hconn⟩, rfl⟩
  | erase =>
    have hless : s.discipline.line.dropLast.length = _ := List.length_dropLast
    refine ⟨⟨hqueue, congrArg List.dropLast hline, ?_, hconn⟩, rfl⟩
    simp only [LineDiscipline.press]
    omega
  | ordinary c =>
    simp only [LineDiscipline.press, Typed.press, ← hline]
    split_ifs with hroom
    · refine ⟨⟨hqueue, rfl, ?_, hconn⟩, rfl⟩
      simpa using hroom
    · exact ⟨⟨hqueue, hline, hshort, hconn⟩, rfl⟩
  | raw c =>
    obtain ⟨hempty, heof⟩ := hord
    have hroom : s.discipline.ready.used + 1 < READY_BUFFER_SIZE := hfits
    have hpush := Ring.content_push s.discipline.ready c ((Ring.available_pos_iff _).mpr hroom)
    simp only [LineDiscipline.press, LineDiscipline.pushReady_of_available c hroom]
    refine ⟨⟨?_, hempty, hshort, hconn⟩, trivial⟩
    simp [Typed.press, Typed.complete, LineDiscipline.unread, hpush, heof, ← hqueue,
      ← hline, hempty]
  | endOfFile =>
    have hroom : s.discipline.ready.used + s.discipline.line.length < READY_BUFFER_SIZE := hfits
    simp only [LineDiscipline.press, Typed.press]
    obtain ⟨ring, heq, hcont⟩ := LineDiscipline.commitLine_eq
      (s := { s.discipline with
        sawEof := if s.discipline.line = [] then true else s.discipline.sawEof }) hroom
    rw [heq]
    refine ⟨⟨?_, rfl, hnil, hconn⟩, rfl⟩
    have heof : s.discipline.sawEof = false := hord
    by_cases hempty : s.discipline.line = [] <;>
      simp [Typed.complete, LineDiscipline.unread, hcont, heof, ← hqueue, ← hline, hempty]
  | newline =>
    have hline' : (if s.discipline.line.length < LINE_BUFFER_SIZE then
        s.discipline.line ++ [NEWLINE] else s.discipline.line) = s.discipline.line ++ [NEWLINE] :=
      if_pos hshort
    simp only [LineDiscipline.press, Typed.press, hline']
    have hroom : s.discipline.ready.used + (s.discipline.line ++ [NEWLINE]).length <
        READY_BUFFER_SIZE := by
      rw [List.length_append]
      exact hfits
    obtain ⟨ring, heq, hcont⟩ := LineDiscipline.commitLine_eq
      (s := { s.discipline with line := s.discipline.line ++ [NEWLINE] }) hroom
    rw [heq]
    refine ⟨⟨?_, rfl, hnil, hconn⟩, rfl⟩
    have heof : s.discipline.sawEof = false := hord
    simp [Typed.complete, LineDiscipline.unread, hcont, heof, ← hqueue, ← hline]

lemma Tracks.continueRead (h : Tracks s e) {length : ℕ} (hlen : length ≠ 0) :
    Tracks (s.continueRead length) e ∧
      (s.continueRead length).discipline.termios = s.discipline.termios := by
  obtain ⟨hqueue, hline, hshort, hconn⟩ := h
  unfold Terminal.continueRead readStretch
  by_cases hused : s.discipline.ready.used = 0
  · have hempty := (Ring.content_eq_nil_iff _).mpr hused
    rw [if_pos hused]
    by_cases heof : s.discipline.sawEof = true
    · rw [if_pos heof]
      refine ⟨⟨?_, hline, hshort, hconn⟩, rfl⟩
      simpa [unread, hempty, heof, itemsOf] using hqueue
    · rw [if_neg heof, hconn]
      exact ⟨⟨hqueue, hline, hshort, hconn⟩, rfl⟩
  · rw [if_neg hused]
    refine ⟨⟨?_, hline, hshort, hconn⟩, rfl⟩
    have hdrain := Ring.content_drain length s.discipline.ready
    have hsome : (s.discipline.ready.drain length).1 ≠ [] := by
      obtain ⟨n, rfl⟩ := Nat.exists_eq_succ_of_ne_zero hlen
      simp [Ring.drain, Nat.pos_of_ne_zero hused]
    rw [← hqueue]
    simp [unread, itemsOf, hsome, hdrain]

lemma readEntry_fields (d : LineDiscipline) (reader : Option ℕ) (groupExists : Bool) :
    ∃ group, (d.readEntry reader groupExists).2 = { d with foregroundGroup := group } := by
  unfold readEntry
  cases reader with
  | none =>
    split_ifs
    · exact ⟨0, rfl⟩
    · exact ⟨d.foregroundGroup, rfl⟩
  | some pgid =>
    dsimp only
    split_ifs
    all_goals first
      | exact ⟨d.foregroundGroup, rfl⟩
      | exact ⟨0, rfl⟩
      | exact ⟨pgid, rfl⟩

lemma Tracks.step {event : TerminalEvent} {t : Termios} (h : Tracks s e)
    (hmodes : s.discipline.termios = t) (hfits : Fits s event) (hord : Orderly s event)
    (hstep : s.step event = some s') : ∃ t' e', Tracks s' e' ∧ s'.discipline.termios = t' ∧
      ∀ events, Typed.after (event :: events) t e = Typed.after events t' e' := by
  cases event with
  | feed byte =>
    obtain rfl : { s with discipline := (s.discipline.feed byte).1 } = s' := by
      simpa [Terminal.step] using hstep
    obtain ⟨htracks, htermios⟩ := h.press hfits hord
    rw [(feed_cases byte).1]
    exact ⟨t, _, htracks, htermios.trans hmodes, fun events => by rw [Typed.after, hmodes]⟩
  | setTermios termios =>
    obtain rfl : { s with discipline := { s.discipline with termios := termios } } = s' := by
      simpa [Terminal.step] using hstep
    exact ⟨termios, e, { h with }, rfl, fun _ => rfl⟩
  | read reader groupExists length =>
    simp only [Terminal.step] at hstep
    split_ifs at hstep with hlen
    obtain ⟨group, hfields⟩ := readEntry_fields s.discipline reader groupExists
    have htracks : Tracks { s with discipline :=
        (s.discipline.readEntry reader groupExists).2 } e := by
      rw [hfields]
      exact { h with }
    have htermios : (s.discipline.readEntry reader groupExists).2.termios = t := by
      rw [hfields]
      exact hmodes
    refine ⟨t, e, ?_⟩
    split at hstep
    · next discipline hentry =>
        cases hstep
        rw [hentry] at htracks htermios
        exact ⟨htracks, htermios, fun _ => rfl⟩
    · next discipline hentry =>
        cases hstep
        rw [hentry] at htracks htermios
        obtain ⟨hread, hsame⟩ := htracks.continueRead hlen
        exact ⟨hread, hsame.trans htermios, fun _ => rfl⟩
  | resume length =>
    simp only [Terminal.step] at hstep
    split_ifs at hstep with hlen
    cases hstep
    obtain ⟨hread, hsame⟩ := h.continueRead hlen
    exact ⟨t, e, hread, hsame.trans hmodes, fun _ => rfl⟩

lemma Tracks.run {events : List TerminalEvent} {t : Termios} (h : Tracks s e)
    (hmodes : s.discipline.termios = t)
    (hgood : Along Terminal.step (fun s event => Fits s event ∧ Orderly s event) s events)
    (hrun : Transition.run Terminal.step s events = some s') :
    Tracks s' (Typed.after events t e) := by
  induction events generalizing s t e with
  | nil =>
    cases hrun
    exact h
  | cons event events ih =>
    obtain ⟨s₁, hstep, hrest⟩ := run_cons.mp hrun
    obtain ⟨⟨hfits, hord⟩, hnext⟩ := hgood
    obtain ⟨t', e', htracks, hmodes', hafter⟩ := h.step hmodes hfits hord hstep
    rw [hafter]
    exact ih htracks hmodes' (hnext s₁ hstep) hrest

lemma tracks_initial (adoptsReaders : Bool) : Tracks (initial adoptsReaders) ⟨[], []⟩ := by
  have hempty : (configured adoptsReaders).ready.content = [] :=
    (Ring.content_eq_nil_iff _).mpr (by simp [configured, Ring.used])
  refine ⟨?_, rfl, (by decide : 0 < LINE_BUFFER_SIZE), rfl⟩
  simp only [initial, unread, hempty]
  rfl

/-- Reads return what was typed in the order in which it was completed, and wait only when they have
returned all of it. -/
theorem reads_in_order (adoptsReaders : Bool) (events : List TerminalEvent) {s' : Terminal}
    (hgood : Along Terminal.step (fun s event => Fits s event ∧ Orderly s event)
      (initial adoptsReaders) events)
    (hrun : Transition.run Terminal.step (initial adoptsReaders) events = some s') :
    s'.delivered <+: Typed.stream events ∧
      ∀ length, s'.discipline.readStretch length = none → s'.delivered = Typed.stream events := by
  obtain ⟨hqueue, -, -, hconnected⟩ := (tracks_initial adoptsReaders).run rfl hgood hrun
  refine ⟨⟨_, hqueue⟩, fun length hwaits => ?_⟩
  have hnothing : s'.discipline.unread = [] := by
    unfold LineDiscipline.readStretch at hwaits
    split_ifs at hwaits with hused heof
    have hempty := (Ring.content_eq_nil_iff _).mpr hused
    simp [LineDiscipline.unread, hempty, heof]
  rw [hnothing, List.append_nil] at hqueue
  exact hqueue

/-- The default modes without canonical input. -/
def rawTermios : Termios := { defaultTermios with lflag := ISIG ||| ECHO }

/-- A line with a correction in it, the end of the file, and a byte in raw mode. -/
def session : List TerminalEvent :=
  [.feed 0x61, .feed 0x62, .feed 8, .feed NEWLINE, .feed 4, .read (some 1) true 1,
    .read (some 1) true 64, .read (some 1) true 64, .setTermios rawTermios, .feed 0x63,
    .resume 64]

theorem reads_in_order_session : ∃ s', Transition.run step (initial true) session = some s' ∧
    Along step (fun s event => Fits s event ∧ Orderly s event) (initial true) session ∧
    s'.delivered = [.byte 0x61, .byte NEWLINE, .endOfFile, .byte 0x63] ∧
    s'.delivered <+: Typed.stream session := by
  have hgood : Along step (fun s event => Fits s event ∧ Orderly s event)
    (initial true) session := by
    decide +kernel
  exact exists_run_of_map (·.delivered) _ (by decide +kernel) fun s' hrun hdelivered =>
    ⟨hgood, hdelivered, (reads_in_order true session hgood hrun).1⟩

/-- `VEOF` on an empty line, then a line, and then two reads. -/
def lateEof : List TerminalEvent :=
  [.feed 4, .feed 0x61, .feed NEWLINE, .read (some 1) true 64, .read (some 1) true 64]

/-- The reads return the line first, and the end of the file that was typed before it afterwards. -/
theorem eof_after_line : ∃ s', Transition.run step (initial true) lateEof = some s' ∧
    Along step Fits (initial true) lateEof ∧
    s'.delivered = [.byte 0x61, .byte NEWLINE, .endOfFile] ∧
    Typed.stream lateEof = [.endOfFile, .byte 0x61, .byte NEWLINE] ∧
    ¬ s'.delivered <+: Typed.stream lateEof := by
  have hfits : Along step Fits (initial true) lateEof := by decide +kernel
  have hstream : Typed.stream lateEof = [.endOfFile, .byte 0x61, .byte NEWLINE] := by decide +kernel
  refine exists_run_of_map (·.delivered) _ (by decide +kernel) fun s' _ hdelivered =>
    ⟨hfits, hdelivered, hstream, ?_⟩
  rw [hdelivered, hstream]
  decide

end Terminal
end ShitOs
