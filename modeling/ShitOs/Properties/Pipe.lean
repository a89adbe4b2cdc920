import ShitOs.Framework.Transition
import ShitOs.Construction.Pipe

/-!
# What readers and writers of a pipe can rely on

Two facts about every run of `PipeSystem.step`, for any number of threads.

* *Conservation.*  What the reads returned, followed by what is still in the ring, is exactly
  what the writes put in, in order.  This needs no assumption.
* *Atomicity.*  A write of at most `PIPE_BUF` bytes that returns its full length went in as one
  piece.  This is what the window-server protocol relies on for its messages, and it is **not**
  what `write` does: the loop copies whatever fits before it waits.  It holds of the runs in
  which no such write starts copying into a ring that has some room but not enough
  (`WriteFits`), and `write_split_across_wait` is a run outside them.
-/

namespace ShitOs

open List (append_assoc length_cons length_drop mem_append)
open Function Transition PipeBuffer PipeEvent

namespace PipeBuffer

variable {p : PipeBuffer} {bytes : List UInt8} {written : ℕ}

/-! ## The copying loops as operations on the queue -/

lemma available_push (p : PipeBuffer) (b : UInt8) (h : 0 < p.available) :
    ({ p with ring := p.ring.push b } : PipeBuffer).available = p.available - 1 := by
  have hpush := Ring.used_push p.ring b h
  simp only [available, Ring.available] at h ⊢
  rw [hpush]
  omega

lemma fill_count (bytes : List UInt8) (p : PipeBuffer) :
    (p.fill bytes).1 = min bytes.length p.available := by
  induction bytes generalizing p with
  | nil => simp [fill]
  | cons b bytes ih =>
    rw [fill]
    split
    · rename_i hroom
      simp only [ih, available_push p b hroom, length_cons]
      omega
    · simp only [length_cons]
      omega

lemma fill_ends (bytes : List UInt8) (p : PipeBuffer) :
    (p.fill bytes).2 = { p with ring := (p.fill bytes).2.ring } := by
  induction bytes generalizing p with
  | nil => rfl
  | cons b bytes ih =>
    rw [fill]
    split
    · exact ih _
    · rfl

lemma fill_available (bytes : List UInt8) (p : PipeBuffer) :
    (p.fill bytes).2.available = p.available - (p.fill bytes).1 := by
  induction bytes generalizing p with
  | nil => rfl
  | cons b bytes ih =>
    rw [fill]
    split
    · rename_i hroom
      simp only [ih, available_push p b hroom]
      omega
    · rfl

lemma fill_content (bytes : List UInt8) (p : PipeBuffer) :
    (p.fill bytes).2.ring.content = p.ring.content ++ bytes.take (p.fill bytes).1 := by
  induction bytes generalizing p with
  | nil => simp [fill]
  | cons b bytes ih =>
    rw [fill]
    split
    · rename_i hroom
      simp only [ih, List.take_succ_cons, Ring.content_push _ b hroom, append_assoc,
        List.singleton_append]
    · simp

/-! ## The stretches -/

lemma writeLoop_content (bytes : List UInt8) (pending : Bool) (fuel : ℕ) (p : PipeBuffer)
    (written : ℕ) : (writeLoop bytes pending fuel p written).pipe.ring.content =
      p.ring.content ++ (writeLoop bytes pending fuel p written).chunks.flatten := by
  induction fuel generalizing p written with
  | zero => simp [writeLoop]
  | succ fuel ih =>
    rw [writeLoop]
    split_ifs
    all_goals try simp
    rw [ih, fill_content, append_assoc]

lemma writeStretch_content (p : PipeBuffer) (bytes : List UInt8) (written : ℕ) (pending : Bool) :
    (p.writeStretch bytes written pending).pipe.ring.content =
      p.ring.content ++ (p.writeStretch bytes written pending).chunks.flatten :=
  writeLoop_content ..

/-- With a reader and room for everything still to go, one stretch puts it all in and returns. -/
lemma writeStretch_room (pending : Bool)
    (hrds : p.readers + p.pendingReaders ≠ 0) (hleft : written < bytes.length)
    (hroom : bytes.length - written ≤ p.available) : p.writeStretch bytes written pending =
      ⟨.done (.ok bytes.length), [bytes.drop written], (p.fill (bytes.drop written)).2⟩ := by
  obtain ⟨fuel, hfuel⟩ : ∃ fuel, bytes.length - written = fuel + 1 :=
    Nat.exists_eq_succ_of_ne_zero (by omega)
  have hcnt : (p.fill (bytes.drop written)).1 = bytes.length - written := by
    rw [fill_count, length_drop]
    exact min_eq_left hroom
  -- Everything is in, so the next turn of the loop leaves it.
  have hexit : ∀ q, writeLoop bytes pending fuel q bytes.length =
      ⟨.done (.ok bytes.length), [], q⟩ := by
    intro q
    cases fuel with
    | zero => rfl
    | succ fuel => rw [writeLoop, if_neg (lt_irrefl _)]
  have htake : (bytes.drop written).take (bytes.length - written) = bytes.drop written := by
    rw [← length_drop, List.take_length]
  unfold writeStretch
  rw [hfuel, writeLoop, if_pos hleft, if_neg hrds, if_neg (by omega)]
  dsimp only
  rw [hcnt, show written + (bytes.length - written) = bytes.length by omega, hexit, htake]

/-- With a reader and some room, but not enough, a stretch puts in what fits and waits. -/
lemma writeStretch_some_room (hrds : p.readers + p.pendingReaders ≠ 0) (hroom : 0 < p.available)
    (hmore : written + p.available < bytes.length) : p.writeStretch bytes written false =
      ⟨.wait (written + p.available), [(bytes.drop written).take p.available],
        (p.fill (bytes.drop written)).2⟩ := by
  obtain ⟨fuel, hfuel⟩ : ∃ fuel, bytes.length - written = fuel + 1 + 1 :=
    ⟨bytes.length - written - 2, by omega⟩
  have hcnt : (p.fill (bytes.drop written)).1 = p.available := by
    rw [fill_count, length_drop]
    exact min_eq_right (by omega)
  have hfull : (p.fill (bytes.drop written)).2.available = 0 := by
    rw [fill_available, hcnt]
    omega
  unfold writeStretch
  rw [hfuel, writeLoop, if_pos (by omega), if_neg hrds, if_neg (by omega)]
  dsimp only
  rw [hcnt, writeLoop, if_pos hmore, if_neg (by rwa [fill_ends]), if_pos hfull, if_neg (by simp)]

/-- A stretch that copies nothing: there is no reader, or no room. -/
lemma writeStretch_stop (pending : Bool)
    (hleft : written < bytes.length) (hstop : p.readers + p.pendingReaders = 0 ∨ p.available = 0) :
    p.writeStretch bytes written pending =
      ⟨if p.readers + p.pendingReaders = 0 then .done (.error .EPIPE)
        else if pending then .done (if written > 0 then .ok written else .error .EINTR)
        else .wait written, [], p⟩ := by
  obtain ⟨fuel, hfuel⟩ : ∃ fuel, bytes.length - written = fuel + 1 :=
    Nat.exists_eq_succ_of_ne_zero (by omega)
  rw [writeStretch, hfuel, writeLoop, if_pos hleft]
  by_cases hrds : p.readers + p.pendingReaders = 0
  · rw [if_pos hrds, if_pos hrds]
  · rw [if_neg hrds, if_neg hrds, if_pos (hstop.resolve_left hrds)]
    split_ifs <;> rfl

/-- There is room for all of `bytes`, or none at all, or nobody to write to. -/
def Fits (p : PipeBuffer) (bytes : List UInt8) : Prop :=
  p.readers + p.pendingReaders = 0 ∨ p.available = 0 ∨ bytes.length ≤ p.available

/-- A stretch that starts with nothing written and where `bytes` fit either puts nothing in and
does not succeed, or puts everything in at once and returns. -/
lemma writeStretch_fits {q : PipeBuffer} {pending : Bool} {ending : WriteEnd}
    {chunks : List (List UInt8)} (hstretch : p.writeStretch bytes 0 pending = ⟨ending, chunks, q⟩)
    (hfits : p.Fits bytes) (hne : bytes ≠ []) :
    (chunks = [] ∧ (ending = .wait 0 ∨ ∃ e, ending = .done (.error e))) ∨
      (chunks = [bytes] ∧ ending = .done (.ok bytes.length)) := by
  have hpos : 0 < bytes.length := List.length_pos_iff.mpr hne
  by_cases hstop : p.readers + p.pendingReaders = 0 ∨ p.available = 0
  · left
    rw [writeStretch_stop pending hpos hstop] at hstretch
    obtain ⟨rfl, rfl, -⟩ := WriteStretch.mk.inj hstretch
    refine ⟨rfl, ?_⟩
    rw [if_neg (Nat.lt_irrefl 0)]
    split_ifs <;> simp
  · right
    rw [not_or] at hstop
    have hroom : bytes.length ≤ p.available := (hfits.resolve_left hstop.1).resolve_left hstop.2
    rw [writeStretch_room pending hstop.1 hpos hroom] at hstretch
    obtain ⟨rfl, rfl, -⟩ := WriteStretch.mk.inj hstretch
    exact ⟨rfl, rfl⟩

/-- What a stretch of `read` has taken out. -/
def ReadEnd.taken : ReadEnd → List UInt8
  | .done (.ok bytes) => bytes
  | _ => []

lemma readStretch_content (p : PipeBuffer) (len : ℕ) (pending : Bool) :
    p.ring.content = (p.readStretch len pending).1.taken ++
      (p.readStretch len pending).2.ring.content := by
  unfold readStretch
  split_ifs
  any_goals rfl
  exact p.ring.content_drain len

end PipeBuffer

/-! ## The history -/

namespace PipeEvent

/-- The call an event belongs to. -/
def number : PipeEvent → ℕ
  | put call _ => call
  | got call _ => call
  | wrote call _ _ => call

/-- What the event put into the ring. -/
def input : PipeEvent → List UInt8
  | put _ chunk => chunk
  | _ => []

/-- What the event took out of it. -/
def output : PipeEvent → List UInt8
  | got _ bytes => bytes
  | _ => []

end PipeEvent

/-- The byte sequence put into the buffer. -/
def bytesPut (trace : List PipeEvent) : List UInt8 := trace.flatMap PipeEvent.input

/-- The concatenation of the bytes returned by reads. -/
def bytesGot (trace : List PipeEvent) : List UInt8 := trace.flatMap PipeEvent.output

@[simp] lemma bytesPut_append (l l' : List PipeEvent) :
    bytesPut (l ++ l') = bytesPut l ++ bytesPut l' := List.flatMap_append

@[simp] lemma bytesGot_append (l l' : List PipeEvent) :
    bytesGot (l ++ l') = bytesGot l ++ bytesGot l' := List.flatMap_append

/-- Write `call` put `bytes` in as one piece: a single event of the history carries all of
them, and no other event of that call puts anything.  Nothing can come between the bytes, and
no read can find some of them without the rest. -/
def PutAtOnce (trace : List PipeEvent) (call : ℕ) (bytes : List UInt8) : Prop :=
  ∃ before after, trace = before ++ .put call bytes :: after ∧
    ∀ chunk, .put call chunk ∉ before ++ after

lemma PutAtOnce.append {trace : List PipeEvent} {call : ℕ} {bytes : List UInt8}
    (h : PutAtOnce trace call bytes) {events : List PipeEvent}
    (hnew : ∀ chunk, .put call chunk ∉ events) : PutAtOnce (trace ++ events) call bytes := by
  obtain ⟨before, after, rfl, hother⟩ := h
  refine ⟨before, after ++ events, by simp, fun chunk hmem => ?_⟩
  rw [← append_assoc, mem_append] at hmem
  exact hmem.elim (hother chunk) (hnew chunk)

namespace PipeSystem

variable {s s₀ s' : PipeSystem} {a : PipeStep} {thread : ℕ} {c next : PipeCall} {p q : PipeBuffer}
  {events : List PipeEvent} {bytes : List UInt8}

/-! ## What a step does -/

/-- Thread `thread` starts waiting in `call`, under the next free number. -/
def start (s : PipeSystem) (thread : ℕ) (call : PipeCall) : PipeSystem :=
  { s with nextCall := s.nextCall + 1, calls := update s.calls thread call }

/-- The system moves on by `events`, after which `thread` is in `call`. -/
def advance (s : PipeSystem) (thread : ℕ) (p : PipeBuffer) (call : PipeCall)
    (events : List PipeEvent) : PipeSystem :=
  { s with
    pipe := p
    calls := update s.calls thread call
    trace := s.trace ++ events }

/-- The steps that are a stretch of a call. -/
def transfers : PipeStep → Bool
  | .read .. | .write .. | .resume .. => true
  | _ => false

/-- Which thread runs in such a step, and the system once its call has a number. -/
inductive Runs (s : PipeSystem) : PipeStep → PipeSystem → ℕ → Prop
  | read {thread length pending} :
    Runs s (.read thread length pending) (s.start thread (.reading s.nextCall length)) thread
  | write {thread bytes pending} :
    Runs s (.write thread bytes pending) (s.start thread (.writing s.nextCall bytes 0)) thread
  | resume {thread pending} : Runs s (.resume thread pending) s thread

/-- A stretch of a call on pipe `p`: the pipe it leaves, the call its thread is in then, and the
events. -/
inductive Stretch (p : PipeBuffer) : PipeCall → PipeBuffer → PipeCall → List PipeEvent → Prop
  | readWait {call length pending q} (h : p.readStretch length pending = (.wait, q)) :
    Stretch p (.reading call length) q (.reading call length) []
  | readDone {call length pending q bytes} (h : p.readStretch length pending =
      (.done (.ok bytes), q)) :
    Stretch p (.reading call length) q .idle [.got call bytes]
  | readError {call length pending q e} (h : p.readStretch length pending = (.done (.error e), q)) :
    Stretch p (.reading call length) q .idle []
  | writeWait {call bytes written pending q written' chunks}
      (h : p.writeStretch bytes written pending = ⟨.wait written', chunks, q⟩) :
    Stretch p (.writing call bytes written) q (.writing call bytes written')
      (chunks.map (.put call))
  | writeDone {call bytes written pending q result chunks}
      (h : p.writeStretch bytes written pending = ⟨.done result, chunks, q⟩) :
    Stretch p (.writing call bytes written) q .idle (chunks.map (.put call) ++
      [.wrote call bytes result])

lemma Runs.same (h : Runs s a s₀ thread) : s₀.pipe = s.pipe ∧ s₀.trace = s.trace := by
  cases h <;> exact ⟨rfl, rfl⟩

lemma afterRead_stretch (s : PipeSystem) (thread call len : ℕ) (pending : Bool) :
    ∃ q next events, Stretch s.pipe (.reading call len) q next events ∧
      afterRead s thread call len (s.pipe.readStretch len pending) =
        s.advance thread q next events := by
  rcases hr : s.pipe.readStretch len pending with ⟨_ | (e | bytes), q⟩
  · exact ⟨_, _, _, .readWait hr, by simp [afterRead, advance]⟩
  · exact ⟨_, _, _, .readError hr, by simp [afterRead, advance]⟩
  · exact ⟨_, _, _, .readDone hr, rfl⟩

lemma afterWrite_stretch (s : PipeSystem) (thread call : ℕ) (bytes : List UInt8) (written : ℕ)
    (pending : Bool) : ∃ q next events, Stretch s.pipe (.writing call bytes written) q next events ∧
      afterWrite s thread call bytes (s.pipe.writeStretch bytes written pending) =
        s.advance thread q next events := by
  rcases hw : s.pipe.writeStretch bytes written pending with ⟨written' | result, chunks, q⟩
  · exact ⟨_, _, _, .writeWait hw, rfl⟩
  · exact ⟨_, _, _, .writeDone hw, by simp [afterWrite, advance]⟩

/-- **A stretch.**  Starting a call and running its first stretch is running the first stretch of a
call that waits with nothing done. -/
lemma step_stretch (ha : transfers a = true) (hstep : step s a = some s') :
    ∃ s₀ thread q next events, Runs s a s₀ thread ∧ Stretch s.pipe (s₀.calls thread) q next events ∧
      s' = s₀.advance thread q next events := by
  cases a with
  | read thread len pending =>
    simp only [step] at hstep
    split at hstep
    · obtain ⟨q, next, events, hstretch, hafter⟩ :=
        afterRead_stretch { s with nextCall := s.nextCall + 1 } thread s.nextCall len pending
      refine ⟨_, _, q, next, events, .read, by simpa [start] using hstretch, ?_⟩
      rw [← Option.some.inj hstep]
      exact hafter.trans (by simp [advance, start])
    · cases hstep
  | write thread bytes pending =>
    simp only [step] at hstep
    split at hstep
    · obtain ⟨q, next, events, hstretch, hafter⟩ :=
        afterWrite_stretch { s with nextCall := s.nextCall + 1 } thread s.nextCall bytes 0 pending
      refine ⟨_, _, q, next, events, .write, by simpa [start] using hstretch, ?_⟩
      rw [← Option.some.inj hstep]
      exact hafter.trans (by simp [advance, start])
    · cases hstep
  | resume thread pending =>
    simp only [step] at hstep
    split at hstep
    next => cases hstep
    next call len hcall =>
      obtain ⟨q, next, events, hstretch, hafter⟩ := s.afterRead_stretch thread call len pending
      exact ⟨_, _, q, next, events, .resume, hcall ▸ hstretch,
        (Option.some.inj hstep).symm.trans hafter⟩
    next call bytes written hcall =>
      obtain ⟨q, next, events, hstretch, hafter⟩ :=
        s.afterWrite_stretch thread call bytes written pending
      exact ⟨_, _, q, next, events, .resume, hcall ▸ hstretch,
        (Option.some.inj hstep).symm.trans hafter⟩
  | _ => simp [transfers] at ha

lemma step_ends (ha : transfers a = false) (hstep : step s a = some s') :
    ∃ p, p.ring = s.pipe.ring ∧ s' = { s with pipe := p } := by
  cases a with
  | read | write | resume => simp [transfers] at ha
  | _ =>
    refine ⟨_, ?_, (Option.some.inj hstep).symm⟩
    simp only [opened, closed, announce, withdraw]
    try split_ifs <;> rfl

/-! ## Conservation -/

/-- Reads return what was put in, in order, and what they have not returned is in the ring. -/
def Conserved (s : PipeSystem) : Prop :=
  bytesPut s.trace = bytesGot s.trace ++ s.pipe.ring.content

lemma Stretch.conserves (h : Stretch p c q next events) :
    p.ring.content ++ bytesPut events = bytesGot events ++ q.ring.content := by
  cases h with
  | readWait h | readDone h | readError h =>
    have hcont := p.readStretch_content ‹_› ‹_›
    rw [h] at hcont
    simpa [bytesPut, bytesGot, input, output, ReadEnd.taken] using hcont
  | writeWait h | writeDone h =>
    rw [show q = _ from congrArg WriteStretch.pipe h.symm, p.writeStretch_content, h]
    simp [bytesPut, bytesGot, input, output, List.flatMap_map]

lemma conserved_step (h : Conserved s) (hstep : step s a = some s') : Conserved s' := by
  cases ha : transfers a with
  | false =>
    obtain ⟨p, hring, rfl⟩ := step_ends ha hstep
    rw [Conserved, hring]
    exact h
  | true =>
    obtain ⟨s₀, thread, q, next, events, hruns, hstretch, rfl⟩ := step_stretch ha hstep
    rw [Conserved] at h ⊢
    simp only [advance, hruns.same.2, bytesPut_append, bytesGot_append, h, append_assoc,
      hstretch.conserves]

/-! ## Atomicity -/

/-- The number of the call a thread is waiting in. -/
def callOf (s : PipeSystem) (thread : ℕ) : Option ℕ :=
  match s.calls thread with
  | .idle => none
  | .reading call _ => some call
  | .writing call _ _ => some call

/-- Numbers are unique, a write of at most `PIPE_BUF` bytes that has not returned has put
nothing in, and one that returned its length put everything in at once. -/
structure SmallWritesWhole (s : PipeSystem) : Prop where
  fresh : ∀ e ∈ s.trace, e.number < s.nextCall
  owned : ∀ thread call, s.callOf thread = some call → call < s.nextCall
  distinct : ∀ thread thread' call, s.callOf thread = some call → s.callOf thread' = some call →
    thread = thread'
  finished : ∀ call bytes result thread, .wrote call bytes result ∈ s.trace →
    s.callOf thread ≠ some call
  waiting : ∀ thread call bytes written, s.calls thread = .writing call bytes written →
    bytes.length ≤ PIPE_BUF → written = 0 ∧ ∀ chunk, .put call chunk ∉ s.trace
  whole : ∀ call bytes, .wrote call bytes (.ok bytes.length) ∈ s.trace →
    bytes.length ≤ PIPE_BUF → bytes ≠ [] → PutAtOnce s.trace call bytes

/-- **The side condition on a run.**  Whenever a write of at most `PIPE_BUF` bytes that has put
nothing in yet runs, it `Fits`. -/
def WriteFits (s : PipeSystem) : PipeStep → Prop
  | .write _ bytes _ => bytes.length ≤ PIPE_BUF → s.pipe.Fits bytes
  | .resume thread _ =>
    match s.calls thread with
    | .writing _ bytes 0 => bytes.length ≤ PIPE_BUF → s.pipe.Fits bytes
    | _ => True
  | _ => True

section

variable (h : SmallWritesWhole s)
include h

lemma smallWritesWhole_start (thread : ℕ) {call : PipeCall}
    (hcall : (∃ len, call = .reading s.nextCall len) ∨
      ∃ bytes, call = .writing s.nextCall bytes 0) :
    SmallWritesWhole (s.start thread call) := by
  have hnumber : ∀ t c, (s.start thread call).callOf t = some c →
      (t = thread ∧ c = s.nextCall) ∨ s.callOf t = some c := by
    intro t c ht
    by_cases htt : t = thread
    · subst htt
      rcases hcall with ⟨len, rfl⟩ | ⟨bytes, rfl⟩ <;>
        simp only [callOf, start, update_self, Option.some.injEq] at ht <;>
        exact .inl ⟨rfl, ht.symm⟩
    · exact .inr (by simpa [callOf, start, update_of_ne htt] using ht)
  refine ⟨fun e he => Nat.lt_succ_of_lt (h.fresh e he), ?_, ?_, ?_, ?_, h.whole⟩
  · intro t c ht
    rcases hnumber t c ht with ⟨-, rfl⟩ | hold
    · exact Nat.lt_succ_self _
    · exact Nat.lt_succ_of_lt (h.owned t c hold)
  · intro t t' c ht ht'
    rcases hnumber t c ht with ⟨rfl, rfl⟩ | hold <;>
      rcases hnumber t' _ ht' with ⟨rfl, hc⟩ | hold'
    · rfl
    · exact absurd (h.owned t' _ hold') (lt_irrefl _)
    · subst hc
      exact absurd (h.owned t _ hold) (lt_irrefl _)
    · exact h.distinct t t' c hold hold'
  · intro c bytes result t hmem ht
    rcases hnumber t c ht with ⟨-, rfl⟩ | hold
    · exact absurd (h.fresh _ hmem) (lt_irrefl _)
    · exact h.finished c bytes result t hmem hold
  · intro t c bytes written ht hsmall
    by_cases htt : t = thread
    · subst htt
      simp only [start, update_self] at ht
      rcases hcall with ⟨len, rfl⟩ | ⟨bytes', rfl⟩
      · cases ht
      · cases ht
        exact ⟨rfl, fun chunk hmem => absurd (h.fresh _ hmem) (lt_irrefl _)⟩
    · exact h.waiting t c bytes written (by simpa [start, update_of_ne htt] using ht)
        hsmall

/-- The call number `call` that `thread` is in makes progress: it adds `events` to the history
and then either has returned or still waits, in `next`. -/
lemma smallWritesWhole_advance {call : ℕ}
    (hcall : s.callOf thread = some call) (p : PipeBuffer) (next : PipeCall)
    (events : List PipeEvent) (hevents : ∀ e ∈ events, e.number = call)
    (hnext : next = .idle ∨ ((∀ c b r, .wrote c b r ∉ events) ∧
      ((∃ len, next = .reading call len) ∨ ∃ bytes written,
        next = .writing call bytes written ∧ (bytes.length ≤ PIPE_BUF →
          written = 0 ∧ ∀ chunk, .put call chunk ∉ s.trace ++ events))))
    (hwhole : ∀ bytes, .wrote call bytes (.ok bytes.length) ∈ events → bytes.length ≤ PIPE_BUF →
      bytes ≠ [] → PutAtOnce (s.trace ++ events) call bytes) :
    SmallWritesWhole (s.advance thread p next events) := by
  have hnumber : ∀ t c, (s.advance thread p next events).callOf t = some c →
      s.callOf t = some c ∧ (t = thread → next ≠ .idle) := by
    intro t c ht
    by_cases htt : t = thread
    · subst htt
      rcases hnext with rfl | ⟨-, ⟨len, rfl⟩ | ⟨bytes, written, rfl, -⟩⟩ <;>
        simp only [callOf, advance, update_self, Option.some.injEq, reduceCtorEq] at ht
      all_goals
        subst ht
        exact ⟨hcall, fun _ => by simp⟩
    · exact ⟨by simpa [callOf, advance, update_of_ne htt] using ht, fun h' => (htt h').elim⟩
  refine ⟨?_, fun t c ht => h.owned t c (hnumber t c ht).1,
    fun t t' c ht ht' => h.distinct t t' c (hnumber t c ht).1 (hnumber t' c ht').1, ?_, ?_, ?_⟩
  · intro e he
    rcases mem_append.mp he with he | he
    · exact h.fresh e he
    · rw [hevents e he]
      exact h.owned thread call hcall
  · intro c bytes result t hmem ht
    obtain ⟨hold, hidle⟩ := hnumber t c ht
    rcases mem_append.mp hmem with hmem | hmem
    · exact h.finished c bytes result t hmem hold
    · -- Only a call that returned is recorded, and it is the one `thread` was in.
      obtain rfl : c = call := hevents _ hmem
      have htt : t = thread := h.distinct t thread c hold hcall
      rcases hnext with hidle' | ⟨hnone, -⟩
      · exact hidle htt hidle'
      · exact hnone _ _ _ hmem
  · intro t c bytes written ht hsmall
    by_cases htt : t = thread
    · subst htt
      simp only [advance, update_self] at ht
      rcases hnext with rfl | ⟨-, ⟨len, rfl⟩ | ⟨bytes', written', rfl, hzero⟩⟩
      · cases ht
      · cases ht
      · cases ht
        exact hzero hsmall
    · have ht' : s.calls t = .writing c bytes written := by
        simpa [advance, update_of_ne htt] using ht
      obtain ⟨hw, hput⟩ := h.waiting t c bytes written ht' hsmall
      refine ⟨hw, fun chunk hmem => ?_⟩
      rcases mem_append.mp hmem with hmem | hmem
      · exact hput chunk hmem
      · obtain rfl : c = call := hevents _ hmem
        exact htt (h.distinct t thread c (by simp [callOf, ht']) hcall)
  · intro c bytes hmem hsmall hne
    rcases mem_append.mp hmem with hmem | hmem
    · refine (h.whole c bytes hmem hsmall hne).append fun chunk hput => ?_
      obtain rfl : c = call := hevents _ hput
      exact h.finished c bytes _ thread hmem hcall
    · obtain rfl : c = call := hevents _ hmem
      exact hwhole bytes hmem hsmall hne

lemma smallWritesWhole_stretch (hstretch : Stretch s.pipe (s.calls thread) q next events)
    (hfits : ∀ call bytes, s.calls thread = .writing call bytes 0 → bytes.length ≤ PIPE_BUF →
      s.pipe.Fits bytes) : SmallWritesWhole (s.advance thread q next events) := by
  generalize hcall : s.calls thread = c at hstretch
  cases hstretch with
  | readWait =>
    exact smallWritesWhole_advance h (by rw [callOf, hcall]) _ _ [] (by simp)
      (.inr ⟨by simp, .inl ⟨_, rfl⟩⟩) (by simp)
  | readDone =>
    exact smallWritesWhole_advance h (by rw [callOf, hcall]) _ _ _ (by simp [number])
      (.inl rfl) (by simp)
  | readError =>
    exact smallWritesWhole_advance h (by rw [callOf, hcall]) _ _ [] (by simp) (.inl rfl) (by simp)
  | @writeWait call bytes written _ _ written' chunks hw =>
    refine smallWritesWhole_advance h (by rw [callOf, hcall]) _ _ _ (by simp [number])
      (.inr ⟨by simp, .inr ⟨bytes, written', rfl, fun hle => ?_⟩⟩) (by simp)
    obtain ⟨rfl, hnone⟩ := h.waiting thread call bytes written hcall hle
    have hne : bytes ≠ [] := by
      rintro rfl
      cases hw
    rcases writeStretch_fits hw (hfits call bytes hcall hle) hne with
      ⟨rfl, hwait | ⟨e, herror⟩⟩ | ⟨-, hdone⟩
    · exact ⟨WriteEnd.wait.inj hwait, by simpa using hnone⟩
    · cases herror
    · cases hdone
  | @writeDone call bytes written _ _ result chunks hw =>
    refine smallWritesWhole_advance h (by rw [callOf, hcall]) _ _ _ ?_ (.inl rfl) ?_
    · simp only [mem_append, List.mem_map, List.mem_singleton]
      rintro e (⟨chunk, -, rfl⟩ | rfl) <;> rfl
    · intro bytes' hmem hle hne
      obtain ⟨rfl, hres⟩ : bytes' = bytes ∧ .ok bytes'.length = result := by simpa using hmem
      obtain ⟨rfl, hnone⟩ := h.waiting thread call bytes' written hcall hle
      rcases writeStretch_fits hw (hfits call bytes' hcall hle) hne with
        ⟨-, hwait | ⟨e, herror⟩⟩ | ⟨rfl, -⟩
      · cases hwait
      · cases hres.trans (WriteEnd.done.inj herror)
      · exact ⟨s.trace,
          [.wrote call bytes' result], by simp, fun chunk hput => hnone chunk (by simpa using hput)⟩

lemma smallWritesWhole_step (hfits : WriteFits s a) (hstep : step s a = some s') :
    SmallWritesWhole s' := by
  cases ha : transfers a with
  | false =>
    obtain ⟨p, -, rfl⟩ := step_ends ha hstep
    exact { h with }
  | true =>
    obtain ⟨s₀, thread, q, next, events, hruns, hstretch, rfl⟩ := step_stretch ha hstep
    cases hruns with
    | read =>
      exact smallWritesWhole_stretch (smallWritesWhole_start h thread (.inl ⟨_, rfl⟩))
        hstretch (by simp [start])
    | write =>
      refine smallWritesWhole_stretch (smallWritesWhole_start h thread (.inr ⟨_, rfl⟩)) hstretch
        fun call bytes hcall => ?_
      obtain ⟨-, rfl⟩ : _ ∧ _ = bytes := by simpa [start] using hcall
      exact hfits
    | resume =>
      refine smallWritesWhole_stretch h hstretch fun call bytes hcall => ?_
      simpa [WriteFits, hcall] using hfits

end

lemma smallWritesWhole_initial : SmallWritesWhole initial :=
  ⟨by simp [initial], by simp [initial, callOf], by simp [initial, callOf], by simp [initial],
    by simp [initial], by simp [initial]⟩

/-- **Reads and writes of a pipe.**  In every run the reads return, in order and without loss,
what was put in; and in every run whose short writes fit when they run, each short write that
returns its length went in at once. -/
theorem pipe_reads_in_order_and_short_writes_whole (as : List PipeStep) (s : PipeSystem)
    (hrun : run step initial as = some s) :
    bytesPut s.trace = bytesGot s.trace ++ s.pipe.ring.content ∧
      (Along step WriteFits initial as → ∀ call bytes,
        .wrote call bytes (.ok bytes.length) ∈ s.trace → bytes.length ≤ PIPE_BUF → bytes ≠ [] →
          PutAtOnce s.trace call bytes) := by
  refine ⟨?_, fun hfits => ?_⟩
  · exact run_invariant (C := fun _ _ => True) (I := Conserved)
      (fun _ _ _ h _ hstep => conserved_step h hstep) as initial s rfl
      (along_of_forall (fun _ _ => trivial) as initial) hrun
  · exact (run_invariant (fun _ _ _ h hC hstep => smallWritesWhole_step h hC hstep) as initial s
      smallWritesWhole_initial hfits hrun).whole

/-- A write into an empty pipe and a read of it meet the side condition. -/
theorem write_then_read_in_order :
    ∃ s, run step initial [.opened O_RDWR, .write 0 [7] false, .read 1 1 false] = some s ∧
      bytesPut s.trace = bytesGot s.trace ++ s.pipe.ring.content ∧
      PutAtOnce s.trace 0 [7] := by
  obtain ⟨s, hrun⟩ := Option.isSome_iff_exists.mp (show
    (run step initial [.opened O_RDWR, .write 0 [7] false, .read 1 1 false]).isSome by rfl)
  have hresult := pipe_reads_in_order_and_short_writes_whole _ s hrun
  have hfits : Along step WriteFits initial
      [.opened O_RDWR, .write 0 [7] false, .read 1 1 false] := by
    refine ⟨trivial, fun t ht => ?_⟩
    obtain rfl : _ = t := Option.some.inj ht
    exact ⟨fun _ => .inr (.inr (by decide)), fun t' _ => ⟨trivial, fun _ _ => trivial⟩⟩
  have hwrote : .wrote 0 [7] (.ok [(7 : UInt8)].length) ∈ s.trace := by
    obtain rfl := Option.some.inj hrun
    exact List.mem_append_left _ (List.mem_append_right _ List.mem_cons_self)
  exact ⟨s, hrun, hresult.1, hresult.2 hfits 0 [7] hwrote (by decide) (by decide)⟩

/-! ## A short write that is split -/

/-- All but one of the bytes a pipe holds. -/
def longWrite : List UInt8 := List.replicate 4094 0

lemma length_longWrite : longWrite.length = 4094 := List.length_replicate ..

/-- Both ends are held, a long write leaves room for one byte, a write of two bytes copies one
and waits, and a third thread's byte gets in before the other. -/
def splitRun : List PipeStep :=
  [.opened O_RDWR, .write 0 longWrite false, .write 1 [1, 2] false, .read 2 1 false,
    .write 3 [9] false, .read 2 1 false, .resume 1 false]

/-- The history `splitRun` leaves behind. -/
def splitTrace : List PipeEvent :=
  [.put 0 longWrite, .wrote 0 longWrite (.ok 4094), .put 1 [1], .got 2 [0], .put 3 [9],
    .wrote 3 [9] (.ok 1), .got 4 [0], .put 1 [2], .wrote 1 [1, 2] (.ok 2)]

lemma exists_readStretch_one {p : PipeBuffer} {b : UInt8} {rest : List UInt8}
    (hrds : p.readers + p.pendingReaders ≠ 0) (hcont : p.ring.content = b :: rest) :
    ∃ q, p.readStretch 1 false = (.done (.ok [b]), q) ∧
      q.readers + q.pendingReaders ≠ 0 ∧ q.ring.content = rest ∧
      q.available = p.available + 1 := by
  have hused : 0 < p.ring.used := by
    rw [← Ring.length_content, hcont]
    exact Nat.succ_pos _
  have hpop := Ring.content_pop p.ring hused
  rw [hcont, List.cons.injEq] at hpop
  have hcnt := Ring.used_pop p.ring hused
  have hlt := p.ring.used_lt
  refine ⟨{ p with ring := p.ring.pop }, ?_, hrds, hpop.2.symm, ?_⟩
  · simp [readStretch, Ring.drain, used, hused, hused.ne', hpop.1]
  · simp only [available, Ring.available]
    omega

lemma exists_writeStretch_room {p : PipeBuffer} {written : ℕ}
    (hrds : p.readers + p.pendingReaders ≠ 0) (hleft : written < bytes.length)
    (hroom : bytes.length - written ≤ p.available) : ∃ q, p.writeStretch bytes written false =
        ⟨.done (.ok bytes.length), [bytes.drop written], q⟩ ∧
      q.readers + q.pendingReaders ≠ 0 ∧
      q.available = p.available - (bytes.length - written) ∧
      q.ring.content = p.ring.content ++ bytes.drop written := by
  refine ⟨_, writeStretch_room false hrds hleft hroom, ?_, ?_, ?_⟩
  · rwa [fill_ends]
  · rw [fill_available, fill_count, length_drop, min_eq_left hroom]
  · rw [fill_content, fill_count, length_drop, min_eq_left hroom,
      ← length_drop, List.take_length]

lemma exists_writeStretch_one {p : PipeBuffer} (b : UInt8)
    (hrds : p.readers + p.pendingReaders ≠ 0) (hroom : p.available = 1) (hne : bytes ≠ []) :
    ∃ q, p.writeStretch (b :: bytes) 0 false = ⟨.wait 1, [[b]], q⟩ ∧
      q.readers + q.pendingReaders ≠ 0 ∧ q.available = 0 ∧
      q.ring.content = p.ring.content ++ [b] := by
  have hpos := List.length_pos_iff.mpr hne
  refine ⟨(p.fill (b :: bytes)).2, ?_, ?_, ?_, ?_⟩
  · rw [writeStretch_some_room hrds (by omega)
      (by rw [hroom, length_cons]; omega), hroom]
    rfl
  · rwa [fill_ends]
  · rw [fill_available, fill_count, hroom, length_cons]
    omega
  · rw [fill_content, fill_count, hroom, length_cons,
      min_eq_right (by omega)]
    rfl

lemma run_splitRun : (run step initial splitRun).map trace = some splitTrace := by
  have hlen := length_longWrite
  obtain ⟨rest, hrest⟩ : ∃ rest, longWrite = 0 :: 0 :: rest := ⟨List.replicate 4092 0, rfl⟩
  obtain ⟨p₀, hp₀⟩ : ∃ p, p = empty.opened O_RDWR := ⟨_, rfl⟩
  have hr₀ : p₀.readers + p₀.pendingReaders ≠ 0 := by rw [hp₀]; decide
  have ha₀ : p₀.available = 4095 := by rw [hp₀]; rfl
  have hc₀ : p₀.ring.content = [] := by rw [hp₀]; rfl
  -- The long write leaves room for one byte, the short one takes it and waits.
  obtain ⟨p₁, hw₁, hr₁, ha₁, hc₁⟩ := exists_writeStretch_room hr₀
    (show 0 < longWrite.length by omega) (by omega)
  obtain ⟨p₂, hw₂, hr₂, ha₂, hc₂⟩ := exists_writeStretch_one 1 hr₁ (by omega)
    (List.cons_ne_nil 2 [])
  -- One byte is read, and another writer's byte takes its place.
  obtain ⟨p₃, hd₃, hr₃, hc₃, ha₃⟩ := exists_readStretch_one hr₂ (b := 0)
    (show p₂.ring.content = 0 :: (0 :: rest ++ [1]) by
      rw [hc₂, hc₁, hc₀, List.drop_zero, hrest]
      rfl)
  obtain ⟨p₄, hw₄, hr₄, ha₄, hc₄⟩ := exists_writeStretch_room hr₃
    (show 0 < [(9 : UInt8)].length by decide) (by rw [ha₃, ha₂]; decide)
  rw [hc₃, List.drop_zero] at hc₄
  -- A second byte is read, and the short write finishes.
  obtain ⟨p₅, hd₅, hr₅, hc₅, ha₅⟩ := exists_readStretch_one hr₄ hc₄
  obtain ⟨p₆, hw₆, -, -, -⟩ := exists_writeStretch_room hr₅
    (show 1 < [(1 : UInt8), 2].length by decide) (by rw [ha₅]; exact Nat.le_add_left ..)
  simp [splitRun, splitTrace, run_cons, run_nil, step, initial, ← hp₀, hw₁, hw₂, hd₃, hw₄, hd₅, hw₆,
    afterWrite, afterRead, length_longWrite]

/-- A write of two bytes that reports both as written, with another writer's byte between
them. -/
theorem write_split_across_wait :
    ∃ s, run step initial splitRun = some s ∧
      .wrote 1 [1, 2] (.ok [(1 : UInt8), 2].length) ∈ s.trace ∧
      [(1 : UInt8), 2].length ≤ PIPE_BUF ∧ ¬ PutAtOnce s.trace 1 [1, 2] := by
  obtain ⟨s, hrun, htrace⟩ := Option.map_eq_some_iff.mp run_splitRun
  refine ⟨s, hrun, ?_, by decide, ?_⟩
  · rw [htrace]
    simp [splitTrace]
  · rintro ⟨before, after, hsplit, -⟩
    have hput : .put 1 [1, 2] ∈ s.trace := hsplit ▸ List.mem_append_right before List.mem_cons_self
    simp [htrace, splitTrace] at hput

/-! ## The end of the input -/

/-- **The end of a pipe.**  In every state that a run comes to, a read of at least one byte reports
the end just if nobody has the pipe open for writing and everything that was ever put in has been
returned by a read. -/
theorem read_end_iff {as : List PipeStep} (len : ℕ) (pending : Bool)
    (hrun : run step initial as = some s) (hlen : len ≠ 0) :
    (s.pipe.readStretch len pending).1 = .done (.ok []) ↔
      s.pipe.writers = 0 ∧ bytesGot s.trace = bytesPut s.trace := by
  have hconserved : Conserved s := run_invariant (C := fun _ _ => True)
    (fun _ _ _ h _ hstep => conserved_step h hstep) as initial s rfl
    (along_of_forall (fun _ _ => trivial) as initial) hrun
  have hread : bytesGot s.trace = bytesPut s.trace ↔ s.pipe.used = 0 := by
    rw [hconserved, List.self_eq_append_right, Ring.content_eq_nil_iff, used]
  rw [hread, readStretch, if_neg hlen]
  by_cases hused : s.pipe.used = 0
  · rw [if_pos hused]
    split_ifs with hwriters <;> simp [hwriters, hused]
  · obtain ⟨n, rfl⟩ := Nat.exists_eq_succ_of_ne_zero hlen
    rw [if_neg hused]
    have hpos : 0 < s.pipe.ring.used := Nat.pos_of_ne_zero hused
    simp [Ring.drain, hpos, hused]

/-- One byte is written and read, and the pipe is closed. -/
theorem read_end_iff_closed : ∃ s,
    run step initial [.opened O_RDWR, .write 0 [7] false, .read 1 1 false, .closed O_RDWR] =
      some s ∧ bytesGot s.trace = bytesPut s.trace := by
  refine exists_run_of_map (fun s => (s.pipe.writers, s.pipe.used)) (0, 0) rfl fun s hrun hend => ?_
  refine ((read_end_iff 1 false hrun (by decide)).mp ?_).2
  obtain ⟨hwriters, hused⟩ := Prod.mk.inj hend
  simp [readStretch, hwriters, hused]

end PipeSystem

end ShitOs
