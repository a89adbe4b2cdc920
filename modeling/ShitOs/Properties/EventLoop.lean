import ShitOs.Construction.EventLoop
import ShitOs.Properties.Pipe

/-!
# Calls on a pipe that return without waiting

`O_NONBLOCK` is kept on the description, and the decision to wait is taken below it, in
`PipeBuffer`, which never sees the flag.  So whether a call waits depends on the pipe alone: a read
returns at once just if there is something to read, no writer, or a signal, and a write just if all
of it fits, or there is no reader, or a signal.

The window server opens its channels with `O_NONBLOCK` and sends from its event loop.  It gets back
to its `poll` as long as every call it makes is one that returns (`Ready`); a client that never
reads its channel stops it for good.

`poll` asks the same two questions in predicates of its own.  The one for writing counts only the
open readers where `write` also counts those that are still opening, so that the two differ just
when the pipe is full and its only readers are such (`readiness_agrees_iff`).
-/

namespace ShitOs

open Transition PipeBuffer FileDescription

variable {pipeOf : BitVec 32 → Option PipeBuffer}

namespace PipeBuffer

variable {p : PipeBuffer} {pending : Bool} {bytes : List UInt8} {written : ℕ}

/-- A read of `length` bytes that starts now, or goes on now, returns. -/
def ReadReturns (p : PipeBuffer) (length : ℕ) (pending : Bool) : Prop :=
  length = 0 ∨ 0 < p.used ∨ p.writers = 0 ∨ pending = true

/-- A write of `bytes` of which `written` are in returns. -/
def WriteReturns (p : PipeBuffer) (bytes : List UInt8) (written : ℕ) (pending : Bool) : Prop :=
  bytes.length ≤ written ∨ p.readers + p.pendingReaders = 0 ∨
    bytes.length - written ≤ p.available ∨ pending = true

instance (length : ℕ) (pending : Bool) : Decidable (p.ReadReturns length pending) := by
  unfold ReadReturns
  infer_instance

instance (bytes : List UInt8) (written : ℕ) (pending : Bool) :
    Decidable (p.WriteReturns bytes written pending) := by
  unfold WriteReturns
  infer_instance

lemma readStretch_ne_wait_iff {length : ℕ} :
    (p.readStretch length pending).1 ≠ .wait ↔ p.ReadReturns length pending := by
  unfold readStretch ReadReturns
  by_cases hlen : length = 0
  · simp [hlen]
  by_cases hused : p.used = 0
  · by_cases hwriters : p.writers = 0
    · simp [hlen, hused, hwriters]
    · cases pending <;> simp [hlen, hused, hwriters]
  · simp [hlen, hused, Nat.pos_of_ne_zero hused]

lemma writeLoop_pending (bytes : List UInt8) (fuel written w : ℕ) :
    (writeLoop bytes true fuel p written).ending ≠ .wait w := by
  induction fuel generalizing p written with
  | zero => simp [writeLoop]
  | succ fuel ih =>
    rw [writeLoop]
    by_cases hleft : written < bytes.length
    · rw [if_pos hleft]
      by_cases hrds : p.readers + p.pendingReaders = 0
      · simp [hrds]
      · rw [if_neg hrds]
        by_cases hfull : p.available = 0
        · simp [hfull]
        · rw [if_neg hfull]
          exact ih _
    · simp [hleft]

lemma writeStretch_of_le (pending : Bool) (hdone : bytes.length ≤ written) :
    (p.writeStretch bytes written pending).ending = .done (.ok written) := by
  rw [writeStretch, Nat.sub_eq_zero_of_le hdone, writeLoop]

lemma writeStretch_ne_wait_iff : (∀ w, (p.writeStretch bytes written pending).ending ≠ .wait w) ↔
      p.WriteReturns bytes written pending := by
  unfold WriteReturns
  by_cases hleft : bytes.length ≤ written
  · simp [writeStretch_of_le pending hleft, hleft]
  by_cases hrds : p.readers + p.pendingReaders = 0
  · simp [writeStretch_stop pending (Nat.lt_of_not_le hleft) (.inl hrds), hrds]
  by_cases hroom : bytes.length - written ≤ p.available
  · simp [writeStretch_room pending hrds (Nat.lt_of_not_le hleft) hroom, hroom]
  cases pending with
  | true => exact iff_of_true (writeLoop_pending bytes _ written) (by simp)
  | false =>
    simp only [hleft, hrds, hroom, Bool.false_eq_true, or_self, iff_false, not_forall, not_not]
    by_cases hfull : p.available = 0
    · exact ⟨written, by
        rw [writeStretch_stop false (Nat.lt_of_not_le hleft) (.inr hfull), if_neg hrds,
          if_neg (by simp)]⟩
    · exact ⟨written + p.available,
        by rw [writeStretch_some_room hrds (Nat.pos_of_ne_zero hfull) (by omega)]⟩

end PipeBuffer

/-! ## Readiness -/

namespace PipeBuffer

variable {p : PipeBuffer}

/-- A read that finds no signal waits. -/
def ReadWaits (p : PipeBuffer) (length : ℕ) : Prop := (p.readStretch length false).1 = .wait

/-- A write of one byte that finds no signal waits. -/
def WriteWaits (p : PipeBuffer) (b : UInt8) : Prop :=
  ∃ w, (p.writeStretch [b] 0 false).ending = .wait w

lemma readWaits_iff {length : ℕ} (hlen : 0 < length) :
    p.ReadWaits length ↔ p.canReadWithoutBlocking = false := by
  rw [ReadWaits, ← not_iff_not, ← ne_eq, readStretch_ne_wait_iff]
  simp [ReadReturns, canReadWithoutBlocking, hlen.ne', or_iff_not_imp_left]

lemma writeWaits_iff {b : UInt8} :
    p.WriteWaits b ↔ p.readers + p.pendingReaders ≠ 0 ∧ p.available = 0 := by
  rw [WriteWaits, ← not_iff_not, not_exists]
  refine writeStretch_ne_wait_iff.trans ?_
  simp only [WriteReturns, List.length_singleton]
  constructor
  · rintro (h | h | h | h)
    · omega
    · exact fun h' => h'.1 h
    · exact fun h' => by omega
    · cases h
  · intro h
    by_cases hrds : p.readers + p.pendingReaders = 0
    · exact .inr (.inl hrds)
    · exact .inr (.inr (.inl (by have := fun h' => h ⟨hrds, h'⟩; omega)))

/-- The predicates of `poll` agree with the calls: a call that is reported as ready returns, whether
there is a signal or not, and one that is not would wait. -/
structure ReadinessAgrees (p : PipeBuffer) : Prop where
  canRead : p.canReadWithoutBlocking = true →
    ∀ length pending, 0 < length → (p.readStretch length pending).1 ≠ .wait
  cannotRead : p.canReadWithoutBlocking = false → ∀ length, 0 < length → p.ReadWaits length
  canWrite : p.canWriteWithoutBlocking = true →
    ∀ b pending w, (p.writeStretch [b] 0 pending).ending ≠ .wait w
  cannotWrite : p.canWriteWithoutBlocking = false → ∀ b, p.WriteWaits b

/-- What `poll` says of a pipe is right: it reports nothing that would wait, and where it reports
nothing, what was asked for would wait. -/
structure PollAgrees (p : PipeBuffer) : Prop where
  readable : ∀ events length, p.reported events &&& POLLIN ≠ 0 → 0 < length → ¬ p.ReadWaits length
  writable : ∀ events b, p.reported events &&& POLLOUT ≠ 0 → ¬ p.WriteWaits b
  sleeps : ∀ events, p.reported events = 0 →
    (events &&& POLLIN ≠ 0 → ∀ length, 0 < length → p.ReadWaits length) ∧
      (events &&& POLLOUT ≠ 0 → ∀ b, p.WriteWaits b)

/-- The pipe is full, and the only readers there are are still opening it. -/
def FullBeforeReaders (p : PipeBuffer) : Prop :=
  p.available = 0 ∧ p.readers = 0 ∧ 0 < p.pendingReaders

instance : Decidable p.FullBeforeReaders := inferInstanceAs (Decidable (_ ∧ _ ∧ _))

lemma canWrite_eq_false_iff :
    p.canWriteWithoutBlocking = false ↔ p.available = 0 ∧ p.readers ≠ 0 := by
  simp [canWriteWithoutBlocking]

/-- But in that state, `can_write_without_blocking` is right. -/
lemma writeWaits_iff_of_not (h : ¬ p.FullBeforeReaders) {b : UInt8} :
    p.WriteWaits b ↔ p.canWriteWithoutBlocking = false := by
  rw [writeWaits_iff, canWrite_eq_false_iff]
  unfold FullBeforeReaders at h
  omega

lemma readinessAgrees_iff : p.ReadinessAgrees ↔ ¬ p.FullBeforeReaders := by
  constructor
  · rintro h ⟨hfull, hrds, hpend⟩
    have hcan : p.canWriteWithoutBlocking = true := by simp [canWriteWithoutBlocking, hrds]
    obtain ⟨w, hw⟩ := (writeWaits_iff (b := 0)).mpr ⟨by omega, hfull⟩
    exact h.canWrite hcan 0 false w hw
  · intro h
    refine ⟨fun hcan length pending hlen => ?_, fun hcannot length hlen => ?_,
      fun hcan b pending => ?_, fun hcannot b => (writeWaits_iff_of_not h).mpr hcannot⟩
    · rw [readStretch_ne_wait_iff, ReadReturns]
      simp only [canReadWithoutBlocking, Bool.or_eq_true, decide_eq_true_eq] at hcan
      exact .inr (hcan.imp_right .inl)
    · exact (readWaits_iff hlen).mpr hcannot
    · rw [writeStretch_ne_wait_iff, WriteReturns, List.length_singleton]
      simp only [canWriteWithoutBlocking, Bool.or_eq_true, decide_eq_true_eq] at hcan
      unfold FullBeforeReaders at h
      omega

lemma reported_bits (p : PipeBuffer) (events : BitVec 16) :
    (p.reported events &&& POLLIN ≠ 0 ↔ events &&& POLLIN ≠ 0 ∧ p.canReadWithoutBlocking) ∧
      (p.reported events &&& POLLOUT ≠ 0 ↔ events &&& POLLOUT ≠ 0 ∧ p.canWriteWithoutBlocking) ∧
      (p.reported events = 0 ↔ ¬ (events &&& POLLIN ≠ 0 ∧ p.canReadWithoutBlocking) ∧
        ¬ (events &&& POLLOUT ≠ 0 ∧ p.canWriteWithoutBlocking) ∧ ¬ p.isHungUp) := by
  unfold reported
  split_ifs <;> simp_all [POLLIN, POLLOUT, POLLHUP]

lemma pollAgrees_iff : p.PollAgrees ↔ ¬ p.FullBeforeReaders := by
  constructor
  · rintro h ⟨hfull, hrds, hpend⟩
    refine h.writable POLLOUT 0 ?_ (writeWaits_iff.mpr ⟨by omega, hfull⟩)
    exact (p.reported_bits POLLOUT).2.1.mpr ⟨by decide, by simp [canWriteWithoutBlocking, hrds]⟩
  · intro h
    refine ⟨fun events length hbit hlen => ?_, fun events b hbit => ?_, fun events hnone => ?_⟩
    · rw [readWaits_iff hlen, ((p.reported_bits events).1.mp hbit).2]
      decide
    · rw [writeWaits_iff_of_not h, ((p.reported_bits events).2.1.mp hbit).2]
      decide
    · obtain ⟨hin, hout, -⟩ := (p.reported_bits events).2.2.mp hnone
      refine ⟨fun hasked length hlen => (readWaits_iff hlen).mpr ?_,
        fun hasked b => (writeWaits_iff_of_not h).mpr ?_⟩
      · exact Bool.eq_false_iff.mpr fun hcan => hin ⟨hasked, hcan⟩
      · exact Bool.eq_false_iff.mpr fun hcan => hout ⟨hasked, hcan⟩

end PipeBuffer

lemma pollTurn_eq_none_iff {entries : List PollEntry} :
    pollTurn pipeOf entries = none ↔ ∀ entry ∈ entries, (pollOne pipeOf entry).1 = false := by
  simp only [pollTurn, ite_eq_right_iff, reduceCtorEq, imp_false, not_lt, Nat.le_zero,
    List.countP_eq_zero, List.mem_map, forall_exists_index, and_imp, Bool.not_eq_true]
  exact ⟨fun h entry hentry => h _ entry hentry rfl, fun h _ entry hentry he => he ▸ h entry hentry⟩

lemma pollOne_of_pipe {entry : PollEntry} {p : PipeBuffer}
    (hfd : 0 ≤ entry.fd.toInt) (hpipe : pipeOf entry.fd = some p) :
    (pollOne pipeOf entry).2.revents = p.reported entry.events ∧
      ((pollOne pipeOf entry).1 = false ↔ p.reported entry.events = 0) := by
  rw [pollOne, if_neg (by omega), hpipe]
  simp

/-- **Readiness agrees with blocking.**  The predicates, and with them `poll_one` and `sys_poll` on
any entries, are right about a pipe just if it is not full with no readers but such as are still
opening it. -/
theorem readiness_agrees_iff (p : PipeBuffer) :
    (p.ReadinessAgrees ∧
      ∀ (pipeOf : BitVec 32 → Option PipeBuffer) (entries : List PollEntry) (entry : PollEntry),
        entry ∈ entries → 0 ≤ entry.fd.toInt → pipeOf entry.fd = some p →
          ((pollOne pipeOf entry).2.revents &&& POLLIN ≠ 0 →
            ∀ length, 0 < length → ¬ p.ReadWaits length) ∧
          ((pollOne pipeOf entry).2.revents &&& POLLOUT ≠ 0 → ∀ b, ¬ p.WriteWaits b) ∧
          (pollTurn pipeOf entries = none →
            (entry.events &&& POLLIN ≠ 0 → ∀ length, 0 < length → p.ReadWaits length) ∧
              (entry.events &&& POLLOUT ≠ 0 → ∀ b, p.WriteWaits b))) ↔
      ¬ p.FullBeforeReaders := by
  refine ⟨fun h => PipeBuffer.readinessAgrees_iff.mp h.1, fun h =>
    ⟨PipeBuffer.readinessAgrees_iff.mpr h, fun pipeOf entries entry hentry hfd hpipe => ?_⟩⟩
  have hagrees := PipeBuffer.pollAgrees_iff.mpr h
  obtain ⟨hrevents, hreports⟩ := pollOne_of_pipe hfd hpipe
  rw [hrevents]
  refine ⟨fun hbit length hlength => hagrees.readable _ length hbit hlength,
    fun hbit b => hagrees.writable _ b hbit, fun hsleeps => hagrees.sleeps _ ?_⟩
  exact hreports.mp (pollTurn_eq_none_iff.mp hsleeps entry hentry)

/-- As many bytes as a pipe holds. -/
def fullWrite : List UInt8 := List.replicate 4095 0

/-- A pipe is filled, its reader goes, and another one begins to open it. -/
def fullBeforeReader : List PipeStep :=
  [.opened O_RDONLY, .opened O_WRONLY, .write 0 fullWrite false, .closed O_RDONLY, .announce true]

/-- In the state that this leads to, `poll` reports the pipe as ready for a write that waits. -/
theorem full_pipe_reported_ready :
    ∃ s, run PipeSystem.step PipeSystem.initial fullBeforeReader = some s ∧
      s.pipe.canWriteWithoutBlocking = true ∧ s.pipe.reported POLLOUT &&& POLLOUT ≠ 0 ∧
      ∀ b, s.pipe.WriteWaits b := by
  have hlength : fullWrite.length = 4095 := List.length_replicate ..
  obtain ⟨p₀, hp₀⟩ : ∃ p, p = (PipeBuffer.empty.opened O_RDONLY).opened O_WRONLY := ⟨_, rfl⟩
  have hr₀ : p₀.readers + p₀.pendingReaders ≠ 0 := by rw [hp₀]; decide
  have ha₀ : p₀.available = 4095 := by rw [hp₀]; rfl
  have hwrite := PipeBuffer.writeStretch_room false hr₀ (show 0 < fullWrite.length by omega)
    (by omega)
  rw [List.drop_zero] at hwrite
  obtain ⟨p₁, hp₁⟩ : ∃ p, p = (p₀.fill fullWrite).2 := ⟨_, rfl⟩
  have ha₁ : p₁.available = 0 := by
    rw [hp₁, PipeBuffer.fill_available, PipeBuffer.fill_count, hlength, ha₀]
    rfl
  have hends : p₁.readers = 1 ∧ p₁.pendingReaders = 0 := by
    rw [hp₁, PipeBuffer.fill_ends, hp₀]
    exact ⟨rfl, rfl⟩
  have hstate : (p₁.closed O_RDONLY).announce true =
      { p₁ with readers := 0, pendingReaders := 1 } := by
    simp [PipeBuffer.closed, PipeBuffer.announce, O_RDONLY, O_ACCMODE, O_WRONLY, hends.1, hends.2]
  have hrun : (run PipeSystem.step PipeSystem.initial fullBeforeReader).map PipeSystem.pipe =
      some { p₁ with readers := 0, pendingReaders := 1 } := by
    simp [fullBeforeReader, run_cons, run_nil, PipeSystem.step, PipeSystem.initial, ← hp₀, hwrite,
      PipeSystem.afterWrite, ← hp₁, hstate]
  obtain ⟨s, hs, hpipe⟩ := Option.map_eq_some_iff.mp hrun
  have hcan : s.pipe.canWriteWithoutBlocking = true := by
    simp [PipeBuffer.canWriteWithoutBlocking, hpipe]
  refine ⟨s, hs, hcan, (s.pipe.reported_bits POLLOUT).2.1.mpr ⟨by decide, hcan⟩, fun b => ?_⟩
  rw [PipeBuffer.writeWaits_iff, hpipe]
  exact ⟨Nat.one_ne_zero, ha₁⟩

namespace FileDescription

variable {d : FileDescription} {p : PipeBuffer}

lemma afterRead_fst (r : ReadEnd × PipeBuffer) : (d.afterRead r).1 = r.1 := by
  unfold afterRead
  split <;> rfl

lemma afterWrite_fst (w : WriteStretch) : (d.afterWrite w).1 = w.ending := by
  unfold afterWrite
  split
  · rename_i h
    exact h.symm
  · rfl

/-- A call of `read` on a description returns without waiting. -/
def ReadReturns (d : FileDescription) (p : PipeBuffer) (length : ℕ) (pending : Bool) : Prop :=
  d.isReadable = false ∨ p.ReadReturns length pending

/-- A call of `write` on a description returns without waiting. -/
def WriteReturns (d : FileDescription) (p : PipeBuffer) (bytes : List UInt8) (pending : Bool) :
    Prop :=
  d.isWritable = false ∨ p.WriteReturns bytes 0 pending

instance (length : ℕ) (pending : Bool) : Decidable (d.ReadReturns p length pending) :=
  inferInstanceAs (Decidable (_ ∨ _))

instance (bytes : List UInt8) (pending : Bool) : Decidable (d.WriteReturns p bytes pending) :=
  inferInstanceAs (Decidable (_ ∨ _))

lemma read_ne_wait_iff {length : ℕ} {pending : Bool} :
    (d.read p length pending).1 ≠ .wait ↔ d.ReadReturns p length pending := by
  unfold read ReadReturns
  cases d.isReadable with
  | false => simp
  | true => simpa [afterRead_fst] using readStretch_ne_wait_iff

lemma write_ne_wait_iff {bytes : List UInt8} {pending : Bool} :
    (∀ w, (d.write p bytes pending).1 ≠ .wait w) ↔ d.WriteReturns p bytes pending := by
  unfold write WriteReturns
  cases d.isWritable with
  | false => simp
  | true => simpa [afterWrite_fst] using writeStretch_ne_wait_iff

end FileDescription

/-! ## The server -/

namespace EventLoop

variable {s s' : EventLoop} {a : ServerStep} {channel : ℕ}

/-- The server's thread is at its `poll`. -/
structure AtPoll (s : EventLoop) : Prop where
  todo : s.todo = []
  waiting : s.waiting = none

/-- The call an operation makes returns without waiting. -/
def Returns (s : EventLoop) (pending : Bool) : ServerOperation → Prop
  | .receive channel length =>
    (s.channels channel).description.ReadReturns (s.channels channel).pipe length pending
  | .send channel message =>
    (s.channels channel).description.WriteReturns (s.channels channel).pipe message pending

/-- **The side condition on a run.** -/
def Ready (s : EventLoop) : ServerStep → Prop
  | .perform pending => ∀ operation ∈ s.todo.head?, s.Returns pending operation
  | _ => True

instance (pending : Bool) (operation : ServerOperation) :
    Decidable (s.Returns pending operation) := by
  cases operation <;> unfold Returns <;> infer_instance

instance (s : EventLoop) (a : ServerStep) : Decidable (Ready s a) := by
  cases a <;> unfold Ready <;> infer_instance

lemma waitOfRead_eq_none {e : ReadEnd} (h : e ≠ .wait) : waitOfRead e = none := by
  cases e with
  | wait => exact absurd rfl h
  | done result => rfl

lemma waitOfWrite_eq_none {e : WriteEnd} (h : ∀ w, e ≠ .wait w) : waitOfWrite e = none := by
  cases e with
  | wait written => exact absurd rfl (h written)
  | done result => rfl

lemma perform_returns {pending : Bool} (hwait : s.waiting = none)
    (hready : Ready s (.perform pending)) {operation : ServerOperation}
    {rest : List ServerOperation} (htodo : s.todo = operation :: rest) :
    ∃ s', s.perform pending = some s' ∧ s'.todo = rest ∧ s'.waiting = none := by
  have hreturns : s.Returns pending operation := hready operation (by simp [htodo])
  cases operation with
  | receive channel length =>
    have hend := waitOfRead_eq_none (read_ne_wait_iff.mpr hreturns)
    simp only [perform, htodo, hwait, hend]
    exact ⟨_, rfl, rfl, rfl⟩
  | send channel message =>
    have hend := waitOfWrite_eq_none (write_ne_wait_iff.mpr hreturns)
    simp only [perform, htodo, hwait, hend]
    exact ⟨_, rfl, rfl, rfl⟩

lemma waiting_step (hwait : s.waiting = none) (hready : Ready s a)
    (hstep : s.step a = some s') : s'.waiting = none := by
  cases a with
  | poll todo =>
    simp only [step] at hstep
    split_ifs at hstep
    exact Option.some.inj hstep ▸ hwait
  | perform pending =>
    cases htodo : s.todo with
    | nil => simp [step, perform, htodo] at hstep
    | cons operation rest =>
      obtain ⟨s₁, hperf, -, hdone⟩ := perform_returns hwait hready htodo
      obtain rfl : s₁ = s' := Option.some.inj (hperf.symm.trans hstep)
      exact hdone
  | client channel move pending => exact Option.some.inj hstep ▸ hwait

/-- As many steps of the server as it has operations to do take it back to its `poll`. -/
lemma reaches_poll : ∀ {pendings : List Bool} {s : EventLoop}, s.waiting = none →
    pendings.length = s.todo.length → Along step Ready s (pendings.map .perform) →
    ∃ s', run step s (pendings.map .perform) = some s' ∧ s'.AtPoll
  | [], s, hwait, hlen, _ => ⟨s, rfl, List.length_eq_zero_iff.mp hlen.symm, hwait⟩
  | pending :: pendings, s, hwait, hlen, hready => by
    cases htodo : s.todo with
    | nil => simp [htodo] at hlen
    | cons operation rest =>
      obtain ⟨s₁, hperf, hrest, hdone⟩ := perform_returns hwait hready.1 htodo
      have hlen' : pendings.length = s₁.todo.length := by
        rw [hrest]
        simpa [htodo] using hlen
      obtain ⟨s', hrun, hpoll⟩ := reaches_poll hdone hlen' (hready.2 s₁ hperf)
      exact ⟨s', run_cons.mpr ⟨s₁, hperf, hrun⟩, hpoll⟩

/-- **Calls on a pipe that return without waiting.**  Whatever the flags of the description, a read
or a write returns without waiting just if the pipe lets it; and in a run of the server from its
`poll` all of whose calls are such, it is never found waiting, and as many further calls as it has
still to make take it to its next `poll`. -/
theorem returns_without_waiting (d : FileDescription) (p : PipeBuffer) (pending : Bool) :
    (∀ length : ℕ, (d.read p length pending).1 ≠ .wait ↔ d.ReadReturns p length pending) ∧
    (∀ bytes : List UInt8,
      (∀ w, (d.write p bytes pending).1 ≠ .wait w) ↔ d.WriteReturns p bytes pending) ∧
    ∀ (s₀ s : EventLoop) (as : List ServerStep), s₀.AtPoll → Along step Ready s₀ as →
      run step s₀ as = some s → s.waiting = none ∧
        ∀ pendings : List Bool, pendings.length = s.todo.length →
          Along step Ready s (pendings.map .perform) →
          ∃ s', run step s (pendings.map .perform) = some s' ∧ s'.AtPoll := by
  refine ⟨fun _ => FileDescription.read_ne_wait_iff, fun _ => FileDescription.write_ne_wait_iff,
    fun s₀ s as hpoll hready hrun => ?_⟩
  have hwaiting : s.waiting = none :=
    run_invariant (I := fun s => s.waiting = none) (fun _ _ _ h hready hstep =>
    waiting_step h hready hstep) as s₀ s
      hpoll.waiting hready hrun
  exact ⟨hwaiting, fun _ => reaches_poll hwaiting⟩

/-! ## A client that never reads -/

/-- The server waits for room in `channel`, which is full and has a reader. -/
structure Stuck (channel : ℕ) (s : EventLoop) : Prop where
  sending : ∃ message rest, s.todo = .send channel message :: rest ∧
    ∃ written < message.length, s.waiting = some written
  full : (s.channels channel).pipe.available = 0
  reader : (s.channels channel).pipe.readers + (s.channels channel).pipe.pendingReaders ≠ 0

/-- Steps that neither touch `channel` nor come with a signal. -/
def Elsewhere (channel : ℕ) : ServerStep → Prop
  | .poll _ => True
  | .perform pending => pending = false
  | .client other _ _ => other ≠ channel

lemma stuck_step (h : Stuck channel s) (ha : Elsewhere channel a)
    (hstep : s.step a = some s') : Stuck channel s' := by
  obtain ⟨⟨message, rest, htodo, written, hleft, hwait⟩, hfull, hreader⟩ := h
  cases a with
  | poll todo => simp [step, htodo] at hstep
  | perform pending =>
    obtain rfl : pending = false := ha
    obtain ⟨fuel, hfuel⟩ : ∃ fuel, message.length - written = fuel + 1 :=
      Nat.exists_eq_succ_of_ne_zero (by omega)
    have hstretch : (s.channels channel).pipe.writeStretch message written false =
        ⟨.wait written, [], (s.channels channel).pipe⟩ := by
      rw [writeStretch, hfuel, writeLoop, if_pos hleft, if_neg hreader,
        if_pos hfull, if_neg (by simp)]
    simp only [step, perform, htodo, hwait, resumeWrite, hstretch,
      afterWrite, waitOfWrite, after, Option.some.injEq] at hstep
    subst hstep
    exact ⟨⟨message, rest, rfl, written, hleft, rfl⟩, by simpa using hfull, by simpa using hreader⟩
  | client other move pending =>
    cases hstep
    have hne : channel ≠ other := Ne.symm ha
    exact ⟨⟨message, rest, htodo, written, hleft, hwait⟩, by simpa [hne] using hfull,
      by simpa [hne] using hreader⟩

lemma stuck_run : ∀ {as : List ServerStep} {s s' : EventLoop}, Stuck channel s →
    (∀ a ∈ as, Elsewhere channel a) → run step s as = some s' → Stuck channel s'
  | [], s, s', h, _, hrun => by
    obtain rfl : s = s' := by simpa using hrun
    exact h
  | a :: as, s, s', h, has, hrun => by
    obtain ⟨s₁, hstep, hrest⟩ := run_cons.mp hrun
    exact stuck_run (stuck_step h (has a List.mem_cons_self) hstep)
      (fun b hb => has b (List.mem_cons_of_mem a hb)) hrest

lemma capacity_pos : 0 < PIPE_CAPACITY := by decide

/-- The server at its `poll`, with `used` bytes in the channel to a client that holds both ends
open, as `wsys` clients do. -/
def serving (used : Fin PIPE_CAPACITY) : EventLoop where
  channels _ :=
    ⟨⟨O_WRONLY ||| O_NONBLOCK, 0⟩, ⟨⟨fun _ => 0, used, ⟨0, capacity_pos⟩⟩, 1, 2, 0, 0⟩⟩
  todo := []
  waiting := none

def message : List UInt8 := List.replicate WSYS_MESSAGE_SIZE 0

/-- With room for two more messages an iteration that sends two gets back to its `poll`. -/
theorem returns_without_waiting_two :
    ∃ s, run step (serving ⟨3840, by decide⟩)
        [.poll [.send 0 message, .send 0 message], .perform false] = some s ∧
      s.waiting = none ∧ ∃ s', run step s [.perform false] = some s' ∧ s'.AtPoll := by
  refine exists_run_mono (fun s => s.todo.length = 1 ∧ Along step Ready s [.perform false])
    (by decide +kernel)
    fun s hrun hs => ?_
  obtain ⟨-, -, hserver⟩ :=
    returns_without_waiting ((serving ⟨3840, by decide⟩).channels 0).description
    ((serving ⟨3840, by decide⟩).channels 0).pipe false
  obtain ⟨hwaiting, hreach⟩ := hserver (serving ⟨3840, by decide⟩) s
    [.poll [.send 0 message, .send 0 message], .perform false] ⟨rfl, rfl⟩ (by decide +kernel) hrun
  exact ⟨hwaiting, hreach [false] hs.1.symm hs.2⟩

/-- **A client that never reads stops the server.**  34 messages are in the channel; the next one,
sent through a description with `O_NONBLOCK`, waits for room, and whatever happens then without a
signal and without anybody using that channel, the server does not come back. -/
theorem nonblocking_send_waits :
    ((serving ⟨4080, by decide⟩).channels 0).description.flags &&& O_NONBLOCK ≠ 0 ∧
    ∃ s, run step (serving ⟨4080, by decide⟩) [.poll [.send 0 message], .perform false] = some s ∧
      s.waiting = some 15 ∧
      ∀ as s', (∀ a ∈ as, Elsewhere 0 a) → run step s as = some s' → ¬ s'.AtPoll := by
  refine ⟨by decide, ?_⟩
  refine exists_run_mono (fun s => s.waiting = some 15 ∧ s.todo = [.send 0 message] ∧
    (s.channels 0).pipe.available = 0 ∧
      (s.channels 0).pipe.readers + (s.channels 0).pipe.pendingReaders ≠
      0) (by decide +kernel) fun s _ hs => ?_
  obtain ⟨hwaiting, htodo, hfull, hreader⟩ := hs
  have hstuck : Stuck 0 s :=
    ⟨⟨message, [], htodo, 15, by decide, hwaiting⟩, hfull, hreader⟩
  refine ⟨hwaiting, fun as s' has hrun' hpoll => ?_⟩
  obtain ⟨_, _, -, _, -, hstill⟩ := (stuck_run hstuck has hrun').sending
  simp [hpoll.waiting] at hstill

end EventLoop
end ShitOs
