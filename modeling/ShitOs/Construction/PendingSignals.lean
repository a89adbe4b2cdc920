import Mathlib.Data.Int.Basic
import ShitOs.Construction.SignalDelivery

/-!
# The pending signals of a process, one atomic operation at a time

`raise_signal`, `has_pending_signals`, `take_pending_signal` and `set_signal_mask` of
`kernel/sched/process.cpp`, as far as they touch `m_pending_signals` and `m_signal_mask`.  Any
number of threads and interrupt handlers are in such a call at the same time.  One step is one
atomic operation on one of the two words; what a call has read so far is part of `SignalPc`.

The other half of `raise_signal`, which wakes or resumes the process, is in
`Construction/JobControl.lean`.
-/

namespace ShitOs

/-- A call. -/
inductive SignalCall
  | raise (signal : ℤ)
  | hasPending
  | takePending
  | setMask (how : BitVec 32) (wanted : U64)
  deriving DecidableEq

/-- Which atomic operation comes next. -/
inductive SignalPc
  | idle
  /-- The `and` of `raise_signal`, for a signal that cancels others. -/
  | raiseCancel (signal : ℕ)
  /-- The `or` of `raise_signal`. -/
  | raiseSet (signal : ℕ)
  /-- The first load of `has_pending_signals`. -/
  | hasLoadPending
  /-- The second. -/
  | hasLoadMask (pending : U64)
  /-- The first load of `take_pending_signal`. -/
  | takeLoadPending
  /-- The second. -/
  | takeLoadMask (pending : U64)
  /-- The `and` of `take_pending_signal`. -/
  | takeClear (signal : ℕ)
  /-- The load of `set_signal_mask`. -/
  | maskLoad (how : BitVec 32) (wanted : U64)
  /-- The store of `set_signal_mask`. -/
  | maskStore (previous next : U64)
  deriving DecidableEq

/-- What a call has returned. -/
inductive SignalReturn
  | nothing
  | has (answer : Bool)
  | took (signal : ℕ)
  | mask (previous : U64)
  deriving DecidableEq

/-- The two words, and where the callers are. -/
structure SignalWords where
  pendingSignals : U64
  signalMask : U64
  pc : ℕ → SignalPc
  returned : ℕ → SignalReturn

/-- A caller begins a call, or performs its next operation. -/
inductive SignalMove
  | begin (caller : ℕ) (call : SignalCall)
  | next (caller : ℕ)
  deriving DecidableEq

/-- Who moves. -/
def SignalMove.caller : SignalMove → ℕ
  | begin caller _ => caller
  | next caller => caller

/-- The signal is one of those in `STOP_SIGNAL_MASK`. -/
def isStopSignal (signal : ℕ) : Bool := STOP_SIGNAL_MASK &&& signalBit signal != 0

/-- The signals that may be delivered, from what was read of the two words. -/
def deliverableSignals (pending mask : U64) :
    U64 := pending &&& ~~~(mask &&& ~~~UNBLOCKABLE_SIGNALS)

namespace SignalWords

variable (s : SignalWords)

/-- The caller goes on with `pc`. -/
def goto (caller : ℕ) (pc : SignalPc) :
    SignalWords := { s with pc := Function.update s.pc caller pc }

/-- The caller's call returns. -/
def ret (caller : ℕ) (value : SignalReturn) : SignalWords :=
  { s.goto caller .idle with returned := Function.update s.returned caller value }

/-- A call up to its first atomic operation. -/
def enter (caller : ℕ) : SignalCall → SignalWords
  | .raise signal =>
    if signal ≤ 0 ∨ NSIG ≤ signal then s.ret caller .nothing
    else if signal.toNat = SIGCONT ∨ isStopSignal signal.toNat then
      s.goto caller (.raiseCancel signal.toNat)
    else s.goto caller (.raiseSet signal.toNat)
  | .hasPending => s.goto caller .hasLoadPending
  | .takePending => s.goto caller .takeLoadPending
  | .setMask how wanted => s.goto caller (.maskLoad how wanted)

/-- The new mask of `set_signal_mask`, before the unblockable signals are taken out; `none` for an
unknown `how`. -/
def nextMask (how : BitVec 32) (previous wanted : U64) : Option U64 :=
  if how = SIG_BLOCK then some (previous ||| wanted)
  else if how = SIG_UNBLOCK then some (previous &&& ~~~wanted)
  else if how = SIG_SETMASK then some wanted
  else none

/-- One atomic operation, and what follows up to the next one. -/
def operate (caller : ℕ) : SignalPc → Option SignalWords
  | .idle => none
  | .raiseCancel signal =>
    let cancelled := if signal = SIGCONT then STOP_SIGNAL_MASK else signalBit SIGCONT
    some { s.goto caller (.raiseSet signal) with pendingSignals :=
      s.pendingSignals &&& ~~~cancelled }
  | .raiseSet signal =>
    some { s.ret caller .nothing with pendingSignals := s.pendingSignals ||| signalBit signal }
  | .hasLoadPending => some (s.goto caller (.hasLoadMask s.pendingSignals))
  | .hasLoadMask pending =>
    some (s.ret caller (.has (deliverableSignals pending s.signalMask != 0)))
  | .takeLoadPending => some (s.goto caller (.takeLoadMask s.pendingSignals))
  | .takeLoadMask pending =>
    match (List.range 64).find? (deliverableSignals pending s.signalMask).getLsbD with
    | none => some (s.ret caller (.took 0))
    | some signal => some (s.goto caller (.takeClear signal))
  | .takeClear signal =>
    some { s.ret caller (.took signal) with
      pendingSignals := s.pendingSignals &&& ~~~signalBit signal }
  | .maskLoad how wanted =>
    match nextMask how s.signalMask wanted with
    | none => some (s.ret caller (.mask s.signalMask))
    | some next => some (s.goto caller (.maskStore s.signalMask next))
  | .maskStore previous next =>
    some { s.ret caller (.mask previous) with signalMask := next &&& ~~~UNBLOCKABLE_SIGNALS }

/-- One step. -/
def step : SignalMove → Option SignalWords
  | .begin caller call => if s.pc caller = .idle then some (s.enter caller call) else none
  | .next caller => s.operate caller (s.pc caller)

/-- A process that has just been made: no signal is pending, the mask is that of its parent, and
nobody is in a call. -/
structure Starts (s : SignalWords) : Prop where
  pending : s.pendingSignals = 0
  mask : s.signalMask &&& UNBLOCKABLE_SIGNALS = 0
  pc : ∀ c, s.pc c = .idle

end SignalWords

end ShitOs
