import Mathlib.Data.List.GetD
import ShitOs.Framework.Align
import ShitOs.Properties.SignalDelivery

/-!
# Into a signal handler and back

`deliver_pending_signal` puts the interrupted frame on the user's stack, with the restorer's address
below it as the handler's return address.  The handler's `ret` takes that address off, so that the
restorer's `sigreturn` finds `rsp` at the saved frame.  `signal_frame_round_trip` follows this for
every frame, every caught signal and whatever the handler does short of overwriting what was saved:
every register is as it was, rewound when the call is to be restarted, with the selectors and the
flags that user code may not choose forced (`InterruptFrame.resumed`).

What does not hold is the alignment at the handler's entry.  The frame and the signal number are 184
bytes, so that aligning the stack to 16 before they are taken off leaves the context at 8 modulo 16,
and the return address below it at 0 (`contextAddress_mod`); the ABI has 8 there.
-/

namespace ShitOs

open InterruptFrame UserMemory

/-! ## Reading back what was copied out -/

namespace UserMemory

variable {m m' : UserMemory} {destination : U64} {words ws : List U64} {a : ℕ}

/-- The words lie in memory at `a`. -/
def Holds (m : UserMemory) (a : ℕ) (ws : List U64) : Prop :=
  ∀ i < ws.length, ∀ j < 8, m.byte (a + 8 * i + j) = Memory.getByte (ws.getD i 0) j

lemma copyToUser_eq_some (h : m.copyToUser destination words = some m') :
    (∀ i < 8 * words.length, m.writable (destination.toNat + i)) ∧ m'.writable = m.writable ∧
      m'.byte = fun a =>
        if destination.toNat ≤ a ∧ a < destination.toNat + 8 * words.length then
          Memory.getByte (words.getD ((a - destination.toNat) / 8) 0) ((a - destination.toNat) % 8)
        else m.byte a := by
  simp only [copyToUser, Option.ite_none_right_eq_some, Option.some.injEq] at h
  obtain ⟨hwrite, rfl⟩ := h
  exact ⟨hwrite, rfl, rfl⟩

lemma exists_copyToUser (h : ∀ i < 8 * words.length, m.writable (destination.toNat + i)) :
    ∃ m', m.copyToUser destination words = some m' :=
  ⟨_, if_pos h⟩

lemma holds_copyToUser (h : m.copyToUser destination words = some m') :
    m'.Holds destination.toNat words := by
  obtain ⟨-, -, hbyte⟩ := copyToUser_eq_some h
  intro i hi j hj
  have hword : (destination.toNat + 8 * i + j - destination.toNat) / 8 = i := by omega
  have hin : (destination.toNat + 8 * i + j - destination.toNat) % 8 = j := by omega
  rw [hbyte]
  dsimp only
  rw [if_pos (by omega), hword, hin]

lemma Holds.copyToUser (hholds : m.Holds a ws) (h : m.copyToUser destination words = some m')
    (hdisjoint : a + 8 * ws.length ≤ destination.toNat ∨
      destination.toNat + 8 * words.length ≤ a) : m'.Holds a ws := by
  obtain ⟨-, -, hbyte⟩ := copyToUser_eq_some h
  intro i hi j hj
  rw [hbyte]
  dsimp only
  rw [if_neg (by omega), hholds i hi j hj]

lemma Holds.of_append {vs : List U64} (h : m.Holds a (ws ++ vs)) : m.Holds a ws := by
  intro i hi j hj
  rw [h i (by simp; omega) j hj, List.getD_append _ _ _ _ hi]

lemma Holds.copyFromUser {source : U64} {n : ℕ} (h : m.Holds source.toNat ws)
    (hn : ws.length ≤ n) (hread : ∀ i < 8 * n, m.readable (source.toNat + i)) :
    ∃ vs, m.copyFromUser source n = some vs ∧ ∀ i < ws.length, vs.getD i 0 = ws.getD i 0 := by
  refine ⟨_, if_pos hread, fun i hi => ?_⟩
  rw [List.getD_eq_getElem _ _ (by simp; omega), List.getElem_map, List.getElem_range]
  exact Memory.ofBytes_eq (h i hi)

end UserMemory

namespace InterruptFrame

lemma ofWords_eq {f : InterruptFrame} {ws : List U64}
    (h : ∀ i < f.words.length, ws.getD i 0 = f.words.getD i 0) : ofWords ws = f := by
  have hlen : f.words.length = 22 := rfl
  rw [hlen] at h
  simp only [ofWords, h 0 (by decide), h 1 (by decide), h 2 (by decide), h 3 (by decide),
    h 4 (by decide), h 5 (by decide), h 6 (by decide), h 7 (by decide), h 8 (by decide),
    h 9 (by decide), h 10 (by decide), h 11 (by decide), h 12 (by decide), h 13 (by decide),
    h 14 (by decide), h 15 (by decide), h 16 (by decide), h 17 (by decide), h 18 (by decide),
    h 19 (by decide), h 20 (by decide), h 21 (by decide)]
  rfl

/-- The frame that `sigreturn` makes of a saved one. -/
def resumed (f : InterruptFrame) : InterruptFrame :=
  { f with
    cs := SELECTOR_USER_CODE
    ss := SELECTOR_USER_DATA
    rflags := (f.rflags &&& 0xCD5) ||| 0x202
    vector := VECTOR_SYSCALL
    errorCode := 0 }

end InterruptFrame

namespace SignalSystem

variable {s t : SignalSystem} {sig : ℕ} {context : List U64}

/-! ## Into the handler -/

/-- The signal has a handler that can be run and returned from. -/
structure Catches (s : SignalSystem) (signal : ℕ) : Prop where
  range : 0 < signal ∧ signal < NSIG
  catchable : signal ≠ SIGKILL ∧ signal ≠ SIGSTOP
  handler : s.signalDisposition signal ≠ SIG_DFL ∧ s.signalDisposition signal ≠ SIG_IGN
  restorer : s.signalRestorer signal ≠ 0

/-- The frame that is to be returned to. -/
def saved (s : SignalSystem) (signal : ℕ) : InterruptFrame :=
  if s.signalFlags signal &&& SA_RESTART ≠ 0 ∧ s.restartable ≠ NO_RESTART then
    s.frame.restarted s.restartable
  else s.frame

lemma contextAddress_mod (s : SignalSystem) : s.contextAddress.toNat % 16 = 8 := by
  have halign := Align.toNat_and_not_mask (x := s.frame.rsp - 128) (m := 15#64) (k := 4) rfl
  have hcontext : s.contextAddress.toNat =
      (2 ^ 64 - 184 + ((s.frame.rsp - 128) &&& ~~~15#64).toNat) % 2 ^ 64 := by
    rw [contextAddress, BitVec.toNat_sub]
    rfl
  omega

lemma toNat_contextAddress_sub (s : SignalSystem) :
    (s.contextAddress - 8).toNat = s.contextAddress.toNat - 8 := by
  have hmod := s.contextAddress_mod
  rw [BitVec.toNat_sub, show (8 : U64).toNat = 8 from rfl]
  omega

/-- **The handler is entered** with the saved frame above its return address. -/
lemma deliverSignal_caught (hcatches : s.Catches sig) {m : UserMemory}
    (hpush : s.pushContext sig (s.signalRestorer sig) = some m) :
    (s.deliverSignal sig).exited = s.exited ∧ (s.deliverSignal sig).frame = { s.frame with
        rsp := s.contextAddress - 8
        rip := s.signalDisposition sig
        rdi := BitVec.ofNat 64 sig
        rax := 0 } ∧
      (s.deliverSignal sig).memory.Holds s.contextAddress.toNat (s.saved sig).words ∧
      (s.deliverSignal sig).memory.Holds (s.contextAddress - 8).toNat [s.signalRestorer sig] := by
  have hdeliver : s.deliverSignal sig = s.runHandler sig (s.signalDisposition sig) := by
    simp [deliverSignal, Nat.ne_of_gt hcatches.range.1, hcatches.catchable, hcatches.handler]
  have hmod := s.contextAddress_mod
  have hsub := s.toNat_contextAddress_sub
  obtain ⟨m₁, hcontext, hreturn⟩ := Option.bind_eq_some_iff.mp hpush
  have hframe := (holds_copyToUser hcontext).copyToUser hreturn (.inr (by
    simp only [List.length_singleton]; omega))
  have haddr := holds_copyToUser hreturn
  rw [hdeliver]
  simp only [runHandler, hcatches.restorer, if_false, hpush]
  split_ifs with hrestart
  · -- the third copy is over the first, so it succeeds
    obtain ⟨hwrite, hfirst, -⟩ := copyToUser_eq_some hcontext
    obtain ⟨-, hsecond, -⟩ := copyToUser_eq_some hreturn
    have hlen : (s.frame.words ++ [BitVec.ofNat 64 sig]).length = 23 := rfl
    have hwords : (s.frame.restarted s.restartable).words.length = 22 := rfl
    have hroom : ∀ i < 8 * (s.frame.restarted s.restartable).words.length,
        m.writable (s.contextAddress.toNat + i) := fun i hi => by
      rw [hsecond, hfirst]
      exact hwrite i (by omega)
    obtain ⟨m₃, hthird⟩ := exists_copyToUser hroom
    simp only [hthird]
    refine ⟨rfl, rfl, ?_, haddr.copyToUser hthird (.inl ?_)⟩
    · rw [saved, if_pos hrestart]
      exact holds_copyToUser hthird
    · simp only [List.length_singleton]
      omega
  · exact ⟨rfl, rfl, by rw [saved, if_neg hrestart]; exact hframe.of_append, haddr⟩

/-! ## And back -/

lemma sysSigreturn_eq (hcopy : t.memory.copyFromUser t.frame.rsp 23 = some context)
    (hvector : t.frame.vector = VECTOR_SYSCALL) : t.sysSigreturn = (.ok (ofWords context).rax,
      { t with frame := (ofWords context).resumed }) := by
  unfold sysSigreturn
  generalize t.memory.copyFromUser t.frame.rsp 23 = copied at hcopy ⊢
  subst hcopy
  simp only [hvector, resumed]

lemma syscallDispatch_sigreturn (hrax : t.frame.rax = SYS_sigreturn)
    (hcopy : t.memory.copyFromUser t.frame.rsp 23 = some context) (handled : Option Handled) :
    t.syscallDispatch handled = { t with
      frame := (ofWords context).resumed
      entries := t.entries + 1
      restartable := NO_RESTART }.deliverPendingSignal := by
  have hhandler : hasHandler SYS_sigreturn = true := by decide +kernel
  have haction : SYS_sigreturn ≠ SYS_sigaction := by decide
  have hmask : SYS_sigreturn ≠ SYS_sigprocmask := by decide
  -- what the handler does in the system in which `syscall_dispatch` looks it up
  have hhandle : ∀ u : SignalSystem, u.frame.vector = VECTOR_SYSCALL →
      u.memory.copyFromUser u.frame.rsp 23 = some context → u.handle SYS_sigreturn handled =
        some (.ok (ofWords context).rax,
          { u with frame := (ofWords context).resumed }) := by
    intro u hvector hcopy
    rw [handle, if_neg haction, if_neg hmask, if_pos rfl, sysSigreturn_eq hcopy hvector]
  simp only [syscallDispatch, hrax, if_pos hhandler]
  rw [hhandle]
  exacts [rfl, rfl, hcopy]

lemma syscallDispatch_trampoline {f : InterruptFrame}
    (hcopy : t.memory.copyFromUser f.rsp 23 = some context) (handled : Option Handled) :
    { t with frame := f.sigreturnTrampoline }.syscallDispatch handled = { t with
      frame := (ofWords context).resumed
      entries := t.entries + 1
      restartable := NO_RESTART }.deliverPendingSignal := by
  have hrax : f.sigreturnTrampoline.rax = SYS_sigreturn := rfl
  have hrsp : f.sigreturnTrampoline.rsp = f.rsp := rfl
  rw [← hrsp] at hcopy
  generalize f.sigreturnTrampoline = f at hrax hcopy ⊢
  exact syscallDispatch_sigreturn (t := { t with frame := f }) hrax hcopy handled

lemma resumed_rflags (f : InterruptFrame) : f.resumed.rflags &&& ~~~0xCD5 = 0x202 := by
  have hclear : f.rflags &&& 0xCD5 &&& ~~~0xCD5 = 0 := by
    rw [BitVec.and_assoc, BitVec.and_not_self]
    exact BitVec.and_zero
  rw [resumed, BitVec.and_comm, BitVec.and_or_distrib_left, BitVec.and_comm, hclear]
  rfl

/-- The handler has run, and what was saved is still there. -/
structure Finished (s t : SignalSystem) (signal : ℕ) : Prop where
  rsp : t.frame.rsp = (s.deliverSignal signal).frame.rsp
  kept : ∀ a, (s.contextAddress - 8).toNat ≤ a → a < s.contextAddress.toNat + 184 →
    t.memory.byte a = (s.deliverSignal signal).memory.byte a ∧ t.memory.readable a

lemma Finished.holds {a : ℕ} {ws : List U64} (h : Finished s t sig)
    (hholds : (s.deliverSignal sig).memory.Holds a ws) (hlow : (s.contextAddress - 8).toNat ≤ a)
    (hhigh : a + 8 * ws.length ≤ s.contextAddress.toNat + 184) : t.memory.Holds a ws := by
  intro i hi j hj
  rw [(h.kept _ (by omega) (by omega)).1, hholds i hi j hj]

/-- **The round trip of a signal frame.**  A caught signal whose two copies succeed enters its
handler, with `rsp` a multiple of 16.  From any state in which the handler is at its `ret` and what
was saved is still there, the `ret` goes to the restorer, and the restorer's `sigreturn` returns,
further signals apart, with the frame that was interrupted.  And no `sigreturn`, whatever it finds
at `rsp`, returns with other selectors than the user's or with a flag of its own choice outside the
seven of `0xCD5`. -/
theorem signal_frame_round_trip (hcatches : s.Catches signal) {m : UserMemory}
    (hpush : s.pushContext signal (s.signalRestorer signal) = some m) :
    (s.deliverSignal signal).exited = s.exited ∧
    (s.deliverSignal signal).frame.rip = s.signalDisposition signal ∧
    (s.deliverSignal signal).frame.rdi = BitVec.ofNat 64 signal ∧
    (s.deliverSignal signal).frame.rsp.toNat % 16 = 0 ∧
    (∀ (t : SignalSystem) handled, Finished s t signal →
      ∃ f, t.frame.ret t.memory = some f ∧ f.rip = s.signalRestorer signal ∧
        { t with frame := f.sigreturnTrampoline }.syscallDispatch handled = { t with
          frame := (s.saved signal).resumed
          entries := t.entries + 1
          restartable := NO_RESTART }.deliverPendingSignal) ∧
    (∀ (t : SignalSystem) handled context, t.frame.rax = SYS_sigreturn →
      t.memory.copyFromUser t.frame.rsp 23 = some context →
      ∃ f : InterruptFrame, t.syscallDispatch handled = { t with
          frame := f
          entries := t.entries + 1
          restartable := NO_RESTART }.deliverPendingSignal ∧
        f.cs = SELECTOR_USER_CODE ∧ f.ss = SELECTOR_USER_DATA ∧ f.rflags &&& ~~~0xCD5 = 0x202) := by
  obtain ⟨hexited, hframe, hsaved, haddress⟩ := deliverSignal_caught hcatches hpush
  have hmod := s.contextAddress_mod
  have hsub := s.toNat_contextAddress_sub
  have hrsp : (s.deliverSignal signal).frame.rsp = s.contextAddress - 8 := by rw [hframe]
  refine ⟨hexited, by rw [hframe], by rw [hframe], by rw [hrsp]; omega,
    fun t handled hfinished => ?_, fun t handled context hrax hcopy => ?_⟩
  · have htop : t.frame.rsp = s.contextAddress - 8 := hfinished.rsp.trans hrsp
    obtain ⟨vs, hvs, hrestorer⟩ := (hfinished.holds haddress (Nat.le_refl _)
      (by simp only [List.length_singleton]; omega)).copyFromUser (n := 1) (Nat.le_refl 1)
      (fun i hi => (hfinished.kept _ (by omega) (by omega)).2)
    have hlength : (s.saved signal).words.length = 22 := rfl
    obtain ⟨context, hcontext, hwords⟩ := (hfinished.holds hsaved (by omega)
      (by omega)).copyFromUser (n := 23) (by omega)
      (fun i hi => (hfinished.kept _ (by omega) (by omega)).2)
    rw [← htop] at hvs
    refine ⟨{ t.frame with rip := vs.getD 0 0, rsp := t.frame.rsp + 8 },
      by rw [InterruptFrame.ret, hvs, Option.map_some], hrestorer 0 Nat.one_pos, ?_⟩
    have hback : t.frame.rsp + 8 = s.contextAddress := by rw [htop, BitVec.sub_add_cancel]
    rw [← hback] at hcontext
    rw [← InterruptFrame.ofWords_eq hwords]
    exact syscallDispatch_trampoline (t := t)
      (f := { t.frame with rip := vs.getD 0 0, rsp := t.frame.rsp + 8 }) hcontext handled
  · exact ⟨_, syscallDispatch_sigreturn hrax hcopy handled, rfl, rfl, resumed_rflags _⟩

lemma reading_catches : (reading 0 SIG_IGN).Catches 2 :=
  ⟨by decide, by decide, by decide +kernel, by decide +kernel⟩

/-- For example signal 2 of `reading`, with a handler that returns at once. -/
theorem signal_frame_round_trip_reading :
    (reading 0 SIG_IGN).Catches 2 ∧
      Finished (reading 0 SIG_IGN) ((reading 0 SIG_IGN).deliverSignal 2) 2 ∧
      ((reading 0 SIG_IGN).deliverSignal 2).frame.rip = 0x402000 ∧
      ∃ f, ((reading 0 SIG_IGN).deliverSignal 2).frame.ret
        ((reading 0 SIG_IGN).deliverSignal 2).memory = some f ∧ f.rip = 0x403000 := by
  have hpush :
    ((reading 0 SIG_IGN).pushContext 2 ((reading 0 SIG_IGN).signalRestorer 2)).isSome := by
    decide +kernel
  obtain ⟨m, hm⟩ := Option.isSome_iff_exists.mp hpush
  have hstart : ((reading 0 SIG_IGN).contextAddress - 8).toNat = 0x7FFFEEC0 := by decide +kernel
  have hend : (reading 0 SIG_IGN).contextAddress.toNat = 0x7FFFEEC8 := by decide +kernel
  have hreadable : ∀ i < 192,
      ((reading 0 SIG_IGN).deliverSignal 2).memory.readable (0x7FFFEEC0 + i) = true := by
    decide +kernel
  have hfinished : Finished (reading 0 SIG_IGN) ((reading 0 SIG_IGN).deliverSignal 2) 2 := by
    refine ⟨rfl, fun a hlow hhigh => ⟨rfl, ?_⟩⟩
    rw [hstart] at hlow
    rw [hend] at hhigh
    have := hreadable (a - 0x7FFFEEC0) (by omega)
    rwa [Nat.add_sub_cancel' hlow] at this
  obtain ⟨-, hrip, -, -, hreturns, -⟩ := signal_frame_round_trip reading_catches hm
  obtain ⟨f, hret, hrestorer, -⟩ := hreturns _ none hfinished
  exact ⟨reading_catches, hfinished, hrip, f, hret, hrestorer⟩

/-- There the handler is entered with `rsp` a multiple of 16, where the ABI has 8 more. -/
theorem handler_entry_misaligned :
    (reading 0 SIG_IGN).Catches 2 ∧
      ((reading 0 SIG_IGN).pushContext 2 ((reading 0 SIG_IGN).signalRestorer 2)).isSome ∧
      ((reading 0 SIG_IGN).deliverSignal 2).frame.rsp = 0x7FFFEEC0 ∧
      ((reading 0 SIG_IGN).deliverSignal 2).frame.rsp.toNat % 16 ≠ 8 :=
  ⟨reading_catches, by decide +kernel, by decide +kernel, by decide +kernel⟩

end SignalSystem
end ShitOs
