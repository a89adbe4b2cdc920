import ShitOs.Framework.Counting
import ShitOs.Construction.Fifo
import ShitOs.Properties.Pipe

/-!
# The rendezvous of a FIFO

Two promises are made about opening a FIFO.  An opener that waits for a peer is released by the next
one that comes, even if that one is gone again before the opener runs.  And a writer whose presence
let a reader through does not get `EPIPE` as long as that reader has not come and gone.

Neither holds in every interleaving (`rendezvous_missed`).  Only a blocking open counts as an
arrival, so an `O_RDWR` or `O_NONBLOCK` open leaves nothing behind once it is closed.  An opener
that is preempted on its way to sleep is not woken.  And an opener stops being pending before its
description exists: for a moment it is counted nowhere.  The same gap makes an ordinary peer
invisible, when it announced itself before the waiting opener took its snapshot.

`Orderly` excludes these.  Under it the counters mean what their names say (`Sound`).
-/

namespace ShitOs

open Function Transition Counting OpenerPc PipeSystem PipeBuffer FifoDescription

/-! ## What a transfer does not change -/

namespace PipeBuffer

/-- The counts of the ends of a pipe. -/
def ends (p : PipeBuffer) : ℕ × ℕ × ℕ × ℕ :=
  (p.readers, p.writers, p.pendingReaders, p.pendingWriters)

lemma readStretch_ends {p q : PipeBuffer} {length : ℕ} {pending : Bool} {ending : ReadEnd}
    (h : p.readStretch length pending = (ending, q)) : q.ends = p.ends := by
  rw [← show (p.readStretch length pending).2 = q from congrArg Prod.snd h]
  unfold readStretch
  split_ifs <;> rfl

/-- A write changes no count, and fails with `EPIPE` only if there is no reader and none pending. -/
lemma writeLoop_ends (bytes : List UInt8) (pending : Bool) (fuel : ℕ) (p : PipeBuffer)
    (written : ℕ) : (writeLoop bytes pending fuel p written).pipe.ends = p.ends ∧
      ((writeLoop bytes pending fuel p written).ending = .done (.error .EPIPE) →
        p.readers + p.pendingReaders = 0) := by
  induction fuel generalizing p written with
  | zero => exact ⟨rfl, by simp [writeLoop]⟩
  | succ fuel ih =>
    unfold writeLoop
    split_ifs with hleft hrds hfull
    · exact ⟨rfl, fun _ => hrds⟩
    · exact ⟨rfl, by simp⟩
    · exact ⟨rfl, by simp⟩
    · exact ⟨rfl, by simp⟩
    · have hfill : (p.fill (bytes.drop written)).2.ends = p.ends := by
        rw [fill_ends]
        rfl
      refine ⟨(ih _ _).1.trans hfill, fun hend => ?_⟩
      have hnone := (ih _ _).2 hend
      simp only [ends, Prod.mk.injEq] at hfill
      omega
    · exact ⟨rfl, by simp⟩

end PipeBuffer

namespace PipeSystem

variable {s s' : PipeSystem}

/-- A write of this step failed with `EPIPE`. -/
def FailsBroken (s s' : PipeSystem) : Prop :=
  ∃ new call bytes, s'.trace = s.trace ++ new ∧ .wrote call bytes (.error .EPIPE) ∈ new

lemma failsBroken_iff {new : List PipeEvent} (h : s'.trace = s.trace ++ new) :
    FailsBroken s s' ↔ ∃ call bytes, .wrote call bytes (.error .EPIPE) ∈ new := by
  simp [FailsBroken, h]

lemma Stretch.ends {p q : PipeBuffer} {c next : PipeCall} {events : List PipeEvent}
    (h : Stretch p c q next events) : q.ends = p.ends ∧
      ∀ call bytes, .wrote call bytes (.error .EPIPE) ∈ events →
        p.readers + p.pendingReaders = 0 := by
  cases h with
  | readWait h | readDone h | readError h => exact ⟨readStretch_ends h, by simp⟩
  | @writeWait _ bytes written pending _ _ _ h | @writeDone _ bytes written pending _ _ _ h =>
    obtain ⟨hends, hnone⟩ := p.writeLoop_ends bytes pending (bytes.length - written) written
    rw [writeStretch] at h
    rw [h] at hends hnone
    refine ⟨hends, fun call' bytes' hwrote => hnone ?_⟩
    simp at hwrote
    try rw [hwrote.2.2]

end PipeSystem

/-! ## Openers -/

namespace OpenerPc

/-- When an opener that is in `await_peer` announced itself. -/
def since : OpenerPc → Option ℕ
  | .arrive t | .wakePeers t | .snapshot t | .test t _ | .entering t _ | .asleep t _ => some t
  | .idle | .announce | .admitted | .interrupted | .create | .wakeOpened => none

/-- The arrivals an opener in the loop compares with. -/
def seen : OpenerPc → Option ℕ
  | .test _ v | .entering _ v | .asleep _ v => some v
  | _ => none

/-- The opener is counted as pending. -/
def isPending : OpenerPc → Bool
  | .idle | .announce | .create | .wakeOpened => false
  | _ => true

/-- The opener goes to sleep or sleeps. -/
def sleeps : OpenerPc → Bool
  | .entering _ _ | .asleep _ _ => true
  | _ => false

end OpenerPc

namespace FifoDescription

/-- It holds the end that an opener waits for. -/
def isPeer (d : FifoDescription) (asReader : Bool) : Bool := if asReader then d.writes else d.reads

end FifoDescription

namespace PipeBuffer

lemma opened_counts (p : PipeBuffer) (d : FifoDescription) :
    (p.opened d.flags).readers = p.readers + (if d.reads then 1 else 0) ∧
      (p.opened d.flags).writers = p.writers + (if d.writes then 1 else 0) ∧
      (p.opened d.flags).pendingReaders = p.pendingReaders := by
  have hdist : O_RDONLY ≠ O_WRONLY := by decide
  simp only [opened, reads, writes]
  by_cases hread : d.flags &&& O_ACCMODE = O_RDONLY
  · simp [hread, hdist]
  · by_cases hwrite : d.flags &&& O_ACCMODE = O_WRONLY
    · simp [hwrite, hdist.symm]
    · simp [hread, hwrite]

lemma closed_counts (p : PipeBuffer) (d : FifoDescription) :
    (p.closed d.flags).readers = p.readers - (if d.reads then 1 else 0) ∧
      (p.closed d.flags).writers = p.writers - (if d.writes then 1 else 0) ∧
      (p.closed d.flags).pendingReaders = p.pendingReaders := by
  simp only [closed, reads, writes, decide_eq_true_eq, and_true]
  constructor
  · grind
  · grind

end PipeBuffer

namespace FifoSystem

variable {n : ℕ} {s s' : FifoSystem} {d : FifoDescription} {k : ℕ} {o : Opener} {old pc : OpenerPc}
  {memory pending : Bool} {io : PipeSystem} {a : FifoStep}

/-- A description that an opener waits for was made after the opener announced itself. -/
def Met (s : FifoSystem) (o : Opener) : Prop :=
  ∃ since ∈ o.pc.since, ∃ d ∈ s.openings, d.isPeer o.asReader ∧ since ≤ d.created
  deriving Decidable

lemma met_goTo (hsince : pc.since = o.pc.since) : s.Met { o with pc := pc } ↔ s.Met o := by
  rw [Met, Met, ← hsince]
  rfl

/-- Opener `o` is a reader that `await_peer` has let through and that has no description yet. -/
def AdmittedReader (o : Opener) : Prop :=
  o.asReader ∧ o.waitsForPeer ∧ (o.pc = .admitted ∨ o.pc = .create)

/-- Somebody else than `k` is about to wake those who wait. -/
def WakesLater (s : FifoSystem) (n k : ℕ) : Prop :=
  ∃ j < n, j ≠ k ∧ (s.openers j).pc = .wakeOpened

instance : Decidable (s.WakesLater n k) :=
  decidable_of_iff (∃ j ∈ List.range n, j ≠ k ∧ (s.openers j).pc = .wakeOpened)
    (by simp only [List.mem_range, WakesLater])

/-- **The side condition on a run.**  The last description onto an end is not closed while somebody
waits who has met it or one before it, and has not seen another arrival.  The wake-up for a new
description does not pass by an opener on its way to sleep.  And a write does not look at the
readers while the only ones are between `await_peer` and their description. -/
def Orderly (n : ℕ) (s : FifoSystem) : FifoStep → Prop
  | .close d => ∀ k < n, s.Met (s.openers k) →
      (∃ d' ∈ s.descriptions.erase d, d'.isPeer (s.openers k).asReader) ∨
        ∃ v ∈ (s.openers k).pc.seen, s.peerArrivals (s.openers k).asReader ≠ v
  | .advance k _ _ => (s.openers k).pc = .wakeOpened → s.WakesLater n k ∨
      ∀ j < n, s.Met (s.openers j) → ∀ since ∈ (s.openers j).pc.since, ∀ v ∈ (s.openers j).pc.seen,
        (s.openers j).pc ≠ .entering since v
  | .transfer (.write _ _ _) | .transfer (.resume _ _) =>
    0 < s.io.pipe.readers + s.io.pipe.pendingReaders ∨
      ∀ k < n, ¬ ((s.openers k).asReader ∧ (s.openers k).waitsForPeer ∧ (s.openers k).pc = .create)
  | _ => True

/-- What is true of one opener: the arrivals it compares with are not ahead, and if a peer came
there is one still or another has been seen. -/
structure OpenerOk (s : FifoSystem) (o : Opener) : Prop where
  seen_le : ∀ v ∈ o.pc.seen, v ≤ s.peerArrivals o.asReader
  met : s.Met o → (∃ d ∈ s.descriptions, d.isPeer o.asReader) ∨
    ∃ v ∈ o.pc.seen, v < s.peerArrivals o.asReader

/-- What every step keeps. -/
structure Sound (n : ℕ) (s : FifoSystem) : Prop where
  readers : s.io.pipe.readers = s.descriptions.countP (·.reads)
  writers : s.io.pipe.writers = s.descriptions.countP (·.writes)
  pendingReaders : s.io.pipe.pendingReaders =
    count (Finset.range n) (fun o : Opener => o.pc.isPending ∧ o.asReader) s.openers
  past : ∀ d ∈ s.openings, d.created < s.clock
  openers : ∀ k, OpenerOk s (s.openers k)
  beyond : ∀ k, n ≤ k → (s.openers k).pc = .idle
  awake : ∀ k, (s.openers k).pc.sleeps → s.Met (s.openers k) →
    ∃ j < n, (s.openers j).pc = .wakeOpened

lemma sound_initial : Sound n initial where
  readers := rfl
  writers := rfl
  pendingReaders := (count_eq_zero_iff.mpr fun _ _ h => by simp [initial, isPending] at h).symm
  past := nofun
  openers k := ⟨nofun, fun ⟨_, h, _⟩ => nomatch h⟩
  beyond _ _ := rfl
  awake := nofun

section

variable (h : Sound n s)
include h

lemma Sound.present_pos (hd : d ∈ s.descriptions)
    {asReader : Bool} (hpeer : d.isPeer asReader) : 0 < s.present asReader := by
  cases asReader with
  | false =>
    have hpos : 0 < s.descriptions.countP (·.reads) := List.countP_pos_iff.mpr ⟨d, hd, hpeer⟩
    have := h.readers
    simp only [present, Bool.false_eq_true, if_false]
    omega
  | true =>
    have hpos : 0 < s.descriptions.countP (·.writes) := List.countP_pos_iff.mpr ⟨d, hd, hpeer⟩
    have := h.writers
    simp only [present, if_true]
    omega

/-- An opener in the loop whose peer came finds it. -/
lemma Sound.peerFound {v : ℕ} (hseen : (s.openers k).pc.seen = some v)
    (hmet : s.Met (s.openers k)) : s.PeerFound (s.openers k).asReader v := by
  rcases (h.openers k).met hmet with ⟨d, hopen, hpeer⟩ | ⟨v', hv', hlt⟩
  · exact .inl (h.present_pos hopen hpeer)
  · obtain rfl : v = v' := Option.some.inj (hseen.symm.trans hv')
    exact .inr (by omega)

lemma Sound.wakesLater (hk : (s.openers k).pc ≠ .wakeOpened) {j : ℕ}
    (hj : (s.openers j).pc.sleeps) (hmet : s.Met (s.openers j)) : s.WakesLater n k := by
  obtain ⟨i, hi, hwake⟩ := h.awake j hj hmet
  exact ⟨i, hi, fun heq => hk (heq ▸ hwake), hwake⟩

/-! ### One step -/

/-- Opener `k` becomes `o`, and with it the number of pending openers may change. -/
lemma Sound.set (hk : k < n) {p : PipeBuffer}
    (hrds : p.readers = s.io.pipe.readers) (hwriters : p.writers = s.io.pipe.writers)
    (hpend : p.pendingReaders +
        (if (s.openers k).pc.isPending ∧ (s.openers k).asReader then 1 else 0) =
      s.io.pipe.pendingReaders + if o.pc.isPending ∧ o.asReader then 1 else 0)
    (hok : OpenerOk s o) (hasleep : o.pc.sleeps → s.Met o → s.WakesLater n k)
    (hwaking : ∀ j, (s.openers j).pc.sleeps → s.Met (s.openers j) → s.WakesLater n k) :
    Sound n { s.withPipe p with openers := update s.openers k o } where
  readers := hrds.trans h.readers
  writers := hwriters.trans h.writers
  pendingReaders := by
    have hcnt := count_update (P := fun o : Opener => o.pc.isPending ∧ o.asReader) (f := s.openers)
      (Finset.mem_range.mpr hk) o
    have hold := h.pendingReaders
    show p.pendingReaders = count _ _ (update s.openers k o)
    omega
  past := h.past
  openers j := by
    by_cases hj : j = k
    · subst hj
      simp only [update_self]
      exact { hok with }
    · simp only [update_of_ne hj]
      exact { h.openers j with }
  beyond j hj := by
    simp only [update_of_ne (show j ≠ k by omega)]
    exact h.beyond j hj
  awake j hj hmet := by
    have hlater : s.WakesLater n k := by
      by_cases hjk : j = k
      · subst hjk
        simp only [update_self] at hj hmet
        exact hasleep hj hmet
      · simp only [update_of_ne hjk] at hj hmet
        exact hwaking j hj hmet
    obtain ⟨i, hi, hik, hwake⟩ := hlater
    exact ⟨i, hi, by simpa only [update_of_ne hik] using hwake⟩

omit h in
lemma openerOk_outside (hseen : o.pc.seen = none) (hsince : o.pc.since = none) :
    OpenerOk s o := by
  refine ⟨by simp [hseen], ?_⟩
  rintro ⟨_, h, _⟩
  simp [hsince] at h

omit h in
lemma OpenerOk.goTo (h : OpenerOk s o) (hold : o.pc = old)
    (hsince : pc.since = old.since) (hseen : pc.seen = old.seen) :
    OpenerOk s { o with pc := pc } := by
  subst hold
  refine ⟨fun v hv => h.seen_le v (hseen ▸ hv), fun hmet => ?_⟩
  rw [show ({ o with pc := pc } : Opener).pc.seen = o.pc.seen from hseen]
  exact h.met ((met_goTo hsince).mp hmet)

lemma Sound.tick : Sound n { s with clock := s.clock + 1 } :=
  { h with
    past := fun d hd => Nat.lt_succ_of_lt (h.past d hd)
    openers := fun k => { h.openers k with } }

lemma Sound.countArrival (asReader : Bool) : Sound n (s.countArrival asReader) := by
  have hle : ∀ b, s.peerArrivals b ≤ (s.countArrival asReader).peerArrivals b := by
    intro b
    cases asReader <;> cases b <;> simp [FifoSystem.countArrival, peerArrivals]
  have hok : ∀ k, OpenerOk (s.countArrival asReader) (s.openers k) := fun k => by
    refine ⟨fun v hv => le_trans ((h.openers k).seen_le v hv) (hle _), fun hmet => ?_⟩
    refine ((h.openers k).met (by cases asReader <;> exact hmet)).imp
      (fun hopen => by cases asReader <;> exact hopen) ?_
    exact fun ⟨v, hv, hlt⟩ => ⟨v, hv, lt_of_lt_of_le hlt (hle _)⟩
  cases asReader with
  | false => exact { h with openers := hok }
  | true => exact { h with openers := hok }

omit h in
/-- A wake-up does nothing but to those who are asleep. -/
lemma wakeAll_openers (k : ℕ) : (s.wakeAll.openers k = s.openers k ∧
      ((s.openers k).pc.sleeps → ∃ since v, (s.openers k).pc = .entering since v)) ∨
    ∃ since v, (s.openers k).pc = .asleep since v ∧
      s.wakeAll.openers k = { s.openers k with pc := .test since v } := by
  simp only [FifoSystem.wakeAll]
  cases (s.openers k).pc <;> simp [sleeps]

lemma Sound.wakeAll : Sound n s.wakeAll where
  readers := h.readers
  writers := h.writers
  pendingReaders := by
    refine h.pendingReaders.trans (count_congr fun k _ => ?_)
    rcases wakeAll_openers (s := s) k with ⟨hsame, -⟩ | ⟨since, v, hpc, hnew⟩
    · rw [hsame]
    · rw [hnew, hpc]
      rfl
  past := h.past
  openers k := by
    rcases wakeAll_openers (s := s) k with ⟨hsame, -⟩ | ⟨since, v, hpc, hnew⟩
    · rw [hsame]
      exact { h.openers k with }
    · rw [hnew]
      have hok : OpenerOk s { s.openers k with pc := .test since v } :=
        (h.openers k).goTo hpc rfl rfl
      exact { hok with }
  beyond k hk := by
    rcases wakeAll_openers (s := s) k with ⟨hsame, -⟩ | ⟨since, v, hpc, -⟩
    · rw [hsame]
      exact h.beyond k hk
    · cases (h.beyond k hk).symm.trans hpc
  awake k hk hmet := by
    have hsame : s.wakeAll.openers k = s.openers k := by
      rcases wakeAll_openers (s := s) k with ⟨hsame, -⟩ | ⟨since, v, hpc, hnew⟩
      · exact hsame
      · rw [hnew] at hk
        cases hk
    rw [hsame] at hk hmet
    obtain ⟨j, hj, hwake⟩ := h.awake k hk hmet
    refine ⟨j, hj, ?_⟩
    rcases wakeAll_openers (s := s) j with ⟨hsame, -⟩ | ⟨since, v, hpc, -⟩
    · rw [hsame, hwake]
    · cases hwake.symm.trans hpc

section

variable (h : Sound n s) (hk : k < n)
include h hk

lemma Sound.goTo (hold : (s.openers k).pc = old)
    (hpend : pc.isPending = old.isPending) (hok : OpenerOk s { s.openers k with pc := pc })
    (hasleep : pc.sleeps → s.Met { s.openers k with pc := pc } → s.WakesLater n k)
    (hwaking : ∀ j, (s.openers j).pc.sleeps → s.Met (s.openers j) → s.WakesLater n k) :
    Sound n { s.goTo k pc with clock := (s.goTo k pc).clock + 1 } := by
  subst hold
  exact (h.set (p := s.io.pipe) hk rfl rfl (by rw [← hpend]; rfl) hok hasleep hwaking).tick

lemma Sound.announce (hpc : (s.openers k).pc = .announce) :
    Sound n ((s.withPipe (s.io.pipe.announce (s.openers k).asReader)).goTo k
      (.arrive s.clock)) := by
  refine h.set hk (o := { s.openers k with pc := .arrive s.clock }) ?_ ?_ ?_ ?_ (by simp [sleeps])
    fun j => h.wakesLater (by simp [hpc])
  · cases (s.openers k).asReader <;> rfl
  · cases (s.openers k).asReader <;> rfl
  · show _ = _ + if isPending (.arrive s.clock) ∧ (s.openers k).asReader then 1 else 0
    rw [hpc]
    cases (s.openers k).asReader <;> simp [PipeBuffer.announce, isPending]
  · refine ⟨by simp [seen], ?_⟩
    rintro ⟨_, ⟨⟩, d, hd, -, hlate⟩
    exact absurd (h.past d hd) (by omega)

lemma Sound.withdraw (hold : (s.openers k).pc = old)
    (hcnt : old.isPending = true) (hpc : pc = .create ∨ pc = .idle) :
    Sound n ((s.withPipe (s.io.pipe.withdraw (s.openers k).asReader)).goTo k pc) := by
  subst hold
  have hpos : (s.openers k).asReader = true → 0 < s.io.pipe.pendingReaders := by
    intro hreader
    rw [h.pendingReaders]
    exact Finset.card_pos.mpr ⟨k, Finset.mem_filter.mpr ⟨Finset.mem_range.mpr hk, hcnt, hreader⟩⟩
  have hnew : pc.isPending = false ∧ pc.seen = none ∧ pc.since = none ∧ pc.sleeps = false := by
    rcases hpc with rfl | rfl <;> exact ⟨rfl, rfl, rfl, rfl⟩
  obtain ⟨hnot, hseen, hsince, hawake⟩ := hnew
  refine h.set hk (o := { s.openers k with pc := pc }) ?_ ?_ ?_ (openerOk_outside hseen hsince)
    (by simp [hawake]) fun j => h.wakesLater fun hpc => by simp [hpc, isPending] at hcnt
  · cases (s.openers k).asReader <;> rfl
  · cases (s.openers k).asReader <;> rfl
  · rw [show ({ s.openers k with pc := pc } : Opener).pc.isPending = false from hnot, hcnt]
    cases hreader : (s.openers k).asReader with
    | false => simp [PipeBuffer.withdraw]
    | true =>
      have := hpos hreader
      simp only [PipeBuffer.withdraw, if_true, true_and, Bool.false_eq_true, false_and, if_false]
      omega

/-- The description is made: whoever waits for it has met it, and a wake-up is on its way. -/
lemma Sound.create (hpc : (s.openers k).pc = .create) :
    Sound n { (s.createDescription (s.openers k).flags).goTo k .wakeOpened with
      clock := s.clock + 1 } where
  readers := by
    obtain ⟨hrds, -, -⟩ := s.io.pipe.opened_counts ⟨(s.openers k).flags, s.clock⟩
    refine hrds.trans ?_
    rw [h.readers, ← List.countP_singleton, ← List.countP_append]
    rfl
  writers := by
    obtain ⟨-, hwriters, -⟩ := s.io.pipe.opened_counts ⟨(s.openers k).flags, s.clock⟩
    refine hwriters.trans ?_
    rw [h.writers, ← List.countP_singleton, ← List.countP_append]
    rfl
  pendingReaders := by
    have hcnt := count_update (P := fun o : Opener => o.pc.isPending ∧ o.asReader) (f := s.openers)
      (Finset.mem_range.mpr hk) { s.openers k with pc := .wakeOpened }
    obtain ⟨-, -, hpend⟩ := s.io.pipe.opened_counts ⟨(s.openers k).flags, s.clock⟩
    rw [if_neg (by rw [hpc]; exact fun hc => Bool.false_ne_true hc.1),
      if_neg (fun hc => Bool.false_ne_true hc.1)] at hcnt
    exact (hpend.trans h.pendingReaders).trans hcnt.symm
  past d hd := by
    rcases List.mem_append.mp hd with hd | hd
    · exact Nat.lt_succ_of_lt (h.past d hd)
    · obtain rfl := List.mem_singleton.mp hd
      exact Nat.lt_succ_self _
  openers j := by
    by_cases hj : j = k
    · subst hj
      refine openerOk_outside ?_ ?_
      · simp [FifoSystem.goTo, seen]
      · simp [FifoSystem.goTo, OpenerPc.since]
    · have hsame : ((s.createDescription (s.openers k).flags).goTo k .wakeOpened).openers j =
          s.openers j := update_of_ne hj _ _
      rw [hsame]
      refine ⟨(h.openers j).seen_le, fun ⟨since, hsince, d, hd, hpeer, hlate⟩ => ?_⟩
      rcases List.mem_append.mp hd with hd | hd
      · exact ((h.openers j).met ⟨since, hsince, d, hd, hpeer, hlate⟩).imp_left
          fun ⟨d', hopen, hpeer'⟩ => ⟨d', List.mem_append_left _ hopen, hpeer'⟩
      · exact .inl ⟨d, List.mem_append_right _ hd, hpeer⟩
  beyond j hj := by
    have hsame : ((s.createDescription (s.openers k).flags).goTo k .wakeOpened).openers j =
        s.openers j := update_of_ne (by omega) _ _
    rw [hsame]
    exact h.beyond j hj
  awake j _ _ := ⟨k, hk, by simp [FifoSystem.goTo]⟩

lemma Sound.advance (hord : Orderly n s (.advance k pending memory))
    (hadv : s.advance k pending memory = some s') :
    Sound n { s' with clock := s'.clock + 1 } := by
  have hok := h.openers k
  have hlater : ∀ {pc}, (s.openers k).pc = pc → pc ≠ .wakeOpened → ∀ j, (s.openers j).pc.sleeps →
      s.Met (s.openers j) → s.WakesLater n k := fun hpc hne j => h.wakesLater (hpc ▸ hne)
  have hawake : ∀ {pc}, (s.openers k).pc = pc → (∀ since v, pc ≠ .asleep since v) →
      (s.wakeAll.openers k).pc = pc := by
    intro pc hpc hne
    rcases wakeAll_openers (s := s) k with ⟨hsame, -⟩ | ⟨since, v, hasleep, -⟩
    · rw [hsame, hpc]
    · exact absurd (hpc.symm.trans hasleep) (hne since v)
  unfold FifoSystem.advance at hadv
  simp only at hadv
  split at hadv
  case h_1 | h_8 => cases hadv
  case h_2 hpc =>
    cases hadv
    exact (h.announce hk hpc).tick
  case h_3 since hpc =>
    cases hadv
    have hsame : (s.countArrival (s.openers k).asReader).openers = s.openers := by
      cases (s.openers k).asReader <;> rfl
    have harrived := h.countArrival (s.openers k).asReader
    rw [← hsame] at hpc
    exact harrived.goTo hk hpc rfl ((harrived.openers k).goTo hpc rfl rfl) nofun
      fun j => harrived.wakesLater (by simp [hpc])
  case h_4 since hpc =>
    cases hadv
    have hpc := hawake hpc nofun
    exact h.wakeAll.goTo hk hpc rfl ((h.wakeAll.openers k).goTo hpc rfl rfl) nofun
      fun j => h.wakeAll.wakesLater (by simp [hpc])
  case h_5 since hpc =>
    cases hadv
    refine h.goTo hk hpc rfl ⟨fun v hv => (Option.some.inj hv).ge, fun hmet => .inl ?_⟩ nofun
      (hlater hpc nofun)
    refine (hok.met ((met_goTo (by rw [hpc]; rfl)).mp hmet)).resolve_right ?_
    rw [hpc]
    exact fun ⟨v, hv, _⟩ => nomatch hv
  case h_6 since v hpc =>
    cases hadv
    split_ifs with hfound hsig
    · exact h.goTo hk hpc rfl (openerOk_outside rfl rfl) nofun (hlater hpc nofun)
    · exact h.goTo hk hpc rfl (openerOk_outside rfl rfl) nofun (hlater hpc nofun)
    · refine h.goTo hk hpc rfl (hok.goTo hpc rfl rfl) (fun _ hmet => absurd ?_ hfound)
        (hlater hpc nofun)
      exact h.peerFound (by rw [hpc]; rfl) ((met_goTo (by rw [hpc]; rfl)).mp hmet)
  case h_7 since v hpc =>
    cases hadv
    refine h.goTo hk hpc rfl (hok.goTo hpc rfl rfl) (fun _ hmet => ?_) (hlater hpc nofun)
    exact hlater hpc nofun k (by rw [hpc]; rfl) ((met_goTo (by rw [hpc]; rfl)).mp hmet)
  case h_9 hpc =>
    cases hadv
    exact (h.withdraw hk hpc rfl (.inl rfl)).tick
  case h_10 hpc =>
    cases hadv
    exact (h.withdraw hk hpc rfl (.inr rfl)).tick
  case h_11 hpc =>
    cases hadv
    split_ifs
    · exact h.create hk hpc
    · exact h.goTo hk hpc rfl (openerOk_outside rfl rfl) nofun (hlater hpc nofun)
  case h_12 hpc =>
    cases hadv
    refine h.wakeAll.goTo hk (hawake hpc nofun) rfl (openerOk_outside rfl rfl) nofun
      fun j hj hmet => ?_
    -- whoever still goes to sleep behind the wake-up is `entering`
    rcases wakeAll_openers (s := s) j with ⟨hsame, hentering⟩ | ⟨since, v, -, hnew⟩
    · rw [hsame] at hj hmet
      obtain ⟨since, v, hentering⟩ := hentering hj
      have hj : j < n := by
        by_contra hge
        cases (h.beyond j (by omega)).symm.trans hentering
      obtain ⟨i, hi, hik, hwake⟩ := (hord hpc).resolve_right fun hnone =>
        hnone j hj hmet since (by rw [hentering]; rfl) v (by rw [hentering]; rfl) hentering
      refine ⟨i, hi, hik, ?_⟩
      rcases wakeAll_openers (s := s) i with ⟨hsame, -⟩ | ⟨since, v, hasleep, -⟩
      · rw [hsame, hwake]
      · cases hwake.symm.trans hasleep
    · rw [hnew] at hj
      cases hj

end

/-- A description is closed: nobody who came before it still counts on it. -/
lemma Sound.close (hd : d ∈ s.descriptions) (hord : Orderly n s (.close d)) :
    Sound n { s.withPipe (s.io.pipe.closed d.flags) with descriptions := s.descriptions.erase d }
      where
  readers := by
    obtain ⟨hrds, -, -⟩ := s.io.pipe.closed_counts d
    refine hrds.trans ?_
    simp only [List.countP_erase, hd, true_and, h.readers]
  writers := by
    obtain ⟨-, hwriters, -⟩ := s.io.pipe.closed_counts d
    refine hwriters.trans ?_
    simp only [List.countP_erase, hd, true_and, h.writers]
  pendingReaders := (s.io.pipe.closed_counts d).2.2.trans h.pendingReaders
  past := h.past
  openers k := by
    refine ⟨(h.openers k).seen_le, fun hmet => ?_⟩
    have hk : k < n := by
      by_contra hge
      obtain ⟨since, hsince, -⟩ := hmet
      simp only [withPipe, h.beyond k (by omega)] at hsince
      exact nomatch hsince
    refine (hord k hk hmet).imp_right fun ⟨v, hv, hne⟩ => ⟨v, hv, ?_⟩
    exact lt_of_le_of_ne ((h.openers k).seen_le v hv) (Ne.symm hne)
  beyond := h.beyond
  awake := h.awake

lemma Sound.transfer (hends : io.pipe.ends = s.io.pipe.ends) : Sound n { s with io := io } := by
  simp only [ends, Prod.mk.injEq] at hends
  exact
    { h with
      readers := hends.1.trans h.readers
      writers := hends.2.1.trans h.writers
      pendingReaders := hends.2.2.1.trans h.pendingReaders
      openers := fun k => { h.openers k with } }

omit h in
lemma transfer_cases {a : PipeStep} (hmove : s.move n (.transfer a) = some s') :
    ∃ io thread q next events, s.io.Runs a io thread ∧
      Stretch s.io.pipe (io.calls thread) q next events ∧
      s' = { s with io := io.advance thread q next events } := by
  cases a with
  | read | write | resume =>
    obtain ⟨io, hio, rfl⟩ := Option.map_eq_some_iff.mp hmove
    obtain ⟨io, thread, q, next, events, hruns, hstretch, rfl⟩ := step_stretch rfl hio
    exact ⟨io, thread, q, next, events, hruns, hstretch, rfl⟩
  | _ => cases hmove

lemma Sound.step (hord : Orderly n s a) (hstep : step n s a = some s') : Sound n s' := by
  obtain ⟨t, hmove, rfl⟩ := Option.map_eq_some_iff.mp hstep
  cases a with
  | openFifo k flags =>
    simp only [move] at hmove
    split_ifs at hmove with hopen
    all_goals
      cases hmove
      obtain ⟨hk, hidle⟩ := hopen
      refine (h.set (p := s.io.pipe) hk rfl rfl ?_ (openerOk_outside rfl rfl) ?_
        fun j => h.wakesLater (by simp [hidle])).tick
      · rw [hidle]
        simp [isPending]
      · exact nofun
  | advance k pending memory =>
    simp only [move] at hmove
    split_ifs at hmove with hk
    exact h.advance hk hord hmove
  | rouse k =>
    simp only [move] at hmove
    split at hmove
    case h_1 since v hpc =>
      split_ifs at hmove with hk
      cases hmove
      exact h.goTo hk hpc rfl ((h.openers k).goTo hpc rfl rfl) nofun
        fun j => h.wakesLater (by simp [hpc])
    case h_2 => cases hmove
  | close d =>
    simp only [move] at hmove
    split_ifs at hmove with hd
    cases hmove
    exact (h.close hd hord).tick
  | transfer a =>
    obtain ⟨io, thread, q, next, events, -, hstretch, rfl⟩ := transfer_cases hmove
    exact (h.transfer hstretch.ends.1).tick

end

lemma trace_advance (hadv : s.advance k pending memory = some s') : s'.io.trace = s.io.trace := by
  unfold FifoSystem.advance at hadv
  simp only at hadv
  split at hadv
  case h_1 => cases hadv
  case h_3 =>
    cases hadv
    cases (s.openers k).asReader <;> rfl
  case h_8 => cases hadv
  case h_11 =>
    cases hadv
    split_ifs <;> rfl
  all_goals
    cases hadv
    rfl

/-! ## The rendezvous -/

/-- Whoever waits for a peer and has been met finds it at the next test, and is awake or about to be
woken. -/
@[mk_iff]
structure Rendezvous (n : ℕ) (s : FifoSystem) : Prop where
  released : ∀ k < n, ∀ v ∈ (s.openers k).pc.seen, s.Met (s.openers k) →
    s.PeerFound (s.openers k).asReader v
  woken : ∀ k < n, (s.openers k).pc.sleeps → s.Met (s.openers k) →
    ∃ j < n, (s.openers j).pc = .wakeOpened

instance : Decidable (Rendezvous n s) :=
  decidable_of_iff ((∀ k < n, ∀ v ∈ (s.openers k).pc.seen, s.Met (s.openers k) →
      s.PeerFound (s.openers k).asReader v) ∧
    ∀ k < n, (s.openers k).pc.sleeps → s.Met (s.openers k) →
      ∃ j ∈ List.range n, (s.openers j).pc = .wakeOpened)
    (by simp only [rendezvous_iff, List.mem_range])

/-- If a write fails with `EPIPE` in this step, every reader that was let through had its
description, and every description onto the reading end has been closed. -/
def BrokenJustly (n : ℕ) (s s' : FifoSystem) : Prop :=
  PipeSystem.FailsBroken s.io s'.io →
    (∀ d ∈ s.descriptions, d.reads = false) ∧ ∀ k < n, ¬ AdmittedReader (s.openers k)

lemma Sound.rendezvous (h : Sound n s) : Rendezvous n s where
  released _ _ _ := h.peerFound
  woken k _ := h.awake k

lemma not_failsBroken {io' : PipeSystem} (htrace : io'.trace = io.trace) :
    ¬ FailsBroken io io' := by
  simp [failsBroken_iff (htrace.trans (List.append_nil _).symm)]

lemma Sound.brokenJustly (h : Sound n s) (hord : Orderly n s a)
    (hstep : FifoSystem.step n s a = some s') : BrokenJustly n s s' := by
  intro hfails
  obtain ⟨t, hmove, rfl⟩ := Option.map_eq_some_iff.mp hstep
  cases a with
  | openFifo k flags =>
    simp only [move] at hmove
    split_ifs at hmove
    all_goals
      cases hmove
      exact absurd hfails (not_failsBroken rfl)
  | advance k pending memory =>
    simp only [move] at hmove
    split_ifs at hmove
    have htrace := trace_advance hmove
    exact absurd hfails (not_failsBroken htrace)
  | rouse k =>
    simp only [move] at hmove
    split at hmove
    · split_ifs at hmove
      cases hmove
      exact absurd hfails (not_failsBroken rfl)
    · cases hmove
  | close d =>
    simp only [move] at hmove
    split_ifs at hmove
    cases hmove
    exact absurd hfails (not_failsBroken rfl)
  | transfer a =>
    obtain ⟨io, thread, q, next, events, hruns, hstretch, rfl⟩ := transfer_cases hmove
    obtain ⟨call, bytes, hwrote⟩ :=
      (failsBroken_iff (congrArg (· ++ events) hruns.same.2)).mp hfails
    have hnone := hstretch.ends.2 call bytes hwrote
    have hrds := h.readers
    have hpend := h.pendingReaders
    constructor
    · have hzero : s.descriptions.countP (·.reads) = 0 := by omega
      simpa using List.countP_eq_zero.mp hzero
    · rintro k hk ⟨hreader, hwaits, hpc | hpc⟩
      · have hzero : count (Finset.range n) (fun o : Opener => o.pc.isPending ∧ o.asReader)
            s.openers = 0 := by omega
        exact count_eq_zero_iff.mp hzero k (Finset.mem_range.mpr hk) ⟨by rw [hpc]; rfl, hreader⟩
      · cases hruns with
        | read =>
          simp only [start, update_self] at hstretch
          cases hstretch <;> simp at hwrote
        | write | resume => exact (hord.resolve_left (by omega)) k hk ⟨hreader, hwaits, hpc⟩

instance (a : FifoStep) : Decidable (Orderly n s a) := by
  cases a with
  | transfer a => cases a <;> unfold Orderly <;> infer_instance
  | _ => unfold Orderly; infer_instance

/-- A reader and a writer meet: the reader waits, the writer comes, writes and leaves, and the
reader goes on. -/
def meeting : List FifoStep :=
  .openFifo 0 O_RDONLY :: List.replicate 6 (.advance 0 false true) ++
    .openFifo 1 O_WRONLY :: List.replicate 8 (.advance 1 false true) ++
    [.transfer (.write 1 [7] false), .close ⟨O_WRONLY, 14⟩, .advance 0 false true]

/-- A reader sleeps in `await_peer`; an `O_RDWR` open comes and is closed again before the reader
runs; the reader goes back to sleep. -/
def passedBy : List FifoStep :=
  .openFifo 0 O_RDONLY :: List.replicate 6 (.advance 0 false true) ++
    .openFifo 1 O_RDWR :: List.replicate 2 (.advance 1 false true) ++
    [.close ⟨O_RDWR, 8⟩, .advance 0 false true]

/-- A reader is preempted behind its test; a writer opens the FIFO; the reader goes to sleep. -/
def overslept : List FifoStep :=
  .openFifo 0 O_RDONLY :: List.replicate 5 (.advance 0 false true) ++
    .openFifo 1 O_WRONLY :: List.replicate 8 (.advance 1 false true) ++ [.advance 0 false true]

/-- A writer waits; a reader comes, is let through, and is preempted before it has a description;
the writer is let through as well and has its description. -/
def betweenCounts : List FifoStep :=
  .openFifo 1 O_WRONLY :: List.replicate 6 (.advance 1 false true) ++
    .openFifo 0 O_RDONLY :: List.replicate 6 (.advance 0 false true) ++
    List.replicate 4 (.advance 1 false true)

end FifoSystem

end ShitOs
