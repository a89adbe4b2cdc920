import ShitOs.Construction.Pty
import ShitOs.Framework.Transition

/-!
# What the master of a pseudo-terminal reads

The output, processed and in order, but for bytes that were dropped because the ring was full.
-/

namespace ShitOs

open List (Sublist)
open Transition

/-- A step of a pseudo-terminal.  What an ioctl or a read of the slave leaves of the discipline is
open. -/
inductive PtyStep
  | write (c : UInt8)
  | type (byte : UInt8)
  | read (length : ℕ)
  | configure (discipline : LineDiscipline) (oflag : BitVec 32)
  | closeMaster
  | closeSlave

namespace Pty

/-- What bytes come to on the other side. -/
def shown (s : Pty) (cs : List UInt8) :
    List UInt8 := if s.masterClosed then [] else cs.flatMap (processed s.oflag)

/-- All bytes get into the ring if there is room. -/
lemma foldl_push (vs : List UInt8) (r : Ring UInt8 PTY_OUTPUT_CAPACITY) :
    ∃ kept, Sublist kept vs ∧ (vs.foldl push r).content = r.content ++ kept ∧
      (vs.length ≤ r.available → kept = vs) := by
  induction vs generalizing r with
  | nil => exact ⟨[], .slnil, by simp, fun _ => rfl⟩
  | cons v vs ih =>
    rw [List.foldl_cons, push]
    split_ifs with hroom
    · obtain ⟨kept, hkept, hcontent, hall⟩ := ih (r.push v)
      refine ⟨v :: kept,
        hkept.cons_cons v, by simp [hcontent, r.content_push v hroom], fun hlen => ?_⟩
      have hused := r.used_push v hroom
      rw [hall]
      simp only [List.length_cons, Ring.available] at hlen ⊢
      omega
    · obtain ⟨kept, hkept, hcontent, -⟩ := ih r
      exact ⟨kept, hkept.cons v, hcontent, fun hlen => absurd (by simp at hlen; omega) hroom⟩

lemma foldl_writeFromSlave (cs : List UInt8) (s : Pty) :
    cs.foldl writeFromSlave s = { s with output := (s.shown cs).foldl push s.output } := by
  induction cs generalizing s with
  | nil => simp [shown]
  | cons c cs ih =>
    rw [List.foldl_cons, ih]
    by_cases hclosed : s.masterClosed <;> simp [writeFromSlave, shown, hclosed]

end Pty

/-- A pseudo-terminal with what went to the master and what the master has read. -/
structure PtySystem where
  pty : Pty
  sent : List UInt8
  received : List UInt8

namespace PtySystem

variable {s s' : PtySystem} {a : PtyStep}

/-- The output of a step. -/
def emits (s : Pty) : PtyStep → List UInt8
  | .write c => s.shown [c]
  | .type byte => s.shown (s.discipline.feed byte).2.echoed
  | _ => []

def step (s : PtySystem) (a : PtyStep) : Option PtySystem :=
  let s := { s with sent := s.sent ++ emits s.pty a }
  match a with
  | .write c => some { s with pty := s.pty.writeFromSlave c }
  | .type byte => some { s with pty := s.pty.feed byte }
  | .read length => (s.pty.readFromMaster length).map fun r => ⟨r.2, s.sent, s.received ++ r.1⟩
  | .configure discipline oflag => some { s with pty := { s.pty with discipline, oflag } }
  | .closeMaster => some { s with pty := s.pty.noteMasterClosed }
  | .closeSlave => some { s with pty := s.pty.noteSlaveClosed }

/-- There is room for the output of the step. -/
abbrev Fits (s : PtySystem) (a : PtyStep) : Prop := (emits s.pty a).length ≤ s.pty.output.available

/-- What the master has read, followed by what it can still read. -/
def delivered (s : PtySystem) : List UInt8 := s.received ++ s.pty.output.content

lemma step_delivered (h : s.step a = some s') : ∃ kept, Sublist kept (emits s.pty a) ∧
    s'.sent = s.sent ++ emits s.pty a ∧ s'.delivered = s.delivered ++ kept ∧
      (Fits s a → kept = emits s.pty a) := by
  obtain ⟨kept, hkept, hcontent, hall⟩ := Pty.foldl_push (emits s.pty a) s.pty.output
  have hputs : ∀ pty : Pty, pty.output = (emits s.pty a).foldl Pty.push s.pty.output →
      s.received ++ pty.output.content = s.delivered ++ kept := by
    intro pty hpty
    rw [hpty, hcontent, delivered, List.append_assoc]
  cases a with
  | read length =>
    obtain ⟨⟨bytes, pty⟩, hread, rfl⟩ := Option.map_eq_some_iff.mp h
    have hdrained : s.pty.output.content = bytes ++ pty.output.content := by
      unfold Pty.readFromMaster at hread
      split_ifs at hread <;> cases hread
      all_goals first | rfl | exact s.pty.output.content_drain length
    exact ⟨[], .slnil, rfl, by simp [delivered, hdrained], fun _ => rfl⟩
  | write c =>
    obtain rfl := Option.some.inj h
    exact ⟨kept, hkept, rfl, hputs _ (congrArg Pty.output (Pty.foldl_writeFromSlave [c] s.pty)),
      hall⟩
  | type byte =>
    obtain rfl := Option.some.inj h
    exact ⟨kept, hkept, rfl, hputs _ (congrArg Pty.output (Pty.foldl_writeFromSlave _ _)), hall⟩
  | _ =>
    obtain rfl := Option.some.inj h
    exact ⟨[], .slnil, rfl, (List.append_nil _).symm, fun _ => rfl⟩

/-- **The output of a pseudo-terminal.**  Nothing is invented, repeated or put in another order on
the way to the master, and nothing is lost as long as there is room for it. -/
theorem output_in_order {as : List PtyStep} (hrun : run step ⟨.create, [], []⟩ as = some s) :
    Sublist s.delivered s.sent ∧
      (Along step Fits ⟨.create, [], []⟩ as → s.delivered = s.sent) := by
  refine ⟨?_, fun hfits => ?_⟩
  · refine run_invariant (I := fun s => Sublist s.delivered s.sent) (C := fun _ _ => True)
      (fun s a s' hI _ hstep => ?_) as _ s .slnil (along_of_forall (fun _ _ => trivial) as _) hrun
    obtain ⟨kept, hkept, hsent, hdelivered, -⟩ := step_delivered hstep
    rw [hsent, hdelivered]
    exact hI.append hkept
  · refine run_invariant (I := fun s => s.delivered = s.sent) (fun s a s' hI hroom hstep => ?_)
      as _ s rfl hfits hrun
    obtain ⟨kept, -, hsent, hdelivered, hall⟩ := step_delivered hstep
    rw [hsent, hdelivered, hall hroom, hI]

/-- A line is typed and read, with its newline processed. -/
theorem output_in_order_line : ∃ s,
    run step ⟨.create, [], []⟩ [.type 0x61, .type 0x0d, .read 9] = some s ∧
      s.received = [0x61, 0x0d, 0x0a] ∧ s.delivered = s.sent :=
  exists_run_of_map received _ (by decide +kernel) fun _ hrun hend =>
    ⟨hend, (output_in_order hrun).2 (by decide +kernel)⟩

end PtySystem
end ShitOs
