import ShitOs.Construction.Regions
import ShitOs.Framework.Transition
import ShitOs.Properties.Physical

/-!
# Whether the regions of a process stay apart

They do as long as the break stays below where `mmap` begins and `mmap` does not reach the stack
(`regions_apart`).  Neither is checked (`regions_overlap`): the break of a program that is linked
below `MMAP_BASE` grows over what `mmap` has handed out, and shrinks again; and a length that is too
large to be rounded up is taken for none.
-/

namespace ShitOs
namespace Regions

open Kstd

variable {s s' : Regions}

/-- The bytes from `a` to `b` and those from `c` to `d` have one in common. -/
def Overlap (a b c d : ℕ) : Prop := a < b ∧ c < d ∧ a < d ∧ c < b
  deriving Decidable

/-- The bytes from `a` to `b` are apart from those of every region and from the stack. -/
def Clear (s : Regions) (a b : ℕ) : Prop :=
  (∀ r ∈ s.handed, ¬ Overlap a b r.1.toNat (r.1.toNat + r.2.toNat)) ∧
    ¬ Overlap a b (USER_STACK_TOP - USER_STACK_SIZE).toNat USER_STACK_TOP.toNat

/-- The break, the regions and the stack are apart, and shrinking the break unmaps nothing of the
others. -/
structure Apart (s : Regions) : Prop where
  handed : s.handed.Pairwise fun r q =>
    ¬ Overlap r.1.toNat (r.1.toNat + r.2.toNat) q.1.toNat (q.1.toNat + q.2.toNat)
  stack : ∀ r ∈ s.handed, ¬ Overlap r.1.toNat (r.1.toNat + r.2.toNat)
    (USER_STACK_TOP - USER_STACK_SIZE).toNat USER_STACK_TOP.toNat
  brk : s.Clear s.brkStart.toNat s.brkCurrent.toNat
  shrink : ∀ address, ∀ first ∈ s.unmapsFrom address,
    s.Clear first.toNat (alignUp s.brkCurrent 4096).toNat

/-- The break stays below where `mmap` begins, and `mmap` below the stack. -/
def Proper (s : Regions) : RegionCall → Prop
  | .brk address mapped => (s.setBrk address mapped).brkCurrent.toNat ≤ MMAP_BASE.toNat
  | .mmap length _ => length = 0 ∨
      s.mmapNext.toNat + length.toNat ≤ (USER_STACK_TOP - USER_STACK_SIZE).toNat
  | .fork => True
  | .execve brkStart => brkStart.toNat ≤ MMAP_BASE.toNat

/-- Where everything is. -/
structure Laid (s : Regions) : Prop where
  brk : s.brkCurrent.toNat ≤ MMAP_BASE.toNat
  within : ∀ r ∈ s.handed, MMAP_BASE.toNat ≤ r.1.toNat ∧ r.1.toNat + r.2.toNat ≤
    min s.mmapNext.toNat (USER_STACK_TOP - USER_STACK_SIZE).toNat
  base : MMAP_BASE.toNat ≤ s.mmapNext.toNat
  handed : s.handed.Pairwise fun r q => q.1.toNat + q.2.toNat ≤ r.1.toNat

lemma Laid.step (h : Laid s) {c : RegionCall} (hprop : Proper s c) (hstep : s.step c = some s') :
    Laid s' := by
  have hstack : (USER_STACK_TOP - USER_STACK_SIZE).toNat = 0x7FFFFFFEF000 := rfl
  cases c with
  | brk address mapped =>
    cases hstep
    have hbrk : (s.setBrk address mapped).brkCurrent.toNat ≤ MMAP_BASE.toNat := hprop
    unfold setBrk at hbrk ⊢
    split_ifs at hbrk ⊢
    · exact ⟨hbrk, h.within, h.base, h.handed⟩
    · exact h
  | mmap length mapped =>
    cases hstep
    by_cases hlen : length = 0
    · rwa [mmap, if_pos hlen]
    rw [mmap, if_neg hlen]
    have hbase := h.base
    have hsum := hprop.resolve_left hlen
    have hround : (alignUp length 4096).toNat = (length.toNat + 4095) / 4096 * 4096 := by
      rw [toNat_alignUp, Nat.mod_eq_of_lt (by omega)]
    -- nothing wraps
    have hnext : (s.mmapNext + (alignUp length 4096 + 4096)).toNat =
        s.mmapNext.toNat + ((alignUp length 4096).toNat + 4096) := by
      rw [BitVec.toNat_add, BitVec.toNat_add, show (4096 : U64).toNat = 4096 from rfl]
      omega
    generalize s.mmapNext + (alignUp length 4096 + 4096) = next at hnext ⊢
    have hgrown : ∀ r ∈ s.handed, MMAP_BASE.toNat ≤ r.1.toNat ∧ r.1.toNat + r.2.toNat ≤
      min next.toNat (USER_STACK_TOP - USER_STACK_SIZE).toNat := fun r hr =>
      ⟨(h.within r hr).1, (h.within r hr).2.trans (by omega)⟩
    have habove : MMAP_BASE.toNat ≤ next.toNat := by omega
    cases mapped with
    | false => exact ⟨h.brk, hgrown, habove, h.handed⟩
    | true =>
      refine ⟨h.brk, fun r hr => ?_, habove, ?_⟩
      · rcases List.mem_cons.mp hr with rfl | hr
        · exact ⟨h.base, by dsimp only; omega⟩
        · exact hgrown r hr
      · refine List.pairwise_cons.mpr ⟨fun r hr => ?_, h.handed⟩
        exact (h.within r hr).2.trans (Nat.min_le_left ..)
  | fork =>
    cases hstep
    exact ⟨h.brk, h.within, h.base, h.handed⟩
  | execve brkStart =>
    cases hstep
    exact ⟨hprop, by simp, h.base, List.Pairwise.nil⟩

lemma Laid.apart (h : Laid s) : Apart s := by
  have hbase : MMAP_BASE.toNat = 0x100000000000 := rfl
  have hstack : (USER_STACK_TOP - USER_STACK_SIZE).toNat = 0x7FFFFFFEF000 := rfl
  have hbrk := h.brk
  have hclear : ∀ a b, b ≤ MMAP_BASE.toNat → s.Clear a b := by
    refine fun a b hb => ⟨fun r hr => ?_, ?_⟩
    · have := h.within r hr
      unfold Overlap
      omega
    · unfold Overlap
      omega
  refine ⟨h.handed.imp ?_, fun r hr => ?_, hclear _ _ hbrk, fun address first _ => hclear _ _ ?_⟩
  · intro r q hrq
    unfold Overlap
    omega
  · have := h.within r hr
    unfold Overlap
    omega
  · rw [toNat_alignUp]
    omega

/-- **The regions of a process**, after any calls that keep to their parts. -/
theorem regions_apart (brkStart : U64) (hstart : brkStart.toNat ≤ MMAP_BASE.toNat)
    (calls : List RegionCall) (s : Regions)
    (hproper : Transition.Along step Proper (initial brkStart) calls)
    (hrun : Transition.run step (initial brkStart) calls = some s) : s.Apart := by
  have hlaid : Laid (initial brkStart) :=
    ⟨hstart, by simp [initial], le_rfl, List.Pairwise.nil⟩
  exact (Transition.run_invariant (fun _ _ _ h hc hstep => h.step hc hstep) calls _ s hlaid
    hproper hrun).apart

/-- The break grows by a page and a page is mapped. -/
theorem regions_apart_twoPages :
    Apart ⟨0x401000, 0x402000, 0x100000002000, [(MMAP_BASE, 4096)]⟩ := by
  refine regions_apart 0x401000 (by decide) [.brk 0x402000 true, .mmap 4096 true] _ ?_ rfl
  refine ⟨show _ ≤ _ by decide, ?_⟩
  rintro _ ⟨⟩
  exact ⟨.inr (by decide), fun _ _ => trivial⟩

/-- The break grows by two pages over one of `mmap` and shrinks; and `mmap` hands out all but one
byte of what there is. -/
theorem regions_overlap :
    (∃ s, Transition.run step (initial 0xFFFFFFFF000) [.mmap 4096 true, .brk 0x100000001000 true] =
      some s ∧ ¬ s.Clear s.brkStart.toNat s.brkCurrent.toNat ∧
      ∃ first ∈ s.unmapsFrom 0xFFFFFFFF000,
        ¬ s.Clear first.toNat (alignUp s.brkCurrent 4096).toNat) ∧
    ∃ s, Transition.run step (initial 0x401000) [.mmap 0xFFFFFFFFFFFFFFFF true] = some s ∧
      ∃ r ∈ s.handed, Overlap r.1.toNat (r.1.toNat + r.2.toNat)
        (USER_STACK_TOP - USER_STACK_SIZE).toNat USER_STACK_TOP.toNat := by
  refine ⟨⟨_, rfl, fun hclear => ?_, _, rfl, fun hclear => ?_⟩, _, rfl, _,
    List.mem_cons_self, by decide⟩
  · exact hclear.1 _ List.mem_cons_self (by decide)
  · exact hclear.1 _ List.mem_cons_self (by decide)

end Regions
end ShitOs
