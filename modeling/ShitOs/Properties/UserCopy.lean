import ShitOs.Construction.UserCopy
import ShitOs.Properties.PageMap

/-!
# Which bytes of user memory a string is copied from

`Readable` is what a user address has to be: in the user half and in a page that is present and
accessible for user code.  `copyLoop` checks it once for every page, so the invariant of the loop is
that every byte copied so far is readable; the next one is then in the same page, or it is checked.

`copyStringFromUser_spec` says what a call does, for any page tables, any source and any capacity.
A huge page, which no function of the kernel makes in the user half, is refused by
`validate_user_range`.
-/

namespace ShitOs

open BitVec (ofNat)
open AddressSpace Kstd PageFlags RadixTable

namespace UserCopy

variable {words : Memory.Words} {root : ℕ} {a src : U64}

/-- A user address that may be read. -/
def Readable (words : Memory.Words) (root : ℕ) (a : U64) : Prop :=
  a.toNat < USER_SPACE_END.toNat ∧ ∃ table, walkToLeafTable words root a = some table ∧
    hasFlag (words (slot ENTRIES_PER_TABLE table (indexOf a 1))) Present ∧
    hasFlag (words (slot ENTRIES_PER_TABLE table (indexOf a 1))) User

lemma readable_iff : Readable words root a ↔
    a.toNat < 2 ^ 47 ∧ validUserPage words root false (pageAddress (a.toNat / 4096)) := by
  refine and_congr_right fun hlt => ?_
  have hlt' : a.toNat < 2 ^ 47 := hlt
  have hpage : pageOf (pageAddress (a.toNat / 4096)) = a.toNat / 4096 :=
    pageOf_pageAddress (by rw [USER_PAGES]; omega)
  rw [validUserPage, walkToLeafTable_eq, walkToLeafTable_eq, indexOf_pageOf,
    indexOf_pageOf, hpage, pageOf]
  cases walk ENTRIES_PER_TABLE nextTable words root (pathOf (a.toNat / 4096)) <;> simp

/-- The check of the loop, over the rest of a page. -/
lemma validateUserRange_page :
    validateUserRange words root a (4096 - (a &&& 4095)) false ↔ Readable words root a := by
  have hend : USER_SPACE_END.toNat = 2 ^ 47 := rfl
  have hlen : (4096 - (a &&& 4095)).toNat = 4096 - a.toNat % 4096 := by
    rw [BitVec.toNat_sub, toNat_and_4095, show (4096 : U64).toNat = 4096 from rfl]
    omega
  rw [validateUserRange_iff, readable_iff, hlen, hend]
  refine ⟨fun h => ⟨by omega, h.2.2 _ le_rfl (by omega)⟩, fun h =>
    ⟨by omega, by omega, fun b hb hlt => ?_⟩⟩
  rw [show b / 4096 = a.toNat / 4096 by omega]
  exact h.2

lemma Readable.next (h : Readable words root a) (hpage : (a + 1) &&& 4095 ≠ 0) :
    Readable words root (a + 1) := by
  have hoffset : (a + 1).toNat % 4096 ≠ 0 := fun hzero =>
    hpage (BitVec.eq_of_toNat_eq ((toNat_and_4095 _).trans hzero))
  obtain ⟨hlt, hval⟩ := readable_iff.mp h
  have hnext : (a + 1).toNat = a.toNat + 1 := BitVec.toNat_add_of_lt (by simp; omega)
  rw [hnext] at hoffset
  refine readable_iff.mpr ⟨by omega, ?_⟩
  rwa [hnext, show (a.toNat + 1) / 4096 = a.toNat / 4096 by omega]

/-- The first `n` bytes can be read and none of them ends the string. -/
def Clean (words : Memory.Words) (root : ℕ) (source : U64) (n : ℕ) : Prop :=
  ∀ i < n, Readable words root (source + ofNat 64 i) ∧ userByte words root (source + ofNat 64 i) ≠ 0

/-- How a call can end. -/
def Outcome (words : Memory.Words) (root : ℕ) (source : U64) (capacity : ℕ) (out : StringCopy) :
    Prop :=
  match out.result with
  | .ok n => n + 1 < capacity ∧ Clean words root source n ∧
      Readable words root (source + ofNat 64 n) ∧ userByte words root (source + ofNat 64 n) = 0 ∧
      ∀ i ≤ n, out.destination i = userByte words root (source + ofNat 64 i)
  | .error e => (e = .ENAMETOOLONG ∧ Clean words root source (capacity - 1)) ∨
      (e = .EFAULT ∧ ∃ k, k + 1 < capacity ∧ Clean words root source k ∧
        ¬ Readable words root (source + ofNat 64 k))

/-- **The loop**, by induction on how much room is left. -/
lemma copyLoop_spec {remaining len : ℕ} {destination : ℕ → BitVec 8} {dereferenced : List U64}
    (hclean : Clean words root src len)
    (hcopied : ∀ i < len, destination i = userByte words root (src + ofNat 64 i))
    (hread : ∀ a ∈ dereferenced, Readable words root a) :
    let out := copyLoop words root src remaining len destination dereferenced
    Outcome words root src (len + remaining + 1) out ∧
      (∀ a ∈ out.dereferenced, Readable words root a) ∧
      ∀ i, len + remaining < i → out.destination i = destination i := by
  induction remaining generalizing len destination dereferenced with
  | zero => exact ⟨.inl ⟨rfl, hclean⟩, hread, fun i hi => Function.update_of_ne (by omega) ..⟩
  | succ remaining ih =>
    rw [copyLoop]
    -- the byte is checked, or it is in the page of the byte before
    have hcheck : ((src + ofNat 64 len) &&& 4095 = 0 ∨ len = 0) ∧
        ¬ validateUserRange words root (src + ofNat 64 len)
          (4096 - ((src + ofNat 64 len) &&& 4095)) false ↔
          ¬ Readable words root (src + ofNat 64 len) := by
      rw [validateUserRange_page]
      refine and_iff_right_of_imp fun hnot => ?_
      by_contra hskip
      rw [not_or] at hskip
      obtain ⟨before, rfl⟩ := Nat.exists_eq_add_one.mpr (Nat.pos_of_ne_zero hskip.2)
      have hnext : src + ofNat 64 (before + 1) = src + ofNat 64 before + 1 := by
        rw [BitVec.ofNat_add, BitVec.add_assoc]
        rfl
      rw [hnext] at hnot hskip
      exact hnot ((hclean before (by omega)).1.next hskip.1)
    by_cases hreadable : Readable words root (src + ofNat 64 len)
    · rw [if_neg (by rwa [hcheck, not_not])]
      dsimp only
      have hread' : ∀ a ∈ dereferenced ++ [src + ofNat 64 len], Readable words root a := by
        simpa [or_imp, forall_and, hreadable] using hread
      have hcopied' : ∀ i ≤ len, Function.update destination len
          (userByte words root (src + ofNat 64 len)) i =
          userByte words root (src + ofNat 64 i) := fun i hi => by
        obtain rfl | hlt := hi.eq_or_lt
        · exact Function.update_self ..
        · rw [Function.update_of_ne hlt.ne, hcopied i hlt]
      split_ifs with hend
      · exact ⟨⟨by omega, hclean, hreadable, hend, hcopied'⟩, hread', fun i hi =>
          Function.update_of_ne (by omega) ..⟩
      · have hclean' : Clean words root src (len + 1) := fun i hi => by
          obtain rfl | hlt := (Nat.lt_succ_iff.mp hi).eq_or_lt
          · exact ⟨hreadable, hend⟩
          · exact hclean i hlt
        obtain ⟨hout, hderef, hrest⟩ := ih hclean' (fun i hi => hcopied' i (by omega)) hread'
        rw [show len + (remaining + 1) = len + 1 + remaining by omega]
        refine ⟨hout, hderef, fun i hi => ?_⟩
        rw [hrest i hi, Function.update_of_ne (by omega)]
    · rw [if_pos (hcheck.mpr hreadable)]
      exact ⟨.inr ⟨rfl, len, by omega, hclean, hreadable⟩, hread, fun _ _ => rfl⟩

/-- **`copy_string_from_user`**, in every address space, from every address and with every capacity.
-/
theorem copyStringFromUser_spec (words : Memory.Words) (root : ℕ)
    (destination : ℕ → BitVec 8) (source : U64) (capacity : ℕ) (hcapacity : 1 ≤ capacity) :
    let out := copyStringFromUser words (some root) destination source capacity
    (∀ a ∈ out.dereferenced, Readable words root a) ∧
      (∀ i, capacity ≤ i → out.destination i = destination i) ∧
      (∀ n, out.result = .ok n ↔ n < capacity - 1 ∧
        (∀ i ≤ n, Readable words root (source + ofNat 64 i)) ∧
        (∀ i < n, userByte words root (source + ofNat 64 i) ≠ 0) ∧
        userByte words root (source + ofNat 64 n) = 0) ∧
      (∀ n, out.result = .ok n →
        ∀ i ≤ n, out.destination i = userByte words root (source + ofNat 64 i)) ∧
      (∀ e, out.result = .error e →
        ((∀ i < capacity - 1, Readable words root (source + ofNat 64 i)) → e = .ENAMETOOLONG) ∧
        ((¬ ∀ i < capacity - 1, Readable words root (source + ofNat 64 i)) → e = .EFAULT)) ∧
      ∀ m M, Stands root m M → m.words = words →
        ∀ a, Readable words root a ↔ a.toNat < USER_SPACE_END.toNat ∧
        Accessible M false (a.toNat / 4096) := by
  intro out
  obtain ⟨room, rfl⟩ := Nat.exists_eq_add_of_le' hcapacity
  obtain ⟨hout, hread, hrest⟩ : Outcome words root source (room + 1) out ∧
      (∀ a ∈ out.dereferenced, Readable words root a) ∧ ∀ i, room < i → out.destination i =
      destination i := by
    have hnone : Clean words root source 0 := fun i hi => absurd hi (Nat.not_lt_zero i)
    have hloop := @copyLoop_spec words root source room 0 destination [] hnone
      (fun i hi => absurd hi (Nat.not_lt_zero i)) (by simp)
    rwa [Nat.zero_add] at hloop
  refine ⟨hread, fun i hi => hrest i hi, fun n => ⟨fun hok => ?_, ?_⟩,
    fun n hok => ?_, fun e herror => ?_, ?_⟩
  · rw [Outcome, hok] at hout
    obtain ⟨hlt, hclean, hlast, hend, -⟩ := hout
    refine ⟨by omega, fun i hi => ?_, fun i hi => (hclean i hi).2, hend⟩
    obtain rfl | hlt := hi.eq_or_lt
    · exact hlast
    · exact (hclean i hlt).1
  · rintro ⟨hlt, hall, hbefore, hend⟩
    unfold Outcome at hout
    split at hout
    next n' hok =>
      obtain ⟨-, hclean, -, hend', -⟩ := hout
      obtain hless | rfl | hgreater := lt_trichotomy n n'
      · exact absurd hend (hclean n hless).2
      · exact hok
      · exact absurd hend' (hbefore n' hgreater)
    next e _ =>
      obtain ⟨-, hclean⟩ | ⟨-, k, -, hclean, hnot⟩ := hout
      · exact absurd hend (hclean n hlt).2
      · obtain hle | hgreater := le_or_gt k n
        · exact absurd (hall k hle) hnot
        · exact absurd hend (hclean n hgreater).2
  · rw [Outcome, hok] at hout
    exact hout.2.2.2.2
  · rw [Outcome, herror] at hout
    obtain ⟨rfl, hclean⟩ | ⟨rfl, k, hlt, -, hnot⟩ := hout
    · exact ⟨fun _ => rfl, fun hsome => absurd (fun i hi => (hclean i hi).1) hsome⟩
    · exact ⟨fun hall => absurd (hall k (by omega)) hnot, fun _ => rfl⟩
  · rintro m M hstands rfl a
    have hend : USER_SPACE_END.toNat = 2 ^ 47 := rfl
    rw [readable_iff, hend]
    exact and_congr_right fun hlt => hstands.validUserPage_iff (by rw [USER_PAGES]; omega)

/-- Four tables that map page 0 for user code, to a frame that starts with the string `hi`. -/
def pageWithHi : Memory.Words := fun w =>
  if w = 0 then 0x1007 else if w = 512 then 0x2007 else if w = 1024 then 0x3007
  else if w = 1536 then 0x4005 else if w = 2048 then 0x6968 else 0

theorem copyStringFromUser_spec_hi :
    (copyStringFromUser pageWithHi (some 0) (fun _ => 0) 0 8).result = .ok 2 ∧
      ∀ i ≤ 2, (copyStringFromUser pageWithHi (some 0) (fun _ => 0) 0 8).destination i =
        userByte pageWithHi 0 (ofNat 64 i) := by
  obtain ⟨-, -, -, hcopied, -⟩ := copyStringFromUser_spec pageWithHi 0 (fun _ => 0) 0 8 (by decide)
  have hok : (copyStringFromUser pageWithHi (some 0) (fun _ => 0) 0 8).result =
    .ok 2 := by decide +kernel
  refine ⟨hok, fun i hi => ?_⟩
  rw [hcopied 2 hok i hi, zero_add]

end UserCopy
end ShitOs
