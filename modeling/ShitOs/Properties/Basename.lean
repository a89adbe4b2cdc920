import ShitOs.Construction.Posix
import ShitOs.Properties.Paths

/-!
# What `dirname` and `basename` make of a path

Put together again, the two have the components of the path, and `basename` is never empty
(`dirname_basename_spec`).  `dirname` is empty for one kind of path: the loop that drops the slashes
at the end of the directory part also drops the root, if it is written with more than one slash.
-/

namespace ShitOs

/-- The path has something before its last component. -/
def HasDirectory (path : Text) : Prop := path.head? = some SLASH ∨ 2 ≤ (written path).length

/-- The two parts make up the path.  A dot stands for the directory part that is not there. -/
def Rejoins (path : Text) : Prop :=
  (HasDirectory path ∧ written (dirname path ++ SLASH :: basename path) = written path ∨
    ¬ HasDirectory path ∧ dirname path = DOT ∧ written (basename path) = written path) ∧
  ((dirname path ++ SLASH :: basename path).head? = some SLASH ↔ path.head? = some SLASH)

/-- A root of several slashes and one name below it. -/
def DoubledRoot (path : Text) : Prop := path.take 2 = [SLASH, SLASH] ∧ (written path).length = 1

lemma trimLoop_spec {r : Text} (hr : r ≠ []) : ∃ k, r = List.replicate k SLASH ++ trimLoop r ∧
    trimLoop r ≠ [] ∧ (trimLoop r = [SLASH] ∨ (trimLoop r).head? ≠ some SLASH) := by
  fun_induction trimLoop r with
  | case1 d rest ih =>
    obtain ⟨k, hk, hne, hlast⟩ := ih (by simp)
    exact ⟨k + 1, congrArg (SLASH :: ·) hk, hne, hlast⟩
  | case2 c d rest hc => exact ⟨0, rfl, by simp, Or.inr (by simpa using hc)⟩
  | case3 r hshort =>
    refine ⟨0, rfl, hr, ?_⟩
    cases r with
    | nil => exact absurd rfl hr
    | cons c rest =>
      cases rest with
      | nil => by_cases hc : c = SLASH <;> simp [hc]
      | cons d rest => exact (hshort c d rest rfl).elim

lemma trimmed_spec {path : Text} (hne : path ≠ []) :
    ∃ k, path = trimmed path ++ List.replicate k SLASH ∧
    trimmed path ≠ [] ∧ (trimmed path = [SLASH] ∨ (trimmed path).getLast? ≠ some SLASH) := by
  obtain ⟨k, hk, hsome, hlast⟩ := trimLoop_spec (List.reverse_ne_nil_iff.mpr hne)
  refine ⟨k, ?_, by simpa [trimmed] using hsome, ?_⟩
  · rw [trimmed, ← List.reverse_replicate, ← List.reverse_append, ← hk, List.reverse_reverse]
  · rw [trimmed, List.getLast?_reverse, List.reverse_eq_iff]
    exact hlast

lemma strrchr_spec (path : Text) : match strrchr path with
    | none => SLASH ∉ path
    | some (front, back) => path = front ++ SLASH :: back ∧ SLASH ∉ back := by
  induction path with
  | nil => simp [strrchr]
  | cons c rest ih =>
    rw [strrchr]
    split at ih
    · next hnone =>
        by_cases hc : c = SLASH
        · simpa [hnone, hc] using ih
        · simpa [hnone, hc, eq_comm] using ih
    · next front back hsome => simpa [hsome] using ih

lemma written_eq_nil_iff (path : Text) : written path = [] ↔ ∀ c ∈ path, c = SLASH := by
  induction path with
  | nil => simp
  | cons c rest ih =>
    by_cases hc : c = SLASH
    · simp [hc, ih]
    · refine iff_of_false (fun h => ?_) (fun h => hc (h c List.mem_cons_self))
      rw [written_of_head (by simp) (by simpa using hc)] at h
      exact List.cons_ne_nil _ _ h

lemma written_append_slashes (path : Text) (k : ℕ) :
    written (path ++ List.replicate k SLASH) = written path := by
  cases k with
  | zero => simp
  | succ k =>
    have hnone : written (List.replicate k SLASH) = [] :=
      (written_eq_nil_iff _).mpr fun c hc => List.eq_of_mem_replicate hc
    rw [List.replicate_succ, written_append_slash, hnone, List.append_nil]

/-- What is left of the directory part. -/
lemma rdropWhile_slash (front : Text) : written (front.rdropWhile (· == SLASH)) = written front ∧
    (front.rdropWhile (· == SLASH) = [] ↔ written front = []) := by
  refine ⟨?_, ?_⟩
  · have hslashes : front.rtakeWhile (· == SLASH) =
        List.replicate (front.rtakeWhile (· == SLASH)).length SLASH :=
      List.eq_replicate_of_mem fun c hc => by simpa using List.mem_rtakeWhile_imp hc
    conv_rhs => rw [← @List.rdropWhile_append_rtakeWhile _ (· == SLASH) front, hslashes]
    exact (written_append_slashes _ _).symm
  · simp [List.rdropWhile_eq_nil_iff, written_eq_nil_iff]

/-- **Splitting a path.**  The parts make up the path, and only the directory part can be empty. -/
theorem dirname_basename_spec (path : Text) (hne : path ≠ []) :
    basename path ≠ [] ∧ Rejoins path ∧ (dirname path ≠ [] ↔ ¬ DoubledRoot path) := by
  obtain ⟨k, hpath, hsome, hlast⟩ := trimmed_spec hne
  have hwritten : written path = written (trimmed path) := by
    conv_lhs => rw [hpath]
    exact written_append_slashes _ _
  have hhead : path.head? = (trimmed path).head? := by
    conv_lhs => rw [hpath]
    exact List.head?_append_of_ne_nil _ hsome
  have hspec := strrchr_spec (trimmed path)
  have htake : path.take 2 = [SLASH, SLASH] ↔ ∃ rest, path = SLASH :: SLASH :: rest := by
    constructor
    · exact fun h => ⟨path.drop 2, by simpa [h] using (List.take_append_drop 2 path).symm⟩
    · rintro ⟨rest, rfl⟩
      rfl
  rw [Rejoins, HasDirectory, DoubledRoot, htake, basename, dirname, if_neg hne, if_neg hne,
    hwritten, hhead]
  generalize trimmed path = t at *
  split at hspec
  · -- no slash is left
    next hnone =>
    have hone := written_of_notMem hspec hsome
    have hrelative : t.head? ≠ some SLASH := fun h => hspec (List.mem_of_mem_head? h)
    rw [if_neg (fun h => hspec (by simp [h])), hnone, hone]
    refine ⟨hsome, ⟨Or.inr ⟨by simpa using hrelative, rfl, rfl⟩, ?_⟩,
      iff_of_true (by simp [DOT]) ?_⟩
    · exact iff_of_false (by simp [DOT, SLASH]) hrelative
    · rintro ⟨⟨rest, hrest⟩, -⟩
      exact hrelative (hhead ▸ hrest ▸ rfl)
  · next front back hfound =>
    obtain ⟨rfl, hback⟩ := hspec
    by_cases hroot : front ++ SLASH :: back = [SLASH]
    · -- nothing but slashes
      obtain ⟨rfl, rfl⟩ : front = [] ∧
        back = [] := by simpa [List.append_eq_singleton_iff] using hroot
      rw [if_pos hroot, hfound]
      simp
    · have hname : back ≠ [] := by
        rintro rfl
        simp_all
      have hone : written (front ++ SLASH :: back) = written front ++ [back] := by
        rw [written_append_slash, written_of_notMem hback hname]
      rw [if_neg hroot, hfound, hone]
      obtain ⟨hsame, hempty⟩ := rdropWhile_slash front
      cases front with
      | nil =>
        refine ⟨hname, ⟨Or.inl ⟨by simp, ?_⟩, by simp⟩, iff_of_true (by simp) ?_⟩
        · simp [written_of_notMem hback hname]
        · rintro ⟨⟨rest, hrest⟩, -⟩
          rw [hpath, List.nil_append, List.cons_append, List.cons.injEq,
            List.append_eq_cons_iff] at hrest
          obtain h | ⟨r, h, -⟩ := hrest.2
          · exact hname h.1
          · exact hback (by simp [h])
      | cons c rest =>
        dsimp only
        have hjoined : written ((c :: rest).rdropWhile (· == SLASH) ++ SLASH :: back) =
            written (c :: rest) ++ [back] := by
          rw [written_append_slash, hsame, written_of_notMem hback hname]
        by_cases hall : written (c :: rest) = []
        · -- the directory part is the root, and it is lost
          have hslash := (written_eq_nil_iff _).mp hall
          have hc : c = SLASH := hslash c List.mem_cons_self
          have hdoubled : ∃ r, path = SLASH :: SLASH :: r := by
            cases rest with
            | nil => exact ⟨_, hc ▸ hpath⟩
            | cons d rest => exact ⟨_, hc ▸ hslash d (by simp) ▸ hpath⟩
          refine ⟨hname, ⟨Or.inl ⟨by simp [hc], hjoined⟩, ?_⟩, ?_⟩
          · rw [hempty.mpr hall]
            simp [hc]
          · rw [hempty.mpr hall, hall]
            simp [hdoubled]
        · have hleft : (c :: rest).rdropWhile (· == SLASH) ≠ [] := fun h => hall (hempty.mp h)
          have hsize : 0 < (written (c :: rest)).length := List.length_pos_iff.mpr hall
          refine ⟨hname, ⟨Or.inl ⟨Or.inr (by simp; omega), hjoined⟩, ?_⟩, iff_of_true hleft ?_⟩
          · obtain ⟨tail, htail⟩ := List.rdropWhile_prefix (· == SLASH) (c :: rest)
            have hfirst := congrArg List.head? htail
            rw [List.head?_append_of_ne_nil _ hleft] at hfirst
            rw [List.head?_append_of_ne_nil _ hleft, hfirst]
            simp
          · rintro ⟨-, h⟩
            rw [List.length_append, List.length_singleton] at h
            omega

/-- Of `//a` the directory part is empty. -/
theorem dirname_of_doubled_root : dirname [SLASH, SLASH, 0x61] = [] := by decide

theorem dirname_basename_spec_usr : basename [SLASH, 0x61, SLASH, 0x62] ≠ [] ∧
    Rejoins [SLASH, 0x61, SLASH, 0x62] ∧ dirname [SLASH, 0x61, SLASH, 0x62] ≠ [] := by
  obtain ⟨hbase, hrejoins, hdir⟩ := dirname_basename_spec [SLASH, 0x61, SLASH, 0x62] (by decide)
  refine ⟨hbase, hrejoins, hdir.mpr ?_⟩
  unfold DoubledRoot
  decide

end ShitOs
