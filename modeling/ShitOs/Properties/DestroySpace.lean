import Mathlib.Data.Set.Basic
import ShitOs.Properties.PageMap

/-!
# Taking an address space down

`destroy_user_mappings` gives back every table of the user half, and every frame of a page that is
not `Foreign`.  `free_page` stops the machine on a frame that is free, so that it comes to an end
only if no frame is met twice.

Each of the frames has a place in the tree: a table the path to it, and the frame of a page the path
to its entry (`Lies`).  In a space whose frames are its own (`Exclusive`) no frame has two places,
and the loops of `destroy_user_mappings` go through the places in order.  The state in between is
described by the places that have been visited (`Destroys`): the frames that lie there are free, and
nothing else has changed.
-/

namespace ShitOs

open Kstd PageFlags Physical AddressSpace Program RadixTable

/-! ## Places of frames -/

/-- Where a frame of the space with root `c` lies in its tree. -/
inductive Lies (m : Machine) (c : ℕ) : ℕ → List ℕ → Prop
  | table {f : ℕ} {q : List ℕ} (hvalid : userPaths.valid q) (hne : q ≠ [])
      (hwalk : walk ENTRIES_PER_TABLE nextTable m.words c q = some f) : Lies m c f q
  | page {n : ℕ} (hn : n < USER_PAGES) (hpresent : hasFlag (leaves m.words c n) Present)
      (howned : hasFlag (leaves m.words c n) Foreign = false) :
      Lies m c (tableAt (leaves m.words c n)) (pathOf n ++ [n % 512])

/-- The frames of a space are in use, and each lies in one place. -/
structure Exclusive (m : Machine) (c : ℕ) : Prop where
  used : ∀ f q, Lies m c f q → m.pages.inUse f = true ∧ f < m.pages.totalPages
  once : ∀ f q q', Lies m c f q → Lies m c f q' → q = q'

/-- The places that begin with one of the first `k` indices after `p`. -/
def below (p : List ℕ) (k : ℕ) : Set (List ℕ) := {q | ∃ j < k, p ++ [j] <+: q}

/-- The frames at the places `D` have been given back; entries of the root may have been cleared
where their tables have. -/
structure Destroys (c : ℕ) (m : Machine) (D : Set (List ℕ)) (m' : Machine) : Prop where
  total : m'.pages.totalPages = m.pages.totalPages
  inUse : ∀ f, m'.pages.inUse f = true ↔ m.pages.inUse f = true ∧ ∀ q ∈ D, ¬Lies m c f q
  words : ∀ w, ¬(w / ENTRIES_PER_TABLE = c ∧ w % ENTRIES_PER_TABLE < 256 ∧
    [w % ENTRIES_PER_TABLE] ∈ D) →
    m'.words w = m.words w
  resident : ∀ s, s ≠ c → m'.residentPages s = m.residentPages s

section Places

variable {c f t k n : ℕ} {p q : List ℕ} {D D' : Set (List ℕ)} {own : Places} {m m' : Machine}
  {i j : ℕ}

lemma Lies.valid (h : Lies m c f q) : q ≠ [] ∧ ∀ i ∈ q, i < ENTRIES_PER_TABLE := by
  cases h with
  | table hvalid hne => exact ⟨hne, hvalid.2.1⟩
  | @page n hn =>
    refine ⟨by simp, fun i hi => ?_⟩
    obtain hi | hi := List.mem_append.mp hi
    · exact (valid_pathOf hn).2.1 i hi
    · obtain rfl := List.mem_singleton.mp hi
      exact Nat.mod_lt n (by decide)

lemma Lies.walk_ne_none (h : Lies m c f q) (hp : p <+: q) (hlen : p.length ≤ 3) :
    walk ENTRIES_PER_TABLE nextTable m.words c p ≠ none := by
  -- A walk to the end of a path has passed the beginnings of it.
  have hinit : ∀ {q : List ℕ}, p <+: q → walk ENTRIES_PER_TABLE nextTable m.words c q ≠ none →
      walk ENTRIES_PER_TABLE nextTable m.words c p ≠ none := by
    rintro _ ⟨rest, rfl⟩ hwalk hnone
    rw [walk_append, hnone] at hwalk
    exact hwalk rfl
  cases h with
  | table hvalid hne hwalk => exact hinit hp (by simp [hwalk])
  | @page n hn hpres =>
    have hpath : p <+: pathOf n :=
      List.prefix_of_prefix_length_le hp (List.prefix_append _ _) (by simpa [pathOf] using hlen)
    refine hinit hpath fun hnone => ?_
    rw [leaves_of_walk_none (List.append_nil _) hnone] at hpres
    cases hpres

lemma Lies.mem_below (h : Lies m c f q) (hp : p <+: q) : q = p ∨ q ∈ below p ENTRIES_PER_TABLE := by
  obtain ⟨rest, rfl⟩ := hp
  cases rest with
  | nil => exact .inl (List.append_nil p)
  | cons j rest =>
    exact .inr ⟨j, h.valid.2 j (by simp), rest, by simp⟩

lemma eq_of_pre (hi : p ++ [i] <+: q) (hj : p ++ [j] <+: q) : i = j := by
  have h := List.prefix_of_prefix_length_le hi hj (by simp)
  simpa using h.eq_of_length (by simp)

lemma not_mem_below_concat : p ++ [k] ∉ below p k := by
  rintro ⟨j, hj, hpre⟩
  exact absurd (eq_of_pre hpre (List.prefix_refl _)) (by omega)

lemma not_mem_below_self : p ∉ below p k := by
  rintro ⟨j, -, hpre⟩
  have := hpre.length_le
  simp at this

lemma mem_below_succ : q ∈ below p (k + 1) ↔ q ∈ below p k ∨ p ++ [k] <+: q := by
  constructor
  · rintro ⟨j, hj, hpre⟩
    obtain rfl | hne := eq_or_ne j k
    · exact .inr hpre
    · exact .inl ⟨j, by omega, hpre⟩
  · rintro (⟨j, hj, hpre⟩ | hpre)
    · exact ⟨j, by omega, hpre⟩
    · exact ⟨k, by omega, hpre⟩

/-! ## Giving frames back -/

lemma Destroys.refl : Destroys c m ∅ m where
  total := rfl
  inUse _ := by simp
  words _ _ := rfl
  resident _ _ := rfl

lemma Destroys.grow (h : Destroys c m D m') (hsub : D ⊆ D')
    (hnew : ∀ f q, Lies m c f q → q ∈ D' → q ∈ D) : Destroys c m D' m' where
  total := h.total
  inUse f := by
    rw [h.inUse]
    refine and_congr_right fun _ =>
      ⟨fun hfree q hq hlies => ?_, fun hfree q hq => hfree q (hsub hq)⟩
    exact hfree q (hnew f q hlies hq) hlies
  words w hw := h.words w fun ⟨hc, hlow, hD⟩ => hw ⟨hc, hlow, hsub hD⟩
  resident := h.resident

/-- **One frame** is given back. -/
lemma Destroys.free (h : Destroys c m D m') (hex : Exclusive m c)
    (hlies : Lies m c f q) (hq : q ∉ D) :
    Ensures (freePage f) m' (fun _ m'' => Destroys c m (insert q D) m'' ∧ m''.words = m'.words)
      (fun _ _ => False) := by
  obtain ⟨hused, hbound⟩ := hex.used f q hlies
  have hstill : m'.pages.inUse f = true :=
    (h.inUse f).mpr ⟨hused, fun q' hq' hlies' => hq (hex.once f q' q hlies' hlies ▸ hq')⟩
  obtain ⟨pages, hpages, hfrees⟩ := m'.pages.freePage_spec (h.total ▸ hbound) hstill
  rw [ensures_of_ok (a := ()) (t := { m' with pages := pages })
    (by rw [freePage, hpages]; rfl)]
  refine ⟨⟨hfrees.total.trans h.total, fun g => ?_, fun w hw => h.words w fun hw' =>
    hw ⟨hw'.1, hw'.2.1, .inr hw'.2.2⟩, h.resident⟩, rfl⟩
  obtain rfl | hne := eq_or_ne g f
  · have hfreed := hfrees.freed_one
    exact iff_of_false (by simp [hfreed]) fun h => h.2 q (Set.mem_insert _ _) hlies
  · have hsame := hfrees.others_one hne
    refine (iff_of_eq (by rw [hsame])).trans ((h.inUse g).trans (and_congr_right fun _ => ?_))
    refine ⟨fun hfree q' hq' hlies' => ?_, fun hfree q' hq' => hfree q' (.inr hq')⟩
    obtain rfl | hq' := hq'
    · -- the place of `f` is that of no other frame
      cases hlies with
      | table hvalid hne' hwalk =>
        cases hlies' with
        | table _ _ hwalk' => exact hne (Option.some.inj (hwalk'.symm.trans hwalk))
        | page hn => exact not_valid_pathOf hvalid
      | @page n hn =>
        generalize hpath : pathOf n ++ [n % 512] = q' at hlies'
        cases hlies' with
        | table hvalid => exact not_valid_pathOf (hpath ▸ hvalid)
        | @page n' hn' =>
          obtain ⟨hpath, hindex⟩ := List.append_inj' hpath rfl
          obtain rfl := eq_of_pathOf hn hn' hpath (by simpa using hindex)
          exact hne rfl
    · exact hfree q' hq' hlies'

/-- The loop over the entries of the table at `p`, none of which has been visited. -/
lemma Destroys.loop {N : ℕ} {body : ℕ → MachineM PUnit} (h : Destroys c m D m')
    (hstep : ∀ k < N, ∀ s, Destroys c m (D ∪ below p k) s →
      Ensures (body k) s (fun _ => Destroys c m (D ∪ below p (k + 1))) fun _ _ => False) :
    Ensures ((List.range N).forM body) m' (fun _ => Destroys c m (D ∪ below p N))
      fun _ _ => False := by
  have hloop := ensures_forM_range' (k := N) (fun n s => Destroys c m (D ∪ below p n) s)
    (fun n s _ hn hI => hstep n (by omega) s hI) (a := 0) (s := m') ?_
  · rwa [Nat.zero_add, ← List.range_eq_range'] at hloop
  · refine h.grow Set.subset_union_left fun f q _ hq => hq.resolve_right ?_
    rintro ⟨j, hj, -⟩
    omega

lemma Destroys.skip (h : Destroys c m (D ∪ below p k) m')
    (hempty : ∀ f q, Lies m c f q → ¬p ++ [k] <+: q) : Destroys c m (D ∪ below p (k + 1)) m' := by
  refine h.grow (Set.union_subset_union_right _ fun q hq => mem_below_succ.mpr (.inl hq))
    fun f q hlies hq => hq.imp_right fun hq => ?_
  exact (mem_below_succ.mp hq).resolve_right (hempty f q hlies)

/-- **The table behind an entry**, once everything below it has been given back. -/
lemma Destroys.table {x : MachineM PUnit} (h : Destroys c m (D ∪ below p k) m')
    (hex : Exclusive m c) (hclean : ∀ q ∈ D, ¬p <+: q) (hvalid : userPaths.valid (p ++ [k]))
    (hwalk : walk ENTRIES_PER_TABLE nextTable m.words c (p ++ [k]) = some t)
    (hinner : ∀ D : Set (List ℕ), (∀ q ∈ D, ¬p ++ [k] <+: q) → Destroys c m D m' →
      Ensures x m' (fun _ => Destroys c m (D ∪ below (p ++ [k]) ENTRIES_PER_TABLE)) fun _ _ =>
      False) : Ensures x m' (fun _ s => Ensures (freePage t) s
      (fun _ s' => Destroys c m (D ∪ below p (k + 1)) s' ∧ s'.words = s.words) fun _ _ => False)
      fun _ _ => False := by
  have hclean' : ∀ q ∈ D ∪ below p k, ¬p ++ [k] <+: q := by
    rintro q (hq | ⟨j, hj, hpre⟩) hq'
    · exact hclean q hq ((List.prefix_append _ _).trans hq')
    · exact absurd (eq_of_pre hpre hq') (by omega)
  refine (hinner _ hclean' h).imp fun _ s hs => ?_
  refine (hs.free hex (.table hvalid (by simp) hwalk) ?_).imp fun _ s' ⟨hs', hwords⟩ => ⟨?_, hwords⟩
  · rintro (hq | hq)
    · exact hclean' _ hq (List.prefix_refl _)
    · exact not_mem_below_self hq
  · refine hs'.grow ?_ fun f q hlies hq => ?_
    · rintro q (rfl | (hq | hq) | ⟨j, hj, hpre⟩)
      · exact .inr (mem_below_succ.mpr (.inr (List.prefix_refl _)))
      · exact .inl hq
      · exact .inr (mem_below_succ.mpr (.inl hq))
      · exact .inr (mem_below_succ.mpr (.inr ((List.prefix_append _ _).trans hpre)))
    · obtain hq | hq := hq
      · exact .inr (.inl (.inl hq))
      · obtain hq | hq := mem_below_succ.mp hq
        · exact .inr (.inl (.inr hq))
        · exact (hlies.mem_below hq).imp id .inr

/-! ## The loops -/

variable (htab : Tables own m) (hc : own c = some (c, [])) (hex : Exclusive m c)

include htab hc

lemma Destroys.entry_eq (h : Destroys c m D m') (hvalid : userPaths.valid p) (hne : p ≠ [])
    (hwalk : walk ENTRIES_PER_TABLE nextTable m.words c p = some t) (hk : k < ENTRIES_PER_TABLE) :
    m'.entry t k = m.entry t k := by
  refine h.words _ fun ⟨heq, _⟩ => hne ?_
  rw [slot_div hk] at heq
  subst heq
  cases hc.symm.trans (htab.own_walk hc hvalid hwalk)
  rfl

section

variable (hvalid : userPaths.valid (p ++ [k]))
  (hwalk : walk ENTRIES_PER_TABLE nextTable m.words c p = some t)
include hvalid hwalk

lemma walk_of_absent (habs : hasFlag (m.entry t k) Present = false) :
    walk ENTRIES_PER_TABLE nextTable m.words c (p ++ [k]) = none := by
  have hown := htab.own_walk hc (userPaths.init hvalid) hwalk
  have hnext : nextTable (m.words (slot ENTRIES_PER_TABLE t k)) = none := by
    change nextTable (m.entry t k) = none
    rw [htab.nextTable_eq hown hvalid, if_neg (by simp [habs])]
  rw [walk_append, hwalk, Option.bind_some, walk, hnext]
  rfl

lemma walk_of_present (hpres : hasFlag (m.entry t k) Present) :
    walk ENTRIES_PER_TABLE nextTable m.words c (p ++ [k]) = some (tableAt (m.entry t k)) := by
  have hown := htab.own_walk hc (userPaths.init hvalid) hwalk
  refine walk_concat.mpr ⟨t, hwalk, ?_⟩
  change nextTable (m.entry t k) = _
  rw [htab.nextTable_eq hown hvalid, if_pos hpres]

lemma empty_of_absent (habs : hasFlag (m.entry t k) Present = false) (f : ℕ) (q : List ℕ)
    (hlies : Lies m c f q) : ¬p ++ [k] <+: q := fun hpre =>
  hlies.walk_ne_none hpre hvalid.1 (walk_of_absent htab hc hvalid hwalk habs)

end

include hex

lemma ensures_destroyPt (hn : n < USER_PAGES)
    (hwalk : walk ENTRIES_PER_TABLE nextTable m.words c (pathOf n) = some t)
    (hclean : ∀ q ∈ D, ¬pathOf n <+: q) (h : Destroys c m D m') :
    Ensures (destroyPt t) m' (fun _ => Destroys c m (D ∪ below (pathOf n) ENTRIES_PER_TABLE))
      fun _ _ => False := by
  refine h.loop fun k hk s hs => ?_
  -- the page of the entry
  obtain ⟨n', hn', hpath, hindex⟩ : ∃ n' < USER_PAGES, pathOf n' = pathOf n ∧ n' % 512 = k := by
    unfold USER_PAGES at hn
    unfold ENTRIES_PER_TABLE at hk
    refine ⟨n / 512 * 512 + k, ?_, ?_, by omega⟩
    · unfold USER_PAGES
      omega
    · simp only [pathOf, List.cons.injEq, and_true]
      omega
  rw [← hpath] at hwalk
  have hentry : s.entry t k = leaves m.words c n' := by
    rw [hs.entry_eq htab hc (valid_pathOf hn') (by simp [pathOf]) hwalk hk,
      leaves_of_walk hn' hwalk, hindex]
  simp only [ensures_bind, ensures_get, ensures_ite, ensures_pure, hentry]
  refine ⟨?_, fun hnone => hs.skip fun f q hlies hpre => hnone ?_⟩
  · rintro ⟨hpres, hown⟩
    have hlies : Lies m c (tableAt (leaves m.words c n')) (pathOf n ++ [k]) := by
      rw [← hpath, ← hindex]
      exact .page hn' hpres (by simpa using hown)
    refine (hs.free hex hlies ?_).imp fun _ s' hs' => hs'.1.grow ?_ fun f q hlies' hq => ?_
    · rintro (hq | hq)
      · exact hclean _ hq (List.prefix_append _ _)
      · exact not_mem_below_concat hq
    · rintro q (rfl | hq | hq)
      · exact .inr (mem_below_succ.mpr (.inr (List.prefix_refl _)))
      · exact .inl hq
      · exact .inr (mem_below_succ.mpr (.inl hq))
    · obtain hq | hq := hq
      · exact .inr (.inl hq)
      · obtain hq | hq := mem_below_succ.mp hq
        · exact .inr (.inr hq)
        · refine .inl (hq.eq_of_length_le ?_).symm
          cases hlies' with
          | table hvalid => exact hvalid.1.trans (by simp [pathOf])
          | page => simp [pathOf]
  · cases hlies with
    | table hvalid =>
      obtain ⟨rest, rfl⟩ := hpre
      exact (not_valid_pathOf (userPaths.of_append hvalid)).elim
    | @page n'' hn'' hpres hown =>
      have heq := hpre.eq_of_length (by simp [pathOf])
      obtain ⟨hpath', hindex'⟩ := List.append_inj' heq rfl
      obtain rfl := eq_of_pathOf hn' hn'' (hpath.trans hpath')
        (hindex.trans (by simpa using hindex'))
      exact ⟨hpres, by simp [hown]⟩

lemma ensures_destroyPd (hvalid : userPaths.valid [i, j])
    (hwalk : walk ENTRIES_PER_TABLE nextTable m.words c [i, j] = some t)
    (hclean : ∀ q ∈ D, ¬[i, j] <+: q) (h : Destroys c m D m') :
    Ensures (destroyPd t) m' (fun _ => Destroys c m (D ∪ below [i, j] ENTRIES_PER_TABLE))
      fun _ _ => False := by
  refine h.loop fun k hk s hs => ?_
  have hi : i < 256 := hvalid.2.2 i rfl
  have hj : j < ENTRIES_PER_TABLE := hvalid.2.1 j (by simp)
  unfold ENTRIES_PER_TABLE at hj hk
  obtain ⟨n, hn, hpath⟩ : ∃ n < USER_PAGES, pathOf n = [i, j] ++ [k] := by
    refine ⟨i * 2 ^ 27 + j * 2 ^ 18 + k * 2 ^ 9, ?_, ?_⟩
    · unfold USER_PAGES
      omega
    · simp only [pathOf, List.cons_append, List.nil_append, List.cons.injEq, and_true]
      omega
  have hvalid' : userPaths.valid ([i, j] ++ [k]) := hpath ▸ valid_pathOf hn
  have hsmall := htab.small t c [i, j] k (htab.own_walk hc hvalid hwalk) hvalid'
  simp only [ensures_bind, ensures_get, ensures_ite, ensures_pure,
    hs.entry_eq htab hc hvalid (by simp) hwalk (userPaths.index hvalid')]
  refine ⟨?_, fun hnone => hs.skip (empty_of_absent htab hc hvalid' hwalk ?_)⟩
  · rintro ⟨hpres, -⟩
    have hwalk' := walk_of_present htab hc hvalid' hwalk hpres
    refine (hs.table hex hclean hvalid' hwalk' fun D hclean' hD => ?_).imp
      (fun _ s' hs' => hs'.imp (fun _ _ hd => hd.1))
    rw [← hpath] at hwalk' hclean' ⊢
    exact ensures_destroyPt htab hc hex hn hwalk' hclean' hD
  · by_contra hpres
    have hpres : hasFlag (m.entry t k) Present = true := by simpa using hpres
    exact hnone ⟨hpres, by simp [hsmall hpres]⟩

lemma ensures_destroyPdpt (hvalid : userPaths.valid [i])
    (hwalk : walk ENTRIES_PER_TABLE nextTable m.words c [i] = some t)
    (hclean : ∀ q ∈ D, ¬[i] <+: q) (h : Destroys c m D m') :
    Ensures (destroyPdpt t) m' (fun _ => Destroys c m (D ∪ below [i] ENTRIES_PER_TABLE))
      fun _ _ => False := by
  refine h.loop fun k hk s hs => ?_
  have hi : i < 256 := hvalid.2.2 i rfl
  have hvalid' : userPaths.valid ([i] ++ [k]) := by
    refine ⟨by simp, fun x hx => ?_, fun x hx => ?_⟩
    · obtain rfl | rfl : x = i ∨ x = k := by simpa using hx
      · exact hi.trans (by decide)
      · exact hk
    · obtain rfl : i = x := by simpa using hx
      exact hi
  simp only [ensures_bind, ensures_get, ensures_ite, ensures_pure,
    hs.entry_eq htab hc hvalid (by simp) hwalk hk]
  refine ⟨fun hpres => ?_, fun hnone =>
    hs.skip (empty_of_absent htab hc hvalid' hwalk (by simpa using hnone))⟩
  have hwalk' := walk_of_present htab hc hvalid' hwalk hpres
  exact (hs.table hex hclean hvalid' hwalk' fun D hclean' hD =>
    ensures_destroyPd htab hc hex hvalid' hwalk' hclean' hD).imp
    (fun _ s' hs' => hs'.imp (fun _ _ hd => hd.1))

/-- **`destroy_user_mappings`** comes to an end, and then the frames of the space are free, and no
others. -/
lemma ensures_destroyUserMappings :
    Ensures (destroyUserMappings c) m (fun _ => Destroys c m Set.univ) fun _ _ => False := by
  have hloop : Ensures ((List.range 256).forM fun pml4Index => do
      let pml4Entry := (← get).entry c pml4Index
      if hasFlag pml4Entry Present then
        destroyPdpt (tableAt pml4Entry)
        freePage (tableAt pml4Entry)
        modify fun m => m.setEntry c pml4Index 0) m (fun _ => Destroys c m (∅ ∪ below [] 256))
      fun _ _ => False := by
    refine Destroys.refl.loop fun k hk s hs => ?_
    have hlt : k < ENTRIES_PER_TABLE := hk.trans (by decide)
    have hvalid : userPaths.valid ([] ++ [k]) := by
      refine ⟨by simp, fun x hx => ?_, fun x hx => ?_⟩
      · obtain rfl : x = k := by simpa using hx
        exact hlt
      · obtain rfl : k = x := by simpa using hx
        exact hk
    have hentry : s.entry c k = m.entry c k := by
      refine hs.words _ ?_
      rintro ⟨-, -, hmem⟩
      rw [slot_mod hlt] at hmem
      exact not_mem_below_concat (hmem.resolve_left (Set.notMem_empty _))
    simp only [ensures_bind, ensures_get, ensures_ite, ensures_pure, ensures_modify, hentry]
    refine ⟨fun hpres => ?_, fun hnone =>
      hs.skip (empty_of_absent htab hc hvalid rfl (by simpa using hnone))⟩
    have hwalk := walk_of_present htab hc hvalid rfl hpres
    refine (hs.table hex (by simp) hvalid hwalk fun D hclean hD =>
      ensures_destroyPdpt htab hc hex hvalid hwalk hclean hD).imp
      (fun _ s₁ hs₁ => hs₁.imp (fun _ s₂ h₂ => ?_))
    obtain ⟨hs₂, -⟩ := h₂
    refine ⟨hs₂.total, hs₂.inUse, fun w hw => ?_, hs₂.resident⟩
    rw [Machine.words_setEntry, hs₂.words w hw]
    rintro rfl
    refine hw ⟨slot_div hlt, by rwa [slot_mod hlt], .inr ?_⟩
    rw [slot_mod hlt]
    exact mem_below_succ.mpr (.inr (List.prefix_refl _))
  unfold destroyUserMappings
  rw [ensures_bind]
  refine hloop.imp fun _ s hs => ensures_modify.mpr ?_
  have hall := hs.grow (Set.subset_univ _) fun f q hlies _ => ?_
  · exact ⟨hall.total, hall.inUse, hall.words, fun r hr =>
      (Function.update_of_ne hr ..).trans (hall.resident r hr)⟩
  · cases q with
    | nil => exact absurd rfl hlies.valid.1
    | cons i rest =>
      refine .inr ⟨i, ?_, rest, rfl⟩
      generalize hq : i :: rest = q at hlies
      cases hlies with
      | table hvalid => exact hvalid.2.2 i (by rw [← hq]; rfl)
      | page hn =>
        obtain ⟨rfl, -⟩ := List.cons.inj hq
        exact (valid_pathOf hn).2.2 _ rfl

end Places

end ShitOs
