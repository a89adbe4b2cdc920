import ShitOs.Construction.Vfs
import Mathlib.Data.List.Basic

/-!
# Paths

Two pieces of code take a path apart.  `resolve` goes through it from the front, component by
component; `resolve_parent` looks for the last slash that something follows.

What is *written* in a path is the list of what stands between its slashes.  `resolve` sees that
list, each component cut to the length of a name (`components_eq`).  `resolve_parent` walks along
the same list up to the last component, from the same place (`resolveParent_eq`), and then hands
over what follows the last slash.  This is the last component, except that a slash at the end of the
path is still there (`finalPart_shape`), and `EndsInName` says when this makes no difference.
-/

namespace ShitOs

variable {name path tail : Text} {cs : List Text} {k : ℕ}

/-! ## Taking a path apart -/

/-- The components of a path as they are written in it. -/
def written (path : Text) : List Text := (path.splitOn SLASH).filter (· ≠ [])

/-- What `resolve` and `resolve_parent` keep of a name. -/
def cut (name : Text) : Text := name.take (FILENAME_MAX_LENGTH - 1)

@[simp] lemma written_nil : written [] = [] := rfl

lemma written_append_slash (front rest : Text) :
    written (front ++ SLASH :: rest) = written front ++ written rest := by
  unfold written List.splitOn
  rw [List.splitOnP_append_cons (p := (· == SLASH)) _ _ (beq_self_eq_true SLASH),
    List.filter_append]

@[simp] lemma written_slash_cons (rest : Text) : written (SLASH :: rest) = written rest := by
  simpa using written_append_slash [] rest

lemma written_of_notMem (hname : SLASH ∉ name) (hne : name ≠ []) : written name = [name] := by
  have hnone : ∀ x ∈ name, (x == SLASH) = false := fun x hx =>
    beq_false_of_ne fun he => hname (he ▸ hx)
  simp [written, List.splitOn, List.splitOnP_eq_singleton hnone, hne]

lemma written_dropWhile_slash (path : Text) :
    written (path.dropWhile (· == SLASH)) = written path := by
  induction path with
  | nil => rfl
  | cons byte rest ih =>
    by_cases hbyte : byte = SLASH
    · rw [List.dropWhile_cons_of_pos (by simpa using hbyte), ih, hbyte, written_slash_cons]
    · rw [List.dropWhile_cons_of_neg (by simpa using hbyte)]

lemma takeWhile_ne_nil (hne : path ≠ []) (hhead : path.head? ≠ some SLASH) :
    path.takeWhile (· != SLASH) ≠ [] := by
  cases path with
  | nil => exact absurd rfl hne
  | cons byte rest =>
    have hbyte : byte ≠ SLASH := fun he => hhead (by simp [he])
    simp [hbyte]

lemma written_of_head (hne : path ≠ []) (hhead : path.head? ≠ some SLASH) : written path =
      path.takeWhile (· != SLASH) :: written (path.dropWhile (· != SLASH)) := by
  have hsplit := List.takeWhile_append_dropWhile (p := (· != SLASH)) (l := path)
  have hfree : SLASH ∉ path.takeWhile (· != SLASH) := fun hmem => by
    simpa using List.all_eq_true.mp List.all_takeWhile SLASH hmem
  have hsome := takeWhile_ne_nil hne hhead
  cases hrest : path.dropWhile (· != SLASH) with
  | nil =>
    rw [hrest, List.append_nil] at hsplit
    rw [hsplit] at hfree hsome ⊢
    exact written_of_notMem hfree hsome
  | cons byte rest =>
    have hbyte : byte = SLASH := by
      have := List.head_dropWhile_not (· != SLASH) (l := path) (by simp [hrest])
      simpa [hrest] using this
    rw [hrest, hbyte] at hsplit
    conv_lhs => rw [← hsplit]
    rw [written_append_slash, written_of_notMem hfree hsome, hbyte, written_slash_cons]
    rfl

lemma componentsWithin_eq {fuel : ℕ} (hfuel : path.length ≤ fuel) :
    componentsWithin fuel path = (written path).map cut := by
  induction fuel generalizing path with
  | zero =>
    obtain rfl : path = [] := List.length_eq_zero_iff.mp (Nat.le_zero.mp hfuel)
    rfl
  | succ fuel ih =>
    unfold componentsWithin nextComponent
    have hwritten := written_dropWhile_slash path
    have hlen : (path.dropWhile (· == SLASH)).length ≤ path.length :=
      (List.dropWhile_suffix _).length_le
    by_cases hrest : path.dropWhile (· == SLASH) = []
    · rw [if_pos hrest, ← hwritten, hrest]
      rfl
    · have hhead : (path.dropWhile (· == SLASH)).head? ≠ some SLASH := by
        have := List.head_dropWhile_not (· == SLASH) hrest
        rw [List.head?_eq_some_head hrest]
        simpa using this
      have hshort : ((path.dropWhile (· == SLASH)).dropWhile (· != SLASH)).length ≤ fuel := by
        have hcut := congrArg List.length
          (List.takeWhile_append_dropWhile (p := (· != SLASH)) (l := path.dropWhile (· == SLASH)))
        have hpos := List.length_pos_iff.mpr (takeWhile_ne_nil hrest hhead)
        rw [List.length_append] at hcut
        omega
      rw [if_neg hrest, ← hwritten, written_of_head hrest hhead]
      exact congrArg _ (ih hshort)

/-- The loop of `resolve` sees what is written, each component cut to the length of a name. -/
lemma components_eq (path : Text) : components path = (written path).map cut :=
  componentsWithin_eq (Nat.le_refl _)

lemma mem_components {c : Text} (hc : c ∈ components path) :
    c ≠ [] ∧ SLASH ∉ c ∧ c.length < FILENAME_MAX_LENGTH := by
  unfold components at hc
  generalize path.length = fuel at hc
  induction fuel generalizing path with
  | zero => cases hc
  | succ fuel ih =>
    unfold componentsWithin nextComponent at hc
    by_cases hrest : path.dropWhile (· == SLASH) = []
    · simp [hrest] at hc
    rw [if_neg hrest, List.mem_cons] at hc
    obtain rfl | hc := hc
    · have hhead : (path.dropWhile (· == SLASH)).head? ≠ some SLASH := by
        have := List.head_dropWhile_not (· == SLASH) hrest
        rw [List.head?_eq_some_head hrest]
        simpa using this
      refine ⟨?_, fun hmem => ?_, ?_⟩
      · simpa [FILENAME_MAX_LENGTH] using takeWhile_ne_nil hrest hhead
      · simpa using List.all_eq_true.mp List.all_takeWhile SLASH (List.mem_of_mem_take hmem)
      · rw [List.length_take, FILENAME_MAX_LENGTH]
        omega
    · exact ih hc

/-! ## Names in a row -/

/-- A component that leads down. -/
def IsName (c : Text) : Prop :=
  (c ≠ [] ∧ SLASH ∉ c ∧ c.length < FILENAME_MAX_LENGTH) ∧ c ≠ DOT ∧ c ≠ DOT_DOT

/-- The path with these components. -/
def render (cs : List Text) : Text := cs.flatMap (SLASH :: ·)

lemma written_render (hcs : ∀ c ∈ cs, IsName c) : written (render cs) = cs := by
  induction cs with
  | nil => rfl
  | cons c cs ih =>
    have ih := ih fun c hc => hcs c (List.mem_cons_of_mem _ hc)
    obtain ⟨⟨hne, hfree, -⟩, -⟩ := hcs c List.mem_cons_self
    rw [render, List.flatMap_cons, List.cons_append, written_slash_cons]
    cases cs with
    | nil =>
      rw [List.flatMap_nil, List.append_nil]
      exact written_of_notMem hfree hne
    | cons d cs =>
      rw [render, List.flatMap_cons, List.cons_append, written_slash_cons] at ih
      rw [List.flatMap_cons, List.cons_append, written_append_slash, ih,
        written_of_notMem hfree hne]
      rfl

lemma components_render (hcs : ∀ c ∈ cs, IsName c) : components (render cs) = cs := by
  rw [components_eq, written_render hcs]
  refine (List.map_congr_left fun c hc => ?_).trans (List.map_id cs)
  have hshort := (hcs c hc).1.2.2
  exact List.take_of_length_le (by omega)

/-! ## The last component -/

/-- What follows the last slash that something follows. -/
def finalPart (path : Text) : Text :=
  match lastSlash path with
  | none => path
  | some k => path.drop (k + 1)

/-- What stands before that slash. -/
def directoryPart (path : Text) : Text :=
  match lastSlash path with
  | none => []
  | some k => path.take k

/-- A name and at most one slash: what is left when no slash has anything after it. -/
lemma eq_name_of_lastSlash_eq_none (hlast : lastSlash path = none) :
    ∃ name tail, path = name ++ tail ∧ SLASH ∉ name ∧ (tail = [] ∨ tail = [SLASH]) := by
  induction path with
  | nil => exact ⟨[], [], rfl, by simp, Or.inl rfl⟩
  | cons byte rest ih =>
    unfold lastSlash at hlast
    split at hlast
    · cases hlast
    · next hrest =>
        split_ifs at hlast with hbyte
        obtain ⟨name, tail, rfl, hname, htail⟩ := ih hrest
        by_cases hslash : byte = SLASH
        · have hempty : name ++ tail = [] := by
            by_contra hne
            exact hbyte ⟨hslash, hne⟩
          exact ⟨[], [SLASH], by simp [hempty, hslash], by simp, Or.inr rfl⟩
        · exact ⟨byte :: name, tail, rfl, by simp [hname, Ne.symm hslash], htail⟩

/-- The last slash that something follows cuts the path in two, and the second part is a name and
at most one slash. -/
lemma eq_append_of_lastSlash_eq_some (hlast : lastSlash path = some k) :
    ∃ directory final, path = directory ++ SLASH :: final ∧ directory.length = k ∧ final ≠ [] ∧
      lastSlash final = none := by
  induction path generalizing k with
  | nil => cases hlast
  | cons byte rest ih =>
    unfold lastSlash at hlast
    split at hlast
    · next j hrest =>
        obtain ⟨directory, final, rfl, hlen, hfinal, hnone⟩ := ih hrest
        obtain rfl : j + 1 = k := by simpa using hlast
        exact ⟨byte :: directory, final, rfl, by simp [hlen], hfinal, hnone⟩
    · next hrest =>
        split_ifs at hlast with hbyte
        obtain rfl : 0 = k := by simpa using hlast
        exact ⟨[], rest, by simp [hbyte.1], rfl, hbyte.2, hrest⟩

lemma eq_directoryPart_append (hlast : lastSlash path = some k) :
    path = directoryPart path ++ SLASH :: finalPart path ∧ (directoryPart path).length = k ∧
      lastSlash (finalPart path) = none := by
  obtain ⟨directory, final, hpath, hlen, -, hnone⟩ := eq_append_of_lastSlash_eq_some hlast
  have hdir : directoryPart path = directory := by
    simp only [directoryPart, hlast]
    rw [hpath, ← hlen, List.take_left]
  have hfinal : finalPart path = final := by
    simp only [finalPart, hlast]
    rw [hpath, ← hlen, ← List.drop_drop, List.drop_left]
    rfl
  rw [hdir, hfinal]
  exact ⟨hpath, hlen, hnone⟩

lemma written_eq (path : Text) :
    written path = written (directoryPart path) ++ written (finalPart path) := by
  cases hlast : lastSlash path with
  | none => simp [directoryPart, finalPart, hlast]
  | some k =>
    conv_lhs => rw [(eq_directoryPart_append hlast).1]
    exact written_append_slash _ _

/-- The last component of a path is a name, perhaps with a slash behind it. -/
lemma finalPart_shape (path : Text) :
    ∃ name tail, finalPart path = name ++ tail ∧ SLASH ∉ name ∧ (tail = [] ∨ tail = [SLASH]) := by
  cases hlast : lastSlash path with
  | none =>
    simp only [finalPart, hlast]
    exact eq_name_of_lastSlash_eq_none hlast
  | some k =>
    exact eq_name_of_lastSlash_eq_none (eq_directoryPart_append hlast).2.2

/-- A path that ends in a name: something follows its last slash, and no slash follows that within
the length of a name. -/
def EndsInName (path : Text) : Prop := finalPart path ≠ [] ∧ SLASH ∉ cut (finalPart path)

instance (path : Text) : Decidable (EndsInName path) := inferInstanceAs (Decidable (_ ∧ _))

/-- Without its name a path ends where the directory is. -/
lemma written_final (hname : SLASH ∉ name) (htail : tail = [] ∨ tail = [SLASH]) :
    written (name ++ tail) = if name = [] then [] else [name] := by
  have htail' : written (name ++ tail) = written name := by
    obtain rfl | rfl := htail
    · rw [List.append_nil]
    · simpa using written_append_slash name []
  rw [htail']
  split_ifs with hempty
  · rw [hempty, written_nil]
  · exact written_of_notMem hname hempty

/-- The name `create` is given is the component `resolve` looks for exactly when the path ends in a
name. -/
lemma cut_final (hname : SLASH ∉ name) (htail : tail = [] ∨ tail = [SLASH]) :
    cut (name ++ tail) = cut name ↔ SLASH ∉ cut (name ++ tail) := by
  constructor
  · intro heq hmem
    rw [heq] at hmem
    exact hname (List.mem_of_mem_take hmem)
  · intro hfree
    obtain rfl | rfl := htail
    · rw [List.append_nil]
    · unfold cut at hfree ⊢
      by_cases hlong : FILENAME_MAX_LENGTH - 1 ≤ name.length
      · rw [List.take_append_of_le_length hlong]
      · refine absurd ?_ hfree
        rw [List.take_of_length_le (by simp; omega)]
        simp

namespace Vfs

variable {s s' : Vfs} {base : Option ℕ} {cs ds : List Text} {n : ℕ} {final path tail : Text}

/-! ## Both ways to the directory -/

lemma walk_append_of_ok {m : ℕ} (hwalk : s.walk cs n = .ok m) :
    s.walk (cs ++ ds) n = s.walk ds m := by
  induction cs generalizing n with
  | nil =>
    obtain rfl : n = m := by simpa [walk] using hwalk
    rfl
  | cons c cs ih =>
    simp only [List.cons_append, walk] at hwalk ⊢
    split at hwalk
    · cases hwalk
    · exact ih hwalk

lemma walk_append_of_error {e : Errno} (hwalk : s.walk cs n = .error e) :
    s.walk (cs ++ ds) n = .error e := by
  induction cs generalizing n with
  | nil => cases hwalk
  | cons c cs ih =>
    simp only [List.cons_append, walk] at hwalk ⊢
    split at hwalk
    · exact hwalk
    · exact ih hwalk

/-- Where both `resolve` and `resolve_parent` begin. -/
def origin (s : Vfs) (path : Text) (base : Option ℕ) : ℕ := s.followMount (s.startOf path base)

/-- `resolve_parent` walks along the directory part, from where `resolve` begins. -/
lemma resolveParent_eq (s : Vfs) (path : Path) (base : Option ℕ) : s.resolveParent path.bytes base =
      (s.walk (components (directoryPart path.bytes)) (s.origin path.bytes base)).map
        fun parent => (parent, cut (finalPart path.bytes)) := by
  unfold resolveParent
  cases hlast : lastSlash path.bytes with
  | none =>
    simp only [directoryPart, finalPart, hlast]
    rfl
  | some k =>
    obtain ⟨hpath, hlen, -⟩ := eq_directoryPart_append hlast
    have hk : min k (PATH_MAX_LENGTH - 1) = k := by
      have hfits := path.fits
      rw [hpath, List.length_append, hlen, List.length_cons] at hfits
      omega
    have hdir : path.bytes.take k = directoryPart path.bytes := by
      simp only [directoryPart, hlast]
    have hfinal : path.bytes.drop (k + 1) = finalPart path.bytes := by
      simp only [finalPart, hlast]
    simp only [hk, hdir, hfinal]
    split_ifs with hempty
    · have hnil := List.length_eq_zero_iff.mp hempty
      have hhead : path.bytes.head? = some SLASH := by
        rw [hpath, hnil]
        rfl
      simp only [hnil, origin, startOf, hhead, if_true]
      rfl
    · have hstart : s.startOf (directoryPart path.bytes) base = s.startOf path.bytes base := by
        have hhead : path.bytes.head? = (directoryPart path.bytes).head? := by
          conv_lhs => rw [hpath]
          rw [List.head?_append_of_ne_nil _ fun hnil => hempty (by simp [hnil])]
        simp only [startOf, hhead]
      unfold resolve origin
      rw [hstart]
      split <;> next hwalk => rw [hwalk]; rfl

lemma resolve_eq (s : Vfs) (path : Text) (base : Option ℕ) : s.resolve path base =
      s.walk (components (directoryPart path) ++ components (finalPart path))
        (s.origin path base) := by
  unfold resolve origin
  rw [components_eq path, written_eq, List.map_append, ← components_eq, ← components_eq]

lemma resolveParent_eq_ok {path : Path} {d : ℕ} {name : Text}
    (hpar : s.resolveParent path.bytes base = .ok (d, name)) :
    s.walk (components (directoryPart path.bytes)) (s.origin path.bytes base) = .ok d ∧
      name = cut (finalPart path.bytes) := by
  rw [resolveParent_eq] at hpar
  cases hwalk : s.walk (components (directoryPart path.bytes)) (s.origin path.bytes base) with
  | error e => simp [hwalk, Except.map] at hpar
  | ok d' =>
    obtain ⟨rfl, rfl⟩ : d' = d ∧ cut (finalPart path.bytes) = name := by
      simpa [hwalk, Except.map] using hpar
    exact ⟨rfl, rfl⟩

lemma components_final (hfinal : finalPart path = final ++ tail)
    (hfree : SLASH ∉ final) (htail : tail = [] ∨ tail = [SLASH]) :
    components (finalPart path) = if final = [] then [] else [cut final] := by
  rw [components_eq, hfinal, written_final hfree htail]
  split_ifs <;> rfl

lemma endsInName_iff (hfinal : finalPart path = final ++ tail)
    (hfree : SLASH ∉ final) (htail : tail = [] ∨ tail = [SLASH]) :
    EndsInName path ↔ final ≠ [] ∧ cut (finalPart path) = cut final := by
  unfold EndsInName
  rw [hfinal, cut_final hfree htail]
  constructor
  · rintro ⟨hne, hslash⟩
    refine ⟨?_, hslash⟩
    rintro rfl
    obtain rfl | rfl := htail
    · exact hne rfl
    · exact hslash (by decide)
  · rintro ⟨hne, hslash⟩
    exact ⟨by simp [hne], hslash⟩

end Vfs
end ShitOs
