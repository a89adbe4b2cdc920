import Mathlib.Tactic.Common

/-!
# Programs that may fail, and what they ensure

A `Program` works on a state: it stops the machine (`none`), or comes to a state with an error or a
value.  A failing call keeps the changes it has made so far, and `tryCatch` is the caller that looks
at the error.

`Ensures x s Q E` says that `x`, started in `s`, does not stop the machine, and what then holds: `Q`
of the value and the state if it returns, `E` of the error and the state if it fails.  It is a
weakest precondition, and has one rule for each way to build a program.  The rules are equivalences,
tagged for `simp`, so that a program without loops is taken apart by `simp`; `ensures_forM_range'`
is the invariant rule for loops.

`Returns x s Q` is the weaker statement that leaves open whether `x` returns: if it does, then with
`Q`.
-/

namespace ShitOs

/-- A program on states `σ` that may stop, fail with an `ε` or return an `α`. -/
abbrev Program (σ ε α : Type) := ExceptT ε (StateT σ Option) α

namespace Program

variable {σ τ ε α β : Type} {x y : Program σ ε α} {a : α} {t : σ} {e : ε} {c : Prop}
  {f : α → Program σ ε PUnit}

/-- The machine stops. -/
def halt : Program σ ε α := fun _ => none

/-- Runs a program on a part of the state. -/
def zoom (part : σ → τ) (put : τ → σ → σ) (x : Program τ ε α) : Program σ ε α := fun s =>
  (x (part s)).map fun r => (r.1, put r.2 s)

/-- The program does not stop the machine, and this holds when it has come to an end. -/
@[irreducible] def Ensures (x : Program σ ε α) (s : σ) (Q : α → σ → Prop) (E : ε → σ → Prop) :
    Prop :=
  match x s with
  | none => False
  | some (.ok a, s') => Q a s'
  | some (.error e, s') => E e s'

variable {s : σ} {Q Q' : α → σ → Prop} {E E' : ε → σ → Prop}

lemma ensures_iff : Ensures x s Q E ↔
    (∃ a s', x s = some (.ok a, s') ∧ Q a s') ∨ ∃ e s', x s = some (.error e, s') ∧ E e s' := by
  unfold Ensures
  rcases x s with _ | ⟨_ | _, _⟩ <;> simp

lemma Ensures.mono (h : Ensures x s Q E) (hQ : ∀ a s', Q a s' → Q' a s')
    (hE : ∀ e s', E e s' → E' e s') : Ensures x s Q' E' := by
  rcases ensures_iff.mp h with ⟨a, s', hx, ha⟩ | ⟨e, s', hx, he⟩
  · exact ensures_iff.mpr (.inl ⟨a, s', hx, hQ a s' ha⟩)
  · exact ensures_iff.mpr (.inr ⟨e, s', hx, hE e s' he⟩)

lemma Ensures.imp (h : Ensures x s Q E) (hQ : ∀ a s', Q a s' → Q' a s') : Ensures x s Q' E :=
  h.mono hQ fun _ _ => id

/-! ## One rule for each way to build a program -/

lemma ensures_of_ok (h : x s = some (.ok a, t)) : Ensures x s Q E ↔ Q a t := by
  rw [Ensures, h]

lemma ensures_of_error (h : x s = some (.error e, t)) : Ensures x s Q E ↔ E e t := by
  rw [Ensures, h]

@[simp] lemma ensures_pure : Ensures (pure a : Program σ ε α) s Q E ↔ Q a s :=
  ensures_of_ok rfl

@[simp] lemma ensures_throw : Ensures (throw e : Program σ ε α) s Q E ↔ E e s :=
  ensures_of_error rfl

@[simp] lemma ensures_get {Q : σ → σ → Prop} : Ensures (get : Program σ ε σ) s Q E ↔ Q s s :=
  ensures_of_ok rfl

@[simp] lemma ensures_modify {f : σ → σ} {Q : PUnit → σ → Prop} :
    Ensures (modify f : Program σ ε PUnit) s Q E ↔ Q ⟨⟩ (f s) := ensures_of_ok rfl

/-! ## What the parts compute -/

lemma pure_apply (a : α) (s : σ) : (pure a : Program σ ε α) s = some (.ok a, s) := rfl

lemma throw_apply (e : ε) (s : σ) : (throw e : Program σ ε α) s = some (.error e, s) := rfl

lemma get_apply (s : σ) : (get : Program σ ε σ) s = some (.ok s, s) := rfl

lemma bind_apply (x : Program σ ε α) (f : α → Program σ ε β) (s : σ) :
    (x >>= f) s = (x s).bind fun r => match r.1 with
      | .ok a => f a r.2
      | .error e => some (.error e, r.2) := by
  change (x s).bind _ = _
  refine congrArg _ (funext fun r => ?_)
  obtain ⟨r, s'⟩ := r
  cases r <;> rfl

@[simp] lemma ensures_bind {f : α → Program σ ε β} {Q : β → σ → Prop} :
    Ensures (x >>= f) s Q E ↔ Ensures x s (fun a s' => Ensures (f a) s' Q E) E := by
  unfold Ensures
  rw [bind_apply]
  rcases x s with _ | ⟨_ | _, _⟩ <;> rfl

@[simp] lemma ensures_map {f : α → β} {Q : β → σ → Prop} :
    Ensures (f <$> x) s Q E ↔ Ensures x s (fun a s' => Q (f a) s') E := by
  rw [← bind_pure_comp, ensures_bind]
  simp

lemma tryCatch_apply (x : Program σ ε α) (h : ε → Program σ ε α) (s : σ) :
    (tryCatch x h) s = (x s).bind fun r => match r.1 with
      | .ok a => some (.ok a, r.2)
      | .error e => h e r.2 := by
  change (x s).bind _ = _
  refine congrArg _ (funext fun r => ?_)
  obtain ⟨r, s'⟩ := r
  cases r <;> rfl

@[simp] lemma ensures_tryCatch {h : ε → Program σ ε α} :
    Ensures (tryCatch x h) s Q E ↔ Ensures x s Q fun e s' => Ensures (h e) s' Q E := by
  unfold Ensures
  rw [tryCatch_apply]
  rcases x s with _ | ⟨_ | _, _⟩ <;> rfl

@[simp] lemma ensures_ite [Decidable c] :
    Ensures (if c then x else y) s Q E ↔ (c → Ensures x s Q E) ∧ (¬ c → Ensures y s Q E) := by
  split_ifs with hc <;> simp [hc]

@[simp] lemma ensures_zoom {part : σ → τ} {put : τ → σ → σ} {x : Program τ ε α} :
    Ensures (zoom part put x) s Q E ↔
      Ensures x (part s) (fun a t => Q a (put t s)) fun e t => E e (put t s) := by
  unfold Ensures zoom
  rcases x (part s) with _ | ⟨_ | _, _⟩ <;> rfl

/-! ## Loops -/

@[simp] lemma ensures_forM_nil {Q : PUnit → σ → Prop} :
    Ensures (List.forM [] f) s Q E ↔ Q ⟨⟩ s := ensures_pure

@[simp] lemma ensures_forM_cons {Q : PUnit → σ → Prop} {l : List α} :
    Ensures (List.forM (a :: l) f) s Q E ↔
      Ensures (f a) s (fun _ s' => Ensures (List.forM l f) s' Q E) E := ensures_bind

/-- The loop rule for a loop over numbers. -/
theorem ensures_forM_range' {f : ℕ → Program σ ε PUnit} {a k : ℕ} (I : ℕ → σ → Prop)
    (hstep : ∀ n s, a ≤ n → n < a + k → I n s → Ensures (f n) s (fun _ => I (n + 1)) E)
    (hinit : I a s) : Ensures ((List.range' a k).forM f) s (fun _ => I (a + k)) E := by
  induction k generalizing a s with
  | zero => exact ensures_forM_nil.mpr hinit
  | succ k ih =>
    rw [List.range'_succ]
    refine ensures_forM_cons.mpr
      ((hstep a s (Nat.le_refl a) (by omega) hinit).imp (fun _ s' hI => ?_))
    have := ih (fun n s hn hlt => hstep n s (by omega) (by omega)) hI
    rwa [show a + 1 + k = a + (k + 1) by omega] at this

/-! ## What holds if a program returns -/

/-- If the program returns, this holds. -/
@[irreducible] def Returns (x : Program σ ε α) (s : σ) (Q : α → σ → Prop) : Prop :=
  ∀ a s', x s = some (.ok a, s') → Q a s'

lemma Returns.apply (h : Returns x s Q) (hx : x s = some (.ok a, t)) : Q a t := by
  unfold Returns at h
  exact h a t hx

lemma Returns.mono (h : Returns x s Q) (hQ : ∀ a s', Q a s' → Q' a s') : Returns x s Q' := by
  unfold Returns
  exact fun a s' hx => hQ a s' (h.apply hx)

lemma Ensures.returns (h : Ensures x s Q E) : Returns x s Q := by
  unfold Returns
  intro a s' hx
  exact (ensures_of_ok hx).mp h

@[simp] lemma returns_pure : Returns (pure a : Program σ ε α) s Q ↔ Q a s := by
  simp [Returns, pure_apply]

@[simp] lemma returns_throw : Returns (throw e : Program σ ε α) s Q := by
  simp [Returns, throw_apply]

@[simp] lemma returns_bind {f : α → Program σ ε β} {Q : β → σ → Prop} :
    Returns (x >>= f) s Q ↔ Returns x s fun a s' => Returns (f a) s' Q := by
  unfold Returns
  rw [bind_apply]
  rcases x s with _ | ⟨_ | _, _⟩ <;> simp

@[simp] lemma returns_ite [Decidable c] :
    Returns (if c then x else y) s Q ↔ (c → Returns x s Q) ∧ (¬ c → Returns y s Q) := by
  split_ifs with hc <;> simp [hc]

end Program

end ShitOs
