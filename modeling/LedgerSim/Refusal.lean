import LedgerSim.Exec

/-!
# How a computation fails

Inversion rules for the failures of pure programs with exceptions.  A
traversal fails with the first refusal it meets, so a failure also says that
everything before it went well.
-/

namespace Except

variable {ε ε' α β : Type}

theorem bind_eq_error_iff {x : Except ε α} {f : α → Except ε β} {e : ε} :
    (x >>= f) = .error e ↔
      x = .error e ∨ ∃ a, x = .ok a ∧ f a = .error e := by
  cases x with
  | error e' => simp [bind, Except.bind]
  | ok a => simp [bind, Except.bind]

theorem bind_eq_error_of_ok {x : Except ε α} {f : α → Except ε β} {a : α}
    {e : ε} (hx : x = .ok a) (h : f a = .error e) : (x >>= f) = .error e :=
  bind_eq_error_iff.mpr (.inr ⟨a, hx, h⟩)

theorem bind_eq_error_of_error {x : Except ε α} {f : α → Except ε β} {e : ε}
    (hx : x = .error e) : (x >>= f) = .error e :=
  bind_eq_error_iff.mpr (.inl hx)

theorem raiseIf_eq_error_iff {p : Prop} [Decidable p] {e e' : ε} :
    raiseIf p e = .error e' ↔ p ∧ e = e' := by
  by_cases hp : p <;> simp [raiseIf, hp]

theorem mapError_eq_error_iff {x : Except ε α} {f : ε → ε'} {e' : ε'} :
    x.mapError f = .error e' ↔ ∃ e, x = .error e ∧ f e = e' := by
  cases x with
  | error e => simp [Except.mapError]
  | ok a => simp [Except.mapError]

theorem map_eq_error_iff {x : Except ε α} {f : α → β} {e : ε} :
    x.map f = .error e ↔ x = .error e := by
  cases x with
  | error e' => simp [Except.map]
  | ok a => simp [Except.map]

/-- The first item that is refused decides the failure. -/
theorem mapM_eq_error_iff {f : α → Except ε β} {l : List α} {e : ε} :
    l.mapM f = .error e ↔
      ∃ before a after, l = before ++ a :: after ∧
        (∃ r, before.mapM f = .ok r) ∧ f a = .error e := by
  induction l with
  | nil => simp [pure, Except.pure]
  | cons a l ih =>
      rw [List.mapM_cons, bind_eq_error_iff]
      constructor
      · rintro (ha | ⟨b, hb, h⟩)
        · exact ⟨[], a, l, rfl, ⟨[], rfl⟩, ha⟩
        · have hl : l.mapM f = .error e := by
            rcases bind_eq_error_iff.mp h with hl | ⟨_, _, h⟩
            · exact hl
            · simp [pure, Except.pure] at h
          obtain ⟨before, a', after, rfl, ⟨r, hr⟩, ha'⟩ := ih.mp hl
          refine ⟨a :: before, a', after, rfl, ⟨b :: r, ?_⟩, ha'⟩
          rw [List.mapM_cons]
          apply bind_eq_ok hb
          exact bind_eq_ok hr rfl
      · rintro ⟨before, a', after, heq, ⟨r, hr⟩, ha'⟩
        cases before with
        | nil =>
            obtain ⟨rfl, -⟩ := List.cons.inj heq
            exact .inl ha'
        | cons b before =>
            obtain ⟨rfl, rfl⟩ := List.cons.inj heq
            rw [List.mapM_cons] at hr
            obtain ⟨y, hy, hr⟩ := bind_eq_ok_iff.mp hr
            obtain ⟨ys, hys, -⟩ := bind_eq_ok_iff.mp hr
            have hl := ih.mpr ⟨before, a', after, rfl, ⟨ys, hys⟩, ha'⟩
            exact .inr ⟨y, hy, bind_eq_error_iff.mpr (.inl hl)⟩

theorem forM_eq_error_iff {f : α → Except ε Unit} {l : List α} {e : ε} :
    l.forM f = .error e ↔
      ∃ before a after, l = before ++ a :: after ∧
        (∀ b ∈ before, f b = .ok ()) ∧ f a = .error e := by
  induction l with
  | nil => simp [pure, Except.pure]
  | cons a l ih =>
      change (f a >>= fun _ => l.forM f) = .error e ↔ _
      rw [bind_eq_error_iff]
      constructor
      · rintro (ha | ⟨_, hb, h⟩)
        · exact ⟨[], a, l, rfl, by simp, ha⟩
        · obtain ⟨before, a', after, rfl, hbefore, ha'⟩ := ih.mp h
          exact ⟨a :: before, a', after, rfl,
            List.forall_mem_cons.mpr ⟨hb, hbefore⟩, ha'⟩
      · rintro ⟨before, a', after, heq, hbefore, ha'⟩
        cases before with
        | nil =>
            obtain ⟨rfl, -⟩ := List.cons.inj heq
            exact .inl ha'
        | cons b before =>
            obtain ⟨rfl, rfl⟩ := List.cons.inj heq
            rw [List.forall_mem_cons] at hbefore
            exact .inr ⟨(), hbefore.1,
              ih.mpr ⟨before, a', after, rfl, hbefore.2, ha'⟩⟩

/-! ## The exceptions that can escape -/

/-- Every exception of the computation satisfies `P`. -/
def Raises (P : ε → Prop) (x : Except ε α) : Prop :=
  ∀ e, x = .error e → P e

variable {P Q : ε → Prop}

theorem raises_ok (a : α) : Raises P (.ok a : Except ε α) := by
  intro e h
  simp at h

theorem raises_error {e : ε} (h : P e) :
    Raises P (.error e : Except ε α) := by
  intro e' he
  obtain rfl := Except.error.inj he
  exact h

theorem Raises.mono {x : Except ε α} (h : Raises P x)
    (himp : ∀ e, P e → Q e) : Raises Q x :=
  fun e he => himp e (h e he)

theorem Raises.bind {x : Except ε α} {f : α → Except ε β} (hx : Raises P x)
    (hf : ∀ a, Raises P (f a)) : Raises P (x >>= f) := by
  intro e h
  rcases bind_eq_error_iff.mp h with h | ⟨a, -, h⟩
  · exact hx e h
  · exact hf a e h

theorem raises_raiseIf {p : Prop} [Decidable p] {e : ε} (h : P e) :
    Raises P (raiseIf p e) := by
  intro e' he
  obtain ⟨-, rfl⟩ := raiseIf_eq_error_iff.mp he
  exact h

theorem Raises.mapM {f : α → Except ε β} {l : List α}
    (h : ∀ a ∈ l, Raises P (f a)) : Raises P (l.mapM f) := by
  intro e he
  obtain ⟨before, a, after, rfl, -, ha⟩ := mapM_eq_error_iff.mp he
  exact h a (List.mem_append_right _ List.mem_cons_self) e ha

theorem Raises.forM {f : α → Except ε Unit} {l : List α}
    (h : ∀ a ∈ l, Raises P (f a)) : Raises P (l.forM f) := by
  intro e he
  obtain ⟨before, a, after, rfl, -, ha⟩ := forM_eq_error_iff.mp he
  exact h a (List.mem_append_right _ List.mem_cons_self) e ha

theorem Raises.map {x : Except ε α} {f : α → β} (h : Raises P x) :
    Raises P (x.map f) := by
  intro e he
  exact h e (map_eq_error_iff.mp he)

theorem raises_mapError {x : Except ε α} {f : ε → ε'} {P : ε' → Prop}
    (h : ∀ e, P (f e)) : Raises P (x.mapError f) := by
  intro e' he
  obtain ⟨e, -, rfl⟩ := mapError_eq_error_iff.mp he
  exact h e

/-! ## Failures of one kind -/

/-- The computation fails with an exception that satisfies `P`. -/
def FailsWith (P : ε → Prop) (x : Except ε α) : Prop :=
  ∃ e, x = .error e ∧ P e

@[simp] theorem failsWith_ok_iff {a : α} :
    FailsWith P (.ok a : Except ε α) ↔ False := by
  simp [FailsWith]

@[simp] theorem failsWith_error_iff {e : ε} :
    FailsWith P (.error e : Except ε α) ↔ P e := by
  simp [FailsWith]

theorem failsWith_bind_iff {x : Except ε α} {f : α → Except ε β} :
    FailsWith P (x >>= f) ↔
      FailsWith P x ∨ ∃ a, x = .ok a ∧ FailsWith P (f a) := by
  cases x with
  | error e => simp [bind, Except.bind]
  | ok a => simp [bind, Except.bind]

/-- Only the first refusal counts. -/
theorem failsWith_mapM_iff {f : α → Except ε β} {l : List α} :
    FailsWith P (l.mapM f) ↔
      ∃ before a after, l = before ++ a :: after ∧
        (∃ r, before.mapM f = .ok r) ∧ FailsWith P (f a) := by
  constructor
  · rintro ⟨e, h, he⟩
    obtain ⟨before, a, after, hl, hbefore, ha⟩ := mapM_eq_error_iff.mp h
    exact ⟨before, a, after, hl, hbefore, e, ha, he⟩
  · rintro ⟨before, a, after, hl, hbefore, e, ha, he⟩
    exact ⟨e, mapM_eq_error_iff.mpr ⟨before, a, after, hl, hbefore, ha⟩, he⟩

theorem failsWith_forM_iff {f : α → Except ε Unit} {l : List α} :
    FailsWith P (l.forM f) ↔
      ∃ before a after, l = before ++ a :: after ∧
        before.forM f = .ok () ∧ FailsWith P (f a) := by
  constructor
  · rintro ⟨e, h, he⟩
    obtain ⟨before, a, after, hl, hbefore, ha⟩ := forM_eq_error_iff.mp h
    exact ⟨before, a, after, hl, forM_eq_ok_iff.mpr hbefore, e, ha, he⟩
  · rintro ⟨before, a, after, hl, hbefore, e, ha, he⟩
    have hall := forM_eq_ok_iff.mp hbefore
    exact ⟨e, forM_eq_error_iff.mpr ⟨before, a, after, hl, hall, ha⟩, he⟩

theorem failsWith_raiseIf_iff {p : Prop} [Decidable p] {e : ε} :
    FailsWith P (raiseIf p e) ↔ p ∧ P e := by
  by_cases hp : p <;> simp [raiseIf, hp]

/-- A computation that can only fail in one way does so or succeeds. -/
theorem Raises.failsWith_iff {x : Except ε α} (h : Raises P x) :
    FailsWith P x ↔ ∀ a, x ≠ .ok a := by
  cases x with
  | ok a => simp
  | error e => simp [h e rfl]

/-- With one possible error, a computation raises it unless it succeeds. -/
theorem Raises.eq_error_iff {x : Except ε α} {e : ε}
    (h : Raises (fun e' => e' = e) x) :
    x = .error e ↔ ¬ ∃ a, x = .ok a := by
  cases x with
  | ok a => simp
  | error e' =>
      rw [h e' rfl]
      simp

theorem Raises.not_failsWith {x : Except ε α} (h : Raises Q x)
    (hnot : ∀ e, Q e → ¬ P e) : ¬ FailsWith P x := by
  rintro ⟨e, he, hP⟩
  exact hnot e (h e he) hP

end Except
