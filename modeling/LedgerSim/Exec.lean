import Mathlib.Data.List.Basic
import Mathlib.Data.List.Forall2
import Mathlib.Data.List.Perm.Basic
import Mathlib.Tactic.Common

/-!
# Exceptions over a mutable state

A program with exceptions and a mutable state keeps the writes it made before
an exception escaped.  `Exec ε σ α` is that order of the two effects: every
outcome, good or bad, comes with the state it left behind.  The file gives the
inversion rules for sequencing, which are the only way the other modules look
inside a `do` block.
-/

/-- A computation that may raise `ε` and reads and writes a state `σ`.  An
exception does not undo the writes made before it. -/
def Exec (ε σ α : Type) : Type :=
  σ → Except ε α × σ

namespace Exec

variable {ε σ τ α β : Type}

def run (x : Exec ε σ α) (s : σ) : Except ε α × σ :=
  x s

protected def pure (a : α) : Exec ε σ α :=
  fun s => (.ok a, s)

protected def bind (x : Exec ε σ α) (f : α → Exec ε σ β) : Exec ε σ β :=
  fun s =>
    match x s with
    | (.ok a, s') => f a s'
    | (.error e, s') => (.error e, s')

instance : Monad (Exec ε σ) where
  pure := Exec.pure
  bind := Exec.bind

def throw (e : ε) : Exec ε σ α :=
  fun s => (.error e, s)

def get : Exec ε σ σ :=
  fun s => (.ok s, s)

def modify (f : σ → σ) : Exec ε σ Unit :=
  fun s => (.ok (), f s)

def ofExcept (x : Except ε α) : Exec ε σ α :=
  fun s => (x, s)

/-- Run a computation on one component of a larger state. -/
def zoom (proj : τ → σ) (put : σ → τ → τ) (x : Exec ε σ α) : Exec ε τ α :=
  fun t => ((x (proj t)).1, put (x (proj t)).2 t)

@[simp] theorem run_pure (a : α) (s : σ) :
    (pure a : Exec ε σ α).run s = (.ok a, s) := rfl

@[simp] theorem run_throw (e : ε) (s : σ) :
    (throw e : Exec ε σ α).run s = (.error e, s) := rfl

@[simp] theorem run_get (s : σ) :
    (get : Exec ε σ σ).run s = (.ok s, s) := rfl

@[simp] theorem run_modify (f : σ → σ) (s : σ) :
    (modify f : Exec ε σ Unit).run s = (.ok (), f s) := rfl

@[simp] theorem run_ofExcept (x : Except ε α) (s : σ) :
    (ofExcept x : Exec ε σ α).run s = (x, s) := rfl

@[simp] theorem run_zoom (proj : τ → σ) (put : σ → τ → τ)
    (x : Exec ε σ α) (t : τ) :
    (zoom proj put x).run t = ((x.run (proj t)).1, put (x.run (proj t)).2 t) :=
  rfl

theorem run_bind (x : Exec ε σ α) (f : α → Exec ε σ β) (s : σ) :
    (x >>= f).run s =
      match x.run s with
      | (.ok a, s') => (f a).run s'
      | (.error e, s') => (.error e, s') := rfl

theorem run_bind_of_ok {x : Exec ε σ α} {s s' : σ} {a : α}
    (hx : x.run s = (.ok a, s')) (f : α → Exec ε σ β) :
    (x >>= f).run s = (f a).run s' := by
  rw [run_bind, hx]

theorem run_bind_of_error {x : Exec ε σ α} {s s' : σ} {e : ε}
    (hx : x.run s = (.error e, s')) (f : α → Exec ε σ β) :
    (x >>= f).run s = (.error e, s') := by
  rw [run_bind, hx]

/-! ## Relations between the states before and after -/

/-- Whatever the outcome, the final state is related to the initial one. -/
def Respects (R : σ → σ → Prop) (x : Exec ε σ α) : Prop :=
  ∀ s, R s (x.run s).2

section Respects

variable {R : σ → σ → Prop}

theorem Respects.of_unchanged (hrefl : ∀ s, R s s) {x : Exec ε σ α}
    (hx : ∀ s, (x.run s).2 = s) : Respects R x := by
  intro s
  rw [hx s]
  exact hrefl s

theorem Respects.bind (htrans : ∀ s s' s'', R s s' → R s' s'' → R s s'')
    {x : Exec ε σ α} {f : α → Exec ε σ β} (hx : Respects R x)
    (hf : ∀ a, Respects R (f a)) : Respects R (x >>= f) := by
  intro s
  have hfirst := hx s
  rw [run_bind]
  rcases hrun : x.run s with ⟨r, s'⟩
  rw [hrun] at hfirst
  cases r with
  | error e => exact hfirst
  | ok a => exact htrans s s' _ hfirst (hf a s')

theorem Respects.forM (hrefl : ∀ s, R s s)
    (htrans : ∀ s s' s'', R s s' → R s' s'' → R s s'')
    {f : α → Exec ε σ Unit} (hf : ∀ a, Respects R (f a)) (l : List α) :
    Respects R (l.forM f) := by
  induction l with
  | nil => exact hrefl
  | cons a l ih => exact (hf a).bind htrans fun _ => ih

end Respects

end Exec

namespace List.Forall₂

variable {α β γ : Type} {R : α → β → Prop} {S : β → γ → Prop}
  {l : List α} {l' : List β} {l'' : List γ}

theorem comp (h : Forall₂ R l l') (h' : Forall₂ S l' l'') :
    Forall₂ (fun a c => ∃ b, R a b ∧ S b c) l l'' := by
  induction h generalizing l'' with
  | nil =>
      cases h'
      exact .nil
  | cons hhead _ ih =>
      cases h' with
      | cons hhead' htail' => exact .cons ⟨_, hhead, hhead'⟩ (ih htail')

theorem exists_of_mem_left (h : Forall₂ R l l') {a : α} (ha : a ∈ l) :
    ∃ b ∈ l', R a b := by
  induction h with
  | nil => simp at ha
  | cons hhead _ ih =>
      rcases List.mem_cons.mp ha with rfl | htail
      · exact ⟨_, List.mem_cons_self, hhead⟩
      · obtain ⟨b, hb, hab⟩ := ih htail
        exact ⟨b, List.mem_cons_of_mem _ hb, hab⟩

theorem exists_of_mem_right (h : Forall₂ R l l') {b : β} (hb : b ∈ l') :
    ∃ a ∈ l, R a b :=
  h.flip.exists_of_mem_left hb

theorem map_eq_map {f : α → γ} {g : β → γ}
    (h : Forall₂ (fun a b => f a = g b) l l') : l.map f = l'.map g := by
  induction h with
  | nil => rfl
  | cons hhead _ ih => rw [List.map_cons, List.map_cons, hhead, ih]

end List.Forall₂

namespace Except

variable {ε α β : Type}

/-- `if p: raise e` -/
def raiseIf (p : Prop) [Decidable p] (e : ε) : Except ε Unit :=
  if p then .error e else .ok ()

theorem raiseIf_eq_ok_iff {p : Prop} [Decidable p] {e : ε} :
    raiseIf p e = .ok () ↔ ¬ p := by
  by_cases hp : p <;> simp [raiseIf, hp]

theorem bind_eq_ok_iff {x : Except ε α} {f : α → Except ε β} {b : β} :
    (x >>= f) = .ok b ↔ ∃ a, x = .ok a ∧ f a = .ok b := by
  cases x with
  | error e => simp [bind, Except.bind]
  | ok a => simp [bind, Except.bind]

theorem ok_bind (a : α) (f : α → Except ε β) :
    ((.ok a : Except ε α) >>= f) = f a := rfl

theorem bind_eq_ok {x : Except ε α} {f : α → Except ε β} {a : α} {b : β}
    (hx : x = .ok a) (hf : f a = .ok b) : (x >>= f) = .ok b :=
  bind_eq_ok_iff.mpr ⟨a, hx, hf⟩

/-- A successful traversal relates the input and output lists item by item. -/
theorem mapM_eq_ok_iff {f : α → Except ε β} {l : List α} {l' : List β} :
    l.mapM f = .ok l' ↔ List.Forall₂ (fun a b => f a = .ok b) l l' := by
  induction l generalizing l' with
  | nil =>
      rw [List.mapM_nil, List.forall₂_nil_left_iff]
      simp [pure, Except.pure, eq_comm]
  | cons a l ih =>
      rw [List.mapM_cons]
      constructor
      · intro h
        obtain ⟨b, hb, h⟩ := bind_eq_ok_iff.mp h
        obtain ⟨bs, hbs, h⟩ := bind_eq_ok_iff.mp h
        have hcons : b :: bs = l' := by simpa [pure, Except.pure] using h
        subst hcons
        exact .cons hb (ih.mp hbs)
      · intro h
        cases h with
        | cons hb hbs =>
            apply bind_eq_ok hb
            exact bind_eq_ok (ih.mpr hbs) rfl

theorem exists_mapM_eq_ok {f : α → Except ε β} {l : List α}
    (h : ∀ a ∈ l, ∃ b, f a = .ok b) : ∃ l', l.mapM f = .ok l' := by
  induction l with
  | nil => exact ⟨[], rfl⟩
  | cons a l ih =>
      obtain ⟨⟨b, hb⟩, hl⟩ := List.forall_mem_cons.mp h
      obtain ⟨bs, hbs⟩ := ih hl
      exact ⟨b :: bs, mapM_eq_ok_iff.mpr (.cons hb (mapM_eq_ok_iff.mp hbs))⟩

/-- Two traversals that agree item by item agree. -/
theorem mapM_eq_of_forall₂ {γ : Type} {f : α → Except ε γ}
    {g : β → Except ε γ} {l : List α} {l' : List β}
    (h : List.Forall₂ (fun a b => f a = g b) l l') : l.mapM f = l'.mapM g := by
  induction h with
  | nil => rfl
  | cons hhead _ ih => rw [List.mapM_cons, List.mapM_cons, hhead, ih]

/-- A traversal that checks each item before it reads it. -/
theorem mapM_guard_eq_ok_iff {f : α → Except ε Unit} {g : α → Except ε β}
    {l : List α} {l' : List β} :
    (l.mapM fun a => f a >>= fun _ => g a) = .ok l' ↔
      (∀ a ∈ l, f a = .ok ()) ∧ l.mapM g = .ok l' := by
  rw [mapM_eq_ok_iff, mapM_eq_ok_iff]
  constructor
  · intro h
    constructor
    · intro a ha
      obtain ⟨b, -, hab⟩ := h.exists_of_mem_left ha
      obtain ⟨_, hcheck, -⟩ := bind_eq_ok_iff.mp hab
      exact hcheck
    · refine h.imp fun a b hab => ?_
      obtain ⟨_, -, hread⟩ := bind_eq_ok_iff.mp hab
      exact hread
  · rintro ⟨hchecks, h⟩
    refine ((List.forall₂_and_left l l').mpr ⟨hchecks, h⟩).imp ?_
    rintro a b ⟨hcheck, hread⟩
    exact bind_eq_ok hcheck hread

theorem mapM_append_eq_ok_iff {f : α → Except ε β} {l₁ l₂ : List α}
    {l' : List β} :
    (l₁ ++ l₂).mapM f = .ok l' ↔
      ∃ r₁ r₂, l₁.mapM f = .ok r₁ ∧ l₂.mapM f = .ok r₂ ∧ r₁ ++ r₂ = l' := by
  rw [List.mapM_append]
  constructor
  · intro h
    obtain ⟨r₁, h₁, h⟩ := bind_eq_ok_iff.mp h
    obtain ⟨r₂, h₂, h⟩ := bind_eq_ok_iff.mp h
    exact ⟨r₁, r₂, h₁, h₂, by simpa [pure, Except.pure] using h⟩
  · rintro ⟨r₁, r₂, h₁, h₂, rfl⟩
    apply bind_eq_ok h₁
    exact bind_eq_ok h₂ rfl

theorem mapM_perm {f : α → Except ε β} {l l' : List α} (hperm : l.Perm l')
    {r : List β} (h : l.mapM f = .ok r) :
    ∃ r', l'.mapM f = .ok r' ∧ r.Perm r' := by
  obtain ⟨r', hr', hperm'⟩ :=
    List.perm_comp_forall₂ hperm.symm (mapM_eq_ok_iff.mp h)
  exact ⟨r', mapM_eq_ok_iff.mpr hr', hperm'.symm⟩

/-- Traversing a concatenation is traversing its parts. -/
theorem mapM_flatMap_eq_ok_iff {γ : Type} {f : β → Except ε γ}
    {g : α → List β} {l : List α} {l' : List γ} :
    (l.flatMap g).mapM f = .ok l' ↔
      ∃ parts, l.mapM (fun a => (g a).mapM f) = .ok parts ∧
        parts.flatten = l' := by
  induction l generalizing l' with
  | nil => simp [pure, Except.pure]
  | cons a l ih =>
      rw [List.flatMap_cons, mapM_append_eq_ok_iff, List.mapM_cons]
      constructor
      · rintro ⟨part, rest, hpart, hrest, rfl⟩
        obtain ⟨parts, hparts, rfl⟩ := ih.mp hrest
        refine ⟨part :: parts, ?_, rfl⟩
        apply bind_eq_ok hpart
        exact bind_eq_ok hparts rfl
      · rintro ⟨all, h, rfl⟩
        obtain ⟨part, hpart, h⟩ := bind_eq_ok_iff.mp h
        obtain ⟨parts, hparts, h⟩ := bind_eq_ok_iff.mp h
        obtain rfl := Except.ok.inj h
        exact ⟨part, parts.flatten, hpart, ih.mpr ⟨parts, hparts, rfl⟩, rfl⟩

theorem exists_of_mapM_eq_ok {f : α → Except ε β} {l : List α}
    {l' : List β} (h : l.mapM f = .ok l') {a : α} (ha : a ∈ l) :
    ∃ b ∈ l', f a = .ok b :=
  (mapM_eq_ok_iff.mp h).exists_of_mem_left ha

theorem exists_mapM_eq_ok_iff {f : α → Except ε β} {l : List α} :
    (∃ l', l.mapM f = .ok l') ↔ ∀ a ∈ l, ∃ b, f a = .ok b := by
  constructor
  · rintro ⟨l', h⟩ a ha
    obtain ⟨b, -, hb⟩ := exists_of_mapM_eq_ok h ha
    exact ⟨b, hb⟩
  · exact exists_mapM_eq_ok

theorem mem_iff_of_mapM_eq_ok {f : α → Except ε β} {l : List α} {l' : List β}
    (h : l.mapM f = .ok l') {b : β} :
    b ∈ l' ↔ ∃ a ∈ l, f a = .ok b := by
  constructor
  · exact (mapM_eq_ok_iff.mp h).exists_of_mem_right
  · rintro ⟨a, ha, hab⟩
    obtain ⟨b', hb', hab'⟩ := exists_of_mapM_eq_ok h ha
    obtain rfl : b = b' := Except.ok.inj (hab.symm.trans hab')
    exact hb'

theorem forM_eq_ok_iff {f : α → Except ε Unit} {l : List α} :
    l.forM f = .ok () ↔ ∀ a ∈ l, f a = .ok () := by
  induction l with
  | nil => exact iff_of_true rfl (by simp)
  | cons a l ih =>
      change (f a >>= fun _ => l.forM f) = .ok () ↔ _
      rw [bind_eq_ok_iff, List.forall_mem_cons, ← ih]
      constructor
      · rintro ⟨_, ha, hl⟩
        exact ⟨ha, hl⟩
      · rintro ⟨ha, hl⟩
        exact ⟨(), ha, hl⟩

theorem map_eq_ok_iff {x : Except ε α} {f : α → β} {b : β} :
    x.map f = .ok b ↔ ∃ a, x = .ok a ∧ f a = b := by
  cases x with
  | error e => simp [Except.map]
  | ok a => simp [Except.map]

theorem mapError_eq_ok_iff {ε' : Type} {x : Except ε α} {f : ε → ε'}
    {a : α} : x.mapError f = .ok a ↔ x = .ok a := by
  cases x with
  | error e => simp [Except.mapError]
  | ok b => simp [Except.mapError]

theorem toOption_eq_some_iff {x : Except ε α} {a : α} :
    x.toOption = some a ↔ x = .ok a := by
  cases x with
  | error e => simp [Except.toOption]
  | ok b => simp [Except.toOption]

theorem toOption_isSome_iff {x : Except ε α} :
    x.toOption.isSome = true ↔ ∃ a, x = .ok a := by
  cases x with
  | error e => simp [Except.toOption]
  | ok b => simp [Except.toOption]

theorem eq_ok_getD {x : Except ε α} (h : x.toOption.isSome = true)
    (a : α) : x = .ok (x.toOption.getD a) := by
  cases x with
  | error e => simp [Except.toOption] at h
  | ok b => rfl

theorem toOption_isNone_iff {x : Except ε α} :
    x.toOption.isNone = true ↔ ∃ e, x = .error e := by
  cases x with
  | error e => simp [Except.toOption]
  | ok b => simp [Except.toOption]

end Except
