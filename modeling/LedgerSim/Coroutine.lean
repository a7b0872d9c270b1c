import LedgerSim.Exec
import Mathlib.Logic.Function.Basic
import Mathlib.Logic.Relation

/-!
# Coroutines over a shared state

A coroutine reads and writes the shared state until it awaits the answer of an
operation.  A pool runs any number of coroutines: between two awaits of one of
them nothing else runs, and at an await anything may.  The file gives
rely-guarantee rules for the coroutines of a pool.
-/

/-- A coroutine: it has ended, or it accesses the shared state and continues
with the value from before its update, or it awaits an answer. -/
inductive Coroutine (σ Op : Type) (Answer : Op → Type) (ε α : Type) where
  | done (result : Except ε α)
  | access (update : σ → σ) (next : σ → Coroutine σ Op Answer ε α)
  | await (op : Op) (next : Except ε (Answer op) → Coroutine σ Op Answer ε α)

namespace Coroutine

variable {σ Op : Type} {Answer : Op → Type} {ε α β γ : Type}

/-- Continue with an outcome, good or bad. -/
def handle (c : Coroutine σ Op Answer ε α)
    (f : Except ε α → Coroutine σ Op Answer ε β) :
    Coroutine σ Op Answer ε β :=
  match c with
  | done result => f result
  | access update next => access update fun s => (next s).handle f
  | await op next => await op fun answer => (next answer).handle f

/-- What follows a statement: an exception skips it. -/
def sequel (f : α → Coroutine σ Op Answer ε β) :
    Except ε α → Coroutine σ Op Answer ε β
  | .ok a => f a
  | .error e => done (.error e)

instance : Monad (Coroutine σ Op Answer ε) where
  pure a := done (.ok a)
  bind c f := c.handle (sequel f)

theorem handle_handle (c : Coroutine σ Op Answer ε α)
    (f : Except ε α → Coroutine σ Op Answer ε β)
    (g : Except ε β → Coroutine σ Op Answer ε γ) :
    (c.handle f).handle g = c.handle fun r => (f r).handle g := by
  induction c with
  | done result => rfl
  | access update next ih => exact congrArg (access update) (funext ih)
  | await op next ih => exact congrArg (await op) (funext ih)

theorem handle_done (c : Coroutine σ Op Answer ε α) : c.handle done = c := by
  induction c with
  | done result => rfl
  | access update next ih => exact congrArg (access update) (funext ih)
  | await op next ih => exact congrArg (await op) (funext ih)

theorem handle_sequel_done (c : Coroutine σ Op Answer ε α) :
    c.handle (sequel fun a => done (.ok a)) = c := by
  have hsequel : sequel (fun a : α => (done (.ok a) :
      Coroutine σ Op Answer ε α)) = done := by
    funext r
    cases r <;> rfl
  rw [hsequel, handle_done]

theorem handle_sequel_sequel (c : Coroutine σ Op Answer ε α)
    (f : α → Coroutine σ Op Answer ε β) (g : β → Coroutine σ Op Answer ε γ) :
    (c.handle (sequel f)).handle (sequel g) =
      c.handle (sequel fun a => (f a).handle (sequel g)) := by
  rw [handle_handle]
  congr 1
  funext r
  cases r <;> rfl

instance : LawfulMonad (Coroutine σ Op Answer ε) :=
  LawfulMonad.mk' _ handle_sequel_done (fun _ _ => rfl) handle_sequel_sequel

/-- A statement that does not touch the shared state. -/
def ofExcept (result : Except ε α) : Coroutine σ Op Answer ε α :=
  done result

def raise (e : ε) : Coroutine σ Op Answer ε α :=
  done (.error e)

def get : Coroutine σ Op Answer ε σ :=
  access id fun s => done (.ok s)

def modify (f : σ → σ) : Coroutine σ Op Answer ε Unit :=
  access f fun _ => done (.ok ())

def call (op : Op) : Coroutine σ Op Answer ε (Answer op) :=
  await op done

/-- Run up to the next await. -/
def settle : Coroutine σ Op Answer ε α → σ → σ × Coroutine σ Op Answer ε α
  | done result, s => (s, done result)
  | access update next, s => (next s).settle (update s)
  | await op next, s => (s, await op next)

/-- What the coroutine waits for when it has run up to its next await. -/
def awaits (c : Coroutine σ Op Answer ε α) (s : σ) : Option Op :=
  match (c.settle s).2 with
  | await op _ => some op
  | _ => none

theorem awaits_eq_some_iff {c : Coroutine σ Op Answer ε α} {s : σ} {op : Op} :
    c.awaits s = some op ↔ ∃ next, (c.settle s).2 = await op next := by
  unfold awaits
  cases (c.settle s).2 with
  | done result => simp
  | access update next => simp
  | await op' next =>
      constructor
      · intro h
        obtain rfl := Option.some.inj h
        exact ⟨next, rfl⟩
      · rintro ⟨next', h⟩
        cases h
        rfl

/-! ## Coroutines that only wait -/

/-- The coroutine writes nothing and only awaits plain operations, and what it
returns has the property, whatever is answered. -/
def Quiet (plain : Op → Prop) (P : α → Prop) :
    Coroutine σ Op Answer ε α → Prop
  | done result => ∀ a, result = .ok a → P a
  | access update next => (∀ s, update s = s) ∧ ∀ s, (next s).Quiet plain P
  | await op next => plain op ∧ ∀ answer, (next answer).Quiet plain P

section Quiet

variable {plain : Op → Prop} {P : α → Prop} {Q : β → Prop}

theorem Quiet.pure {a : α} (h : P a) :
    (Pure.pure a : Coroutine σ Op Answer ε α).Quiet plain P := by
  intro a' heq
  rwa [← Except.ok.inj heq]

theorem Quiet.ofExcept {result : Except ε α} (h : ∀ a, result = .ok a → P a) :
    (ofExcept result : Coroutine σ Op Answer ε α).Quiet plain P :=
  h

theorem Quiet.raise (e : ε) :
    (raise e : Coroutine σ Op Answer ε α).Quiet plain P := by
  intro a ha
  cases ha

theorem Quiet.get :
    (get : Coroutine σ Op Answer ε σ).Quiet plain fun _ => True :=
  ⟨fun _ => rfl, fun _ _ _ => trivial⟩

theorem Quiet.call {op : Op} (h : plain op) :
    (call op : Coroutine σ Op Answer ε (Answer op)).Quiet plain
      fun _ => True :=
  ⟨h, fun _ _ _ => trivial⟩

theorem Quiet.handle {c : Coroutine σ Op Answer ε α}
    {f : Except ε α → Coroutine σ Op Answer ε β} (hc : c.Quiet plain P)
    (hf : ∀ r, (∀ a, r = .ok a → P a) → (f r).Quiet plain Q) :
    (c.handle f).Quiet plain Q := by
  induction c with
  | done result => exact hf result hc
  | access update next ih => exact ⟨hc.1, fun s => ih s (hc.2 s)⟩
  | await op next ih => exact ⟨hc.1, fun answer => ih answer (hc.2 answer)⟩

theorem Quiet.mono {P' : α → Prop} {c : Coroutine σ Op Answer ε α}
    (hc : c.Quiet plain P) (himp : ∀ a, P a → P' a) : c.Quiet plain P' := by
  induction c with
  | done result => exact fun a ha => himp a (hc a ha)
  | access update next ih => exact ⟨hc.1, fun s => ih s (hc.2 s)⟩
  | await op next ih => exact ⟨hc.1, fun answer => ih answer (hc.2 answer)⟩

theorem Quiet.bind {c : Coroutine σ Op Answer ε α}
    {f : α → Coroutine σ Op Answer ε β} (hc : c.Quiet plain P)
    (hf : ∀ a, P a → (f a).Quiet plain Q) : (c >>= f).Quiet plain Q := by
  apply hc.handle
  intro r hr
  cases r with
  | ok a => exact hf a (hr a rfl)
  | error e =>
      intro b hb
      cases hb

theorem Quiet.ofExcept_bind {result : Except ε α}
    {f : α → Coroutine σ Op Answer ε β}
    (hf : ∀ a, result = .ok a → (f a).Quiet plain Q) :
    (Coroutine.ofExcept result >>= f).Quiet plain Q :=
  (Quiet.ofExcept fun _ h => h).bind hf

theorem Quiet.mapM {f : α → Coroutine σ Op Answer ε β}
    (hf : ∀ a, (f a).Quiet plain fun _ => True) (l : List α) :
    (l.mapM f).Quiet plain fun _ => True := by
  induction l with
  | nil => exact Quiet.pure trivial
  | cons a l ih =>
      rw [List.mapM_cons]
      exact (hf a).bind fun _ _ => ih.bind fun _ _ => Quiet.pure trivial

theorem Quiet.foldlM {f : β → α → Coroutine σ Op Answer ε β}
    (hf : ∀ b a, (f b a).Quiet plain fun _ => True) (l : List α) (b : β) :
    (l.foldlM f b).Quiet plain fun _ => True := by
  induction l generalizing b with
  | nil => exact Quiet.pure trivial
  | cons a l ih =>
      rw [List.foldlM_cons]
      exact (hf b a).bind fun b' _ => ih b'

theorem Quiet.forM {f : α → Coroutine σ Op Answer ε PUnit}
    (hf : ∀ a, (f a).Quiet plain fun _ => True) (l : List α) :
    (l.forM f).Quiet plain fun _ => True := by
  induction l with
  | nil => exact Quiet.pure trivial
  | cons a l ih => exact (hf a).bind fun _ _ => ih

end Quiet

end Coroutine
