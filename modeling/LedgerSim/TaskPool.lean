import LedgerSim.Coroutine

/-!
# Pools of coroutines

Tasks are started at any time, each with a coroutine for its request, and are
resumed in any order, each when the operation that it awaits is answered.  A
finished task is logged.  The proof rule asks each task for what it guarantees
to the others between two awaits, and lets it rely on the same from them.
-/

namespace TaskPool

open Coroutine

variable {σ ι Op : Type} {Answer : Op → Type} {ε α : Type}

structure Entry (ι ε α : Type) where
  task : ℕ
  request : ι
  result : Except ε α

structure Pool (σ ι Op : Type) (Answer : Op → Type) (ε α : Type) where
  shared : σ
  tasks : ℕ → Option (ι × Coroutine σ Op Answer ε α)
  /-- The finished tasks in the order in which they finished. -/
  log : List (Entry ι ε α)

def Pool.initial (s : σ) : Pool σ ι Op Answer ε α :=
  ⟨s, fun _ => none, []⟩

def finished (task : ℕ) (request : ι) :
    Coroutine σ Op Answer ε α → List (Entry ι ε α)
  | done result => [⟨task, request, result⟩]
  | _ => []

/-- A task continues with a coroutine in a shared state. -/
def Pool.advance (pool : Pool σ ι Op Answer ε α) (task : ℕ) (request : ι)
    (s : σ) (c : Coroutine σ Op Answer ε α) : Pool σ ι Op Answer ε α where
  shared := (c.settle s).1
  tasks := Function.update pool.tasks task (some (request, (c.settle s).2))
  log := pool.log ++ finished task request (c.settle s).2

section Steps

variable (answers : σ → (op : Op) → Except ε (Answer op) → σ → Prop)
  (program : ℕ → ι → Coroutine σ Op Answer ε α)

inductive Step : Pool σ ι Op Answer ε α → Pool σ ι Op Answer ε α → Prop
  | start {pool : Pool σ ι Op Answer ε α} {task : ℕ} (request : ι)
      (hfresh : pool.tasks task = none) :
      Step pool (pool.advance task request pool.shared (program task request))
  | resume {pool : Pool σ ι Op Answer ε α} {task : ℕ} {request : ι} {op : Op}
      {next : Except ε (Answer op) → Coroutine σ Op Answer ε α}
      (htask : pool.tasks task = some (request, await op next))
      {answer : Except ε (Answer op)} {s : σ}
      (hanswer : answers pool.shared op answer s) :
      Step pool (pool.advance task request s (next answer))

abbrev Run : Pool σ ι Op Answer ε α → Pool σ ι Op Answer ε α → Prop :=
  Relation.ReflTransGen (Step answers program)

/-! ## Running alone -/

/-- The outcome of a coroutine that is never interrupted. -/
inductive Alone {α : Type} :
    Coroutine σ Op Answer ε α → σ → Except ε α → σ → Prop
  | done (result : Except ε α) (s : σ) : Alone (done result) s result s
  | access {update : σ → σ} {next : σ → Coroutine σ Op Answer ε α} {s s' : σ}
      {result : Except ε α} (h : Alone (next s) (update s) result s') :
      Alone (access update next) s result s'
  | await {op : Op} {next : Except ε (Answer op) → Coroutine σ Op Answer ε α}
      {answer : Except ε (Answer op)} {s s₁ s' : σ} {result : Except ε α}
      (hanswer : answers s op answer s₁)
      (h : Alone (next answer) s₁ result s') :
      Alone (await op next) s result s'

variable {answers program}

theorem Pool.advance_of_await {pool : Pool σ ι Op Answer ε α} {task : ℕ}
    {request : ι} {c : Coroutine σ Op Answer ε α} {s s' : σ} {op : Op}
    {next : Except ε (Answer op) → Coroutine σ Op Answer ε α}
    (h : c.settle s = (s', .await op next)) :
    pool.advance task request s c =
      ⟨s', Function.update pool.tasks task (some (request, .await op next)),
        pool.log⟩ := by
  unfold advance
  rw [h]
  simp only [finished, List.append_nil]

theorem Step.start_await {pool : Pool σ ι Op Answer ε α} {task : ℕ}
    {request : ι} (hfresh : pool.tasks task = none) {s : σ} {op : Op}
    {next : Except ε (Answer op) → Coroutine σ Op Answer ε α}
    (h : (program task request).settle pool.shared = (s, .await op next)) :
    Step answers program pool
      ⟨s, Function.update pool.tasks task (some (request, .await op next)),
        pool.log⟩ := by
  rw [← Pool.advance_of_await h]
  exact .start request hfresh

theorem Step.resume_await {pool : Pool σ ι Op Answer ε α} {task : ℕ}
    {request : ι} {op op' : Op}
    {next : Except ε (Answer op) → Coroutine σ Op Answer ε α}
    {next' : Except ε (Answer op') → Coroutine σ Op Answer ε α}
    (htask : pool.tasks task = some (request, .await op next))
    {answer : Except ε (Answer op)} {s s' : σ}
    (hanswer : answers pool.shared op answer s)
    (h : (next answer).settle s = (s', .await op' next')) :
    Step answers program pool
      ⟨s', Function.update pool.tasks task (some (request, .await op' next')),
        pool.log⟩ := by
  rw [← Pool.advance_of_await h]
  exact .resume htask hanswer

theorem Alone.handle {β : Type} {c : Coroutine σ Op Answer ε α}
    {f : Except ε α → Coroutine σ Op Answer ε β} {s s₁ s' : σ}
    {r : Except ε α} {r' : Except ε β} (hc : Alone answers c s r s₁)
    (hf : Alone answers (f r) s₁ r' s') :
    Alone answers (c.handle f) s r' s' := by
  induction hc with
  | done result s => exact hf
  | access _ ih => exact .access (ih hf)
  | await hanswer _ ih => exact .await hanswer (ih hf)

theorem Alone.bind {β : Type} {c : Coroutine σ Op Answer ε α}
    {f : α → Coroutine σ Op Answer ε β} {s s₁ s' : σ} {a : α}
    {r : Except ε β} (hc : Alone answers c s (.ok a) s₁)
    (hf : Alone answers (f a) s₁ r s') : Alone answers (c >>= f) s r s' :=
  hc.handle hf

theorem Alone.bind_error {β : Type} {c : Coroutine σ Op Answer ε α}
    {s s' : σ} {e : ε} (hc : Alone answers c s (.error e) s')
    (f : α → Coroutine σ Op Answer ε β) :
    Alone answers (c >>= f) s (.error e) s' :=
  hc.handle (f := sequel f) (.done _ _)

theorem Alone.get_bind {f : σ → Coroutine σ Op Answer ε α} {s s' : σ}
    {r : Except ε α} (h : Alone answers (f s) s r s') :
    Alone answers (Coroutine.get >>= f) s r s' :=
  .access h

theorem Alone.call {op : Op} {answer : Except ε (Answer op)} {s s' : σ}
    (hanswer : answers s op answer s') :
    Alone answers (Coroutine.call op) s answer s' :=
  .await hanswer (.done _ _)

variable (answers) in
/-- The coroutine ends as given and leaves the state as it was. -/
abbrev Reads {α : Type} (c : Coroutine σ Op Answer ε α) (r : Except ε α)
    (s : σ) : Prop :=
  Alone answers c s r s

section Reads

variable {β : Type} {s : σ}

theorem Reads.bind {c : Coroutine σ Op Answer ε α} {x : Except ε α}
    {f : α → Coroutine σ Op Answer ε β} {g : α → Except ε β}
    (hc : Reads answers c x s)
    (hf : ∀ a, x = .ok a → Reads answers (f a) (g a) s) :
    Reads answers (c >>= f) (x >>= g) s := by
  cases x with
  | ok a => exact Alone.bind hc (hf a rfl)
  | error e => exact Alone.bind_error hc f

theorem Reads.ofExcept_bind {x : Except ε α}
    {f : α → Coroutine σ Op Answer ε β} {g : α → Except ε β}
    (hf : ∀ a, x = .ok a → Reads answers (f a) (g a) s) :
    Reads answers (ofExcept x >>= f) (x >>= g) s :=
  Reads.bind (.done x s) hf

theorem Reads.mapM {f : α → Coroutine σ Op Answer ε β} {g : α → Except ε β}
    (hf : ∀ a, Reads answers (f a) (g a) s) (l : List α) :
    Reads answers (l.mapM f) (l.mapM g) s := by
  induction l with
  | nil => exact .done _ _
  | cons a l ih =>
      rw [List.mapM_cons, List.mapM_cons]
      apply Reads.bind (hf a)
      intro b _
      apply Reads.bind ih
      intro bs _
      exact .done _ _

theorem Reads.foldlM {f : β → α → Coroutine σ Op Answer ε β} {g : β → α → β}
    (hf : ∀ b a, Reads answers (f b a) (.ok (g b a)) s) (l : List α) (b : β) :
    Reads answers (l.foldlM f b) (.ok (l.foldl g b)) s := by
  induction l generalizing b with
  | nil => exact .done _ _
  | cons a l ih =>
      rw [List.foldlM_cons, List.foldl_cons]
      exact Alone.bind (hf b a) (ih _)

end Reads

/-- A task that is not interrupted runs to its end. -/
theorem Alone.run {c : Coroutine σ Op Answer ε α} {s s' : σ}
    {result : Except ε α} (h : Alone answers c s result s')
    (pool : Pool σ ι Op Answer ε α) (task : ℕ) (request : ι) :
    Run answers program (pool.advance task request s c)
      ⟨s', Function.update pool.tasks task (some (request, .done result)),
        pool.log ++ [⟨task, request, result⟩]⟩ := by
  induction h with
  | done result s => exact .refl
  | access _ ih => exact ih
  | @await op next answer s s₁ s' result hanswer _ ih =>
      apply Relation.ReflTransGen.head ?_ ih
      have htask : (pool.advance task request s (.await op next)).tasks task =
          some (request, .await op next) := Function.update_self ..
      have hstep : Step answers program _ _ := .resume htask hanswer
      have hsame : (pool.advance task request s (.await op next)).advance task
          request s₁ (next answer) =
          pool.advance task request s₁ (next answer) := by
        simp [Pool.advance, settle, finished]
      rwa [hsame] at hstep

theorem Alone.settle {c : Coroutine σ Op Answer ε α} {s s' : σ}
    {result : Except ε α} (h : Alone answers c s result s') :
    Alone answers (c.settle s).2 (c.settle s).1 result s' := by
  induction h with
  | done result s => exact .done _ _
  | access _ ih => exact ih
  | await hanswer h _ => exact .await hanswer h

/-- A task that waits and is not interrupted any more runs to its end. -/
theorem Alone.finish {pool : Pool σ ι Op Answer ε α} {task : ℕ} {request : ι}
    {op : Op} {next : Except ε (Answer op) → Coroutine σ Op Answer ε α}
    (htask : pool.tasks task = some (request, .await op next))
    {result : Except ε α} {s' : σ}
    (h : Alone answers (.await op next) pool.shared result s') :
    Run answers program pool
      ⟨s', Function.update pool.tasks task (some (request, .done result)),
        pool.log ++ [⟨task, request, result⟩]⟩ := by
  cases h with
  | await hanswer h =>
      exact .head (.resume htask hanswer) (h.run pool task request)

/-- Fewer answers allow fewer runs. -/
theorem Run.mono
    {answers' : σ → (op : Op) → Except ε (Answer op) → σ → Prop}
    (himp : ∀ s op answer s', answers s op answer s' → answers' s op answer s')
    {pool pool' : Pool σ ι Op Answer ε α} (h : Run answers program pool pool') :
    Run answers' program pool pool' := by
  induction h with
  | refl => exact .refl
  | tail _ hstep ih =>
      apply ih.tail
      cases hstep with
      | start request hfresh => exact .start request hfresh
      | resume htask hanswer => exact .resume htask (himp _ _ _ _ hanswer)

end Steps

/-! ## Rely and guarantee -/

section Wp

variable (answers : σ → (op : Op) → Except ε (Answer op) → σ → Prop)
  (rely : σ → σ → Prop) (segment : σ → σ → Prop)

/-- Every run of the coroutine from `s`, in a segment that began in `s₀`, is
made of segments that are allowed, and ends as `K` says; in between the state
changes as the task relies on. -/
def Wp {α : Type} (K : Except ε α → σ → σ → Prop) :
    Coroutine σ Op Answer ε α → σ → σ → Prop
  | done result, s₀, s => K result s₀ s
  | access update next, s₀, s => Wp K (next s) s₀ (update s)
  | await op next, s₀, s => segment s₀ s ∧ ∀ s₁, rely s s₁ →
      ∀ answer s₂, answers s₁ op answer s₂ → Wp K (next answer) s₁ s₂

variable {answers rely segment}

theorem wp_handle {β : Type} {K : Except ε β → σ → σ → Prop}
    {c : Coroutine σ Op Answer ε α}
    {f : Except ε α → Coroutine σ Op Answer ε β} {s₀ s : σ} :
    Wp answers rely segment K (c.handle f) s₀ s ↔
      Wp answers rely segment
        (fun r s₀ s => Wp answers rely segment K (f r) s₀ s) c s₀ s := by
  induction c generalizing s₀ s with
  | done result => rfl
  | access update next ih => exact ih s
  | await op next ih =>
      apply and_congr_right
      intro _
      exact forall₂_congr fun s₁ _ => forall₃_congr fun answer s₂ _ =>
        ih answer

/-- A quiet coroutine keeps what others keep. -/
theorem wp_of_quiet {plain : Op → Prop} {P : α → Prop} {J : σ → Prop}
    {K : Except ε α → σ → σ → Prop} {c : Coroutine σ Op Answer ε α}
    (hquiet : c.Quiet plain P) (hrely : ∀ s s', J s → rely s s' → J s')
    (hanswers : ∀ s op answer s', plain op → J s → answers s op answer s' →
      J s' ∧ segment s s')
    (hK : ∀ r s₀ s, (∀ a, r = .ok a → P a) → J s → segment s₀ s → K r s₀ s)
    {s₀ s : σ} (hJ : J s) (hsegment : segment s₀ s) :
    Wp answers rely segment K c s₀ s := by
  induction c generalizing s₀ s with
  | done result => exact hK result s₀ s hquiet hJ hsegment
  | access update next ih =>
      obtain ⟨hupdate, hnext⟩ := hquiet
      change Wp answers rely segment K (next s) s₀ (update s)
      rw [hupdate]
      exact ih s (hnext s) hJ hsegment
  | await op next ih =>
      obtain ⟨hplain, hnext⟩ := hquiet
      refine ⟨hsegment, fun s₁ hs₁ answer s₂ hanswer => ?_⟩
      obtain ⟨hJ₂, hsegment₂⟩ :=
        hanswers s₁ op answer s₂ hplain (hrely s s₁ hJ hs₁) hanswer
      exact ih answer (hnext answer) hJ₂ hsegment₂

/-- What holds of a task between two segments. -/
def Suspended (answers : σ → (op : Op) → Except ε (Answer op) → σ → Prop)
    (rely segment : σ → σ → Prop) (K : Except ε α → σ → σ → Prop)
    (c : Coroutine σ Op Answer ε α) (s : σ) : Prop :=
  match c with
  | done _ => True
  | access _ _ => False
  | await op next => ∀ s₁, rely s s₁ → ∀ answer s₂,
      answers s₁ op answer s₂ → Wp answers rely segment K (next answer) s₁ s₂

theorem Suspended.of_rely {K : Except ε α → σ → σ → Prop}
    {c : Coroutine σ Op Answer ε α} {s s' : σ}
    (h : Suspended answers rely segment K c s) (hrely : rely s s')
    (htrans : ∀ s s' s'', rely s s' → rely s' s'' → rely s s'') :
    Suspended answers rely segment K c s' := by
  cases c with
  | done result => trivial
  | access update next => exact h
  | await op next => exact fun s₁ hs₁ => h s₁ (htrans _ _ _ hrely hs₁)

/-- A segment ends in an allowed await or in the end of the task. -/
theorem Wp.settle {K : Except ε α → σ → σ → Prop}
    {c : Coroutine σ Op Answer ε α} {s₀ s : σ}
    (h : Wp answers rely segment K c s₀ s) :
    Suspended answers rely segment K (c.settle s).2 (c.settle s).1 ∧
      ((∃ result, (c.settle s).2 = .done result ∧
          K result s₀ (c.settle s).1) ∨
        (∃ op next, (c.settle s).2 = .await op next ∧
          segment s₀ (c.settle s).1)) := by
  induction c generalizing s with
  | done result => exact ⟨trivial, .inl ⟨result, rfl, h⟩⟩
  | access update next ih => exact ih s h
  | await op next ih => exact ⟨h.2, .inr ⟨op, next, rfl, h.1⟩⟩

end Wp

/-! ## Safe pools -/

section Safe

variable (answers : σ → (op : Op) → Except ε (Answer op) → σ → Prop)
  (program : ℕ → ι → Coroutine σ Op Answer ε α)
  (interferes : ℕ → σ → σ → Prop) (Inv : List (Entry ι ε α) → σ → Prop)

/-- A segment of a task that does not end it. -/
structure AllowedSegment (task : ℕ) (s₀ s : σ) : Prop where
  others : ∀ other, other ≠ task → interferes other s₀ s
  inv : ∀ log, Inv log s₀ → Inv log s

structure AllowedEnd (task : ℕ) (request : ι) (result : Except ε α)
    (s₀ s : σ) : Prop where
  others : ∀ other, other ≠ task → interferes other s₀ s
  inv : ∀ log, Inv log s₀ → Inv (log ++ [⟨task, request, result⟩]) s

abbrev Safe (task : ℕ) (request : ι) (c : Coroutine σ Op Answer ε α)
    (s₀ s : σ) : Prop :=
  Wp answers (interferes task) (AllowedSegment interferes Inv task)
    (AllowedEnd interferes Inv task request) c s₀ s

structure PoolInv (pool : Pool σ ι Op Answer ε α) : Prop where
  inv : Inv pool.log pool.shared
  tasks : ∀ task request c, pool.tasks task = some (request, c) →
    Suspended answers (interferes task) (AllowedSegment interferes Inv task)
      (AllowedEnd interferes Inv task request) c pool.shared

variable {answers program interferes Inv} {pool : Pool σ ι Op Answer ε α}

theorem PoolInv.advance (h : PoolInv answers interferes Inv pool)
    (htrans : ∀ task s s' s'', interferes task s s' →
      interferes task s' s'' → interferes task s s'')
    {task : ℕ} {request : ι} {c : Coroutine σ Op Answer ε α} {s : σ}
    (hsafe : Safe answers interferes Inv task request c pool.shared s) :
    PoolInv answers interferes Inv (pool.advance task request s c) := by
  obtain ⟨hsuspended, hend⟩ := hsafe.settle
  have hothers : ∀ other, other ≠ task →
      interferes other pool.shared (c.settle s).1 := by
    rcases hend with ⟨_, -, hend⟩ | ⟨_, _, -, hsegment⟩
    · exact hend.others
    · exact hsegment.others
  constructor
  case inv =>
    rcases hend with ⟨result, hdone, hend⟩ | ⟨op, next, hawait, hsegment⟩
    · simp only [Pool.advance, hdone, finished]
      exact hend.inv _ h.inv
    · simp only [Pool.advance, hawait, finished, List.append_nil]
      exact hsegment.inv _ h.inv
  case tasks =>
    intro other request' c' hother
    simp only [Pool.advance] at hother ⊢
    by_cases hsame : other = task
    · subst hsame
      rw [Function.update_self, Option.some.injEq, Prod.mk.injEq] at hother
      obtain ⟨rfl, rfl⟩ := hother
      exact hsuspended
    · rw [Function.update_of_ne hsame] at hother
      exact (h.tasks other request' c' hother).of_rely (hothers other hsame)
        (htrans other)

/-- Every pool of safe tasks keeps the invariant. -/
theorem Run.poolInv {s : σ} (hinit : Inv [] s)
    (hrefl : ∀ task s, interferes task s s)
    (htrans : ∀ task s s' s'', interferes task s s' →
      interferes task s' s'' → interferes task s s'')
    (hsafe : ∀ task request s,
      Safe answers interferes Inv task request (program task request) s s)
    (hrun : Run answers program (Pool.initial s) pool) :
    PoolInv answers interferes Inv pool := by
  induction hrun with
  | refl => exact ⟨hinit, fun _ _ _ htask => nomatch htask⟩
  | tail _ hstep ih =>
      cases hstep with
      | start request hfresh => exact ih.advance htrans (hsafe _ _ _)
      | resume htask hanswer =>
          apply ih.advance htrans
          exact ih.tasks _ _ _ htask _ (hrefl _ _) _ _ hanswer

end Safe

/-! ## The log -/

/-- A task is logged once, with the result that it ended in. -/
structure LogInv (pool : Pool σ ι Op Answer ε α) : Prop where
  ended : ∀ entry ∈ pool.log,
    pool.tasks entry.task = some (entry.request, .done entry.result)
  nodup : (pool.log.map Entry.task).Nodup

theorem LogInv.advance {pool : Pool σ ι Op Answer ε α} (h : LogInv pool)
    {task : ℕ} (hrunning : ∀ request result,
      pool.tasks task ≠ some (request, .done result))
    (request : ι) (s : σ) (c : Coroutine σ Op Answer ε α) :
    LogInv (pool.advance task request s c) := by
  have hnew : ∀ entry ∈ pool.log, entry.task ≠ task := by
    rintro entry hentry rfl
    exact hrunning _ _ (h.ended entry hentry)
  have hold : ∀ entry ∈ pool.log,
      (pool.advance task request s c).tasks entry.task =
        some (entry.request, .done entry.result) := by
    intro entry hentry
    simp only [Pool.advance]
    rw [Function.update_of_ne (hnew entry hentry)]
    exact h.ended entry hentry
  cases hsettle : (c.settle s).2 with
  | done result =>
      have hlog : (pool.advance task request s c).log =
          pool.log ++ [⟨task, request, result⟩] := by
        simp only [Pool.advance, hsettle, finished]
      constructor
      · intro entry hentry
        rw [hlog, List.mem_append, List.mem_singleton] at hentry
        rcases hentry with hentry | rfl
        · exact hold entry hentry
        · simp only [Pool.advance, hsettle, Function.update_self]
      · rw [hlog, List.map_append]
        refine List.nodup_append.mpr ⟨h.nodup, by simp, ?_⟩
        intro other hother last hlast
        obtain ⟨entry, hentry, rfl⟩ := List.mem_map.mp hother
        rw [List.mem_singleton.mp hlast]
        exact hnew entry hentry
  | access update next =>
      have hlog : (pool.advance task request s c).log = pool.log := by
        simp only [Pool.advance, hsettle, finished, List.append_nil]
      exact ⟨hlog.symm ▸ hold, hlog.symm ▸ h.nodup⟩
  | await op next =>
      have hlog : (pool.advance task request s c).log = pool.log := by
        simp only [Pool.advance, hsettle, finished, List.append_nil]
      exact ⟨hlog.symm ▸ hold, hlog.symm ▸ h.nodup⟩

theorem Step.log
    {answers : σ → (op : Op) → Except ε (Answer op) → σ → Prop}
    {program : ℕ → ι → Coroutine σ Op Answer ε α}
    {pool pool' : Pool σ ι Op Answer ε α} (h : Step answers program pool pool') :
    pool'.log = pool.log ∨ ∃ entry, pool'.log = pool.log ++ [entry] := by
  have hfinished : ∀ (task : ℕ) (request : ι) (c : Coroutine σ Op Answer ε α),
      pool.log ++ finished task request c = pool.log ∨
        ∃ entry, pool.log ++ finished task request c = pool.log ++ [entry] := by
    intro task request c
    cases c with
    | done result => exact .inr ⟨_, rfl⟩
    | access update next => exact .inl (List.append_nil _)
    | await op next => exact .inl (List.append_nil _)
  cases h <;> exact hfinished _ _ _

theorem Run.logInv
    {answers : σ → (op : Op) → Except ε (Answer op) → σ → Prop}
    {program : ℕ → ι → Coroutine σ Op Answer ε α} {s : σ}
    {pool : Pool σ ι Op Answer ε α}
    (hrun : Run answers program (Pool.initial s) pool) : LogInv pool := by
  induction hrun with
  | refl => exact ⟨fun _ h => (List.not_mem_nil h).elim, List.nodup_nil⟩
  | tail _ hstep ih =>
      cases hstep with
      | start request hfresh =>
          apply ih.advance
          intro request' result htask
          rw [hfresh] at htask
          cases htask
      | resume htask hanswer =>
          apply ih.advance
          intro request' result hdone
          rw [htask] at hdone
          cases hdone

end TaskPool
