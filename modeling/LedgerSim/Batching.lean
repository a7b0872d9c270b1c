import Mathlib.Data.List.Basic
import Mathlib.Data.List.Induction
import Mathlib.Data.List.Nodup
import Mathlib.Tactic.Common

/-!
# Queues that are flushed

Items are added to a queue, and a flush makes one batch of all that wait.  The
file locates an item that was added: it is in the batch of the first flush
after it, and until then it is pending.
-/

namespace Batching

variable {α β : Type}

inductive Event (α β : Type) where
  | add (a : α)
  | flush (b : β)

structure Queue (α β : Type) where
  batches : List (List α × β)
  pending : List α

namespace Queue

def empty : Queue α β :=
  ⟨[], []⟩

def step (q : Queue α β) : Event α β → Queue α β
  | .add a => ⟨q.batches, q.pending ++ [a]⟩
  | .flush b => ⟨q.batches ++ [(q.pending, b)], []⟩

/-- All items, in the order in which they were added. -/
def items (q : Queue α β) : List α :=
  q.batches.flatMap Prod.fst ++ q.pending

end Queue

def replay (events : List (Event α β)) : Queue α β :=
  events.foldl Queue.step Queue.empty

def Event.item : Event α β → Option α
  | .add a => some a
  | .flush _ => none

theorem Event.item_eq_some_iff {event : Event α β} {a : α} :
    event.item = some a ↔ event = .add a := by
  cases event <;> simp [item]

def added (events : List (Event α β)) : List α :=
  events.filterMap Event.item

theorem mem_added_iff {events : List (Event α β)} {a : α} :
    a ∈ added events ↔ .add a ∈ events := by
  simp [added, Event.item_eq_some_iff]

theorem replay_append (events : List (Event α β)) (event : Event α β) :
    replay (events ++ [event]) = (replay events).step event :=
  List.foldl_concat ..

/-- Nothing is lost, duplicated or reordered. -/
theorem items_replay (events : List (Event α β)) :
    (replay events).items = added events := by
  induction events using List.reverseRecOn with
  | nil => rfl
  | append_singleton events event ih =>
      rw [replay_append, added, List.filterMap_append, ← added, ← ih]
      cases event with
      | add a => simp [Queue.step, Queue.items, Event.item]
      | flush b => simp [Queue.step, Queue.items, Event.item]

/-- Where an item is after more events: still pending, or in the batch that was
flushed next. -/
inductive Located (q₀ : Queue α β) (a : α) (q : Queue α β) : Prop
  | pending (since : List α) (hbatches : q.batches = q₀.batches)
      (hpending : q.pending = q₀.pending ++ a :: since)
  | flushed (since : List α) (b : β) (later : List (List α × β))
      (hbatches : q.batches =
        q₀.batches ++ (q₀.pending ++ a :: since, b) :: later)

theorem Located.step {q₀ q : Queue α β} {a : α} (h : Located q₀ a q)
    (event : Event α β) : Located q₀ a (q.step event) := by
  cases h with
  | pending since hbatches hpending =>
      cases event with
      | add a' =>
          apply Located.pending (since ++ [a'])
          · exact hbatches
          · simp [Queue.step, hpending]
      | flush b =>
          apply Located.flushed since b []
          simp [Queue.step, hbatches, hpending]
  | flushed since b later hbatches =>
      cases event with
      | add a' => exact .flushed since b later hbatches
      | flush b' =>
          apply Located.flushed since b (later ++ [(q.pending, b')])
          simp [Queue.step, hbatches]

theorem located (before after : List (Event α β)) (a : α) :
    Located (replay before) a (replay (before ++ .add a :: after)) := by
  induction after using List.reverseRecOn with
  | nil =>
      rw [replay_append]
      exact .pending [] rfl rfl
  | append_singleton after event ih =>
      rw [← List.cons_append, ← List.append_assoc, replay_append]
      exact ih.step event

section Located

variable {q₀ q : Queue α β} {a : α}

theorem Located.mem_pending_iff (h : Located q₀ a q) (hnodup : q.items.Nodup) :
    a ∈ q.pending ↔ q.batches.length = q₀.batches.length := by
  obtain ⟨-, -, hdisjoint⟩ := List.nodup_append.mp hnodup
  cases h with
  | pending since hbatches hpending => simp [hbatches, hpending]
  | flushed since b later hbatches =>
      constructor
      · intro hpending
        refine absurd rfl (hdisjoint a ?_ a hpending)
        simp [hbatches]
      · intro hlength
        simp [hbatches] at hlength

theorem Located.mem_batch_iff (h : Located q₀ a q) (hnodup : q.items.Nodup)
    {k : ℕ} {batch : List α × β} (hk : q.batches[k]? = some batch) :
    a ∈ batch.1 ↔ k = q₀.batches.length := by
  obtain ⟨hbatched, -, hdisjoint⟩ := List.nodup_append.mp hnodup
  cases h with
  | pending since hbatches hpending =>
      constructor
      · intro ha
        have hmem : a ∈ q.batches.flatMap Prod.fst :=
          List.mem_flatMap.mpr ⟨batch, List.mem_of_getElem? hk, ha⟩
        exact absurd rfl (hdisjoint a hmem a (by simp [hpending]))
      · intro hlength
        rw [hbatches, hlength] at hk
        simp at hk
  | flushed since b later hbatches =>
      rw [hbatches] at hk
      rw [hbatches, List.flatMap_append, List.flatMap_cons,
        List.nodup_append] at hbatched
      obtain ⟨-, hrest, hfirst⟩ := hbatched
      obtain ⟨-, -, hlast⟩ := List.nodup_append.mp hrest
      have ha : a ∈ q₀.pending ++ a :: since := by simp
      rcases Nat.lt_trichotomy k q₀.batches.length with hlt | rfl | hgt
      · rw [List.getElem?_append_left hlt] at hk
        refine iff_of_false (fun hbatch => ?_) (Nat.ne_of_lt hlt)
        have hmem : a ∈ q₀.batches.flatMap Prod.fst :=
          List.mem_flatMap.mpr ⟨batch, List.mem_of_getElem? hk, hbatch⟩
        exact hfirst a hmem a (List.mem_append_left _ ha) rfl
      · rw [List.getElem?_append_right (Nat.le_refl _), Nat.sub_self] at hk
        obtain rfl := Option.some.inj hk
        exact iff_of_true ha rfl
      · refine iff_of_false (fun hbatch => ?_) (Nat.ne_of_gt hgt)
        obtain ⟨j, rfl⟩ := Nat.exists_eq_add_of_lt hgt
        rw [List.getElem?_append_right (by omega),
          show q₀.batches.length + j + 1 - q₀.batches.length = j + 1 by omega,
          List.getElem?_cons_succ] at hk
        have hmem : a ∈ later.flatMap Prod.fst :=
          List.mem_flatMap.mpr ⟨batch, List.mem_of_getElem? hk, hbatch⟩
        exact hlast a ha a hmem rfl

end Located

end Batching
