import Mathlib.Data.List.Forall2

/-!
# Hash chains

Items linked by digests: each one names the digest of the item before it, and
the oldest names a digest that no item has.  Nothing is assumed of the hash
function; where two digests agree, either the strings agree or they are a
collision.
-/

namespace HashChain

variable {σ δ β : Type}

/-- Two different strings of the list have one digest. -/
def Collision (hash : σ → δ) (strings : List σ) : Prop :=
  ∃ s ∈ strings, ∃ s' ∈ strings, s ≠ s' ∧ hash s = hash s'

theorem Collision.mono {hash : σ → δ} {strings strings' : List σ}
    (hsub : strings ⊆ strings') (h : Collision hash strings) :
    Collision hash strings' := by
  obtain ⟨s, hs, s', hs', hne, heq⟩ := h
  exact ⟨s, hsub hs, s', hsub hs', hne, heq⟩

theorem eq_or_collision {hash : σ → δ} {strings : List σ} {s s' : σ}
    (hs : s ∈ strings) (hs' : s' ∈ strings) (h : hash s = hash s') :
    s = s' ∨ Collision hash strings := by
  by_cases heq : s = s'
  · exact .inl heq
  · exact .inr ⟨s, hs, s', hs', heq, h⟩

/-- The items, the newest first, lead from `tip` down to `genesis`. -/
def Linked (digest previous : β → δ) (genesis : δ) : List β → δ → Prop
  | [], tip => tip = genesis
  | item :: older, tip =>
      tip = digest item ∧
        Linked digest previous genesis older (previous item)

variable {digest previous : β → δ} {genesis : δ}

/-- Two chains with one tip agree item by item, where items with one digest
agree and name the same item before them. -/
theorem Linked.forall₂ {R : β → β → Prop} {chain chain' : List β} {tip : δ}
    (h : Linked digest previous genesis chain tip)
    (h' : Linked digest previous genesis chain' tip)
    (hgenesis : ∀ item ∈ chain, digest item ≠ genesis)
    (hgenesis' : ∀ item ∈ chain', digest item ≠ genesis)
    (hagree : ∀ item ∈ chain, ∀ item' ∈ chain',
      digest item = digest item' → R item item' ∧
        previous item = previous item') :
    List.Forall₂ R chain chain' := by
  induction chain generalizing chain' tip with
  | nil =>
      cases chain' with
      | nil => exact .nil
      | cons item' older' =>
          -- the other chain would have an item with the genesis digest
          have htip : digest item' = genesis := h'.1.symm.trans h
          exact absurd htip (hgenesis' item' List.mem_cons_self)
  | cons item older ih =>
      cases chain' with
      | nil =>
          have htip : digest item = genesis := h.1.symm.trans h'
          exact absurd htip (hgenesis item List.mem_cons_self)
      | cons item' older' =>
          have hdigest : digest item = digest item' := h.1.symm.trans h'.1
          have hitem := hagree item List.mem_cons_self item'
            List.mem_cons_self hdigest
          have holder := h'.2
          rw [← hitem.2] at holder
          apply List.Forall₂.cons hitem.1
          apply ih h.2 holder
          · intro x hx
            exact hgenesis x (List.mem_cons_of_mem _ hx)
          · intro x hx
            exact hgenesis' x (List.mem_cons_of_mem _ hx)
          · intro x hx x' hx'
            exact hagree x (List.mem_cons_of_mem _ hx) x'
              (List.mem_cons_of_mem _ hx')

end HashChain
