import Mathlib.Data.List.Infix
import Mathlib.Data.List.Forall2

/-!
# Interleaved streams

A list of tagged items is an interleaving of one stream for each tag.  What
holds of a position in a stream is carried over to the position of the item in
the list.
-/

namespace LedgerSim

variable {ι α : Type} [DecidableEq ι]

/-- The stream of a tag. -/
def streamOf (tag : ι) (items : List (ι × α)) : List α :=
  (items.filter fun item => item.1 = tag).map Prod.snd

@[simp] theorem streamOf_nil (tag : ι) : streamOf tag ([] : List (ι × α)) = [] :=
  rfl

@[simp] theorem streamOf_append (tag : ι) (items items' : List (ι × α)) :
    streamOf tag (items ++ items') =
      streamOf tag items ++ streamOf tag items' := by
  simp [streamOf]

@[simp] theorem streamOf_singleton_self (tag : ι) (a : α) :
    streamOf tag [(tag, a)] = [a] := by
  simp [streamOf]

theorem streamOf_singleton_ne {tag tag' : ι} (hne : tag' ≠ tag) (a : α) :
    streamOf tag [(tag', a)] = [] := by
  simp [streamOf, hne]

theorem mem_streamOf {tag : ι} {items : List (ι × α)} {a : α} :
    a ∈ streamOf tag items ↔ (tag, a) ∈ items := by
  simp [streamOf]

theorem streamOf_of_all {tag : ι} {items : List (ι × α)}
    (h : ∀ item ∈ items, item.1 = tag) :
    streamOf tag items = items.map Prod.snd := by
  unfold streamOf
  rw [List.filter_eq_self.mpr]
  intro item hitem
  exact decide_eq_true (h item hitem)

theorem streamOf_of_ne {tag tag' : ι} {items : List (ι × α)}
    (h : ∀ item ∈ items, item.1 = tag) (hne : tag ≠ tag') :
    streamOf tag' items = [] := by
  unfold streamOf
  rw [List.filter_eq_nil_iff.mpr, List.map_nil]
  intro item hitem
  simp [h item hitem, hne]

/-- An item whose stream relates it to no other item of the same stream is
found once in the whole list. -/
theorem streamOf_pairwise_split {R : α → α → Prop} (hsymm : ∀ a b, R a b → R b a)
    {tag : ι} {items earlier later : List (ι × α)} {a : α}
    (hpairwise : (streamOf tag items).Pairwise R)
    (hsplit : items = earlier ++ (tag, a) :: later) :
    ∀ b, (tag, b) ∈ earlier ++ later → R a b := by
  rw [hsplit, ← List.singleton_append, streamOf_append, streamOf_append,
    streamOf_singleton_self, List.singleton_append] at hpairwise
  obtain ⟨-, hrest, hacross⟩ := List.pairwise_append.mp hpairwise
  intro b hb
  rcases List.mem_append.mp hb with hearlier | hlater
  · exact hsymm _ _ (hacross b (mem_streamOf.mpr hearlier) a
      List.mem_cons_self)
  · exact (List.pairwise_cons.mp hrest).1 b (mem_streamOf.mpr hlater)

/-- Such an item is found at one place only. -/
theorem streamOf_split_unique {R : α → α → Prop}
    (hsymm : ∀ a b, R a b → R b a) {tag : ι}
    {items earlier later earlier' later' : List (ι × α)} {a a' : α}
    (hpairwise : (streamOf tag items).Pairwise R)
    (hsplit : items = earlier ++ (tag, a) :: later)
    (hsplit' : items = earlier' ++ (tag, a') :: later') (hsame : ¬ R a a') :
    earlier = earlier' ∧ a = a' := by
  have hothers := streamOf_pairwise_split hsymm hpairwise hsplit
  rw [hsplit'] at hsplit
  rcases List.append_eq_append_iff.mp hsplit with
    ⟨middle, hearlier, hlater⟩ | ⟨middle, hearlier, hlater⟩
  · cases middle with
    | nil =>
        rw [hearlier, List.append_nil]
        exact ⟨rfl, (Prod.mk.inj (List.cons.inj hlater).1).2.symm⟩
    | cons first middle =>
        rw [List.cons_append] at hlater
        apply absurd (hothers a' _) hsame
        rw [hearlier, ← (List.cons.inj hlater).1]
        simp
  · cases middle with
    | nil =>
        rw [hearlier, List.append_nil]
        exact ⟨rfl, (Prod.mk.inj (List.cons.inj hlater).1).2⟩
    | cons first middle =>
        rw [List.cons_append] at hlater
        apply absurd (hothers a' _) hsame
        rw [(List.cons.inj hlater).2]
        simp

end LedgerSim
