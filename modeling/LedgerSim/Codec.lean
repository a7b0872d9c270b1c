import LedgerSim.Exec

/-!
# Self-delimiting codecs

A writer turns a value into a string, a reader takes a value from the front of
a stream.  When the reader stops where the writer stopped, the two can be
composed field by field and item by item.  A reader may forget a part of the
value; `view` is what it returns.
-/

namespace Codec

variable {ε σ α β : Type}

abbrev Reader (ε σ α : Type) : Type :=
  StateT (List σ) (Except ε) α

abbrev Writer (ε σ α : Type) : Type :=
  α → Except ε (List σ)

/-- Whatever follows the string of a value, the reader returns the value and
leaves the rest. -/
def Undoes (read : Reader ε σ α) (view : α → α) (write : Writer ε σ α) :
    Prop :=
  ∀ x b, write x = .ok b → ∀ rest, read (b ++ rest) = .ok (view x, rest)

/-- Every value that fits has a string, and reads back from it. -/
def RoundTrips (read : Reader ε σ α) (view : α → α) (write : Writer ε σ α)
    (Fits : α → Prop) : Prop :=
  ∀ x, Fits x → ∃ b, write x = .ok b ∧
    ∀ rest, read (b ++ rest) = .ok (view x, rest)

/-- The reader only accepts strings that the writer writes. -/
def Covers (read : Reader ε σ α) (write : Writer ε σ α) : Prop :=
  ∀ f x rest, read f = .ok (x, rest) → ∃ b, write x = .ok b ∧ f = b ++ rest

theorem bind_eq_ok_iff {read : Reader ε σ α} {f : α → Reader ε σ β}
    {s : List σ} {r : β × List σ} :
    (read >>= f) s = .ok r ↔
      ∃ x rest, read s = .ok (x, rest) ∧ f x rest = .ok r := by
  change (read s >>= fun p => f p.1 p.2) = .ok r ↔ _
  rw [Except.bind_eq_ok_iff]
  exact Prod.exists

section Undoes

variable {read : Reader ε σ α} {view : α → α} {write : Writer ε σ α}

/-- One field is read, and the rest of the record goes on behind it. -/
theorem Undoes.bind_append (h : Undoes read view write) {x : α} {b : List σ}
    (hx : write x = .ok b) (f : α → Reader ε σ β) (rest : List σ) :
    (read >>= f) (b ++ rest) = f (view x) rest := by
  change (read (b ++ rest) >>= fun p => f p.1 p.2) = _
  rw [h x b hx rest]
  rfl

theorem Undoes.roundTrips (h : Undoes read view write) {Fits : α → Prop}
    (hfits : ∀ x, Fits x → ∃ b, write x = .ok b) :
    RoundTrips read view write Fits := by
  intro x hx
  obtain ⟨b, hb⟩ := hfits x hx
  exact ⟨b, hb, h x b hb⟩

/-- Values with one string are read as the same value. -/
theorem Undoes.view_eq (h : Undoes read view write) {x y : α} {b : List σ}
    (hx : write x = .ok b) (hy : write y = .ok b) : view x = view y := by
  have hread := (h x b hx []).symm.trans (h y b hy [])
  exact (Prod.mk.inj (Except.ok.inj hread)).1

/-! ## Items -/

def readItems (read : Reader ε σ α) : ℕ → Reader ε σ (List α)
  | 0 => pure []
  | count + 1 => do
      let item ← read
      let items ← readItems read count
      pure (item :: items)

def writeItems (write : Writer ε σ α) : Writer ε σ (List α)
  | [] => .ok []
  | item :: items => do
      let first ← write item
      let rest ← writeItems write items
      .ok (first ++ rest)

theorem Undoes.items (h : Undoes read view write) {items : List α}
    {b : List σ} (hitems : writeItems write items = .ok b) (rest : List σ) :
    readItems read items.length (b ++ rest) = .ok (items.map view, rest) := by
  induction items generalizing b with
  | nil =>
      obtain rfl := Except.ok.inj hitems
      rfl
  | cons item items ih =>
      obtain ⟨first, hfirst, hitems⟩ := Except.bind_eq_ok_iff.mp hitems
      obtain ⟨others, hothers, hb⟩ := Except.bind_eq_ok_iff.mp hitems
      obtain rfl := Except.ok.inj hb
      rw [List.append_assoc]
      change (read >>= fun item => readItems read items.length >>=
        fun items => pure (item :: items)) (first ++ (others ++ rest)) = _
      rw [h.bind_append hfirst]
      change (readItems read items.length (others ++ rest) >>= _) = _
      rw [ih hothers]
      rfl

theorem exists_writeItems {items : List α}
    (h : ∀ item ∈ items, ∃ b, write item = .ok b) :
    ∃ b, writeItems write items = .ok b := by
  induction items with
  | nil => exact ⟨[], rfl⟩
  | cons item items ih =>
      obtain ⟨⟨first, hfirst⟩, hitems⟩ := List.forall_mem_cons.mp h
      obtain ⟨rest, hrest⟩ := ih hitems
      exact ⟨_, Except.bind_eq_ok hfirst (Except.bind_eq_ok hrest rfl)⟩

end Undoes

end Codec
