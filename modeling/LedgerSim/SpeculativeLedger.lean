import Mathlib.Algebra.BigOperators.Group.List.Basic
import Mathlib.Algebra.BigOperators.Ring.List
import Mathlib.Data.List.Nodup
import Mathlib.Logic.Function.Basic
import Mathlib.Logic.Relation
import Mathlib.Tactic.Common
import Mathlib.Tactic.Ring

/-!
# Ledgers with speculative blocks

A ledger keeps one record per coin, with the block that created the coin and
the block that spent it.  Before the next block is committed, candidates for
it may be tried: a trial writes the candidate's records into the same table,
and nothing undoes it.  Each candidate contains the outputs and the spends of
the trial before it, and so does the committed block; only the rewards of a
trial may be missing from it.

The file shows that such a table still prevents double spends and double
creations, and says what a reader at the tip sees of it.
-/

namespace SpeculativeLedger

variable {κ : Type}

/-- What the table says of a coin; `spent` is zero until the coin is spent. -/
structure Entry where
  confirmed : ℕ
  spent : ℕ

abbrev Records (κ : Type) := κ → Option Entry

/-- A record by which the coin exists and is unspent at the tip. -/
def Entry.Spendable (tip : ℕ) (e : Entry) : Prop :=
  (0 < e.confirmed ∧ e.confirmed ≤ tip) ∧ ¬ (0 < e.spent ∧ e.spent ≤ tip)

structure Block (κ : Type) where
  rewards : List κ
  outputs : List κ
  spent : List κ

namespace Block

def empty : Block κ :=
  ⟨[], [], []⟩

def created (b : Block κ) : List κ :=
  b.rewards ++ b.outputs

end Block

/-! ## The effect of a block -/

section ApplyBlock

variable [DecidableEq κ]

/-- The records after a block: its created coins are entered first, then its
spent coins are marked. -/
def applyBlock (index : ℕ) (created spent : List κ) (records : Records κ) :
    Records κ := fun n =>
  if n ∈ created then some ⟨index, if n ∈ spent then index else 0⟩
  else if n ∈ spent then (records n).map fun e => ⟨e.confirmed, index⟩
  else records n

variable {index : ℕ} {created spent : List κ} {records : Records κ} {n : κ}

theorem applyBlock_of_created (hcreated : n ∈ created) :
    applyBlock index created spent records n =
      some ⟨index, if n ∈ spent then index else 0⟩ := by
  simp [applyBlock, hcreated]

theorem applyBlock_of_spent (hcreated : n ∉ created) (hspent : n ∈ spent) :
    applyBlock index created spent records n =
      (records n).map fun e => ⟨e.confirmed, index⟩ := by
  simp [applyBlock, hcreated, hspent]

theorem applyBlock_of_spent_record {e : Entry} (hcreated : n ∉ created)
    (hspent : n ∈ spent) (he : records n = some e) :
    applyBlock index created spent records n = some ⟨e.confirmed, index⟩ := by
  rw [applyBlock_of_spent hcreated hspent, he, Option.map_some]

theorem applyBlock_of_notMem (hcreated : n ∉ created) (hspent : n ∉ spent) :
    applyBlock index created spent records n = records n := by
  simp [applyBlock, hcreated, hspent]

/-- Where a record after a block comes from. -/
theorem applyBlock_cases {e : Entry}
    (h : applyBlock index created spent records n = some e) :
    (n ∈ created ∧ e = ⟨index, if n ∈ spent then index else 0⟩) ∨
      (n ∉ created ∧ n ∈ spent ∧
        ∃ old, records n = some old ∧ e = ⟨old.confirmed, index⟩) ∨
      (n ∉ created ∧ n ∉ spent ∧ records n = some e) := by
  by_cases hcreated : n ∈ created
  · rw [applyBlock_of_created hcreated, Option.some.injEq] at h
    exact .inl ⟨hcreated, h.symm⟩
  by_cases hspent : n ∈ spent
  · rw [applyBlock_of_spent hcreated hspent, Option.map_eq_some_iff] at h
    obtain ⟨old, hold, he⟩ := h
    exact .inr (.inl ⟨hcreated, hspent, old, hold, he.symm⟩)
  · rw [applyBlock_of_notMem hcreated hspent] at h
    exact .inr (.inr ⟨hcreated, hspent, h⟩)

end ApplyBlock

/-! ## States and steps -/

structure State (κ : Type) where
  tip : ℕ
  records : Records κ
  /-- The committed blocks `1..tip`, and at `tip + 1` the outputs and spends
  of the last trial. -/
  blocks : ℕ → Block κ
  /-- The rewards of all trials so far. -/
  trialRewards : List κ

namespace State

def initial : State κ :=
  ⟨0, fun _ => none, fun _ => Block.empty, []⟩

variable [DecidableEq κ]

/-- The writes of a candidate block.  Of its rewards `kept` stay in the block,
and `tried` are remembered as rewards of a trial. -/
def write (s : State κ) (b : Block κ) (kept tried : List κ) : State κ where
  tip := s.tip
  records := applyBlock (s.tip + 1) b.created b.spent s.records
  blocks := Function.update s.blocks (s.tip + 1) ⟨kept, b.outputs, b.spent⟩
  trialRewards := tried ++ s.trialRewards

def trial (s : State κ) (b : Block κ) : State κ :=
  s.write b [] b.rewards

def commit (s : State κ) (b : Block κ) : State κ :=
  { s.write b b.rewards [] with tip := s.tip + 1 }

section Blocks

variable (s : State κ) (b : Block κ) (kept tried : List κ) {k : ℕ}

@[simp] theorem write_blocks_self :
    (s.write b kept tried).blocks (s.tip + 1) = ⟨kept, b.outputs, b.spent⟩ :=
  Function.update_self ..

theorem write_blocks_of_ne (hk : k ≠ s.tip + 1) :
    (s.write b kept tried).blocks k = s.blocks k :=
  Function.update_of_ne hk ..

@[simp] theorem trial_tip : (s.trial b).tip = s.tip := rfl

@[simp] theorem commit_tip : (s.commit b).tip = s.tip + 1 := rfl

@[simp] theorem trial_blocks_self :
    (s.trial b).blocks (s.tip + 1) = ⟨[], b.outputs, b.spent⟩ :=
  s.write_blocks_self b [] b.rewards

theorem trial_blocks_of_ne (hk : k ≠ s.tip + 1) :
    (s.trial b).blocks k = s.blocks k :=
  s.write_blocks_of_ne b [] b.rewards hk

@[simp] theorem commit_blocks_self : (s.commit b).blocks (s.tip + 1) = b :=
  s.write_blocks_self b b.rewards []

theorem commit_blocks_of_ne (hk : k ≠ s.tip + 1) :
    (s.commit b).blocks k = s.blocks k :=
  s.write_blocks_of_ne b b.rewards [] hk

theorem write_map_blocks :
    (List.range s.tip).map (fun k => (s.write b kept tried).blocks (k + 1)) =
      (List.range s.tip).map fun k => s.blocks (k + 1) := by
  apply List.map_congr_left
  intro k hk
  apply write_blocks_of_ne
  have := List.mem_range.mp hk
  omega

theorem commit_map_blocks :
    (List.range (s.tip + 1)).map (fun k => (s.commit b).blocks (k + 1)) =
      (List.range s.tip).map (fun k => s.blocks (k + 1)) ++ [b] := by
  rw [List.range_succ, List.map_append, List.map_singleton,
    commit_blocks_self]
  exact congrArg (· ++ [b]) (s.write_map_blocks b b.rewards [])

end Blocks

end State

/-! ## Admissible blocks -/

section Ledger

/-! `parent` is the coin or root that a coin comes from, `root k` is the parent
of the rewards of block `k`, and `known` are the coins there are. -/

variable (parent : κ → κ) (root : ℕ → κ) (known : Set κ)

/-- No coin is its own ancestor. -/
def Grounded : Prop :=
  WellFounded fun p n => n ∈ known ∧ p ∈ known ∧ parent n = p

/-- A candidate that the ledger accepts in a state. -/
structure Admissible (s : State κ) (b : Block κ) : Prop where
  root_ne : ∀ k ≤ s.tip, root k ≠ root (s.tip + 1)
  root_notMem : ∀ k ≤ s.tip + 1, root k ∉ known
  created_known : ∀ n ∈ b.created, n ∈ known
  spent_known : ∀ n ∈ b.spent, n ∈ known
  reward_parent : ∀ n ∈ b.rewards, parent n = root (s.tip + 1)
  output_parent : ∀ n ∈ b.outputs, parent n ∈ b.spent
  created_nodup : b.created.Nodup
  spent_nodup : b.spent.Nodup
  spendable : ∀ n ∈ b.spent,
    n ∈ b.created ∨ ∃ e, s.records n = some e ∧ e.Spendable s.tip
  pending_created : ∀ n ∈ (s.blocks (s.tip + 1)).created, n ∈ b.created
  pending_spent : ∀ n ∈ (s.blocks (s.tip + 1)).spent, n ∈ b.spent

/-- How the table, the committed blocks and the last trial fit together. -/
structure Inv (s : State κ) : Prop where
  confirmed_range : ∀ n e, s.records n = some e →
    0 < e.confirmed ∧ e.confirmed ≤ s.tip + 1
  spent_range : ∀ n e, s.records n = some e →
    e.spent = 0 ∨ e.confirmed ≤ e.spent ∧ e.spent ≤ s.tip + 1
  mem_known : ∀ n e, s.records n = some e → n ∈ known
  /-- A coin was created by the block that spent its parent. -/
  origin : ∀ n e, s.records n = some e →
    parent n = root e.confirmed ∨
      ∃ p, s.records (parent n) = some p ∧ p.spent = e.confirmed
  created_of_record : ∀ n e, s.records n = some e →
    n ∈ (s.blocks e.confirmed).created ∨ n ∈ s.trialRewards
  spent_of_record : ∀ n e, s.records n = some e → 0 < e.spent →
    n ∈ (s.blocks e.spent).spent
  record_of_created : ∀ k, ∀ n ∈ (s.blocks k).created,
    ∃ e, s.records n = some e ∧ e.confirmed = k
  record_of_spent : ∀ k, ∀ n ∈ (s.blocks k).spent,
    0 < k ∧ ∃ e, s.records n = some e ∧ e.spent = k
  created_nodup : ∀ k, (s.blocks k).created.Nodup
  spent_nodup : ∀ k, (s.blocks k).spent.Nodup
  trial_parent : ∀ n ∈ s.trialRewards, ∃ k ≤ s.tip + 1, parent n = root k

theorem inv_initial : Inv parent root known (State.initial (κ := κ)) := by
  constructor <;> simp [State.initial, Block.empty, Block.created]

variable {parent root known} {s : State κ} {b : Block κ}

/-- A candidate that creates a recorded coin repeats a trial for the same
block: its parent was spent by that trial. -/
theorem Inv.confirmed_of_created (hinv : Inv parent root known s)
    (hb : Admissible parent root known s b) (hground : Grounded parent known)
    (n : κ) (hcreated : n ∈ b.created) (e : Entry)
    (he : s.records n = some e) : e.confirmed = s.tip + 1 := by
  -- induction along the ancestors of `n`
  induction n using hground.induction generalizing e with
  | h n ih =>
      have hrange := hinv.confirmed_range n e he
      rcases hinv.origin n e he with hroot | ⟨p, hp, hspent⟩
      · rcases List.mem_append.mp hcreated with hreward | houtput
        · by_contra hne
          have hparent := hb.reward_parent n hreward
          exact hb.root_ne e.confirmed (by omega) (hroot.symm.trans hparent)
        · have hknown := hb.spent_known _ (hb.output_parent n houtput)
          rw [hroot] at hknown
          exact absurd hknown (hb.root_notMem _ hrange.2)
      · have hprange := hinv.spent_range _ p hp
        rcases List.mem_append.mp hcreated with hreward | houtput
        · have hknown := hinv.mem_known _ p hp
          rw [hb.reward_parent n hreward] at hknown
          exact absurd hknown (hb.root_notMem _ le_rfl)
        · rcases hb.spendable _ (hb.output_parent n houtput) with
            hnew | ⟨q, hq, hspendable⟩
          · have hpconfirmed := ih (parent n)
              ⟨hinv.mem_known n e he, hinv.mem_known _ p hp, rfl⟩ hnew p hp
            omega
          · obtain rfl : q = p := Option.some.inj (hq.symm.trans hp)
            have hunspent := hspendable.2
            omega

/-- A spent coin that the candidate does not create has a record, and only a
trial for the same block may have spent it. -/
theorem Inv.record_of_spendable (hinv : Inv parent root known s)
    (hb : Admissible parent root known s b) {n : κ} (hspent : n ∈ b.spent)
    (hcreated : n ∉ b.created) :
    ∃ e, s.records n = some e ∧ e.confirmed ≤ s.tip ∧
      (e.spent = 0 ∨ e.spent = s.tip + 1) := by
  rcases hb.spendable n hspent with hnew | ⟨e, he, hspendable⟩
  · exact absurd hnew hcreated
  · have hrange := hinv.spent_range n e he
    have hunspent := hspendable.2
    exact ⟨e, he, hspendable.1.2, by omega⟩

variable [DecidableEq κ]

theorem Inv.write_confirmed (hinv : Inv parent root known s)
    (hb : Admissible parent root known s b) (hground : Grounded parent known)
    {n : κ} {e : Entry} (he : s.records n = some e) :
    ∃ e', applyBlock (s.tip + 1) b.created b.spent s.records n = some e' ∧
      e'.confirmed = e.confirmed := by
  by_cases hcreated : n ∈ b.created
  · have hconfirmed := hinv.confirmed_of_created hb hground n hcreated e he
    exact ⟨_, applyBlock_of_created hcreated, hconfirmed.symm⟩
  by_cases hspent : n ∈ b.spent
  · exact ⟨_, applyBlock_of_spent_record hcreated hspent he, rfl⟩
  · exact ⟨e, by rw [applyBlock_of_notMem hcreated hspent, he], rfl⟩

theorem Inv.write_spent (hinv : Inv parent root known s)
    (hb : Admissible parent root known s b) (hground : Grounded parent known)
    {n : κ} {e : Entry} (he : s.records n = some e) (hpos : 0 < e.spent) :
    ∃ e', applyBlock (s.tip + 1) b.created b.spent s.records n = some e' ∧
      e'.spent = e.spent := by
  have hrange := hinv.spent_range n e he
  by_cases hcreated : n ∈ b.created
  · have hconfirmed := hinv.confirmed_of_created hb hground n hcreated e he
    have hindex : e.spent = s.tip + 1 := by omega
    have hpending := hinv.spent_of_record n e he hpos
    rw [hindex] at hpending
    have hspent := hb.pending_spent n hpending
    exact ⟨_, applyBlock_of_created hcreated, by simp [hspent, hindex]⟩
  by_cases hspent : n ∈ b.spent
  · obtain ⟨q, hq, -, hunspent⟩ := hinv.record_of_spendable hb hspent hcreated
    obtain rfl : q = e := Option.some.inj (hq.symm.trans he)
    refine ⟨_, applyBlock_of_spent_record hcreated hspent he, ?_⟩
    show s.tip + 1 = q.spent
    omega
  · exact ⟨e, by rw [applyBlock_of_notMem hcreated hspent, he], rfl⟩

theorem Inv.record_after_spent (hinv : Inv parent root known s)
    (hb : Admissible parent root known s b) {n : κ} (hspent : n ∈ b.spent) :
    ∃ e, applyBlock (s.tip + 1) b.created b.spent s.records n = some e ∧
      e.spent = s.tip + 1 := by
  by_cases hcreated : n ∈ b.created
  · exact ⟨_, applyBlock_of_created hcreated, by simp [hspent]⟩
  · obtain ⟨e, he, -⟩ := hinv.record_of_spendable hb hspent hcreated
    exact ⟨_, applyBlock_of_spent_record hcreated hspent he, rfl⟩

section Write

variable {kept tried : List κ}

theorem Inv.write_origin (hinv : Inv parent root known s)
    (hb : Admissible parent root known s b) (hground : Grounded parent known)
    (n : κ) (e : Entry) (he : (s.write b kept tried).records n = some e) :
    parent n = root e.confirmed ∨
      ∃ p, (s.write b kept tried).records (parent n) = some p ∧
        p.spent = e.confirmed := by
  have hkeep : ∀ old, s.records n = some old → old.confirmed = e.confirmed →
      parent n = root e.confirmed ∨
        ∃ p, (s.write b kept tried).records (parent n) = some p ∧
          p.spent = e.confirmed := by
    intro old hold hconfirmed
    rcases hinv.origin n old hold with hroot | ⟨p, hp, hspent⟩
    · exact .inl (hconfirmed ▸ hroot)
    · have hpos := (hinv.confirmed_range n old hold).1
      obtain ⟨p', hp', hspent'⟩ := hinv.write_spent hb hground hp (by omega)
      exact .inr ⟨p', hp', by omega⟩
  rcases applyBlock_cases he with
    ⟨hcreated, rfl⟩ | ⟨-, -, old, hold, rfl⟩ | ⟨-, -, hold⟩
  · rcases List.mem_append.mp hcreated with hreward | houtput
    · exact .inl (hb.reward_parent n hreward)
    · exact .inr (hinv.record_after_spent hb (hb.output_parent n houtput))
  · exact hkeep old hold rfl
  · exact hkeep e hold rfl

/-- A coin of the last trial that is not created again is not confirmed at the
new index. -/
theorem Inv.write_created_of_record (hinv : Inv parent root known s)
    (hb : Admissible parent root known s b)
    (hrewards : ∀ n ∈ b.rewards, n ∈ kept ∨ n ∈ tried)
    (n : κ) (e : Entry) (he : (s.write b kept tried).records n = some e) :
    n ∈ ((s.write b kept tried).blocks e.confirmed).created ∨
      n ∈ tried ++ s.trialRewards := by
  have hkeep : ∀ old, s.records n = some old → n ∉ b.created →
      n ∈ ((s.write b kept tried).blocks old.confirmed).created ∨
        n ∈ tried ++ s.trialRewards := by
    intro old hold hcreated
    rcases hinv.created_of_record n old hold with hblock | htrial
    · have hindex : old.confirmed ≠ s.tip + 1 := by
        intro heq
        rw [heq] at hblock
        exact hcreated (hb.pending_created n hblock)
      rw [State.write_blocks_of_ne _ _ _ _ hindex]
      exact .inl hblock
    · exact .inr (List.mem_append_right _ htrial)
  rcases applyBlock_cases he with
    ⟨hcreated, rfl⟩ | ⟨hcreated, -, old, hold, rfl⟩ | ⟨hcreated, -, hold⟩
  · rcases List.mem_append.mp hcreated with hreward | houtput
    · rcases hrewards n hreward with hmem | hmem
      · simp [Block.created, hmem]
      · simp [hmem]
    · simp [Block.created, houtput]
  · exact hkeep old hold hcreated
  · exact hkeep e hold hcreated

theorem Inv.write_spent_of_record (hinv : Inv parent root known s)
    (hb : Admissible parent root known s b) (n : κ) (e : Entry)
    (he : (s.write b kept tried).records n = some e) (hpos : 0 < e.spent) :
    n ∈ ((s.write b kept tried).blocks e.spent).spent := by
  rcases applyBlock_cases he with
    ⟨-, rfl⟩ | ⟨-, hspent, old, hold, rfl⟩ | ⟨-, hspent, hold⟩
  · by_cases hspent : n ∈ b.spent
    · simp [hspent]
    · simp [hspent] at hpos
  · simpa using hspent
  · have hblock := hinv.spent_of_record n e hold hpos
    have hindex : e.spent ≠ s.tip + 1 := by
      intro heq
      rw [heq] at hblock
      exact hspent (hb.pending_spent n hblock)
    rwa [State.write_blocks_of_ne _ _ _ _ hindex]

theorem Inv.write_record_of_created (hinv : Inv parent root known s)
    (hb : Admissible parent root known s b) (hground : Grounded parent known)
    (hkept : kept.Sublist b.rewards) (k : ℕ) (n : κ)
    (hmem : n ∈ ((s.write b kept tried).blocks k).created) :
    ∃ e, (s.write b kept tried).records n = some e ∧ e.confirmed = k := by
  by_cases hk : k = s.tip + 1
  · subst k
    rw [State.write_blocks_self] at hmem
    have hcreated : n ∈ b.created :=
      (hkept.append_right b.outputs).subset hmem
    exact ⟨_, applyBlock_of_created hcreated, rfl⟩
  · rw [State.write_blocks_of_ne _ _ _ _ hk] at hmem
    obtain ⟨e, he, rfl⟩ := hinv.record_of_created k n hmem
    exact hinv.write_confirmed hb hground he

theorem Inv.write_record_of_spent (hinv : Inv parent root known s)
    (hb : Admissible parent root known s b) (hground : Grounded parent known)
    (k : ℕ) (n : κ) (hmem : n ∈ ((s.write b kept tried).blocks k).spent) :
    0 < k ∧
      ∃ e, (s.write b kept tried).records n = some e ∧ e.spent = k := by
  by_cases hk : k = s.tip + 1
  · subst k
    rw [State.write_blocks_self] at hmem
    exact ⟨Nat.succ_pos _, hinv.record_after_spent hb hmem⟩
  · rw [State.write_blocks_of_ne _ _ _ _ hk] at hmem
    obtain ⟨hpos, e, he, rfl⟩ := hinv.record_of_spent k n hmem
    exact ⟨hpos, hinv.write_spent hb hground he hpos⟩

theorem Inv.write (hinv : Inv parent root known s)
    (hb : Admissible parent root known s b) (hground : Grounded parent known)
    (hkept : kept.Sublist b.rewards) (htried : tried ⊆ b.rewards)
    (hrewards : ∀ n ∈ b.rewards, n ∈ kept ∨ n ∈ tried) :
    Inv parent root known (s.write b kept tried) := by
  constructor
  case origin => exact hinv.write_origin hb hground
  case created_of_record => exact hinv.write_created_of_record hb hrewards
  case spent_of_record => exact hinv.write_spent_of_record hb
  case record_of_created =>
    exact hinv.write_record_of_created hb hground hkept
  case record_of_spent => exact hinv.write_record_of_spent hb hground
  case confirmed_range =>
    intro n e he
    rcases applyBlock_cases he with
      ⟨-, rfl⟩ | ⟨-, -, old, hold, rfl⟩ | ⟨-, -, hold⟩
    · simp [State.write]
    · exact hinv.confirmed_range n old hold
    · exact hinv.confirmed_range n e hold
  case spent_range =>
    intro n e he
    rcases applyBlock_cases he with
      ⟨-, rfl⟩ | ⟨-, -, old, hold, rfl⟩ | ⟨-, -, hold⟩
    · by_cases hspent : n ∈ b.spent <;> simp [State.write, hspent]
    · have hrange := hinv.confirmed_range n old hold
      exact .inr ⟨hrange.2, le_rfl⟩
    · exact hinv.spent_range n e hold
  case mem_known =>
    intro n e he
    rcases applyBlock_cases he with
      ⟨hcreated, -⟩ | ⟨-, hspent, -⟩ | ⟨-, -, hold⟩
    · exact hb.created_known n hcreated
    · exact hb.spent_known n hspent
    · exact hinv.mem_known n e hold
  case created_nodup =>
    intro k
    by_cases hk : k = s.tip + 1
    · subst k
      rw [State.write_blocks_self]
      exact hb.created_nodup.sublist (hkept.append_right b.outputs)
    · rw [State.write_blocks_of_ne _ _ _ _ hk]
      exact hinv.created_nodup k
  case spent_nodup =>
    intro k
    by_cases hk : k = s.tip + 1
    · subst k
      rw [State.write_blocks_self]
      exact hb.spent_nodup
    · rw [State.write_blocks_of_ne _ _ _ _ hk]
      exact hinv.spent_nodup k
  case trial_parent =>
    intro n hmem
    rcases List.mem_append.mp hmem with hnew | hold
    · exact ⟨s.tip + 1, le_rfl, hb.reward_parent n (htried hnew)⟩
    · exact hinv.trial_parent n hold

end Write

theorem Inv.trial (hinv : Inv parent root known s)
    (hb : Admissible parent root known s b) (hground : Grounded parent known) :
    Inv parent root known (s.trial b) :=
  hinv.write hb hground (List.nil_sublist _) (List.Subset.refl _)
    fun _ hn => .inr hn

theorem Inv.commit (hinv : Inv parent root known s)
    (hb : Admissible parent root known s b) (hground : Grounded parent known) :
    Inv parent root known (s.commit b) := by
  have hwrite : Inv parent root known (s.write b b.rewards []) :=
    hinv.write hb hground (List.Sublist.refl _) (List.nil_subset _)
      fun _ hn => .inl hn
  refine { hwrite with
    confirmed_range := ?_, spent_range := ?_, trial_parent := ?_ }
  · intro n e he
    have hrange := hwrite.confirmed_range n e he
    exact ⟨hrange.1, hrange.2.trans (Nat.le_succ _)⟩
  · intro n e he
    rcases hwrite.spent_range n e he with hzero | hrange
    · exact .inl hzero
    · exact .inr ⟨hrange.1, hrange.2.trans (Nat.le_succ _)⟩
  · intro n hmem
    obtain ⟨k, hk, hparent⟩ := hwrite.trial_parent n hmem
    exact ⟨k, hk.trans (Nat.le_succ _), hparent⟩

/-! ## Runs -/

variable (parent root known) in
inductive Step : State κ → State κ → Prop
  | trial {s : State κ} {b : Block κ} :
      Admissible parent root known s b → Step s (s.trial b)
  | commit {s : State κ} {b : Block κ} :
      Admissible parent root known s b → Step s (s.commit b)

variable (parent root known) in
/-- The states of the runs from an empty ledger. -/
def Reachable (s : State κ) : Prop :=
  Relation.ReflTransGen (Step parent root known) State.initial s

theorem Reachable.inv (hground : Grounded parent known)
    (hs : Reachable parent root known s) : Inv parent root known s := by
  induction hs with
  | refl => exact inv_initial parent root known
  | tail _ hstep ih =>
      cases hstep with
      | trial hb => exact ih.trial hb hground
      | commit hb => exact ih.commit hb hground

omit [DecidableEq κ] in
theorem Inv.created_once (hinv : Inv parent root known s) {j k : ℕ} {n : κ}
    (hj : n ∈ (s.blocks j).created) (hk : n ∈ (s.blocks k).created) :
    j = k := by
  obtain ⟨e, he, rfl⟩ := hinv.record_of_created j n hj
  obtain ⟨e', he', rfl⟩ := hinv.record_of_created k n hk
  rw [Option.some.inj (he.symm.trans he')]

omit [DecidableEq κ] in
theorem Inv.spent_once (hinv : Inv parent root known s) {j k : ℕ} {n : κ}
    (hj : n ∈ (s.blocks j).spent) (hk : n ∈ (s.blocks k).spent) : j = k := by
  obtain ⟨-, e, he, rfl⟩ := hinv.record_of_spent j n hj
  obtain ⟨-, e', he', rfl⟩ := hinv.record_of_spent k n hk
  rw [Option.some.inj (he.symm.trans he')]

omit [DecidableEq κ] in
/-- A spent coin was created no later than it was spent, unless it is a reward
of a trial. -/
theorem Inv.created_of_spent (hinv : Inv parent root known s) {k : ℕ} {n : κ}
    (hk : n ∈ (s.blocks k).spent) :
    (∃ j, 0 < j ∧ j ≤ k ∧ n ∈ (s.blocks j).created) ∨
      n ∈ s.trialRewards := by
  obtain ⟨hpos, e, he, rfl⟩ := hinv.record_of_spent k n hk
  have hconfirmed := hinv.confirmed_range n e he
  have hspent := hinv.spent_range n e he
  rcases hinv.created_of_record n e he with hcreated | htrial
  · exact .inl ⟨e.confirmed, hconfirmed.1, by omega, hcreated⟩
  · exact .inr htrial

/-! ## The supply -/

def State.chainCreated (s : State κ) : List κ :=
  (List.range s.tip).flatMap fun k => (s.blocks (k + 1)).created

def State.chainSpent (s : State κ) : List κ :=
  (List.range s.tip).flatMap fun k => (s.blocks (k + 1)).spent

omit [DecidableEq κ] in
theorem Inv.chainCreated_nodup (hinv : Inv parent root known s) :
    s.chainCreated.Nodup := by
  unfold State.chainCreated
  rw [List.nodup_flatMap]
  refine ⟨fun k _ => hinv.created_nodup (k + 1), ?_⟩
  refine (List.nodup_range (n := s.tip)).imp ?_
  intro j k hne n hj hk
  exact hne (Nat.succ_injective (hinv.created_once hj hk))

omit [DecidableEq κ] in
theorem Inv.chainSpent_nodup (hinv : Inv parent root known s) :
    s.chainSpent.Nodup := by
  unfold State.chainSpent
  rw [List.nodup_flatMap]
  refine ⟨fun k _ => hinv.spent_nodup (k + 1), ?_⟩
  refine (List.nodup_range (n := s.tip)).imp ?_
  intro j k hne n hj hk
  exact hne (Nat.succ_injective (hinv.spent_once hj hk))

omit [DecidableEq κ] in
theorem Inv.chainSpent_subset (hinv : Inv parent root known s)
    (hchain : ∀ n ∈ s.chainSpent, n ∉ s.trialRewards) :
    s.chainSpent ⊆ s.chainCreated := by
  intro n hn
  obtain ⟨k, hk, hspent⟩ := List.mem_flatMap.mp hn
  rcases hinv.created_of_spent hspent with ⟨j, hpos, hj, hcreated⟩ | htrial
  · obtain ⟨i, rfl⟩ : ∃ i, j = i + 1 := ⟨j - 1, by omega⟩
    have hi : i < s.tip := by
      have := List.mem_range.mp hk
      omega
    exact List.mem_flatMap.mpr ⟨i, List.mem_range.mpr hi, hcreated⟩
  · exact absurd htrial (hchain n hn)

/-- Leaving out distinct items of a duplicate-free list subtracts their sum. -/
theorem sum_filter_notMem (amount : κ → ℤ) {created spent : List κ}
    (hcreated : created.Nodup) (hspent : spent.Nodup)
    (hsub : spent ⊆ created) :
    ((created.filter (· ∉ spent)).map amount).sum =
      (created.map amount).sum - (spent.map amount).sum := by
  have hperm : (created.filter (· ∈ spent)).Perm spent := by
    rw [List.perm_ext_iff_of_nodup (hcreated.filter _) hspent]
    intro n
    simp only [List.mem_filter, decide_eq_true_eq, and_iff_right_iff_imp]
    exact fun hn => hsub hn
  have hsplit := (List.filter_append_perm (fun n => decide (n ∈ spent))
    created).map amount
  have hsum := hsplit.sum_eq
  rw [List.map_append, List.sum_append, (hperm.map amount).sum_eq] at hsum
  have hnot : (created.filter fun n => !decide (n ∈ spent)) =
      created.filter (· ∉ spent) := by
    apply List.filter_congr
    intro n _
    simp
  rw [hnot] at hsum
  omega

/-- When every block creates `reward` more than it spends and no reward of a
trial is spent, the unspent coins of the chain are worth `reward` per block. -/
theorem Inv.supply (hinv : Inv parent root known s) (amount : κ → ℤ)
    (reward : ℤ)
    (hbalanced : ∀ k < s.tip,
      ((s.blocks (k + 1)).created.map amount).sum -
        ((s.blocks (k + 1)).spent.map amount).sum = reward)
    (hchain : ∀ n ∈ s.chainSpent, n ∉ s.trialRewards) :
    ((s.chainCreated.filter (· ∉ s.chainSpent)).map amount).sum =
      reward * s.tip := by
  rw [sum_filter_notMem amount hinv.chainCreated_nodup hinv.chainSpent_nodup
    (hinv.chainSpent_subset hchain)]
  have hprefix : ∀ m ≤ s.tip,
      (((List.range m).flatMap fun k =>
          (s.blocks (k + 1)).created).map amount).sum -
        (((List.range m).flatMap fun k =>
          (s.blocks (k + 1)).spent).map amount).sum = reward * m := by
    intro m
    induction m with
    | zero => simp
    | succ m ih =>
        intro hm
        have hblock := hbalanced m hm
        have hrest := ih (Nat.le_of_succ_le hm)
        rw [List.range_succ]
        simp only [List.flatMap_append, List.flatMap_singleton, List.map_append,
          List.sum_append, Nat.cast_succ]
        rw [mul_add, mul_one]
        omega
  exact hprefix s.tip le_rfl

/-! ## Reading at the tip -/

omit [DecidableEq κ] in
/-- The records as a reader at the tip sees them: nothing is confirmed or
spent above the tip. -/
def viewAt (tip : ℕ) (records : Records κ) : Records κ := fun n =>
  (records n).bind fun e =>
    if tip < e.confirmed then none
    else some ⟨e.confirmed, if tip < e.spent then 0 else e.spent⟩

/-- The records after the first blocks of a chain. -/
def replay (blocks : ℕ → Block κ) : ℕ → Records κ
  | 0 => fun _ => none
  | k + 1 =>
      applyBlock (k + 1) (blocks (k + 1)).created (blocks (k + 1)).spent
        (replay blocks k)

theorem replay_update {blocks : ℕ → Block κ} {k tip : ℕ} (b : Block κ)
    (hk : tip < k) : replay (Function.update blocks k b) tip =
      replay blocks tip := by
  induction tip with
  | zero => rfl
  | succ tip ih =>
      have hne : tip + 1 ≠ k := by omega
      simp only [replay, Function.update_of_ne hne, ih (by omega)]

omit [DecidableEq κ] in
theorem viewAt_of_record {tip : ℕ} {records : Records κ} {n : κ} {e : Entry}
    (he : records n = some e) : viewAt tip records n =
      if tip < e.confirmed then none
      else some ⟨e.confirmed, if tip < e.spent then 0 else e.spent⟩ := by
  simp [viewAt, he]

theorem Inv.viewAt_trial (hinv : Inv parent root known s)
    (hb : Admissible parent root known s b) (hground : Grounded parent known) :
    viewAt s.tip (s.trial b).records = viewAt s.tip s.records := by
  funext n
  change viewAt s.tip
    (applyBlock (s.tip + 1) b.created b.spent s.records) n = _
  by_cases hcreated : n ∈ b.created
  · rw [viewAt_of_record (applyBlock_of_created hcreated), if_pos (by simp)]
    cases hold : s.records n with
    | none => simp [viewAt, hold]
    | some e =>
        have hconfirmed :=
          hinv.confirmed_of_created hb hground n hcreated e hold
        rw [viewAt_of_record hold, if_pos (by omega)]
  by_cases hspent : n ∈ b.spent
  · obtain ⟨e, he, hconfirmed, hunspent⟩ :=
      hinv.record_of_spendable hb hspent hcreated
    rw [viewAt_of_record (applyBlock_of_spent_record hcreated hspent he),
      viewAt_of_record he]
    rcases hunspent with hzero | hindex
    · simp [hzero]
    · simp [hindex]
  · simp only [viewAt, applyBlock_of_notMem hcreated hspent]

/-- A committed block acts on what the tip sees, provided that it contains the
rewards of every trial for its index. -/
theorem Inv.viewAt_commit (hinv : Inv parent root known s)
    (hb : Admissible parent root known s b)
    (hrewards : ∀ n ∈ s.trialRewards, parent n = root (s.tip + 1) →
      n ∈ b.created) :
    viewAt (s.tip + 1) (s.commit b).records =
      applyBlock (s.tip + 1) b.created b.spent (viewAt s.tip s.records) := by
  funext n
  change viewAt (s.tip + 1)
    (applyBlock (s.tip + 1) b.created b.spent s.records) n = _
  by_cases hcreated : n ∈ b.created
  · rw [viewAt_of_record (applyBlock_of_created hcreated),
      applyBlock_of_created hcreated]
    by_cases hspent : n ∈ b.spent <;> simp [hspent]
  by_cases hspent : n ∈ b.spent
  · obtain ⟨e, he, hconfirmed, -⟩ :=
      hinv.record_of_spendable hb hspent hcreated
    have hview : viewAt s.tip s.records n =
        some ⟨e.confirmed, if s.tip < e.spent then 0 else e.spent⟩ := by
      rw [viewAt_of_record he, if_neg (by omega)]
    rw [viewAt_of_record (applyBlock_of_spent_record hcreated hspent he),
      applyBlock_of_spent_record hcreated hspent hview, if_neg (by simp; omega)]
    simp
  rw [applyBlock_of_notMem hcreated hspent]
  simp only [viewAt, applyBlock_of_notMem hcreated hspent]
  cases hold : s.records n with
  | none => rfl
  | some e =>
      have hconfirmed : e.confirmed ≤ s.tip := by
        by_contra hlt
        have hrange := hinv.confirmed_range n e hold
        have hindex : e.confirmed = s.tip + 1 := by omega
        rcases hinv.created_of_record n e hold with hblock | htrial
        · rw [hindex] at hblock
          exact hcreated (hb.pending_created n hblock)
        rcases hinv.origin n e hold with hroot | ⟨p, hp, -⟩
        · exact hcreated (hrewards n htrial (hindex ▸ hroot))
        · obtain ⟨k, hk, hparent⟩ := hinv.trial_parent n htrial
          have hknown := hinv.mem_known _ p hp
          rw [hparent] at hknown
          exact hb.root_notMem k hk hknown
      have hunspent : e.spent ≤ s.tip := by
        by_contra hlt
        have hrange := hinv.spent_range n e hold
        have hblock := hinv.spent_of_record n e hold (by omega)
        have hindex : e.spent = s.tip + 1 := by omega
        rw [hindex] at hblock
        exact hspent (hb.pending_spent n hblock)
      simp only [Option.bind_some]
      rw [if_neg (by omega), if_neg (by omega), if_neg (by omega),
        if_neg (by omega)]

/-- The reader at the tip sees the replay of the committed blocks. -/
def Faithful (s : State κ) : Prop :=
  viewAt s.tip s.records = replay s.blocks s.tip

theorem faithful_initial : Faithful (State.initial (κ := κ)) := rfl

theorem Faithful.trial (hfaithful : Faithful s)
    (hinv : Inv parent root known s) (hb : Admissible parent root known s b)
    (hground : Grounded parent known) : Faithful (s.trial b) := by
  calc
    viewAt s.tip (s.trial b).records = viewAt s.tip s.records :=
      hinv.viewAt_trial hb hground
    _ = replay s.blocks s.tip := hfaithful
    _ = replay (s.trial b).blocks s.tip :=
      (replay_update _ (Nat.lt_succ_self _)).symm

theorem Faithful.commit (hfaithful : Faithful s)
    (hinv : Inv parent root known s) (hb : Admissible parent root known s b)
    (hrewards : ∀ n ∈ s.trialRewards, parent n = root (s.tip + 1) →
      n ∈ b.created) : Faithful (s.commit b) := by
  calc
    viewAt (s.tip + 1) (s.commit b).records =
        applyBlock (s.tip + 1) b.created b.spent (viewAt s.tip s.records) :=
      hinv.viewAt_commit hb hrewards
    _ = applyBlock (s.tip + 1) b.created b.spent
          (replay (s.commit b).blocks s.tip) := by
      rw [hfaithful]
      exact congrArg _ (replay_update _ (Nat.lt_succ_self _)).symm
    _ = replay (s.commit b).blocks (s.tip + 1) := by
      rw [replay, State.commit_blocks_self]

end Ledger

end SpeculativeLedger
