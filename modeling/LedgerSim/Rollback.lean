import LedgerSim.Augmentation

/-!
# Rolling a database back

`rollback_to_block` means to forget what the blocks above an index wrote, by
assigning to the fields of the records.  The records are frozen dataclasses, so
the first assignment raises, and a rollback only succeeds when it has nothing
to undo.
-/

namespace LedgerSim

variable (E : Environment)

/-! ## The method -/

inductive UnspentField where
  | confirmedBlockIndex
  | spentBlockIndex

/-- `self.field = value`.  `streamable` builds frozen dataclasses: for every
field `__setattr__` raises a `FrozenInstanceError`, which is an
`AttributeError`. -/
def Unspent.setattr (_self : Unspent) (_field : UnspentField) (_value : ℕ) :
    Except Exn Unit :=
  .error PyException.attributeError

/-- One round of the loop in `rollback_to_block`. -/
def rollbackRecord (blockIndex : ℕ) (v : Unspent) : Except Exn Unit := do
  if blockIndex < v.spentBlockIndex then v.setattr .spentBlockIndex 0
  if blockIndex < v.confirmedBlockIndex then v.setattr .confirmedBlockIndex 0

/-- `db.rollback_to_block(block_index)`; only a `RAM_DB` has the method. -/
def rollbackToBlock (db : Ref) (blockIndex : ℕ) : DbM Unit := do
  let heap ← Exec.get
  if (heap db).cls = .ramDB then
    Exec.ofExcept
      ((heap db).unspentDb.currentValues.forM (rollbackRecord blockIndex))
  else Exec.throw PyException.attributeError

/-- The record names a block above the index. -/
def Unspent.IsAbove (blockIndex : ℕ) (unspent : Unspent) : Prop :=
  blockIndex < unspent.spentBlockIndex ∨
    blockIndex < unspent.confirmedBlockIndex

def Database.HasAbove (db : Database) (blockIndex : ℕ) : Prop :=
  ∃ name unspent, db.unspentForCoinName name = some unspent ∧
    unspent.IsAbove blockIndex

theorem rollbackRecord_ok_iff {blockIndex : ℕ} {v : Unspent} :
    rollbackRecord blockIndex v = .ok () ↔ ¬ v.IsAbove blockIndex := by
  unfold rollbackRecord Unspent.IsAbove Unspent.setattr
  rw [not_or]
  by_cases hspent : blockIndex < v.spentBlockIndex
  · simp [hspent, bind, Except.bind]
  · by_cases hconfirmed : blockIndex < v.confirmedBlockIndex
    · simp [hspent, hconfirmed]
    · simp [hspent, hconfirmed, pure, Except.pure]

/-- A rollback changes no database, and it succeeds when no record names a
block above the index. -/
theorem rollbackToBlock_run {heap : Heap} {db : Ref}
    (hcls : (heap db).cls = .ramDB) (blockIndex : ℕ) :
    ((rollbackToBlock db blockIndex).run heap).2 = heap ∧
      (((rollbackToBlock db blockIndex).run heap).1 = .ok () ↔
        ¬ (heap db).HasAbove blockIndex) := by
  unfold rollbackToBlock
  rw [Exec.run_bind_of_ok (Exec.run_get heap), if_pos hcls,
    Exec.run_ofExcept]
  refine ⟨rfl, ?_⟩
  rw [Except.forM_eq_ok_iff]
  simp only [rollbackRecord_ok_iff, Dict.mem_currentValues_iff]
  constructor
  · rintro h ⟨name, unspent, hrecord, habove⟩
    exact h unspent ⟨name, hrecord⟩ habove
  · rintro h unspent ⟨name, hrecord⟩ habove
    exact h ⟨name, unspent, hrecord, habove⟩

/-! ## Blocks -/

/-- What a block hands to `apply_deltas`. -/
structure BlockDeltas where
  additions : List Coin
  removals : List Bytes32

/-- The blocks above `index`, applied in turn to one `RAM_DB`. -/
def applyBlocks (db : Ref) : ℕ → List BlockDeltas → DbM Unit
  | _, [] => pure ()
  | index, block :: blocks => do
      applyDeltas E (index + 1) block.additions block.removals db db
      applyBlocks db (index + 1) blocks

/-- The heap after the blocks `1, 2, …` have been applied to a new `RAM_DB`. -/
def afterBlocks (db : Ref) (blocks : List BlockDeltas) : Heap :=
  ((applyBlocks E db 0 blocks).run fun _ => Database.ramDB).2

/-- The coins of the block are new, and those that it removes are unspent or
its own. -/
structure BlockDeltas.Fits (block : BlockDeltas)
    (unspentFor : Bytes32 → Option Unspent) : Prop where
  additions : ∀ coin ∈ block.additions, unspentFor (coin.name E) = none
  removals : ∀ name ∈ block.removals,
    name ∈ block.additions.map (Coin.name E) ∨
      ∃ unspent, unspentFor name = some unspent ∧ unspent.spentBlockIndex = 0

def BlockDeltas.applyTo (block : BlockDeltas) (index : ℕ) (db : Database) :
    Database :=
  db.applyBlock E index block.additions block.removals

/-- The database after the blocks above `index`. -/
def Database.applyBlocks (db : Database) : ℕ → List BlockDeltas → Database
  | _, [] => db
  | index, block :: blocks =>
      (block.applyTo E (index + 1) db).applyBlocks (index + 1) blocks

/-- Every block fits the records that the blocks before it left. -/
def FittingBlocks (db : Database) : ℕ → List BlockDeltas → Prop
  | _, [] => True
  | index, block :: blocks =>
      block.Fits E db.unspentForCoinName ∧
        FittingBlocks (block.applyTo E (index + 1) db) (index + 1) blocks

variable {E}

theorem BlockDeltas.Fits.recorded {block : BlockDeltas}
    {unspentFor : Bytes32 → Option Unspent} (h : block.Fits E unspentFor) :
    block.removals.all (recorded E block.additions unspentFor) = true := by
  rw [List.all_eq_true]
  intro name hname
  unfold LedgerSim.recorded
  rcases h.removals name hname with hadded | ⟨unspent, hrecord, -⟩
  · simp only [hadded, decide_true, Bool.true_or]
  · simp only [hrecord, Option.isSome_some, Bool.or_true]

theorem BlockDeltas.Fits.run {block : BlockDeltas} {heap : Heap} {db : Ref}
    (h : block.Fits E (heap db).unspentForCoinName)
    (hcls : (heap db).cls = .ramDB) (index : ℕ) :
    (applyDeltas E index block.additions block.removals db db).run heap =
      (.ok (), heap.put db (block.applyTo E index (heap db))) := by
  have hunspent : (heap db).cls.isUnspentDB = true := by
    rw [hcls]
    rfl
  have hstorage : (heap db).cls.isStorage = true := by
    rw [hcls]
    rfl
  have happlied : appliedHeap E heap db db index block.additions
      block.removals = heap.put db (block.applyTo E index (heap db)) :=
    appliedHeap_of_recorded E h.recorded
  rw [applyDeltas_run E hunspent hstorage, if_pos h.recorded]
  exact congrArg (Prod.mk _) happlied

theorem applyBlocks_run {heap : Heap} {db : Ref} {index : ℕ}
    {blocks : List BlockDeltas} (h : FittingBlocks E (heap db) index blocks)
    (hcls : (heap db).cls = .ramDB) :
    (applyBlocks E db index blocks).run heap =
      (.ok (), heap.put db ((heap db).applyBlocks E index blocks)) := by
  induction blocks generalizing heap index with
  | nil =>
      refine congrArg (Prod.mk _) (funext fun other => ?_)
      by_cases hother : other = db
      · subst hother
        exact (Heap.put_self heap other _).symm
      · exact (Heap.put_of_ne heap _ hother).symm
  | cons block blocks ih =>
      obtain ⟨hblock, hblocks⟩ := h
      have hrun := hblock.run hcls (index + 1)
      unfold applyBlocks
      rw [Exec.run_bind_of_ok hrun, ih]
      · refine congrArg (Prod.mk _) (funext fun other => ?_)
        by_cases hother : other = db
        · subst hother
          simp only [Heap.put_self, Database.applyBlocks]
        · rw [Heap.put_of_ne _ _ hother, Heap.put_of_ne _ _ hother,
            Heap.put_of_ne _ _ hother]
      · rw [Heap.put_self]
        exact hblocks
      · rw [Heap.put_self]
        exact hcls

theorem afterBlocks_eq {db : Ref} {blocks : List BlockDeltas}
    (h : FittingBlocks E Database.ramDB 0 blocks) :
    afterBlocks E db blocks db = Database.ramDB.applyBlocks E 0 blocks := by
  unfold afterBlocks
  have hrun := @applyBlocks_run E (fun _ => Database.ramDB) db 0 blocks h rfl
  rw [hrun]
  exact Heap.put_self (fun _ => Database.ramDB) db _

theorem Database.applyBlocks_append (db : Database) (index : ℕ)
    (blocks blocks' : List BlockDeltas) :
    db.applyBlocks E index (blocks ++ blocks') =
      (db.applyBlocks E index blocks).applyBlocks E (index + blocks.length)
        blocks' := by
  induction blocks generalizing db index with
  | nil => rfl
  | cons block blocks ih =>
      rw [List.cons_append, Database.applyBlocks, ih, List.length_cons,
        Nat.add_right_comm, Nat.add_assoc]
      rfl

theorem FittingBlocks.of_append {db : Database} {index : ℕ}
    {blocks blocks' : List BlockDeltas}
    (h : FittingBlocks E db index (blocks ++ blocks')) :
    FittingBlocks E db index blocks ∧
      FittingBlocks E (db.applyBlocks E index blocks)
        (index + blocks.length) blocks' := by
  induction blocks generalizing db index with
  | nil => exact ⟨trivial, h⟩
  | cons block blocks ih =>
      have hrest := ih h.2
      refine ⟨⟨h.1, hrest.1⟩, ?_⟩
      rw [List.length_cons, ← Nat.add_assoc, Nat.add_right_comm]
      exact hrest.2

/-! ## The indices in the records -/

/-- A block's own index is the only new one in the records. -/
theorem BlockDeltas.applyTo_isAbove {block : BlockDeltas} {index k : ℕ}
    {db : Database} (hindex : index ≤ k) (h : ¬ db.HasAbove k) :
    ¬ (block.applyTo E index db).HasAbove k := by
  rintro ⟨name, unspent, hrecord, habove⟩
  unfold BlockDeltas.applyTo at hrecord
  rw [Database.applyBlock_unspentForCoinName] at hrecord
  unfold blockRecords at hrecord
  unfold Unspent.IsAbove at habove
  split_ifs at hrecord with hadded hremoved hremoved
  · rw [← Option.some.inj hrecord] at habove
    dsimp only at habove
    omega
  · rw [← Option.some.inj hrecord] at habove
    dsimp only at habove
    omega
  · obtain ⟨old, hold, rfl⟩ := Option.map_eq_some_iff.mp hrecord
    apply h
    refine ⟨name, old, hold, .inr ?_⟩
    dsimp only at habove
    omega
  · exact h ⟨name, unspent, hrecord, habove⟩

theorem Database.applyBlocks_isAbove {db : Database} {index k : ℕ}
    {blocks : List BlockDeltas} (hindex : index + blocks.length ≤ k)
    (h : ¬ db.HasAbove k) :
    ¬ (db.applyBlocks E index blocks).HasAbove k := by
  induction blocks generalizing db index with
  | nil => exact h
  | cons block blocks ih =>
      rw [List.length_cons] at hindex
      apply ih
      · omega
      · exact BlockDeltas.applyTo_isAbove (by omega) h

def BlockDeltas.IsEmpty (block : BlockDeltas) : Prop :=
  block.additions = [] ∧ block.removals = []

theorem BlockDeltas.IsEmpty.applyTo_eq {block : BlockDeltas}
    (h : block.IsEmpty) (index : ℕ) (db : Database) :
    block.applyTo E index db = db := by
  unfold BlockDeltas.applyTo
  rw [h.1, h.2]
  rfl

/-- A block that removes a coin leaves its own index in the record. -/
theorem BlockDeltas.Fits.removed_isAbove {block : BlockDeltas} {index k : ℕ}
    {unspentFor : Bytes32 → Option Unspent} (h : block.Fits E unspentFor)
    (hindex : k < index) : ∀ name ∈ block.removals, ∃ unspent,
      blockRecords index (block.additions.map (Coin.name E)) block.removals
        unspentFor name = some unspent ∧
      unspent.IsAbove k := by
  intro name hname
  unfold blockRecords
  by_cases hadded : name ∈ block.additions.map (Coin.name E)
  · rw [if_pos hadded]
    exact ⟨_, rfl, .inr hindex⟩
  · obtain ⟨old, hold, -⟩ := (h.removals name hname).resolve_left hadded
    rw [if_neg hadded, if_pos hname, hold]
    exact ⟨_, rfl, .inl hindex⟩

/-- A block above the index leaves a record that names it, and keeps those that
name another. -/
theorem BlockDeltas.Fits.hasAbove_iff {block : BlockDeltas} {index k : ℕ}
    {db : Database} (h : block.Fits E db.unspentForCoinName)
    (hindex : k < index) :
    (block.applyTo E index db).HasAbove k ↔
      db.HasAbove k ∨ ¬ block.IsEmpty := by
  have hrecords : (block.applyTo E index db).unspentForCoinName =
      blockRecords index (block.additions.map (Coin.name E)) block.removals
        db.unspentForCoinName :=
    Database.applyBlock_unspentForCoinName E db index _ _
  constructor
  · intro habove
    by_cases hempty : block.IsEmpty
    · rw [hempty.applyTo_eq] at habove
      exact .inl habove
    · exact .inr hempty
  · intro hcases
    unfold Database.HasAbove
    rw [hrecords]
    have hremoved := h.removed_isAbove hindex
    rcases hcases with ⟨name, unspent, hrecord, habove⟩ | hnot
    · refine ⟨name, ?_⟩
      by_cases hname : name ∈ block.removals
      · exact hremoved name hname
      · have hadded : name ∉ block.additions.map (Coin.name E) := by
          intro hmem
          obtain ⟨coin, hcoin, rfl⟩ := List.mem_map.mp hmem
          rw [h.additions coin hcoin] at hrecord
          cases hrecord
        refine ⟨unspent, ?_, habove⟩
        unfold blockRecords
        rw [if_neg hadded, if_neg hname]
        exact hrecord
    · unfold BlockDeltas.IsEmpty at hnot
      cases hadditions : block.additions with
      | cons coin rest =>
          refine ⟨coin.name E, ?_⟩
          unfold blockRecords
          rw [if_pos (by simp)]
          exact ⟨_, rfl, .inr hindex⟩
      | nil =>
          rw [hadditions] at hremoved
          cases hremovals : block.removals with
          | nil => exact absurd ⟨hadditions, hremovals⟩ hnot
          | cons name rest =>
              have hname := hremoved name (by simp [hremovals])
              rw [hremovals] at hname
              exact ⟨name, hname⟩

theorem FittingBlocks.hasAbove_iff {db : Database} {index k : ℕ}
    {blocks : List BlockDeltas} (h : FittingBlocks E db index blocks)
    (hindex : k ≤ index) :
    (db.applyBlocks E index blocks).HasAbove k ↔
      db.HasAbove k ∨ ∃ block ∈ blocks, ¬ block.IsEmpty := by
  induction blocks generalizing db index with
  | nil => simp [Database.applyBlocks]
  | cons block blocks ih =>
      unfold Database.applyBlocks
      rw [ih h.2 (by omega), h.1.hasAbove_iff (by omega), or_assoc]
      simp only [List.mem_cons, exists_eq_or_imp]

/-! ## Rollback -/

/-- A record, or none, by which the removal check does not know a coin. -/
def UnknownRecord (tipIndex : ℕ) (record : Option Unspent) : Prop :=
  ∀ unspent, record = some unspent →
    unspent.confirmedBlockIndex = 0 ∨ tipIndex < unspent.confirmedBlockIndex

/-- A coin that the block does not add is answered with `UNKNOWN_UNSPENT`
exactly when its record is such. -/
theorem checkRemoval_unknownUnspent_iff {tipIndex : ℕ} {additions : List Coin}
    {unspentFor : Bytes32 → Option Unspent} {cpcList : List Cpc} {cpc : Cpc}
    (hcpc : cpc ∈ cpcList)
    (hname : cpc.coin.name E ∉ additions.map (Coin.name E)) :
    checkRemoval E tipIndex additions
        (coinToUnspent E
          (overlay unspentFor (ramUnspentDB E additions (tipIndex + 1)).get)
          cpcList) cpc.coin =
        .error (.consensusError .unknownUnspent (.hash (cpc.coin.name E))) ↔
      UnknownRecord tipIndex (unspentFor (cpc.coin.name E)) := by
  have hadded : cpc.coin ∉ additions :=
    fun hmem => hname (List.mem_map_of_mem hmem)
  unfold checkRemoval UnknownRecord
  rw [if_neg hadded, coinToUnspent_get_of_mem E _ hcpc]
  cases hrecord : unspentFor (cpc.coin.name E) with
  | none =>
      rw [overlay_of_top_none hrecord, ramUnspentDB_get, if_neg hname]
      simp
  | some unspent =>
      rw [overlay_of_top hrecord]
      simp only [Option.some.injEq, forall_eq']
      split
      next hunknown => exact iff_of_true rfl hunknown
      next hunknown =>
        refine iff_of_false ?_ hunknown
        split
        · simp
        · simp

variable (E) in
/-- Rolling back to block `k` undoes the blocks above it: the coins confirmed
by then have their records of that time, and no other coin is known. -/
structure RollsBack (db : Ref) (blocks : List BlockDeltas) (k : ℕ) : Prop where
  succeeds :
    ((rollbackToBlock db k).run (afterBlocks E db blocks)).1 = .ok ()
  restores : ∀ name unspent,
    (afterBlocks E db blocks db).unspentForCoinName name = some unspent →
    unspent.confirmedBlockIndex ≤ k →
    (((rollbackToBlock db k).run
        (afterBlocks E db blocks)).2 db).unspentForCoinName name =
      (afterBlocks E db (blocks.take k) db).unspentForCoinName name
  forgets : ∀ name,
    (∀ unspent, (afterBlocks E db blocks db).unspentForCoinName name =
      some unspent → k < unspent.confirmedBlockIndex) →
    UnknownRecord k ((((rollbackToBlock db k).run
      (afterBlocks E db blocks)).2 db).unspentForCoinName name)

theorem Database.applyBlocks_of_isEmpty {db : Database} {index : ℕ}
    {blocks : List BlockDeltas} (h : ∀ block ∈ blocks, block.IsEmpty) :
    db.applyBlocks E index blocks = db := by
  induction blocks generalizing index with
  | nil => rfl
  | cons block blocks ih =>
      rw [List.forall_mem_cons] at h
      rw [Database.applyBlocks, h.1.applyTo_eq, ih h.2]

theorem not_hasAbove_ramDB (k : ℕ) : ¬ Database.ramDB.HasAbove k := by
  rintro ⟨name, unspent, hrecord, -⟩
  cases hrecord

theorem afterBlocks_hasAbove_iff {db : Ref} {blocks : List BlockDeltas} {k : ℕ}
    (h : FittingBlocks E Database.ramDB 0 blocks) (hk : k ≤ blocks.length) :
    (afterBlocks E db blocks db).HasAbove k ↔
      ∃ block ∈ blocks.drop k, ¬ block.IsEmpty := by
  rw [afterBlocks_eq h]
  rw [← List.take_append_drop k blocks] at h
  have hlength : 0 + (blocks.take k).length = k := by
    rw [List.length_take]
    omega
  have hparts := h.of_append
  rw [hlength] at hparts
  have hbelow : ¬ (Database.ramDB.applyBlocks E 0 (blocks.take k)).HasAbove k :=
    Database.applyBlocks_isAbove hlength.le (not_hasAbove_ramDB k)
  conv_lhs => rw [← List.take_append_drop k blocks]
  rw [Database.applyBlocks_append, hlength, hparts.2.hasAbove_iff le_rfl]
  exact or_iff_right hbelow

theorem afterBlocks_cls (db : Ref) {blocks : List BlockDeltas}
    (h : FittingBlocks E Database.ramDB 0 blocks) :
    (afterBlocks E db blocks db).cls = .ramDB := by
  rw [afterBlocks_eq h]
  have hkeeps : ∀ (d : Database) (index : ℕ),
      (d.applyBlocks E index blocks).cls = d.cls := by
    clear h
    induction blocks with
    | nil => exact fun _ _ => rfl
    | cons block blocks ih =>
        intro d index
        rw [Database.applyBlocks, ih]
        rfl
  exact hkeeps Database.ramDB 0

/-- A rollback undoes the blocks above an index exactly when there is nothing
to undo. -/
theorem rollsBack_iff {db : Ref} {blocks : List BlockDeltas} {k : ℕ}
    (h : FittingBlocks E Database.ramDB 0 blocks) (hk : k ≤ blocks.length) :
    RollsBack E db blocks k ↔ ∀ block ∈ blocks.drop k, block.IsEmpty := by
  have hrun := rollbackToBlock_run (afterBlocks_cls db h) k
  have habove : ¬ (afterBlocks E db blocks db).HasAbove k ↔
      ∀ block ∈ blocks.drop k, block.IsEmpty := by
    rw [afterBlocks_hasAbove_iff h hk]
    push Not
    rfl
  constructor
  · intro hrolls
    exact habove.mp (hrun.2.mp hrolls.succeeds)
  · intro hempty
    have hfits := h
    rw [← List.take_append_drop k blocks] at hfits
    have hsame : afterBlocks E db blocks db =
        afterBlocks E db (blocks.take k) db := by
      rw [afterBlocks_eq h, afterBlocks_eq hfits.of_append.1]
      conv_lhs => rw [← List.take_append_drop k blocks]
      rw [Database.applyBlocks_append,
        Database.applyBlocks_of_isEmpty hempty]
    constructor
    case succeeds => exact hrun.2.mpr (habove.mpr hempty)
    case restores =>
      intro name unspent _ _
      rw [hrun.1, hsame]
    case forgets =>
      intro name hlater unspent hrecord
      rw [hrun.1] at hrecord
      exact .inr (hlater unspent hrecord)

namespace Reference

/-- A first block that creates one coin. -/
def coinBlock : BlockDeltas :=
  ⟨[⟨indexHash 1, SizedBytes.fill 32 3, blockReward⟩], []⟩

theorem coinBlock_fitting :
    FittingBlocks environment Database.ramDB 0 [coinBlock] := by
  refine ⟨⟨fun _ _ => rfl, ?_⟩, trivial⟩
  intro name hname
  cases hname

end Reference

open Reference in
theorem rollsBack_iff_coinBlock :
    RollsBack environment 0 [coinBlock] 0 ↔
      ∀ block ∈ [coinBlock].drop 0, block.IsEmpty :=
  rollsBack_iff coinBlock_fitting (Nat.zero_le _)

open Reference in
/-- The rollback to block 0 raises at the record of the coin. -/
theorem rollback_of_coinBlock_fails :
    ¬ (FittingBlocks environment Database.ramDB 0 [coinBlock] →
      RollsBack environment 0 [coinBlock] 0) := by
  intro h
  have hrun := rollbackToBlock_run (afterBlocks_cls 0 coinBlock_fitting) 0
  apply hrun.2.mp (h coinBlock_fitting).succeeds
  rw [afterBlocks_hasAbove_iff coinBlock_fitting (Nat.zero_le _)]
  refine ⟨coinBlock, List.mem_singleton.mpr rfl, ?_⟩
  rintro ⟨hadditions, -⟩
  cases hadditions

end LedgerSim
