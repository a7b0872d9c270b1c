import LedgerSim.AcceptedValues
import LedgerSim.Augmentation
import LedgerSim.HashAssumptions

/-!
# Blocks by any author

Blocks are accepted one after the other on one database in both roles.  Their
authors choose the reward coins freely, and nothing compares additions with
the records that exist: a block that creates a spent coin again overwrites its
record.  Without such additions a spent coin stays spent.
-/

namespace LedgerSim

variable (E : Environment)

structure ChainState where
  view : ChainView
  heap : Heap

/-- A chain view at a genesis hash with an empty `RAM_DB`. -/
def ChainState.AtGenesis (db : Ref) (s : ChainState) : Prop :=
  (∃ genesisHash, s.view = ChainView.forGenesisHash genesisHash db) ∧
    s.heap db = Database.ramDB

/-- Blocks that `augment_chain_view` accepts, with the removals of each, the
first block first.  Any blob may be stored in between; `permitted` restricts
the additions of a block. -/
inductive AcceptedRun (db : Ref) (permitted : ChainState → List Coin → Prop) :
    ChainState → List (List Bytes32) → ChainState → Prop
  | start (s : ChainState) : AcceptedRun db permitted s [] s
  | preimage {s s' : ChainState} {blocks : List (List Bytes32)}
      (hrun : AcceptedRun db permitted s blocks s') (blob : Bytes) :
      AcceptedRun db permitted s blocks
        ⟨s'.view, s'.heap.put db ((s'.heap db).addPreimage E blob)⟩
  | block {s s' s'' : ChainState} {blocks : List (List Bytes32)}
      {header : Header} {headerSignature : EORSignature}
      {reward timestamp : ℤ} {additions : List Coin} {removals : List Bytes32}
      (hrun : AcceptedRun db permitted s blocks s')
      (haccepted : acceptNewBlock E s'.view header (s'.heap db).hashPreimage
        (s'.heap s'.view.unspentDb).unspentForCoinName reward timestamp =
          .ok (additions, removals))
      (hpermitted : permitted s' additions)
      (haugment : (s'.view.augmentChainView E header headerSignature db db
        reward timestamp).run s'.heap = (.ok s''.view, s''.heap)) :
      AcceptedRun db permitted s (blocks ++ [removals]) s''

def Unspent.SpentBy (tipIndex : ℕ) (unspent : Unspent) : Prop :=
  0 < unspent.spentBlockIndex ∧ unspent.spentBlockIndex ≤ tipIndex

/-- The block creates no coin that has been spent. -/
def CreatesNoSpentCoin (db : Ref) (s : ChainState) (additions : List Coin) :
    Prop :=
  ∀ coin ∈ additions, ∀ unspent,
    (s.heap db).unspentForCoinName (coin.name E) = some unspent →
      ¬ unspent.SpentBy s.view.tipIndex

/-! ## The database of a run -/

/-- One database in both roles that resolves the name of every coin it has a
record of. -/
structure ChainState.Inv (db : Ref) (s : ChainState) : Prop where
  unspentDb : s.view.unspentDb = db
  cls : (s.heap db).cls = .ramDB
  keyed : (s.heap db).Keyed E
  stored_of_record : ∀ name unspent,
    (s.heap db).unspentForCoinName name = some unspent →
      ∃ coin : Coin, coin.name E = name ∧ coin.bytes E ∈ (s.heap db).stored

variable {E} {db : Ref} {permitted : ChainState → List Coin → Prop}
  {s s' : ChainState} {blocks : List (List Bytes32)}

theorem ChainState.AtGenesis.inv (hs : s.AtGenesis db) : s.Inv E db := by
  obtain ⟨⟨genesisHash, hview⟩, hheap⟩ := hs
  refine ⟨by rw [hview]; rfl, by rw [hheap]; rfl, ?_, ?_⟩
  · rw [hheap]
    exact Database.keyed_ramDB E
  · intro name unspent hrecord
    rw [hheap] at hrecord
    simp [Database.ramDB, Database.unspentForCoinName] at hrecord

theorem ChainState.Inv.preimage (hinv : s.Inv E db) (blob : Bytes) :
    ChainState.Inv E db
      ⟨s.view, s.heap.put db ((s.heap db).addPreimage E blob)⟩ := by
  refine ⟨hinv.unspentDb, ?_, ?_, ?_⟩
  · simpa using hinv.cls
  · simpa using hinv.keyed.addPreimage E blob
  · intro name unspent hrecord
    simp only [Heap.put_self, Database.addPreimage_unspentForCoinName]
      at hrecord
    obtain ⟨coin, hname, hstored⟩ :=
      hinv.stored_of_record name unspent hrecord
    exact ⟨coin, hname, by simp [hstored]⟩

theorem ChainState.Inv.applied (hinv : s.Inv E db) {header : Header}
    {headerSignature : EORSignature} {reward timestamp : ℤ}
    {additions : List Coin} {removals : List Bytes32}
    (haccepted : acceptNewBlock E s.view header (s.heap db).hashPreimage
      (s.heap s.view.unspentDb).unspentForCoinName reward timestamp =
        .ok (additions, removals))
    (haugment : (s.view.augmentChainView E header headerSignature db db
      reward timestamp).run s.heap = (.ok s'.view, s'.heap)) :
    s'.view.tipIndex = s.view.tipIndex + 1 ∧ s'.view.unspentDb = db ∧
      removals.all (recorded E additions (s.heap db).unspentForCoinName) =
        true ∧
      s'.heap db = (s.heap db).applyBlock E (s.view.tipIndex + 1) additions
        removals := by
  obtain ⟨additions', removals', hvalid, hrecorded, hextend, hheap⟩ :=
    (augmentChainView_ok_iff E hinv.cls).mp haugment
  obtain ⟨rfl, rfl⟩ := Prod.mk.inj
    (Except.ok.inj (haccepted.symm.trans hvalid))
  obtain ⟨blob, -, hview, -⟩ := (ChainView.extend_eq_ok_iff E).mp hextend
  refine ⟨by rw [hview], by rw [hview], hrecorded, ?_⟩
  rw [hheap, Heap.put_self]

theorem ChainState.Inv.block (hinv : s.Inv E db) {header : Header}
    {headerSignature : EORSignature} {reward timestamp : ℤ}
    {additions : List Coin} {removals : List Bytes32}
    (haccepted : acceptNewBlock E s.view header (s.heap db).hashPreimage
      (s.heap s.view.unspentDb).unspentForCoinName reward timestamp =
        .ok (additions, removals))
    (haugment : (s.view.augmentChainView E header headerSignature db db
      reward timestamp).run s.heap = (.ok s'.view, s'.heap)) :
    s'.Inv E db := by
  obtain ⟨-, hunspentDb, hrecorded, hheap⟩ := hinv.applied haccepted haugment
  refine ⟨hunspentDb, ?_, ?_, ?_⟩
  · rw [hheap]
    exact hinv.cls
  · rw [hheap]
    exact hinv.keyed.applyBlock E _ _ _
  · intro name unspent hrecord
    rw [hheap, Database.applyBlock_unspentForCoinName] at hrecord
    simp only [hheap, Database.mem_applyBlock_stored]
    by_cases hadded : name ∈ additions.map (Coin.name E)
    · obtain ⟨coin, hmem, hname⟩ := List.mem_map.mp hadded
      exact ⟨coin, hname, .inl (List.mem_map_of_mem hmem)⟩
    · -- the second loop keeps the keys of the records
      have hold : ∃ old, (s.heap db).unspentForCoinName name = some old := by
        unfold blockRecords at hrecord
        rw [if_neg hadded] at hrecord
        split_ifs at hrecord
        · obtain ⟨old, hold, -⟩ := Option.map_eq_some_iff.mp hrecord
          exact ⟨old, hold⟩
        · exact ⟨unspent, hrecord⟩
      obtain ⟨old, hold⟩ := hold
      obtain ⟨coin, hname, hstored⟩ := hinv.stored_of_record name old hold
      exact ⟨coin, hname, .inr hstored⟩

theorem AcceptedRun.inv (hrun : AcceptedRun E db permitted s blocks s')
    (hinv : s.Inv E db) : s'.Inv E db := by
  induction hrun with
  | start => exact hinv
  | preimage _ blob ih => exact ih.preimage blob
  | block _ haccepted _ haugment ih => exact ih.block haccepted haugment

/-! ## Spent coins -/

/-- A block that creates no spent coin removes none either: the name of a
recorded coin resolves to that coin, and its record is the one that is
checked. -/
theorem ChainState.Inv.notMem_removals (hE : E.Lawful) (hinv : s.Inv E db)
    (hfree : CollisionFree E (s.heap db).stored)
    {header : Header} {reward timestamp : ℤ} {additions : List Coin}
    {removals : List Bytes32}
    (haccepted : acceptNewBlock E s.view header (s.heap db).hashPreimage
      (s.heap s.view.unspentDb).unspentForCoinName reward timestamp =
        .ok (additions, removals))
    (hcreates : CreatesNoSpentCoin E db s additions)
    {name : Bytes32} {unspent : Unspent}
    (hrecord : (s.heap db).unspentForCoinName name = some unspent)
    (hspent : unspent.SpentBy s.view.tipIndex) : name ∉ removals := by
  intro hname
  rw [hinv.unspentDb] at haccepted
  obtain ⟨-, body, -, a, rfl, rfl⟩ :=
    (acceptNewBlock_eq_ok_iff E).mp haccepted
  have hadded : ∀ coin ∈ a.additions, coin.name E ≠ name := by
    rintro coin hmem rfl
    exact hcreates coin hmem unspent hrecord hspent
  obtain ⟨cpc, hcpc, hobj⟩ := a.exists_cpc hname
  rcases coinPointerObj_overlay E hE a.additions_nodup hobj with
    ⟨hmem, hcoin⟩ | ⟨-, blob, hblob, hread⟩
  · exact hadded cpc.coin hmem hcoin
  obtain ⟨coin, rfl, hstored⟩ := hinv.stored_of_record _ unspent hrecord
  have hpreimage := hinv.keyed.hashPreimage_of_stored E hfree hstored
  obtain rfl : coin.bytes E = blob := Option.some.inj
    (hpreimage.symm.trans hblob)
  rw [Coin.fromBytes_bytes E hE] at hread
  obtain rfl := Except.ok.inj hread
  rcases a.spendable cpc hcpc with hmem | ⟨unspent', hrecord', hspendable⟩
  · exact hadded cpc.coin hmem rfl
  · obtain rfl := Option.some.inj (hrecord.symm.trans hrecord')
    exact hspendable.2 hspent

variable (E) in
/-- The record of a spent coin is final: it is not changed, it does not become
spendable, and the coin is not removed again. -/
def SpentIsFinal (db : Ref) (s s' : ChainState)
    (later : List (List Bytes32)) : Prop :=
  ∀ name unspent, (s.heap db).unspentForCoinName name = some unspent →
    unspent.SpentBy s.view.tipIndex →
      (s'.heap db).unspentForCoinName name = some unspent ∧
        ¬ unspent.Spendable s'.view.tipIndex ∧
        ∀ removals ∈ later, name ∉ removals

/-- In a run whose blocks create no spent coin, spent coins stay spent. -/
theorem acceptedRun_spent_is_final (hE : E.Lawful) (db : Ref)
    (genesis s s' : ChainState) (before later : List (List Bytes32))
    (hgenesis : genesis.AtGenesis db)
    (hbefore : AcceptedRun E db (CreatesNoSpentCoin E db) genesis before s)
    (hlater : AcceptedRun E db (CreatesNoSpentCoin E db) s later s')
    (hfree : CollisionFree E (s'.heap db).stored) :
    SpentIsFinal db s s' later := by
  have hinv := hbefore.inv hgenesis.inv
  clear hbefore hgenesis
  intro name unspent hrecord hspent
  suffices h : (s'.heap db).unspentForCoinName name = some unspent ∧
      unspent.SpentBy s'.view.tipIndex ∧
      ∀ removals ∈ later, name ∉ removals from
    ⟨h.1, fun hspendable => hspendable.2 h.2.1, h.2.2⟩
  induction hlater with
  | start => exact ⟨hrecord, hspent, by simp⟩
  | preimage _ blob ih =>
      have hold := ih (hfree.mono fun b hb => by simpa using .inr hb)
      simpa using hold
  | @block s' s'' blocks _ _ _ _ additions removals hrun haccepted hcreates
      haugment ih =>
      have hinv' := hrun.inv hinv
      obtain ⟨htip, -, -, hheap⟩ := hinv'.applied haccepted haugment
      have hfree' : CollisionFree E (s'.heap db).stored := by
        refine hfree.mono fun b hb => ?_
        rw [hheap, Database.mem_applyBlock_stored]
        exact .inr hb
      obtain ⟨hrecord', hspent', hblocks⟩ := ih hfree'
      have hremoved := hinv'.notMem_removals hE hfree' haccepted hcreates
        hrecord' hspent'
      have hadded : name ∉ additions.map (Coin.name E) := by
        rintro hmem
        obtain ⟨coin, hcoin, rfl⟩ := List.mem_map.mp hmem
        exact hcreates coin hcoin unspent hrecord' hspent'
      refine ⟨?_, ⟨hspent'.1, htip ▸ hspent'.2.trans (Nat.le_succ _)⟩, ?_⟩
      · rw [hheap, Database.applyBlock_unspentForCoinName, blockRecords,
          if_neg hadded, if_neg hremoved, hrecord']
      · intro names hnames
        rcases List.mem_append.mp hnames with hold | hnew
        · exact hblocks names hold
        · rw [List.mem_singleton.mp hnew]
          exact hremoved

namespace Reference

def spendingBlock : Header :=
  header ledgerGenesisHash <| body (coinbaseCoin [])
    ⟨indexHash 1, SizedBytes.fill 32 4, blockReward⟩
    [spend ((coinbaseCoin []).name environment) []]

def followingBlock (coinbaseCoin : Coin) : Header :=
  header ⟨(pointer Header.bytes spendingBlock).hash, none⟩ <|
    body coinbaseCoin ⟨indexHash 2, SizedBytes.fill 32 4, 0⟩ []

def nextState (s : ChainState) (header : Header) : ChainState :=
  let outcome := (s.view.augmentChainView environment header
    (headerSignature header) 0 0 blockReward 0).run s.heap
  ⟨outcome.1.toOption.getD s.view, outcome.2⟩

def genesisState : ChainState := ⟨genesisView 0, emptyHeap⟩

theorem genesisState_atGenesis : genesisState.AtGenesis 0 :=
  ⟨⟨ledgerGenesisHash, rfl⟩, rfl⟩

/-- The block is accepted and the view can be augmented by it. -/
def Accepts (s : ChainState) (header : Header) (additions : List Coin)
    (removals : List Bytes32) : Prop :=
  (acceptNewBlock environment s.view header (s.heap 0).hashPreimage
    (s.heap s.view.unspentDb).unspentForCoinName blockReward 0).toOption =
      some (additions, removals) ∧
  ((s.view.augmentChainView environment header (headerSignature header) 0 0
    blockReward 0).run s.heap).1.toOption.isSome = true

instance (s : ChainState) (header : Header) (additions : List Coin)
    (removals : List Bytes32) :
    Decidable (Accepts s header additions removals) :=
  inferInstanceAs (Decidable (_ ∧ _))

theorem nextState_run {permitted : ChainState → List Coin → Prop}
    {s s' : ChainState} {blocks : List (List Bytes32)} {header : Header}
    (additions : List Coin) (removals : List Bytes32)
    (hrun : AcceptedRun environment 0 permitted s blocks s')
    (haccepted : Accepts s' header additions removals)
    (hpermitted : permitted s' additions) :
    AcceptedRun environment 0 permitted s (blocks ++ [removals])
      (nextState s' header) := by
  obtain ⟨haccepted, haugment⟩ := haccepted
  have hstep : (s'.view.augmentChainView environment header
      (headerSignature header) 0 0 blockReward 0).run s'.heap =
        (.ok (nextState s' header).view, (nextState s' header).heap) :=
    Prod.ext (Except.eq_ok_getD haugment s'.view) rfl
  exact .block hrun (Except.toOption_eq_some_iff.mp haccepted) hpermitted hstep

def afterSpend : ChainState := nextState genesisState spendingBlock

theorem afterSpend_run (permitted : ChainState → List Coin → Prop)
    (hpermitted : permitted genesisState
      [coinbaseCoin [], ⟨indexHash 1, SizedBytes.fill 32 4, blockReward⟩]) :
    AcceptedRun environment 0 permitted genesisState
      [[(coinbaseCoin []).name environment]] afterSpend :=
  nextState_run
    [coinbaseCoin [], ⟨indexHash 1, SizedBytes.fill 32 4, blockReward⟩]
    [(coinbaseCoin []).name environment] (.start genesisState)
    (by decide +kernel) hpermitted

theorem afterSpend_record :
    (afterSpend.heap 0).unspentForCoinName
        ((coinbaseCoin []).name environment) = some ⟨1, 1⟩ ∧
      afterSpend.view.tipIndex = 1 := by
  decide +kernel

def secondCoinbase : Coin :=
  ⟨indexHash 2, SizedBytes.fill 32 3, blockReward⟩

def afterFollowing (coin : Coin) : ChainState :=
  nextState afterSpend (followingBlock coin)

end Reference

open Reference in
theorem acceptedRun_spent_is_final_following :
    SpentIsFinal 0 afterSpend (afterFollowing secondCoinbase) [[]] := by
  obtain ⟨haccepted, hnew, hfree⟩ : Accepts afterSpend
        (followingBlock secondCoinbase)
        [secondCoinbase, ⟨indexHash 2, SizedBytes.fill 32 4, 0⟩] [] ∧
      (∀ coin ∈ [secondCoinbase, ⟨indexHash 2, SizedBytes.fill 32 4, 0⟩],
        (afterSpend.heap 0).unspentForCoinName (coin.name environment) =
          none) ∧
      HashChecks environment ((afterFollowing secondCoinbase).heap 0).stored
        0 := by
    decide +kernel
  refine acceptedRun_spent_is_final environment_lawful 0 genesisState
    afterSpend (afterFollowing secondCoinbase)
    [[(coinbaseCoin []).name environment]] [[]] genesisState_atGenesis
    (afterSpend_run _ ?_) (nextState_run
      [secondCoinbase, ⟨indexHash 2, SizedBytes.fill 32 4, 0⟩] []
      (.start afterSpend) haccepted ?_) hfree.assumptions.collisionFree
  · intro coin _ unspent hrecord
    simp [genesisState, emptyHeap, Database.ramDB,
      Database.unspentForCoinName] at hrecord
  · intro coin hcoin unspent hrecord
    rw [hnew coin hcoin] at hrecord
    simp at hrecord

open Reference in
/-- The second block's author names the spent coin as the coinbase coin. -/
theorem acceptedRun_spent_is_not_final :
    ¬ ∀ (genesis s s' : ChainState) (before later : List (List Bytes32)),
      genesis.AtGenesis 0 →
      AcceptedRun environment 0 (fun _ _ => True) genesis before s →
      AcceptedRun environment 0 (fun _ _ => True) s later s' →
      CollisionFree environment (s'.heap 0).stored →
      Acyclic environment (s'.heap 0).stored →
      SpentIsFinal 0 s s' later := by
  intro hfinal
  obtain ⟨haccepted, hrecord, hstored⟩ : Accepts afterSpend
        (followingBlock (coinbaseCoin []))
        [coinbaseCoin [], ⟨indexHash 2, SizedBytes.fill 32 4, 0⟩] [] ∧
      ((afterFollowing (coinbaseCoin [])).heap 0).unspentForCoinName
        ((coinbaseCoin []).name environment) = some ⟨2, 0⟩ ∧
      HashChecks environment
        ((afterFollowing (coinbaseCoin [])).heap 0).stored 0 := by
    decide +kernel
  have hlater : AcceptedRun environment 0 (fun _ _ => True) afterSpend [[]]
      (afterFollowing (coinbaseCoin [])) :=
    nextState_run [coinbaseCoin [], ⟨indexHash 2, SizedBytes.fill 32 4, 0⟩] []
      (.start afterSpend) haccepted trivial
  have hhash := hstored.assumptions
  obtain ⟨hspent, htip⟩ := afterSpend_record
  have hsame := hfinal genesisState afterSpend
    (afterFollowing (coinbaseCoin [])) _ [[]] genesisState_atGenesis
    (afterSpend_run _ trivial) hlater hhash.collisionFree hhash.acyclic _ _
    hspent ⟨by decide, by rw [htip]⟩
  rw [hrecord] at hsame
  simp at hsame

end LedgerSim
