import LedgerSim.ApplyDeltas
import LedgerSim.ReferenceEnvironment
import Mathlib.Data.List.TakeWhile

/-!
# Augmenting a chain view

`augment_chain_view` passes the storage where `apply_deltas` expects the
unspent database, and it checks the header signature after the block has been
applied.  The first slip decides which databases receive what, the second what
a failed call leaves behind.
-/

namespace LedgerSim

variable (E : Environment)

/-! ## Outcomes -/

/-- What `augment_chain_view` does after the block has been applied. -/
def ChainView.extend (self : ChainView) (header : Header)
    (headerSignature : EORSignature) (newUnspentDb : Ref)
    (hashPreimage : Bytes32 → Option Bytes) : Except Exn ChainView := do
  let tipHash ← HashPointer.ofObject E Header.bytes header
  let chainView : ChainView :=
    ⟨self.genesisHash, tipHash, headerSignature, self.tipIndex + 1,
      newUnspentDb⟩
  chainView.checkTipSignature E hashPreimage
  .ok chainView

theorem ChainView.extend_eq_ok_iff {self chainView : ChainView}
    {header : Header} {headerSignature : EORSignature} {newUnspentDb : Ref}
    {hashPreimage : Bytes32 → Option Bytes} :
    self.extend E header headerSignature newUnspentDb hashPreimage =
        .ok chainView ↔
      ∃ blob, header.bytes = .ok blob ∧
        chainView = ⟨self.genesisHash, ⟨E.stdHash blob, some header⟩,
          headerSignature, self.tipIndex + 1, newUnspentDb⟩ ∧
        chainView.checkTipSignature E hashPreimage = .ok () := by
  unfold ChainView.extend HashPointer.ofObject
  constructor
  · intro h
    obtain ⟨tipHash, htip, h⟩ := Except.bind_eq_ok_iff.mp h
    obtain ⟨blob, hblob, htip⟩ := Except.bind_eq_ok_iff.mp htip
    obtain ⟨_, hcheck, h⟩ := Except.bind_eq_ok_iff.mp h
    obtain rfl := Except.ok.inj htip
    obtain rfl := Except.ok.inj h
    exact ⟨blob, hblob, rfl, hcheck⟩
  · rintro ⟨blob, hblob, rfl, hcheck⟩
    refine Except.bind_eq_ok (Except.bind_eq_ok hblob rfl) ?_
    exact Except.bind_eq_ok hcheck rfl

def ChainView.validated (self : ChainView) (header : Header) (storage : Ref)
    (reward timestamp : ℤ) (heap : Heap) :
    Except Exn (List Coin × List Bytes32) :=
  acceptNewBlock E self header (heap storage).hashPreimage
    (heap self.unspentDb).unspentForCoinName reward timestamp

/-- The heap when `apply_deltas` ends, called as `augment_chain_view` calls
it. -/
def appliedHeap (heap : Heap) (storage newUnspentDb : Ref) (blockIndex : ℕ)
    (additions : List Coin) (removals : List Bytes32) : Heap :=
  heap.write storage newUnspentDb
    (fun d => markSpent blockIndex
      (removals.takeWhile
        (recorded E additions (heap storage).unspentForCoinName))
      (addRecords E blockIndex additions d))
    (addBlobs E additions)

section Outcomes

variable {E} {self : ChainView} {header : Header}
  (headerSignature : EORSignature) {storage newUnspentDb : Ref}
  {reward timestamp : ℤ} {heap : Heap} {additions : List Coin}
  {removals : List Bytes32}

theorem augmentChainView_of_rejected {e : Exn}
    (hrejected : self.validated E header storage reward timestamp heap =
      .error e) :
    (self.augmentChainView E header headerSignature storage newUnspentDb reward
        timestamp).run heap = (.error e, heap) := by
  unfold ChainView.validated at hrejected
  unfold ChainView.augmentChainView
  rw [Exec.run_bind_of_ok (Exec.run_get heap), hrejected]
  exact Exec.run_bind_of_error (Exec.run_ofExcept _ _) _

private theorem augmentChainView_of_accepted
    (haccepted : self.validated E header storage reward timestamp heap =
      .ok (additions, removals)) :
    (self.augmentChainView E header headerSignature storage newUnspentDb reward
        timestamp).run heap =
      ((applyDeltas E (self.tipIndex + 1) additions removals storage
        newUnspentDb) >>= fun _ => do
          let heap ← Exec.get
          Exec.ofExcept (self.extend E header headerSignature newUnspentDb
            (heap storage).hashPreimage)).run heap := by
  unfold ChainView.validated at haccepted
  unfold ChainView.augmentChainView
  rw [Exec.run_bind_of_ok (Exec.run_get heap), haccepted,
    Exec.run_bind_of_ok (Exec.run_ofExcept _ _)]
  rw [Exec.run_bind, Exec.run_bind]
  rcases (applyDeltas E (self.tipIndex + 1) additions removals storage
    newUnspentDb).run heap with ⟨r, heap'⟩
  cases r with
  | error e => rfl
  | ok _ =>
      simp only [ChainView.extend, Exec.run_bind, Exec.run_get,
        Exec.run_ofExcept]
      cases HashPointer.ofObject E Header.bytes header with
      | error e => rfl
      | ok tipHash =>
          simp only [bind, Except.bind]
          cases ChainView.checkTipSignature E
            ⟨self.genesisHash, tipHash, headerSignature, self.tipIndex + 1,
              newUnspentDb⟩ (heap' storage).hashPreimage <;> rfl

/-- An accepted block whose removed names all have records is applied, and
then the header decides. -/
theorem augmentChainView_of_recorded
    (hunspent : (heap storage).cls.isUnspentDB)
    (hstorage : (heap newUnspentDb).cls.isStorage)
    (haccepted : self.validated E header storage reward timestamp heap =
      .ok (additions, removals))
    (hrecorded : removals.all
      (recorded E additions (heap storage).unspentForCoinName)) :
    (self.augmentChainView E header headerSignature storage newUnspentDb reward
        timestamp).run heap =
      (self.extend E header headerSignature newUnspentDb
          (appliedHeap E heap storage newUnspentDb (self.tipIndex + 1)
            additions removals storage).hashPreimage,
        appliedHeap E heap storage newUnspentDb (self.tipIndex + 1) additions
          removals) := by
  have happly := applyDeltas_run E hunspent hstorage (self.tipIndex + 1)
    additions removals
  rw [if_pos hrecorded] at happly
  rw [augmentChainView_of_accepted _ haccepted, Exec.run_bind_of_ok happly]
  rfl

/-- A removed name without a record stops the second loop. -/
theorem augmentChainView_of_unrecorded
    (hunspent : (heap storage).cls.isUnspentDB)
    (hstorage : (heap newUnspentDb).cls.isStorage)
    (haccepted : self.validated E header storage reward timestamp heap =
      .ok (additions, removals))
    (hrecorded : ¬ removals.all
      (recorded E additions (heap storage).unspentForCoinName)) :
    (self.augmentChainView E header headerSignature storage newUnspentDb reward
        timestamp).run heap =
      (.error PyException.attributeError,
        appliedHeap E heap storage newUnspentDb (self.tipIndex + 1) additions
          removals) := by
  have happly := applyDeltas_run E hunspent hstorage (self.tipIndex + 1)
    additions removals
  rw [if_neg hrecorded] at happly
  rw [augmentChainView_of_accepted _ haccepted, Exec.run_bind_of_error happly]
  rfl

/-- An accepted block has a coinbase coin to write, so the databases must
implement the methods that `apply_deltas` calls. -/
theorem augmentChainView_error_of_cls
    (hcls : ¬ ((heap storage).cls.isUnspentDB = true ∧
      (heap newUnspentDb).cls.isStorage = true))
    (haccepted : self.validated E header storage reward timestamp heap =
      .ok (additions, removals)) :
    ∃ e, ((self.augmentChainView E header headerSignature storage newUnspentDb
      reward timestamp).run heap).1 = .error e := by
  obtain ⟨-, body, -, a, hadditions, -⟩ :=
    (acceptNewBlock_eq_ok_iff E).mp haccepted
  rw [augmentChainView_of_accepted _ haccepted, Exec.run_bind, ← hadditions]
  obtain ⟨e, heap', hfirst⟩ := applyAddition_error_of_cls E hcls
    (self.tipIndex + 1) body.coinbaseCoin
  have happly : (applyDeltas E (self.tipIndex + 1) a.additions removals storage
      newUnspentDb).run heap = (.error e, heap') := by
    unfold applyDeltas
    apply Exec.run_bind_of_error
    exact Exec.run_bind_of_error hfirst _
  rw [happly]
  exact ⟨e, rfl⟩

/-- A call that returns found both databases fit for the roles that it gave
them, and a record for every removed name. -/
theorem augmentChainView_returned {chainView : ChainView} {heap' : Heap}
    (haccepted : self.validated E header storage reward timestamp heap =
      .ok (additions, removals))
    (hrun : (self.augmentChainView E header headerSignature storage
      newUnspentDb reward timestamp).run heap = (.ok chainView, heap')) :
    ((heap storage).cls.isUnspentDB = true ∧
        (heap newUnspentDb).cls.isStorage = true) ∧
      removals.all (recorded E additions (heap storage).unspentForCoinName) =
        true ∧
      heap' = appliedHeap E heap storage newUnspentDb (self.tipIndex + 1)
        additions removals := by
  have hcls : (heap storage).cls.isUnspentDB = true ∧
      (heap newUnspentDb).cls.isStorage = true := by
    by_contra hcls
    obtain ⟨e, he⟩ := augmentChainView_error_of_cls headerSignature hcls
      haccepted
    rw [hrun] at he
    cases he
  have hrecorded : removals.all
      (recorded E additions (heap storage).unspentForCoinName) = true := by
    by_contra hrecorded
    rw [augmentChainView_of_unrecorded _ hcls.1 hcls.2 haccepted
      hrecorded] at hrun
    cases hrun
  rw [augmentChainView_of_recorded _ hcls.1 hcls.2 haccepted hrecorded] at hrun
  exact ⟨hcls, hrecorded, (congrArg Prod.snd hrun).symm⟩

end Outcomes

/-! ## The state after the writes -/

theorem DatabaseClass.eq_ramDB {cls : DatabaseClass}
    (hstorage : cls.isStorage = true) (hunspent : cls.isUnspentDB = true) :
    cls = .ramDB := by
  cases cls with
  | storage => simp [isUnspentDB] at hunspent
  | unspentDB => simp [isStorage] at hstorage
  | ramDB => rfl

theorem takeWhile_recorded {additions : List Coin} {removals : List Bytes32}
    {unspentFor : Bytes32 → Option Unspent}
    (h : removals.all (recorded E additions unspentFor) = true) :
    removals.takeWhile (recorded E additions unspentFor) = removals :=
  List.takeWhile_eq_self_iff.mpr (List.all_eq_true.mp h)

section Applied

variable {heap : Heap} {blockIndex : ℕ} {additions : List Coin}
  {removals : List Bytes32}

theorem appliedHeap_unspentForCoinName (storage newUnspentDb : Ref) :
    (appliedHeap E heap storage newUnspentDb blockIndex additions removals
        storage).unspentForCoinName =
      blockRecords blockIndex (additions.map (Coin.name E))
        (removals.takeWhile
          (recorded E additions (heap storage).unspentForCoinName))
        (heap storage).unspentForCoinName := by
  funext name
  simp only [appliedHeap, Database.unspentForCoinName, Heap.write_unspentDb,
    markSpent_addRecords_get]
  rfl

theorem appliedHeap_hashPreimage (storage newUnspentDb : Ref) :
    (appliedHeap E heap storage newUnspentDb blockIndex additions removals
        newUnspentDb).hashPreimage =
      overlay (ramStorageOf E additions).hashPreimage
        (heap newUnspentDb).hashPreimage := by
  funext hash
  simp only [appliedHeap, Database.hashPreimage, Heap.write_preimageDb,
    addBlobs_get]
  rfl

theorem appliedHeap_unspentForCoinName_of_ne {storage newUnspentDb : Ref}
    (hne : storage ≠ newUnspentDb) :
    (appliedHeap E heap storage newUnspentDb blockIndex additions removals
        newUnspentDb).unspentForCoinName =
      (heap newUnspentDb).unspentForCoinName := by
  unfold Database.unspentForCoinName appliedHeap
  rw [Heap.write_unspentDb_of_ne _ _ _ _ _ hne.symm]

theorem appliedHeap_hashPreimage_of_ne {storage newUnspentDb : Ref}
    (hne : storage ≠ newUnspentDb) :
    (appliedHeap E heap storage newUnspentDb blockIndex additions removals
        storage).hashPreimage = (heap storage).hashPreimage := by
  unfold Database.hashPreimage appliedHeap
  rw [Heap.write_preimageDb_of_ne _ _ _ _ _ hne]

theorem appliedHeap_of_recorded {db : Ref}
    (hrecorded : removals.all
      (recorded E additions (heap db).unspentForCoinName) = true) :
    appliedHeap E heap db db blockIndex additions removals =
      heap.put db ((heap db).applyBlock E blockIndex additions removals) := by
  funext other
  by_cases hdb : other = db
  · subst other
    simp [appliedHeap, Heap.write, takeWhile_recorded E hrecorded,
      Database.applyBlock]
  · simp [appliedHeap, Heap.write, Heap.put, hdb]

end Applied

theorem augmentChainView_ok_iff {self chainView : ChainView} {header : Header}
    {headerSignature : EORSignature} {db : Ref} {reward timestamp : ℤ}
    {heap heap' : Heap} (hcls : (heap db).cls = .ramDB) :
    (self.augmentChainView E header headerSignature db db reward
        timestamp).run heap = (.ok chainView, heap') ↔
      ∃ additions removals,
        self.validated E header db reward timestamp heap =
            .ok (additions, removals) ∧
          removals.all (recorded E additions (heap db).unspentForCoinName) =
            true ∧
          self.extend E header headerSignature db
            ((heap db).applyBlock E (self.tipIndex + 1) additions
              removals).hashPreimage = .ok chainView ∧
          heap' = heap.put db ((heap db).applyBlock E (self.tipIndex + 1)
            additions removals) := by
  have hunspent : (heap db).cls.isUnspentDB := by rw [hcls]; rfl
  have hstorage : (heap db).cls.isStorage := by rw [hcls]; rfl
  constructor
  · intro hrun
    cases hvalid : self.validated E header db reward timestamp heap with
    | error e =>
        rw [augmentChainView_of_rejected _ hvalid] at hrun
        simp at hrun
    | ok deltas =>
        obtain ⟨additions, removals⟩ := deltas
        by_cases hrecorded : removals.all
            (recorded E additions (heap db).unspentForCoinName) = true
        · rw [augmentChainView_of_recorded _ hunspent hstorage hvalid hrecorded,
            appliedHeap_of_recorded E hrecorded, Heap.put_self] at hrun
          obtain ⟨hextend, hheap⟩ := Prod.mk.inj hrun
          exact ⟨additions, removals, rfl, hrecorded, hextend, hheap.symm⟩
        · rw [augmentChainView_of_unrecorded _ hunspent hstorage hvalid
            hrecorded] at hrun
          simp at hrun
  · rintro ⟨additions, removals, hvalid, hrecorded, hextend, rfl⟩
    rw [augmentChainView_of_recorded _ hunspent hstorage hvalid hrecorded,
      appliedHeap_of_recorded E hrecorded, Heap.put_self, hextend]

theorem augmentChainView_heap {self : ChainView} {header : Header}
    (headerSignature : EORSignature) {db : Ref} {reward timestamp : ℤ}
    {heap : Heap} {additions : List Coin} {removals : List Bytes32}
    (hcls : (heap db).cls = .ramDB)
    (haccepted : self.validated E header db reward timestamp heap =
      .ok (additions, removals)) :
    ((self.augmentChainView E header headerSignature db db reward
        timestamp).run heap).2 =
      appliedHeap E heap db db (self.tipIndex + 1) additions removals := by
  have hunspent : (heap db).cls.isUnspentDB := by rw [hcls]; rfl
  have hstorage : (heap db).cls.isStorage := by rw [hcls]; rfl
  by_cases hrecorded : removals.all
      (recorded E additions (heap db).unspentForCoinName) = true
  · rw [augmentChainView_of_recorded _ hunspent hstorage haccepted hrecorded]
  · rw [augmentChainView_of_unrecorded _ hunspent hstorage haccepted hrecorded]

theorem appliedHeap_preimageDb (heap : Heap) (db : Ref) (blockIndex : ℕ)
    (additions : List Coin) (removals : List Bytes32) :
    (appliedHeap E heap db db blockIndex additions removals db).preimageDb =
      ((heap db).applyBlock E blockIndex additions removals).preimageDb :=
  Heap.write_preimageDb _ _ _ _ _

/-! ## Failed calls -/

/-- The writes of `apply_deltas unspent_db storage` stay in the records of the
one and in the blobs of the other. -/
def WritesWithin (unspentDb storage : Ref) (heap heap' : Heap) : Prop :=
  ∀ db, (db ≠ unspentDb → (heap' db).unspentDb = (heap db).unspentDb) ∧
    (db ≠ storage → (heap' db).preimageDb = (heap db).preimageDb)

theorem WritesWithin.refl (unspentDb storage : Ref) (heap : Heap) :
    WritesWithin unspentDb storage heap heap :=
  fun _ => ⟨fun _ => rfl, fun _ => rfl⟩

theorem WritesWithin.trans (unspentDb storage : Ref) (h h' h'' : Heap)
    (hfirst : WritesWithin unspentDb storage h h')
    (hsecond : WritesWithin unspentDb storage h' h'') :
    WritesWithin unspentDb storage h h'' := fun db =>
  ⟨fun hne => ((hsecond db).1 hne).trans ((hfirst db).1 hne),
    fun hne => ((hsecond db).2 hne).trans ((hfirst db).2 hne)⟩

section Frame

variable (unspentDb storage : Ref)

private theorem setUnspent_within (coinName : Bytes32) (unspent : Unspent) :
    Exec.Respects (WritesWithin unspentDb storage)
      (setUnspentForCoinName unspentDb coinName unspent) := by
  intro heap db
  simp only [setUnspentForCoinName, Exec.run_bind, Exec.run_get]
  split_ifs
  · refine ⟨fun hne => ?_, fun _ => ?_⟩
    · simp [Heap.put_of_ne _ _ hne]
    · by_cases hdb : db = unspentDb
      · subst db
        simp
      · simp [Heap.put_of_ne _ _ hdb]
  · exact WritesWithin.refl unspentDb storage heap db

private theorem addPreimage_within (blob : Bytes) :
    Exec.Respects (WritesWithin unspentDb storage)
      (addPreimage E storage blob) := by
  intro heap db
  simp only [addPreimage, Exec.run_bind, Exec.run_get]
  split_ifs
  · refine ⟨fun _ => ?_, fun hne => ?_⟩
    · by_cases hdb : db = storage
      · subst db
        simp [Database.addPreimage]
      · simp [Heap.put_of_ne _ _ hdb]
    · simp [Heap.put_of_ne _ _ hne]
  · exact WritesWithin.refl unspentDb storage heap db

private theorem unspentForCoinName_within (coinName : Bytes32) :
    Exec.Respects (WritesWithin unspentDb storage)
      (unspentForCoinName unspentDb coinName) := by
  apply Exec.Respects.of_unchanged (WritesWithin.refl unspentDb storage)
  intro heap
  simp only [unspentForCoinName, Exec.run_bind, Exec.run_get]
  split_ifs <;> rfl

theorem applyDeltas_within (blockIndex : ℕ) (additions : List Coin)
    (removals : List Bytes32) :
    Exec.Respects (WritesWithin unspentDb storage)
      (applyDeltas E blockIndex additions removals unspentDb storage) := by
  have hrefl := WritesWithin.refl unspentDb storage
  have htrans := WritesWithin.trans unspentDb storage
  refine Exec.Respects.bind htrans (Exec.Respects.forM hrefl htrans ?_ _)
    fun _ => Exec.Respects.forM hrefl htrans ?_ _
  · intro coin
    exact (setUnspent_within unspentDb storage _ _).bind htrans fun _ =>
      addPreimage_within E unspentDb storage _
  · intro name
    refine (unspentForCoinName_within unspentDb storage name).bind htrans ?_
    intro unspent
    cases unspent with
    | none => exact hrefl
    | some unspent => exact setUnspent_within unspentDb storage _ _

end Frame

/-- As called by `augment_chain_view`, the writes never reach the records of
`new_unspent_db` or the blobs of another object used as storage. -/
theorem augmentChainView_within (self : ChainView) (header : Header)
    (headerSignature : EORSignature) (storage newUnspentDb : Ref)
    (reward timestamp : ℤ) :
    Exec.Respects (WritesWithin storage newUnspentDb)
      (self.augmentChainView E header headerSignature storage newUnspentDb
        reward timestamp) := by
  intro heap
  cases haccept : self.validated E header storage reward timestamp heap with
  | error e =>
      rw [augmentChainView_of_rejected _ haccept]
      exact WritesWithin.refl _ _ _
  | ok deltas =>
      rw [augmentChainView_of_accepted _ haccept]
      refine Exec.Respects.bind (WritesWithin.trans storage newUnspentDb)
        (applyDeltas_within E storage newUnspentDb _ _ _) (fun _ => ?_) heap
      exact Exec.Respects.of_unchanged (WritesWithin.refl _ _) fun _ => rfl

/-- A call that raises leaves the records of `new_unspent_db` and the
preimages of the storage as they were. -/
def AugmentAtomic (self : ChainView) (header : Header)
    (headerSignature : EORSignature) (storage newUnspentDb : Ref)
    (reward timestamp : ℤ) (heap : Heap) : Prop :=
  ∀ e heap', (self.augmentChainView E header headerSignature storage
      newUnspentDb reward timestamp).run heap = (.error e, heap') →
    (heap' newUnspentDb).unspentForCoinName =
        (heap newUnspentDb).unspentForCoinName ∧
      (heap' storage).hashPreimage = (heap storage).hashPreimage

/-- Nothing can fail once the writes have begun: every removed name has a
record by then, and the header and its signature are good. -/
def CannotFailLate (self : ChainView) (header : Header)
    (headerSignature : EORSignature) (newUnspentDb : Ref)
    (additions : List Coin) (removals : List Bytes32) (db : Database) : Prop :=
  removals.all (recorded E additions db.unspentForCoinName) = true ∧
    ∃ chainView, self.extend E header headerSignature newUnspentDb
      (overlay (ramStorageOf E additions).hashPreimage db.hashPreimage) =
        .ok chainView

/-- The database already holds what the block writes before it fails. -/
def AlreadyWritten (blockIndex : ℕ) (additions : List Coin)
    (removals : List Bytes32) (db : Database) : Prop :=
  blockRecords blockIndex (additions.map (Coin.name E))
      (removals.takeWhile (recorded E additions db.unspentForCoinName))
      db.unspentForCoinName = db.unspentForCoinName ∧
    overlay (ramStorageOf E additions).hashPreimage db.hashPreimage =
      db.hashPreimage

/-- A call is atomic exactly when the databases are two objects, the block is
refused, nothing can fail late, or a late failure has only repeated old
writes. -/
theorem augmentChainView_atomic_iff (self : ChainView) (header : Header)
    (headerSignature : EORSignature) (storage newUnspentDb : Ref)
    (reward timestamp : ℤ) (heap : Heap)
    (hstorage : (heap storage).cls.isStorage = true)
    (hunspent : (heap newUnspentDb).cls.isUnspentDB = true) :
    AugmentAtomic E self header headerSignature storage newUnspentDb reward
        timestamp heap ↔
      storage ≠ newUnspentDb ∨
        ∀ additions removals,
          acceptNewBlock E self header (heap storage).hashPreimage
              (heap self.unspentDb).unspentForCoinName reward timestamp =
            .ok (additions, removals) →
          CannotFailLate E self header headerSignature newUnspentDb additions
              removals (heap storage) ∨
            AlreadyWritten E (self.tipIndex + 1) additions removals
              (heap storage) := by
  by_cases hsame : storage = newUnspentDb
  case neg =>
    refine iff_of_true (fun e heap' hrun => ?_) (.inl hsame)
    have hwithin := augmentChainView_within E self header headerSignature
      storage newUnspentDb reward timestamp heap
    rw [hrun] at hwithin
    constructor
    · exact congrArg Dict.get ((hwithin newUnspentDb).1 (Ne.symm hsame))
    · exact congrArg Dict.get ((hwithin storage).2 hsame)
  subst newUnspentDb
  have hcls := DatabaseClass.eq_ramDB hstorage hunspent
  rw [or_iff_right (fun hne => hne rfl)]
  constructor
  · intro hatomic additions removals haccepted
    have hheap := augmentChainView_heap E headerSignature hcls haccepted
    rcases hrun : (self.augmentChainView E header headerSignature storage
      storage reward timestamp).run heap with ⟨outcome, heap'⟩
    rw [hrun] at hheap
    subst hheap
    cases outcome with
    | error e =>
        have hkept := hatomic e _ hrun
        rw [appliedHeap_unspentForCoinName, appliedHeap_hashPreimage] at hkept
        exact .inr hkept
    | ok chainView =>
        obtain ⟨additions', removals', hvalid, hrecorded, hextend, -⟩ :=
          (augmentChainView_ok_iff E hcls).mp hrun
        obtain ⟨rfl, rfl⟩ := Prod.mk.inj
          (Except.ok.inj (haccepted.symm.trans hvalid))
        rw [Database.applyBlock_hashPreimage] at hextend
        exact .inl ⟨hrecorded, chainView, hextend⟩
  · intro hcondition e heap' hrun
    cases haccepted : self.validated E header storage reward timestamp heap with
    | error e' =>
        rw [augmentChainView_of_rejected _ haccepted, Prod.mk.injEq] at hrun
        obtain ⟨-, rfl⟩ := hrun
        exact ⟨rfl, rfl⟩
    | ok deltas =>
        obtain ⟨additions, removals⟩ := deltas
        have hheap := augmentChainView_heap E headerSignature hcls haccepted
        rw [hrun] at hheap
        subst hheap
        rcases hcondition additions removals haccepted with
          ⟨hrecorded, chainView, hextend⟩ | hwritten
        · rw [← Database.applyBlock_hashPreimage E _ (self.tipIndex + 1)
            additions removals] at hextend
          have hok := (augmentChainView_ok_iff E hcls).mpr
            ⟨additions, removals, haccepted, hrecorded, hextend, rfl⟩
          rw [hrun] at hok
          simp at hok
        · rw [appliedHeap_unspentForCoinName, appliedHeap_hashPreimage]
          exact hwritten

open Reference in
theorem augmentChainView_atomic_iff_firstBlock :
    AugmentAtomic environment (genesisView 0) firstBlock EORSignature.zero 0 0
        blockReward 0 emptyHeap ↔
      0 ≠ 0 ∨
        ∀ additions removals,
          acceptNewBlock environment (genesisView 0) firstBlock
              (emptyHeap 0).hashPreimage (emptyHeap 0).unspentForCoinName
              blockReward 0 = .ok (additions, removals) →
          CannotFailLate environment (genesisView 0) firstBlock
              EORSignature.zero 0 additions removals (emptyHeap 0) ∨
            AlreadyWritten environment 1 additions removals (emptyHeap 0) :=
  augmentChainView_atomic_iff environment (genesisView 0) firstBlock
    EORSignature.zero 0 0 blockReward 0 emptyHeap rfl rfl

open Reference in
/-- With a bad header signature the call raises after the coinbase coin has
been recorded. -/
theorem augmentChainView_not_atomic :
    ¬ AugmentAtomic environment (genesisView 0) firstBlock EORSignature.zero 0
      0 blockReward 0 emptyHeap := by
  intro hatomic
  have hfails : ∃ e, (((genesisView 0).augmentChainView environment firstBlock
      EORSignature.zero 0 0 blockReward 0).run emptyHeap).1 = .error e :=
    Except.toOption_isNone_iff.mp (by decide +kernel)
  have hrecorded : ((((genesisView 0).augmentChainView environment firstBlock
      EORSignature.zero 0 0 blockReward 0).run emptyHeap).2 0).unspentForCoinName
        (Coin.name environment
          ⟨indexHash 1, SizedBytes.fill 32 3, blockReward⟩) =
      some ⟨1, 0⟩ := by
    decide +kernel
  rcases hrun : ((genesisView 0).augmentChainView environment firstBlock
    EORSignature.zero 0 0 blockReward 0).run emptyHeap with ⟨r, heap'⟩
  rw [hrun] at hfails hrecorded
  obtain ⟨e, rfl⟩ := hfails
  rw [(hatomic e heap' hrun).1] at hrecorded
  simp [emptyHeap, Database.ramDB, Database.unspentForCoinName] at hrecorded

/-! ## Successful calls -/

/-- What a block is meant to do: `new_unspent_db` receives the records, the
storage receives the preimages of the added coins and no record. -/
structure BlockApplied (blockIndex : ℕ) (additions : List Coin)
    (removals : List Bytes32) (storage newUnspentDb : Ref)
    (heap heap' : Heap) : Prop where
  records : (heap' newUnspentDb).unspentForCoinName =
    blockRecords blockIndex (additions.map (Coin.name E)) removals
      (heap newUnspentDb).unspentForCoinName
  preimages : (heap' storage).hashPreimage =
    overlay (ramStorageOf E additions).hashPreimage
      (heap storage).hashPreimage
  storage_records : storage ≠ newUnspentDb →
    (heap' storage).unspentForCoinName = (heap storage).unspentForCoinName

/-- Two databases that play both roles and already hold all that the block
would write to either of them. -/
structure BothAlreadyHold (blockIndex : ℕ) (additions : List Coin)
    (removals : List Bytes32) (storage newUnspentDb : Ref)
    (heap : Heap) : Prop where
  ne : storage ≠ newUnspentDb
  storage_cls : (heap storage).cls = .ramDB
  newUnspentDb_cls : (heap newUnspentDb).cls = .ramDB
  recorded : removals.all
    (recorded E additions (heap storage).unspentForCoinName) = true
  storage_records : blockRecords blockIndex (additions.map (Coin.name E))
    removals (heap storage).unspentForCoinName =
      (heap storage).unspentForCoinName
  records : blockRecords blockIndex (additions.map (Coin.name E)) removals
    (heap newUnspentDb).unspentForCoinName =
      (heap newUnspentDb).unspentForCoinName
  preimages : overlay (ramStorageOf E additions).hashPreimage
    (heap storage).hashPreimage = (heap storage).hashPreimage

/-- The writes have the effect of the block on one object in both roles; on two
objects only if they change nothing that the block should not. -/
theorem appliedHeap_blockApplied_iff {blockIndex : ℕ} {additions : List Coin}
    {removals : List Bytes32} {storage newUnspentDb : Ref} {heap : Heap}
    (hrecorded : removals.all
      (recorded E additions (heap storage).unspentForCoinName) = true) :
    BlockApplied E blockIndex additions removals storage newUnspentDb heap
        (appliedHeap E heap storage newUnspentDb blockIndex additions
          removals) ↔
      (storage ≠ newUnspentDb →
        blockRecords blockIndex (additions.map (Coin.name E)) removals
            (heap storage).unspentForCoinName =
          (heap storage).unspentForCoinName ∧
        blockRecords blockIndex (additions.map (Coin.name E)) removals
            (heap newUnspentDb).unspentForCoinName =
          (heap newUnspentDb).unspentForCoinName ∧
        overlay (ramStorageOf E additions).hashPreimage
            (heap storage).hashPreimage = (heap storage).hashPreimage) := by
  have hrecords : (appliedHeap E heap storage newUnspentDb blockIndex additions
      removals storage).unspentForCoinName =
        blockRecords blockIndex (additions.map (Coin.name E)) removals
          (heap storage).unspentForCoinName := by
    rw [appliedHeap_unspentForCoinName, takeWhile_recorded E hrecorded]
  constructor
  · intro happlied hne
    have hkept := happlied.storage_records hne
    have hwritten := happlied.records
    have hpreimages := happlied.preimages
    rw [hrecords] at hkept
    rw [appliedHeap_unspentForCoinName_of_ne E hne] at hwritten
    rw [appliedHeap_hashPreimage_of_ne E hne] at hpreimages
    exact ⟨hkept, hwritten.symm, hpreimages.symm⟩
  · intro hhold
    by_cases hsame : storage = newUnspentDb
    · subst newUnspentDb
      exact ⟨hrecords, appliedHeap_hashPreimage E _ _,
        fun hne => absurd rfl hne⟩
    · obtain ⟨hkept, hwritten, hpreimages⟩ := hhold hsame
      constructor
      · rw [appliedHeap_unspentForCoinName_of_ne E hsame]
        exact hwritten.symm
      · rw [appliedHeap_hashPreimage_of_ne E hsame]
        exact hpreimages.symm
      · intro _
        rw [hrecords]
        exact hkept

/-- The arguments of `apply_deltas` are swapped, so an acceptable block with a
valid signature has its effect only on one object in both roles, or when there
is nothing left to do. -/
theorem augmentChainView_effect_iff (self : ChainView) (header : Header)
    (headerSignature : EORSignature) (storage newUnspentDb : Ref)
    (reward timestamp : ℤ) (heap : Heap) (additions : List Coin)
    (removals : List Bytes32)
    (hstorage : (heap storage).cls.isStorage = true)
    (hunspent : (heap newUnspentDb).cls.isUnspentDB = true)
    (haccepted : acceptNewBlock E self header (heap storage).hashPreimage
      (heap self.unspentDb).unspentForCoinName reward timestamp =
        .ok (additions, removals))
    (hsignature : ∃ chainView, self.extend E header headerSignature newUnspentDb
      (overlay (ramStorageOf E additions).hashPreimage
        (heap storage).hashPreimage) = .ok chainView) :
    (∃ chainView heap', (self.augmentChainView E header headerSignature storage
        newUnspentDb reward timestamp).run heap = (.ok chainView, heap') ∧
      BlockApplied E (self.tipIndex + 1) additions removals storage
        newUnspentDb heap heap') ↔
      (storage = newUnspentDb ∧
        removals.all (recorded E additions (heap storage).unspentForCoinName) =
          true) ∨
        BothAlreadyHold E (self.tipIndex + 1) additions removals storage
          newUnspentDb heap := by
  constructor
  · rintro ⟨chainView, heap', hrun, happlied⟩
    obtain ⟨hcls, hrecorded, rfl⟩ :=
      augmentChainView_returned headerSignature haccepted hrun
    rw [appliedHeap_blockApplied_iff E hrecorded] at happlied
    by_cases hsame : storage = newUnspentDb
    · exact .inl ⟨hsame, hrecorded⟩
    · obtain ⟨hkept, hwritten, hpreimages⟩ := happlied hsame
      exact .inr ⟨hsame, DatabaseClass.eq_ramDB hstorage hcls.1,
        DatabaseClass.eq_ramDB hcls.2 hunspent, hrecorded, hkept, hwritten,
        hpreimages⟩
  · obtain ⟨chainView, hextend⟩ := hsignature
    rintro (⟨rfl, hrecorded⟩ | hhold)
    · have hrun := augmentChainView_of_recorded headerSignature hunspent
        hstorage haccepted hrecorded
      rw [appliedHeap_hashPreimage, hextend] at hrun
      refine ⟨chainView, _, hrun, ?_⟩
      rw [appliedHeap_blockApplied_iff E hrecorded]
      exact fun hne => absurd rfl hne
    · have hunspent' : (heap storage).cls.isUnspentDB = true := by
        rw [hhold.storage_cls]
        rfl
      have hstorage' : (heap newUnspentDb).cls.isStorage = true := by
        rw [hhold.newUnspentDb_cls]
        rfl
      have hrun := augmentChainView_of_recorded headerSignature hunspent'
        hstorage' haccepted hhold.recorded
      rw [hhold.preimages] at hextend
      rw [appliedHeap_hashPreimage_of_ne E hhold.ne, hextend] at hrun
      refine ⟨chainView, _, hrun, ?_⟩
      rw [appliedHeap_blockApplied_iff E hhold.recorded]
      exact fun _ => ⟨hhold.storage_records, hhold.records, hhold.preimages⟩

open Reference in
theorem augmentChainView_effect_iff_firstBlock :
    (∃ chainView heap', ((genesisView 0).augmentChainView environment firstBlock
        (headerSignature firstBlock) 0 0 blockReward 0).run emptyHeap =
          (.ok chainView, heap') ∧
      BlockApplied environment 1
        [⟨indexHash 1, SizedBytes.fill 32 3, blockReward⟩,
          ⟨indexHash 1, SizedBytes.fill 32 4, 0⟩] [] 0 0 emptyHeap heap') ↔
      (0 = 0 ∧ [].all (recorded environment
          [⟨indexHash 1, SizedBytes.fill 32 3, blockReward⟩,
            ⟨indexHash 1, SizedBytes.fill 32 4, 0⟩]
          (emptyHeap 0).unspentForCoinName) = true) ∨
        BothAlreadyHold environment 1
          [⟨indexHash 1, SizedBytes.fill 32 3, blockReward⟩,
            ⟨indexHash 1, SizedBytes.fill 32 4, 0⟩] [] 0 0 emptyHeap :=
  augmentChainView_effect_iff environment (genesisView 0) firstBlock
    (headerSignature firstBlock) 0 0 blockReward 0 emptyHeap _ _ rfl rfl
    (Except.toOption_eq_some_iff.mp (by decide +kernel))
    (Except.toOption_isSome_iff.mp (by decide +kernel))

open Reference in
/-- With two empty databases, the unspent database misses the coinbase coin of
an acceptable block with a good signature. -/
theorem augmentChainView_effect_missing :
    ¬ ∀ additions removals,
      acceptNewBlock environment (genesisView 1) firstBlock
          (emptyHeap 0).hashPreimage (emptyHeap 1).unspentForCoinName
          blockReward 0 = .ok (additions, removals) →
      (∃ chainView, (genesisView 1).extend environment firstBlock
        (headerSignature firstBlock) 1
        (overlay (ramStorageOf environment additions).hashPreimage
          (emptyHeap 0).hashPreimage) = .ok chainView) →
      ∃ chainView heap', ((genesisView 1).augmentChainView environment
          firstBlock (headerSignature firstBlock) 0 1 blockReward 0).run
            emptyHeap = (.ok chainView, heap') ∧
        BlockApplied environment 1 additions removals 0 1 emptyHeap heap' := by
  intro heffect
  obtain ⟨chainView, heap', hrun, happlied⟩ := heffect
    [⟨indexHash 1, SizedBytes.fill 32 3, blockReward⟩,
      ⟨indexHash 1, SizedBytes.fill 32 4, 0⟩] []
    (Except.toOption_eq_some_iff.mp (by decide +kernel))
    (Except.toOption_isSome_iff.mp (by decide +kernel))
  have hmissing : ((((genesisView 1).augmentChainView environment firstBlock
      (headerSignature firstBlock) 0 1 blockReward 0).run emptyHeap).2
        1).unspentForCoinName (Coin.name environment
          ⟨indexHash 1, SizedBytes.fill 32 3, blockReward⟩) = none := by
    decide +kernel
  rw [hrun, happlied.records] at hmissing
  simp [blockRecords] at hmissing

end LedgerSim
