import LedgerSim.FarmedBlock

/-!
# What a request does

A request is refused, and then at most blobs have been stored; or it is
accepted, and then one farmed block has been applied to the database.  The
hash assumptions rule out the third possibility, a failure after the block has
been applied.
-/

namespace LedgerSim

variable (E : Environment)

theorem Heap.put_eq_self (heap : Heap) (db : Ref) :
    heap.put db (heap db) = heap :=
  Function.update_eq_self db heap

theorem Heap.put_put (heap : Heap) (db : Ref) (value value' : Database) :
    (heap.put db value).put db value' = heap.put db value' :=
  Function.update_idem ..

/-! ## Storing blobs -/

def Database.addPreimages (db : Database) (blobs : List Bytes) : Database :=
  blobs.foldr (fun blob db => db.addPreimage E blob) db

namespace Database

variable (db : Database) (blobs : List Bytes)

@[simp] theorem addPreimages_cls : (db.addPreimages E blobs).cls = db.cls := by
  induction blobs with
  | nil => rfl
  | cons blob rest ih => exact ih

@[simp] theorem addPreimages_unspentForCoinName :
    (db.addPreimages E blobs).unspentForCoinName = db.unspentForCoinName := by
  induction blobs with
  | nil => rfl
  | cons blob rest ih => exact ih

@[simp] theorem addPreimages_stored :
    (db.addPreimages E blobs).stored = blobs ++ db.stored := by
  induction blobs with
  | nil => rfl
  | cons blob rest ih =>
      rw [List.cons_append, ← ih]
      rfl

theorem Keyed.addPreimages {db : Database} (hkeyed : db.Keyed E)
    (blobs : List Bytes) : (db.addPreimages E blobs).Keyed E := by
  induction blobs with
  | nil => exact hkeyed
  | cons blob rest ih => exact ih.addPreimage E blob

theorem Keyed.hashPreimage_addPreimages {db : Database} (hkeyed : db.Keyed E)
    {blobs : List Bytes}
    (hfree : CollisionFree E (db.addPreimages E blobs).stored)
    {hash : Bytes32} {blob : Bytes} (h : db.hashPreimage hash = some blob) :
    (db.addPreimages E blobs).hashPreimage hash = some blob := by
  obtain ⟨rfl, hmem⟩ := hkeyed.stdHash_of_hashPreimage E h
  apply (hkeyed.addPreimages E blobs).hashPreimage_of_stored E hfree
  rw [addPreimages_stored]
  exact List.mem_append_right _ hmem

end Database

/-! ## A new chain view -/

theorem ledgerGenesisHash_hash : ledgerGenesisHash.hash = indexHash 0 := by
  decide

section NewChainView

variable {E} {chainView : ChainView} {spendBundles : List SpendBundle}
  {coinbasePuzzleHash feesPuzzleHash : Bytes32} {now : ℕ}

def Farmed.newView (f : Farmed E chainView spendBundles coinbasePuzzleHash
    feesPuzzleHash now) : ChainView :=
  ⟨chainView.genesisHash, ⟨E.stdHash f.headerBlob, some f.header⟩, f.signature,
    chainView.tipIndex + 1, chainView.unspentDb⟩

abbrev Farmed.Accepted (f : Farmed E chainView spendBundles coinbasePuzzleHash
    feesPuzzleHash now) (db : Database) :=
  AcceptedBody E chainView.tipIndex f.body (f.stored db).hashPreimage
    db.unspentForCoinName blockReward now

def Farmed.applied (f : Farmed E chainView spendBundles coinbasePuzzleHash
    feesPuzzleHash now) {db : Database} (a : f.Accepted db) : Database :=
  (f.stored db).applyBlock E (chainView.tipIndex + 1) a.additions a.removals

theorem Farmed.mem_applied_stored {f : Farmed E chainView spendBundles
    coinbasePuzzleHash feesPuzzleHash now} {db : Database}
    (a : f.Accepted db) {blob : Bytes} :
    blob ∈ (f.applied a).stored ↔
      blob ∈ a.additions.map (Coin.bytes E) ∨ blob = f.bodyBlob ∨
        blob = f.headerBlob ∨ blob ∈ db.stored := by
  unfold Farmed.applied
  rw [Database.mem_applyBlock_stored]
  simp [Farmed.stored]

theorem Farmed.applied_unspentForCoinName {f : Farmed E chainView spendBundles
    coinbasePuzzleHash feesPuzzleHash now} {db : Database}
    (a : f.Accepted db) :
    (f.applied a).unspentForCoinName =
      blockRecords (chainView.tipIndex + 1) (a.additions.map (Coin.name E))
        a.removals db.unspentForCoinName :=
  Database.applyBlock_unspentForCoinName E _ _ _ _

/-- The server's chain view and its one database, and blobs that include all
that the request will have seen. -/
structure ViewAssumptions (chainView : ChainView) (db : Ref) (heap : Heap)
    (blobs : List Bytes) : Prop where
  unspentDb : chainView.unspentDb = db
  genesisHash : chainView.genesisHash = ledgerGenesisHash
  cls : (heap db).cls = .ramDB
  keyed : (heap db).Keyed E
  collisionFree : CollisionFree E blobs
  noGenesisHash : NoIndexHash E blobs 0

theorem Farmed.covers {f : Farmed E chainView spendBundles coinbasePuzzleHash
    feesPuzzleHash now} {db : Database} (hkeyed : db.Keyed E)
    (a : f.Accepted db) {blobs : List Bytes}
    (hclaims : ∀ claim ∈ f.claims, claim.coin.bytes E ∈ blobs)
    (hstored : ∀ blob ∈ (f.applied a).stored, blob ∈ blobs) :
    Covers (E := E) blobs f.claims a.additions
      (f.stored db).hashPreimage where
  claimed := hclaims
  added coin hcoin := hstored _ <| (f.mem_applied_stored a).mpr <|
    .inl (List.mem_map_of_mem hcoin)
  stored hash blob h := by
    have hfound := ((hkeyed.addPreimage E f.headerBlob).addPreimage E
      f.bodyBlob).stdHash_of_hashPreimage E h
    refine ⟨hstored _ ((f.mem_applied_stored a).mpr (.inr ?_)), hfound.1.symm⟩
    simpa [Farmed.stored] using hfound.2

/-- Nothing can go wrong once a farmed block has been accepted. -/
theorem newChainView_of_accepted (hE : E.Lawful) {db : Ref} {heap : Heap}
    {blobs : List Bytes}
    (hview : ViewAssumptions (E := E) chainView db heap blobs)
    (f : Farmed E chainView spendBundles coinbasePuzzleHash feesPuzzleHash now)
    (a : f.Accepted (heap db))
    (hclaims : ∀ claim ∈ f.claims, claim.coin.bytes E ∈ blobs)
    (hstored : ∀ blob ∈ (f.applied a).stored, blob ∈ blobs) :
    (newChainView E chainView spendBundles coinbasePuzzleHash feesPuzzleHash
        db db now).run heap =
      (.ok f.newView, heap.put db (f.applied a)) := by
  have hcls : ((heap.put db (f.stored (heap db))) db).cls = .ramDB := by
    simpa [Farmed.stored] using hview.cls
  have hvalid : chainView.validated E f.header db blockReward now
      (heap.put db (f.stored (heap db))) = .ok (a.additions, a.removals) := by
    unfold ChainView.validated
    rw [hview.unspentDb, Heap.put_self]
    exact (acceptNewBlock_eq_ok_iff E).mpr ⟨rfl, f.body, rfl, a, rfl, rfl⟩
  have hcovers := f.covers hview.keyed a hclaims hstored
  have hrecorded := f.removals_recorded hE hview.collisionFree a hcovers
  have hgenesis : E.stdHash f.headerBlob ≠ chainView.genesisHash.hash := by
    rw [hview.genesisHash, ledgerGenesisHash_hash]
    apply hview.noGenesisHash _ (hstored _ _) 0 le_rfl
    exact (f.mem_applied_stored a).mpr (.inr (.inr (.inl rfl)))
  rw [newChainView_of_farmed E f hview.cls]
  refine (augmentChainView_ok_iff E hcls).mpr
    ⟨a.additions, a.removals, hvalid, ?_, ?_, ?_⟩
  · rw [Heap.put_self]
    exact hrecorded
  · rw [f.extend_eq_ok hE db hgenesis, Farmed.newView, hview.unspentDb]
  · rw [Heap.put_self, Heap.put_put]
    rfl

/-- `new_chain_view` either raises and has at most stored blobs, or has farmed
and applied an acceptable block. -/
theorem newChainView_cases (hE : E.Lawful) {db : Ref} {heap : Heap}
    {blobs : List Bytes}
    (hview : ViewAssumptions (E := E) chainView db heap blobs)
    (hclaims : ∀ claim ∈ spendBundles.flatMap SpendBundle.coinSolutions,
      claim.coin.bytes E ∈ blobs)
    (hstored : ∀ blob ∈ (((newChainView E chainView spendBundles
      coinbasePuzzleHash feesPuzzleHash db db now).run heap).2 db).stored,
        blob ∈ blobs) :
    (∃ e added, (newChainView E chainView spendBundles coinbasePuzzleHash
        feesPuzzleHash db db now).run heap =
          (.error e, heap.put db ((heap db).addPreimages E added))) ∨
      ∃ (f : Farmed E chainView spendBundles coinbasePuzzleHash feesPuzzleHash
          now) (a : f.Accepted (heap db)),
        (newChainView E chainView spendBundles coinbasePuzzleHash
          feesPuzzleHash db db now).run heap =
            (.ok f.newView, heap.put db (f.applied a)) := by
  cases hfarm : farmForChainView E chainView spendBundles coinbasePuzzleHash
      feesPuzzleHash now with
  | error e =>
      refine .inl ⟨e, [], ?_⟩
      unfold newChainView
      rw [hfarm, Exec.run_bind_of_error (Exec.run_ofExcept _ _)]
      exact congrArg _ (Heap.put_eq_self heap db).symm
  | ok farmed =>
      obtain ⟨header, body, signature⟩ := farmed
      obtain ⟨f, rfl, rfl, rfl⟩ := (farmForChainView_eq_ok_iff E).mp hfarm
      have hrun := newChainView_of_farmed E f hview.cls
      have hcls : ((heap.put db (f.stored (heap db))) db).cls = .ramDB := by
        simpa [Farmed.stored] using hview.cls
      cases hvalid : chainView.validated E f.header db blockReward now
          (heap.put db (f.stored (heap db))) with
      | error e =>
          rw [hrun, augmentChainView_of_rejected _ hvalid]
          exact .inl ⟨e, [f.bodyBlob, f.headerBlob], rfl⟩
      | ok deltas =>
          obtain ⟨additions, removals⟩ := deltas
          have haccepted := hvalid
          unfold ChainView.validated at haccepted
          rw [hview.unspentDb, Heap.put_self] at haccepted
          obtain ⟨-, body, hbody, a, rfl, rfl⟩ :=
            (acceptNewBlock_eq_ok_iff E).mp haccepted
          obtain rfl : f.body = body := by
            simpa [Farmed.header, farmedHeader] using hbody
          have happlied : ∀ blob ∈ (f.applied a).stored, blob ∈ blobs := by
            rw [hrun, augmentChainView_heap E _ hcls hvalid] at hstored
            unfold Database.stored at hstored
            rwa [appliedHeap_preimageDb, Heap.put_self] at hstored
          exact .inr ⟨f, a,
            newChainView_of_accepted hE hview f a hclaims happlied⟩

end NewChainView

/-! ## Growth -/

/-- What every write of the server keeps of its database. -/
structure Database.Grows (db db' : Database) : Prop where
  cls : db'.cls = db.cls
  keyed : db.Keyed E → db'.Keyed E
  stored : db.stored ⊆ db'.stored

theorem Database.Grows.refl (db : Database) : db.Grows E db :=
  ⟨rfl, id, List.Subset.refl _⟩

theorem Database.Grows.trans {db db' db'' : Database} (h : db.Grows E db')
    (h' : db'.Grows E db'') : db.Grows E db'' :=
  ⟨h'.cls.trans h.cls, fun hkeyed => h'.keyed (h.keyed hkeyed),
    fun _ hblob => h'.stored (h.stored hblob)⟩

theorem Farmed.grows {chainView : ChainView} {spendBundles : List SpendBundle}
    {coinbasePuzzleHash feesPuzzleHash : Bytes32} {now : ℕ}
    (f : Farmed E chainView spendBundles coinbasePuzzleHash feesPuzzleHash now)
    (db : Database) : db.Grows E (f.stored db) where
  cls := rfl
  keyed hkeyed := (hkeyed.addPreimage E _).addPreimage E _
  stored _ hblob := List.mem_cons_of_mem _ (List.mem_cons_of_mem _ hblob)

theorem appliedHeap_grows {heap : Heap} (db : Ref) (blockIndex : ℕ)
    (additions : List Coin) (removals : List Bytes32) :
    (heap db).Grows E
      (appliedHeap E heap db db blockIndex additions removals db) where
  cls := rfl
  keyed hkeyed := by
    unfold Database.Keyed
    rw [appliedHeap_preimageDb]
    exact hkeyed.applyBlock E blockIndex additions removals
  stored blob hblob := by
    unfold Database.stored
    rw [appliedHeap_preimageDb]
    exact (Database.mem_applyBlock_stored E _ _ _ _).mpr (.inr hblob)

theorem augmentChainView_grows (self : ChainView) (header : Header)
    (headerSignature : EORSignature) {db : Ref} (reward timestamp : ℤ)
    {heap : Heap} (hcls : (heap db).cls = .ramDB) :
    (heap db).Grows E (((self.augmentChainView E header headerSignature db db
      reward timestamp).run heap).2 db) := by
  cases hvalid : self.validated E header db reward timestamp heap with
  | error e =>
      rw [augmentChainView_of_rejected _ hvalid]
      exact .refl E _
  | ok deltas =>
      rw [augmentChainView_heap E _ hcls hvalid]
      exact appliedHeap_grows E _ _ _ _

section Farmed

variable {E} {chainView : ChainView} {spendBundles : List SpendBundle}
  {coinbasePuzzleHash feesPuzzleHash : Bytes32} {now : ℕ}

/-- Accepted or not, a farmed block's header and body are stored. -/
theorem newChainView_grows_of_farmed (f : Farmed E chainView spendBundles
    coinbasePuzzleHash feesPuzzleHash now) {db : Ref} {heap : Heap}
    (hcls : (heap db).cls = .ramDB) :
    (f.stored (heap db)).Grows E (((newChainView E chainView spendBundles
      coinbasePuzzleHash feesPuzzleHash db db now).run heap).2 db) := by
  have hcls' : ((heap.put db (f.stored (heap db))) db).cls = .ramDB := by
    rw [Heap.put_self, (f.grows E (heap db)).cls, hcls]
  have hgrows := augmentChainView_grows E chainView f.header f.signature
    blockReward now hcls'
  rw [Heap.put_self] at hgrows
  rwa [newChainView_of_farmed E f hcls]

end Farmed

theorem newChainView_grows (chainView : ChainView)
    (spendBundles : List SpendBundle)
    (coinbasePuzzleHash feesPuzzleHash : Bytes32) {db : Ref} (now : ℕ)
    {heap : Heap} (hcls : (heap db).cls = .ramDB) :
    (heap db).Grows E (((newChainView E chainView spendBundles
        coinbasePuzzleHash feesPuzzleHash db db now).run heap).2 db) ∧
      ∀ view, ((newChainView E chainView spendBundles coinbasePuzzleHash
          feesPuzzleHash db db now).run heap).1 = .ok view →
        view.genesisHash = chainView.genesisHash ∧ view.unspentDb = db ∧
          view.tipIndex = chainView.tipIndex + 1 := by
  cases hfarm : farmForChainView E chainView spendBundles coinbasePuzzleHash
      feesPuzzleHash now with
  | error e =>
      unfold newChainView
      rw [hfarm, Exec.run_bind_of_error (Exec.run_ofExcept _ _)]
      exact ⟨.refl E _, by simp⟩
  | ok farmed =>
      obtain ⟨header, body, signature⟩ := farmed
      obtain ⟨f, rfl, rfl, rfl⟩ := (farmForChainView_eq_ok_iff E).mp hfarm
      have hstored := f.grows E (heap db)
      refine ⟨hstored.trans E (newChainView_grows_of_farmed f hcls), ?_⟩
      intro view hview
      rw [newChainView_of_farmed E f hcls] at hview
      have hcls' : ((heap.put db (f.stored (heap db))) db).cls = .ramDB := by
        rw [Heap.put_self, hstored.cls, hcls]
      obtain ⟨_, _, -, -, hextend, -⟩ :=
        (augmentChainView_ok_iff E hcls').mp (Prod.ext hview rfl)
      obtain ⟨_, -, rfl, -⟩ := (ChainView.extend_eq_ok_iff E).mp hextend
      exact ⟨rfl, rfl, rfl⟩

/-! ## The server -/

namespace LedgerAPI

@[simp] theorem db_put (chainView : ChainView) (storage unspentDb : Ref)
    (spendBundles : List SpendBundle) (now : ℕ) (heap : Heap)
    (value : Database) :
    db ⟨chainView, storage, unspentDb, spendBundles, now,
      heap.put storage value⟩ = value :=
  Heap.put_self heap storage value

/-- The server on one `RAM_DB`. -/
structure WellFormed (server : LedgerAPI) : Prop where
  unspentDb : server.unspentDb = server.storage
  viewDb : server.chainView.unspentDb = server.storage
  genesisHash : server.chainView.genesisHash = ledgerGenesisHash
  cls : server.db.cls = .ramDB
  keyed : server.db.Keyed E

theorem initial_wellFormed : initial.WellFormed E where
  unspentDb := rfl
  viewDb := rfl
  genesisHash := rfl
  cls := rfl
  keyed := Database.keyed_ramDB E

def attempt (self : LedgerAPI) (spendBundles : List SpendBundle)
    (coinbasePuzzleHash feesPuzzleHash : Bytes32) :
    Except Exn ChainView × Heap :=
  (newChainView E self.chainView spendBundles coinbasePuzzleHash
    feesPuzzleHash self.storage self.unspentDb self.now).run self.heap

def blockResponse (chainView : ChainView) (db : Database) :
    Except Exn Response := do
  match ← chainView.tipHash.obj E Header.parse db.hashPreimage with
  | none => .error PyException.attributeError
  | some header =>
      let body ← header.bodyHash.obj E (Body.parse E) db.hashPreimage
      .ok (.block header body)

theorem doPushTx_run (self : LedgerAPI) (tx : SpendBundle) :
    (doPushTx E tx).run self =
      match validateSpendBundleSignature E tx with
      | .error e => (.error e, self)
      | .ok false => (.error PyException.valueError, self)
      | .ok true =>
          match self.attempt E (self.spendBundles ++ [tx])
              dryRunCoinbasePuzzleHash dryRunFeesPuzzleHash with
          | (.error e, heap) => (.error e, { self with heap := heap })
          | (.ok _, heap) => (.ok (.accepted tx),
              { self with
                heap := heap, spendBundles := self.spendBundles ++ [tx] }) := by
  unfold doPushTx attempt
  cases hvalid : validateSpendBundleSignature E tx with
  | error e => rfl
  | ok valid =>
      cases valid with
      | false => rfl
      | true =>
          simp only [Exec.run_bind, Exec.run_ofExcept, Except.raiseIf,
            Exec.run_get, onHeap, Exec.run_zoom]
          rcases hrun : (newChainView E self.chainView
            (self.spendBundles ++ [tx]) dryRunCoinbasePuzzleHash
            dryRunFeesPuzzleHash self.storage self.unspentDb self.now).run
              self.heap with ⟨outcome, heap⟩
          cases outcome <;> simp [hrun]

theorem doNextBlock_run (self : LedgerAPI)
    (coinbasePuzzleHash feesPuzzleHash : Bytes32) :
    (doNextBlock E coinbasePuzzleHash feesPuzzleHash).run self =
      match self.attempt E self.spendBundles coinbasePuzzleHash
          feesPuzzleHash with
      | (.error e, heap) => (.error e, { self with heap := heap })
      | (.ok chainView, heap) =>
          (blockResponse E chainView (heap self.storage),
            { self with
              heap := heap, spendBundles := [], chainView := chainView }) := by
  unfold doNextBlock attempt
  simp only [Exec.run_bind, Exec.run_get, onHeap, Exec.run_zoom]
  rcases hrun : (newChainView E self.chainView self.spendBundles
    coinbasePuzzleHash feesPuzzleHash self.storage self.unspentDb
    self.now).run self.heap with ⟨outcome, heap⟩
  cases outcome with
  | error e => rfl
  | ok chainView =>
      simp only [Exec.run_modify, Exec.run_ofExcept, blockResponse]
      cases hheader : chainView.tipHash.obj E Header.parse
          (heap self.storage).hashPreimage with
      | error e => rfl
      | ok header =>
          cases header with
          | none => rfl
          | some header =>
              cases hbody : header.bodyHash.obj E (Body.parse E)
                  (heap self.storage).hashPreimage <;>
                simp only [hbody, bind, Except.bind] <;> rfl

theorem step_pushTx_db (self : LedgerAPI) {tx : SpendBundle}
    (hvalid : validateSpendBundleSignature E tx = .ok true) :
    (step E self (.pushTx tx)).db =
      (self.attempt E (self.spendBundles ++ [tx]) dryRunCoinbasePuzzleHash
        dryRunFeesPuzzleHash).2 self.storage := by
  simp only [step, handle]
  rw [doPushTx_run, hvalid]
  rcases self.attempt E (self.spendBundles ++ [tx]) dryRunCoinbasePuzzleHash
    dryRunFeesPuzzleHash with ⟨outcome, heap⟩
  cases outcome <;> rfl

theorem step_nextBlock_db (self : LedgerAPI)
    (coinbasePuzzleHash feesPuzzleHash : Bytes32) :
    (step E self (.nextBlock coinbasePuzzleHash feesPuzzleHash)).db =
      (self.attempt E self.spendBundles coinbasePuzzleHash
        feesPuzzleHash).2 self.storage := by
  simp only [step, handle]
  rw [doNextBlock_run]
  rcases self.attempt E self.spendBundles coinbasePuzzleHash
    feesPuzzleHash with ⟨outcome, heap⟩
  cases outcome <;> rfl

/-- The transitions of the server: a request is refused at once, its attempt at
a block fails, or it goes through. -/
inductive Transition (self : LedgerAPI) :
    Request → Except Exn Response → LedgerAPI → Prop
  | unsigned {tx : SpendBundle} {e : Exn}
      (hvalid : validateSpendBundleSignature E tx ≠ .ok true) :
      Transition self (.pushTx tx) (.error e) self
  | bundleRefused {tx : SpendBundle} {e : Exn} {heap : Heap}
      (hvalid : validateSpendBundleSignature E tx = .ok true)
      (hattempt : self.attempt E (self.spendBundles ++ [tx])
        dryRunCoinbasePuzzleHash dryRunFeesPuzzleHash = (.error e, heap)) :
      Transition self (.pushTx tx) (.error e) { self with heap := heap }
  | pushed {tx : SpendBundle} {view : ChainView} {heap : Heap}
      (hvalid : validateSpendBundleSignature E tx = .ok true)
      (hattempt : self.attempt E (self.spendBundles ++ [tx])
        dryRunCoinbasePuzzleHash dryRunFeesPuzzleHash = (.ok view, heap)) :
      Transition self (.pushTx tx) (.ok (.accepted tx))
        { self with
          heap := heap, spendBundles := self.spendBundles ++ [tx] }
  | blockRefused {coinbasePuzzleHash feesPuzzleHash : Bytes32} {e : Exn}
      {heap : Heap} (hattempt : self.attempt E self.spendBundles
        coinbasePuzzleHash feesPuzzleHash = (.error e, heap)) :
      Transition self (.nextBlock coinbasePuzzleHash feesPuzzleHash) (.error e)
        { self with heap := heap }
  | mined {coinbasePuzzleHash feesPuzzleHash : Bytes32} {view : ChainView}
      {heap : Heap} (hattempt : self.attempt E self.spendBundles
        coinbasePuzzleHash feesPuzzleHash = (.ok view, heap)) :
      Transition self (.nextBlock coinbasePuzzleHash feesPuzzleHash)
        (blockResponse E view (heap self.storage))
        { self with heap := heap, spendBundles := [], chainView := view }
  | skipped (ms : Bytes) :
      Transition self (.skipMilliseconds ms)
        (.ok (.now (self.now + BigEndian.toNat ms)))
        { self with now := self.now + BigEndian.toNat ms }

theorem handle_cases (self : LedgerAPI) (request : Request) :
    Transition E self request ((handle E request).run self).1
      (step E self request) := by
  cases request with
  | pushTx tx =>
      unfold step handle
      rw [doPushTx_run]
      cases hvalid : validateSpendBundleSignature E tx with
      | error e => exact .unsigned (by simp [hvalid])
      | ok valid =>
          cases valid with
          | false => exact .unsigned (by simp [hvalid])
          | true =>
              rcases hattempt : self.attempt E (self.spendBundles ++ [tx])
                dryRunCoinbasePuzzleHash dryRunFeesPuzzleHash with
                ⟨outcome, heap⟩
              cases outcome with
              | error e => exact .bundleRefused hvalid hattempt
              | ok view => exact .pushed hvalid hattempt
  | nextBlock coinbasePuzzleHash feesPuzzleHash =>
      unfold step handle
      rw [doNextBlock_run]
      rcases hattempt : self.attempt E self.spendBundles coinbasePuzzleHash
        feesPuzzleHash with ⟨outcome, heap⟩
      cases outcome with
      | error e => exact .blockRefused hattempt
      | ok view => exact .mined hattempt
  | skipMilliseconds ms => exact .skipped ms

variable {E} {self : LedgerAPI}

theorem WellFormed.attempt_grows (hself : self.WellFormed E)
    (spendBundles : List SpendBundle)
    (coinbasePuzzleHash feesPuzzleHash : Bytes32) :
    self.db.Grows E ((self.attempt E spendBundles coinbasePuzzleHash
        feesPuzzleHash).2 self.storage) ∧
      ∀ view, (self.attempt E spendBundles coinbasePuzzleHash
          feesPuzzleHash).1 = .ok view →
        view.genesisHash = self.chainView.genesisHash ∧
          view.unspentDb = self.storage ∧
          view.tipIndex = self.chainView.tipIndex + 1 := by
  unfold attempt
  rw [hself.unspentDb]
  exact newChainView_grows E _ _ _ _ _ hself.cls

theorem WellFormed.of_grows (hself : self.WellFormed E) {self' : LedgerAPI}
    (hstorage : self'.storage = self.storage)
    (hunspentDb : self'.unspentDb = self.unspentDb)
    (hviewDb : self'.chainView.unspentDb = self.storage)
    (hgenesis : self'.chainView.genesisHash = self.chainView.genesisHash)
    (hgrows : self.db.Grows E self'.db) : self'.WellFormed E where
  unspentDb := by rw [hunspentDb, hself.unspentDb, hstorage]
  viewDb := by rw [hviewDb, hstorage]
  genesisHash := hgenesis.trans hself.genesisHash
  cls := hgrows.cls.trans hself.cls
  keyed := hgrows.keyed hself.keyed

theorem WellFormed.step (hself : self.WellFormed E) (request : Request) :
    (step E self request).WellFormed E ∧
      self.db.stored ⊆ (step E self request).db.stored ∧
      self.chainView.tipIndex ≤ (step E self request).chainView.tipIndex := by
  have hgrows : ∀ {spendBundles coinbasePuzzleHash feesPuzzleHash outcome heap},
      self.attempt E spendBundles coinbasePuzzleHash feesPuzzleHash =
        (outcome, heap) → self.db.Grows E (heap self.storage) := by
    intro spendBundles coinbasePuzzleHash feesPuzzleHash outcome heap hattempt
    have hattempt' := (hself.attempt_grows spendBundles coinbasePuzzleHash
      feesPuzzleHash).1
    rwa [hattempt] at hattempt'
  have hcases := handle_cases E self request
  generalize ((handle E request).run self).1 = response at hcases
  generalize LedgerAPI.step E self request = self' at hcases ⊢
  cases hcases with
  | unsigned _ => exact ⟨hself, List.Subset.refl _, le_rfl⟩
  | bundleRefused _ hattempt =>
      have hheap := hgrows hattempt
      exact ⟨hself.of_grows rfl rfl hself.viewDb rfl hheap, hheap.stored,
        le_rfl⟩
  | pushed _ hattempt =>
      have hheap := hgrows hattempt
      exact ⟨hself.of_grows rfl rfl hself.viewDb rfl hheap, hheap.stored,
        le_rfl⟩
  | blockRefused hattempt =>
      have hheap := hgrows hattempt
      exact ⟨hself.of_grows rfl rfl hself.viewDb rfl hheap, hheap.stored,
        le_rfl⟩
  | mined hattempt =>
      have hheap := hgrows hattempt
      obtain ⟨hgenesis, hviewDb, htip⟩ := (hself.attempt_grows _ _ _).2 _
        (congrArg Prod.fst hattempt)
      exact ⟨hself.of_grows rfl rfl hviewDb hgenesis hheap, hheap.stored,
        (Nat.le_succ _).trans htip.ge⟩
  | skipped ms =>
      exact ⟨hself.of_grows rfl rfl hself.viewDb rfl (.refl E _),
        List.Subset.refl _, le_rfl⟩

theorem run_append (requests : List Request) (request : Request) :
    run E (requests ++ [request]) = step E (run E requests) request :=
  List.foldl_concat ..

theorem run_wellFormed (requests : List Request) :
    (run E requests).WellFormed E := by
  induction requests using List.reverseRecOn with
  | nil => exact initial_wellFormed E
  | append_singleton requests request ih =>
      rw [run_append]
      exact (ih.step request).1

def claims (server : LedgerAPI) : List CoinSolution :=
  server.spendBundles.flatMap SpendBundle.coinSolutions

/-! ## The blobs of a run -/

variable (E) in
/-- The encodings of the coins that a request claims to spend. -/
def claimedBlobs : Request → List Bytes
  | .pushTx tx => tx.coinSolutions.map fun claim => claim.coin.bytes E
  | _ => []

variable (E) in
/-- Everything that the server has stored or that a client has claimed. -/
def knownBlobs (requests : List Request) : List Bytes :=
  (run E requests).db.stored ++ requests.flatMap (claimedBlobs E)

theorem knownBlobs_append (requests : List Request) (request : Request) :
    knownBlobs E requests ⊆ knownBlobs E (requests ++ [request]) := by
  unfold knownBlobs
  rw [run_append, List.flatMap_append]
  have hstored := ((run_wellFormed requests).step (E := E) request).2.1
  intro blob hblob
  rcases List.mem_append.mp hblob with h | h
  · exact List.mem_append_left _ (hstored h)
  · exact List.mem_append_right _ (List.mem_append_left _ h)

theorem tipIndex_append (requests : List Request) (request : Request) :
    (run E requests).chainView.tipIndex ≤
      (run E (requests ++ [request])).chainView.tipIndex := by
  have hstep := ((run_wellFormed requests).step (E := E) request).2.2
  rwa [← run_append] at hstep

theorem hashAssumptions_of_append {requests : List Request} {request : Request}
    (h : HashAssumptions E (knownBlobs E (requests ++ [request]))
      (run E (requests ++ [request])).chainView.tipIndex) :
    HashAssumptions E (knownBlobs E requests)
      (run E requests).chainView.tipIndex :=
  h.mono (knownBlobs_append requests request)
    (tipIndex_append requests request)

theorem pushTx_mem_of_pending {requests : List Request} {tx : SpendBundle}
    (htx : tx ∈ (run E requests).spendBundles) :
    Request.pushTx tx ∈ requests := by
  induction requests using List.reverseRecOn with
  | nil => simp [run, initial] at htx
  | append_singleton requests request ih =>
      have hkeep : tx ∈ (run E requests).spendBundles →
          Request.pushTx tx ∈ requests ++ [request] :=
        fun h => List.mem_append_left _ (ih h)
      rw [run_append] at htx
      have hcases := handle_cases E (run E requests) request
      generalize ((handle E request).run (run E requests)).1 = response
        at hcases
      generalize step E (run E requests) request = server at hcases htx
      cases hcases with
      | unsigned _ => exact hkeep htx
      | bundleRefused _ _ => exact hkeep htx
      | pushed _ _ =>
          rcases List.mem_append.mp htx with hold | hnew
          · exact hkeep hold
          · rw [List.mem_singleton.mp hnew]
            exact List.mem_append_right _ (List.mem_singleton_self _)
      | blockRefused _ => exact hkeep htx
      | mined _ => cases htx
      | skipped ms => exact hkeep htx

theorem pending_known {requests : List Request} {claim : CoinSolution}
    (hclaim : claim ∈ (run E requests).claims) :
    claim.coin.bytes E ∈ knownBlobs E requests := by
  obtain ⟨tx, htx, hmem⟩ := List.mem_flatMap.mp hclaim
  refine List.mem_append_right _ (List.mem_flatMap.mpr
    ⟨.pushTx tx, pushTx_mem_of_pending htx, ?_⟩)
  exact List.mem_map.mpr ⟨claim, hmem, rfl⟩

/-! ## The outcome of a request -/

variable (E) in
/-- The ways in which a request can end. -/
inductive Outcome (server : LedgerAPI) :
    Request → Except Exn Response → LedgerAPI → Prop
  | refused {request : Request} (e : Exn) (added : List Bytes) :
      Outcome server request (.error e)
        { server with
          heap := server.heap.put server.storage
            (server.db.addPreimages E added) }
  | pushed {tx : SpendBundle}
      (f : Farmed E server.chainView (server.spendBundles ++ [tx])
        dryRunCoinbasePuzzleHash dryRunFeesPuzzleHash server.now)
      (a : f.Accepted server.db) :
      Outcome server (.pushTx tx) (.ok (.accepted tx))
        { server with
          heap := server.heap.put server.storage (f.applied a)
          spendBundles := server.spendBundles ++ [tx] }
  | mined {coinbasePuzzleHash feesPuzzleHash : Bytes32}
      (f : Farmed E server.chainView server.spendBundles coinbasePuzzleHash
        feesPuzzleHash server.now)
      (a : f.Accepted server.db) :
      Outcome server (.nextBlock coinbasePuzzleHash feesPuzzleHash)
        (.ok (.block f.header (some f.body)))
        { server with
          chainView := f.newView
          heap := server.heap.put server.storage (f.applied a)
          spendBundles := [] }
  | skipped (ms : Bytes) :
      Outcome server (.skipMilliseconds ms)
        (.ok (.now (server.now + BigEndian.toNat ms)))
        { server with now := server.now + BigEndian.toNat ms }

theorem WellFormed.attempt_cases (hE : E.Lawful) (hself : self.WellFormed E)
    {blobs : List Bytes} (hfree : CollisionFree E blobs)
    (hgenesis : NoIndexHash E blobs 0) {spendBundles : List SpendBundle}
    (hclaims : ∀ claim ∈ spendBundles.flatMap SpendBundle.coinSolutions,
      claim.coin.bytes E ∈ blobs)
    (coinbasePuzzleHash feesPuzzleHash : Bytes32)
    (hstored : ∀ blob ∈ ((self.attempt E spendBundles coinbasePuzzleHash
      feesPuzzleHash).2 self.storage).stored, blob ∈ blobs) :
    (∃ e added, self.attempt E spendBundles coinbasePuzzleHash feesPuzzleHash =
        (.error e, self.heap.put self.storage
          (self.db.addPreimages E added))) ∨
      ∃ (f : Farmed E self.chainView spendBundles coinbasePuzzleHash
          feesPuzzleHash self.now) (a : f.Accepted self.db),
        self.attempt E spendBundles coinbasePuzzleHash feesPuzzleHash =
          (.ok f.newView, self.heap.put self.storage (f.applied a)) := by
  have hview : ViewAssumptions (E := E) self.chainView self.storage self.heap
      blobs :=
    ⟨hself.viewDb, hself.genesisHash, hself.cls, hself.keyed, hfree, hgenesis⟩
  unfold attempt at hstored ⊢
  rw [hself.unspentDb] at hstored ⊢
  exact newChainView_cases hE hview hclaims hstored

theorem WellFormed.outcome (hE : E.Lawful) (hself : self.WellFormed E)
    {blobs : List Bytes} (hfree : CollisionFree E blobs)
    (hgenesis : NoIndexHash E blobs 0) (request : Request)
    (hpending : ∀ claim ∈ self.claims, claim.coin.bytes E ∈ blobs)
    (hclaimed : ∀ blob ∈ claimedBlobs E request, blob ∈ blobs)
    (hstored : ∀ blob ∈ (LedgerAPI.step E self request).db.stored,
      blob ∈ blobs) :
    Outcome E self request ((handle E request).run self).1
      (LedgerAPI.step E self request) := by
  have hunchanged : ∀ e, Outcome E self request (.error e) self := by
    intro e
    have hheap : self.heap.put self.storage (self.db.addPreimages E []) =
        self.heap := Heap.put_eq_self _ _
    have hrefused : Outcome E self request (.error e) { self with
        heap := self.heap.put self.storage (self.db.addPreimages E []) } :=
      .refused e []
    rwa [hheap] at hrefused
  cases request with
  | pushTx tx =>
      have hclaims : ∀ claim ∈
          (self.spendBundles ++ [tx]).flatMap SpendBundle.coinSolutions,
          claim.coin.bytes E ∈ blobs := by
        intro claim hclaim
        rw [List.flatMap_append, List.mem_append, List.flatMap_singleton]
          at hclaim
        rcases hclaim with hold | hnew
        · exact hpending claim hold
        · exact hclaimed _ (List.mem_map.mpr ⟨claim, hnew, rfl⟩)
      simp only [LedgerAPI.step, handle, doPushTx_run]
      cases hvalid : validateSpendBundleSignature E tx with
      | error e => exact hunchanged e
      | ok valid =>
          cases valid with
          | false => exact hunchanged _
          | true =>
              rw [step_pushTx_db E self hvalid] at hstored
              rcases hself.attempt_cases hE hfree hgenesis hclaims _ _ hstored
                with ⟨e, added, heq⟩ | ⟨f, a, heq⟩
              · simp only [heq]
                exact .refused e added
              · simp only [heq]
                exact .pushed f a
  | nextBlock coinbasePuzzleHash feesPuzzleHash =>
      rw [step_nextBlock_db] at hstored
      simp only [LedgerAPI.step, handle, doNextBlock_run]
      rcases hself.attempt_cases hE hfree hgenesis hpending _ _ hstored with
        ⟨e, added, heq⟩ | ⟨f, a, heq⟩
      · simp only [heq]
        exact .refused e added
      · simp only [heq]
        exact .mined f a
  | skipMilliseconds ms => exact .skipped ms

/-- The outcome of one more request after a run. -/
theorem run_outcome (hE : E.Lawful) (requests : List Request)
    (request : Request)
    (hfree : CollisionFree E (knownBlobs E (requests ++ [request])))
    (hgenesis : NoIndexHash E (knownBlobs E (requests ++ [request])) 0) :
    Outcome E (run E requests) request
      ((handle E request).run (run E requests)).1
      (step E (run E requests) request) := by
  refine (run_wellFormed requests).outcome hE hfree hgenesis request ?_ ?_ ?_
  · intro claim hclaim
    exact knownBlobs_append requests request (pending_known hclaim)
  · intro blob hblob
    refine List.mem_append_right _ ?_
    rw [List.flatMap_append, List.flatMap_singleton]
    exact List.mem_append_right _ hblob
  · intro blob hblob
    refine List.mem_append_left _ ?_
    rwa [run_append]

/-! ## Refused requests -/

/-- A request that raises leaves the view, the pending bundles, the clock and
the records alone, and loses no preimage. -/
structure RefusedUnchanged (before after : LedgerAPI) : Prop where
  chainView : after.chainView = before.chainView
  spendBundles : after.spendBundles = before.spendBundles
  now : after.now = before.now
  unspentForCoinName :
    after.db.unspentForCoinName = before.db.unspentForCoinName
  hashPreimage : ∀ hash blob, before.db.hashPreimage hash = some blob →
    after.db.hashPreimage hash = some blob

theorem request_refused_unchanged (hE : E.Lawful) (requests : List Request)
    (request : Request)
    (hfree : CollisionFree E (knownBlobs E (requests ++ [request])))
    (hgenesis : NoIndexHash E (knownBlobs E (requests ++ [request])) 0)
    (e : Exn)
    (hraised : ((handle E request).run (run E requests)).1 = .error e) :
    RefusedUnchanged (run E requests) (step E (run E requests) request) := by
  have houtcome := run_outcome hE requests request hfree hgenesis
  have hstored : ∀ blob ∈ (step E (run E requests) request).db.stored,
      blob ∈ knownBlobs E (requests ++ [request]) := by
    intro blob hblob
    refine List.mem_append_left _ ?_
    rwa [run_append]
  rw [hraised] at houtcome
  generalize step E (run E requests) request = after at houtcome hstored ⊢
  cases houtcome with
  | refused e added =>
      rw [db_put] at hstored
      refine ⟨rfl, rfl, rfl, ?_, ?_⟩
      · rw [db_put, Database.addPreimages_unspentForCoinName]
      · intro hash blob h
        rw [db_put]
        exact (run_wellFormed requests).keyed.hashPreimage_addPreimages E
          (hfree.mono hstored) h

end LedgerAPI

namespace Reference

def pendingSpend : List Request :=
  [.nextBlock (puzzleHash []) (SizedBytes.fill 32 4),
    .pushTx (spendBundle (coinbaseCoin []) [])]

def spendCoinbase (coinbasePuzzleHash feesPuzzleHash : Bytes32) :
    List Request :=
  pendingSpend ++ [.nextBlock coinbasePuzzleHash feesPuzzleHash]

def spendRequests : List Request :=
  spendCoinbase (SizedBytes.fill 32 3) (SizedBytes.fill 32 4)

def doubleSpendRequest : Request :=
  .pushTx (spendBundle (coinbaseCoin []) [])

open LedgerAPI in
theorem doubleSpend_state :
    ((handle environment doubleSpendRequest).run
      (run environment spendRequests)).1.toOption.isNone = true ∧
    HashChecks environment
      (knownBlobs environment (spendRequests ++ [doubleSpendRequest]))
      (run environment
        (spendRequests ++ [doubleSpendRequest])).chainView.tipIndex := by
  decide +kernel

open LedgerAPI in
theorem doubleSpend_hashAssumptions : HashAssumptions environment
    (knownBlobs environment (spendRequests ++ [doubleSpendRequest]))
    (run environment
      (spendRequests ++ [doubleSpendRequest])).chainView.tipIndex :=
  doubleSpend_state.2.assumptions

end Reference

open Reference LedgerAPI in
theorem request_refused_unchanged_doubleSpend :
    RefusedUnchanged (run environment spendRequests)
      (step environment (run environment spendRequests)
        doubleSpendRequest) := by
  obtain ⟨e, hraised⟩ := Except.toOption_isNone_iff.mp doubleSpend_state.1
  have hhash := doubleSpend_hashAssumptions
  exact request_refused_unchanged environment_lawful spendRequests
    doubleSpendRequest hhash.collisionFree
    (hhash.noIndexHash.mono (List.Subset.refl _) (Nat.zero_le _)) e hraised

end LedgerSim
