import LedgerSim.AcceptedBlock
import LedgerSim.SpeculativeLedger

/-!
# What `apply_deltas` writes

The first loop of `apply_deltas` writes a record and a blob for each added
coin, the second marks the removed names in the records that the first loop
left.  The two database arguments may be one object; `Heap.write` describes
both cases.
-/

namespace LedgerSim

variable (E : Environment)

/-! ## The writes of the two loops -/

def addRecords (blockIndex : ℕ) (additions : List Coin)
    (d : Dict Bytes32 Unspent) : Dict Bytes32 Unspent :=
  additions.foldl (fun d coin => d.set (coin.name E) ⟨blockIndex, 0⟩) d

def addBlobs (additions : List Coin) (d : Dict Bytes32 Bytes) :
    Dict Bytes32 Bytes :=
  additions.foldl
    (fun d coin => d.set (E.stdHash (coin.bytes E)) (coin.bytes E)) d

/-- One round of the second loop on a name that has a record. -/
def markName (blockIndex : ℕ) (d : Dict Bytes32 Unspent) (name : Bytes32) :
    Dict Bytes32 Unspent :=
  match d.get name with
  | none => d
  | some unspent => d.set name ⟨unspent.confirmedBlockIndex, blockIndex⟩

def markSpent (blockIndex : ℕ) (removals : List Bytes32)
    (d : Dict Bytes32 Unspent) : Dict Bytes32 Unspent :=
  removals.foldl (markName blockIndex) d

/-- Whether the second loop finds a record for a name. -/
def recorded (additions : List Coin)
    (unspentFor : Bytes32 → Option Unspent) (name : Bytes32) : Bool :=
  name ∈ additions.map (Coin.name E) || (unspentFor name).isSome

/-- The records that a block is meant to leave. -/
def blockRecords (blockIndex : ℕ) (added removed : List Bytes32)
    (unspentFor : Bytes32 → Option Unspent) (name : Bytes32) :
    Option Unspent :=
  if name ∈ added then
    some ⟨blockIndex, if name ∈ removed then blockIndex else 0⟩
  else if name ∈ removed then
    (unspentFor name).map fun unspent =>
      ⟨unspent.confirmedBlockIndex, blockIndex⟩
  else unspentFor name

theorem addRecords_get (blockIndex : ℕ) (additions : List Coin)
    (d : Dict Bytes32 Unspent) (name : Bytes32) :
    (addRecords E blockIndex additions d).get name =
      if name ∈ additions.map (Coin.name E) then some ⟨blockIndex, 0⟩
      else d.get name := by
  by_cases hmem : name ∈ additions.map (Coin.name E)
  · rw [if_pos hmem]
    exact Dict.get_foldl_set_of_mem (fun _ => Unspent.mk blockIndex 0) d hmem
  · rw [if_neg hmem]
    exact Dict.get_foldl_set_of_notMem (fun _ => Unspent.mk blockIndex 0) d hmem

theorem addRecords_get_isSome (blockIndex : ℕ) (additions : List Coin)
    (d : Dict Bytes32 Unspent) (name : Bytes32) :
    ((addRecords E blockIndex additions d).get name).isSome =
      recorded E additions d.get name := by
  rw [addRecords_get]
  by_cases hmem : name ∈ additions.map (Coin.name E)
  · rw [if_pos hmem]
    simp only [recorded, hmem, decide_true, Bool.true_or, Option.isSome_some]
  · rw [if_neg hmem]
    simp only [recorded, hmem, decide_false, Bool.false_or]

theorem markName_get (blockIndex : ℕ) (d : Dict Bytes32 Unspent)
    (name other : Bytes32) :
    (markName blockIndex d name).get other =
      if other = name then
        (d.get other).map fun unspent =>
          ⟨unspent.confirmedBlockIndex, blockIndex⟩
      else d.get other := by
  unfold markName
  cases hrecord : d.get name with
  | none =>
      by_cases hname : other = name
      · simp [hname, hrecord]
      · simp [hname]
  | some unspent =>
      rw [Dict.get_set]
      by_cases hname : other = name
      · simp [hname, hrecord]
      · simp [hname]

theorem markSpent_get (blockIndex : ℕ) (removals : List Bytes32)
    (d : Dict Bytes32 Unspent) (name : Bytes32) :
    (markSpent blockIndex removals d).get name =
      if name ∈ removals then
        (d.get name).map fun unspent =>
          ⟨unspent.confirmedBlockIndex, blockIndex⟩
      else d.get name := by
  unfold markSpent
  induction removals generalizing d with
  | nil => simp
  | cons head rest ih =>
      rw [List.foldl_cons, ih, markName_get]
      obtain rfl | hhead := eq_or_ne name head
      · by_cases hrest : name ∈ rest <;> simp [hrest, Function.comp_def]
      · simp [hhead]

theorem markName_get_isSome (blockIndex : ℕ) (d : Dict Bytes32 Unspent)
    (name other : Bytes32) :
    ((markName blockIndex d name).get other).isSome =
      (d.get other).isSome := by
  rw [markName_get]
  by_cases hname : other = name <;> simp [hname]

theorem markSpent_addRecords_get (blockIndex : ℕ) (additions : List Coin)
    (removals : List Bytes32) (d : Dict Bytes32 Unspent) (name : Bytes32) :
    (markSpent blockIndex removals
        (addRecords E blockIndex additions d)).get name =
      blockRecords blockIndex (additions.map (Coin.name E)) removals d.get
        name := by
  rw [markSpent_get, addRecords_get]
  unfold blockRecords
  by_cases hadded : name ∈ additions.map (Coin.name E)
  · by_cases hremoved : name ∈ removals <;>
      simp only [hadded, hremoved, if_true, if_false, Option.map_some]
  · by_cases hremoved : name ∈ removals <;>
      simp only [hadded, hremoved, if_true, if_false]

theorem overlay_overlay {α β : Type} (top middle bottom : α → Option β) :
    overlay top (overlay middle bottom) = overlay (overlay top middle) bottom := by
  funext key
  simp only [overlay]
  cases top key <;> rfl

theorem get_set_eq_overlay {κ ν : Type} [DecidableEq κ] (d : Dict κ ν)
    (key : κ) (value : ν) :
    (d.set key value).get =
      overlay ((Dict.empty : Dict κ ν).set key value).get d.get := by
  funext key'
  simp only [overlay, Dict.get_set]
  by_cases hkey : key' = key <;> simp [hkey]

/-- The storage gains the preimages of the added coins. -/
theorem addBlobs_get (additions : List Coin) (d : Dict Bytes32 Bytes) :
    (addBlobs E additions d).get =
      overlay (ramStorageOf E additions).hashPreimage d.get := by
  have hram : ∀ db : Database,
      (additions.foldl (fun db coin => db.addPreimage E (coin.bytes E))
        db).preimageDb = addBlobs E additions db.preimageDb := by
    unfold addBlobs
    induction additions with
    | nil => exact fun _ => rfl
    | cons coin rest ih => exact fun db => ih (db.addPreimage E _)
  have hstart : (ramStorageOf E additions).hashPreimage =
      (addBlobs E additions .empty).get :=
    congrArg Dict.get (hram Database.ramDB)
  rw [hstart]
  unfold addBlobs
  clear hram hstart
  induction additions generalizing d with
  | nil => rfl
  | cons coin rest ih =>
      rw [List.foldl_cons, List.foldl_cons, ih, ih (Dict.set _ _ _),
        get_set_eq_overlay d, overlay_overlay]

theorem addBlobs_writes (additions : List Coin) (d : Dict Bytes32 Bytes) :
    (addBlobs E additions d).writes =
      (additions.map fun coin => (coin.name E, coin.bytes E)).reverse ++
        d.writes := by
  unfold addBlobs
  induction additions generalizing d with
  | nil => rfl
  | cons coin rest ih =>
      rw [List.foldl_cons, ih]
      simp [Dict.set, Coin.name]

theorem mem_values_addBlobs {additions : List Coin} {d : Dict Bytes32 Bytes}
    {blob : Bytes} : blob ∈ (addBlobs E additions d).values ↔
      blob ∈ additions.map (Coin.bytes E) ∨ blob ∈ d.values := by
  simp [Dict.values, addBlobs_writes, Function.comp_def]

/-- A block's writes to a database in both roles. -/
def Database.applyBlock (db : Database) (blockIndex : ℕ)
    (additions : List Coin) (removals : List Bytes32) : Database :=
  { db with
    preimageDb := addBlobs E additions db.preimageDb
    unspentDb := markSpent blockIndex removals
      (addRecords E blockIndex additions db.unspentDb) }

namespace Database

variable (db : Database) (blockIndex : ℕ) (additions : List Coin)
  (removals : List Bytes32)

@[simp] theorem applyBlock_cls :
    (db.applyBlock E blockIndex additions removals).cls = db.cls := rfl

theorem applyBlock_unspentForCoinName :
    (db.applyBlock E blockIndex additions removals).unspentForCoinName =
      blockRecords blockIndex (additions.map (Coin.name E)) removals
        db.unspentForCoinName :=
  funext (markSpent_addRecords_get E blockIndex additions removals _)

theorem applyBlock_hashPreimage :
    (db.applyBlock E blockIndex additions removals).hashPreimage =
      overlay (ramStorageOf E additions).hashPreimage db.hashPreimage :=
  addBlobs_get E additions db.preimageDb

theorem mem_applyBlock_stored {blob : Bytes} :
    blob ∈ (db.applyBlock E blockIndex additions removals).stored ↔
      blob ∈ additions.map (Coin.bytes E) ∨ blob ∈ db.stored :=
  mem_values_addBlobs E

theorem Keyed.applyBlock {db : Database} (hkeyed : db.Keyed E)
    (blockIndex : ℕ) (additions : List Coin) (removals : List Bytes32) :
    (db.applyBlock E blockIndex additions removals).Keyed E := by
  intro hash blob hmem
  change (hash, blob) ∈ (addBlobs E additions db.preimageDb).writes at hmem
  rw [addBlobs_writes] at hmem
  rcases List.mem_append.mp hmem with hnew | hold
  · obtain ⟨coin, -, heq⟩ := List.mem_map.mp (List.mem_reverse.mp hnew)
    obtain ⟨rfl, rfl⟩ := Prod.mk.inj heq
    rfl
  · exact hkeyed hash blob hold

end Database

/-! ## The records as a speculative ledger -/

open SpeculativeLedger (Entry Records applyBlock)

def Unspent.entry (unspent : Unspent) : Entry :=
  ⟨unspent.confirmedBlockIndex, unspent.spentBlockIndex⟩

def recordsOf (unspentFor : Bytes32 → Option Unspent) : Records Bytes32 :=
  fun name => (unspentFor name).map Unspent.entry

theorem recordsOf_blockRecords (blockIndex : ℕ) (added removed : List Bytes32)
    (unspentFor : Bytes32 → Option Unspent) :
    recordsOf (blockRecords blockIndex added removed unspentFor) =
      applyBlock blockIndex added removed (recordsOf unspentFor) := by
  funext name
  unfold recordsOf blockRecords applyBlock
  by_cases hadded : name ∈ added
  · simp [hadded, Unspent.entry]
  by_cases hremoved : name ∈ removed
  · simp [hadded, hremoved, Function.comp_def, Unspent.entry]
  · simp [hadded, hremoved]

/-! ## Writes to one or two objects -/

/-- Change the records of one object and the blobs of another, or of the same
one. -/
def Heap.write (heap : Heap) (unspentDb storage : Ref)
    (f : Dict Bytes32 Unspent → Dict Bytes32 Unspent)
    (g : Dict Bytes32 Bytes → Dict Bytes32 Bytes) : Heap := fun db =>
  { cls := (heap db).cls
    preimageDb :=
      if db = storage then g (heap db).preimageDb else (heap db).preimageDb
    unspentDb :=
      if db = unspentDb then f (heap db).unspentDb else (heap db).unspentDb }

section Write

variable (heap : Heap) (unspentDb storage : Ref)
  (f f' : Dict Bytes32 Unspent → Dict Bytes32 Unspent)
  (g g' : Dict Bytes32 Bytes → Dict Bytes32 Bytes)

@[simp] theorem Heap.write_cls (db : Ref) :
    (heap.write unspentDb storage f g db).cls = (heap db).cls := rfl

@[simp] theorem Heap.write_unspentDb :
    (heap.write unspentDb storage f g unspentDb).unspentDb =
      f (heap unspentDb).unspentDb := by
  simp [Heap.write]

@[simp] theorem Heap.write_preimageDb :
    (heap.write unspentDb storage f g storage).preimageDb =
      g (heap storage).preimageDb := by
  simp [Heap.write]

theorem Heap.write_unspentDb_of_ne {db : Ref} (h : db ≠ unspentDb) :
    (heap.write unspentDb storage f g db).unspentDb = (heap db).unspentDb := by
  simp [Heap.write, h]

theorem Heap.write_preimageDb_of_ne {db : Ref} (h : db ≠ storage) :
    (heap.write unspentDb storage f g db).preimageDb =
      (heap db).preimageDb := by
  simp [Heap.write, h]

theorem Heap.write_write :
    (heap.write unspentDb storage f g).write unspentDb storage f' g' =
      heap.write unspentDb storage (fun d => f' (f d)) (fun d => g' (g d)) := by
  funext db
  simp only [Heap.write]
  congr 1 <;> split_ifs <;> rfl

theorem Heap.write_id :
    heap.write unspentDb storage (fun d => d) (fun d => d) = heap := by
  funext db
  simp [Heap.write]

end Write

variable {heap : Heap} {unspentDb storage : Ref}

theorem applyAddition_run (hunspent : (heap unspentDb).cls.isUnspentDB)
    (hstorage : (heap storage).cls.isStorage) (blockIndex : ℕ) (coin : Coin) :
    (applyAddition E blockIndex unspentDb storage coin).run heap =
      (.ok (), heap.write unspentDb storage
        (fun d => d.set (coin.name E) ⟨blockIndex, 0⟩)
        (fun d => d.set (E.stdHash (coin.bytes E)) (coin.bytes E))) := by
  have hset : (setUnspentForCoinName unspentDb (coin.name E)
      ⟨blockIndex, 0⟩).run heap =
      (.ok (), heap.put unspentDb ((heap unspentDb).setUnspentForCoinName
        (coin.name E) ⟨blockIndex, 0⟩)) := by
    simp [setUnspentForCoinName, Exec.run_bind, hunspent]
  have hcls : ((heap.put unspentDb ((heap unspentDb).setUnspentForCoinName
      (coin.name E) ⟨blockIndex, 0⟩)) storage).cls.isStorage := by
    by_cases hsame : storage = unspentDb
    · subst storage
      simpa using hstorage
    · rwa [Heap.put_of_ne _ _ hsame]
  unfold applyAddition
  rw [Exec.run_bind_of_ok hset]
  unfold addPreimage
  rw [Exec.run_bind_of_ok (Exec.run_get _), if_pos hcls, Exec.run_modify]
  congr 1
  funext db
  by_cases hdb : db = storage <;> by_cases hdb' : db = unspentDb <;>
    by_cases hsame : storage = unspentDb <;>
    simp_all [Heap.write, Heap.put, Database.addPreimage,
      Database.setUnspentForCoinName]

theorem applyAdditions_run (hunspent : (heap unspentDb).cls.isUnspentDB)
    (hstorage : (heap storage).cls.isStorage) (blockIndex : ℕ)
    (additions : List Coin) :
    (additions.forM (applyAddition E blockIndex unspentDb storage)).run heap =
      (.ok (), heap.write unspentDb storage
        (addRecords E blockIndex additions) (addBlobs E additions)) := by
  induction additions generalizing heap with
  | nil => exact congrArg _ (Heap.write_id heap unspentDb storage).symm
  | cons coin rest ih =>
      have hfirst := applyAddition_run E hunspent hstorage blockIndex coin
      change (applyAddition E blockIndex unspentDb storage coin >>= fun _ =>
        rest.forM (applyAddition E blockIndex unspentDb storage)).run heap = _
      rw [Exec.run_bind_of_ok hfirst, ih (by simpa using hunspent)
        (by simpa using hstorage), Heap.write_write]
      rfl

theorem applyRemoval_run (hunspent : (heap unspentDb).cls.isUnspentDB)
    (storage : Ref) (blockIndex : ℕ) (name : Bytes32) :
    (applyRemoval blockIndex unspentDb name).run heap =
      (if ((heap unspentDb).unspentDb.get name).isSome then .ok ()
        else .error PyException.attributeError,
        heap.write unspentDb storage (fun d => markName blockIndex d name)
          (fun d => d)) := by
  have hread : (unspentForCoinName unspentDb name).run heap =
      (.ok ((heap unspentDb).unspentDb.get name), heap) := by
    simp [unspentForCoinName, Exec.run_bind, hunspent,
      Database.unspentForCoinName]
  unfold applyRemoval
  rw [Exec.run_bind_of_ok hread]
  cases hrecord : (heap unspentDb).unspentDb.get name with
  | none =>
      simp only [Exec.run_throw, Option.isSome_none, Bool.false_eq_true,
        if_false]
      congr 1
      funext db
      by_cases hdb : db = unspentDb <;>
        simp [Heap.write, markName, hdb, hrecord]
  | some unspent =>
      simp only [setUnspentForCoinName, Exec.run_bind, Exec.run_get, hunspent,
        if_true, Exec.run_modify, Option.isSome_some]
      congr 1
      funext db
      by_cases hdb : db = unspentDb <;>
        simp [Heap.write, Heap.put, markName, hdb, hrecord,
          Database.setUnspentForCoinName]

theorem applyRemovals_run (hunspent : (heap unspentDb).cls.isUnspentDB)
    (storage : Ref) (blockIndex : ℕ) (removals : List Bytes32) :
    (removals.forM (applyRemoval blockIndex unspentDb)).run heap =
      (if removals.all fun name =>
          ((heap unspentDb).unspentDb.get name).isSome then .ok ()
        else .error PyException.attributeError,
        heap.write unspentDb storage
          (markSpent blockIndex (removals.takeWhile fun name =>
            ((heap unspentDb).unspentDb.get name).isSome))
          (fun d => d)) := by
  induction removals generalizing heap with
  | nil => exact congrArg _ (Heap.write_id heap unspentDb storage).symm
  | cons name rest ih =>
      have hfirst := applyRemoval_run hunspent storage blockIndex name
      change (applyRemoval blockIndex unspentDb name >>= fun _ =>
        rest.forM (applyRemoval blockIndex unspentDb)).run heap = _
      cases hrecord : ((heap unspentDb).unspentDb.get name).isSome with
      | false =>
          have hnone : (heap unspentDb).unspentDb.get name = none := by
            simpa using hrecord
          rw [hrecord] at hfirst
          rw [Exec.run_bind_of_error hfirst]
          simp only [List.all_cons, hrecord, Bool.false_and,
            List.takeWhile_cons, Bool.false_eq_true, if_false]
          congr 1
          funext db
          by_cases hdb : db = unspentDb <;>
            simp [Heap.write, markName, markSpent, hdb, hnone]
      | true =>
          rw [hrecord] at hfirst
          rw [Exec.run_bind_of_ok hfirst, ih (by simpa using hunspent),
            Heap.write_write]
          simp only [Heap.write_unspentDb, markName_get_isSome, List.all_cons,
            hrecord, Bool.true_and, List.takeWhile_cons, if_true]
          rfl

/-- The outcome of `apply_deltas` and what it has written by then. -/
theorem applyDeltas_run (hunspent : (heap unspentDb).cls.isUnspentDB)
    (hstorage : (heap storage).cls.isStorage) (blockIndex : ℕ)
    (additions : List Coin) (removals : List Bytes32) :
    (applyDeltas E blockIndex additions removals unspentDb storage).run heap =
      (if removals.all
          (recorded E additions (heap unspentDb).unspentForCoinName)
        then .ok () else .error PyException.attributeError,
        heap.write unspentDb storage
          (fun d => markSpent blockIndex
            (removals.takeWhile
              (recorded E additions (heap unspentDb).unspentForCoinName))
            (addRecords E blockIndex additions d))
          (addBlobs E additions)) := by
  have hadditions := applyAdditions_run E hunspent hstorage blockIndex additions
  unfold applyDeltas
  rw [Exec.run_bind_of_ok hadditions,
    applyRemovals_run (by simpa using hunspent) storage,
    Heap.write_write]
  simp only [Heap.write_unspentDb, addRecords_get_isSome]
  rfl

theorem applyAddition_error_of_cls
    (hcls : ¬ ((heap unspentDb).cls.isUnspentDB = true ∧
      (heap storage).cls.isStorage = true))
    (blockIndex : ℕ) (coin : Coin) :
    ∃ e heap', (applyAddition E blockIndex unspentDb storage coin).run heap =
      (.error e, heap') := by
  unfold applyAddition
  by_cases hunspent : (heap unspentDb).cls.isUnspentDB = true
  · have hstorage : ¬ (heap storage).cls.isStorage = true :=
      fun h => hcls ⟨hunspent, h⟩
    have hset : (setUnspentForCoinName unspentDb (coin.name E)
        ⟨blockIndex, 0⟩).run heap =
        (.ok (), heap.put unspentDb ((heap unspentDb).setUnspentForCoinName
          (coin.name E) ⟨blockIndex, 0⟩)) := by
      simp [setUnspentForCoinName, Exec.run_bind, hunspent]
    have hcls' : ¬ ((heap.put unspentDb
        ((heap unspentDb).setUnspentForCoinName (coin.name E)
          ⟨blockIndex, 0⟩)) storage).cls.isStorage = true := by
      by_cases hsame : storage = unspentDb
      · subst storage
        simpa using hstorage
      · rwa [Heap.put_of_ne _ _ hsame]
    rw [Exec.run_bind_of_ok hset]
    unfold addPreimage
    rw [Exec.run_bind_of_ok (Exec.run_get _), if_neg hcls']
    exact ⟨_, _, rfl⟩
  · have hset : (setUnspentForCoinName unspentDb (coin.name E)
        ⟨blockIndex, 0⟩).run heap =
        (.error PyException.attributeError, heap) := by
      simp [setUnspentForCoinName, Exec.run_bind, hunspent]
    exact ⟨_, _, Exec.run_bind_of_error hset _⟩

end LedgerSim
