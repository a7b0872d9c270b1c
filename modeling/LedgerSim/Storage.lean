import LedgerSim.Streamable
import LedgerSim.Dict

/-!
# Storage and unspent databases

A `Storage` resolves hashes, an `UnspentDB` keeps a record per coin name, and a
`RAM_DB` is both.  The server passes databases by reference and one object may
play both roles, so the methods act on a heap of database objects.
-/

namespace LedgerSim

variable (E : Environment)

/-- Which interface a database object implements. -/
inductive DatabaseClass where
  | storage
  | unspentDB
  | ramDB
deriving DecidableEq

def DatabaseClass.isStorage : DatabaseClass → Bool
  | .storage | .ramDB => true
  | .unspentDB => false

def DatabaseClass.isUnspentDB : DatabaseClass → Bool
  | .unspentDB | .ramDB => true
  | .storage => false

structure Database where
  cls : DatabaseClass
  preimageDb : Dict Bytes32 Bytes
  unspentDb : Dict Bytes32 Unspent

/-- A database object in memory. -/
abbrev Ref := ℕ

abbrev Heap := Ref → Database

/-- Statements that may write to databases and raise. -/
abbrev DbM := Exec Exn Heap

namespace Database

def ramDB : Database :=
  ⟨.ramDB, .empty, .empty⟩

def hashPreimage (db : Database) (hash : Bytes32) : Option Bytes :=
  db.preimageDb.get hash

def unspentForCoinName (db : Database) (coinName : Bytes32) : Option Unspent :=
  db.unspentDb.get coinName

def addPreimage (db : Database) (blob : Bytes) : Database :=
  { db with preimageDb := db.preimageDb.set (E.stdHash blob) blob }

def setUnspentForCoinName (db : Database) (coinName : Bytes32)
    (unspent : Unspent) : Database :=
  { db with unspentDb := db.unspentDb.set coinName unspent }

/-- Every blob that was ever added. -/
def stored (db : Database) : List Bytes :=
  db.preimageDb.values

@[simp] theorem addPreimage_cls (db : Database) (blob : Bytes) :
    (db.addPreimage E blob).cls = db.cls := rfl

@[simp] theorem addPreimage_unspentForCoinName (db : Database) (blob : Bytes) :
    (db.addPreimage E blob).unspentForCoinName = db.unspentForCoinName := rfl

@[simp] theorem setUnspentForCoinName_cls (db : Database) (coinName : Bytes32)
    (unspent : Unspent) :
    (db.setUnspentForCoinName coinName unspent).cls = db.cls := rfl

@[simp] theorem setUnspentForCoinName_hashPreimage (db : Database)
    (coinName : Bytes32) (unspent : Unspent) :
    (db.setUnspentForCoinName coinName unspent).hashPreimage =
      db.hashPreimage := rfl

@[simp] theorem setUnspentForCoinName_preimageDb (db : Database)
    (coinName : Bytes32) (unspent : Unspent) :
    (db.setUnspentForCoinName coinName unspent).preimageDb =
      db.preimageDb := rfl

@[simp] theorem setUnspentForCoinName_stored (db : Database)
    (coinName : Bytes32) (unspent : Unspent) :
    (db.setUnspentForCoinName coinName unspent).stored = db.stored := rfl

@[simp] theorem addPreimage_stored (db : Database) (blob : Bytes) :
    (db.addPreimage E blob).stored = blob :: db.stored := rfl

theorem addPreimage_hashPreimage (db : Database) (blob : Bytes)
    (hash : Bytes32) :
    (db.addPreimage E blob).hashPreimage hash =
      if hash = E.stdHash blob then some blob else db.hashPreimage hash :=
  Dict.get_set _ _ _ _

/-- The contract of `Storage`: a blob is stored under its hash. -/
def Keyed (db : Database) : Prop :=
  ∀ hash blob, (hash, blob) ∈ db.preimageDb.writes → hash = E.stdHash blob

theorem keyed_ramDB : ramDB.Keyed E := by
  intro hash blob hmem
  simp [ramDB, Dict.empty] at hmem

theorem Keyed.addPreimage {db : Database} (hkeyed : db.Keyed E)
    (blob : Bytes) : (db.addPreimage E blob).Keyed E := by
  intro hash blob' hmem
  rcases List.mem_cons.mp hmem with heq | hold
  · obtain ⟨rfl, rfl⟩ := Prod.mk.inj heq
    rfl
  · exact hkeyed hash blob' hold

theorem Keyed.stdHash_of_hashPreimage {db : Database} (hkeyed : db.Keyed E)
    {hash : Bytes32} {blob : Bytes} (h : db.hashPreimage hash = some blob) :
    hash = E.stdHash blob ∧ blob ∈ db.stored :=
  ⟨hkeyed hash blob (Dict.mem_writes_of_get h), Dict.mem_values_of_get h⟩

/-- A stored blob is found under its hash when no other stored blob has that
hash. -/
theorem Keyed.hashPreimage_of_stored {db : Database} (hkeyed : db.Keyed E)
    (hinj : ∀ b ∈ db.stored, ∀ b' ∈ db.stored,
      E.stdHash b = E.stdHash b' → b = b')
    {blob : Bytes} (hmem : blob ∈ db.stored) :
    db.hashPreimage (E.stdHash blob) = some blob := by
  obtain ⟨⟨hash, blob'⟩, hwrite, rfl⟩ := List.mem_map.mp hmem
  have hhash := hkeyed hash blob' hwrite
  obtain ⟨newest, hnewest⟩ := Dict.exists_get_of_mem_writes hwrite
  have hfound := hkeyed.stdHash_of_hashPreimage E hnewest
  have hsame : newest = blob' :=
    hinj newest hfound.2 blob' hmem (hfound.1.symm.trans hhash)
  subst newest
  rw [hhash] at hnewest
  exact hnewest

end Database

/-! ## Overlays -/

/-- `OverlayStorage(top, bottom)` and `OverlayUnspentDB(top, bottom)`: the
first database that has an answer wins. -/
def overlay {α β : Type} (top bottom : α → Option β) (key : α) : Option β :=
  (top key).orElse fun _ => bottom key

/-- A fresh `RAM_DB` with the encodings of the given coins. -/
def ramStorageOf (additions : List Coin) : Database :=
  additions.foldl (fun db coin => db.addPreimage E (coin.bytes E))
    Database.ramDB

def ramUnspentDB (additions : List Coin) (confirmedBlockIndex : ℕ) :
    Dict Bytes32 Unspent :=
  additions.foldl
    (fun db coin => db.set (coin.name E) ⟨confirmedBlockIndex, 0⟩) Dict.empty

/-! ## Methods on the heap -/

def Heap.put (heap : Heap) (db : Ref) (value : Database) : Heap :=
  Function.update heap db value

@[simp] theorem Heap.put_self (heap : Heap) (db : Ref) (value : Database) :
    heap.put db value db = value := by
  simp [Heap.put]

theorem Heap.put_of_ne (heap : Heap) {db other : Ref} (value : Database)
    (h : other ≠ db) : heap.put db value other = heap other := by
  simp [Heap.put, h]

/-- `db.add_preimage(blob)`; an object without the method raises. -/
def addPreimage (db : Ref) (blob : Bytes) : DbM Unit := do
  let heap ← Exec.get
  if (heap db).cls.isStorage then
    Exec.modify fun heap => heap.put db ((heap db).addPreimage E blob)
  else Exec.throw PyException.attributeError

def setUnspentForCoinName (db : Ref) (coinName : Bytes32)
    (unspent : Unspent) : DbM Unit := do
  let heap ← Exec.get
  if (heap db).cls.isUnspentDB then
    Exec.modify fun heap =>
      heap.put db ((heap db).setUnspentForCoinName coinName unspent)
  else Exec.throw PyException.attributeError

def unspentForCoinName (db : Ref) (coinName : Bytes32) :
    DbM (Option Unspent) := do
  let heap ← Exec.get
  if (heap db).cls.isUnspentDB then
    pure ((heap db).unspentForCoinName coinName)
  else Exec.throw PyException.attributeError

end LedgerSim
