import LedgerSim.Environment
import LedgerSim.Exec

/-!
# Streaming, parsing and hash pointers

Every `streamable` type writes its fields in order.  A `Coin` has two
encodings: nested in another value its amount takes eight bytes, while
`bytes(coin)`, which names the coin, ends in a two's-complement integer of
variable length.
-/

namespace LedgerSim

variable (E : Environment)

/-- `struct.pack("!Q", value)` -/
def packUint64 (value : ℤ) : Except Exn Bytes :=
  if 0 ≤ value ∧ value < 2 ^ 64 then .ok (BigEndian.ofNat 8 value.toNat)
  else .error PyException.structError

theorem packUint64_eq_ok_iff {value : ℤ} {b : Bytes} :
    packUint64 value = .ok b ↔
      (0 ≤ value ∧ value < 2 ^ 64) ∧ BigEndian.ofNat 8 value.toNat = b := by
  unfold packUint64
  split_ifs with hrange
  · simp only [Except.ok.injEq, hrange, true_and, and_true]
  · simp only [hrange, false_and]

/-- `bytesN.__new__` -/
def SizedBytes.new (size : ℕ) (b : Bytes) : Except Exn (SizedBytes size) :=
  if h : b.length = size then .ok ⟨b, h⟩ else .error PyException.valueError

theorem SizedBytes.new_eq_ok_iff {size : ℕ} {b : Bytes} {s : SizedBytes size} :
    SizedBytes.new size b = .ok s ↔ s.1 = b := by
  unfold SizedBytes.new
  split_ifs with hlength
  · rw [Except.ok.injEq, Subtype.ext_iff]
    exact eq_comm
  · constructor
    · intro h
      cases h
    · intro h
      exact absurd (h ▸ s.2) hlength

/-- `index.to_bytes(32, "big")` -/
def toBytes32 (index : ℕ) : Except Exn Bytes32 :=
  if index < 256 ^ 32 then .ok ⟨BigEndian.ofNat 32 index, by simp⟩
  else .error PyException.overflowError

def indexHash (index : ℕ) : Bytes32 :=
  ⟨BigEndian.ofNat 32 index, by simp⟩

theorem toBytes32_eq_ok_iff {index : ℕ} {h : Bytes32} :
    toBytes32 index = .ok h ↔ index < 256 ^ 32 ∧ indexHash index = h := by
  unfold toBytes32 indexHash
  split
  next hlt => simp only [Except.ok.injEq, hlt, true_and]
  next hlt => simp only [reduceCtorEq, hlt, false_and]

theorem indexHash_inj {j k : ℕ} (hj : j < 256 ^ 32) (hk : k < 256 ^ 32)
    (h : indexHash j = indexHash k) : j = k :=
  BigEndian.ofNat_inj hj hk (congrArg Subtype.val h)

/-! ## Coins -/

def Coin.bytes (coin : Coin) : Bytes :=
  coin.parentCoinInfo.1 ++ coin.puzzleHash.1 ++ E.intToBytes coin.amount

def Coin.name (coin : Coin) : Bytes32 :=
  E.stdHash (coin.bytes E)

def Coin.fromBytes (blob : Bytes) : Except Exn Coin := do
  let parentCoinInfo ← SizedBytes.new 32 (blob.take 32)
  let puzzleHash ← SizedBytes.new 32 ((blob.drop 32).take 32)
  .ok ⟨parentCoinInfo, puzzleHash, E.intFromBytes (blob.drop 64)⟩

/-- `CoinPointer.obj`: a missing blob is `None`, and slicing `None` raises. -/
def coinPointerObj (hashPreimage : Bytes32 → Option Bytes) (name : Bytes32) :
    Except Exn Coin :=
  match hashPreimage name with
  | none => .error PyException.typeError
  | some blob => Coin.fromBytes E blob

theorem Coin.fromBytes_bytes_of_casts
    (hcasts : ∀ v, E.intFromBytes (E.intToBytes v) = v) (coin : Coin) :
    Coin.fromBytes E (coin.bytes E) = .ok coin := by
  obtain ⟨⟨parent, hparent⟩, ⟨puzzle, hpuzzle⟩, amount⟩ := coin
  have hdrop : (parent ++ (puzzle ++ E.intToBytes amount)).drop 64 =
      E.intToBytes amount := by
    rw [← List.append_assoc]
    exact List.drop_left' (by simp [hparent, hpuzzle])
  have hname : (parent ++ (puzzle ++ E.intToBytes amount)).take 32 = parent :=
    List.take_left' hparent
  have hrest : (parent ++ (puzzle ++ E.intToBytes amount)).drop 32 =
      puzzle ++ E.intToBytes amount := List.drop_left' hparent
  have hmiddle : (puzzle ++ E.intToBytes amount).take 32 = puzzle :=
    List.take_left' hpuzzle
  simp [Coin.bytes, Coin.fromBytes, SizedBytes.new, hdrop, hname, hrest,
    hmiddle, hparent, hpuzzle, hcasts, bind, Except.bind]

theorem Coin.fromBytes_bytes (hE : E.Lawful) (coin : Coin) :
    Coin.fromBytes E (coin.bytes E) = .ok coin :=
  Coin.fromBytes_bytes_of_casts E hE.intFromBytes_intToBytes coin

theorem Coin.bytes_inj (hE : E.Lawful) {x y : Coin}
    (h : x.bytes E = y.bytes E) : x = y := by
  have hx := Coin.fromBytes_bytes E hE x
  rw [h, Coin.fromBytes_bytes E hE y] at hx
  simpa using hx.symm

/-! ## Streams -/

def Coin.stream (coin : Coin) : Except Exn Bytes := do
  let amount ← packUint64 coin.amount
  .ok (coin.parentCoinInfo.1 ++ coin.puzzleHash.1 ++ amount)

def ProofOfSpace.bytes (pos : ProofOfSpace) : Bytes :=
  pos.poolPublicKey.1 ++ pos.plotPublicKey.1

def Body.bytes (body : Body) : Except Exn Bytes := do
  let coinbaseCoin ← body.coinbaseCoin.stream
  let feesCoin ← body.feesCoin.stream
  let solutionProgram ←
    (E.sexpToStream body.solutionProgram).mapError Exn.raised
  let programCost ← packUint64 body.programCost
  .ok (body.coinbaseSignature.sig.1 ++ coinbaseCoin ++ feesCoin ++
    solutionProgram ++ programCost ++ body.aggregatedSignature.sig.1)

def Header.bytes (header : Header) : Except Exn Bytes := do
  let timestamp ← packUint64 header.timestamp
  .ok (header.previousHash.hash.1 ++ header.previousSignature.val.1 ++
    timestamp ++ header.proofOfSpaceHash.hash.1 ++ header.bodyHash.hash.1 ++
    header.extensionDataHash.1)

theorem Coin.exists_stream_iff {coin : Coin} :
    (∃ b, coin.stream = .ok b) ↔ 0 ≤ coin.amount ∧ coin.amount < 2 ^ 64 := by
  constructor
  · rintro ⟨b, h⟩
    obtain ⟨amount, hamount, -⟩ := Except.bind_eq_ok_iff.mp h
    exact (packUint64_eq_ok_iff.mp hamount).1
  · intro hrange
    exact ⟨_, Except.bind_eq_ok (packUint64_eq_ok_iff.mpr ⟨hrange, rfl⟩) rfl⟩

/-- What a body must meet to be streamed. -/
theorem Body.exists_bytes_iff {body : Body} :
    (∃ b, body.bytes E = .ok b) ↔
      (∃ b, body.coinbaseCoin.stream = .ok b) ∧
        (∃ b, body.feesCoin.stream = .ok b) ∧
        (∃ b, E.sexpToStream body.solutionProgram = .ok b) ∧
        0 ≤ body.programCost ∧ body.programCost < 2 ^ 64 := by
  constructor
  · rintro ⟨b, h⟩
    obtain ⟨coinbase, hcoinbase, h⟩ := Except.bind_eq_ok_iff.mp h
    obtain ⟨fees, hfees, h⟩ := Except.bind_eq_ok_iff.mp h
    obtain ⟨program, hprogram, h⟩ := Except.bind_eq_ok_iff.mp h
    obtain ⟨cost, hcost, -⟩ := Except.bind_eq_ok_iff.mp h
    exact ⟨⟨coinbase, hcoinbase⟩, ⟨fees, hfees⟩,
      ⟨program, Except.mapError_eq_ok_iff.mp hprogram⟩,
      (packUint64_eq_ok_iff.mp hcost).1⟩
  · rintro ⟨⟨coinbase, hcoinbase⟩, ⟨fees, hfees⟩, ⟨program, hprogram⟩, hcost⟩
    exact ⟨_, Except.bind_eq_ok hcoinbase <| Except.bind_eq_ok hfees <|
      Except.bind_eq_ok (Except.mapError_eq_ok_iff.mpr hprogram) <|
      Except.bind_eq_ok (packUint64_eq_ok_iff.mpr ⟨hcost, rfl⟩) rfl⟩

theorem Header.exists_bytes_iff {header : Header} :
    (∃ b, header.bytes = .ok b) ↔
      0 ≤ header.timestamp ∧ header.timestamp < 2 ^ 64 := by
  constructor
  · rintro ⟨b, h⟩
    obtain ⟨timestamp, htimestamp, -⟩ := Except.bind_eq_ok_iff.mp h
    exact (packUint64_eq_ok_iff.mp htimestamp).1
  · intro hrange
    exact ⟨_, Except.bind_eq_ok (packUint64_eq_ok_iff.mpr ⟨hrange, rfl⟩) rfl⟩

/-! ## Parsers -/

/-- A parser consumes the front of a stream. -/
abbrev Parser (α : Type) := StateT Bytes (Except Exn) α

def SizedBytes.parse (size : ℕ) : Parser (SizedBytes size) := fun f =>
  if h : (f.take size).length = size then .ok (⟨f.take size, h⟩, f.drop size)
  else .error PyException.assertionError

/-- `struct.unpack("!Q", f.read(8))` -/
def parseUint64 : Parser ℤ := fun f =>
  if (f.take 8).length = 8 then
    .ok ((BigEndian.toNat (f.take 8) : ℤ), f.drop 8)
  else .error PyException.structError

def parseProgram : Parser Program := fun f =>
  (E.sexpFromStream f).mapError Exn.raised

def Coin.parse : Parser Coin := do
  let parentCoinInfo ← SizedBytes.parse 32
  let puzzleHash ← SizedBytes.parse 32
  let amount ← parseUint64
  pure ⟨parentCoinInfo, puzzleHash, amount⟩

def BLSSignature.parse : Parser BLSSignature := do
  let sig ← SizedBytes.parse 96
  pure ⟨sig⟩

def EORSignature.parse : Parser EORSignature := do
  let val ← SizedBytes.parse 32
  pure ⟨val⟩

def ProofOfSpace.parse : Parser ProofOfSpace := do
  let poolPublicKey ← SizedBytes.parse 48
  let plotPublicKey ← SizedBytes.parse 32
  pure ⟨poolPublicKey, plotPublicKey⟩

def Body.parse : Parser Body := do
  let coinbaseSignature ← BLSSignature.parse
  let coinbaseCoin ← Coin.parse
  let feesCoin ← Coin.parse
  let solutionProgram ← parseProgram E
  let programCost ← parseUint64
  let aggregatedSignature ← BLSSignature.parse
  pure ⟨coinbaseSignature, coinbaseCoin, feesCoin, solutionProgram,
    programCost, aggregatedSignature⟩

def Header.parse : Parser Header := do
  let previousHash ← SizedBytes.parse 32
  let previousSignature ← EORSignature.parse
  let timestamp ← parseUint64
  let proofOfSpaceHash ← SizedBytes.parse 32
  let bodyHash ← SizedBytes.parse 32
  let extensionDataHash ← SizedBytes.parse 32
  pure ⟨⟨previousHash, none⟩, previousSignature, timestamp,
    ⟨proofOfSpaceHash, none⟩, ⟨bodyHash, none⟩, extensionDataHash⟩

theorem Parser.bind_eq_ok_iff {α β : Type} {x : Parser α}
    {f : α → Parser β} {b : Bytes} {r : β × Bytes} :
    (x >>= f) b = .ok r ↔ ∃ a rest, x b = .ok (a, rest) ∧ f a rest = .ok r := by
  change (x b >>= fun p => f p.1 p.2) = .ok r ↔ _
  rw [Except.bind_eq_ok_iff]
  exact Prod.exists

/-- `from_bytes`: parse, and ignore what is left of the blob. -/
def Parser.fromBytes {α : Type} (parse : Parser α) (blob : Bytes) :
    Except Exn α :=
  (parse blob).map Prod.fst

/-! ## Hash pointers -/

/-- `hash_pointer.__new__` on an object. -/
def HashPointer.ofObject {α : Type} (bytes : α → Except Exn Bytes) (v : α) :
    Except Exn (HashPointer α) := do
  let blob ← bytes v
  .ok ⟨E.stdHash blob, some v⟩

/-- `hash_pointer.obj`; resolving a pointer also fills its cache, which no
caller can tell from resolving it again. -/
def HashPointer.obj {α : Type} (parse : Parser α) (p : HashPointer α)
    (hashPreimage : Bytes32 → Option Bytes) : Except Exn (Option α) :=
  match p.cached with
  | some v => .ok (some v)
  | none =>
      match hashPreimage p.hash with
      | none => .ok none
      | some blob =>
          if E.stdHash blob = p.hash then
            (Parser.fromBytes parse blob).map some
          else .ok none

@[simp] theorem HashPointer.obj_of_cached {α : Type} (parse : Parser α)
    (hash : Bytes32) (v : α) (hashPreimage : Bytes32 → Option Bytes) :
    HashPointer.obj E parse ⟨hash, some v⟩ hashPreimage = .ok (some v) := rfl

/-- What `hash_pointer.__new__` guarantees of the object it remembers. -/
def HashPointer.Sound {α : Type} (bytes : α → Except Exn Bytes)
    (p : HashPointer α) : Prop :=
  ∀ v, p.cached = some v → ∃ blob, bytes v = .ok blob ∧ p.hash = E.stdHash blob

theorem HashPointer.ofObject_sound {α : Type} {bytes : α → Except Exn Bytes}
    {v : α} {p : HashPointer α}
    (hp : HashPointer.ofObject E bytes v = .ok p) : p.Sound E bytes := by
  obtain ⟨blob, hblob, heq⟩ := Except.bind_eq_ok_iff.mp hp
  obtain rfl := Except.ok.inj heq
  intro v' hv'
  obtain rfl := Option.some.inj hv'
  exact ⟨blob, hblob, rfl⟩

end LedgerSim
