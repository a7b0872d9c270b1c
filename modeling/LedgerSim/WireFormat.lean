import LedgerSim.Codec
import LedgerSim.ReferenceEnvironment

/-!
# The wire format

The types that are sent and stored beside headers and bodies, and the round
trip of all of them.  Integers have a fixed size, a list starts with a count,
and an s-expression knows its own end, so every value is read up to its last
byte and no further.
-/

namespace LedgerSim

open Codec

variable (E : Environment)

/-! ## Integers and lists -/

/-- `struct.pack` with one of the formats `"!H"`, `"!L"` and `"!Q"`. -/
def packUint (size : ℕ) (value : ℤ) : Except Exn Bytes :=
  if 0 ≤ value ∧ value < 256 ^ size then
    .ok (BigEndian.ofNat size value.toNat)
  else .error PyException.structError

/-- `struct.unpack` of what `f.read(size)` returns. -/
def parseUint (size : ℕ) : Parser ℤ := fun f =>
  if (f.take size).length = size then
    .ok ((BigEndian.toNat (f.take size) : ℤ), f.drop size)
  else .error PyException.structError

def packUint16 : ℤ → Except Exn Bytes :=
  packUint 2

def packUint32 : ℤ → Except Exn Bytes :=
  packUint 4

def parseUint16 : Parser ℤ :=
  parseUint 2

def parseUint32 : Parser ℤ :=
  parseUint 4

/-- `stream` of a `streamable_list`. -/
def streamList {α : Type} (stream : α → Except Exn Bytes) (items : List α) :
    Except Exn Bytes := do
  let count ← packUint16 items.length
  let items ← writeItems stream items
  .ok (count ++ items)

/-- `parse` of a `streamable_list`. -/
def parseList {α : Type} (parse : Parser α) : Parser (List α) := do
  let count ← parseUint16
  readItems parse count.toNat

/-! ## Records -/

def Unspent.stream (unspent : Unspent) : Except Exn Bytes := do
  let confirmedBlockIndex ← packUint32 unspent.confirmedBlockIndex
  let spentBlockIndex ← packUint32 unspent.spentBlockIndex
  .ok (confirmedBlockIndex ++ spentBlockIndex)

def Unspent.parse : Parser Unspent := do
  let confirmedBlockIndex ← parseUint32
  let spentBlockIndex ← parseUint32
  pure ⟨confirmedBlockIndex.toNat, spentBlockIndex.toNat⟩

def CoinSolution.stream (coinSolution : CoinSolution) : Except Exn Bytes := do
  let coin ← coinSolution.coin.stream
  let solution ← (E.sexpToStream coinSolution.solution).mapError Exn.raised
  .ok (coin ++ solution)

def CoinSolution.parse : Parser CoinSolution := do
  let coin ← Coin.parse
  let solution ← parseProgram E
  pure ⟨coin, solution⟩

def SpendBundle.stream (spendBundle : SpendBundle) : Except Exn Bytes := do
  let coinSolutions ← streamList (CoinSolution.stream E)
    spendBundle.coinSolutions
  .ok (coinSolutions ++ spendBundle.aggregatedSignature.sig.1)

def SpendBundle.parse : Parser SpendBundle := do
  let coinSolutions ← parseList (CoinSolution.parse E)
  let aggregatedSignature ← BLSSignature.parse
  pure ⟨coinSolutions, aggregatedSignature⟩

/-! ## What fits -/

def Coin.Fits (coin : Coin) : Prop :=
  0 ≤ coin.amount ∧ coin.amount < 2 ^ 64

def Program.Fits (program : Program) : Prop :=
  ∃ b, E.sexpToStream program = .ok b

structure Body.Fits (body : Body) : Prop where
  coinbaseCoin : body.coinbaseCoin.Fits
  feesCoin : body.feesCoin.Fits
  solutionProgram : Program.Fits E body.solutionProgram
  programCost : 0 ≤ body.programCost ∧ body.programCost < 2 ^ 64

def Header.Fits (header : Header) : Prop :=
  0 ≤ header.timestamp ∧ header.timestamp < 2 ^ 64

def Unspent.Fits (unspent : Unspent) : Prop :=
  unspent.confirmedBlockIndex < 2 ^ 32 ∧ unspent.spentBlockIndex < 2 ^ 32

structure CoinSolution.Fits (coinSolution : CoinSolution) : Prop where
  coin : coinSolution.coin.Fits
  solution : Program.Fits E coinSolution.solution

/-- A list that its count can describe. -/
def ListFits {α : Type} (Fits : α → Prop) (items : List α) : Prop :=
  items.length ≤ 65535 ∧ ∀ item ∈ items, Fits item

def SpendBundle.Fits (spendBundle : SpendBundle) : Prop :=
  ListFits (CoinSolution.Fits E) spendBundle.coinSolutions

/-- The header as it is read: its pointers only know their hashes. -/
def Header.uncached (header : Header) : Header :=
  ⟨⟨header.previousHash.hash, none⟩, header.previousSignature,
    header.timestamp, ⟨header.proofOfSpaceHash.hash, none⟩,
    ⟨header.bodyHash.hash, none⟩, header.extensionDataHash⟩

/-! ## Round trips of the parts -/

theorem undoes_sizedBytes (size : ℕ) :
    Undoes (SizedBytes.parse size) id fun s => .ok s.1 := by
  intro s b hb rest
  obtain rfl := Except.ok.inj hb
  unfold SizedBytes.parse
  rw [List.take_left' s.2, List.drop_left' s.2, dif_pos s.2]
  rfl

theorem packUint_eq_ok_iff {size : ℕ} {value : ℤ} {b : Bytes} :
    packUint size value = .ok b ↔
      (0 ≤ value ∧ value < 256 ^ size) ∧
        BigEndian.ofNat size value.toNat = b := by
  unfold packUint
  split_ifs with hrange
  · simp only [Except.ok.injEq, hrange, true_and, and_true]
  · simp only [hrange, false_and]

theorem undoes_parseUint (size : ℕ) :
    Undoes (parseUint size) id (packUint size) := by
  intro value b hb rest
  obtain ⟨⟨hnonneg, hlt⟩, rfl⟩ := packUint_eq_ok_iff.mp hb
  have hnat : value.toNat < 256 ^ size := by
    have hcast : (value.toNat : ℤ) < 256 ^ size := by
      rw [Int.toNat_of_nonneg hnonneg]
      exact hlt
    exact_mod_cast hcast
  have hlength := BigEndian.length_ofNat size value.toNat
  unfold parseUint
  rw [List.take_left' hlength, List.drop_left' hlength, if_pos hlength,
    BigEndian.toNat_ofNat_of_lt hnat, Int.toNat_of_nonneg hnonneg]
  rfl

theorem undoes_parseUint16 : Undoes parseUint16 id packUint16 :=
  undoes_parseUint 2

theorem undoes_parseUint32 : Undoes parseUint32 id packUint32 :=
  undoes_parseUint 4

theorem undoes_parseUint64 : Undoes parseUint64 id packUint64 :=
  undoes_parseUint 8

theorem undoes_coin : Undoes Coin.parse id Coin.stream := by
  intro coin b hb rest
  obtain ⟨amount, hamount, hb⟩ := Except.bind_eq_ok_iff.mp hb
  obtain rfl := Except.ok.inj hb
  unfold Coin.parse
  simp only [List.append_assoc]
  rw [(undoes_sizedBytes 32).bind_append (x := coin.parentCoinInfo) rfl,
    (undoes_sizedBytes 32).bind_append (x := coin.puzzleHash) rfl,
    undoes_parseUint64.bind_append hamount]
  rfl

theorem undoes_blsSignature :
    Undoes BLSSignature.parse id fun s => .ok s.sig.1 := by
  intro s b hb rest
  obtain rfl := Except.ok.inj hb
  unfold BLSSignature.parse
  rw [(undoes_sizedBytes 96).bind_append (x := s.sig) rfl]
  rfl

theorem undoes_eorSignature :
    Undoes EORSignature.parse id fun s => .ok s.val.1 := by
  intro s b hb rest
  obtain rfl := Except.ok.inj hb
  unfold EORSignature.parse
  rw [(undoes_sizedBytes 32).bind_append (x := s.val) rfl]
  rfl

theorem undoes_proofOfSpace :
    Undoes ProofOfSpace.parse id fun pos => .ok pos.bytes := by
  intro pos b hb rest
  obtain rfl := Except.ok.inj hb
  unfold ProofOfSpace.parse ProofOfSpace.bytes
  simp only [List.append_assoc]
  rw [(undoes_sizedBytes 48).bind_append (x := pos.poolPublicKey) rfl,
    (undoes_sizedBytes 32).bind_append (x := pos.plotPublicKey) rfl]
  rfl

theorem undoes_header : Undoes Header.parse Header.uncached Header.bytes := by
  intro header b hb rest
  obtain ⟨timestamp, htimestamp, hb⟩ := Except.bind_eq_ok_iff.mp hb
  obtain rfl := Except.ok.inj hb
  unfold Header.parse
  simp only [List.append_assoc]
  rw [(undoes_sizedBytes 32).bind_append (x := header.previousHash.hash) rfl,
    undoes_eorSignature.bind_append (x := header.previousSignature) rfl,
    undoes_parseUint64.bind_append htimestamp,
    (undoes_sizedBytes 32).bind_append (x := header.proofOfSpaceHash.hash) rfl,
    (undoes_sizedBytes 32).bind_append (x := header.bodyHash.hash) rfl,
    (undoes_sizedBytes 32).bind_append (x := header.extensionDataHash) rfl]
  rfl

theorem undoes_unspent : Undoes Unspent.parse id Unspent.stream := by
  intro unspent b hb rest
  obtain ⟨confirmed, hconfirmed, hb⟩ := Except.bind_eq_ok_iff.mp hb
  obtain ⟨spent, hspent, hb⟩ := Except.bind_eq_ok_iff.mp hb
  obtain rfl := Except.ok.inj hb
  unfold Unspent.parse
  simp only [List.append_assoc]
  rw [undoes_parseUint32.bind_append hconfirmed,
    undoes_parseUint32.bind_append hspent]
  rfl

theorem undoes_list {α : Type} {parse : Parser α}
    {stream : α → Except Exn Bytes} (h : Undoes parse id stream) :
    Undoes (parseList parse) id (streamList stream) := by
  intro items b hb rest
  obtain ⟨count, hcount, hb⟩ := Except.bind_eq_ok_iff.mp hb
  obtain ⟨blob, hblob, hb⟩ := Except.bind_eq_ok_iff.mp hb
  obtain rfl := Except.ok.inj hb
  unfold parseList
  rw [List.append_assoc, undoes_parseUint16.bind_append hcount]
  have hitems := h.items hblob rest
  rw [List.map_id] at hitems
  exact hitems

/-! ## S-expressions -/

/-- `sexp_from_stream` undoes `sexp_to_stream` and reads no further. -/
def Environment.SexpRoundTrip (E : Environment) : Prop :=
  ∀ sexp b, E.sexpToStream sexp = .ok b →
    ∀ rest, E.sexpFromStream (b ++ rest) = .ok (sexp, rest)

section Programs

variable {E}

theorem undoes_program (hsexp : E.SexpRoundTrip) :
    Undoes (parseProgram E) id fun program =>
      (E.sexpToStream program).mapError Exn.raised := by
  intro program b hb rest
  have hb := Except.mapError_eq_ok_iff.mp hb
  exact Except.mapError_eq_ok_iff.mpr (hsexp program b hb rest)

theorem undoes_body (hsexp : E.SexpRoundTrip) :
    Undoes (Body.parse E) id (Body.bytes E) := by
  intro body b hb rest
  obtain ⟨coinbase, hcoinbase, hb⟩ := Except.bind_eq_ok_iff.mp hb
  obtain ⟨fees, hfees, hb⟩ := Except.bind_eq_ok_iff.mp hb
  obtain ⟨program, hprogram, hb⟩ := Except.bind_eq_ok_iff.mp hb
  obtain ⟨cost, hcost, hb⟩ := Except.bind_eq_ok_iff.mp hb
  obtain rfl := Except.ok.inj hb
  unfold Body.parse
  simp only [List.append_assoc]
  rw [undoes_blsSignature.bind_append (x := body.coinbaseSignature) rfl,
    undoes_coin.bind_append hcoinbase, undoes_coin.bind_append hfees,
    (undoes_program hsexp).bind_append hprogram,
    undoes_parseUint64.bind_append hcost,
    undoes_blsSignature.bind_append (x := body.aggregatedSignature) rfl]
  rfl

theorem undoes_coinSolution (hsexp : E.SexpRoundTrip) :
    Undoes (CoinSolution.parse E) id (CoinSolution.stream E) := by
  intro coinSolution b hb rest
  obtain ⟨coin, hcoin, hb⟩ := Except.bind_eq_ok_iff.mp hb
  obtain ⟨solution, hsolution, hb⟩ := Except.bind_eq_ok_iff.mp hb
  obtain rfl := Except.ok.inj hb
  unfold CoinSolution.parse
  simp only [List.append_assoc]
  rw [undoes_coin.bind_append hcoin,
    (undoes_program hsexp).bind_append hsolution]
  rfl

theorem undoes_spendBundle (hsexp : E.SexpRoundTrip) :
    Undoes (SpendBundle.parse E) id (SpendBundle.stream E) := by
  intro spendBundle b hb rest
  obtain ⟨coinSolutions, hsolutions, hb⟩ := Except.bind_eq_ok_iff.mp hb
  obtain rfl := Except.ok.inj hb
  unfold SpendBundle.parse
  simp only [List.append_assoc]
  rw [(undoes_list (undoes_coinSolution hsexp)).bind_append hsolutions,
    undoes_blsSignature.bind_append (x := spendBundle.aggregatedSignature) rfl]
  rfl

end Programs

/-! ## Streaming what fits -/

section Fits

variable {E}

theorem exists_packUint {size : ℕ} {value : ℤ}
    (hrange : 0 ≤ value ∧ value < 256 ^ size) :
    ∃ b, packUint size value = .ok b :=
  ⟨_, packUint_eq_ok_iff.mpr ⟨hrange, rfl⟩⟩

theorem Unspent.Fits.exists_stream {unspent : Unspent} (h : unspent.Fits) :
    ∃ b, unspent.stream = .ok b := by
  have hrange : ∀ n : ℕ, n < 2 ^ 32 → (0 : ℤ) ≤ n ∧ (n : ℤ) < 256 ^ 4 := by
    intro n hn
    norm_num at hn ⊢
    exact_mod_cast hn
  obtain ⟨confirmed, hconfirmed⟩ := exists_packUint (hrange _ h.1)
  obtain ⟨spent, hspent⟩ := exists_packUint (hrange _ h.2)
  exact ⟨_, Except.bind_eq_ok hconfirmed (Except.bind_eq_ok hspent rfl)⟩

theorem Program.Fits.exists_stream {program : Program}
    (h : Program.Fits E program) :
    ∃ b, (E.sexpToStream program).mapError Exn.raised = .ok b := by
  obtain ⟨b, hb⟩ := h
  exact ⟨b, Except.mapError_eq_ok_iff.mpr hb⟩

theorem CoinSolution.Fits.exists_stream {coinSolution : CoinSolution}
    (h : coinSolution.Fits E) : ∃ b, coinSolution.stream E = .ok b := by
  obtain ⟨coin, hcoin⟩ := Coin.exists_stream_iff.mpr h.coin
  obtain ⟨solution, hsolution⟩ := h.solution.exists_stream
  exact ⟨_, Except.bind_eq_ok hcoin (Except.bind_eq_ok hsolution rfl)⟩

theorem Body.Fits.exists_bytes {body : Body} (h : body.Fits E) :
    ∃ b, body.bytes E = .ok b :=
  (Body.exists_bytes_iff E).mpr ⟨Coin.exists_stream_iff.mpr h.coinbaseCoin,
    Coin.exists_stream_iff.mpr h.feesCoin, h.solutionProgram, h.programCost⟩

theorem ListFits.exists_stream {α : Type} {Fits : α → Prop}
    {stream : α → Except Exn Bytes}
    (hstream : ∀ item, Fits item → ∃ b, stream item = .ok b) {items : List α}
    (h : ListFits Fits items) : ∃ b, streamList stream items = .ok b := by
  have hcount : (0 : ℤ) ≤ items.length ∧ (items.length : ℤ) < 256 ^ 2 := by
    have hlength := h.1
    omega
  obtain ⟨count, hcount⟩ := exists_packUint hcount
  obtain ⟨blob, hblob⟩ := exists_writeItems fun item hitem =>
    hstream item (h.2 item hitem)
  exact ⟨_, Except.bind_eq_ok hcount (Except.bind_eq_ok hblob rfl)⟩

theorem SpendBundle.Fits.exists_stream {spendBundle : SpendBundle}
    (h : spendBundle.Fits E) : ∃ b, spendBundle.stream E = .ok b := by
  obtain ⟨coinSolutions, hsolutions⟩ :=
    ListFits.exists_stream (fun _ hitem => hitem.exists_stream) h
  exact ⟨_, Except.bind_eq_ok hsolutions rfl⟩

end Fits

/-! ## The whole format -/

structure WireFormat : Prop where
  header : RoundTrips Header.parse Header.uncached Header.bytes Header.Fits
  body : RoundTrips (Body.parse E) id (Body.bytes E) (Body.Fits E)
  bodyList : RoundTrips (parseList (Body.parse E)) id
    (streamList (Body.bytes E)) (ListFits (Body.Fits E))
  proofOfSpace : RoundTrips ProofOfSpace.parse id
    (fun pos => .ok pos.bytes) fun _ => True
  unspent : RoundTrips Unspent.parse id Unspent.stream Unspent.Fits
  coinSolution : RoundTrips (CoinSolution.parse E) id (CoinSolution.stream E)
    (CoinSolution.Fits E)
  spendBundle : RoundTrips (SpendBundle.parse E) id (SpendBundle.stream E)
    (SpendBundle.Fits E)
  coin : ∀ coin : Coin, Coin.fromBytes E (coin.bytes E) = .ok coin
  coin_inj : ∀ coin coin' : Coin, coin.bytes E = coin'.bytes E → coin = coin'

theorem wireFormat_roundTrips (hsexp : E.SexpRoundTrip)
    (hcasts : ∀ v, E.intFromBytes (E.intToBytes v) = v) : WireFormat E := by
  have hcoin := Coin.fromBytes_bytes_of_casts E hcasts
  have hbody := undoes_body hsexp
  constructor
  · exact undoes_header.roundTrips fun _ h => Header.exists_bytes_iff.mpr h
  · exact hbody.roundTrips fun _ h => h.exists_bytes
  · exact (undoes_list hbody).roundTrips fun _ h =>
      h.exists_stream fun _ hitem => hitem.exists_bytes
  · exact undoes_proofOfSpace.roundTrips fun _ _ => ⟨_, rfl⟩
  · exact undoes_unspent.roundTrips fun _ h => h.exists_stream
  · exact (undoes_coinSolution hsexp).roundTrips fun _ h => h.exists_stream
  · exact (undoes_spendBundle hsexp).roundTrips fun _ h => h.exists_stream
  · exact hcoin
  · intro coin coin' hbytes
    have h := hcoin coin
    rw [hbytes, hcoin coin'] at h
    exact (Except.ok.inj h).symm

namespace Reference

theorem atomFromStream_append {head more : ℕ} {high blob rest : Bytes}
    (hhigh : high.length = more)
    (hsize : head * 256 ^ more + BigEndian.toNat high = blob.length) :
    atomFromStream head more (high ++ (blob ++ rest)) =
      .ok (.atom blob, rest) := by
  unfold atomFromStream
  rw [List.take_left' hhigh, List.drop_left' hhigh, hsize]
  simp

/-- Where the first byte sends the reader. -/
theorem sexpFromStreamFuel_cons (fuel : ℕ) (b : UInt8) (f : Bytes) :
    sexpFromStreamFuel (fuel + 1) (b :: f) =
      if b.toNat = 255 then do
        let (left, f) ← sexpFromStreamFuel fuel f
        let (right, f) ← sexpFromStreamFuel fuel f
        .ok (.pair left right, f)
      else if b.toNat < 128 then .ok (.atom [b], f)
      else if b.toNat < 192 then atomFromStream (b.toNat - 0x80) 0 f
      else if b.toNat < 224 then atomFromStream (b.toNat - 0xc0) 1 f
      else if b.toNat < 240 then atomFromStream (b.toNat - 0xe0) 2 f
      else .error .valueError := by
  have hpair : b = 0xff ↔ b.toNat = 255 := by
    rw [← UInt8.toNat_inj]
    rfl
  conv_lhs => unfold sexpFromStreamFuel
  simp only [hpair, UInt8.lt_iff_toNat_lt]
  rfl

theorem sexpFromStreamFuel_atomPrefix {fuel : ℕ} {blob size rest : Bytes}
    (hsize : atomPrefix blob.length = .ok size) :
    sexpFromStreamFuel (fuel + 1) (size ++ (blob ++ rest)) =
      .ok (.atom blob, rest) := by
  unfold atomPrefix at hsize
  split_ifs at hsize with h₁ h₂ h₃
  · obtain rfl := Except.ok.inj hsize
    have hnat : (UInt8.ofNat (0x80 + blob.length)).toNat =
        0x80 + blob.length := by
      rw [UInt8.toNat_ofNat']
      omega
    rw [List.singleton_append, sexpFromStreamFuel_cons, hnat,
      if_neg (by omega), if_neg (by omega), if_pos (by omega)]
    exact @atomFromStream_append _ _ [] _ _ rfl (by simp [BigEndian.toNat])
  · obtain rfl := Except.ok.inj hsize
    have hnat : (UInt8.ofNat ((0xc000 + blob.length) / 256 ^ 1)).toNat =
        (0xc000 + blob.length) / 256 := by
      rw [UInt8.toNat_ofNat']
      omega
    have hlow := BigEndian.toNat_ofNat 1 (0xc000 + blob.length)
    rw [BigEndian.ofNat, List.cons_append, sexpFromStreamFuel_cons, hnat,
      if_neg (by omega), if_neg (by omega), if_neg (by omega),
      if_pos (by omega)]
    refine atomFromStream_append (by simp) ?_
    rw [hlow]
    omega
  · obtain rfl := Except.ok.inj hsize
    have hnat : (UInt8.ofNat ((0xe00000 + blob.length) / 256 ^ 2)).toNat =
        (0xe00000 + blob.length) / 65536 := by
      rw [UInt8.toNat_ofNat']
      omega
    have hlow := BigEndian.toNat_ofNat 2 (0xe00000 + blob.length)
    rw [BigEndian.ofNat, List.cons_append, sexpFromStreamFuel_cons, hnat,
      if_neg (by omega), if_neg (by omega), if_neg (by omega),
      if_neg (by omega), if_pos (by omega)]
    refine atomFromStream_append (by simp) ?_
    rw [hlow]
    omega

theorem sexpFromStreamFuel_append {sexp : SExp} {b : Bytes}
    (hb : sexpToStream sexp = .ok b) {fuel : ℕ} (hfuel : b.length ≤ fuel)
    (rest : Bytes) :
    sexpFromStreamFuel fuel (b ++ rest) = .ok (sexp, rest) := by
  induction sexp generalizing b fuel rest with
  | pair left right ihleft ihright =>
      obtain ⟨first, hfirst, hb⟩ := Except.bind_eq_ok_iff.mp hb
      obtain ⟨second, hsecond, hb⟩ := Except.bind_eq_ok_iff.mp hb
      obtain rfl := Except.ok.inj hb
      cases fuel with
      | zero => simp at hfuel
      | succ fuel =>
          simp only [List.length_append, List.length_cons] at hfuel
          simp only [List.cons_append, List.append_assoc]
          have hhead : (0xff : UInt8).toNat = 255 := rfl
          rw [sexpFromStreamFuel_cons, if_pos hhead,
            ihleft hfirst (by omega)]
          change (sexpFromStreamFuel fuel (second ++ rest) >>= _) = _
          rw [ihright hsecond (by omega)]
          rfl
  | atom blob =>
      have hpositive : ∀ {size : Bytes}, atomPrefix blob.length = .ok size →
          0 < size.length := by
        intro size hsize
        unfold atomPrefix at hsize
        split_ifs at hsize
        · simp [← Except.ok.inj hsize]
        · simp [← Except.ok.inj hsize]
        · simp [← Except.ok.inj hsize]
      unfold sexpToStream at hb
      split at hb
      next byte =>
        split_ifs at hb with hsmall
        · obtain rfl := Except.ok.inj hb
          have hlt : byte.toNat < 128 := UInt8.lt_iff_toNat_lt.mp hsmall.2
          cases fuel with
          | zero => simp at hfuel
          | succ fuel =>
              rw [List.singleton_append, sexpFromStreamFuel_cons,
                if_neg (by omega), if_pos hlt]
        · obtain rfl := Except.ok.inj hb
          cases fuel with
          | zero => simp at hfuel
          | succ fuel =>
              exact @sexpFromStreamFuel_atomPrefix fuel [byte] [0x81] _ rfl
      next =>
        obtain ⟨size, hsize, hb⟩ := Except.bind_eq_ok_iff.mp hb
        obtain rfl := Except.ok.inj hb
        have hlength := hpositive hsize
        rw [List.length_append] at hfuel
        rw [List.append_assoc]
        cases fuel with
        | zero => omega
        | succ fuel => exact sexpFromStreamFuel_atomPrefix hsize

theorem environment_sexpRoundTrip : environment.SexpRoundTrip := by
  intro sexp b hb rest
  apply sexpFromStreamFuel_append hb
  rw [List.length_append]
  omega

end Reference

open Reference in
theorem wireFormat_roundTrips_reference : WireFormat environment :=
  wireFormat_roundTrips environment environment_sexpRoundTrip
    BigEndian.toInt_ofInt

end LedgerSim
