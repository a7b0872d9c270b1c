import LedgerSim.AcceptedValues
import LedgerSim.HashAssumptions
import LedgerSim.WireFormat

/-!
# What pointers resolve to

A `hash_pointer` checks the hash of the blob that a storage gives it and then
parses the blob; a coin name checks nothing.  Either way the object need not
encode to the blob that it was read from.
-/

namespace LedgerSim

open Codec

variable (E : Environment)

/-! ## Reading back what was read -/

theorem SizedBytes.eq_append_of_parse {size : ℕ} {f rest : Bytes}
    {s : SizedBytes size} (h : SizedBytes.parse size f = .ok (s, rest)) :
    f = s.1 ++ rest := by
  unfold SizedBytes.parse at h
  split_ifs at h
  obtain ⟨rfl, rfl⟩ := Prod.mk.inj (Except.ok.inj h)
  exact (List.take_append_drop size f).symm

theorem BLSSignature.eq_append_of_parse {f rest : Bytes} {s : BLSSignature}
    (h : BLSSignature.parse f = .ok (s, rest)) : f = s.sig.1 ++ rest := by
  obtain ⟨sig, more, hsig, h⟩ := Codec.bind_eq_ok_iff.mp h
  obtain ⟨rfl, rfl⟩ := Prod.mk.inj (Except.ok.inj h)
  exact SizedBytes.eq_append_of_parse hsig

theorem EORSignature.eq_append_of_parse {f rest : Bytes} {s : EORSignature}
    (h : EORSignature.parse f = .ok (s, rest)) : f = s.val.1 ++ rest := by
  obtain ⟨val, more, hval, h⟩ := Codec.bind_eq_ok_iff.mp h
  obtain ⟨rfl, rfl⟩ := Prod.mk.inj (Except.ok.inj h)
  exact SizedBytes.eq_append_of_parse hval

theorem covers_parseUint64 : Covers parseUint64 packUint64 := by
  intro f value rest h
  unfold parseUint64 at h
  split_ifs at h with hlength
  obtain ⟨rfl, rfl⟩ := Prod.mk.inj (Except.ok.inj h)
  have hlt := BigEndian.toNat_lt (f.take 8)
  have hback := BigEndian.ofNat_toNat (f.take 8)
  rw [hlength] at hlt hback
  refine ⟨f.take 8, packUint64_eq_ok_iff.mpr ⟨⟨by omega, ?_⟩, ?_⟩,
    (List.take_append_drop 8 f).symm⟩
  · norm_num at hlt ⊢
    exact_mod_cast hlt
  · rw [Int.toNat_natCast]
    exact hback

theorem covers_coin : Covers Coin.parse Coin.stream := by
  intro f coin rest h
  obtain ⟨parent, f₁, hparent, h⟩ := Codec.bind_eq_ok_iff.mp h
  obtain ⟨puzzleHash, f₂, hpuzzle, h⟩ := Codec.bind_eq_ok_iff.mp h
  obtain ⟨amount, f₃, hamount, h⟩ := Codec.bind_eq_ok_iff.mp h
  obtain ⟨rfl, rfl⟩ := Prod.mk.inj (Except.ok.inj h)
  obtain rfl := SizedBytes.eq_append_of_parse hparent
  obtain rfl := SizedBytes.eq_append_of_parse hpuzzle
  obtain ⟨b, hb, rfl⟩ := covers_parseUint64 _ _ _ hamount
  exact ⟨_, Except.bind_eq_ok hb rfl, by simp only [List.append_assoc]⟩

theorem covers_proofOfSpace :
    Covers ProofOfSpace.parse fun pos => .ok pos.bytes := by
  intro f pos rest h
  obtain ⟨pool, f₁, hpool, h⟩ := Codec.bind_eq_ok_iff.mp h
  obtain ⟨plot, f₂, hplot, h⟩ := Codec.bind_eq_ok_iff.mp h
  obtain ⟨rfl, rfl⟩ := Prod.mk.inj (Except.ok.inj h)
  obtain rfl := SizedBytes.eq_append_of_parse hpool
  obtain rfl := SizedBytes.eq_append_of_parse hplot
  exact ⟨_, rfl, by simp only [ProofOfSpace.bytes, List.append_assoc]⟩

theorem covers_header : Covers Header.parse Header.bytes := by
  intro f header rest h
  obtain ⟨previous, f₁, hprevious, h⟩ := Codec.bind_eq_ok_iff.mp h
  obtain ⟨signature, f₂, hsignature, h⟩ := Codec.bind_eq_ok_iff.mp h
  obtain ⟨timestamp, f₃, htimestamp, h⟩ := Codec.bind_eq_ok_iff.mp h
  obtain ⟨space, f₄, hspace, h⟩ := Codec.bind_eq_ok_iff.mp h
  obtain ⟨bodyHash, f₅, hbody, h⟩ := Codec.bind_eq_ok_iff.mp h
  obtain ⟨extension, f₆, hextension, h⟩ := Codec.bind_eq_ok_iff.mp h
  obtain ⟨rfl, rfl⟩ := Prod.mk.inj (Except.ok.inj h)
  obtain rfl := SizedBytes.eq_append_of_parse hprevious
  obtain rfl := EORSignature.eq_append_of_parse hsignature
  obtain ⟨b, hb, rfl⟩ := covers_parseUint64 _ _ _ htimestamp
  obtain rfl := SizedBytes.eq_append_of_parse hspace
  obtain rfl := SizedBytes.eq_append_of_parse hbody
  obtain rfl := SizedBytes.eq_append_of_parse hextension
  exact ⟨_, Except.bind_eq_ok hb rfl, by simp only [List.append_assoc]⟩

theorem Coin.length_stream {coin : Coin} {b : Bytes}
    (h : coin.stream = .ok b) : b.length = 72 := by
  obtain ⟨amount, hamount, h⟩ := Except.bind_eq_ok_iff.mp h
  obtain ⟨-, rfl⟩ := packUint64_eq_ok_iff.mp hamount
  rw [← Except.ok.inj h]
  simp [coin.parentCoinInfo.2, coin.puzzleHash.2]

theorem ProofOfSpace.length_bytes (pos : ProofOfSpace) :
    pos.bytes.length = 80 := by
  simp [ProofOfSpace.bytes, pos.poolPublicKey.2, pos.plotPublicKey.2]

theorem Header.length_bytes {header : Header} {b : Bytes}
    (h : header.bytes = .ok b) : b.length = 168 := by
  obtain ⟨timestamp, htimestamp, h⟩ := Except.bind_eq_ok_iff.mp h
  obtain ⟨-, rfl⟩ := packUint64_eq_ok_iff.mp htimestamp
  rw [← Except.ok.inj h]
  simp [header.previousHash.hash.2, header.previousSignature.val.2,
    header.proofOfSpaceHash.hash.2, header.bodyHash.hash.2,
    header.extensionDataHash.2]

/-- A string is written back as it was read when nothing was left over. -/
theorem reads_whole_iff {α : Type} {parse : Parser α}
    {write : α → Except Exn Bytes} (hcovers : Covers parse write) {size : ℕ}
    (hsize : ∀ x b, write x = .ok b → b.length = size) {blob : Bytes} {x : α}
    {rest : Bytes} (h : parse blob = .ok (x, rest)) :
    write x = .ok blob ↔ blob.length ≤ size := by
  obtain ⟨b, hb, rfl⟩ := hcovers _ _ _ h
  rw [hb, Except.ok.injEq, List.length_append, hsize x b hb]
  constructor
  · intro hall
    have hlength := congrArg List.length hall
    rw [List.length_append] at hlength
    omega
  · intro hle
    have hnil : rest = [] := List.length_eq_zero_iff.mp (by omega)
    rw [hnil, List.append_nil]

theorem reads_all_iff {α : Type} {parse : Parser α}
    {write : α → Except Exn Bytes} (hcovers : Covers parse write) {size : ℕ}
    (hsize : ∀ x b, write x = .ok b → b.length = size) {blob : Bytes}
    (hparses : ∃ x rest, parse blob = .ok (x, rest)) :
    (∀ x rest, parse blob = .ok (x, rest) → write x = .ok blob) ↔
      blob.length ≤ size := by
  obtain ⟨x, rest, h⟩ := hparses
  rw [← reads_whole_iff hcovers hsize h]
  constructor
  · intro hall
    exact hall x rest h
  · intro hwhole y rest' h'
    rw [h] at h'
    obtain ⟨rfl, -⟩ := Prod.mk.inj (Except.ok.inj h')
    exact hwhole

/-! ## Bodies -/

/-- Between the fixed fields of a body, the blob holds the program as it is
serialized, and nothing follows the last field. -/
def CanonicalBody (blob : Bytes) : Prop :=
  ∀ program more, E.sexpFromStream (blob.drop 240) = .ok (program, more) →
    240 ≤ blob.length → 104 ≤ more.length →
      ∃ b, E.sexpToStream program = .ok b ∧
        blob.drop 240 = b ++ more.take 104

section Bodies

variable {E}

theorem SizedBytes.exists_parse {size : ℕ} {f : Bytes}
    (h : size ≤ f.length) :
    ∃ s, SizedBytes.parse size f = .ok (s, f.drop size) := by
  have hlength : (f.take size).length = size := by simp [h]
  exact ⟨⟨f.take size, hlength⟩, by simp [SizedBytes.parse, h]⟩

theorem exists_parseUint64 {f : Bytes} (h : 8 ≤ f.length) :
    ∃ value, parseUint64 f = .ok (value, f.drop 8) := by
  exact ⟨_, by simp [parseUint64, h]; rfl⟩

theorem Coin.exists_parse {f : Bytes} (h : 72 ≤ f.length) :
    ∃ coin, Coin.parse f = .ok (coin, f.drop 72) := by
  obtain ⟨parent, hparent⟩ := SizedBytes.exists_parse
    (show 32 ≤ f.length by omega)
  obtain ⟨puzzleHash, hpuzzle⟩ := SizedBytes.exists_parse
    (show 32 ≤ (f.drop 32).length by rw [List.length_drop]; omega)
  obtain ⟨amount, hamount⟩ := exists_parseUint64
    (show 8 ≤ ((f.drop 32).drop 32).length by
      rw [List.length_drop, List.length_drop]; omega)
  refine ⟨⟨parent, puzzleHash, amount⟩, ?_⟩
  refine Codec.bind_eq_ok_iff.mpr ⟨_, _, hparent, ?_⟩
  refine Codec.bind_eq_ok_iff.mpr ⟨_, _, hpuzzle, ?_⟩
  refine Codec.bind_eq_ok_iff.mpr ⟨_, _, hamount, ?_⟩
  rw [List.drop_drop, List.drop_drop]
  rfl

theorem BLSSignature.exists_parse {f : Bytes} (h : 96 ≤ f.length) :
    ∃ s, BLSSignature.parse f = .ok (s, f.drop 96) := by
  obtain ⟨sig, hsig⟩ := SizedBytes.exists_parse h
  exact ⟨⟨sig⟩, Codec.bind_eq_ok_iff.mpr ⟨_, _, hsig, rfl⟩⟩

/-- The fields of a body around its program. -/
theorem Body.fields_of_parse {blob rest : Bytes} {body : Body}
    (h : Body.parse E blob = .ok (body, rest)) :
    ∃ front back more, front.length = 240 ∧ back.length = 104 ∧
      blob.drop 240 = more ∧ blob = front ++ more ∧
      E.sexpFromStream more = .ok (body.solutionProgram, back ++ rest) ∧
      ∀ encoded, body.bytes E = .ok encoded ↔
        ∃ b, E.sexpToStream body.solutionProgram = .ok b ∧
          encoded = front ++ (b ++ back) := by
  obtain ⟨coinbaseSignature, f₁, h₁, h⟩ := Codec.bind_eq_ok_iff.mp h
  obtain ⟨coinbaseCoin, f₂, h₂, h⟩ := Codec.bind_eq_ok_iff.mp h
  obtain ⟨feesCoin, f₃, h₃, h⟩ := Codec.bind_eq_ok_iff.mp h
  obtain ⟨program, f₄, h₄, h⟩ := Codec.bind_eq_ok_iff.mp h
  obtain ⟨cost, f₅, h₅, h⟩ := Codec.bind_eq_ok_iff.mp h
  obtain ⟨signature, f₆, h₆, h⟩ := Codec.bind_eq_ok_iff.mp h
  obtain ⟨rfl, rfl⟩ := Prod.mk.inj (Except.ok.inj h)
  obtain rfl := BLSSignature.eq_append_of_parse h₁
  obtain ⟨coinbase, hcoinbase, rfl⟩ := covers_coin _ _ _ h₂
  obtain ⟨fees, hfees, rfl⟩ := covers_coin _ _ _ h₃
  obtain ⟨costBytes, hcost, rfl⟩ := covers_parseUint64 _ _ _ h₅
  obtain rfl := BLSSignature.eq_append_of_parse h₆
  have hcostLength : costBytes.length = 8 := by
    obtain ⟨-, rfl⟩ := packUint64_eq_ok_iff.mp hcost
    simp
  have hfront : (coinbaseSignature.sig.1 ++ (coinbase ++ fees)).length =
      240 := by
    simp [coinbaseSignature.sig.2, Coin.length_stream hcoinbase,
      Coin.length_stream hfees]
  have hblob : coinbaseSignature.sig.1 ++ (coinbase ++ (fees ++ f₃)) =
      (coinbaseSignature.sig.1 ++ (coinbase ++ fees)) ++ f₃ := by
    simp only [List.append_assoc]
  refine ⟨coinbaseSignature.sig.1 ++ (coinbase ++ fees),
    costBytes ++ signature.sig.1, f₃, hfront, ?_, ?_, hblob, ?_, ?_⟩
  · simp [hcostLength, signature.sig.2]
  · rw [hblob, List.drop_left' hfront]
  · rw [List.append_assoc]
    exact Except.mapError_eq_ok_iff.mp h₄
  · intro encoded
    constructor
    · intro hencoded
      obtain ⟨_, h₁, hencoded⟩ := Except.bind_eq_ok_iff.mp hencoded
      obtain ⟨_, h₂, hencoded⟩ := Except.bind_eq_ok_iff.mp hencoded
      obtain ⟨b, hb, hencoded⟩ := Except.bind_eq_ok_iff.mp hencoded
      obtain ⟨_, h₃, hencoded⟩ := Except.bind_eq_ok_iff.mp hencoded
      obtain rfl := Except.ok.inj (hcoinbase.symm.trans h₁)
      obtain rfl := Except.ok.inj (hfees.symm.trans h₂)
      obtain rfl := Except.ok.inj (hcost.symm.trans h₃)
      refine ⟨b, Except.mapError_eq_ok_iff.mp hb, ?_⟩
      rw [← Except.ok.inj hencoded]
      simp only [List.append_assoc]
    · rintro ⟨b, hb, rfl⟩
      apply Except.bind_eq_ok hcoinbase
      apply Except.bind_eq_ok hfees
      apply Except.bind_eq_ok (Except.mapError_eq_ok_iff.mpr hb)
      apply Except.bind_eq_ok hcost
      simp only [List.append_assoc]

theorem Body.exists_parse {blob more : Bytes} {program : Program}
    (hblob : 240 ≤ blob.length)
    (hprogram : E.sexpFromStream (blob.drop 240) = .ok (program, more))
    (hmore : 104 ≤ more.length) : ∃ r, Body.parse E blob = .ok r := by
  obtain ⟨coinbaseSignature, h₁⟩ :=
    BLSSignature.exists_parse (show 96 ≤ blob.length by omega)
  obtain ⟨coinbaseCoin, h₂⟩ := Coin.exists_parse
    (show 72 ≤ (blob.drop 96).length by rw [List.length_drop]; omega)
  obtain ⟨feesCoin, h₃⟩ := Coin.exists_parse
    (show 72 ≤ ((blob.drop 96).drop 72).length by
      rw [List.length_drop, List.length_drop]; omega)
  have htail : ((blob.drop 96).drop 72).drop 72 = blob.drop 240 := by
    simp only [List.drop_drop]
  have h₄ : parseProgram E (((blob.drop 96).drop 72).drop 72) =
      .ok (program, more) := by
    rw [htail]
    exact Except.mapError_eq_ok_iff.mpr hprogram
  obtain ⟨cost, h₅⟩ := exists_parseUint64 (show 8 ≤ more.length by omega)
  obtain ⟨signature, h₆⟩ := BLSSignature.exists_parse
    (show 96 ≤ (more.drop 8).length by rw [List.length_drop]; omega)
  refine ⟨(⟨coinbaseSignature, coinbaseCoin, feesCoin, program, cost,
    signature⟩, (more.drop 8).drop 96), ?_⟩
  refine Codec.bind_eq_ok_iff.mpr ⟨_, _, h₁, ?_⟩
  refine Codec.bind_eq_ok_iff.mpr ⟨_, _, h₂, ?_⟩
  refine Codec.bind_eq_ok_iff.mpr ⟨_, _, h₃, ?_⟩
  refine Codec.bind_eq_ok_iff.mpr ⟨_, _, h₄, ?_⟩
  refine Codec.bind_eq_ok_iff.mpr ⟨_, _, h₅, ?_⟩
  exact Codec.bind_eq_ok_iff.mpr ⟨_, _, h₆, rfl⟩

theorem canonicalBody_iff {blob : Bytes} :
    CanonicalBody E blob ↔
      ∀ body rest, Body.parse E blob = .ok (body, rest) →
        body.bytes E = .ok blob := by
  constructor
  · intro hcanonical body rest h
    obtain ⟨front, back, more, hfront, hback, htail, hblob, hprogram,
      hencoded⟩ := Body.fields_of_parse h
    rw [← htail] at hprogram
    have hlength : 240 ≤ blob.length := by
      rw [hblob, List.length_append, hfront]
      omega
    obtain ⟨b, hb, hdrop⟩ := hcanonical _ _ hprogram hlength
      (by rw [List.length_append, hback]; omega)
    refine (hencoded blob).mpr ⟨b, hb, ?_⟩
    rw [htail, List.take_left' hback] at hdrop
    rw [hblob, hdrop]
  · intro h program more hprogram hblob hmore
    obtain ⟨⟨body, rest⟩, hparse⟩ := Body.exists_parse hblob hprogram hmore
    obtain ⟨front, back, tail, hfront, hback, htail, hsplit, hprogram',
      hencoded⟩ := Body.fields_of_parse hparse
    rw [← htail, hprogram] at hprogram'
    obtain ⟨rfl, rfl⟩ := Prod.mk.inj (Except.ok.inj hprogram')
    obtain ⟨b, hb, heq⟩ := (hencoded blob).mp (h body rest hparse)
    refine ⟨b, hb, ?_⟩
    rw [List.take_left' hback, heq, List.drop_left' hfront]

end Bodies

/-! ## Resolving a hash pointer

A pointer keeps the object that its first successful resolution returned, so
what a call returns depends on the storages that were asked before. -/

namespace HashPointer

variable {α : Type} (hashF : Bytes → Bytes32) (parse : Parser α)
  (bytes : α → Except Exn Bytes)

/-- `obj` of `hash_pointer(the_type, hash_f)`. -/
def objWith (p : HashPointer α) (hashPreimage : Bytes32 → Option Bytes) :
    Except Exn (Option α) :=
  match p.cached with
  | some v => .ok (some v)
  | none =>
      match hashPreimage p.hash with
      | none => .ok none
      | some blob =>
          if hashF blob = p.hash then (Parser.fromBytes parse blob).map some
          else .ok none

theorem obj_eq_objWith : obj E parse = objWith E.stdHash parse := rfl

/-- `__new__` on an object. -/
def ofObjectWith (v : α) : Except Exn (HashPointer α) := do
  let blob ← bytes v
  .ok ⟨hashF blob, some v⟩

/-- A pointer as `__new__` makes it, from a hash or from an object. -/
inductive Built : HashPointer α → Prop where
  | ofHash (hash : Bytes32) : Built ⟨hash, none⟩
  | ofObject {v : α} {p : HashPointer α}
      (h : ofObjectWith hashF bytes v = .ok p) : Built p

/-- `self._obj` after `obj` returned or raised. -/
def remember (p : HashPointer α) : Except Exn (Option α) → HashPointer α
  | .ok cached => ⟨p.hash, cached⟩
  | .error _ => p

/-- The pointer after the given storages were asked for its object. -/
def after (p : HashPointer α) (earlier : List (Bytes32 → Option Bytes)) :
    HashPointer α :=
  earlier.foldl (fun p storage => p.remember (objWith hashF parse p storage)) p

/-- Rebuilding the pointer from what `obj` returns gives the pointer. -/
def ResolvesSoundly (p : HashPointer α)
    (earlier : List (Bytes32 → Option Bytes))
    (storage : Bytes32 → Option Bytes) : Prop :=
  ∀ v, objWith hashF parse (p.after hashF parse earlier) storage =
      .ok (some v) →
    (ofObjectWith hashF bytes v).map HashPointer.hash = .ok p.hash

/-- The blob of one storage that `obj` accepts. -/
def accepted (hash : Bytes32) (storage : Bytes32 → Option Bytes) :
    Option Bytes :=
  (storage hash).filter fun blob =>
    hashF blob = hash ∧ (parse blob).toOption.isSome

/-- The first accepted blob, when the pointer has no object of its own. -/
def answer (p : HashPointer α) (asked : List (Bytes32 → Option Bytes)) :
    Option Bytes :=
  match p.cached with
  | some _ => none
  | none => asked.findSome? (accepted hashF parse p.hash)

variable {hashF parse bytes}

theorem accepted_eq_some_iff {hash : Bytes32}
    {storage : Bytes32 → Option Bytes} {blob : Bytes} :
    accepted hashF parse hash storage = some blob ↔
      storage hash = some blob ∧ hashF blob = hash ∧
        ∃ v rest, parse blob = .ok (v, rest) := by
  simp [accepted, Option.filter_eq_some_iff, Except.toOption_isSome_iff]

theorem objWith_of_accepted {hash : Bytes32}
    {storage : Bytes32 → Option Bytes} {blob rest : Bytes} {v : α}
    (h : accepted hashF parse hash storage = some blob)
    (hparse : parse blob = .ok (v, rest)) :
    objWith hashF parse ⟨hash, none⟩ storage = .ok (some v) := by
  obtain ⟨hblob, hhash, -⟩ := accepted_eq_some_iff.mp h
  simp [objWith, hblob, hhash, Parser.fromBytes, hparse, Except.map]

/-- A refused blob leaves the pointer as it was, also when parsing raises. -/
theorem remember_of_refused {hash : Bytes32}
    {storage : Bytes32 → Option Bytes}
    (h : accepted hashF parse hash storage = none) :
    (⟨hash, none⟩ : HashPointer α).remember
      (objWith hashF parse ⟨hash, none⟩ storage) = ⟨hash, none⟩ := by
  unfold objWith
  cases hblob : storage hash with
  | none => rfl
  | some blob =>
      by_cases hhash : hashF blob = hash
      · cases hparse : parse blob with
        | error e => simp [hhash, Parser.fromBytes, hparse, Except.map, remember]
        | ok r =>
            have haccepted : accepted hashF parse hash storage = some blob :=
              accepted_eq_some_iff.mpr ⟨hblob, hhash, r.1, r.2, hparse⟩
            rw [h] at haccepted
            contradiction
      · simp [hhash, remember]

theorem after_of_cached (hash : Bytes32) (v : α)
    (earlier : List (Bytes32 → Option Bytes)) :
    (⟨hash, some v⟩ : HashPointer α).after hashF parse earlier =
      ⟨hash, some v⟩ := by
  induction earlier with
  | nil => rfl
  | cons storage earlier ih => exact ih

/-- What is returned is what the first accepted blob holds. -/
theorem objWith_after_iff {hash : Bytes32}
    {earlier : List (Bytes32 → Option Bytes)}
    {storage : Bytes32 → Option Bytes} {v : α} :
    objWith hashF parse
        ((⟨hash, none⟩ : HashPointer α).after hashF parse earlier) storage =
      .ok (some v) ↔
    ∃ blob rest, answer hashF parse ⟨hash, none⟩ (earlier ++ [storage]) =
      some blob ∧ parse blob = .ok (v, rest) := by
  induction earlier with
  | nil =>
      cases hblob : accepted hashF parse hash storage with
      | some blob =>
          obtain ⟨-, -, w, rest, hparse⟩ := accepted_eq_some_iff.mp hblob
          have hobj := objWith_of_accepted hblob hparse
          simp [after, answer, hblob, hobj, hparse]
      | none =>
          have hcached := congrArg HashPointer.cached
            (remember_of_refused hblob)
          simp only [after, List.foldl_nil]
          constructor
          · intro hobj
            rw [hobj] at hcached
            cases hcached
          · rintro ⟨blob, rest, hanswer, -⟩
            simp [answer, hblob] at hanswer
  | cons first earlier ih =>
      cases hblob : accepted hashF parse hash first with
      | some blob =>
          obtain ⟨-, -, w, rest, hparse⟩ := accepted_eq_some_iff.mp hblob
          have hafter : (⟨hash, none⟩ : HashPointer α).after hashF parse
              (first :: earlier) = ⟨hash, some w⟩ := by
            simp only [after, List.foldl_cons,
              objWith_of_accepted hblob hparse]
            exact after_of_cached hash w earlier
          rw [hafter]
          simp [objWith, answer, hblob, hparse]
      | none =>
          have hafter : (⟨hash, none⟩ : HashPointer α).after hashF parse
              (first :: earlier) =
              (⟨hash, none⟩ : HashPointer α).after hashF parse earlier := by
            simp only [after, List.foldl_cons, remember_of_refused hblob]
          have hanswer : answer hashF parse (⟨hash, none⟩ : HashPointer α)
              (first :: earlier ++ [storage]) =
              answer hashF parse ⟨hash, none⟩ (earlier ++ [storage]) := by
            simp [answer, hblob]
          rw [hafter, hanswer]
          exact ih

theorem answer_spec {p : HashPointer α}
    {asked : List (Bytes32 → Option Bytes)} {blob : Bytes}
    (h : p.answer hashF parse asked = some blob) :
    hashF blob = p.hash ∧ ∃ v rest, parse blob = .ok (v, rest) := by
  unfold answer at h
  cases hcached : p.cached with
  | some v => simp [hcached] at h
  | none =>
      rw [hcached] at h
      obtain ⟨storage, -, haccepted⟩ := List.exists_of_findSome?_eq_some h
      exact (accepted_eq_some_iff.mp haccepted).2

/-- A pointer resolves soundly when the blob it resolves to is the encoding
of what is read from it. -/
theorem resolvesSoundly_iff {p : HashPointer α}
    (hbuilt : Built hashF bytes p)
    {earlier : List (Bytes32 → Option Bytes)}
    {storage : Bytes32 → Option Bytes}
    (hinj : ∀ blob v rest encoded,
      p.answer hashF parse (earlier ++ [storage]) = some blob →
      parse blob = .ok (v, rest) → bytes v = .ok encoded →
      hashF encoded = hashF blob → encoded = blob) :
    p.ResolvesSoundly hashF parse bytes earlier storage ↔
      ∀ blob, p.answer hashF parse (earlier ++ [storage]) = some blob →
        ∀ v rest, parse blob = .ok (v, rest) → bytes v = .ok blob := by
  cases hbuilt with
  | ofObject h =>
      obtain ⟨encoded, hencoded, h⟩ := Except.bind_eq_ok_iff.mp h
      obtain rfl := Except.ok.inj h
      constructor
      · intro _ blob hblob
        cases hblob
      · intro _ v hv
        rw [after_of_cached] at hv
        obtain rfl := Option.some.inj (Except.ok.inj hv)
        simp [ofObjectWith, hencoded, Except.map, bind, Except.bind]
  | ofHash hash =>
      constructor
      · intro hsound blob hblob v rest hparse
        have hrebuilt := hsound v (objWith_after_iff.mpr
          ⟨blob, rest, hblob, hparse⟩)
        obtain ⟨q, hq, hqhash⟩ := Except.map_eq_ok_iff.mp hrebuilt
        obtain ⟨encoded, hencoded, hq⟩ := Except.bind_eq_ok_iff.mp hq
        obtain rfl := Except.ok.inj hq
        have hblobHash := (answer_spec hblob).1
        obtain rfl := hinj blob v rest encoded hblob hparse hencoded
          (hqhash.trans hblobHash.symm)
        exact hencoded
      · intro hall v hv
        obtain ⟨blob, rest, hblob, hparse⟩ := objWith_after_iff.mp hv
        have hencoded := hall blob hblob v rest hparse
        have hblobHash := (answer_spec hblob).1
        simp only [ofObjectWith, hencoded, bind, Except.bind, Except.map,
          hblobHash]

/-- The blob that answers and what is written for it. -/
def blobs (hashF : Bytes → Bytes32) (parse : Parser α)
    (bytes : α → Except Exn Bytes) (p : HashPointer α)
    (asked : List (Bytes32 → Option Bytes)) : List Bytes :=
  match p.answer hashF parse asked with
  | none => []
  | some blob =>
      blob :: (Parser.fromBytes parse blob >>= bytes).toOption.toList

variable {E}

theorem resolvesSoundly_iff_of_collisionFree {p : HashPointer α}
    (hbuilt : Built E.stdHash bytes p)
    {earlier : List (Bytes32 → Option Bytes)}
    {storage : Bytes32 → Option Bytes}
    (hfree : CollisionFree E
      (p.blobs E.stdHash parse bytes (earlier ++ [storage]))) :
    p.ResolvesSoundly E.stdHash parse bytes earlier storage ↔
      ∀ blob, p.answer E.stdHash parse (earlier ++ [storage]) = some blob →
        ∀ v rest, parse blob = .ok (v, rest) → bytes v = .ok blob := by
  apply resolvesSoundly_iff hbuilt
  intro blob v rest encoded hblob hparse hencoded hhash
  have hread : Parser.fromBytes parse blob = .ok v := by
    rw [Parser.fromBytes, hparse]
    rfl
  have hwritten : (Parser.fromBytes parse blob >>= bytes).toOption =
      some encoded := by
    rw [Except.toOption_eq_some_iff]
    exact Except.bind_eq_ok hread hencoded
  have hblobs : p.blobs E.stdHash parse bytes (earlier ++ [storage]) =
      [blob, encoded] := by
    rw [blobs, hblob]
    simp only [hwritten, Option.toList_some]
  rw [hblobs] at hfree
  exact hfree _ (by simp) _ (by simp) hhash

end HashPointer

/-! ## The kinds of pointers -/

structure Message where
  data : Bytes

def Message.bytes (message : Message) : Except Exn Bytes :=
  .ok message.data

/-- `bytes` has no `parse`, so the derived parser raises
`NotImplementedError`. -/
def Message.parse : Parser Message := fun _ =>
  .error PyException.runtimeError

inductive CryptographicPointer where
  | header (p : HeaderHash)
  | proofOfSpace (p : HashPointer ProofOfSpace)
  | body (p : HashPointer Body)
  | message (p : HashPointer Message)
  | coinName (name : Bytes32)

namespace CryptographicPointer

/-- The pointer is one that its constructor returns. -/
def Built : CryptographicPointer → Prop
  | header p => p.Built E.stdHash Header.bytes
  | proofOfSpace p => p.Built E.stdHash fun pos => .ok pos.bytes
  | body p => p.Built E.stdHash (Body.bytes E)
  | message p => p.Built E.hash256 Message.bytes
  | coinName _ => True

/-- Whatever `obj(storage)` returns after the earlier storages were asked,
rebuilding the pointer from it gives the pointer. -/
def ResolvesSoundly (earlier : List (Bytes32 → Option Bytes))
    (storage : Bytes32 → Option Bytes) : CryptographicPointer → Prop
  | header p =>
      p.ResolvesSoundly E.stdHash Header.parse Header.bytes earlier storage
  | proofOfSpace p =>
      p.ResolvesSoundly E.stdHash ProofOfSpace.parse
        (fun pos => .ok pos.bytes) earlier storage
  | body p =>
      p.ResolvesSoundly E.stdHash (Body.parse E) (Body.bytes E) earlier storage
  | message p =>
      p.ResolvesSoundly E.hash256 Message.parse Message.bytes earlier storage
  | coinName name =>
      ∀ coin, coinPointerObj E storage name = .ok coin → coin.name E = name

/-- The blob that answers is an encoding.  The blob of a coin name is not
compared with the name: it has to be a preimage with a minimal amount, or one
whose amount is not minimal and whose recoding is a preimage. -/
def Canonical (earlier : List (Bytes32 → Option Bytes))
    (storage : Bytes32 → Option Bytes) : CryptographicPointer → Prop
  | header p =>
      ∀ blob, p.answer E.stdHash Header.parse (earlier ++ [storage]) =
        some blob → blob.length ≤ 168
  | proofOfSpace p =>
      ∀ blob, p.answer E.stdHash ProofOfSpace.parse (earlier ++ [storage]) =
        some blob → blob.length ≤ 80
  | body p =>
      ∀ blob, p.answer E.stdHash (Body.parse E) (earlier ++ [storage]) =
        some blob → CanonicalBody E blob
  | message _ => True
  | coinName name =>
      ∀ blob, storage name = some blob → 64 ≤ blob.length →
        (E.stdHash blob = name ∧ MinimalAmount E blob) ∨
          (E.stdHash (recode E blob) = name ∧ ¬ MinimalAmount E blob)

/-- The blob that answers and what is written for it. -/
def blobs (earlier : List (Bytes32 → Option Bytes))
    (storage : Bytes32 → Option Bytes) : CryptographicPointer → List Bytes
  | header p =>
      p.blobs E.stdHash Header.parse Header.bytes (earlier ++ [storage])
  | proofOfSpace p =>
      p.blobs E.stdHash ProofOfSpace.parse (fun pos => .ok pos.bytes)
        (earlier ++ [storage])
  | body p =>
      p.blobs E.stdHash (Body.parse E) (Body.bytes E) (earlier ++ [storage])
  | message _ | coinName _ => []

end CryptographicPointer

theorem Coin.length_of_fromBytes {blob : Bytes} {coin : Coin}
    (h : Coin.fromBytes E blob = .ok coin) : 64 ≤ blob.length := by
  obtain ⟨parent, -, h⟩ := Except.bind_eq_ok_iff.mp h
  obtain ⟨puzzleHash, hpuzzle, -⟩ := Except.bind_eq_ok_iff.mp h
  have hlength := puzzleHash.2
  rw [SizedBytes.new_eq_ok_iff.mp hpuzzle, List.length_take,
    List.length_drop] at hlength
  omega

theorem Coin.exists_fromBytes {blob : Bytes} (h : 64 ≤ blob.length) :
    ∃ coin, Coin.fromBytes E blob = .ok coin := by
  have hparent : (blob.take 32).length = 32 := by
    rw [List.length_take]
    omega
  have hpuzzle : ((blob.drop 32).take 32).length = 32 := by
    rw [List.length_take, List.length_drop]
    omega
  have hparent : SizedBytes.new 32 (blob.take 32) = .ok ⟨_, hparent⟩ :=
    SizedBytes.new_eq_ok_iff.mpr rfl
  have hpuzzle : SizedBytes.new 32 ((blob.drop 32).take 32) =
      .ok ⟨_, hpuzzle⟩ := SizedBytes.new_eq_ok_iff.mpr rfl
  exact ⟨_, Except.bind_eq_ok hparent (Except.bind_eq_ok hpuzzle rfl)⟩

theorem stdHash_recode_iff (blob : Bytes) (name : Bytes32) :
    E.stdHash (recode E blob) = name ↔
      (E.stdHash blob = name ∧ MinimalAmount E blob) ∨
        (E.stdHash (recode E blob) = name ∧ ¬ MinimalAmount E blob) := by
  by_cases hminimal : MinimalAmount E blob
  · rw [(recode_eq_iff E blob).mpr hminimal]
    simp [hminimal]
  · simp [hminimal]

theorem coinName_resolvesSoundly_iff {storage : Bytes32 → Option Bytes}
    {name : Bytes32} :
    (∀ coin, coinPointerObj E storage name = .ok coin →
        coin.name E = name) ↔
      ∀ blob, storage name = some blob → 64 ≤ blob.length →
        (E.stdHash blob = name ∧ MinimalAmount E blob) ∨
          (E.stdHash (recode E blob) = name ∧ ¬ MinimalAmount E blob) := by
  simp only [← stdHash_recode_iff]
  unfold coinPointerObj
  cases hstorage : storage name with
  | none => simp
  | some blob =>
      constructor
      · intro hsound b hb hlength
        obtain rfl := Option.some.inj hb
        obtain ⟨coin, hcoin⟩ := Coin.exists_fromBytes E hlength
        rw [← Coin.bytes_of_fromBytes E hcoin]
        exact hsound coin hcoin
      · intro hcanonical coin hcoin
        rw [Coin.name, Coin.bytes_of_fromBytes E hcoin]
        exact hcanonical blob rfl (Coin.length_of_fromBytes E hcoin)

/-- Resolution is sound for exactly the blobs that are encodings. -/
theorem resolvesSoundly_iff_canonical (p : CryptographicPointer)
    (earlier : List (Bytes32 → Option Bytes))
    (storage : Bytes32 → Option Bytes) (hbuilt : p.Built E)
    (hfree : CollisionFree E (p.blobs E earlier storage)) :
    p.ResolvesSoundly E earlier storage ↔ p.Canonical E earlier storage := by
  cases p with
  | header p =>
      apply (HashPointer.resolvesSoundly_iff_of_collisionFree hbuilt
        hfree).trans
      exact forall₂_congr fun blob hblob => reads_all_iff covers_header
        (fun _ _ => Header.length_bytes) (HashPointer.answer_spec hblob).2
  | proofOfSpace p =>
      apply (HashPointer.resolvesSoundly_iff_of_collisionFree hbuilt
        hfree).trans
      exact forall₂_congr fun blob hblob => reads_all_iff covers_proofOfSpace
        (fun pos b hb => Except.ok.inj hb ▸ pos.length_bytes)
        (HashPointer.answer_spec hblob).2
  | body p =>
      apply (HashPointer.resolvesSoundly_iff_of_collisionFree hbuilt
        hfree).trans
      exact forall₂_congr fun blob _ => canonicalBody_iff.symm
  | message p =>
      have hnone : ∀ asked blob,
          p.answer E.hash256 Message.parse asked ≠ some blob := by
        intro asked blob hblob
        obtain ⟨-, v, rest, hparse⟩ := HashPointer.answer_spec hblob
        cases hparse
      apply (HashPointer.resolvesSoundly_iff hbuilt fun blob _ _ _ hblob =>
        absurd hblob (hnone _ blob)).trans
      exact ⟨fun _ => trivial, fun _ blob hblob =>
        absurd hblob (hnone _ blob)⟩
  | coinName name => exact coinName_resolvesSoundly_iff E

theorem resolvesSoundly_iff_canonical_proofOfSpace :
    (CryptographicPointer.proofOfSpace
      ⟨Reference.sha256 Reference.proofOfSpace.bytes, none⟩).ResolvesSoundly
        Reference.environment [] fun _ => some Reference.proofOfSpace.bytes := by
  apply (resolvesSoundly_iff_canonical Reference.environment
    (.proofOfSpace _) _ _ (HashPointer.Built.ofHash _)
    (by decide +kernel)).mpr
  intro blob hblob
  obtain ⟨storage, hmem, haccepted⟩ := List.exists_of_findSome?_eq_some hblob
  obtain rfl := List.mem_singleton.mp hmem
  have hstored := (HashPointer.accepted_eq_some_iff.mp haccepted).1
  rw [← Option.some.inj hstored]
  exact (ProofOfSpace.length_bytes _).le

/-- Any coin resolves any coin name, and a proof of space with a byte too
many resolves its hash. -/
theorem coinName_resolves_to_other_coin :
    ¬ (CryptographicPointer.coinName (SizedBytes.fill 32 9)).ResolvesSoundly
      Reference.environment [] (fun _ => some (Coin.bytes Reference.environment
        ⟨SizedBytes.fill 32 0, SizedBytes.fill 32 0, 0⟩)) ∧
    ¬ (CryptographicPointer.proofOfSpace
      ⟨Reference.sha256 (Reference.proofOfSpace.bytes ++ [0]),
        none⟩).ResolvesSoundly Reference.environment []
        fun _ => some (Reference.proofOfSpace.bytes ++ [0]) := by
  constructor
  · intro hsound
    have hname := hsound _ (Coin.fromBytes_bytes Reference.environment
      Reference.environment_lawful _)
    revert hname
    decide +kernel
  · intro hsound
    have hparse := undoes_proofOfSpace Reference.proofOfSpace _ rfl [0]
    have hhash := hsound Reference.proofOfSpace <|
      HashPointer.objWith_of_accepted
        (HashPointer.accepted_eq_some_iff.mpr ⟨rfl, rfl, _, _, hparse⟩) hparse
    have hsame := Except.ok.inj hhash
    revert hsame
    decide +kernel

end LedgerSim
