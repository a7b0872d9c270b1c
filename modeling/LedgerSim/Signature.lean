import LedgerSim.Streamable

/-!
# Signatures

Spends carry aggregated BLS signatures; headers carry an exclusive-or
signature, which stands in for a proof-of-space signature and has no secrets.
-/

namespace LedgerSim

variable (E : Environment)

/-! ## BLS signatures -/

def zero96 : Bytes96 := SizedBytes.fill 96 0

namespace BLSSignature

/-- `BLSSignature.aggregate`: zero signatures are left out. -/
def aggregate (sigs : List BLSSignature) : Except Exn BLSSignature :=
  match sigs.filter fun s => s.sig ≠ zero96 with
  | [] => .ok ⟨zero96⟩
  | s :: rest => do
      let wrapped ← (s :: rest).mapM fun s =>
        (E.signatureFromBytes s.sig).mapError Exn.raised
      let sig ← (E.aggregateSignatures wrapped).mapError Exn.raised
      .ok ⟨E.serializeSignature sig⟩

/-- `BLSSignature.validate`: only the public keys are read outside of the
`try` block. -/
def validate (self : BLSSignature) (hashKeyPairs : List AggsigPair) :
    Except Exn Bool :=
  match hashKeyPairs with
  | [] => .ok true
  | pairs => do
      let publicKeys ← pairs.mapM fun pair =>
        (E.publicKeyFromBytes pair.publicKey).mapError Exn.raised
      let verdict := do
        let signature ← E.signatureFromBytes self.sig
        E.verify signature (pairs.map AggsigPair.messageHash) publicKeys
      match verdict with
      | .ok ok => .ok ok
      | .error _ => .ok false

@[simp] theorem validate_nil (self : BLSSignature) :
    self.validate E [] = .ok true := rfl

end BLSSignature

/-- What the library is given of a pair. -/
def AggsigPair.decode (pair : AggsigPair) :
    Except Exn (Bytes32 × E.BlsPublicKey) := do
  let publicKey ← (E.publicKeyFromBytes pair.publicKey).mapError Exn.raised
  .ok (pair.messageHash, publicKey)

theorem AggsigPair.mapM_decode_eq_ok_iff {pairs : List AggsigPair}
    {decoded : List (Bytes32 × E.BlsPublicKey)} :
    pairs.mapM (AggsigPair.decode E) = .ok decoded ↔
      pairs.mapM (fun pair =>
          (E.publicKeyFromBytes pair.publicKey).mapError Exn.raised) =
        .ok (decoded.map Prod.snd) ∧
      pairs.map AggsigPair.messageHash = decoded.map Prod.fst := by
  rw [Except.mapM_eq_ok_iff, Except.mapM_eq_ok_iff,
    List.forall₂_map_right_iff]
  constructor
  · intro h
    induction h with
    | nil => exact ⟨.nil, rfl⟩
    | cons hpair _ ih =>
        obtain ⟨publicKey, hkey, hpair⟩ := Except.bind_eq_ok_iff.mp hpair
        obtain rfl := Except.ok.inj hpair
        exact ⟨.cons hkey ih.1, congrArg _ ih.2⟩
  · rintro ⟨hkeys, hmessages⟩
    induction hkeys with
    | nil => exact .nil
    | @cons pair decoded _ _ hkey _ ih =>
        rw [List.map_cons, List.map_cons, List.cons.injEq] at hmessages
        refine .cons ?_ (ih hmessages.2)
        apply Except.bind_eq_ok hkey
        rw [hmessages.1]

namespace BLSSignature

theorem validate_eq_true_iff {self : BLSSignature} {pairs : List AggsigPair}
    (hpairs : pairs ≠ []) :
    self.validate E pairs = .ok true ↔
      ∃ decoded signature, pairs.mapM (AggsigPair.decode E) = .ok decoded ∧
        E.signatureFromBytes self.sig = .ok signature ∧
        E.verify signature (decoded.map Prod.fst) (decoded.map Prod.snd) =
          .ok true := by
  have hunfold : self.validate E pairs = (do
      let publicKeys ← pairs.mapM fun pair =>
        (E.publicKeyFromBytes pair.publicKey).mapError Exn.raised
      match E.signatureFromBytes self.sig >>= fun signature =>
        E.verify signature (pairs.map AggsigPair.messageHash) publicKeys with
      | .ok ok => .ok ok
      | .error _ => .ok false) := by
    cases pairs with
    | nil => exact absurd rfl hpairs
    | cons pair rest => rfl
  rw [hunfold]
  constructor
  · intro h
    obtain ⟨publicKeys, hkeys, h⟩ := Except.bind_eq_ok_iff.mp h
    split at h
    next verdict hverdict =>
      obtain rfl := Except.ok.inj h
      obtain ⟨signature, hsignature, hverify⟩ :=
        Except.bind_eq_ok_iff.mp hverdict
      have hlength : (pairs.map AggsigPair.messageHash).length =
          publicKeys.length := by
        rw [List.length_map]
        exact (Except.mapM_eq_ok_iff.mp hkeys).length_eq
      have hfst : ((pairs.map AggsigPair.messageHash).zip publicKeys).map
          Prod.fst = pairs.map AggsigPair.messageHash :=
        List.map_fst_zip hlength.le
      have hsnd : ((pairs.map AggsigPair.messageHash).zip publicKeys).map
          Prod.snd = publicKeys :=
        List.map_snd_zip hlength.ge
      refine ⟨_, signature, (AggsigPair.mapM_decode_eq_ok_iff E).mpr
        ⟨?_, hfst.symm⟩, hsignature, ?_⟩
      · rw [hsnd]
        exact hkeys
      · rw [hfst, hsnd]
        exact hverify
    next => simp at h
  · rintro ⟨decoded, signature, hdecoded, hsignature, hverify⟩
    obtain ⟨hkeys, hmessages⟩ :=
      (AggsigPair.mapM_decode_eq_ok_iff E).mp hdecoded
    apply Except.bind_eq_ok hkeys
    rw [hmessages, Except.bind_eq_ok hsignature hverify]

end BLSSignature

/-! ## Exclusive-or signatures -/

def eorBytes (a b : Bytes) : Bytes :=
  List.zipWith (· ^^^ ·) a b

def eorBytes32 (a b : Bytes32) : Bytes32 :=
  ⟨eorBytes a.1 b.1, by simp [eorBytes, a.2, b.2]⟩

theorem eorBytes_comm (a b : Bytes) : eorBytes a b = eorBytes b a := by
  unfold eorBytes
  exact List.zipWith_comm_of_comm (fun x y => UInt8.xor_comm x y)

theorem eorBytes_zero_left (b : Bytes) :
    eorBytes (List.replicate b.length 0) b = b := by
  unfold eorBytes
  induction b with
  | nil => rfl
  | cons x rest ih => simp [List.replicate_succ, ih]

theorem eorBytes32_comm (a b : Bytes32) : eorBytes32 a b = eorBytes32 b a :=
  Subtype.ext (eorBytes_comm a.1 b.1)

def zero32 : Bytes32 := SizedBytes.fill 32 0

theorem eorBytes32_zero_left (b : Bytes32) : eorBytes32 zero32 b = b := by
  apply Subtype.ext
  have h := eorBytes_zero_left b.1
  rw [b.2] at h
  exact h

namespace EORSignature

def zero : EORSignature := ⟨zero32⟩

/-- `EORSignature.validate`, with pairs of a public key and a message hash. -/
def validate (self : EORSignature) (hashKeyPairs : List (Bytes32 × Bytes32)) :
    Bool :=
  hashKeyPairs.foldl
    (fun eorResult pair => eorBytes32 (eorBytes32 eorResult pair.2) pair.1)
    zero.val = self.val

/-- `EORPrivateKey.sign`; the public key of a private key is its own value. -/
def sign (privateKey messageHash : Bytes32) : EORSignature :=
  ⟨eorBytes32 privateKey messageHash⟩

theorem validate_sign (privateKey messageHash : Bytes32) :
    (sign privateKey messageHash).validate [(privateKey, messageHash)] =
      true := by
  simp [validate, sign, zero, eorBytes32_zero_left,
    eorBytes32_comm messageHash privateKey]

end EORSignature

end LedgerSim
