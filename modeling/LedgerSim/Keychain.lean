import LedgerSim.SignatureAggregation
import LedgerSim.MalformedData

/-!
# Keychains

A keychain signs the pairs that the conditions of a solution name, and the
validator reads the pairs again from the aggregated bundle.  Both leave out
zero signatures and both treat the empty list of pairs apart; what a signature
covers is kept through the two layers of aggregation.
-/

namespace LedgerSim

variable (E : Environment)

/-! ## Private keys -/

/-- The secret half of `blspy`. -/
structure SecretKeys where
  PrivateKey : Type
  fromBytes : Bytes32 → Except PyException PrivateKey
  getPublicKey : PrivateKey → E.BlsPublicKey
  serializePublicKey : E.BlsPublicKey → Bytes48
  signPrependPrehashed : PrivateKey → Bytes32 → E.PrependSignature

/-- `GROUP_ORDER` -/
def groupOrder : ℤ :=
  52435875175126190479447740508185965837690552500527637822603658699938581184513

variable {E} (secrets : SecretKeys E)

namespace BLSPrivateKey

def fromSecretExponent (secretExponent : ℤ) :
    Except Exn secrets.PrivateKey :=
  let blob := BigEndian.ofNat 32 (secretExponent % groupOrder).toNat
  (secrets.fromBytes ⟨blob, BigEndian.length_ofNat _ _⟩).mapError Exn.raised

def publicKey (self : secrets.PrivateKey) : Bytes48 :=
  secrets.serializePublicKey (secrets.getPublicKey self)

def sign (self : secrets.PrivateKey) (messageHash : Bytes32) : BLSSignature :=
  ⟨E.serializeSignature (secrets.signPrependPrehashed self messageHash)⟩

end BLSPrivateKey

/-! ## The keychain -/

/-- A dictionary in which every private key stands under its own public
key. -/
structure Keychain where
  entries : Dict Bytes48 secrets.PrivateKey
  keyed : ∀ publicKey privateKey, entries.get publicKey = some privateKey →
    BLSPrivateKey.publicKey secrets privateKey = publicKey

namespace Keychain

variable {secrets}

def empty : Keychain secrets :=
  ⟨.empty, nofun⟩

def insert (self : Keychain secrets) (privateKey : secrets.PrivateKey) :
    Keychain secrets where
  entries := self.entries.set (BLSPrivateKey.publicKey secrets privateKey)
    privateKey
  keyed publicKey known h := by
    rw [Dict.get_set] at h
    split_ifs at h with hkey
    · rw [← Option.some.inj h, hkey]
    · exact self.keyed publicKey known h

/-- `Keychain.add_secret_exponents`: the keys before an invalid one stay. -/
def addSecretExponents (secretExponents : List ℤ) :
    Exec Exn (Keychain secrets) Unit :=
  secretExponents.forM fun secretExponent => do
    let privateKey ← Exec.ofExcept
      (BLSPrivateKey.fromSecretExponent secrets secretExponent)
    Exec.modify fun self => self.insert privateKey

def sign (self : Keychain secrets) (aggsigPair : AggsigPair) :
    Except Exn BLSSignature :=
  match self.entries.get aggsigPair.publicKey with
  | none => .error PyException.valueError
  | some privateKey =>
      .ok (BLSPrivateKey.sign secrets privateKey aggsigPair.messageHash)

def signatureForSolution (self : Keychain secrets) (solution : Program) :
    Except Exn BLSSignature := do
  let conditions ← conditionsForSolution E solution
  let conditionsDict := conditionsByOpcode conditions
  let pairs ← hashKeyPairsForConditionsDict conditionsDict
  let signatures ← pairs.mapM self.sign
  BLSSignature.aggregate E signatures

/-- `build_spend_bundle` -/
def buildSpendBundle (self : Keychain secrets) (coin : Coin)
    (solution : Program) : Except Exn SpendBundle := do
  let signature ← self.signatureForSolution solution
  .ok ⟨[⟨coin, solution⟩], signature⟩

end Keychain

/-! ## What a signature covers -/

/-- The signature was made with private keys for these messages and public
keys, one by one or by aggregation. -/
inductive SignsPairs :
    E.PrependSignature → List (Bytes32 × E.BlsPublicKey) → Prop where
  | sign (privateKey : secrets.PrivateKey) (messageHash : Bytes32) :
      SignsPairs (secrets.signPrependPrehashed privateKey messageHash)
        [(messageHash, secrets.getPublicKey privateKey)]
  | aggregate
      {parts : List (E.PrependSignature × List (Bytes32 × E.BlsPublicKey))}
      {signature : E.PrependSignature}
      (hparts : ∀ part ∈ parts, SignsPairs part.1 part.2)
      (haggregate : E.aggregateSignatures (parts.map Prod.fst) =
        .ok signature) :
      SignsPairs signature (parts.flatMap Prod.snd)

/-- The documented behaviour of `blspy`. -/
structure SigningLaws : Prop where
  publicKey_read : ∀ publicKey,
    E.publicKeyFromBytes (secrets.serializePublicKey publicKey) =
      .ok publicKey
  signature_read : ∀ signature,
    E.signatureFromBytes (E.serializeSignature signature) = .ok signature
  aggregate_ok : ∀ parts :
      List (E.PrependSignature × List (Bytes32 × E.BlsPublicKey)),
    parts ≠ [] → (∀ part ∈ parts, SignsPairs secrets part.1 part.2) →
      ∃ signature,
        E.aggregateSignatures (parts.map Prod.fst) = .ok signature
  verify : ∀ signature pairs, SignsPairs secrets signature pairs →
    E.verify signature (pairs.map Prod.fst) (pairs.map Prod.snd) = .ok true
  serialize_ne : ∀ signature pairs, SignsPairs secrets signature pairs →
    E.serializeSignature signature ≠ zero96

/-- Zero covers nothing; any other signature is one that was made with private
keys. -/
inductive BLSSignature.Covers :
    BLSSignature → List (Bytes32 × E.BlsPublicKey) → Prop where
  | zero : Covers ⟨zero96⟩ []
  | signed {signature : E.PrependSignature}
      {pairs : List (Bytes32 × E.BlsPublicKey)}
      (h : SignsPairs secrets signature pairs) :
      Covers ⟨E.serializeSignature signature⟩ pairs

section Covers

variable {secrets} (laws : SigningLaws secrets)

include laws

/-- The signatures that are left to aggregate. -/
theorem exists_parts {sigs : List BLSSignature}
    {covered : List (List (Bytes32 × E.BlsPublicKey))}
    (h : List.Forall₂ (BLSSignature.Covers secrets) sigs covered) :
    ∃ parts : List (E.PrependSignature × List (Bytes32 × E.BlsPublicKey)),
      (∀ part ∈ parts, SignsPairs secrets part.1 part.2) ∧
        (sigs.filter fun s => s.sig ≠ zero96) =
          parts.map (fun part => ⟨E.serializeSignature part.1⟩) ∧
        covered.flatten = parts.flatMap Prod.snd := by
  induction h with
  | nil => exact ⟨[], nofun, rfl, rfl⟩
  | @cons _ pairs _ _ hcovers _ ih =>
      obtain ⟨parts, hparts, hfilter, hflatten⟩ := ih
      cases hcovers with
      | zero =>
          refine ⟨parts, hparts, ?_, ?_⟩
          · rw [List.filter_cons_of_neg (by simp), hfilter]
          · rw [List.flatten_cons, List.nil_append, hflatten]
      | @signed signature _ hsigns =>
          refine ⟨(signature, pairs) :: parts, ?_, ?_, ?_⟩
          · exact List.forall_mem_cons.mpr ⟨hsigns, hparts⟩
          · have hne := laws.serialize_ne signature pairs hsigns
            rw [List.filter_cons_of_pos (by simpa using hne), hfilter]
            rfl
          · rw [List.flatten_cons, hflatten, List.flatMap_cons]

/-- An aggregate covers what its parts cover. -/
theorem BLSSignature.aggregate_covers {sigs : List BLSSignature}
    {covered : List (List (Bytes32 × E.BlsPublicKey))}
    (h : List.Forall₂ (BLSSignature.Covers secrets) sigs covered) :
    ∃ aggregate, BLSSignature.aggregate E sigs = .ok aggregate ∧
      aggregate.Covers secrets covered.flatten := by
  obtain ⟨parts, hparts, hfilter, hflatten⟩ := exists_parts laws h
  unfold BLSSignature.aggregate
  rw [hfilter, hflatten]
  cases parts with
  | nil => exact ⟨_, rfl, .zero⟩
  | cons first rest =>
      obtain ⟨signature, haggregate⟩ := laws.aggregate_ok (first :: rest)
        (List.cons_ne_nil _ _) hparts
      have hread : ((first :: rest).map
          (fun part => (⟨E.serializeSignature part.1⟩ : BLSSignature))).mapM
          (fun s => (E.signatureFromBytes s.sig).mapError Exn.raised) =
            .ok ((first :: rest).map Prod.fst) := by
        rw [Except.mapM_eq_ok_iff, List.forall₂_map_left_iff,
          List.forall₂_map_right_iff, List.forall₂_same]
        intro part _
        rw [laws.signature_read]
        rfl
      refine ⟨⟨E.serializeSignature signature⟩, ?_,
        .signed (.aggregate hparts haggregate)⟩
      apply Except.bind_eq_ok hread
      rw [haggregate]
      rfl

/-- A signature is valid for the pairs that it covers. -/
theorem BLSSignature.Covers.validate {self : BLSSignature}
    {decoded : List (Bytes32 × E.BlsPublicKey)}
    (h : self.Covers secrets decoded) {pairs : List AggsigPair}
    (hdecoded : pairs.mapM (AggsigPair.decode E) = .ok decoded) :
    self.validate E pairs = .ok true := by
  by_cases hpairs : pairs = []
  · rw [hpairs, BLSSignature.validate_nil]
  · rw [BLSSignature.validate_eq_true_iff E hpairs]
    cases h with
    | zero => exact absurd rfl (decoded_ne_nil hpairs hdecoded)
    | @signed signature _ hsigns =>
        exact ⟨decoded, signature, hdecoded, laws.signature_read signature,
          laws.verify signature decoded hsigns⟩

end Covers

/-! ## Signing a solution -/

/-- `(AGG_SIG public_key message_hash)`, with a public key of any length. -/
def Condition.ReadsAsAggSig (condition : Condition) : Prop :=
  ∃ (publicKey : Bytes) (messageHash : Bytes32),
    condition.arguments = [.bytes publicKey, .bytes messageHash.1]

/-- The condition asks for a signature under a key that is not in the
keychain. -/
def Keychain.Misses {secrets : SecretKeys E} (self : Keychain secrets)
    (condition : Condition) : Prop :=
  condition.opcode = ConditionOpcode.aggSig.value ∧
    ∃ publicKey rest, condition.arguments = .bytes publicKey :: rest ∧
      ∀ known, known.1 = publicKey → self.entries.get known = none

theorem signatureForSolution_eq {secrets : SecretKeys E}
    (self : Keychain secrets) {solution : Program}
    {conditions : List Condition}
    (hconditions : conditionsForSolution E solution = .ok conditions) :
    self.signatureForSolution solution = (do
      let pairs ← (conditions.filter fun c =>
        c.opcode = ConditionOpcode.aggSig.value).mapM hashKeyPair
      let signatures ← pairs.mapM self.sign
      BLSSignature.aggregate E signatures) := by
  unfold Keychain.signatureForSolution hashKeyPairsForConditionsDict
  rw [hconditions, Except.ok_bind]
  dsimp only
  rw [get_conditionsByOpcode]

theorem hashKeyPairsForSolution_eq {solution : Program}
    {conditions : List Condition}
    (hconditions : conditionsForSolution E solution = .ok conditions) :
    hashKeyPairsForSolution E solution =
      (conditions.filter fun c =>
        c.opcode = ConditionOpcode.aggSig.value).mapM hashKeyPair := by
  unfold hashKeyPairsForSolution conditionsDictForSolution
    hashKeyPairsForConditionsDict
  rw [hconditions, Except.ok_bind, Except.ok_bind, get_conditionsByOpcode]

namespace Keychain

variable {secrets : SecretKeys E} {self : Keychain secrets}

theorem raises_sign (pair : AggsigPair) :
    Except.Raises (fun e => e = Exn.raised .valueError) (self.sign pair) := by
  unfold sign
  cases self.entries.get pair.publicKey with
  | none =>
      intro e h
      exact (Except.error.inj h).symm
  | some privateKey => exact Except.raises_ok _

theorem raises_hashKeyPair {condition : Condition}
    (h : condition.ReadsAsAggSig) :
    Except.Raises (fun e => e = Exn.raised .valueError)
      (hashKeyPair condition) := by
  obtain ⟨publicKey, messageHash, harguments⟩ := h
  have hhash : (PyVal.bytes messageHash.1).toSizedBytes 32 =
      .ok messageHash := toSizedBytes_ok_iff.mpr rfl
  unfold hashKeyPair
  rw [harguments]
  dsimp only
  rw [hhash]
  unfold PyVal.toSizedBytes SizedBytes.new
  dsimp only
  split_ifs with hlength
  · exact Except.raises_ok _
  · intro e he
    exact (Except.error.inj he).symm

/-- A key of the keychain signs the pair of a condition. -/
theorem sign_eq_ok {pair : AggsigPair} {privateKey : secrets.PrivateKey}
    (h : self.entries.get pair.publicKey = some privateKey) :
    self.sign pair =
      .ok (BLSPrivateKey.sign secrets privateKey pair.messageHash) := by
  unfold sign
  rw [h]

theorem sign_covers (laws : SigningLaws secrets) {pair : AggsigPair}
    {s : BLSSignature} (h : self.sign pair = .ok s) :
    ∃ decoded, pair.decode E = .ok decoded ∧ s.Covers secrets [decoded] := by
  unfold sign at h
  cases hkey : self.entries.get pair.publicKey with
  | none =>
      rw [hkey] at h
      cases h
  | some privateKey =>
      rw [hkey] at h
      have hkeyed := self.keyed pair.publicKey privateKey hkey
      have hread : E.publicKeyFromBytes pair.publicKey =
          .ok (secrets.getPublicKey privateKey) := by
        rw [← hkeyed]
        exact laws.publicKey_read _
      refine ⟨(pair.messageHash, secrets.getPublicKey privateKey), ?_, ?_⟩
      · unfold AggsigPair.decode
        rw [hread]
        rfl
      · rw [← Except.ok.inj h]
        exact .signed (.sign privateKey pair.messageHash)

/-- The signatures of the pairs and what they cover. -/
theorem mapM_sign_covers (laws : SigningLaws secrets)
    {pairs : List AggsigPair} {sigs : List BLSSignature}
    (h : pairs.mapM self.sign = .ok sigs) :
    ∃ decoded : List (Bytes32 × E.BlsPublicKey),
      pairs.mapM (AggsigPair.decode E) = .ok decoded ∧
        List.Forall₂ (BLSSignature.Covers secrets) sigs
          (decoded.map fun pair => [pair]) := by
  rw [Except.mapM_eq_ok_iff] at h
  induction h with
  | nil => exact ⟨[], rfl, .nil⟩
  | cons hsign _ ih =>
      obtain ⟨first, hfirst, hcovers⟩ := sign_covers laws hsign
      obtain ⟨rest, hrest, hcoversRest⟩ := ih
      refine ⟨first :: rest, ?_, .cons hcovers hcoversRest⟩
      rw [Except.mapM_eq_ok_iff] at hrest ⊢
      exact .cons hfirst hrest

/-- The signature of a solution covers the pairs that the validator reads
from it. -/
theorem signatureForSolution_covers (laws : SigningLaws secrets)
    {solution : Program} {s : BLSSignature}
    (h : self.signatureForSolution solution = .ok s) :
    ∃ pairs decoded, hashKeyPairsForSolution E solution = .ok pairs ∧
      pairs.mapM (AggsigPair.decode E) = .ok decoded ∧
      s.Covers secrets decoded := by
  have hrun := h
  unfold signatureForSolution at hrun
  obtain ⟨conditions, hconditions, -⟩ := Except.bind_eq_ok_iff.mp hrun
  rw [signatureForSolution_eq self hconditions] at h
  obtain ⟨pairs, hpairs, h⟩ := Except.bind_eq_ok_iff.mp h
  obtain ⟨sigs, hsigs, h⟩ := Except.bind_eq_ok_iff.mp h
  obtain ⟨decoded, hdecoded, hcovers⟩ := mapM_sign_covers laws hsigs
  obtain ⟨aggregate, haggregate, hcovered⟩ :=
    BLSSignature.aggregate_covers laws hcovers
  have hflatten : (decoded.map fun pair => [pair]).flatten = decoded := by
    rw [← List.flatMap_def, List.flatMap_singleton']
  rw [hflatten] at hcovered
  have hsame : s = aggregate := Except.ok.inj (h.symm.trans haggregate)
  refine ⟨pairs, decoded, ?_, hdecoded, hsame ▸ hcovered⟩
  rw [hashKeyPairsForSolution_eq hconditions]
  exact hpairs

theorem exists_sign_of_not_misses {condition : Condition}
    (hopcode : condition.opcode = ConditionOpcode.aggSig.value)
    (hread : condition.ReadsAsAggSig) (hknown : ¬ self.Misses condition) :
    ∃ pair signature, hashKeyPair condition = .ok pair ∧
      self.sign pair = .ok signature := by
  obtain ⟨publicKey, messageHash, harguments⟩ := hread
  by_contra hnone
  apply hknown
  refine ⟨hopcode, publicKey, _, harguments, ?_⟩
  intro known hsame
  by_contra hkey
  obtain ⟨privateKey, hget⟩ := Option.ne_none_iff_exists'.mp hkey
  have hpair : hashKeyPair condition = .ok ⟨known, messageHash⟩ := by
    apply hashKeyPair_eq_ok_iff.mpr
    rw [harguments, hsame]
  exact hnone ⟨⟨known, messageHash⟩, _, hpair, sign_eq_ok hget⟩

section Evaluated

variable {solution : Program} {conditions : List Condition}
  (hconditions : conditionsForSolution E solution = .ok conditions)
  (hread : ∀ condition ∈ conditions,
    condition.opcode = ConditionOpcode.aggSig.value → condition.ReadsAsAggSig)

include hconditions hread

/-- Well-formed conditions leave only one way to fail. -/
theorem raises_signatureForSolution (laws : SigningLaws secrets) :
    Except.Raises (fun e => e = Exn.raised .valueError)
      (self.signatureForSolution solution) := by
  rw [signatureForSolution_eq self hconditions]
  apply Except.Raises.bind
  · apply Except.Raises.mapM
    intro condition hcondition
    obtain ⟨hmem, hopcode⟩ := List.mem_filter.mp hcondition
    exact raises_hashKeyPair (hread condition hmem (by simpa using hopcode))
  · intro pairs e h
    rcases Except.bind_eq_error_iff.mp h with hsign | ⟨sigs, hsigs, haggregate⟩
    · exact (Except.Raises.mapM fun pair _ => raises_sign pair) e hsign
    · -- what was signed can be aggregated
      obtain ⟨decoded, -, hcovers⟩ := mapM_sign_covers laws hsigs
      obtain ⟨aggregate, hok, -⟩ := BLSSignature.aggregate_covers laws hcovers
      rw [hok] at haggregate
      cases haggregate

theorem signatureForSolution_ok_iff (laws : SigningLaws secrets) :
    (∃ s, self.signatureForSolution solution = .ok s) ↔
      ∀ condition ∈ conditions, ¬ self.Misses condition := by
  rw [signatureForSolution_eq self hconditions]
  constructor
  · rintro ⟨s, h⟩ condition hcondition ⟨hopcode, publicKey, rest, harguments,
      hmissing⟩
    obtain ⟨pairs, hpairs, h⟩ := Except.bind_eq_ok_iff.mp h
    obtain ⟨sigs, hsigs, -⟩ := Except.bind_eq_ok_iff.mp h
    have hmem : condition ∈ conditions.filter fun c =>
        c.opcode = ConditionOpcode.aggSig.value :=
      List.mem_filter.mpr ⟨hcondition, by simpa using hopcode⟩
    obtain ⟨pair, hpair, hhash⟩ := Except.exists_of_mapM_eq_ok hpairs hmem
    obtain ⟨signature, -, hsign⟩ := Except.exists_of_mapM_eq_ok hsigs hpair
    have hkey : pair.publicKey.1 = publicKey := by
      have hread := hashKeyPair_eq_ok_iff.mp hhash
      rw [harguments] at hread
      simpa using (List.cons.inj hread).1.symm
    unfold sign at hsign
    rw [hmissing pair.publicKey hkey] at hsign
    cases hsign
  · intro hknown
    have hfind : ∀ condition ∈ conditions.filter fun c =>
        c.opcode = ConditionOpcode.aggSig.value,
        ∃ pair signature, hashKeyPair condition = .ok pair ∧
          self.sign pair = .ok signature := by
      intro condition hcondition
      have hmem := List.mem_filter.mp hcondition
      have hopcode : condition.opcode = ConditionOpcode.aggSig.value := by
        simpa using hmem.2
      exact exists_sign_of_not_misses hopcode
        (hread condition hmem.1 hopcode) (hknown condition hmem.1)
    obtain ⟨pairs, hpairs⟩ := Except.exists_mapM_eq_ok
      fun condition hcondition =>
        (hfind condition hcondition).imp fun _ ⟨_, hpair, _⟩ => hpair
    have hsigned : ∀ pair ∈ pairs, ∃ signature,
        self.sign pair = .ok signature := by
      intro pair hpair
      obtain ⟨condition, hcondition, hhash⟩ :=
        (Except.mem_iff_of_mapM_eq_ok hpairs).mp hpair
      obtain ⟨pair', signature, hhash', hsign⟩ := hfind condition hcondition
      rw [Except.ok.inj (hhash.symm.trans hhash')]
      exact ⟨signature, hsign⟩
    obtain ⟨sigs, hsigs⟩ := Except.exists_mapM_eq_ok hsigned
    obtain ⟨decoded, -, hcovers⟩ := mapM_sign_covers laws hsigs
    obtain ⟨aggregate, haggregate, -⟩ :=
      BLSSignature.aggregate_covers laws hcovers
    refine ⟨aggregate, ?_⟩
    apply Except.bind_eq_ok hpairs
    exact Except.bind_eq_ok hsigs haggregate

end Evaluated

end Keychain

/-! ## Aggregating bundles -/

/-- The signature of the bundle covers the pairs of its solutions. -/
def SpendBundle.Signed (secrets : SecretKeys E) (bundle : SpendBundle) :
    Prop :=
  ∃ pairs decoded, solutionPairs E bundle.coinSolutions = .ok pairs ∧
    pairs.mapM (AggsigPair.decode E) = .ok decoded ∧
    bundle.aggregatedSignature.Covers secrets decoded

namespace SpendBundle.Signed

variable {secrets : SecretKeys E} (laws : SigningLaws secrets)

include laws

theorem of_buildSpendBundle {keychain : Keychain secrets} {coin : Coin}
    {solution : Program} {bundle : SpendBundle}
    (h : keychain.buildSpendBundle coin solution = .ok bundle) :
    bundle.Signed secrets := by
  obtain ⟨signature, hsignature, h⟩ := Except.bind_eq_ok_iff.mp h
  obtain ⟨pairs, decoded, hpairs, hdecoded, hcovers⟩ :=
    Keychain.signatureForSolution_covers laws hsignature
  rw [← Except.ok.inj h]
  refine ⟨pairs, decoded, ?_, hdecoded, hcovers⟩
  have hall : [(⟨coin, solution⟩ : CoinSolution)].mapM (fun coinSolution =>
      hashKeyPairsForSolution E coinSolution.solution) = .ok [pairs] :=
    Except.mapM_eq_ok_iff.mpr (.cons hpairs .nil)
  apply Except.bind_eq_ok hall
  simp

theorem validates {bundle : SpendBundle} (h : bundle.Signed secrets) :
    validateSpendBundleSignature E bundle = .ok true := by
  obtain ⟨pairs, decoded, hpairs, hdecoded, hcovers⟩ := h
  rw [validateSpendBundleSignature_eq]
  exact Except.bind_eq_ok hpairs (hcovers.validate laws hdecoded)

omit laws in
/-- The pairs of the bundles, with what each signature covers. -/
theorem exists_covered {bundles : List SpendBundle}
    (h : ∀ bundle ∈ bundles, bundle.Signed secrets) :
    ∃ (pairs : List AggsigPair)
        (covered : List (List (Bytes32 × E.BlsPublicKey))),
      solutionPairs E (bundles.flatMap SpendBundle.coinSolutions) =
          .ok pairs ∧
        pairs.mapM (AggsigPair.decode E) = .ok covered.flatten ∧
        List.Forall₂ (BLSSignature.Covers secrets)
          (bundles.map SpendBundle.aggregatedSignature) covered := by
  induction bundles with
  | nil => exact ⟨[], [], rfl, rfl, .nil⟩
  | cons bundle rest ih =>
      rw [List.forall_mem_cons] at h
      obtain ⟨pairs, decoded, hpairs, hdecoded, hcovers⟩ := h.1
      obtain ⟨restPairs, covered, hrestPairs, hrest, hrestCovers⟩ := ih h.2
      refine ⟨pairs ++ restPairs, decoded :: covered, ?_, ?_,
        .cons hcovers hrestCovers⟩
      · rw [List.flatMap_cons]
        exact solutionPairs_append hpairs hrestPairs
      · rw [List.flatten_cons]
        exact Except.mapM_append_eq_ok_iff.mpr
          ⟨decoded, covered.flatten, hdecoded, hrest, rfl⟩

/-- Signed bundles aggregate to a signed bundle. -/
theorem aggregate {bundles : List SpendBundle}
    (h : ∀ bundle ∈ bundles, bundle.Signed secrets) :
    ∃ result, SpendBundle.aggregate E bundles = .ok result ∧
      result.Signed secrets := by
  obtain ⟨pairs, covered, hpairs, hdecoded, hcovers⟩ := exists_covered h
  obtain ⟨signature, haggregate, hsigned⟩ :=
    BLSSignature.aggregate_covers laws hcovers
  exact ⟨_, Except.bind_eq_ok haggregate rfl, pairs, covered.flatten, hpairs,
    hdecoded, hsigned⟩

end SpendBundle.Signed

/-- The keychain refuses a solution for the keys that it misses, and what it
signs passes the validator in any order. -/
theorem keychain_agrees_with_validator {secrets : SecretKeys E}
    (laws : SigningLaws secrets) (keychain : Keychain secrets)
    (spends : List (Coin × Program)) :
    (∀ spend ∈ spends, ∀ conditions,
      conditionsForSolution E spend.2 = .ok conditions →
      (∀ condition ∈ conditions,
        condition.opcode = ConditionOpcode.aggSig.value →
          condition.ReadsAsAggSig) →
      (keychain.signatureForSolution spend.2 =
          .error (Exn.raised .valueError) ↔
        ∃ condition ∈ conditions, keychain.Misses condition) ∧
      ((∃ signature,
          keychain.signatureForSolution spend.2 = .ok signature) ↔
        ∀ condition ∈ conditions, ¬ keychain.Misses condition)) ∧
    ((∀ spend ∈ spends, ∃ signature,
        keychain.signatureForSolution spend.2 = .ok signature) →
      ∃ bundles, spends.mapM (fun spend =>
          keychain.buildSpendBundle spend.1 spend.2) = .ok bundles ∧
        ∀ order : List SpendBundle, order.Perm bundles →
          ∃ aggregate, SpendBundle.aggregate E order = .ok aggregate ∧
            validateSpendBundleSignature E aggregate = .ok true) := by
  constructor
  · intro spend _ conditions hconditions hread
    have hok : (∃ signature,
        keychain.signatureForSolution spend.2 = .ok signature) ↔
          ∀ condition ∈ conditions, ¬ keychain.Misses condition :=
      Keychain.signatureForSolution_ok_iff hconditions hread laws
    have hraises : Except.Raises (fun e => e = Exn.raised .valueError)
        (keychain.signatureForSolution spend.2) :=
      Keychain.raises_signatureForSolution hconditions hread laws
    refine ⟨?_, hok⟩
    rw [hraises.eq_error_iff, hok]
    push Not
    rfl
  · intro hsigned
    have hbuilt : ∀ spend ∈ spends, ∃ bundle,
        keychain.buildSpendBundle spend.1 spend.2 = .ok bundle := by
      intro spend hspend
      obtain ⟨signature, hsignature⟩ := hsigned spend hspend
      exact ⟨_, Except.bind_eq_ok hsignature rfl⟩
    obtain ⟨bundles, hbundles⟩ := Except.exists_mapM_eq_ok hbuilt
    refine ⟨bundles, hbundles, ?_⟩
    intro order horder
    have hall : ∀ bundle ∈ order, bundle.Signed secrets := by
      intro bundle hbundle
      obtain ⟨spend, -, hspend⟩ := (Except.mem_iff_of_mapM_eq_ok hbundles).mp
        (horder.mem_iff.mp hbundle)
      exact .of_buildSpendBundle laws hspend
    obtain ⟨aggregate, haggregate, hresult⟩ := SpendBundle.Signed.aggregate
      laws hall
    exact ⟨aggregate, haggregate, hresult.validates laws⟩

namespace Reference

/-! Private keys that are their public keys, and sign with checksums. -/

def checksumSecrets : SecretKeys checksumEnvironment where
  PrivateKey := Bytes48
  fromBytes blob := .ok ⟨blob.1 ++ List.replicate 16 0, by simp [blob.2]⟩
  getPublicKey privateKey := privateKey
  serializePublicKey publicKey := publicKey
  signPrependPrehashed privateKey messageHash :=
    pairChecksum (messageHash, privateKey)

/-- `pairChecksum` with the types of the environment. -/
def checksumOf (pair : Bytes32 × checksumEnvironment.BlsPublicKey) :
    checksumEnvironment.PrependSignature :=
  pairChecksum pair

theorem checksumSecrets_eq_sum
    {signature : checksumEnvironment.PrependSignature}
    {pairs : List (Bytes32 × checksumEnvironment.BlsPublicKey)}
    (h : SignsPairs checksumSecrets signature pairs) :
    signature = (pairs.map checksumOf).sum := by
  induction h with
  | sign privateKey messageHash => exact (add_zero _).symm
  | @aggregate parts signature hparts haggregate ih =>
      have hsum : signature = (parts.map Prod.fst).sum := by
        cases parts with
        | nil => cases haggregate
        | cons first rest => exact (Except.ok.inj haggregate).symm
      rw [hsum, List.map_congr_left ih]
      clear hparts ih haggregate hsum
      induction parts with
      | nil => rfl
      | cons first rest ihrest =>
          rw [List.map_cons, List.sum_cons, ihrest, List.flatMap_cons,
            List.map_append, List.sum_append]

theorem checksumSecrets_laws : SigningLaws checksumSecrets where
  publicKey_read _ := rfl
  signature_read := checksumFromBytes_checksumBytes
  aggregate_ok parts hne _ := by
    cases parts with
    | nil => exact absurd rfl hne
    | cons first rest => exact ⟨_, rfl⟩
  verify signature pairs h :=
    (checksumVerify_iff signature pairs).mpr (checksumSecrets_eq_sum h)
  serialize_ne signature pairs _ h := by
    have hhead := congrArg (fun b : Bytes96 => b.1.head?) h
    cases hhead

/-- The keychain of one secret exponent. -/
def oneKeychain : Keychain checksumSecrets :=
  ((Keychain.addSecretExponents [1]).run Keychain.empty).2

def exponentKey : Bytes :=
  BigEndian.ofNat 32 1 ++ List.replicate 16 0

def signedSolution (messageHash : Bytes) : Program :=
  .ofList [puzzle [condition .aggSig [exponentKey, messageHash]], .null]

/-- A pair that is signed twice, and a solution without pairs. -/
def walletSpends : List (Coin × Program) :=
  [(coinbaseCoin [], signedSolution (SizedBytes.fill 32 2).1),
    (coinbaseCoin [], signedSolution (SizedBytes.fill 32 2).1),
    (coinbaseCoin [], .ofList [puzzle [], .null])]

end Reference

open Reference in
theorem keychain_agrees_with_validator_wallet :
    ∃ bundles, walletSpends.mapM (fun spend =>
        oneKeychain.buildSpendBundle spend.1 spend.2) = .ok bundles ∧
      ∀ order : List SpendBundle, order.Perm bundles →
        ∃ aggregate,
          SpendBundle.aggregate checksumEnvironment order = .ok aggregate ∧
          validateSpendBundleSignature checksumEnvironment aggregate =
            .ok true := by
  apply (keychain_agrees_with_validator checksumSecrets_laws oneKeychain
    walletSpends).2
  have hsigned : ∀ spend ∈ walletSpends,
      (oneKeychain.signatureForSolution spend.2).toOption.isSome = true := by
    decide +kernel
  exact fun spend hspend => Except.toOption_isSome_iff.mp (hsigned spend hspend)

open Reference in
/-- A message hash of 31 bytes raises `ValueError` too. -/
theorem keychain_refuses_short_hash :
    ¬ (SigningLaws checksumSecrets → ∀ (solution : Program) conditions,
      conditionsForSolution checksumEnvironment solution = .ok conditions →
        (oneKeychain.signatureForSolution solution =
            .error (Exn.raised .valueError) ↔
          ∃ condition ∈ conditions, oneKeychain.Misses condition)) := by
  intro h
  have hagrees := h checksumSecrets_laws
    (signedSolution (SizedBytes.fill 31 2).1)
    [⟨ConditionOpcode.aggSig.value,
      [.bytes exponentKey, .bytes (SizedBytes.fill 31 2).1]⟩] rfl
  obtain ⟨condition, hcondition, -, publicKey, rest, harguments, hmissing⟩ :=
    hagrees.mp rfl
  rw [List.mem_singleton.mp hcondition] at harguments
  have hkey : exponentKey = publicKey := by
    simpa using (List.cons.inj harguments).1
  have hnone := hmissing ⟨exponentKey, by decide⟩ hkey
  cases hnone

end LedgerSim
