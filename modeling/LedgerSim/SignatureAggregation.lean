import LedgerSim.EnforcedConditions
import LedgerSim.Farming
import Mathlib.Algebra.BigOperators.Group.List.Basic
import Mathlib.Data.ZMod.Basic

/-!
# Aggregating signed and unsigned bundles

`BLSSignature` knows two special cases: `aggregate` leaves out signatures of 96
zero bytes, and `validate` accepts any signature when there are no pairs.  A
bundle without `AGG_SIG` conditions passes the second whatever its signature
is, and only the first keeps its signature out of an aggregate.
-/

namespace LedgerSim

variable (E : Environment)

/-! ## The signature group -/

/-- The documented behaviour of `blspy`: signatures are a commutative group
under aggregation, and `verify` compares with the sum of the signatures of the
pairs.  If 96 zero bytes encode a signature at all, it is the neutral one. -/
structure BlsLaws [AddCommGroup E.PrependSignature]
    (pairSignature : Bytes32 × E.BlsPublicKey → E.PrependSignature) :
    Prop where
  aggregate_eq : ∀ signatures, signatures ≠ [] →
    E.aggregateSignatures signatures = .ok signatures.sum
  fromBytes_serialize : ∀ signature,
    E.signatureFromBytes (E.serializeSignature signature) = .ok signature
  fromBytes_zero : ∀ signature,
    E.signatureFromBytes zero96 = .ok signature → signature = 0
  verify_iff : ∀ signature decoded, decoded ≠ [] →
    (E.verify signature (decoded.map Prod.fst) (decoded.map Prod.snd) =
        .ok true ↔
      signature = (decoded.map pairSignature).sum)

section Group

variable [AddCommGroup E.PrependSignature]

/-- What a signature contributes to an aggregate. -/
def BLSSignature.value (self : BLSSignature) : Option E.PrependSignature :=
  if self.sig = zero96 then some 0
  else (E.signatureFromBytes self.sig).toOption

def BLSSignature.valueD (self : BLSSignature) : E.PrependSignature :=
  (self.value E).getD 0

variable {E} {pairSignature : Bytes32 × E.BlsPublicKey → E.PrependSignature}

theorem BLSSignature.valueD_of_zero {self : BLSSignature}
    (h : self.sig = zero96) : self.valueD E = 0 := by
  simp [valueD, value, h]

theorem BLSSignature.fromBytes_of_value {self : BLSSignature}
    (hne : self.sig ≠ zero96) (h : (self.value E).isSome = true) :
    E.signatureFromBytes self.sig = .ok (self.valueD E) := by
  unfold valueD
  unfold value at h ⊢
  rw [if_neg hne] at h ⊢
  exact Except.eq_ok_getD h 0

theorem BLSSignature.value_of_fromBytes (laws : BlsLaws E pairSignature)
    {self : BLSSignature} {signature : E.PrependSignature}
    (h : E.signatureFromBytes self.sig = .ok signature) :
    self.value E = some signature := by
  unfold value
  by_cases hzero : self.sig = zero96
  · rw [hzero] at h
    rw [if_pos hzero, laws.fromBytes_zero signature h]
  · rw [if_neg hzero, h]
    rfl

private theorem sum_filter_nonzero (sigs : List BLSSignature) :
    ((sigs.filter fun s => s.sig ≠ zero96).map (BLSSignature.valueD E)).sum =
      (sigs.map (BLSSignature.valueD E)).sum := by
  induction sigs with
  | nil => rfl
  | cons s rest ih =>
      rw [List.filter_cons]
      by_cases hzero : s.sig = zero96
      · simp only [hzero, ne_eq, not_true_eq_false, decide_false,
          Bool.false_eq_true, if_false, List.map_cons, List.sum_cons,
          BLSSignature.valueD_of_zero hzero, zero_add]
        exact ih
      · simp only [ne_eq, hzero, not_false_eq_true, decide_true, if_true,
          List.map_cons, List.sum_cons]
        rw [← ih]

private theorem mapM_fromBytes_eq_ok_iff {sigs : List BLSSignature}
    (hne : ∀ s ∈ sigs, s.sig ≠ zero96) {wrapped : List E.PrependSignature} :
    sigs.mapM (fun s => (E.signatureFromBytes s.sig).mapError Exn.raised) =
        .ok wrapped ↔
      (∀ s ∈ sigs, (s.value E).isSome = true) ∧
        wrapped = sigs.map (BLSSignature.valueD E) := by
  rw [Except.mapM_eq_ok_iff]
  have hread : ∀ s ∈ sigs, ∀ signature,
      (E.signatureFromBytes s.sig).mapError Exn.raised = .ok signature ↔
        (s.value E).isSome = true ∧ signature = s.valueD E := by
    intro s hs signature
    rw [Except.mapError_eq_ok_iff]
    constructor
    · intro h
      have hvalue : s.value E = some signature := by
        unfold BLSSignature.value
        rw [if_neg (hne s hs), h]
        rfl
      simp [BLSSignature.valueD, hvalue]
    · rintro ⟨hsome, rfl⟩
      exact BLSSignature.fromBytes_of_value (hne s hs) hsome
  constructor
  · intro h
    have hmembers := (List.forall₂_and_left sigs wrapped).mpr
      ⟨fun _ hs => hs, h⟩
    constructor
    · intro s hs
      obtain ⟨signature, -, hmem, hsig⟩ := hmembers.exists_of_mem_left hs
      exact ((hread s hmem signature).mp hsig).1
    · have heq : List.Forall₂ (fun signature s => signature = s.valueD E)
          wrapped sigs :=
        (hmembers.imp fun s signature ⟨hs, hsig⟩ =>
          ((hread s hs signature).mp hsig).2).flip
      rwa [← List.forall₂_map_right_iff, List.forall₂_eq_eq_eq] at heq
  · rintro ⟨hsome, rfl⟩
    rw [List.forall₂_map_right_iff, List.forall₂_same]
    exact fun s hs => (hread s hs _).mpr ⟨hsome s hs, rfl⟩

/-- Aggregation succeeds when every signature other than zero can be read, and
the result is read as the sum. -/
theorem BLSSignature.aggregate_eq_ok_iff (laws : BlsLaws E pairSignature)
    {sigs : List BLSSignature} {aggregate : BLSSignature} :
    BLSSignature.aggregate E sigs = .ok aggregate ↔
      (∀ s ∈ sigs, (s.value E).isSome = true) ∧
        aggregate = if ∀ s ∈ sigs, s.sig = zero96 then ⟨zero96⟩
          else ⟨E.serializeSignature (sigs.map (valueD E)).sum⟩ := by
  have hsome : (∀ s ∈ sigs, (s.value E).isSome = true) ↔
      ∀ s ∈ sigs.filter fun s => s.sig ≠ zero96,
        (s.value E).isSome = true := by
    constructor
    · intro h s hs
      exact h s (List.mem_of_mem_filter hs)
    · intro h s hs
      by_cases hzero : s.sig = zero96
      · simp [value, hzero]
      · exact h s (List.mem_filter.mpr ⟨hs, by simpa using hzero⟩)
  have hne : ∀ s ∈ sigs.filter fun s => s.sig ≠ zero96, s.sig ≠ zero96 := by
    intro s hs
    simpa using List.of_mem_filter hs
  rw [hsome, ← sum_filter_nonzero]
  have hall : (∀ s ∈ sigs, s.sig = zero96) ↔
      sigs.filter (fun s => s.sig ≠ zero96) = [] := by
    simp [List.filter_eq_nil_iff]
  simp only [hall]
  unfold BLSSignature.aggregate
  generalize sigs.filter (fun s => s.sig ≠ zero96) = nonzero at hne ⊢
  cases nonzero with
  | nil =>
      simp only [if_true]
      constructor
      · intro h
        exact ⟨by simp, (Except.ok.inj h).symm⟩
      · rintro ⟨-, rfl⟩
        rfl
  | cons s rest =>
      simp only [reduceCtorEq, if_false]
      constructor
      · intro h
        obtain ⟨wrapped, hwrapped, h⟩ := Except.bind_eq_ok_iff.mp h
        obtain ⟨sum, hsum, h⟩ := Except.bind_eq_ok_iff.mp h
        obtain ⟨hvalues, rfl⟩ := (mapM_fromBytes_eq_ok_iff hne).mp hwrapped
        rw [Except.mapError_eq_ok_iff, laws.aggregate_eq _ (by simp)] at hsum
        obtain rfl := Except.ok.inj hsum
        exact ⟨hvalues, (Except.ok.inj h).symm⟩
      · rintro ⟨hvalues, rfl⟩
        apply Except.bind_eq_ok
        · exact (mapM_fromBytes_eq_ok_iff hne).mpr ⟨hvalues, rfl⟩
        apply Except.bind_eq_ok
        · exact Except.mapError_eq_ok_iff.mpr
            (laws.aggregate_eq _ (by simp))
        rfl

theorem BLSSignature.aggregate_read (laws : BlsLaws E pairSignature)
    {sigs : List BLSSignature} {aggregate : BLSSignature}
    {signature : E.PrependSignature}
    (h : BLSSignature.aggregate E sigs = .ok aggregate)
    (hread : E.signatureFromBytes aggregate.sig = .ok signature) :
    signature = (sigs.map (valueD E)).sum := by
  obtain ⟨-, rfl⟩ := (aggregate_eq_ok_iff laws).mp h
  split_ifs at hread with hzero
  · rw [laws.fromBytes_zero signature hread]
    have hvalues : sigs.map (valueD E) = sigs.map fun _ => 0 :=
      List.map_congr_left fun s hs => valueD_of_zero (hzero s hs)
    rw [hvalues]
    simp
  · rw [laws.fromBytes_serialize] at hread
    exact (Except.ok.inj hread).symm

end Group

/-! ## The pairs of a bundle -/

def solutionPairs (coinSolutions : List CoinSolution) :
    Except Exn (List AggsigPair) := do
  let pairs ← coinSolutions.mapM fun coinSolution =>
    hashKeyPairsForSolution E coinSolution.solution
  .ok pairs.flatten

/-- The pairs that the conditions of a bundle ask signatures for. -/
def SpendBundle.pairs (bundle : SpendBundle) : List AggsigPair :=
  (solutionPairs E bundle.coinSolutions).toOption.getD []

def SpendBundle.unsigned (bundle : SpendBundle) : Bool :=
  (bundle.pairs E).isEmpty

variable {E}

theorem validateSpendBundleSignature_eq (bundle : SpendBundle) :
    validateSpendBundleSignature E bundle = (do
      let pairs ← solutionPairs E bundle.coinSolutions
      bundle.aggregatedSignature.validate E pairs) := by
  unfold validateSpendBundleSignature solutionPairs
  cases bundle.coinSolutions.mapM fun coinSolution =>
    hashKeyPairsForSolution E coinSolution.solution <;> rfl

theorem solutionPairs_of_validate {bundle : SpendBundle} {valid : Bool}
    (h : validateSpendBundleSignature E bundle = .ok valid) :
    solutionPairs E bundle.coinSolutions = .ok (bundle.pairs E) ∧
      bundle.aggregatedSignature.validate E (bundle.pairs E) = .ok valid := by
  rw [validateSpendBundleSignature_eq] at h
  obtain ⟨pairs, hpairs, h⟩ := Except.bind_eq_ok_iff.mp h
  unfold SpendBundle.pairs
  rw [hpairs]
  exact ⟨rfl, h⟩

theorem solutionPairs_append {left right : List CoinSolution}
    {pairs pairs' : List AggsigPair}
    (hleft : solutionPairs E left = .ok pairs)
    (hright : solutionPairs E right = .ok pairs') :
    solutionPairs E (left ++ right) = .ok (pairs ++ pairs') := by
  obtain ⟨parts, hparts, h⟩ := Except.bind_eq_ok_iff.mp hleft
  obtain rfl := Except.ok.inj h
  obtain ⟨parts', hparts', h⟩ := Except.bind_eq_ok_iff.mp hright
  obtain rfl := Except.ok.inj h
  have hall := Except.mapM_append_eq_ok_iff.mpr
    ⟨parts, parts', hparts, hparts', rfl⟩
  apply Except.bind_eq_ok hall
  rw [List.flatten_append]

theorem solutionPairs_flatMap {bundles : List SpendBundle}
    (h : ∀ bundle ∈ bundles,
      solutionPairs E bundle.coinSolutions = .ok (bundle.pairs E)) :
    solutionPairs E (bundles.flatMap SpendBundle.coinSolutions) =
      .ok (bundles.flatMap (SpendBundle.pairs E)) := by
  induction bundles with
  | nil => rfl
  | cons bundle rest ih =>
      rw [List.forall_mem_cons] at h
      rw [List.flatMap_cons, List.flatMap_cons]
      exact solutionPairs_append h.1 (ih h.2)

theorem unsigned_iff_pairs_nil {bundle : SpendBundle} :
    bundle.unsigned E = true ↔ bundle.pairs E = [] := by
  simp [SpendBundle.unsigned]

theorem all_unsigned_iff {bundles : List SpendBundle} :
    (∀ bundle ∈ bundles, bundle.unsigned E = true) ↔
      bundles.flatMap (SpendBundle.pairs E) = [] := by
  simp [SpendBundle.unsigned, List.flatMap_eq_nil_iff]

theorem solutionPairs_aggregate {bundles : List SpendBundle}
    (hvalid : ∀ bundle ∈ bundles,
      validateSpendBundleSignature E bundle = .ok true) :
    solutionPairs E (bundles.flatMap SpendBundle.coinSolutions) =
      .ok (bundles.flatMap (SpendBundle.pairs E)) :=
  solutionPairs_flatMap fun bundle hbundle =>
    (solutionPairs_of_validate (hvalid bundle hbundle)).1

theorem decoded_ne_nil {pairs : List AggsigPair}
    {decoded : List (Bytes32 × E.BlsPublicKey)} (hpairs : pairs ≠ [])
    (h : pairs.mapM (AggsigPair.decode E) = .ok decoded) : decoded ≠ [] := by
  rintro rfl
  have hlength := (Except.mapM_eq_ok_iff.mp h).length_eq
  exact hpairs (List.length_eq_zero_iff.mp hlength)

/-! ## Aggregating bundles -/

section Group

variable [AddCommGroup E.PrependSignature]
  {pairSignature : Bytes32 × E.BlsPublicKey → E.PrependSignature}

variable (E) in
/-- What the signatures of the unsigned bundles add to an aggregate. -/
def strayValue (bundles : List SpendBundle) : E.PrependSignature :=
  ((bundles.filter (SpendBundle.unsigned E)).map
    fun bundle => bundle.aggregatedSignature.valueD E).sum

theorem value_of_validate (laws : BlsLaws E pairSignature)
    {bundle : SpendBundle} (hpairs : bundle.pairs E ≠ [])
    (h : validateSpendBundleSignature E bundle = .ok true) :
    ∃ decoded, (bundle.pairs E).mapM (AggsigPair.decode E) = .ok decoded ∧
      E.signatureFromBytes bundle.aggregatedSignature.sig =
        .ok (decoded.map pairSignature).sum ∧
      bundle.aggregatedSignature.value E =
        some (decoded.map pairSignature).sum := by
  obtain ⟨-, hvalid⟩ := solutionPairs_of_validate h
  obtain ⟨decoded, signature, hdecoded, hsignature, hverify⟩ :=
    (BLSSignature.validate_eq_true_iff E hpairs).mp hvalid
  have hne := decoded_ne_nil hpairs hdecoded
  obtain rfl := (laws.verify_iff signature decoded hne).mp hverify
  exact ⟨decoded, hdecoded, hsignature,
    BLSSignature.value_of_fromBytes laws hsignature⟩

/-- The values of valid bundles add up to the signatures of all their pairs
and whatever the unsigned bundles carry. -/
theorem sum_values (laws : BlsLaws E pairSignature)
    {bundles : List SpendBundle}
    (hvalid : ∀ bundle ∈ bundles,
      validateSpendBundleSignature E bundle = .ok true) :
    ∃ decoded, (bundles.flatMap (SpendBundle.pairs E)).mapM
        (AggsigPair.decode E) = .ok decoded ∧
      (bundles.map fun bundle => bundle.aggregatedSignature.valueD E).sum =
        (decoded.map pairSignature).sum + strayValue E bundles := by
  induction bundles with
  | nil => exact ⟨[], rfl, by simp [strayValue]⟩
  | cons bundle rest ih =>
      rw [List.forall_mem_cons] at hvalid
      obtain ⟨decoded, hdecoded, hsum⟩ := ih hvalid.2
      by_cases hpairs : bundle.pairs E = []
      · refine ⟨decoded, ?_, ?_⟩
        · rw [List.flatMap_cons, hpairs]
          exact hdecoded
        · have hunsigned : bundle.unsigned E = true :=
            unsigned_iff_pairs_nil.mpr hpairs
          unfold strayValue at hsum ⊢
          rw [List.map_cons, List.sum_cons, hsum,
            List.filter_cons_of_pos hunsigned, List.map_cons, List.sum_cons]
          exact add_left_comm _ _ _
      · obtain ⟨first, hfirst, -, hvalue⟩ :=
          value_of_validate laws hpairs hvalid.1
        refine ⟨first ++ decoded, ?_, ?_⟩
        · rw [List.flatMap_cons]
          exact Except.mapM_append_eq_ok_iff.mpr
            ⟨first, decoded, hfirst, hdecoded, rfl⟩
        · have hsigned : ¬ bundle.unsigned E = true :=
            fun h => hpairs (unsigned_iff_pairs_nil.mp h)
          have hvalueD : bundle.aggregatedSignature.valueD E =
              (first.map pairSignature).sum := by
            simp [BLSSignature.valueD, hvalue]
          unfold strayValue at hsum ⊢
          rw [List.map_cons, List.sum_cons, hsum, hvalueD,
            List.filter_cons_of_neg hsigned, List.map_append,
            List.sum_append, add_assoc]

variable (E) in
/-- The bundles without `AGG_SIG` conditions carry readable signatures or
zeros, and these cancel out as soon as another bundle has a condition. -/
structure UnsignedCancel (bundles : List SpendBundle) : Prop where
  encoded : ∀ bundle ∈ bundles, bundle.unsigned E = true →
    (bundle.aggregatedSignature.value E).isSome = true
  cancel : (∀ bundle ∈ bundles, bundle.unsigned E = true) ∨
    strayValue E bundles = 0

section Valid

variable {bundles : List SpendBundle}

/-- The signature of a valid bundle with conditions can be read, so only the
unsigned bundles matter. -/
theorem values_isSome_iff (laws : BlsLaws E pairSignature)
    (hvalid : ∀ bundle ∈ bundles,
      validateSpendBundleSignature E bundle = .ok true) :
    (∀ s ∈ bundles.map SpendBundle.aggregatedSignature,
        (s.value E).isSome = true) ↔
      ∀ bundle ∈ bundles, bundle.unsigned E = true →
        (bundle.aggregatedSignature.value E).isSome = true := by
  rw [List.forall_mem_map]
  constructor
  · intro h bundle hbundle _
    exact h bundle hbundle
  · intro h bundle hbundle
    by_cases hpairs : bundle.pairs E = []
    · exact h bundle hbundle (unsigned_iff_pairs_nil.mpr hpairs)
    · obtain ⟨_, -, -, hvalue⟩ :=
        value_of_validate laws hpairs (hvalid bundle hbundle)
      simp [hvalue]

/-- The aggregate can be read as soon as one bundle has a condition. -/
theorem exists_read_aggregate (laws : BlsLaws E pairSignature)
    (hvalid : ∀ bundle ∈ bundles,
      validateSpendBundleSignature E bundle = .ok true)
    {aggregate : BLSSignature}
    (haggregate : BLSSignature.aggregate E
      (bundles.map SpendBundle.aggregatedSignature) = .ok aggregate)
    (hpairs : bundles.flatMap (SpendBundle.pairs E) ≠ []) :
    ∃ signature, E.signatureFromBytes aggregate.sig = .ok signature := by
  obtain ⟨-, rfl⟩ := (BLSSignature.aggregate_eq_ok_iff laws).mp haggregate
  split_ifs with hzero
  · have hsigned : ¬ ∀ bundle ∈ bundles, bundle.unsigned E = true :=
      fun h => hpairs (all_unsigned_iff.mp h)
    push Not at hsigned
    obtain ⟨bundle, hbundle, hbundlePairs⟩ := hsigned
    rw [ne_eq, unsigned_iff_pairs_nil] at hbundlePairs
    obtain ⟨_, -, hread, -⟩ :=
      value_of_validate laws hbundlePairs (hvalid bundle hbundle)
    rw [hzero _ (List.mem_map_of_mem hbundle)] at hread
    exact ⟨_, hread⟩
  · exact ⟨_, laws.fromBytes_serialize _⟩

theorem UnsignedCancel.of_aggregate (laws : BlsLaws E pairSignature)
    (hvalid : ∀ bundle ∈ bundles,
      validateSpendBundleSignature E bundle = .ok true)
    {aggregate : SpendBundle}
    (haggregate : SpendBundle.aggregate E bundles = .ok aggregate)
    (hok : validateSpendBundleSignature E aggregate = .ok true) :
    UnsignedCancel E bundles := by
  obtain ⟨signature, hsignature, h⟩ := Except.bind_eq_ok_iff.mp haggregate
  obtain rfl := Except.ok.inj h
  have hsome := ((BLSSignature.aggregate_eq_ok_iff laws).mp hsignature).1
  refine ⟨(values_isSome_iff laws hvalid).mp hsome, ?_⟩
  by_cases hempty : bundles.flatMap (SpendBundle.pairs E) = []
  · exact .inl (all_unsigned_iff.mpr hempty)
  · right
    have hpairs : SpendBundle.pairs E
        ⟨bundles.flatMap SpendBundle.coinSolutions, signature⟩ =
          bundles.flatMap (SpendBundle.pairs E) := by
      simp only [SpendBundle.pairs, solutionPairs_aggregate hvalid,
        Except.toOption, Option.getD_some]
    obtain ⟨decoded, hdecoded, hread, -⟩ :=
      value_of_validate laws (by rwa [hpairs]) hok
    obtain ⟨decoded', hdecoded', hsum⟩ := sum_values laws hvalid
    rw [hpairs] at hdecoded
    obtain rfl : decoded = decoded' :=
      Except.ok.inj (hdecoded.symm.trans hdecoded')
    have htotal := BLSSignature.aggregate_read laws hsignature hread
    rw [List.map_map] at htotal
    change _ = (bundles.map
      fun bundle => bundle.aggregatedSignature.valueD E).sum at htotal
    rw [hsum] at htotal
    exact left_eq_add.mp htotal

theorem UnsignedCancel.exists_aggregate (h : UnsignedCancel E bundles)
    (laws : BlsLaws E pairSignature)
    (hvalid : ∀ bundle ∈ bundles,
      validateSpendBundleSignature E bundle = .ok true) :
    ∃ aggregate, SpendBundle.aggregate E bundles = .ok aggregate ∧
      validateSpendBundleSignature E aggregate = .ok true := by
  obtain ⟨aggregate, haggregate⟩ : ∃ aggregate, BLSSignature.aggregate E
      (bundles.map SpendBundle.aggregatedSignature) = .ok aggregate :=
    ⟨_, (BLSSignature.aggregate_eq_ok_iff laws).mpr
      ⟨(values_isSome_iff laws hvalid).mpr h.encoded, rfl⟩⟩
  refine ⟨⟨bundles.flatMap SpendBundle.coinSolutions, aggregate⟩,
    Except.bind_eq_ok haggregate rfl, ?_⟩
  rw [validateSpendBundleSignature_eq]
  apply Except.bind_eq_ok (solutionPairs_aggregate hvalid)
  by_cases hempty : bundles.flatMap (SpendBundle.pairs E) = []
  · rw [hempty]
    exact BLSSignature.validate_nil E aggregate
  · have hstray : strayValue E bundles = 0 :=
      h.cancel.resolve_left fun h => hempty (all_unsigned_iff.mp h)
    obtain ⟨decoded, hdecoded, hsum⟩ := sum_values laws hvalid
    rw [hstray, add_zero] at hsum
    obtain ⟨signature, hread⟩ :=
      exists_read_aggregate laws hvalid haggregate hempty
    refine (BLSSignature.validate_eq_true_iff E hempty).mpr
      ⟨decoded, signature, hdecoded, hread, ?_⟩
    rw [laws.verify_iff signature decoded (decoded_ne_nil hempty hdecoded),
      ← hsum, BLSSignature.aggregate_read laws haggregate hread, List.map_map]
    rfl

end Valid

/-- Bundles that are valid on their own aggregate to a valid bundle exactly
when the signatures of the unsigned ones do not get in the way. -/
theorem aggregate_validates_iff (laws : BlsLaws E pairSignature)
    (bundles : List SpendBundle)
    (hvalid : ∀ bundle ∈ bundles,
      validateSpendBundleSignature E bundle = .ok true) :
    (∃ aggregate, SpendBundle.aggregate E bundles = .ok aggregate ∧
        validateSpendBundleSignature E aggregate = .ok true) ↔
      UnsignedCancel E bundles := by
  constructor
  · rintro ⟨aggregate, haggregate, hok⟩
    exact .of_aggregate laws hvalid haggregate hok
  · intro hcancel
    exact hcancel.exists_aggregate laws hvalid

end Group

namespace Reference

/-! A signature group of checksums: a signature takes 96 bytes, of which only
the last one varies. -/

def checksumBytes (s : ZMod 256) : Bytes96 :=
  ⟨0xc0 :: List.replicate 94 0 ++ [UInt8.ofNat s.val], by simp⟩

def checksumFromBytes (b : Bytes96) : Except PyException (ZMod 256) :=
  if b.1.take 95 = 0xc0 :: List.replicate 94 0 then
    .ok ((b.1.drop 95).headD 0).toNat
  else .error .valueError

def pairChecksum (pair : Bytes32 × Bytes48) : ZMod 256 :=
  (pair.1.1.headD 0).toNat + (pair.2.1.headD 0).toNat

def checksumVerify (signature : ZMod 256) (messageHashes : List Bytes32)
    (publicKeys : List Bytes48) : Except PyException Bool :=
  .ok (decide (signature =
    ((messageHashes.zip publicKeys).map pairChecksum).sum))

theorem checksumFromBytes_checksumBytes (s : ZMod 256) :
    checksumFromBytes (checksumBytes s) = .ok s := by
  have htake : (checksumBytes s).1.take 95 = 0xc0 :: List.replicate 94 0 :=
    List.take_left' (by simp)
  have hdrop : (checksumBytes s).1.drop 95 = [UInt8.ofNat s.val] :=
    List.drop_left' (by simp)
  unfold checksumFromBytes
  rw [if_pos htake, hdrop, List.headD_cons, UInt8.toNat_ofNat',
    Nat.mod_eq_of_lt (ZMod.val_lt s), ZMod.natCast_zmod_val]

theorem checksumVerify_iff (signature : ZMod 256)
    (decoded : List (Bytes32 × Bytes48)) :
    checksumVerify signature (decoded.map Prod.fst) (decoded.map Prod.snd) =
        .ok true ↔
      signature = (decoded.map pairChecksum).sum := by
  unfold checksumVerify
  rw [Except.ok.injEq, decide_eq_true_eq, ← List.unzip_fst, ← List.unzip_snd,
    List.zip_unzip]

def checksumEnvironment : Environment :=
  { environment with
    PrependSignature := ZMod 256
    signatureFromBytes := checksumFromBytes
    serializeSignature := checksumBytes
    aggregateSignatures := fun
      | [] => .error .valueError
      | signatures => .ok (List.sum (α := ZMod 256) signatures)
    verify := checksumVerify
    poolSign := fun _ => 9 }

instance : AddCommGroup checksumEnvironment.PrependSignature :=
  inferInstanceAs (AddCommGroup (ZMod 256))

theorem checksumEnvironment_laws :
    BlsLaws checksumEnvironment pairChecksum where
  aggregate_eq signatures hne := by
    cases signatures with
    | nil => exact absurd rfl hne
    | cons s rest => rfl
  fromBytes_serialize := checksumFromBytes_checksumBytes
  fromBytes_zero signature h := by
    have hzero : checksumFromBytes zero96 = .error .valueError := by
      decide +kernel
    exact absurd (hzero.symm.trans h) (by simp)
  verify_iff signature decoded _ := checksumVerify_iff signature decoded

def aggSig (publicKey : Bytes48) (messageHash : Bytes32) : SExp :=
  condition .aggSig [publicKey.1, messageHash.1]

def bundleOf (conditions : List SExp) (sig : Bytes96) : SpendBundle :=
  ⟨[⟨⟨indexHash 1, SizedBytes.fill 32 3, 5⟩,
    .ofList [puzzle conditions, .null]⟩], ⟨sig⟩⟩

/-- A bundle that is signed, one that needs no signature, and two that need
none and carry signatures that cancel. -/
def cancellingBundles : List SpendBundle :=
  [bundleOf [aggSig (SizedBytes.fill 48 1) (SizedBytes.fill 32 2)]
      (checksumBytes 3),
    bundleOf [] zero96, bundleOf [] (checksumBytes 5),
    bundleOf [] (checksumBytes 251)]

/-- An unsigned bundle with a signature of its own, before a signed one. -/
def strayBundles : List SpendBundle :=
  [bundleOf [] (checksumBytes 5),
    bundleOf [aggSig (SizedBytes.fill 48 1) (SizedBytes.fill 32 2)]
      (checksumBytes 3)]

end Reference

open Reference in
theorem aggregate_validates_iff_cancelling :
    (∃ aggregate,
        SpendBundle.aggregate checksumEnvironment cancellingBundles =
          .ok aggregate ∧
        validateSpendBundleSignature checksumEnvironment aggregate =
          .ok true) ↔
      UnsignedCancel checksumEnvironment cancellingBundles :=
  aggregate_validates_iff checksumEnvironment_laws cancellingBundles (by
    have hvalid : ∀ bundle ∈ cancellingBundles,
        (validateSpendBundleSignature checksumEnvironment bundle).toOption =
          some true := by decide +kernel
    exact fun bundle hbundle =>
      Except.toOption_eq_some_iff.mp (hvalid bundle hbundle))

open Reference in
/-- Both bundles are valid, and their aggregate is not. -/
theorem aggregate_does_not_validate :
    ¬ (BlsLaws checksumEnvironment pairChecksum →
      (∀ bundle ∈ strayBundles,
        validateSpendBundleSignature checksumEnvironment bundle = .ok true) →
      ∃ aggregate,
        SpendBundle.aggregate checksumEnvironment strayBundles =
          .ok aggregate ∧
        validateSpendBundleSignature checksumEnvironment aggregate =
          .ok true) := by
  intro h
  have hvalid : ∀ bundle ∈ strayBundles,
      (validateSpendBundleSignature checksumEnvironment bundle).toOption =
        some true := by decide +kernel
  obtain ⟨aggregate, haggregate, hok⟩ := h checksumEnvironment_laws
    fun bundle hbundle => Except.toOption_eq_some_iff.mp (hvalid bundle hbundle)
  have hinvalid : (do
      let aggregate ← SpendBundle.aggregate checksumEnvironment strayBundles
      validateSpendBundleSignature checksumEnvironment aggregate).toOption =
        some false := by decide +kernel
  rw [Except.toOption_eq_some_iff, Except.bind_eq_ok haggregate hok] at hinvalid
  simp at hinvalid

end LedgerSim
