import LedgerSim.Streamable
import Mathlib.Order.WellFoundedSet

/-!
# Assumptions on the hash function

A function into 32 bytes is injective on no infinite set, so the assumptions
are about the finitely many blobs that one run has seen.
-/

namespace LedgerSim

variable (E : Environment)

def CollisionFree (blobs : List Bytes) : Prop :=
  ∀ b ∈ blobs, ∀ b' ∈ blobs, E.stdHash b = E.stdHash b' → b = b'

instance (blobs : List Bytes) : Decidable (CollisionFree E blobs) :=
  inferInstanceAs (Decidable (∀ b ∈ blobs, ∀ b' ∈ blobs, _ → b = b'))

/-- No blob hashes to the 32 bytes of a block index up to `tipIndex`.  The
index zero is the genesis hash. -/
def NoIndexHash (blobs : List Bytes) (tipIndex : ℕ) : Prop :=
  ∀ b ∈ blobs, ∀ index ≤ tipIndex, E.stdHash b ≠ indexHash index

instance (blobs : List Bytes) (tipIndex : ℕ) :
    Decidable (NoIndexHash E blobs tipIndex) :=
  inferInstanceAs (Decidable (∀ b ∈ blobs, ∀ index, index ≤ tipIndex → _ ≠ _))

def ParentOf (blobs : List Bytes) (x y : Coin) : Prop :=
  x.bytes E ∈ blobs ∧ y.bytes E ∈ blobs ∧ y.parentCoinInfo = x.name E

def Acyclic (blobs : List Bytes) : Prop :=
  ∀ coin, ¬ Relation.TransGen (ParentOf E blobs) coin coin

/-- The assumptions on the blobs of a run whose tip is at `tipIndex`. -/
structure HashAssumptions (blobs : List Bytes) (tipIndex : ℕ) : Prop where
  collisionFree : CollisionFree E blobs
  noIndexHash : NoIndexHash E blobs (tipIndex + 1)
  acyclic : Acyclic E blobs

variable {E} {blobs blobs' : List Bytes}

theorem CollisionFree.mono (h : CollisionFree E blobs)
    (hsub : blobs' ⊆ blobs) : CollisionFree E blobs' :=
  fun b hb b' hb' => h b (hsub hb) b' (hsub hb')

theorem NoIndexHash.mono {tipIndex tipIndex' : ℕ}
    (h : NoIndexHash E blobs tipIndex) (hsub : blobs' ⊆ blobs)
    (htip : tipIndex' ≤ tipIndex) : NoIndexHash E blobs' tipIndex' :=
  fun b hb index hindex => h b (hsub hb) index (hindex.trans htip)

theorem ParentOf.mono (hsub : blobs' ⊆ blobs) {x y : Coin}
    (h : ParentOf E blobs' x y) : ParentOf E blobs x y :=
  ⟨hsub h.1, hsub h.2.1, h.2.2⟩

theorem Acyclic.mono (h : Acyclic E blobs) (hsub : blobs' ⊆ blobs) :
    Acyclic E blobs' :=
  fun coin hcycle => h coin
    (hcycle.lift id fun _ _ => ParentOf.mono hsub)

theorem HashAssumptions.mono {tipIndex tipIndex' : ℕ}
    (h : HashAssumptions E blobs tipIndex) (hsub : blobs' ⊆ blobs)
    (htip : tipIndex' ≤ tipIndex) : HashAssumptions E blobs' tipIndex' :=
  ⟨h.collisionFree.mono hsub,
    h.noIndexHash.mono hsub (Nat.succ_le_succ htip), h.acyclic.mono hsub⟩

theorem CollisionFree.name_inj (h : CollisionFree E blobs) (hE : E.Lawful)
    {x y : Coin} (hx : x.bytes E ∈ blobs) (hy : y.bytes E ∈ blobs)
    (hname : x.name E = y.name E) : x = y :=
  Coin.bytes_inj E hE (h _ hx _ hy hname)

/-- There are finitely many coins, so no chain of parents is infinite. -/
theorem Acyclic.wellFounded (h : Acyclic E blobs) (hE : E.Lawful) :
    WellFounded (ParentOf E blobs) := by
  have hfinite : (Set.preimage (Coin.bytes E) {b | b ∈ blobs}).Finite :=
    (List.finite_toSet blobs).preimage
      fun _ _ _ _ heq => Coin.bytes_inj E hE heq
  have hirrefl : Std.Irrefl (Relation.TransGen (ParentOf E blobs)) := ⟨h⟩
  have hstrict : IsStrictOrder Coin (Relation.TransGen (ParentOf E blobs)) :=
    { hirrefl with trans := fun _ _ _ => Relation.TransGen.trans }
  have hwf := Set.wellFoundedOn_iff.mp
    (hfinite.wellFoundedOn (r := Relation.TransGen (ParentOf E blobs)))
  exact Subrelation.wf
    (fun {_ _} hstep => ⟨.single hstep, hstep.1, hstep.2.1⟩) hwf

theorem acyclic_of_rank (rank : Coin → ℕ)
    (hrank : ∀ x y, ParentOf E blobs x y → rank y < rank x) :
    Acyclic E blobs := by
  intro coin hcycle
  have hdecreases : ∀ y, Relation.TransGen (ParentOf E blobs) coin y →
      rank y < rank coin := by
    intro y hy
    induction hy with
    | single h => exact hrank _ _ h
    | tail _ h ih => exact (hrank _ _ h).trans ih
  exact lt_irrefl _ (hdecreases coin hcycle)

/-- Blobs in an order in which no coin comes before its child have no
cycle. -/
theorem acyclic_of_pairwise
    (hself : ∀ b ∈ blobs, b.take 32 ≠ (E.stdHash b).1)
    (horder : blobs.dedup.Pairwise fun b b' => b'.take 32 ≠ (E.stdHash b).1) :
    Acyclic E blobs := by
  apply acyclic_of_rank fun coin => blobs.dedup.idxOf (coin.bytes E)
  rintro x y ⟨hx, hy, hparent⟩
  have htake : (y.bytes E).take 32 = (E.stdHash (x.bytes E)).1 := by
    rw [show E.stdHash (x.bytes E) = y.parentCoinInfo from hparent.symm]
    simp only [Coin.bytes, List.append_assoc]
    exact List.take_left' y.parentCoinInfo.2
  have hne : x.bytes E ≠ y.bytes E := by
    intro heq
    rw [heq] at htake
    exact hself _ hy htake
  have hx' := List.mem_dedup.mpr hx
  have hy' := List.mem_dedup.mpr hy
  by_contra hle
  have hlt : blobs.dedup.idxOf (x.bytes E) <
      blobs.dedup.idxOf (y.bytes E) := by
    apply lt_of_le_of_ne (not_lt.mp hle)
    exact fun heq => hne ((List.idxOf_inj hx').mp heq)
  have hpair := List.pairwise_iff_getElem.mp horder _ _
    (List.idxOf_lt_length_of_mem hx') (List.idxOf_lt_length_of_mem hy') hlt
  rw [List.getElem_idxOf, List.getElem_idxOf] at hpair
  exact hpair htake

variable (E) in
/-- The hash of a blob as a number, which the kernel compares at once. -/
def hashNumber (b : Bytes) : ℕ :=
  BigEndian.toNat (E.stdHash b).1

variable (E blobs) in
/-- Checks that imply the assumptions for a given list of blobs. -/
def HashChecks (tipIndex : ℕ) : Prop :=
  (blobs.dedup.Pairwise fun b b' => hashNumber E b ≠ hashNumber E b' ∧
    BigEndian.toNat (b'.take 32) ≠ hashNumber E b) ∧
  ∀ b ∈ blobs.dedup, BigEndian.toNat (b.take 32) ≠ hashNumber E b ∧
    ∀ index < tipIndex + 2,
      hashNumber E b ≠ BigEndian.toNat (indexHash index).1

instance (tipIndex : ℕ) : Decidable (HashChecks E blobs tipIndex) :=
  inferInstanceAs (Decidable (_ ∧ _))

theorem HashChecks.assumptions {tipIndex : ℕ}
    (h : HashChecks E blobs tipIndex) : HashAssumptions E blobs tipIndex := by
  obtain ⟨hpairs, hblobs⟩ := h
  have hnumber : ∀ {b b' : Bytes}, E.stdHash b = E.stdHash b' →
      hashNumber E b = hashNumber E b' := fun heq => by
    unfold hashNumber
    rw [heq]
  constructor
  case collisionFree =>
    intro b hb b' hb' heq
    have hdistinct : ∀ {x y : Bytes}, x ∈ blobs.dedup → y ∈ blobs.dedup →
        x ≠ y → hashNumber E x ≠ hashNumber E y := by
      have hsymm : Std.Symm fun x y : Bytes =>
          hashNumber E x ≠ hashNumber E y := ⟨fun _ _ => Ne.symm⟩
      intro x y hx hy
      exact (hpairs.imp And.left).forall hx hy
    by_contra hne
    exact hdistinct (List.mem_dedup.mpr hb) (List.mem_dedup.mpr hb') hne
      (hnumber heq)
  case noIndexHash =>
    intro b hb index hindex heq
    apply (hblobs b (List.mem_dedup.mpr hb)).2 index (by omega)
    unfold hashNumber
    rw [heq]
  case acyclic =>
    apply acyclic_of_pairwise
    · intro b hb heq
      exact (hblobs b (List.mem_dedup.mpr hb)).1 (congrArg _ heq)
    · apply hpairs.imp
      intro b b' hpair heq
      exact hpair.2 (congrArg _ heq)

/-! ## Coins by their names -/

variable (E blobs) in
/-- The coin of a name among the blobs; of an unknown name, a coin that is its
own parent. -/
def knownCoin (name : Bytes32) : Coin :=
  ((blobs.find? fun b => E.stdHash b = name).bind fun b =>
    (Coin.fromBytes E b).toOption).getD ⟨name, name, 0⟩

theorem CollisionFree.knownCoin_name (h : CollisionFree E blobs)
    (hE : E.Lawful) {coin : Coin} (hcoin : coin.bytes E ∈ blobs) :
    knownCoin E blobs (coin.name E) = coin := by
  unfold knownCoin
  cases hfind : blobs.find? (fun b => E.stdHash b = coin.name E) with
  | none =>
      have hne := List.find?_eq_none.mp hfind _ hcoin
      simp [Coin.name] at hne
  | some b =>
      have hhash : E.stdHash b = coin.name E := by
        simpa using List.find?_some hfind
      obtain rfl := h _ (List.mem_of_find?_eq_some hfind) _ hcoin hhash
      simp [Coin.fromBytes_bytes E hE, Except.toOption]

end LedgerSim
