import LedgerSim.Hashable

/-!
# The libraries under the ledger

`hashlib`, `clvm`, `clvm_tools` and `blspy` are not part of the repository.
The functions it calls from them are the fields of an `Environment`; the model
is parametric in it.  `Environment.Lawful` collects what the documentation of
those packages promises and the results below rely on.
-/

namespace LedgerSim

/-- What a package has under the name of one of its exceptions. -/
inductive ExceptionName where
  | exception
  | module
deriving DecidableEq

structure Environment where
  /-- `hashlib.sha256(b).digest()` -/
  sha256 : Bytes → Bytes32
  /-- `clvm.casts.int_from_bytes` -/
  intFromBytes : Bytes → ℤ
  /-- `clvm.casts.int_to_bytes` -/
  intToBytes : ℤ → Bytes
  /-- What `from clvm import EvalError` imports. -/
  evalErrorName : ExceptionName
  /-- The depth of the trees that `tree_hash` can go down before Python's
  recursion limit ends it. -/
  recursionLimit : Option ℕ
  /-- `clvm.run_program`, without the cost -/
  runProgram : SExp → SExp → Except PyException SExp
  asPython : SExp → PyVal
  sexpToStream : SExp → Except PyException Bytes
  /-- The s-expression at the start of a stream, and what is left of it. -/
  sexpFromStream : Bytes → Except PyException (SExp × Bytes)
  /-- `clvm_tools.binutils.assemble("#q")` -/
  quoteKeyword : SExp
  /-- `blspy.Util.hash256` -/
  hash256 : Bytes → Bytes32
  BlsPublicKey : Type
  PrependSignature : Type
  publicKeyFromBytes : Bytes48 → Except PyException BlsPublicKey
  signatureFromBytes : Bytes96 → Except PyException PrependSignature
  serializeSignature : PrependSignature → Bytes96
  aggregateSignatures :
    List PrependSignature → Except PyException PrependSignature
  verify :
    PrependSignature → List Bytes32 → List BlsPublicKey →
      Except PyException Bool
  /-- `POOL_PUBLIC_KEYS[0]` -/
  poolPublicKey : Bytes48
  /-- `sign_prepend_prehashed` under the private key of `poolPublicKey`. -/
  poolSign : Bytes32 → PrependSignature

namespace Environment

/-- The documented behaviour of the packages. -/
structure Lawful (E : Environment) : Prop where
  intFromBytes_eq : ∀ b, E.intFromBytes b = BigEndian.toInt b
  intFromBytes_intToBytes : ∀ v, E.intFromBytes (E.intToBytes v) = v
  /-- `(q X)` evaluates to `X`. -/
  run_quote : ∀ x args,
    E.runProgram (.ofList [E.quoteKeyword, x]) args = .ok x
  /-- A list of two items is read as a list, and an atom as its bytes. -/
  asPython_two : ∀ blob x,
    E.asPython (.ofList [.atom blob, x]) = .list [.bytes blob, E.asPython x]
  hash256_eq : ∀ b, E.hash256 b = E.sha256 b
  /-- `(q ())` has a serialization. -/
  sexpToStream_quote_nil :
    ∃ b, E.sexpToStream (.ofList [E.quoteKeyword, .ofList []]) = .ok b

variable (E : Environment)

def stdHash (b : Bytes) : Bytes32 :=
  E.sha256 b

end Environment

/-! ## S-expression accessors -/

namespace SExp

def first : SExp → Except Exn SExp
  | .atom _ => .error PyException.evalError
  | .pair x _ => .ok x

def rest : SExp → Except Exn SExp
  | .atom _ => .error PyException.evalError
  | .pair _ y => .ok y

/-- Traverse `as_iter`: the generator yields the items of a list one by one
and raises once it meets a tail that is neither a pair nor null, so the items
before that are processed first. -/
def forIter {α : Type} (f : SExp → Except Exn α) : SExp → Except Exn (List α)
  | .atom [] => .ok []
  | .atom (_ :: _) => .error PyException.evalError
  | .pair x xs => do
      let y ← f x
      let ys ← forIter f xs
      .ok (y :: ys)

theorem forIter_ofList {α : Type} (f : SExp → Except Exn α)
    (items : List SExp) : forIter f (ofList items) = items.mapM f := by
  induction items with
  | nil => rfl
  | cons x xs ih =>
      rw [List.mapM_cons, ← ih]
      rfl

end SExp

namespace Environment

variable (E : Environment)

def run (program args : Program) : Except Exn Program :=
  (E.runProgram program args).mapError Exn.raised

def treeHash : SExp → Bytes32
  | .pair left right =>
      E.sha256 ([2] ++ (treeHash left).1 ++ (treeHash right).1)
  | .atom blob => E.sha256 ([1] ++ blob)

/-! ## Exceptions -/

/-- The tree is deeper than Python's stack. -/
def TooDeep (tree : SExp) : Prop :=
  ∃ limit ∈ E.recursionLimit, limit < tree.depth

/-- `ProgramHash(Program(tree))` -/
def programHash (tree : SExp) : Except Exn Bytes32 :=
  match E.recursionLimit with
  | none => .ok (E.treeHash tree)
  | some limit =>
      if limit < tree.depth then .error PyException.recursionError
      else .ok (E.treeHash tree)

/-- `try: ... except EvalError: raise handler`.  To compare an exception of any
kind with a module is a `TypeError`. -/
def exceptEvalError {α : Type} (handler : Exn) :
    Except Exn α → Except Exn α
  | .ok a => .ok a
  | .error e =>
      match E.evalErrorName, e with
      | .module, _ => .error PyException.typeError
      | .exception, .raised .evalError => .error handler
      | .exception, e => .error e

variable {E} {tree : SExp} {hash : Bytes32}

theorem programHash_eq_ok_iff :
    E.programHash tree = .ok hash ↔
      ¬ E.TooDeep tree ∧ hash = E.treeHash tree := by
  unfold programHash TooDeep
  cases E.recursionLimit with
  | none => simp [eq_comm]
  | some limit =>
      by_cases hdeep : limit < tree.depth
      · simp [hdeep]
      · simp [hdeep, eq_comm]

theorem programHash_eq_error_iff {e : Exn} :
    E.programHash tree = .error e ↔
      E.TooDeep tree ∧ e = .raised .recursionError := by
  unfold programHash TooDeep
  cases E.recursionLimit with
  | none => simp
  | some limit =>
      by_cases hdeep : limit < tree.depth
      · simp [hdeep, eq_comm]
      · simp [hdeep]

theorem not_tooDeep_of_unlimited (h : E.recursionLimit = none) (tree : SExp) :
    ¬ E.TooDeep tree := by
  simp [TooDeep, h]

theorem exceptEvalError_eq_ok_iff {α : Type} {handler : Exn}
    {x : Except Exn α} {a : α} :
    E.exceptEvalError handler x = .ok a ↔ x = .ok a := by
  unfold exceptEvalError
  split
  next => rfl
  next =>
    split
    all_goals simp

end Environment

end LedgerSim
