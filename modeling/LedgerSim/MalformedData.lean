import LedgerSim.BlockSpends
import LedgerSim.RefusedBlock

/-!
# Data that validation cannot read

A solution program may return anything.  Some shapes are refused with an error
of their own; the others meet an assertion, an index or a constructor, and the
exception reaches the catch-all handler of `accept_new_block`.  Each step is
given here with the data that it cannot read.
-/

namespace LedgerSim

open Except

variable (E : Environment)

/-- The computation raises something that the catch-all handler reports. -/
abbrev Unclassified {α : Type} (x : Except Exn α) : Prop :=
  FailsWith (fun e => e.code = .unknown) x

theorem unclassified_bind_iff {α β : Type} {x : Except Exn α}
    {f : α → Except Exn β} :
    Unclassified (x >>= f) ↔
      Unclassified x ∨ ∃ a, x = .ok a ∧ Unclassified (f a) :=
  failsWith_bind_iff

theorem unclassified_of_raises {α : Type} {x : Except Exn α}
    (h : RaisesCodes [.unknown] x) : Unclassified x ↔ ¬ ∃ a, x = .ok a := by
  have hraises : Raises (fun e => e.code = .unknown) x :=
    h.mono fun e he => by simpa using he
  rw [Unclassified, hraises.failsWith_iff, not_exists]

/-- What is documented of the evaluator: it raises nothing but `EvalError`. -/
def Environment.RaisesEvalError (E : Environment) : Prop :=
  ∀ program args e, E.runProgram program args = .error e → e = .evalError

/-! ## Iterating over s-expressions -/

/-- The items that `as_iter` yields. -/
def SExp.items : SExp → List SExp
  | .atom _ => []
  | .pair x xs => x :: xs.items

/-- The atom that ends the spine; a proper list ends in null. -/
def SExp.listEnd : SExp → Bytes
  | .atom blob => blob
  | .pair _ xs => xs.listEnd

theorem SExp.forIter_eq {α : Type} (f : SExp → Except Exn α) (sexp : SExp) :
    sexp.forIter f = (sexp.items.mapM f >>= fun l =>
      if sexp.listEnd = [] then .ok l else .error PyException.evalError) := by
  induction sexp with
  | atom blob =>
      cases blob with
      | nil => rfl
      | cons b rest => rfl
  | pair x xs _ ih =>
      change (f x >>= fun y => xs.forIter f >>= fun ys => .ok (y :: ys)) =
        ((x :: xs.items).mapM f >>= fun l =>
          if xs.listEnd = [] then .ok l else .error PyException.evalError)
      rw [List.mapM_cons, ih]
      cases f x with
      | error e => rfl
      | ok y =>
          cases xs.items.mapM f with
          | error e => rfl
          | ok ys =>
              by_cases hend : xs.listEnd = []
              · simp [bind, Except.bind, pure, Except.pure, hend]
              · simp [bind, Except.bind, pure, Except.pure, hend]

/-- A traversal fails at the first item that is refused, or after the last one
when the list has no proper end. -/
theorem SExp.failsWith_forIter_iff {α : Type} {P : Exn → Prop}
    {f : SExp → Except Exn α} {sexp : SExp} :
    FailsWith P (sexp.forIter f) ↔
      (∃ before item after, sexp.items = before ++ item :: after ∧
        (∃ l, before.mapM f = .ok l) ∧ FailsWith P (f item)) ∨
      (∃ l, sexp.items.mapM f = .ok l) ∧ sexp.listEnd ≠ [] ∧
        P PyException.evalError := by
  rw [SExp.forIter_eq, failsWith_bind_iff, failsWith_mapM_iff]
  refine or_congr_right ?_
  by_cases hend : sexp.listEnd = []
  · simp [hend]
  · simp [hend]

/-! ## Conditions -/

/-- An item of a puzzle's output that `parse_sexp_to_condition` cannot read:
an atom, a pair that Python sees as empty, or an opcode before a tail that is
no list. -/
def MalformedItem (item : SExp) : Prop :=
  item.listp = false ∨ E.asPython item = .list [] ∨
    E.asPython item = .bytes [] ∨
    ∃ opcode tail, E.asPython item = .tuple (.bytes opcode) tail

theorem parseSexpToCondition_failsWith_iff {P : Exn → Prop}
    (hP : ∀ kind, kind ≠ .evalError → P (.raised kind))
    (hnot : ∀ bad, ¬ P (.consensusError .invalidCondition bad)) {item : SExp} :
    FailsWith P (parseSexpToCondition E item) ↔ MalformedItem E item := by
  unfold parseSexpToCondition MalformedItem
  cases hlist : item.listp with
  | false => simp [hP]
  | true =>
      simp only [if_true, Bool.true_eq_false, false_or]
      split
      next h => simp [h]
      next h => simp [h, hP]
      next h => simp [h, hP]
      next h => simp [h, hP]
      next h₁ h₂ h₃ h₄ =>
        simp only [failsWith_error_iff, hnot, false_iff]
        rintro (h | h | ⟨opcode, tail, h⟩)
        · exact h₂ h
        · exact h₃ h
        · exact h₄ _ _ h

/-- An item of a puzzle's output that is read as a condition. -/
def WellFormedItem (item : SExp) : Prop :=
  item.listp = true ∧
    ∃ opcode arguments, E.asPython item = .list (.bytes opcode :: arguments)

/-- The output of a solution's puzzle holds an item that cannot be read, after
conditions.  If `EvalError` names a module, so does everything that is raised
for the solution: by a puzzle that fails, an item that is no condition, or an
output without a proper end. -/
inductive MalformedOutput (solution : Program) : Prop
  | item {output item : SExp} {before after : List SExp}
      (hrun : puzzleOutput E solution = .ok output)
      (hitems : output.items = before ++ item :: after)
      (hbefore : ∀ earlier ∈ before, WellFormedItem E earlier)
      (h : MalformedItem E item)
  | refused {output item : SExp} (hname : E.evalErrorName = .module)
      (hrun : puzzleOutput E solution = .ok output)
      (hitem : item ∈ output.items) (h : ¬ WellFormedItem E item)
  | listEnd {output : SExp} (hname : E.evalErrorName = .module)
      (hrun : puzzleOutput E solution = .ok output) (h : output.listEnd ≠ [])
  | puzzle (hname : E.evalErrorName = .module)
      (h : ∀ output, puzzleOutput E solution ≠ .ok output)

/-- The exceptions that `except EvalError` does not answer with an error of its
own. -/
def Escapes (e : Exn) : Prop :=
  E.evalErrorName = .module ∨ e.code = .unknown ∧ e ≠ .raised .evalError

section Conditions

variable {E}

theorem exceptEvalError_unclassified_iff {α : Type} {handler : Exn}
    (hhandler : handler.code ≠ .unknown) {x : Except Exn α} :
    Unclassified (E.exceptEvalError handler x) ↔ FailsWith (Escapes E) x := by
  unfold Environment.exceptEvalError Unclassified Escapes
  cases x with
  | ok a => simp
  | error e =>
      cases hname : E.evalErrorName with
      | module => simp
      | exception =>
          cases e with
          | consensusError code bad => simp
          | raised kind => cases kind <;> simp [hhandler]

theorem parseSexpToCondition_ok_iff {item : SExp} :
    (∃ condition, parseSexpToCondition E item = .ok condition) ↔
      WellFormedItem E item := by
  unfold parseSexpToCondition WellFormedItem
  cases hlist : item.listp with
  | false => simp
  | true =>
      simp only [if_true, true_and]
      split
      next opcode arguments h => simp [h]
      next h => simp [h]
      next h => simp [h]
      next h => simp [h]
      next h₁ h₂ h₃ h₄ =>
        refine iff_of_false (by simp) ?_
        rintro ⟨opcode, arguments, h⟩
        exact h₁ opcode arguments h

theorem MalformedItem.not_wellFormed {item : SExp}
    (h : MalformedItem E item) : ¬ WellFormedItem E item := by
  rintro ⟨hlist, opcode, arguments, hread⟩
  unfold MalformedItem at h
  simp [hlist, hread] at h

theorem puzzleOutput_raises (hrun : E.RaisesEvalError) (solution : Program) :
    Raises (fun e => e = .raised .evalError) (puzzleOutput E solution) := by
  have haccessor : ∀ (sexp : SExp), Raises (fun e => e = .raised .evalError)
      sexp.first ∧ Raises (fun e => e = .raised .evalError) sexp.rest := by
    intro sexp
    cases sexp with
    | atom blob => exact ⟨raises_error rfl, raises_error rfl⟩
    | pair x xs => exact ⟨raises_ok _, raises_ok _⟩
  refine (haccessor _).1.bind fun _ => (haccessor _).2.bind fun _ =>
    (haccessor _).1.bind fun _ => ?_
  intro e h
  obtain ⟨kind, hkind, rfl⟩ := mapError_eq_error_iff.mp h
  rw [hrun _ _ kind hkind]

theorem conditionsForSolution_eq (solution : Program) :
    conditionsForSolution E solution =
      (puzzleOutput E solution >>= parseSexpToConditions E) := by
  unfold conditionsForSolution puzzleOutput
  cases solution with
  | atom blob => rfl
  | pair puzzle rest =>
      cases rest with
      | atom blob => rfl
      | pair argument more => rfl

/-- A solution has conditions if its puzzle returns a list of them. -/
theorem conditionsDictForSolution_ok_iff {solution : Program} :
    (∃ conditionsDict,
      conditionsDictForSolution E solution = .ok conditionsDict) ↔
      ∃ output, puzzleOutput E solution = .ok output ∧
        (∀ item ∈ output.items, WellFormedItem E item) ∧
        output.listEnd = [] := by
  have hitems : ∀ output : SExp,
      (∃ conditions, parseSexpToConditions E output = .ok conditions) ↔
        (∀ item ∈ output.items, WellFormedItem E item) ∧
          output.listEnd = [] := by
    intro output
    simp only [← parseSexpToCondition_ok_iff]
    rw [← exists_mapM_eq_ok_iff, parseSexpToConditions, SExp.forIter_eq]
    by_cases hend : output.listEnd = []
    · simp [bind_eq_ok_iff, hend]
    · simp [bind_eq_ok_iff, hend]
  simp only [← hitems]
  unfold conditionsDictForSolution
  simp only [conditionsForSolution_eq, bind_eq_ok_iff]
  constructor
  · rintro ⟨conditionsDict, conditions, ⟨output, hrun, hparse⟩, -⟩
    exact ⟨output, hrun, conditions, hparse⟩
  · rintro ⟨output, hrun, conditions, hparse⟩
    exact ⟨_, conditions, ⟨output, hrun, hparse⟩, rfl⟩

/-- With a module for the exception nothing that is raised is caught. -/
theorem malformedOutput_of_module (hname : E.evalErrorName = .module)
    {solution : Program} :
    MalformedOutput E solution ↔
      ¬ ∃ conditionsDict,
        conditionsDictForSolution E solution = .ok conditionsDict := by
  rw [conditionsDictForSolution_ok_iff]
  constructor
  · rintro h ⟨output, hrun, hitems, hend⟩
    cases h with
    | item hrun' hsplit _ h =>
        obtain rfl := Except.ok.inj (hrun.symm.trans hrun')
        apply h.not_wellFormed
        apply hitems
        simp [hsplit]
    | refused _ hrun' hitem h =>
        obtain rfl := Except.ok.inj (hrun.symm.trans hrun')
        exact h (hitems _ hitem)
    | listEnd _ hrun' h =>
        obtain rfl := Except.ok.inj (hrun.symm.trans hrun')
        exact h hend
    | puzzle _ h => exact h output hrun
  · intro h
    by_cases hrun : ∃ output, puzzleOutput E solution = .ok output
    · obtain ⟨output, hrun⟩ := hrun
      by_cases hitems : ∀ item ∈ output.items, WellFormedItem E item
      · exact .listEnd hname hrun fun hend => h ⟨output, hrun, hitems, hend⟩
      · push Not at hitems
        obtain ⟨item, hitem, hrefused⟩ := hitems
        exact .refused hname hrun hitem hrefused
    · exact .puzzle hname (not_exists.mp hrun)

/-- With the exception itself what is raised has to be another one. -/
theorem malformedOutput_of_exception (hname : E.evalErrorName = .exception)
    {solution : Program} :
    MalformedOutput E solution ↔
      ∃ output before item after, puzzleOutput E solution = .ok output ∧
        output.items = before ++ item :: after ∧
        (∃ conditions, before.mapM (parseSexpToCondition E) =
          .ok conditions) ∧ MalformedItem E item := by
  have hmodule : E.evalErrorName ≠ .module := by simp [hname]
  simp only [exists_mapM_eq_ok_iff, parseSexpToCondition_ok_iff]
  constructor
  · intro h
    cases h with
    | item hrun hitems hbefore h =>
        exact ⟨_, _, _, _, hrun, hitems, hbefore, h⟩
    | refused h => exact absurd h hmodule
    | listEnd h => exact absurd h hmodule
    | puzzle h => exact absurd h hmodule
  · rintro ⟨output, before, item, after, hrun, hitems, hbefore, h⟩
    exact .item hrun hitems hbefore h

theorem conditionsDictForSolution_failsWith_iff (hrun : E.RaisesEvalError)
    {solution : Program} :
    FailsWith (Escapes E) (conditionsDictForSolution E solution) ↔
      MalformedOutput E solution := by
  cases hname : E.evalErrorName with
  | module =>
      have hall : Raises (Escapes E) (conditionsDictForSolution E solution) :=
        fun _ _ => .inl hname
      rw [malformedOutput_of_module hname, hall.failsWith_iff, not_exists]
  | exception =>
      have hescapes : ∀ e, Escapes E e ↔
          e.code = .unknown ∧ e ≠ .raised .evalError := by
        simp [Escapes, hname]
      have hitem : ∀ item, FailsWith (Escapes E) (parseSexpToCondition E item) ↔
          MalformedItem E item := by
        intro item
        apply parseSexpToCondition_failsWith_iff
        · intro kind hkind
          simpa [hescapes] using hkind
        · intro bad h
          simp [hescapes] at h
      have houtput : ¬ FailsWith (Escapes E) (puzzleOutput E solution) :=
        (puzzleOutput_raises hrun solution).not_failsWith
          fun e he h => ((hescapes e).mp h).2 he
      have hend : ¬ Escapes E (.raised .evalError) := by simp [hescapes]
      rw [malformedOutput_of_exception hname]
      unfold conditionsDictForSolution
      rw [failsWith_bind_iff, conditionsForSolution_eq, failsWith_bind_iff]
      simp only [houtput, failsWith_ok_iff, and_false, exists_false, or_false,
        false_or]
      refine exists_congr fun output => ?_
      unfold parseSexpToConditions
      rw [SExp.failsWith_forIter_iff]
      simp only [hitem, hend, and_false, or_false]
      constructor
      · rintro ⟨h, before, item, after, hrest⟩
        exact ⟨before, item, after, h, hrest⟩
      · rintro ⟨before, item, after, h, hrest⟩
        exact ⟨h, before, item, after, hrest⟩

end Conditions

/-! ## Entries -/

/-- An entry `(coin_name (puzzle solution))` that passes the tests of its
shape and cannot be taken apart, or whose puzzle cannot be hashed, or whose
solution cannot be read. -/
inductive MalformedEntry (entry : SExp) : Prop
  | solution {coinName : Bytes32} (hshape : EntryShape E entry coinName)
      (h : ∀ solution, entrySolution entry ≠ .ok solution)
  | puzzle {coinName : Bytes32} {solution : Program}
      (hshape : EntryShape E entry coinName)
      (hsolution : entrySolution entry = .ok solution)
      (h : solution.listp = false)
  | tooDeep {coinName : Bytes32} {solution puzzle : Program}
      (hshape : EntryShape E entry coinName)
      (hsolution : entrySolution entry = .ok solution)
      (hpuzzle : solution.first = .ok puzzle) (h : E.TooDeep puzzle)
  | output {coinName : Bytes32} {solution : Program}
      (hshape : EntryShape E entry coinName)
      (hsolution : entrySolution entry = .ok solution)
      (h : MalformedOutput E solution)

theorem entrySolution_raises (entry : SExp) :
    RaisesCodes [.unknown] (entrySolution entry) :=
  (SExp.raises_rest _).bind fun _ => SExp.raises_first _

section Entries

variable {E}

/-- What `npcEntry` does with a solution. -/
def npcOfSolution (E : Environment) (coinName : Bytes32) (solution : Program) :
    Except Exn Npc := do
  let puzzle ← solution.first
  let puzzleHash ← E.programHash puzzle
  let conditionsDict ← E.exceptEvalError
    (.consensusError .invalidCoinSolution (.hash coinName))
    (conditionsDictForSolution E solution)
  .ok ⟨coinName, puzzleHash, conditionsDict⟩

theorem npcEntry_eq_of_shape {entry : SExp} {coinName : Bytes32}
    (hshape : EntryShape E entry coinName) :
    npcEntry E entry =
      (entrySolution entry >>= npcOfSolution E coinName) := by
  obtain ⟨left, right, htwo⟩ := hshape
  unfold npcEntry entrySolution
  rw [htwo]
  dsimp only
  rw [dif_pos coinName.2]
  cases entry with
  | atom blob => rfl
  | pair name rest =>
      cases rest with
      | atom blob => rfl
      | pair solution more => rfl

theorem npcEntry_of_not_shape {entry : SExp}
    (h : ¬ ∃ coinName, EntryShape E entry coinName) :
    npcEntry E entry =
      .error (.consensusError .invalidCoinSolution (.sexp entry)) := by
  unfold npcEntry
  dsimp only
  split
  next name left right htwo =>
    have hlength : ¬ name.length = 32 := fun hlength =>
      h ⟨⟨name, hlength⟩, left, right, htwo⟩
    rw [dif_neg hlength]
  next => rfl

theorem npcOfSolution_unclassified_iff (hrun : E.RaisesEvalError)
    (coinName : Bytes32) (solution : Program) :
    Unclassified (npcOfSolution E coinName solution) ↔
      solution.listp = false ∨
        (∃ puzzle, solution.first = .ok puzzle ∧ E.TooDeep puzzle) ∨
        MalformedOutput E solution := by
  have hdict : Unclassified (E.exceptEvalError
      (.consensusError .invalidCoinSolution (.hash coinName))
      (conditionsDictForSolution E solution)) ↔ MalformedOutput E solution := by
    rw [exceptEvalError_unclassified_iff (by simp),
      conditionsDictForSolution_failsWith_iff hrun]
  cases solution with
  | atom blob =>
      simp [npcOfSolution, Unclassified, SExp.first, SExp.listp, bind,
        Except.bind]
  | pair puzzle rest =>
      have hhash : Unclassified (E.programHash puzzle) ↔ E.TooDeep puzzle := by
        simp [Unclassified, FailsWith, Environment.programHash_eq_error_iff]
      unfold npcOfSolution
      simp only [SExp.first, ok_bind, SExp.listp, Bool.true_eq_false,
        false_or, Except.ok.injEq, exists_eq_left']
      simp only [unclassified_bind_iff, hhash, hdict, failsWith_ok_iff,
        and_false, exists_false, or_false]
      by_cases hdeep : E.TooDeep puzzle
      · simp [hdeep]
      · simp [Environment.programHash_eq_ok_iff, hdeep]

theorem npcEntry_unclassified_iff (hrun : E.RaisesEvalError) {entry : SExp} :
    Unclassified (npcEntry E entry) ↔ MalformedEntry E entry := by
  by_cases hshapes : ∃ coinName, EntryShape E entry coinName
  case neg =>
    rw [npcEntry_of_not_shape hshapes, Unclassified, failsWith_error_iff]
    refine iff_of_false (by simp) ?_
    intro h
    cases h with
    | solution hshape _ => exact hshapes ⟨_, hshape⟩
    | puzzle hshape _ _ => exact hshapes ⟨_, hshape⟩
    | tooDeep hshape _ _ _ => exact hshapes ⟨_, hshape⟩
    | output hshape _ _ => exact hshapes ⟨_, hshape⟩
  obtain ⟨coinName, hshape⟩ := hshapes
  rw [npcEntry_eq_of_shape hshape, unclassified_bind_iff]
  simp only [npcOfSolution_unclassified_iff hrun]
  rw [unclassified_of_raises (entrySolution_raises entry), not_exists]
  constructor
  · rintro (h | ⟨solution, hsolution, h | ⟨puzzle, hpuzzle, h⟩ | h⟩)
    · exact .solution hshape h
    · exact .puzzle hshape hsolution h
    · exact .tooDeep hshape hsolution hpuzzle h
    · exact .output hshape hsolution h
  · intro h
    cases h with
    | solution _ h => exact .inl h
    | puzzle _ hsolution h => exact .inr ⟨_, hsolution, .inl h⟩
    | tooDeep _ hsolution hpuzzle h =>
        exact .inr ⟨_, hsolution, .inr (.inl ⟨_, hpuzzle, h⟩)⟩
    | output _ hsolution h => exact .inr ⟨_, hsolution, .inr (.inr h)⟩

/-- The output of the solution program has an entry that cannot be read, after
entries that can, or no proper end.  If `EvalError` names a module, a program
that fails is no better. -/
inductive MalformedProgram (E : Environment) (program : Program) : Prop
  | program (hname : E.evalErrorName = .module)
      (h : ∀ output, E.run program .null ≠ .ok output)
  | entry {output entry : SExp} {before after : List SExp}
      (hrun : E.run program .null = .ok output)
      (hitems : output.items = before ++ entry :: after)
      (hbefore : ∃ npcList, before.mapM (npcEntry E) = .ok npcList)
      (h : MalformedEntry E entry)
  | listEnd {output : SExp} (hrun : E.run program .null = .ok output)
      (hitems : ∃ npcList, output.items.mapM (npcEntry E) = .ok npcList)
      (h : output.listEnd ≠ [])

theorem run_failsWith_iff (hrun : E.RaisesEvalError) {program args : SExp} :
    FailsWith (Escapes E) (E.run program args) ↔
      E.evalErrorName = .module ∧ ∀ output, E.run program args ≠ .ok output := by
  cases houtput : E.run program args with
  | ok output => simp
  | error e =>
      obtain ⟨kind, hkind, rfl⟩ := mapError_eq_error_iff.mp houtput
      simp [Escapes, hrun _ _ kind hkind]

theorem namePuzzleConditionsList_unclassified_iff (hrun : E.RaisesEvalError)
    {program : Program} :
    Unclassified (namePuzzleConditionsList E program) ↔
      MalformedProgram E program := by
  unfold namePuzzleConditionsList
  rw [unclassified_bind_iff, exceptEvalError_unclassified_iff (by simp),
    run_failsWith_iff hrun]
  simp only [Environment.exceptEvalError_eq_ok_iff,
    SExp.failsWith_forIter_iff, npcEntry_unclassified_iff hrun]
  constructor
  · rintro (⟨hname, h⟩ | ⟨output, houtput,
      ⟨before, entry, after, hitems, hbefore, h⟩ | ⟨hitems, h, -⟩⟩)
    · exact .program hname h
    · exact .entry houtput hitems hbefore h
    · exact .listEnd houtput hitems h
  · intro h
    cases h with
    | program hname h => exact .inl ⟨hname, h⟩
    | entry houtput hitems hbefore h =>
        exact .inr ⟨_, houtput, .inl ⟨_, _, _, hitems, hbefore, h⟩⟩
    | listEnd houtput hitems h =>
        exact .inr ⟨_, houtput, .inr ⟨hitems, h, rfl⟩⟩

end Entries

/-! ## Outputs and coins -/

/-- `(CREATE_COIN puzzle_hash amount)` -/
def Condition.ReadsAsCoin (condition : Condition) : Prop :=
  ∃ (puzzleHash : Bytes32) (amount : Bytes),
    condition.arguments = [.bytes puzzleHash.1, .bytes amount]

/-- `(AGG_SIG public_key message_hash)` -/
def Condition.ReadsAsKeyPair (condition : Condition) : Prop :=
  ∃ (publicKey : Bytes48) (messageHash : Bytes32),
    condition.arguments = [.bytes publicKey.1, .bytes messageHash.1]

theorem toSizedBytes_ok_iff {size : ℕ} {v : PyVal} {b : SizedBytes size} :
    v.toSizedBytes size = .ok b ↔ v = .bytes b.1 := by
  cases v with
  | bytes blob =>
      unfold PyVal.toSizedBytes SizedBytes.new
      by_cases hlength : blob.length = size
      · simp [hlength, Subtype.ext_iff]
      · have hne : blob ≠ b.1 := by
          rintro rfl
          exact hlength b.2
        simp [hlength, hne]
  | list items => simp [PyVal.toSizedBytes]
  | tuple left right => simp [PyVal.toSizedBytes]

theorem toInt_ok_iff {v : PyVal} :
    (∃ value, v.toInt E = .ok value) ↔ ∃ blob, v = .bytes blob := by
  cases v with
  | bytes blob => simp [PyVal.toInt]
  | list items => simp [PyVal.toInt]
  | tuple left right => simp [PyVal.toInt]

theorem createdOutput_ok_iff {coinName : Bytes32} {condition : Condition} :
    (∃ coin, createdOutput E coinName condition = .ok coin) ↔
      condition.ReadsAsCoin := by
  unfold createdOutput Condition.ReadsAsCoin
  split
  next puzzleHash amount harguments =>
    rw [harguments]
    constructor
    · rintro ⟨coin, h⟩
      obtain ⟨value, hvalue, h⟩ := bind_eq_ok_iff.mp h
      obtain ⟨hash, hhash, -⟩ := bind_eq_ok_iff.mp h
      obtain ⟨blob, rfl⟩ := (toInt_ok_iff E).mp ⟨value, hvalue⟩
      obtain rfl := toSizedBytes_ok_iff.mp hhash
      exact ⟨hash, blob, rfl⟩
    · rintro ⟨hash, blob, h⟩
      obtain ⟨rfl, rfl⟩ : puzzleHash = .bytes hash.1 ∧ amount = .bytes blob := by
        simpa using h
      refine ⟨⟨coinName, hash, E.intFromBytes blob⟩, ?_⟩
      apply bind_eq_ok rfl
      exact bind_eq_ok (toSizedBytes_ok_iff.mpr rfl) rfl
  next hother =>
    refine iff_of_false (by simp) ?_
    rintro ⟨hash, blob, h⟩
    exact hother _ _ h

theorem hashKeyPair_eq_ok_iff {condition : Condition} {pair : AggsigPair} :
    hashKeyPair condition = .ok pair ↔
      condition.arguments =
        [.bytes pair.publicKey.1, .bytes pair.messageHash.1] := by
  unfold hashKeyPair
  split
  next publicKey messageHash harguments =>
    rw [harguments]
    constructor
    · intro h
      obtain ⟨key, hkey, h⟩ := bind_eq_ok_iff.mp h
      obtain ⟨hash, hhash, h⟩ := bind_eq_ok_iff.mp h
      obtain rfl := Except.ok.inj h
      rw [toSizedBytes_ok_iff.mp hkey, toSizedBytes_ok_iff.mp hhash]
    · intro h
      obtain ⟨rfl, rfl⟩ : publicKey = .bytes pair.publicKey.1 ∧
          messageHash = .bytes pair.messageHash.1 := by
        simpa using h
      apply bind_eq_ok (toSizedBytes_ok_iff.mpr rfl)
      exact bind_eq_ok (toSizedBytes_ok_iff.mpr rfl) rfl
  next hother => exact iff_of_false (by simp) (hother _ _)

theorem hashKeyPair_ok_iff {condition : Condition} :
    (∃ pair, hashKeyPair condition = .ok pair) ↔ condition.ReadsAsKeyPair := by
  constructor
  · rintro ⟨pair, h⟩
    exact ⟨pair.publicKey, pair.messageHash, hashKeyPair_eq_ok_iff.mp h⟩
  · rintro ⟨publicKey, messageHash, h⟩
    exact ⟨⟨publicKey, messageHash⟩, hashKeyPair_eq_ok_iff.mpr h⟩

theorem createdOutputs_unclassified_iff {npcList : List Npc} :
    Unclassified (createdOutputs E npcList) ↔
      ∃ npc ∈ npcList, ∃ condition ∈ npc.conditionsDict.get .createCoin,
        ¬ condition.ReadsAsCoin := by
  rw [unclassified_of_raises (raises_createdOutputs E npcList), not_iff_comm]
  push Not
  constructor
  · intro h
    have hall : ∀ npc ∈ npcList, ∃ coins,
        createdOutputsForConditionsDict E npc.conditionsDict npc.coinName =
          .ok coins := by
      intro npc hnpc
      refine exists_mapM_eq_ok fun condition hcondition => ?_
      exact (createdOutput_ok_iff E).mpr (h npc hnpc condition hcondition)
    obtain ⟨outputs, houtputs⟩ := exists_mapM_eq_ok hall
    exact ⟨outputs.flatten, bind_eq_ok houtputs rfl⟩
  · rintro ⟨coins, h⟩ npc hnpc condition hcondition
    obtain ⟨outputs, houtputs, -⟩ := bind_eq_ok_iff.mp h
    obtain ⟨_, -, hnpcOutputs⟩ := exists_of_mapM_eq_ok houtputs hnpc
    obtain ⟨coin, -, hcoin⟩ := exists_of_mapM_eq_ok hnpcOutputs hcondition
    exact (createdOutput_ok_iff E).mp ⟨coin, hcoin⟩

theorem hashKeyPairs_unclassified_iff {conditionsDict : ConditionsDict} :
    Unclassified (hashKeyPairsForConditionsDict conditionsDict) ↔
      ∃ condition ∈ conditionsDict.get .aggSig, ¬ condition.ReadsAsKeyPair := by
  rw [unclassified_of_raises (raises_hashKeyPairs conditionsDict),
    not_iff_comm]
  push Not
  constructor
  · intro h
    exact exists_mapM_eq_ok fun condition hcondition =>
      hashKeyPair_ok_iff.mpr (h condition hcondition)
  · rintro ⟨pairs, h⟩ condition hcondition
    obtain ⟨pair, -, hpair⟩ := exists_of_mapM_eq_ok h hcondition
    exact hashKeyPair_ok_iff.mp ⟨pair, hpair⟩

theorem SizedBytes.new_ok_iff {size : ℕ} {b : Bytes} :
    (∃ s, SizedBytes.new size b = .ok s) ↔ b.length = size := by
  simp only [SizedBytes.new_eq_ok_iff]
  constructor
  · rintro ⟨s, rfl⟩
    exact s.2
  · intro hlength
    exact ⟨⟨b, hlength⟩, rfl⟩

/-- A coin is read from a blob that holds two hashes. -/
theorem coinPointerObj_ok_iff {storage : Bytes32 → Option Bytes}
    {name : Bytes32} :
    (∃ coin, coinPointerObj E storage name = .ok coin) ↔
      ∃ blob, storage name = some blob ∧ 64 ≤ blob.length := by
  unfold coinPointerObj
  cases storage name with
  | none => simp
  | some blob =>
      simp only [Option.some.injEq, exists_eq_left']
      constructor
      · rintro ⟨coin, h⟩
        obtain ⟨_, -, h⟩ := bind_eq_ok_iff.mp h
        obtain ⟨puzzleHash, hpuzzle, -⟩ := bind_eq_ok_iff.mp h
        have hlength := SizedBytes.new_ok_iff.mp ⟨puzzleHash, hpuzzle⟩
        rw [List.length_take, List.length_drop] at hlength
        omega
      · intro hlength
        obtain ⟨parent, hparent⟩ := SizedBytes.new_ok_iff.mpr
          (show (blob.take 32).length = 32 by simp; omega)
        obtain ⟨puzzleHash, hpuzzle⟩ := SizedBytes.new_ok_iff.mpr
          (show ((blob.drop 32).take 32).length = 32 by simp; omega)
        exact ⟨_, bind_eq_ok hparent (bind_eq_ok hpuzzle rfl)⟩

theorem resolveCoins_unclassified_iff {storage : Bytes32 → Option Bytes}
    {npcList : List Npc} :
    Unclassified (npcList.mapM (resolveCoin E storage)) ↔
      ∃ name ∈ npcList.map Npc.coinName,
        ∀ blob, storage name = some blob → blob.length < 64 := by
  have hresolve : ∀ npc, (∃ cpc, resolveCoin E storage npc = .ok cpc) ↔
      ∃ blob, storage npc.coinName = some blob ∧ 64 ≤ blob.length := by
    intro npc
    rw [← coinPointerObj_ok_iff E]
    constructor
    · rintro ⟨cpc, h⟩
      obtain ⟨coin, hcoin, -⟩ := bind_eq_ok_iff.mp h
      exact ⟨coin, hcoin⟩
    · rintro ⟨coin, hcoin⟩
      exact ⟨_, bind_eq_ok hcoin rfl⟩
  rw [unclassified_of_raises
    (Raises.mapM fun npc _ => raises_resolveCoin E storage npc), not_iff_comm]
  push Not
  simp only [List.mem_map, forall_exists_index, and_imp,
    forall_apply_eq_imp_iff₂]
  constructor
  · intro h
    exact exists_mapM_eq_ok fun npc hnpc => (hresolve npc).mpr (h npc hnpc)
  · rintro ⟨cpcList, h⟩ npc hnpc
    obtain ⟨cpc, -, hcpc⟩ := exists_of_mapM_eq_ok h hnpc
    exact (hresolve npc).mp ⟨cpc, hcpc⟩

end LedgerSim
