import LedgerSim.Environment
import LedgerSim.Exec

/-!
# The language of the puzzle sources

A `.clvm` file is a module: named parameters, constants, functions that may call
each other, and a body.  An evaluation is bounded by its depth, and what a form
evaluates to does not depend on the bound.  The rules below characterize the
value of each form by the values of its parts.
-/

namespace LedgerSim

namespace Clvm

/-! ## Syntax -/

/-- The operators that are applied to evaluated arguments: `f`, `r`, `c`, `l`
and `sha256`. -/
inductive Operator where
  | first
  | rest
  | cons
  | listp
  | sha256

/-- The tree under `qq`, with forms where it says `unquote`. -/
inductive Template (α : Type) where
  | literal (value : SExp)
  | unquote (form : α)
  | pair (first rest : Template α)

inductive Form where
  | atom (blob : Bytes)
  | name (symbol : String)
  | operate (operator : Operator) (forms : List Form)
  | list (forms : List Form)
  | ifElse (condition yes no : Form)
  | call (function : String) (forms : List Form)
  /-- A list in the place of the operator: its value is a program and the
  program's arguments. -/
  | invoke (form : Form)
  | qq (template : Template Form)

/-- `defun` -/
structure Function where
  parameters : List String
  body : Form

/-- `mod`, with its `defconstant` and `defun` parts. -/
structure Module where
  parameters : List String
  constants : List (String × Bytes)
  functions : List (String × Function)
  body : Form

/-! ## Evaluation -/

variable (E : Environment)

def asAtom : SExp → Except Exn Bytes
  | .atom blob => .ok blob
  | .pair _ _ => .error PyException.evalError

def Operator.apply : Operator → List SExp → Except Exn SExp
  | .first, [x] => x.first
  | .rest, [x] => x.rest
  | .cons, [x, y] => .ok (.pair x y)
  | .listp, [x] => .ok (if x.listp then .atom [1] else .null)
  | .sha256, values => do
      let blobs ← values.mapM asAtom
      .ok (.atom (E.sha256 blobs.flatten).1)
  | _, _ => .error PyException.evalError

/-- An argument stands where its name stands among the parameters; whatever
follows the last one is ignored. -/
def argument (symbol : String) : List String → SExp → Except Exn SExp
  | [], _ => .error PyException.evalError
  | _ :: _, .atom _ => .error PyException.evalError
  | parameter :: parameters, .pair value args =>
      if parameter = symbol then .ok value
      else argument symbol parameters args

namespace Module

/-- A name is a parameter's or else a constant's. -/
def resolve (m : Module) (parameters : List String) (args : SExp)
    (symbol : String) : Except Exn SExp :=
  if symbol ∈ parameters then argument symbol parameters args
  else
    match m.constants.lookup symbol with
    | some blob => .ok (.atom blob)
    | none => .error PyException.evalError

end Module

def Template.fill {α : Type} (f : α → Except Exn SExp) :
    Template α → Except Exn SExp
  | .literal value => .ok value
  | .unquote form => f form
  | .pair first rest => do
      let x ← fill f first
      let y ← fill f rest
      .ok (.pair x y)

namespace Module

/-- The value of a form, if its evaluation is less than `fuel` deep. -/
def eval (m : Module) :
    ℕ → List String → SExp → Form → Except Exn SExp
  | 0, _, _, _ => .error PyException.runtimeError
  | fuel + 1, parameters, args, form =>
      match form with
      | .atom blob => .ok (.atom blob)
      | .name symbol => m.resolve parameters args symbol
      | .operate operator forms => do
          let values ← forms.mapM (m.eval fuel parameters args)
          operator.apply E values
      | .list forms => do
          let values ← forms.mapM (m.eval fuel parameters args)
          .ok (.ofList values)
      | .ifElse condition yes no => do
          let value ← m.eval fuel parameters args condition
          m.eval fuel parameters args (if value = .null then no else yes)
      | .call function forms =>
          match m.functions.lookup function with
          | none => .error PyException.evalError
          | some callee => do
              let values ← forms.mapM (m.eval fuel parameters args)
              m.eval fuel callee.parameters (.ofList values) callee.body
      | .invoke form => do
          match ← m.eval fuel parameters args form with
          | .atom _ => .error PyException.evalError
          | .pair program solution => E.run program solution
      | .qq template => template.fill (m.eval fuel parameters args)

def Evaluates (m : Module) (parameters : List String) (args : SExp)
    (form : Form) (value : SExp) : Prop :=
  ∃ fuel, m.eval E fuel parameters args form = .ok value

/-- The module evaluates to the value on the arguments. -/
def Returns (m : Module) (args value : SExp) : Prop :=
  m.Evaluates E m.parameters args m.body value

end Module

/-! ## The bound -/

theorem Template.fill_mono {α : Type} {f g : α → Except Exn SExp}
    (hfg : ∀ form value, f form = .ok value → g form = .ok value)
    {template : Template α} {value : SExp}
    (h : template.fill f = .ok value) : template.fill g = .ok value := by
  induction template generalizing value with
  | literal _ => exact h
  | unquote form => exact hfg form value h
  | pair first rest ihfirst ihrest =>
      obtain ⟨x, hx, h⟩ := Except.bind_eq_ok_iff.mp h
      obtain ⟨y, hy, h⟩ := Except.bind_eq_ok_iff.mp h
      apply Except.bind_eq_ok (ihfirst hx)
      exact Except.bind_eq_ok (ihrest hy) h

theorem mapM_mono {α β : Type} {f g : α → Except Exn β}
    (hfg : ∀ a b, f a = .ok b → g a = .ok b) {l : List α} {l' : List β}
    (h : l.mapM f = .ok l') : l.mapM g = .ok l' :=
  Except.mapM_eq_ok_iff.mpr ((Except.mapM_eq_ok_iff.mp h).imp hfg)

variable {E} {m : Module} {parameters : List String} {args value : SExp}

theorem Module.eval_mono {form : Form} {fuel fuel' : ℕ}
    (h : m.eval E fuel parameters args form = .ok value)
    (hle : fuel ≤ fuel') : m.eval E fuel' parameters args form = .ok value := by
  induction fuel generalizing fuel' parameters args form value with
  | zero => cases h
  | succ fuel ih =>
      cases fuel' with
      | zero => omega
      | succ fuel' =>
          have hfuel : fuel ≤ fuel' := Nat.le_of_succ_le_succ hle
          have hforms : ∀ form value,
              m.eval E fuel parameters args form = .ok value →
                m.eval E fuel' parameters args form = .ok value :=
            fun _ _ hform => ih hform hfuel
          cases form with
          | atom blob => exact h
          | name symbol => exact h
          | operate operator forms =>
              obtain ⟨values, hvalues, h⟩ := Except.bind_eq_ok_iff.mp h
              exact Except.bind_eq_ok (mapM_mono hforms hvalues) h
          | list forms =>
              obtain ⟨values, hvalues, h⟩ := Except.bind_eq_ok_iff.mp h
              exact Except.bind_eq_ok (mapM_mono hforms hvalues) h
          | ifElse condition yes no =>
              obtain ⟨test, htest, h⟩ := Except.bind_eq_ok_iff.mp h
              exact Except.bind_eq_ok (ih htest hfuel) (ih h hfuel)
          | call function forms =>
              unfold Module.eval at h ⊢
              dsimp only at h ⊢
              cases hcallee : m.functions.lookup function with
              | none =>
                  rw [hcallee] at h
                  cases h
              | some callee =>
                  rw [hcallee] at h
                  obtain ⟨values, hvalues, h⟩ := Except.bind_eq_ok_iff.mp h
                  exact Except.bind_eq_ok (mapM_mono hforms hvalues)
                    (ih h hfuel)
          | invoke form =>
              obtain ⟨pair, hpair, h⟩ := Except.bind_eq_ok_iff.mp h
              exact Except.bind_eq_ok (ih hpair hfuel) h
          | qq template => exact Template.fill_mono hforms h

theorem Module.Evaluates.unique {form : Form} {value' : SExp}
    (h : m.Evaluates E parameters args form value)
    (h' : m.Evaluates E parameters args form value') : value = value' := by
  obtain ⟨fuel, hfuel⟩ := h
  obtain ⟨fuel', hfuel'⟩ := h'
  have hleft := Module.eval_mono hfuel (Nat.le_max_left fuel fuel')
  have hright := Module.eval_mono hfuel' (Nat.le_max_right fuel fuel')
  exact Except.ok.inj (hleft.symm.trans hright)

/-- One bound serves all forms of a list. -/
theorem Module.exists_mapM_eval_iff {forms : List Form} {values : List SExp} :
    (∃ fuel, forms.mapM (m.eval E fuel parameters args) = .ok values) ↔
      List.Forall₂ (m.Evaluates E parameters args) forms values := by
  constructor
  · rintro ⟨fuel, h⟩
    exact (Except.mapM_eq_ok_iff.mp h).imp fun _ _ hform => ⟨fuel, hform⟩
  · intro h
    induction h with
    | nil => exact ⟨0, rfl⟩
    | cons hform _ ih =>
        obtain ⟨fuel, hfuel⟩ := hform
        obtain ⟨fuel', hfuel'⟩ := ih
        refine ⟨max fuel fuel', Except.mapM_eq_ok_iff.mpr (.cons ?_ ?_)⟩
        · exact eval_mono hfuel (Nat.le_max_left fuel fuel')
        · apply Except.mapM_eq_ok_iff.mp
          apply mapM_mono _ hfuel'
          intro _ _ hrest
          exact eval_mono hrest (Nat.le_max_right fuel fuel')

/-! ## Rules -/

namespace Module

theorem evaluates_iff_succ {form : Form} :
    m.Evaluates E parameters args form value ↔
      ∃ fuel, m.eval E (fuel + 1) parameters args form = .ok value := by
  constructor
  · rintro ⟨fuel, h⟩
    exact ⟨fuel, eval_mono h (Nat.le_succ fuel)⟩
  · rintro ⟨fuel, h⟩
    exact ⟨fuel + 1, h⟩

@[simp] theorem evaluates_atom_iff {blob : Bytes} :
    m.Evaluates E parameters args (.atom blob) value ↔ value = .atom blob := by
  rw [evaluates_iff_succ]
  simp [eval, eq_comm]

@[simp] theorem evaluates_name_iff {symbol : String} :
    m.Evaluates E parameters args (.name symbol) value ↔
      m.resolve parameters args symbol = .ok value := by
  rw [evaluates_iff_succ]
  simp [eval]

/-- The arguments are evaluated first. -/
theorem exists_bind_mapM_iff {forms : List Form} {α : Type}
    {f : List SExp → Except Exn α} {a : α} :
    (∃ fuel, (forms.mapM (m.eval E fuel parameters args) >>= f) = .ok a) ↔
      ∃ values, List.Forall₂ (m.Evaluates E parameters args) forms values ∧
        f values = .ok a := by
  constructor
  · rintro ⟨fuel, h⟩
    obtain ⟨values, hvalues, h⟩ := Except.bind_eq_ok_iff.mp h
    exact ⟨values, exists_mapM_eval_iff.mp ⟨fuel, hvalues⟩, h⟩
  · rintro ⟨values, hvalues, h⟩
    obtain ⟨fuel, hfuel⟩ := exists_mapM_eval_iff.mpr hvalues
    exact ⟨fuel, Except.bind_eq_ok hfuel h⟩

theorem evaluates_operate_iff {operator : Operator} {forms : List Form} :
    m.Evaluates E parameters args (.operate operator forms) value ↔
      ∃ values, List.Forall₂ (m.Evaluates E parameters args) forms values ∧
        operator.apply E values = .ok value := by
  rw [evaluates_iff_succ]
  exact exists_bind_mapM_iff

theorem evaluates_list_iff {forms : List Form} :
    m.Evaluates E parameters args (.list forms) value ↔
      ∃ values, List.Forall₂ (m.Evaluates E parameters args) forms values ∧
        .ofList values = value := by
  rw [evaluates_iff_succ]
  apply exists_bind_mapM_iff.trans
  simp only [Except.ok.injEq]

theorem evaluates_ifElse_iff {condition yes no : Form} :
    m.Evaluates E parameters args (.ifElse condition yes no) value ↔
      ∃ test, m.Evaluates E parameters args condition test ∧
        m.Evaluates E parameters args (if test = .null then no else yes)
          value := by
  rw [evaluates_iff_succ]
  constructor
  · rintro ⟨fuel, h⟩
    obtain ⟨test, htest, h⟩ := Except.bind_eq_ok_iff.mp h
    exact ⟨test, ⟨fuel, htest⟩, ⟨fuel, h⟩⟩
  · rintro ⟨test, ⟨fuel, htest⟩, ⟨fuel', h⟩⟩
    refine ⟨max fuel fuel', Except.bind_eq_ok (a := test) ?_ ?_⟩
    · exact eval_mono htest (Nat.le_max_left fuel fuel')
    · exact eval_mono h (Nat.le_max_right fuel fuel')

theorem evaluates_call_iff {function : String} {callee : Function}
    (hcallee : m.functions.lookup function = some callee)
    {forms : List Form} :
    m.Evaluates E parameters args (.call function forms) value ↔
      ∃ values, List.Forall₂ (m.Evaluates E parameters args) forms values ∧
        m.Evaluates E callee.parameters (.ofList values) callee.body value := by
  rw [evaluates_iff_succ]
  unfold eval
  simp only [hcallee]
  constructor
  · rintro ⟨fuel, h⟩
    obtain ⟨values, hvalues, h⟩ := Except.bind_eq_ok_iff.mp h
    exact ⟨values, exists_mapM_eval_iff.mp ⟨fuel, hvalues⟩, ⟨fuel, h⟩⟩
  · rintro ⟨values, hvalues, ⟨fuel', h⟩⟩
    obtain ⟨fuel, hfuel⟩ := exists_mapM_eval_iff.mpr hvalues
    refine ⟨max fuel fuel', Except.bind_eq_ok (a := values) ?_ ?_⟩
    · apply mapM_mono _ hfuel
      intro _ _ hform
      exact eval_mono hform (Nat.le_max_left fuel fuel')
    · exact eval_mono h (Nat.le_max_right fuel fuel')

theorem evaluates_invoke_iff {form : Form} :
    m.Evaluates E parameters args (.invoke form) value ↔
      ∃ program solution,
        m.Evaluates E parameters args form (.pair program solution) ∧
          E.run program solution = .ok value := by
  rw [evaluates_iff_succ]
  constructor
  · rintro ⟨fuel, h⟩
    obtain ⟨pair, hpair, h⟩ := Except.bind_eq_ok_iff.mp h
    cases pair with
    | atom blob => cases h
    | pair program solution => exact ⟨program, solution, ⟨fuel, hpair⟩, h⟩
  · rintro ⟨program, solution, ⟨fuel, hpair⟩, h⟩
    exact ⟨fuel, Except.bind_eq_ok hpair h⟩

end Module

end Clvm

end LedgerSim
