import ExprTree.Proofs.Run.Invariant
import ExprTree.Proofs.Run.Origin
import ExprTree.Proofs.Value.Renaming

namespace ExprTree

/-!
# Two runs with other ids

Two runs of one program that start with other ids in the supply do the same, up to the
ids of what they make: `eval_rename`, `exec_rename` and `callsRename`.  The renaming moves
the ids from the start of the one run on to those from the start of the other one on
(`Renaming.shift`); it is injective where the second run starts no earlier, and programs
can tell nothing but whether two references are one.

Along with it goes where values come from: whatever is at hand was made by the run, or
was known before (`Value.Originates`).  The functions of the host need to know that, to
be called with ids that have been given out.

The induction is on the room on the stack, for calls, and inside it on the tree or the
code.
-/

/-! ### Shifts -/

/-- Moves the ids from `start` on to those from `start'` on. -/
def shiftFrom (start start' id : Nat) : Nat :=
  if id < start then id else start' + (id - start)

/-- Ids that are moved twice might as well be moved at once. -/
theorem shiftFrom_shiftFrom {start middle last id : Nat} (h : start ≤ middle) :
    shiftFrom middle last (shiftFrom start middle id) = shiftFrom start last id := by
  unfold shiftFrom
  split
  · rw [if_pos (by omega)]
  · rw [if_neg (by omega)]
    omega

/-- Ids that are moved up stay apart: those below the start stay below it. -/
theorem shiftFrom_injective {start start' : Nat} (h : start ≤ start') :
    Function.Injective (shiftFrom start start') := by
  intro a b hab
  unfold shiftFrom at hab
  split at hab <;> split at hab <;> omega

namespace Renaming

/-- The renaming of what one supply gives out to what another one does. -/
def shift (supply supply' : Supply) : Renaming :=
  ⟨shiftFrom supply.nextObject supply'.nextObject,
    shiftFrom supply.nextFunction supply'.nextFunction⟩

/-- Fresh ids are carried to fresh ids, in their order. -/
structure Carries (ρ : Renaming) (supply supply' : Supply) : Prop where
  object (i : Nat) : ρ.object (supply.nextObject + i) = supply'.nextObject + i
  function (i : Nat) : ρ.function (supply.nextFunction + i) = supply'.nextFunction + i

namespace Carries

variable {ρ : Renaming} {supply supply' : Supply}

/-- A new object is carried to a new object. -/
theorem new_object (h : ρ.Carries supply supply') (cls : ClassDef) (fields : List Value) :
    (supply'.object cls (fields.map (·.rename ρ))).1 = (supply.object cls fields).1.rename ρ
      ∧ ρ.Carries (supply.object cls fields).2
        (supply'.object cls (fields.map (·.rename ρ))).2 := by
  constructor
  · have hid : ρ.object supply.nextObject = supply'.nextObject := h.object 0
    rw [Supply.object, Supply.object, Value.rename, hid, Value.renameAll_eq_map]
  · refine ⟨fun i => ?_, h.function⟩
    have hid := h.object (1 + i)
    rwa [← Nat.add_assoc, ← Nat.add_assoc] at hid

/-- A new function is carried to a new function. -/
theorem new_function (h : ρ.Carries supply supply') (callable : Callable Value) :
    (supply'.function (callable.rename ρ)).1 = (supply.function callable).1.rename ρ
      ∧ ρ.Carries (supply.function callable).2 (supply'.function (callable.rename ρ)).2 := by
  constructor
  · have hid : ρ.function supply.nextFunction = supply'.nextFunction := h.function 0
    rw [Supply.function, Supply.function, Value.rename, hid]
  · refine ⟨h.object, fun i => ?_⟩
    have hid := h.function (1 + i)
    rwa [← Nat.add_assoc, ← Nat.add_assoc] at hid

end Carries

variable {supply later last : Supply}

/-- The shift takes the ids of the one supply to those of the other, in order. -/
theorem carries_shift (supply later : Supply) : (shift supply later).Carries supply later := by
  constructor <;>
  · intro i
    show shiftFrom _ _ _ = _
    unfold shiftFrom
    rw [if_neg (by omega)]
    omega

/-- What has been taken from one supply is as much as from the other. -/
theorem Carries.made {out out' : Supply} (h : (shift supply later).Carries out out')
    (hle : supply.nextObject ≤ out.nextObject) :
    out'.nextObject = later.nextObject + (out.nextObject - supply.nextObject) := by
  have hnext : shiftFrom supply.nextObject later.nextObject out.nextObject = out'.nextObject :=
    h.object 0
  rw [← hnext, shiftFrom, if_neg (Nat.not_lt.2 hle)]

theorem injective_shift (h : supply.Before later) : (shift supply later).Injective :=
  ⟨shiftFrom_injective h.object, shiftFrom_injective h.function⟩

/-- A shift keeps what was there before. -/
theorem fixes_shift {value : Value} (h : supply.Covers value) :
    (shift supply later).Fixes value := by
  cases value with
  | object | function => exact if_pos h
  | _ => trivial

theorem shift_comp (h : supply.Before later) :
    (shift later last).comp (shift supply later) = shift supply last := by
  unfold comp shift
  simp only [shiftFrom_shiftFrom h.object, shiftFrom_shiftFrom h.function]

/-- A shift to where the supply is already moves nothing. -/
theorem rename_shift_self (value : Value) : value.rename (shift supply supply) = value := by
  refine Value.rename_eq_self fun part _ => ?_
  have hself : ∀ start id, shiftFrom start start id = id := fun start id => by
    unfold shiftFrom
    split <;> omega
  cases part with
  | object | function => exact hself _ _
  | _ => trivial

end Renaming

/-! ### Hosts -/

/-- **The functions of a host do not tell invocations apart.**  Of two invocations that
    started with `start` and `start'`, and have taken as many ids since, both call one
    function of the host, on the same values but for the ids of what the invocations made.
    All these values are there already: the ids in them have been given out.

* `renames` — the function fails with the same error, or gives results that are the same
  but for the ids given out since `start`, and takes as many ids;
* `before` and `origin` — it takes ids from the supply, and gives nothing but what it
  made with them and what its captured values and its arguments hold.

    At the start of an invocation the two calls are on the very same values.  Later they
    are not, since what the invocations made has other ids in each of them: so a function
    must not look at the ids themselves, either (`Hosts.not_independent_of_telling`). -/
structure Hosts.Independent (hosts : Hosts) : Prop where
  renames {start start' supply supply' : Supply} {host : HostFunction Value}
    {args : List Value} : start.Before start' → start.Before supply →
    (Renaming.shift start start').Carries supply supply' →
    Value.AllOf supply.Covers (host.captured ++ args) →
    let ρ := Renaming.shift start start'
    (hosts (host.rename ρ) (args.map (·.rename ρ)) supply').1
        = (hosts host args supply).1.map (·.rename ρ)
      ∧ ρ.Carries (hosts host args supply).2
        (hosts (host.rename ρ) (args.map (·.rename ρ)) supply').2
  before {supply : Supply} {host : HostFunction Value} {args : List Value} :
    Value.AllOf supply.Covers (host.captured ++ args) → supply.Before (hosts host args supply).2
  origin {supply : Supply} {host : HostFunction Value} {args : List Value} {value : Value} :
    Value.AllOf supply.Covers (host.captured ++ args) → (hosts host args supply).1 = .ok value →
    value.All fun part => (supply.Gives part ∧ (hosts host args supply).2.Covers part)
      ∨ ∃ origin ∈ host.captured ++ args, origin.Holds part

/-! ### Side by side -/

/-- Two runs side by side: the supplies that they started with, of which the second one is
    no earlier, and the values that were `known` before. -/
structure Twins where
  start : Supply
  start' : Supply
  before : start.Before start'
  known : Value → Prop

namespace Twins

/-- The second run gives its own ids to what the first one makes. -/
def shift (twins : Twins) : Renaming := .shift twins.start twins.start'

/-- A value of the first run that it made or that was known, and whose id has been given
    out by now. -/
def Has (twins : Twins) (supply : Supply) (value : Value) : Prop :=
  value.Originates twins.start supply twins.known

/-- The two runs have taken as many ids. -/
structure Meet (twins : Twins) (supply supply' : Supply) : Prop where
  before : twins.start.Before supply
  carries : twins.shift.Carries supply supply'

variable {twins : Twins} {supply supply' now : Supply}

theorem allOf_of_before {values : List Value} (h : Value.AllOf (twins.Has supply) values)
    (hnow : supply.Before now) : Value.AllOf (twins.Has now) values :=
  h.mono fun _ hvalue => hvalue.of_before hnow

/-- Scalars are at hand anywhere. -/
theorem all_of_isScalar {value : Value} (h : value.isScalar = true) :
    value.All (twins.Has supply) :=
  Value.all_of_parts_eq_nil (Value.parts_of_isScalar h) (Value.originates_of_isScalar h)

/-- What a run may count on, and the run at its side: room for calls, supplies that meet,
    and that what the tree or the code holds and the values that can be read have an
    origin. -/
structure Ready (twins : Twins) (room : Nat) (held values : List Value) (stack : CallStack)
    (supply supply' : Supply) : Prop where
  room : stack.room ≤ room
  meet : twins.Meet supply supply'
  held : Value.AllOf (twins.Has supply) held
  values : Value.AllOf (twins.Has supply) values

namespace Ready

variable {room : Nat} {held held' values : List Value} {stack after : CallStack}
  {now' : Supply}

/-- After a step of the runs more ids have been given out. -/
theorem later (h : Ready twins room held values stack supply supply')
    (hafter : after.room ≤ stack.room) (hmeet : twins.Meet now now')
    (hbefore : supply.Before now) : Ready twins room held values after now now' :=
  ⟨Nat.le_trans hafter h.room, hmeet, allOf_of_before h.held hbefore,
    allOf_of_before h.values hbefore⟩

theorem left (h : Ready twins room (held ++ held') values stack supply supply') :
    Ready twins room held values stack supply supply' :=
  ⟨h.room, h.meet, (Value.AllOf.append.1 h.held).1, h.values⟩

theorem right (h : Ready twins room (held ++ held') values stack supply supply') :
    Ready twins room held' values stack supply supply' :=
  ⟨h.room, h.meet, (Value.AllOf.append.1 h.held).2, h.values⟩

end Ready

end Twins

/-! ### Outcomes -/

namespace Outcome

variable {twins : Twins} {supply supply' : Supply} {α β : Type} {f : α → α} {g : β → β}
  {Q : Supply → α → Prop} {R : Supply → β → Prop} {stack : CallStack}

/-- The second outcome of a step is the first one with other ids: `f` renames the result,
    of which `Q` says where it comes from.  The first run was at `supply` before. -/
structure Renamed (twins : Twins) (supply : Supply) (f : α → α) (Q : Supply → α → Prop)
    (outcome outcome' : Outcome stack α) : Prop where
  result : outcome'.result = outcome.result.map f
  after : outcome'.stack = outcome.stack
  meet : twins.Meet outcome.supply outcome'.supply
  before : supply.Before outcome.supply
  origin {a : α} : outcome.result = .ok a → Q outcome.supply a

/-- The same for a step that gives a value. -/
abbrev Pairs (twins : Twins) (supply : Supply) (outcome outcome' : Outcome stack Value) : Prop :=
  outcome.Renamed twins supply (·.rename twins.shift)
    (fun supply value => value.All (twins.Has supply)) outcome'

/-- The same for steps that give several values. -/
abbrev PairsAll (twins : Twins) (supply : Supply) (outcome outcome' : Outcome stack (List Value)) :
    Prop :=
  outcome.Renamed twins supply (List.map (·.rename twins.shift))
    (fun supply values => Value.AllOf (twins.Has supply) values) outcome'

/-- A step that takes no ids. -/
theorem renamed_done (hmeet : twins.Meet supply supply') {result result' : Except RuntimeError α}
    (h : result' = result.map f) (hQ : ∀ {a}, result = .ok a → Q supply a) :
    (done stack supply result).Renamed twins supply f Q (done stack supply' result') :=
  ⟨h, rfl, hmeet, .refl supply, hQ⟩

/-- Both runs may fail at the same moment in the same way. -/
theorem renamed_error (hmeet : twins.Meet supply supply') {error : RuntimeError} :
    (done stack supply (.error error) : Outcome stack α).Renamed twins supply f Q
      (done stack supply' (.error error)) :=
  renamed_done hmeet rfl nofun

/-- The step after a step starts where the first one has come to. -/
theorem Renamed.bind {outcome outcome' : Outcome stack α}
    {next next' : α → (after : CallStack) → after.room ≤ stack.room → Supply → Outcome after β}
    (h : outcome.Renamed twins supply f Q outcome')
    (hnext : ∀ a (after : CallStack) (hroom : after.room ≤ stack.room) now now',
      twins.Meet now now' → supply.Before now → Q now a →
      (next a after hroom now).Renamed twins now g R (next' (f a) after hroom now')) :
    (outcome.bind next).Renamed twins supply g R (outcome'.bind next') := by
  obtain ⟨result, after, now, hroom⟩ := outcome
  obtain ⟨result', after', now', hroom'⟩ := outcome'
  obtain ⟨hresult, hafter, hmeet, hbefore, horigin⟩ := h
  have hafter : after' = after := hafter
  have hresult : result' = result.map f := hresult
  subst hafter hresult
  -- both runs fail, or both go on from supplies that have met
  cases result with
  | error error => exact ⟨rfl, rfl, hmeet, hbefore, nofun⟩
  | ok a =>
    obtain ⟨hresult, hafter, hmeet, hlater, horigin⟩ :=
      hnext a after' hroom now now' hmeet hbefore (horigin rfl)
    exact ⟨hresult, hafter, hmeet, hbefore.trans hlater, horigin⟩

/-- The runs enter a call together, or find the stack full together. -/
theorem renamed_during
    {body body' : (inner : CallStack) → inner.room < stack.room → Outcome inner α}
    (hmeet : twins.Meet supply supply')
    (h : ∀ inner hroom, (body inner hroom).Renamed twins supply f Q (body' inner hroom)) :
    (stack.during supply body).Renamed twins supply f Q (stack.during supply' body') := by
  unfold CallStack.during
  split
  · exact renamed_error hmeet
  · obtain ⟨hresult, hafter, hmeet, hbefore, horigin⟩ := h _ _
    exact ⟨hresult, congrArg CallStack.exit hafter, hmeet, hbefore, horigin⟩

/-! ### Values -/

/-- Scalars are the same in both runs. -/
theorem pairs_scalar (hmeet : twins.Meet supply supply') {result : Except RuntimeError Value}
    (h : ∀ value, result = .ok value → value.isScalar = true) :
    (done stack supply result).Pairs twins supply (done stack supply' result) :=
  renamed_done hmeet (map_rename_of_isScalar h).symm fun hvalue =>
    Twins.all_of_isScalar (h _ hvalue)

/-- Two operands, and the scalar that `apply` makes of them. -/
theorem pairs_pair {apply : Value → Value → Except RuntimeError Value}
    (happly : ∀ a b, apply (a.rename twins.shift) (b.rename twins.shift) = apply a b)
    (hscalar : ∀ {a b value}, apply a b = .ok value → value.isScalar = true)
    {first first' : Outcome stack Value}
    {second second' : (after : CallStack) → Supply → Outcome after Value}
    (hfirst : first.Pairs twins supply first')
    (hsecond : ∀ (after : CallStack) now now', after.room ≤ stack.room →
      twins.Meet now now' → supply.Before now →
      (second after now).Pairs twins now (second' after now')) :
    (first.bind fun a after _ supply => (second after supply).bind fun b after _ supply =>
        done after supply (apply a b)).Pairs twins supply
      (first'.bind fun a after _ supply => (second' after supply).bind fun b after _ supply =>
        done after supply (apply a b)) := by
  refine hfirst.bind fun a after hafter now now' hmeet hbefore _ => ?_
  refine (hsecond after now now' hafter hmeet hbefore).bind fun b _ _ _ _ hmeet _ _ => ?_
  -- what an operator gives of its operands is a scalar, so there is nothing in it to rename
  rw [happly]
  exact pairs_scalar hmeet fun _ => hscalar

/-- A new object is made of values that have an origin, and the second run makes its own. -/
theorem pairs_object (hmeet : twins.Meet supply supply') (cls : ClassDef) {fields : List Value}
    (hfields : Value.AllOf (twins.Has supply) fields) :
    (done stack (supply.object cls fields).2 (.ok (supply.object cls fields).1)).Pairs twins supply
      (done stack (supply'.object cls (fields.map (·.rename twins.shift))).2
        (.ok (supply'.object cls (fields.map (·.rename twins.shift))).1)) := by
  obtain ⟨hobject, hcarries⟩ := hmeet.carries.new_object cls fields
  have hbefore := Supply.Before.new_object supply cls fields
  refine ⟨congrArg Except.ok hobject, rfl, ⟨hmeet.before.trans hbefore, hcarries⟩, hbefore,
    fun heq => ?_⟩
  cases heq
  exact Value.all_iff.2 ⟨Value.originates_object hmeet.before cls fields,
    Twins.allOf_of_before hfields hbefore⟩

/-- A new function, in the same way. -/
theorem pairs_function (stack : CallStack) (hmeet : twins.Meet supply supply')
    {callable : Callable Value} (hparts : Value.AllOf (twins.Has supply) callable.parts) :
    (done stack (supply.function callable).2 (.ok (supply.function callable).1)).Pairs twins supply
      (done stack (supply'.function (callable.rename twins.shift)).2
        (.ok (supply'.function (callable.rename twins.shift)).1)) := by
  obtain ⟨hfunction, hcarries⟩ := hmeet.carries.new_function callable
  have hbefore := Supply.Before.new_function supply callable
  refine ⟨congrArg Except.ok hfunction, rfl, ⟨hmeet.before.trans hbefore, hcarries⟩, hbefore,
    fun heq => ?_⟩
  cases heq
  exact Value.all_iff.2 ⟨Value.originates_function hmeet.before callable,
    Twins.allOf_of_before hparts hbefore⟩

/-- A constructor takes the fields in both runs or in neither. -/
theorem pairs_instantiate (hmeet : twins.Meet supply supply') {cls : ClassDef}
    {values : List Value} (hvalues : Value.AllOf (twins.Has supply) values) :
    (done stack (cls.instantiate values supply).2 (cls.instantiate values supply).1).Pairs
      twins supply
      (done stack (cls.instantiate (values.map (·.rename twins.shift)) supply').2
        (cls.instantiate (values.map (·.rename twins.shift)) supply').1) := by
  rw [ClassOver.instantiate, ClassOver.instantiate,
    ← checkArguments_eq (Value.forall₂_alike_rename values)]
  split
  · exact renamed_error hmeet
  · exact pairs_object hmeet cls hvalues

/-- What a function of the host gives has an origin: the host made it, or found it in what
    it captured and in its arguments. -/
theorem pairs_host {hosts : Hosts} (hhosts : hosts.Independent) (hmeet : twins.Meet supply supply')
    {host : HostFunction Value} {args : List Value}
    (hcaptured : Value.AllOf (twins.Has supply) host.captured)
    (hargs : Value.AllOf (twins.Has supply) args) :
    (done stack (hosts host args supply).2 (hosts host args supply).1).Pairs twins supply
      (done stack
        (hosts (host.rename twins.shift) (args.map (·.rename twins.shift)) supply').2
        (hosts (host.rename twins.shift) (args.map (·.rename twins.shift)) supply').1) := by
  have hfound : Value.AllOf (twins.Has supply) (host.captured ++ args) :=
    Value.AllOf.append.2 ⟨hcaptured, hargs⟩
  have hcovers : Value.AllOf supply.Covers (host.captured ++ args) :=
    hfound.mono fun _ hvalue => hvalue.covered
  obtain ⟨hresult, hcarries⟩ := hhosts.renames twins.before hmeet.before hmeet.carries hcovers
  have hbefore := hhosts.before hcovers
  refine ⟨hresult, rfl, ⟨hmeet.before.trans hbefore, hcarries⟩, hbefore, fun hvalue => ?_⟩
  refine (hhosts.origin hcovers hvalue).mono fun part hpart => ?_
  -- what the host gives it has made since the call, or has found in what it was given
  rcases hpart with ⟨hgives, hcovered⟩ | ⟨origin, horigin, hpart⟩
  · exact ⟨.inl (hgives.of_before hmeet.before), hcovered⟩
  · exact (hfound origin horigin part hpart).of_before hbefore

/-- A short circuit goes the same way in both runs. -/
theorem pairs_shortCircuit {op : BinaryOp} {value : Value} (hmeet : twins.Meet supply supply')
    {second second' : Outcome stack Value} (hsecond : second.Pairs twins supply second') :
    (match value.test op.symbol with
      | .error error => .done stack supply (.error error)
      | .ok b =>
        match op.settled? b with
        | some result => .done stack supply (.ok result)
        | none => second.bind fun value stack _ supply =>
          .done stack supply ((value.test op.symbol).map .bool) : Outcome stack Value).Pairs
      twins supply
      (match (value.rename twins.shift).test op.symbol with
      | .error error => .done stack supply' (.error error)
      | .ok b =>
        match op.settled? b with
        | some result => .done stack supply' (.ok result)
        | none => second'.bind fun value stack _ supply =>
          .done stack supply ((value.test op.symbol).map .bool)) := by
  rw [← value.alike_rename.test_eq]
  split
  · exact renamed_error hmeet
  · split
    · rename_i result hsettled
      refine pairs_scalar hmeet fun value hvalue => ?_
      cases hvalue
      rw [BinaryOp.settled?_eq_some hsettled]
      rfl
    · -- the test looks at truth values, which no renaming changes
      refine hsecond.bind fun value _ _ now now' hmeet _ _ => ?_
      rw [← value.alike_rename.test_eq]
      refine pairs_scalar hmeet fun result hresult => ?_
      obtain ⟨b, _, rfl⟩ := Value.exists_of_map_test hresult
      rfl

/-- A conditional goes the same way in both runs. -/
theorem pairs_conditional {value : Value} (hmeet : twins.Meet supply supply')
    {yes yes' no no' : Outcome stack Value} (hyes : yes.Pairs twins supply yes')
    (hno : no.Pairs twins supply no') :
    (match value.test "condition" with
      | .error error => .done stack supply (.error error)
      | .ok true => yes
      | .ok false => no : Outcome stack Value).Pairs twins supply
      (match (value.rename twins.shift).test "condition" with
      | .error error => .done stack supply' (.error error)
      | .ok true => yes'
      | .ok false => no') := by
  rw [← value.alike_rename.test_eq]
  split
  · exact renamed_error hmeet
  · exact hyes
  · exact hno

end Outcome

/-! ### Runs -/

section

variable {hosts : Hosts} {twins : Twins} {room : Nat}

/-- Calls that find at most `room` on the stack do not depend on ids. -/
def CallsRename (hosts : Hosts) (twins : Twins) (room : Nat) : Prop :=
  ∀ {callable : Callable Value} {args : List Value} {stack : CallStack} {supply supply' : Supply},
    twins.Ready room callable.parts args stack supply supply' →
    (call hosts callable args stack supply).Pairs twins supply
      (call hosts (callable.rename twins.shift) (args.map (·.rename twins.shift)) stack
        supply')

/-- A value that is called is a function in both runs or in neither. -/
theorem pairs_callValue (calls : CallsRename hosts twins room) {target : Value} {args : List Value}
    {stack : CallStack} {supply supply' : Supply} (hroom : stack.room ≤ room)
    (hmeet : twins.Meet supply supply') (htarget : target.All (twins.Has supply))
    (hargs : Value.AllOf (twins.Has supply) args) :
    (callValue hosts target args stack supply).Pairs twins supply
      (callValue hosts (target.rename twins.shift) (args.map (·.rename twins.shift)) stack
        supply') := by
  cases target with
  | function id callable =>
    exact calls ⟨hroom, hmeet, fun part hpart => htarget.part hpart, hargs⟩
  | _ => exact Outcome.renamed_error hmeet

/-- Several trees evaluate to renamed values if each of them does. -/
theorem evalAll_rename {exprs : List (Expr Value)} {env : Env Value}
    (ih : ∀ expr ∈ exprs, ∀ {stack : CallStack} {supply supply' : Supply},
      twins.Ready room expr.parts env.values stack supply supply' →
      (eval hosts expr env stack supply).Pairs twins supply
        (eval hosts (expr.rename twins.shift) (Env.rename twins.shift env) stack supply'))
    {stack : CallStack} {supply supply' : Supply}
    (h : twins.Ready room (Expr.partsOfAll exprs) env.values stack supply supply') :
    (evalAll hosts exprs env stack supply).PairsAll twins supply
      (evalAll hosts (Expr.renameAll twins.shift exprs) (Env.rename twins.shift env) stack
        supply') := by
  induction exprs generalizing stack supply supply' with
  | nil =>
    rw [Expr.renameAll, evalAll, evalAll]
    refine Outcome.renamed_done h.meet rfl fun heq => ?_
    cases heq
    exact List.forall_mem_nil _
  | cons expr rest ihrest =>
    rw [List.forall_mem_cons] at ih
    rw [Expr.renameAll, evalAll, evalAll]
    refine (ih.1 h.left).bind fun value after hafter now now' hmeet hbefore hvalue => ?_
    refine (ihrest ih.2 (h.right.later hafter hmeet hbefore)).bind
      fun values _ _ now now' hmeet hbefore hvalues => ?_
    refine Outcome.renamed_done hmeet rfl fun heq => ?_
    cases heq
    -- the first value is at hand still after the others have been made
    exact List.forall_mem_cons.2 ⟨hvalue.mono fun _ h => h.of_before hbefore, hvalues⟩

/-- Pieces of code do the same one after the other, as operands do. -/
theorem execAll_rename {codes : List (Code Value)} {activation : Activation}
    (ih : ∀ code ∈ codes, ∀ {stack : CallStack} {supply supply' : Supply},
      twins.Ready room code.literals activation.values stack supply supply' →
      (exec hosts code activation stack supply).Pairs twins supply
        (exec hosts (code.rename twins.shift) (activation.rename twins.shift) stack supply'))
    {stack : CallStack} {supply supply' : Supply}
    (h : twins.Ready room (Code.literalsOfAll codes) activation.values stack supply supply') :
    (execAll hosts codes activation stack supply).PairsAll twins supply
      (execAll hosts (Code.renameAll twins.shift codes) (activation.rename twins.shift) stack
        supply') := by
  induction codes generalizing stack supply supply' with
  | nil =>
    rw [Code.renameAll, execAll, execAll]
    refine Outcome.renamed_done h.meet rfl fun heq => ?_
    cases heq
    exact List.forall_mem_nil _
  | cons code rest ihrest =>
    rw [List.forall_mem_cons] at ih
    rw [Code.renameAll, execAll, execAll]
    refine (ih.1 h.left).bind fun value after hafter now now' hmeet hbefore hvalue => ?_
    refine (ihrest ih.2 (h.right.later hafter hmeet hbefore)).bind
      fun values _ _ now now' hmeet hbefore hvalues => ?_
    refine Outcome.renamed_done hmeet rfl fun heq => ?_
    cases heq
    exact List.forall_mem_cons.2 ⟨hvalue.mono fun _ h => h.of_before hbefore, hvalues⟩

/-- **Running renamed code** gives the renamed result, if calls do that leave no more room. -/
theorem exec_rename (calls : CallsRename hosts twins room) (code : Code Value)
    {activation : Activation} {stack : CallStack} {supply supply' : Supply}
    (h : twins.Ready room code.literals activation.values stack supply supply') :
    (exec hosts code activation stack supply).Pairs twins supply
      (exec hosts (code.rename twins.shift) (activation.rename twins.shift) stack supply') := by
  have hρ : twins.shift.Injective := Renaming.injective_shift twins.before
  induction code generalizing stack supply supply' with
  | literal value | embedded value =>
    rw [Code.rename, exec, exec]
    refine Outcome.renamed_done h.meet rfl fun heq => ?_
    cases heq
    exact h.held value (List.mem_singleton_self value)
  | pooled index =>
    rw [Code.rename, exec, exec]
    exact Outcome.renamed_done h.meet (Activation.entry_rename activation.constants index)
      fun hvalue => h.values _ (Activation.mem_values_of_constant hvalue)
  | slot place =>
    rw [Code.rename, exec, exec]
    exact Outcome.renamed_done h.meet (activation.read_rename place)
      fun hvalue => h.values _ (Activation.mem_values_of_read hvalue)
  | construct cls args ih =>
    rw [Code.rename, exec, exec]
    exact (execAll_rename ih h).bind fun values _ _ _ _ hmeet _ hvalues =>
      Outcome.pairs_object hmeet cls hvalues
  | instantiate cls args ih =>
    rw [Code.rename, exec, exec]
    exact (execAll_rename ih h).bind fun values _ _ _ _ hmeet _ hvalues =>
      Outcome.pairs_instantiate hmeet hvalues
  | fieldAt target index name ih =>
    rw [Code.rename, exec, exec]
    exact (ih h).bind fun value _ _ _ _ hmeet _ hvalue =>
      Outcome.renamed_done hmeet (value.fieldAt_rename index name) hvalue.of_fieldAt
  | field target name ih =>
    rw [Code.rename, exec, exec]
    exact (ih h).bind fun value _ _ _ _ hmeet _ hvalue =>
      Outcome.renamed_done hmeet (value.field_rename name) hvalue.of_field
  | unary op operand ih =>
    rw [Code.rename, exec, exec]
    refine (ih h).bind fun value _ _ _ _ hmeet _ _ => ?_
    rw [op.apply_rename]
    exact Outcome.pairs_scalar hmeet fun _ hresult => (UnaryOp.apply_eq_ok hresult).2
  | shortCircuit op left right ihl ihr =>
    rw [Code.rename, exec, exec]
    refine (ihl h.left).bind fun a after hafter _ _ hmeet hbefore _ => ?_
    exact Outcome.pairs_shortCircuit hmeet (ihr (h.right.later hafter hmeet hbefore))
  | arithmetic op left right ihl ihr =>
    rw [Code.rename, exec_direct, exec_direct]
    exact Outcome.pairs_pair (op.direct_rename hρ) BinaryOp.isScalar_of_direct (ihl h.left)
      fun after _ _ hafter hmeet hbefore => ihr (h.right.later hafter hmeet hbefore)
  | binary op left right ihl ihr =>
    rw [Code.rename, exec, exec]
    exact Outcome.pairs_pair (op.apply_rename hρ) BinaryOp.isScalar_of_apply (ihl h.left)
      fun after _ _ hafter hmeet hbefore => ihr (h.right.later hafter hmeet hbefore)
  | conditional test yes no iht ihy ihn =>
    rw [Code.rename, exec, exec]
    refine (iht h.left.left).bind fun value after hafter _ _ hmeet hbefore _ => ?_
    exact Outcome.pairs_conditional hmeet (ihy (h.left.right.later hafter hmeet hbefore))
      (ihn (h.right.later hafter hmeet hbefore))
  | closure params captures body _ =>
    rw [Code.rename, exec, exec, Activation.capture_rename]
    cases hcaptured : activation.capture captures with
    | error error => exact Outcome.renamed_error h.meet
    | ok captured =>
      -- a closure keeps its captures and the pool of the code around it
      have hvalues := h.values.of_subset (Activation.mem_values_of_capture hcaptured)
      have hconstants : Value.AllOf (twins.Has supply) activation.constants :=
        h.values.of_subset fun _ hvalue => List.mem_append_right _ hvalue
      have hparts : Value.AllOf (twins.Has supply)
          (Callable.compiled params body captured activation.constants).parts :=
        Value.AllOf.append.2 ⟨Value.AllOf.append.2 ⟨h.held, hvalues⟩, hconstants⟩
      have hfunction := Outcome.pairs_function stack h.meet hparts
      rwa [Callable.rename, Value.renameAll_eq_map, Value.renameAll_eq_map] at hfunction
  | invoke target args iht ih =>
    rw [Code.rename, exec, exec]
    refine (iht h.left).bind fun target after hafter _ _ hmeet hbefore htarget => ?_
    -- from here on both runs are where the target has left them
    have h := h.right.later hafter hmeet hbefore
    refine (execAll_rename ih h).bind fun values last hlast _ _ hmeet hbefore hvalues => ?_
    exact pairs_callValue calls (Nat.le_trans hlast h.room) hmeet
      (htarget.mono fun _ h => h.of_before hbefore) hvalues

variable (hhosts : hosts.Independent)

include hhosts

/-- **Walking a renamed tree** gives the renamed result, if calls do that leave no more room. -/
theorem eval_rename (calls : CallsRename hosts twins room) (expr : Expr Value) {env : Env Value}
    {stack : CallStack} {supply supply' : Supply}
    (h : twins.Ready room expr.parts env.values stack supply supply') :
    (eval hosts expr env stack supply).Pairs twins supply
      (eval hosts (expr.rename twins.shift) (Env.rename twins.shift env) stack supply') := by
  have hρ : twins.shift.Injective := Renaming.injective_shift twins.before
  induction expr generalizing stack supply supply' with
  | constant value =>
    rw [Expr.rename, eval, eval]
    refine Outcome.renamed_done h.meet rfl fun heq => ?_
    cases heq
    exact h.held value (List.mem_singleton_self value)
  | parameter param =>
    rw [Expr.rename, eval, eval]
    exact Outcome.renamed_done h.meet (Env.resolve_rename env param)
      fun hvalue => h.values _ (Env.mem_values_of_resolve hvalue)
  | new cls args ih =>
    rw [Expr.rename, eval, eval]
    exact (evalAll_rename ih h).bind fun values _ _ _ _ hmeet _ hvalues =>
      Outcome.pairs_instantiate hmeet hvalues
  | field target name ih =>
    rw [Expr.rename, eval, eval]
    exact (ih h).bind fun value _ _ _ _ hmeet _ hvalue =>
      Outcome.renamed_done hmeet (value.field_rename name) hvalue.of_field
  | unary op operand ih =>
    rw [Expr.rename, eval, eval]
    refine (ih h).bind fun value _ _ _ _ hmeet _ _ => ?_
    rw [op.apply_rename]
    exact Outcome.pairs_scalar hmeet fun _ hresult => (UnaryOp.apply_eq_ok hresult).2
  | binary op left right ihl ihr =>
    rw [Expr.rename, eval, eval]
    split
    · refine (ihl h.left).bind fun a after hafter _ _ hmeet hbefore _ => ?_
      exact Outcome.pairs_shortCircuit hmeet (ihr (h.right.later hafter hmeet hbefore))
    · exact Outcome.pairs_pair (op.apply_rename hρ) BinaryOp.isScalar_of_apply (ihl h.left)
        fun after _ _ hafter hmeet hbefore => ihr (h.right.later hafter hmeet hbefore)
  | conditional test yes no iht ihy ihn =>
    rw [Expr.rename, eval, eval]
    refine (iht h.left.left).bind fun value after hafter _ _ hmeet hbefore _ => ?_
    exact Outcome.pairs_conditional hmeet (ihy (h.left.right.later hafter hmeet hbefore))
      (ihn (h.right.later hafter hmeet hbefore))
  | lambda params body _ =>
    rw [Expr.rename, eval, eval]
    -- a closure keeps the whole environment
    have hparts : Value.AllOf (twins.Has supply) (Callable.interpreted params body env).parts :=
      Value.AllOf.append.2 ⟨h.held, h.values⟩
    have hfunction := Outcome.pairs_function stack h.meet hparts
    rwa [Callable.rename] at hfunction
  | invoke target args iht _ ih =>
    rw [Expr.rename, eval, eval]
    refine (iht h.left).bind fun target after hafter _ _ hmeet hbefore htarget => ?_
    have h := h.right.later hafter hmeet hbefore
    refine (evalAll_rename ih h).bind fun values last hlast _ _ hmeet hbefore hvalues => ?_
    exact pairs_callValue calls (Nat.le_trans hlast h.room) hmeet
      (htarget.mono fun _ h => h.of_before hbefore) hvalues
  | extension node operands reduction ih _ =>
    obtain ⟨hcaptured, hoperands⟩ := Value.AllOf.append.1 (h.held.of_subset fun _ hc =>
      Expr.subset_parts_extension node operands reduction hc)
    rw [Expr.rename, eval, eval]
    refine (evalAll_rename ih ⟨h.room, h.meet, hoperands, h.values⟩).bind
      fun values _ _ _ _ hmeet hbefore hvalues => ?_
    rw [ExtensionNode.host_rename]
    exact Outcome.pairs_host hhosts hmeet (Twins.allOf_of_before hcaptured hbefore) hvalues

/-- Calls do not depend on ids, as long as deeper calls do not. -/
theorem call_rename (deeper : ∀ room' < room, CallsRename hosts twins room') :
    CallsRename hosts twins room := by
  intro callable args stack supply supply' h
  have hinner : ∀ {inner : CallStack}, inner.room < stack.room → inner.room < room :=
    fun hinner => Nat.lt_of_lt_of_le hinner h.room
  cases callable with
  | interpreted params body env =>
    rw [Callable.rename, call, call, ← checkParameters_eq (Value.forall₂_alike_rename args)]
    split
    · exact Outcome.renamed_error h.meet
    · refine Outcome.renamed_during h.meet fun inner hroom => ?_
      have hvalues : Value.AllOf (twins.Has supply) (Env.values (Frame.bind params args :: env)) :=
        fun value hvalue => (Env.values_cons hvalue).elim (h.values value) (h.right.held value)
      have hbody := eval_rename hhosts (deeper inner.room (hinner hroom)) body
        ⟨Nat.le_refl _, h.meet, h.left.held, hvalues⟩
      -- the arguments are bound in the renamed environment
      rwa [Env.rename, Frame.rename_bind] at hbody
  | compiled params body captured constants =>
    rw [Callable.rename, call, call, ← checkParameters_eq (Value.forall₂_alike_rename args),
      Value.renameAll_eq_map, Value.renameAll_eq_map]
    split
    · exact Outcome.renamed_error h.meet
    · refine Outcome.renamed_during h.meet fun inner hroom => ?_
      have hvalues : Value.AllOf (twins.Has supply)
          (Activation.values ⟨args, captured, constants⟩) :=
        Value.AllOf.append.2 ⟨Value.AllOf.append.2 ⟨h.values, h.left.right.held⟩, h.right.held⟩
      exact exec_rename (deeper inner.room (hinner hroom)) body
        ⟨Nat.le_refl _, h.meet, h.left.left.held, hvalues⟩
  | native name arity host =>
    rw [Callable.rename, call, call, List.length_map]
    split
    · exact Outcome.renamed_error h.meet
    · exact Outcome.renamed_during h.meet fun inner _ =>
        Outcome.pairs_host hhosts h.meet h.held h.values

/-- **No call depends on ids**, however deep the calls in it are nested. -/
theorem callsRename (room : Nat) : CallsRename hosts twins room := by
  induction room using Nat.strongRecOn with
  | ind room ih => exact call_rename hhosts ih

end

end ExprTree
