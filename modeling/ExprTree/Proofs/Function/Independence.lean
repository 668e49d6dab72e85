import ExprTree.Function
import ExprTree.Proofs.Run.Renaming

namespace ExprTree

/-!
# Invocations do not depend on each other

What an invocation finds when it starts is the next id of each kind.  It makes no
other difference which ones these are: the results of two invocations are the same up
to the ids of what they made (`CompiledFn.invoke_independent`).  And an object in a
result is either one of those or, as it is, one that the function or the arguments held
(`CompiledFn.origin_of_invoke`).

The ids that one invocation gives out and those that another one gives out may
overlap, so that neither renaming is injective.  Both are compared with an invocation
that starts above both of them (`CompiledFn.invoke_of_before`).
-/

namespace CompiledFn

variable {hosts : Hosts} {fn : CompiledFn} {args : List Value} {supply supply' : Supply}

/-! ### Invocations that start one after the other -/

/-- Two invocations of one function run side by side, from what the function and the
    arguments hold. -/
theorem pairs_of_before (hhosts : hosts.Independent) (h : supply.Before supply')
    (hcovers : Value.AllOf supply.Covers (fn.callable.parts ++ args)) :
    (call hosts fn.callable args (.new fn.maxCallDepth) supply).Pairs
      ⟨supply, supply', h, fun part => ∃ origin ∈ fn.callable.parts ++ args, origin.Holds part⟩
      supply (call hosts fn.callable args (.new fn.maxCallDepth) supply') := by
  let twins : Twins := ⟨supply, supply', h, fun part =>
    ∃ origin ∈ fn.callable.parts ++ args, origin.Holds part⟩
  -- The ids of what was there before stay the same.
  have hself : ∀ value ∈ fn.callable.parts ++ args, value.rename twins.shift = value :=
    fun value hvalue => Value.rename_eq_self
      ((hcovers value hvalue).mono fun _ => Renaming.fixes_shift)
  have hheld : Value.AllOf (twins.Has supply) (fn.callable.parts ++ args) :=
    fun origin horigin part hpart =>
      ⟨.inr ⟨origin, horigin, hpart⟩, hcovers origin horigin part hpart⟩
  rw [List.forall_mem_append] at hself
  rw [Value.AllOf.append] at hheld
  have hcalls : CallsRename hosts twins (CallStack.new fn.maxCallDepth).room :=
    callsRename hhosts _
  have hcall := hcalls
    ⟨Nat.le_refl _, ⟨.refl supply, Renaming.carries_shift supply supply'⟩, hheld.1, hheld.2⟩
  rwa [Callable.rename_eq_self hself.1, map_eq_self hself.2] at hcall

/-- An invocation that starts later gives the same, but for the ids of what is made. -/
theorem invoke_of_before (hhosts : hosts.Independent) (h : supply.Before supply')
    (hcovers : Value.AllOf supply.Covers (fn.callable.parts ++ args)) :
    (fn.invoke hosts args supply').1
        = (fn.invoke hosts args supply).1.map (·.rename (.shift supply supply'))
      ∧ (Renaming.shift supply supply').Carries (fn.invoke hosts args supply).2
        (fn.invoke hosts args supply').2 :=
  have hcall := pairs_of_before hhosts h hcovers
  ⟨hcall.result, hcall.meet.carries⟩

/-- An invocation gives out ids in order, and what it returns holds nothing but what it
    made and what the function or an argument held. -/
theorem origin_of_invoke (hhosts : hosts.Independent)
    (hcovers : Value.AllOf supply.Covers (fn.callable.parts ++ args)) :
    supply.Before (fn.invoke hosts args supply).2
      ∧ ∀ value, (fn.invoke hosts args supply).1 = .ok value →
        value.All (Value.Originates supply (fn.invoke hosts args supply).2
          fun part => ∃ origin ∈ fn.callable.parts ++ args, origin.Holds part) :=
  have hcall := pairs_of_before hhosts (.refl supply) hcovers
  ⟨hcall.before, fun _ => hcall.origin⟩

end CompiledFn

/-! ### Any two invocations -/

/-- The later ids of both supplies. -/
def Supply.latest (supply supply' : Supply) : Supply :=
  { supply with
    nextObject := max supply.nextObject supply'.nextObject
    nextFunction := max supply.nextFunction supply'.nextFunction }

theorem Supply.before_latest_left (supply supply' : Supply) :
    supply.Before (supply.latest supply') :=
  ⟨Nat.le_max_left .., Nat.le_max_left ..⟩

theorem Supply.before_latest_right (supply supply' : Supply) :
    supply'.Before (supply.latest supply') :=
  ⟨Nat.le_max_right .., Nat.le_max_right ..⟩

/-- What has been moved once may be moved on. -/
theorem map_rename_shift {supply later : Supply} (h : supply.Before later) (last : Supply)
    (result : Except RuntimeError Value) :
    (result.map (·.rename (.shift supply later))).map (·.rename (.shift later last))
      = result.map (·.rename (.shift supply last)) := by
  cases result with
  | error error => rfl
  | ok value =>
    have hvalue : (value.rename (.shift supply later)).rename (.shift later last)
        = value.rename (.shift supply last) := by
      rw [Value.rename_rename, Renaming.shift_comp h]
    exact congrArg Except.ok hvalue

/-- Nothing moves if both supplies are the same. -/
theorem map_rename_shift_self (supply : Supply) (result : Except RuntimeError Value) :
    result.map (·.rename (.shift supply supply)) = result := by
  cases result with
  | error error => rfl
  | ok value => exact congrArg Except.ok (Renaming.rename_shift_self value)

/-- **Invocations are independent of one another.**  Started with any two supplies that
    have given out the ids of all that the function and the arguments hold, they give
    the same error, or results that are the same when the ids of the one are moved to
    those of the other, and make as many objects.  A reference in a result is one that
    the function or an argument holds, or has an id from the supply.

    Of the functions of the host the same is assumed: they may take ids and keep what they
    captured, but must not tell the two invocations apart (`Hosts.Independent`). -/
theorem CompiledFn.invoke_independent {hosts : Hosts} (hhosts : hosts.Independent)
    {fn : CompiledFn} {args : List Value} {supply supply' : Supply}
    (hcovers : Value.AllOf supply.Covers (fn.callable.parts ++ args))
    (hcovers' : Value.AllOf supply'.Covers (fn.callable.parts ++ args)) :
    (fn.invoke hosts args supply').1
        = (fn.invoke hosts args supply).1.map (·.rename (.shift supply supply'))
      ∧ (∃ made, (fn.invoke hosts args supply).2.nextObject = supply.nextObject + made
        ∧ (fn.invoke hosts args supply').2.nextObject = supply'.nextObject + made)
      ∧ ∀ value, (fn.invoke hosts args supply).1 = .ok value → ∀ part, value.Holds part →
        supply.Gives part ∨ ∃ origin ∈ fn.callable.parts ++ args, origin.Holds part := by
  obtain ⟨hbefore, horigin⟩ := origin_of_invoke hhosts hcovers
  obtain ⟨hbefore', _⟩ := origin_of_invoke hhosts hcovers'
  -- Both invocations are compared with one that starts above both.
  have hleft := supply.before_latest_left supply'
  have hright := supply.before_latest_right supply'
  obtain ⟨hresult, hcarries⟩ := invoke_of_before hhosts hleft hcovers
  obtain ⟨hresult', hcarries'⟩ := invoke_of_before hhosts hright hcovers'
  refine ⟨?_, ⟨_, (Nat.add_sub_of_le hbefore.object).symm, ?_⟩,
    fun value hvalue part hpart => (horigin value hvalue part hpart).origin⟩
  · calc (fn.invoke hosts args supply').1
        = ((fn.invoke hosts args supply').1.map
            (·.rename (.shift supply' (supply.latest supply')))).map
            (·.rename (.shift (supply.latest supply') supply')) := by
          rw [map_rename_shift hright, map_rename_shift_self]
      _ = (fn.invoke hosts args supply).1.map (·.rename (.shift supply supply')) := by
          rw [← hresult', hresult, map_rename_shift hleft]
  · have hmade := hcarries.made hbefore.object
    have hmade' := hcarries'.made hbefore'.object
    have hle' := hbefore'.object
    omega

/-! ### A host that makes objects -/

/-- A class of objects that hold one value. -/
def box : ClassDef := ⟨1, "Box", [⟨"content", .any⟩]⟩

/-- A host whose functions put what they captured into a new box. -/
def Hosts.packing : Hosts := fun host _ supply => box.instantiate host.captured supply

/-- Each call of it makes an object, around what was there when the function was made. -/
theorem Hosts.packing_independent : packing.Independent where
  renames {start start' supply supply'} host args _ _ hcarries _ := by
    show (box.instantiate (host.rename _).captured supply').1 = (box.instantiate _ supply).1.map _
      ∧ Renaming.Carries _ (box.instantiate _ supply).2 (box.instantiate _ supply').2
    rw [HostFunction.captured_rename, ClassOver.instantiate, ClassOver.instantiate,
      ← checkArguments_eq (Value.forall₂_alike_rename host.captured)]
    -- whether the box takes what is put into it depends on its type only
    split
    · exact ⟨rfl, hcarries⟩
    · obtain ⟨hobject, hcarries⟩ := hcarries.new_object box host.captured
      exact ⟨congrArg Except.ok hobject, hcarries⟩
  before {supply host args} _ := by
    show supply.Before (box.instantiate host.captured supply).2
    rw [ClassOver.instantiate]
    split
    · exact .refl supply
    · exact .new_object supply box host.captured
  origin {supply host args value} _ hvalue := by
    have hvalue : (box.instantiate host.captured supply).1 = .ok value := hvalue
    show value.All fun part => (supply.Gives part ∧ (box.instantiate host.captured supply).2.Covers
      part) ∨ ∃ origin ∈ host.captured ++ args, origin.Holds part
    rw [ClassOver.instantiate] at hvalue ⊢
    split at hvalue
    · cases hvalue
    · cases hvalue
      refine Value.all_iff.2 ⟨.inl ⟨Nat.le_refl _, Nat.lt_succ_self _⟩, fun origin horigin => ?_⟩
      exact fun part hpart => .inr ⟨origin, List.mem_append_left _ horigin, hpart⟩

/-- What holds of a box and of the scalar in it holds of all that the box holds. -/
theorem all_box {φ : Value → Prop} {id : Nat} (content : Value)
    (hscalar : content.isScalar = true) (hbox : φ (.object id box [content]))
    (hcontent : φ content) :
    Value.All φ (.object id box [content]) := by
  refine Value.all_iff.2 ⟨hbox, fun part hpart => ?_⟩
  cases List.mem_singleton.1 hpart
  exact Value.all_of_parts_eq_nil (Value.parts_of_isScalar hscalar) hcontent

namespace Lambda

/-- A lambda that asks the host for a box around a box that was there before. -/
def pack : Lambda Value :=
  ⟨[], .extension ⟨"pack", .object box, ⟨"pack", [.object 1 box [.none]]⟩⟩ [] none⟩

/-- An invocation makes one box, with the next id, around the one that was captured. -/
theorem pack_invoke (supply : Supply) :
    ((pack.interpret {}).invoke Hosts.packing [] supply).1
      = .ok (.object supply.nextObject box [.object 1 box [.none]]) := by
  simp [CompiledFn.invoke, interpret, pack, Hosts.packing, box, call, checkParameters,
    firstMisfit?, Ty.accepts, CallStack.during, CallStack.enter, CallStack.new,
    CallStack.defaultLimit, eval, evalAll, Outcome.bind, Outcome.done, ClassOver.instantiate,
    ClassOver.checkArguments, ClassOver.arity, Supply.object]

/-- The host makes a box in each invocation, and both put the same one into it. -/
theorem invoke_independent_pack :
    pack.compile {} = .ok (pack.interpret {})
      ∧ ((pack.interpret {}).invoke Hosts.packing [] { nextObject := 2 }).1
        = .ok (.object 2 box [.object 1 box [.none]])
      ∧ ((pack.interpret {}).invoke Hosts.packing [] { nextObject := 7 }).1
        = .ok ((Value.object 2 box [.object 1 box [.none]]).rename
          (.shift { nextObject := 2 } { nextObject := 7 })) := by
  -- the box that was captured has the first id
  have hcovers : ∀ supply : Supply, 1 < supply.nextObject →
      Value.AllOf supply.Covers ((pack.interpret {}).callable.parts ++ []) :=
    fun _ hid => List.forall_mem_singleton.2 (all_box .none rfl hid trivial)
  have hearlier : 1 < 2 ∧ 1 < 7 := by decide
  have hresult := pack_invoke { nextObject := 2 }
  refine ⟨rfl, hresult, ?_⟩
  rw [(CompiledFn.invoke_independent Hosts.packing_independent (hcovers { nextObject := 2 }
    hearlier.1) (hcovers { nextObject := 7 } hearlier.2)).1, hresult]
  rfl

end Lambda

/-! ### A host that looks at ids -/

/-- A host whose functions tell whether the id of an object is even. -/
def Hosts.telling : Hosts := fun _ args supply =>
  match args with
  | [.object id _ _] => (.ok (.bool (id % 2 == 0)), supply)
  | _ => (.error (.host "no object"), supply)

/-- A lambda that makes an object and asks the host about it. -/
def Lambda.tell : Lambda Value :=
  ⟨[], .extension ⟨"tell", .bool, "tell"⟩ [.new box [.constant .none]] none⟩

/-- What the host tells is whether the id of the new object is even. -/
theorem Lambda.tell_invoke (supply : Supply) :
    ((tell.interpret {}).invoke Hosts.telling [] supply).1
      = .ok (.bool (supply.nextObject % 2 == 0)) := by
  simp [CompiledFn.invoke, interpret, tell, Hosts.telling, box, call, checkParameters,
    firstMisfit?, Ty.accepts, CallStack.during, CallStack.enter, CallStack.new,
    CallStack.defaultLimit, eval, evalAll, Outcome.bind, Outcome.done, ClassOver.instantiate,
    ClassOver.checkArguments, ClassOver.arity, Supply.object]

/-- It is not enough that a function of the host does the same on the very same arguments,
    whichever ids are next: one that looks at the ids of its arguments does, and it tells
    invocations apart when it is called on what they made. -/
theorem Hosts.not_independent_of_telling :
    (∀ host args supply supply', (telling host args supply').1 = (telling host args supply).1
        ∧ (telling host args supply).2 = supply)
      ∧ ¬ telling.Independent := by
  refine ⟨fun host args supply supply' => ?_, fun hhosts => ?_⟩
  · unfold telling
    split <;> exact ⟨rfl, rfl⟩
  · have hcovers : Value.AllOf (Supply.Covers { nextObject := 1 })
        ((Lambda.tell.interpret {}).callable.parts ++ []) :=
      List.forall_mem_singleton.2 (Value.all_of_parts_eq_nil rfl trivial)
    have hlater : Supply.Before { nextObject := 1 } { nextObject := 2 } := ⟨by decide, by decide⟩
    have hresult := (CompiledFn.invoke_of_before hhosts hlater hcovers).1
    rw [Lambda.tell_invoke, Lambda.tell_invoke] at hresult
    cases hresult

end ExprTree
