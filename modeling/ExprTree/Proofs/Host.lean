import ExprTree.Host
import ExprTree.Proofs.Run.InPlay
import ExprTree.Proofs.Run.Renaming
import ExprTree.Proofs.Run.Simulation

namespace ExprTree

/-!
# The standard host

What evaluation asks of a host holds of the standard one: it gives sound values
(`Hosts.standard_sound`), makes no references (`Hosts.standard_builds`), gives
corresponding results on corresponding arguments (`Hosts.standard_respects`), and
does not tell invocations apart (`Hosts.standard_independent`).  All of it follows from
what its results look like: they are scalars or one of the arguments
(`Hosts.mem_of_answer`).
-/

namespace Hosts

/-- A sum is a number. -/
theorem isScalar_of_sumFrom {total : Number} {args : List Value} {value : Value}
    (h : sumFrom total args = .ok value) : value.isScalar = true := by
  induction args generalizing total with
  | nil =>
    cases h
    rfl
  | cons arg rest ih =>
    cases arg with
    | number n => exact ih h
    | _ => cases h

/-- An answer of the standard host is a scalar or one of the arguments. -/
theorem mem_of_answer {name : String} {args : List Value} {value : Value}
    (h : answer name args = .ok value) : value.isScalar = true ∨ value ∈ args := by
  unfold answer at h
  split at h
  · exact .inl (isScalar_of_sumFrom h)
  · -- the first argument is passed on as it is
    cases args with
    | nil =>
      cases h
      exact .inl rfl
    | cons arg rest =>
      cases h
      exact .inr (List.mem_cons_self ..)
  · cases h
    exact .inl rfl
  · cases h

/-- A property of all scalars and of everything in the arguments is one of everything in an
    answer of the standard host. -/
theorem all_of_answer {P : Value → Prop} {name : String} {args : List Value} {value : Value}
    (h : answer name args = .ok value) (hscalar : ∀ value : Value, value.isScalar = true → P value)
    (hargs : ∀ arg ∈ args, ∀ part, arg.Holds part → P part) : value.All P := by
  rcases mem_of_answer h with hvalue | hmem
  · exact Value.all_of_parts_eq_nil (Value.parts_of_isScalar hvalue) (hscalar value hvalue)
  · exact hargs value hmem

/-- What the standard host gives is as sound as its arguments. -/
theorem standard_sound : standard.Sound := fun _ _ _ _ _ hargs h =>
  all_of_answer h (fun _ => Value.fits_of_isScalar) hargs

/-- The standard host passes on what it finds and makes nothing of its own. -/
theorem standard_builds (known : Value → Prop) : standard.Builds known := by
  refine fun host args supply => ⟨host.Finds known args, .nothing, fun value h => ?_⟩
  exact all_of_answer h (fun _ => .inl) fun arg harg part hpart =>
    .inr (.inr ⟨arg, List.mem_append_right _ harg, hpart⟩)

/-- What is no scalar is no number to add. -/
theorem sumFrom_of_not_isScalar {value : Value} (h : value.isScalar = false) (total : Number)
    (rest : List Value) :
    sumFrom total (value :: rest) = .error (.host ("sum got " ++ value.typeName)) := by
  cases value with
  | object | function => rfl
  | _ => cases h

/-- Sums of arguments alike are the same, and fail on the same argument. -/
theorem sumFrom_eq {args args' : List Value} (h : List.Forall₂ Value.Alike args args')
    (total : Number) : sumFrom total args = sumFrom total args' := by
  induction h generalizing total with
  | nil => rfl
  | @cons arg arg' rest rest' hhead _ ih =>
    cases hscalar : arg.isScalar with
    | true =>
      rw [hhead.eq_of_isScalar hscalar]
      cases arg with
      | number n => exact ih _
      | _ => rfl
    | false =>
      rw [sumFrom_of_not_isScalar hscalar, sumFrom_of_not_isScalar (hhead.isScalar_eq ▸ hscalar),
        hhead.typeName_eq]

/-- Corresponding arguments get corresponding answers, under any matching of functions: a
    sum and a number of arguments do not depend on it, and an argument that is passed on
    corresponds to its counterpart. -/
theorem standard_respects (ρ : Nat → Nat → Prop) (start : Nat) : standard.Respects ρ start := by
  intro host args args' supply hstart hargs _ _ _
  refine ⟨?_, rfl, hstart⟩
  show ResultsAgree _ (answer host.name args) (answer host.name args')
  unfold answer
  split
  · rw [← sumFrom_eq (hargs.imp fun _ _ => Value.Corresponds.alike)]
    exact .of_eq fun _ hvalue => .scalar (isScalar_of_sumFrom hvalue)
  · cases hargs with
    | nil => exact .ok (.scalar rfl)
    | cons hhead _ => exact .ok hhead
  · rw [hargs.length_eq]
    exact .ok (.scalar rfl)
  · exact .error

/-- The standard host does not look at ids. -/
theorem answer_rename (ρ : Renaming) (name : String) (args : List Value) :
    answer name (args.map (·.rename ρ)) = (answer name args).map (·.rename ρ) := by
  unfold answer
  split
  · rw [← sumFrom_eq (Value.forall₂_alike_rename args),
      map_rename_of_isScalar fun _ h => isScalar_of_sumFrom h]
  · cases args <;> rfl
  · rw [List.length_map]
    rfl
  · rfl

/-- The standard host takes no ids and does not look at those of its arguments. -/
theorem standard_independent : standard.Independent where
  renames {start start'} _ _ host args _ _ hcarries _ := by
    refine ⟨?_, hcarries⟩
    show answer (host.rename _).name _ = (answer host.name args).map _
    rw [HostFunction.name_rename, answer_rename]
  before _ := .refl _
  origin _ h := all_of_answer h
    (fun _ hvalue => .inl ⟨Supply.gives_of_isScalar hvalue, Supply.covers_of_isScalar hvalue⟩)
    fun arg harg _ hpart => .inr ⟨arg, List.mem_append_right _ harg, hpart⟩

end Hosts

end ExprTree
