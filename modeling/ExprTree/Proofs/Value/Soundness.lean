import ExprTree.Proofs.Code.Translation
import ExprTree.Proofs.Value.Operations

namespace ExprTree

/-!
# Sound values

What compilation and evaluation rely on in the values they are given:

* `Callable.Denotes` — which lambda a function runs, and what it knows of the
  parameters that it does not declare.  Closures of the two strategies that
  denote the same lambda are two forms of one function;
* `Value.Sound` — objects have one value that fits for each field of their class,
  and functions denote something, at any depth;
* `Activation.Fits` — the tables of a call agree with the scope of its code.
-/

/-- What a parameter stands for while a tree is evaluated. -/
abbrev Valuation := Parameter → Option Value

namespace Valuation

/-- Every parameter stands for a value of its type. -/
def Typed (val : Valuation) : Prop :=
  ∀ param value, val param = some value → param.ty.accepts value = true

/-- The valuation inside a call.  Of a parameter that is declared twice the later
    argument counts. -/
def bind (val : Valuation) (params : List Parameter) (args : List Value) : Valuation :=
  fun param =>
    match lastIndexOf? param params with
    | some index => args[index]?
    | none => val param

/-- The values that a closure captured, by the parameters they belong to. -/
def captured (params : List Parameter) (values : List Value) : Valuation :=
  bind (fun _ => none) params values

/-- Values that fit their parameters make a typed valuation. -/
theorem Typed.bind {val : Valuation} (hval : val.Typed) {params : List Parameter}
    {args : List Value}
    (h : List.Forall₂ (fun (param : Parameter) value => param.ty.accepts value = true)
      params args) :
    (val.bind params args).Typed := by
  intro param value hvalue
  unfold Valuation.bind at hvalue
  split at hvalue
  · rename_i index hindex
    obtain ⟨_, hparam⟩ := List.getElem?_eq_some_iff.1 (getElem?_of_lastIndexOf? hindex)
    obtain ⟨_, rfl⟩ := List.getElem?_eq_some_iff.1 hvalue
    rw [← hparam]
    exact h.get _ _
  · exact hval param value hvalue

/-- Captured values are typed if each is accepted where it is captured. -/
theorem Typed.captured {params : List Parameter} {values : List Value}
    (h : List.Forall₂ (fun (param : Parameter) value => param.ty.accepts value = true)
      params values) :
    (captured params values).Typed :=
  Typed.bind (fun _ _ hnone => by cases hnone) h

/-- What a captured parameter stands for is one of the captured values. -/
theorem mem_of_captured {params : List Parameter} {values : List Value} {param : Parameter}
    {value : Value} (h : captured params values param = some value) : value ∈ values := by
  unfold captured bind at h
  split at h
  · exact List.mem_of_getElem? h
  · cases h

/-- A captured parameter keeps the value that it had where the closure was created. -/
theorem captured_of_mem {val : Valuation} {params : List Parameter} {values : List Value}
    (h : List.Forall₂ (fun param value => val param = some value) params values)
    {param : Parameter} (hparam : param ∈ params) :
    captured params values param = val param := by
  unfold captured bind
  split
  · rename_i index hindex
    obtain ⟨hlt, hget⟩ := List.getElem?_eq_some_iff.1 (getElem?_of_lastIndexOf? hindex)
    have hvalue := h.get hlt (h.length_eq ▸ hlt)
    rw [List.get_eq_getElem, hget] at hvalue
    rw [hvalue]
    exact List.getElem?_eq_getElem _
  · rename_i hnone
    exact absurd hparam (lastIndexOf?_eq_none.1 hnone)

end Valuation

/-! ### Environments -/

namespace Env

/-- What is looked up is a value of the environment. -/
theorem lookup?_mem_values {env : Env Value} {param : Parameter} {value : Value}
    (h : env.lookup? param = some value) : value ∈ env.values := by
  induction env with
  | nil => cases h
  | cons frame outer ih =>
    rw [values, List.flatMap_cons, List.mem_append]
    rw [lookup?, Option.orElse_eq_orElse, Option.orElse_eq_or, Option.or_eq_some_iff] at h
    rcases h with h | ⟨_, h⟩
    · left
      rw [Frame.lookup?, Option.map_eq_some_iff] at h
      obtain ⟨binding, hfind, rfl⟩ := h
      exact List.mem_map_of_mem (List.mem_of_find?_eq_some hfind)
    · exact .inr (ih h)

/-- What a parameter stands for is bound in the environment. -/
theorem mem_values_of_resolve {env : Env Value} {param : Parameter} {value : Value}
    (h : env.resolve param = .ok value) : value ∈ env.values := by
  unfold resolve at h
  split at h
  · rename_i found hfound
    cases h
    exact lookup?_mem_values hfound
  · cases h

/-- A call adds its arguments to the values of the environment, and nothing else. -/
theorem values_cons {params : List Parameter} {args : List Value} {env : Env Value}
    {value : Value} (h : value ∈ Env.values (Frame.bind params args :: env)) :
    value ∈ args ∨ value ∈ env.values := by
  rw [values, List.flatMap_cons, List.mem_append, Frame.bind, List.map_reverse,
    List.mem_reverse, List.mem_map] at h
  rcases h with ⟨binding, hbinding, rfl⟩ | h
  · exact .inl (List.of_mem_zip hbinding).2
  · exact .inr h

end Env

/-- A call finds the last of its arguments for a parameter. -/
theorem Frame.lookup?_bind {params : List Parameter} {args : List Value}
    (hlength : params.length = args.length) (param : Parameter) :
    (Frame.bind params args).lookup? param
      = (lastIndexOf? param params).bind fun index => args[index]? := by
  induction params generalizing args with
  | nil => rfl
  | cons head params ih =>
    cases args with
    | nil => cases hlength
    | cons arg args =>
      have hlength : params.length = args.length := Nat.succ.inj hlength
      have ih := ih hlength
      rw [lookup?, bind] at ih ⊢
      rw [List.zip_cons_cons, List.reverse_cons, List.find?_append, Option.map_or, ih, lastIndexOf?]
      -- of two parameters that are the same the later one counts, so the first is looked at last
      cases hindex : lastIndexOf? param params with
      | some index =>
        have hparam := getElem?_of_lastIndexOf? hindex
        have : index < args.length := by
          rw [← hlength]
          exact (List.getElem?_eq_some_iff.1 hparam).1
        simp [this]
      | none =>
        by_cases hhead : head = param
        · simp [hhead]
        · simp [hhead]

/-- The environment of a call gives its arguments to the parameters. -/
theorem Env.lookup?_bind {params : List Parameter} {args : List Value} {env : Env Value}
    (hlength : params.length = args.length) :
    Env.lookup? (Frame.bind params args :: env)
      = Valuation.bind env.lookup? params args := by
  funext param
  rw [lookup?, Frame.lookup?_bind hlength, Valuation.bind]
  cases hindex : lastIndexOf? param params with
  | none => rfl
  | some index =>
    have hparam := getElem?_of_lastIndexOf? hindex
    have : index < args.length := by
      rw [← hlength]
      exact (List.getElem?_eq_some_iff.1 hparam).1
    simp [this]

/-! ### Functions and values -/

/-- The lambda that a function runs, and the values of the parameters that are free in it. -/
inductive Callable.Denotes : Callable Value → Lambda Value → Valuation → Prop
  | interpreted {params : List Parameter} {body : Expr Value} {env : Env Value} :
      Valuation.Typed env.lookup? →
      Denotes (.interpreted params body env) ⟨params, body⟩ env.lookup?
  | compiled {params : List Parameter} {captures : List (Parameter × Capture)}
      {body : Expr Value} {code : Code Value} {ty : Ty} {captured constants : List Value} :
      Translates constants ⟨params, captures⟩ body code ty →
      List.Forall₂ (fun (param : Parameter) value => param.ty.accepts value = true)
        (captures.map (·.1)) captured →
      Denotes (.compiled params code captured constants) ⟨params, body⟩
        (Valuation.captured (captures.map (·.1)) captured)

/-- A lambda that knows nothing from outside. -/
theorem Callable.denotes_interpreted (params : List Parameter) (body : Expr Value) :
    Denotes (.interpreted params body []) ⟨params, body⟩ (Env.lookup? []) :=
  .interpreted fun _ _ hnone => by cases hnone

namespace Callable.Denotes

variable {callable : Callable Value} {lambda : Lambda Value} {val : Valuation}

/-- What a function knows of a parameter is one of its parts. -/
theorem mem_parts (h : callable.Denotes lambda val) {param : Parameter} {value : Value}
    (hvalue : val param = some value) : value ∈ callable.parts := by
  cases h with
  | interpreted _ =>
    rw [Callable.parts, List.mem_append]
    exact .inr (Env.lookup?_mem_values hvalue)
  | compiled _ _ =>
    rw [Callable.parts, List.mem_append, List.mem_append]
    exact .inl (.inr (Valuation.mem_of_captured hvalue))

/-- A function and the lambda that it runs take the same number of arguments. -/
theorem arity_eq (h : callable.Denotes lambda val) : callable.arity = lambda.arity := by
  cases h <;> rfl

end Callable.Denotes

/-- A function of the host, or one that runs a lambda. -/
def Callable.Fits (callable : Callable Value) : Prop :=
  (∃ name arity host, callable = .native name arity host)
    ∨ ∃ lambda val, callable.Denotes lambda val

namespace Value

/-- What holds of a value by itself: an object has one value that fits for each
    field, and a function denotes something. -/
def Fits : Value → Prop
  | object _ cls fields =>
    List.Forall₂ (fun (field : Field) value => field.ty.accepts value = true) cls.fields fields
  | function _ callable => callable.Fits
  | _ => True

/-- A value fits with everything that it holds. -/
def Sound (value : Value) : Prop := value.All Fits

theorem fits_of_isScalar {value : Value} (h : value.isScalar = true) : value.Fits := by
  cases value <;> trivial

/-- A value that is read from a field of the expected class fits the field. -/
theorem Fits.accepts_field {cls : ClassDef} {target value : Value} {name : String} {index : Nat}
    {field : Field} (h : target.Fits) (htarget : (Ty.object cls).accepts target = true)
    (hfield : cls.field? name = some (index, field)) (hvalue : target.field name = .ok value) :
    field.ty.accepts value = true := by
  obtain ⟨_, _, _, index', rfl, hindex, hget⟩ := field_eq_ok.1 hvalue
  rw [Ty.accepts, beq_iff_eq] at htarget
  subst htarget
  obtain ⟨hindex', hget'⟩ := ClassOver.field?_eq_some.1 hfield
  rw [hindex'] at hindex
  cases hindex
  obtain ⟨_, rfl⟩ := List.getElem?_eq_some_iff.1 hget
  obtain ⟨_, rfl⟩ := List.getElem?_eq_some_iff.1 hget'
  exact List.Forall₂.get h _ _

theorem sound_of_isScalar {value : Value} (h : value.isScalar = true) : value.Sound :=
  all_of_parts_eq_nil (parts_of_isScalar h) (fits_of_isScalar h)

end Value

/-! ### Activations -/

namespace Activation

/-- The tables of a call have a value that fits for everything the scope of its
    code gives a slot. -/
structure Fits (activation : Activation) (scope : Scope) : Prop where
  args : List.Forall₂ (fun (param : Parameter) value => param.ty.accepts value = true)
    scope.params activation.args
  captured : List.Forall₂ (fun (param : Parameter) value => param.ty.accepts value = true)
    (scope.captures.map (·.1)) activation.captured

/-- The values that an activation can read. -/
def values (activation : Activation) : List Value :=
  activation.args ++ activation.captured ++ activation.constants

/-- What the parameters of a scope stand for in a call. -/
def valuation (activation : Activation) (scope : Scope) : Valuation :=
  (Valuation.captured (scope.captures.map (·.1)) activation.captured).bind scope.params
    activation.args

variable {activation : Activation} {scope : Scope}

/-- The tables of a call give typed values to the parameters. -/
theorem Fits.typed (h : activation.Fits scope) : (activation.valuation scope).Typed :=
  .bind (.captured h.captured) h.args

theorem entry_eq_ok {table : List Value} {index : Nat} {value : Value} :
    entry table index = .ok value ↔ table[index]? = some value := by
  unfold entry
  split <;> simp_all

/-- Every slot of the scope can be read, and holds the value of its parameter. -/
theorem Fits.read (h : activation.Fits scope) {param : Parameter} {slot : Slot}
    (hslot : scope.resolve? param = some slot) :
    ∃ value, activation.read slot = .ok value
      ∧ activation.valuation scope param = some value := by
  have present : ∀ {params : List Parameter} {values : List Value} {index : Nat},
      List.Forall₂ (fun (param : Parameter) value => param.ty.accepts value = true)
        params values → lastIndexOf? param params = some index →
      ∃ value, values[index]? = some value := by
    intro params values index htyped hindex
    have hlt := (List.getElem?_eq_some_iff.1 (getElem?_of_lastIndexOf? hindex)).1
    exact ⟨_, List.getElem?_eq_getElem (htyped.length_eq ▸ hlt)⟩
  unfold Scope.resolve? at hslot
  split at hslot
  · rename_i index hindex
    cases hslot
    obtain ⟨value, hvalue⟩ := present h.args hindex
    refine ⟨value, entry_eq_ok.2 hvalue, ?_⟩
    simp only [valuation, Valuation.bind, hindex, hvalue]
  · -- a parameter that is not the lambda's own is a captured one
    rename_i hparams
    obtain ⟨index, hindex, rfl⟩ := Option.map_eq_some_iff.1 hslot
    obtain ⟨value, hvalue⟩ := present h.captured hindex
    refine ⟨value, entry_eq_ok.2 hvalue, ?_⟩
    simp only [valuation, Valuation.captured, Valuation.bind, hparams, hindex, hvalue]

/-- What a parameter stands for is one of the values of the activation. -/
theorem mem_of_valuation {param : Parameter} {value : Value}
    (h : activation.valuation scope param = some value) : value ∈ activation.values := by
  unfold valuation Valuation.bind at h
  rw [values, List.mem_append, List.mem_append]
  split at h
  · exact .inl (.inl (List.mem_of_getElem? h))
  · exact .inl (.inr (Valuation.mem_of_captured h))

end Activation

/-! ### Closures -/

/-- A closure that is created in a call takes along the values that the
    parameters it captures have there. -/
theorem Scope.Nests.capture {parent inner : Scope} {lambda : Lambda Value}
    (hnests : parent.Nests lambda inner) {activation : Activation}
    (hfits : activation.Fits parent) :
    ∃ captured, activation.capture inner.captureList = .ok captured
      ∧ List.Forall₂ (fun param value => activation.valuation parent param = some value)
          (inner.captures.map (·.1)) captured := by
  have hsource := hnests.source
  rw [captureList]
  generalize inner.captures = captures at hsource ⊢
  induction captures with
  | nil => exact ⟨[], rfl, .nil⟩
  | cons capture rest ih =>
    -- each captured parameter has its source in the scope around
    obtain ⟨value, hread, hvalue⟩ := hfits.read (hsource capture (List.mem_cons_self ..))
    obtain ⟨values, hvalues, hrest⟩ := ih fun c hc => hsource c (List.mem_cons_of_mem _ hc)
    refine ⟨value :: values, ?_, .cons hvalue hrest⟩
    rw [List.map_cons, Activation.capture, hread, hvalues]
    rfl

/-- What is captured is read from the activation. -/
theorem Activation.mem_of_captured {activation : Activation} {scope : Scope}
    {params : List Parameter} {captured : List Value}
    (h : List.Forall₂ (fun param value => activation.valuation scope param = some value)
      params captured) :
    ∀ value ∈ captured, value ∈ activation.values := by
  induction h with
  | nil => simp
  | cons hvalue _ ih => simpa using ⟨mem_of_valuation hvalue, ih⟩

/-- A closure over the code of a lambda denotes that lambda. -/
theorem Scope.Nests.denotes {parent inner : Scope} {lambda : Lambda Value}
    (hnests : parent.Nests lambda inner) {code : Code Value} {ty : Ty}
    {captured constants : List Value} (hbody : Translates constants inner lambda.body code ty)
    (hcaptured : List.Forall₂ (fun (param : Parameter) value => param.ty.accepts value = true)
      (inner.captures.map (·.1)) captured) :
    Callable.Denotes (.compiled lambda.params code captured constants) lambda
      (Valuation.captured (inner.captures.map (·.1)) captured) := by
  obtain ⟨params, captures⟩ := inner
  obtain ⟨rfl, _, _⟩ := hnests
  exact .compiled hbody hcaptured

end ExprTree
