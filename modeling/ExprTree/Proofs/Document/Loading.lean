import ExprTree.Document.Loader

namespace ExprTree

/-!
# Loading step by step

Much of what can be wrong with a document shows in its names and literals alone, and the
faults of any part of a document can be listed in the order in which loading comes upon
them.

* `Loading.outcome` — what a step of loading comes to;
* `Loading.Meets` — the step succeeds if a list of faults is empty, and otherwise fails with
  the first one.  `Loading.Meets.bind` takes two steps one after the other, and the faults of
  the second behind those of the first.
-/

namespace Document

/-- A fault where something does not hold. -/
def faultUnless (p : Prop) [Decidable p] (fault : DocumentError) : List DocumentError :=
  if p then [] else [fault]

theorem faultUnless_eq_nil {p : Prop} [Decidable p] {fault : DocumentError} :
    faultUnless p fault = [] ↔ p := by
  unfold faultUnless
  split <;> simp_all

namespace Loading

variable {α β : Type} {supply after : Supply}

/-- What a step of loading comes to, and what is left of the supply. -/
def outcome (step : Loading α) (supply : Supply) : Except Error α × Supply := step.run supply

theorem outcome_fresh (take : Supply → α × Supply) :
    (fresh take).outcome supply = (.ok (take supply).1, (take supply).2) := rfl

/-- The second step starts with the supply that the first one left, unless that failed. -/
theorem outcome_bind (step : Loading α) (next : α → Loading β) :
    (step >>= next).outcome supply = match step.outcome supply with
      | (.ok a, after) => (next a).outcome after
      | (.error error, after) => (.error error, after) := by
  have hsteps : (step >>= next).outcome supply
      = ExceptT.bindCont next (step.outcome supply).1 (step.outcome supply).2 := rfl
  rw [hsteps]
  rcases step.outcome supply with ⟨_ | _, _⟩ <;> rfl

/-! ### Faults in order -/

/-- A step succeeds, with a result as it should be, if there is no fault, and otherwise fails
    with the first one. -/
def Meets (step : Loading α) (supply : Supply) (faults : List DocumentError)
    (post : α → Supply → Prop) : Prop :=
  match step.outcome supply with
  | (.ok a, after) => faults = [] ∧ post a after
  | (.error error, _) => ∃ fault rest, faults = fault :: rest ∧ error = .document fault

variable {faults others : List DocumentError} {post : α → Supply → Prop}
  {final : β → Supply → Prop}

theorem meets_pure {a : α} (h : post a supply) : (pure a : Loading α).Meets supply [] post :=
  ⟨rfl, h⟩

theorem meets_throw (fault : DocumentError) :
    (throw (.document fault) : Loading α).Meets supply [fault] post :=
  ⟨fault, [], rfl, rfl⟩

/-- What is looked up is found unless there is a fault. -/
theorem meets_found {p : Prop} [Decidable p] {a? : Option α} (h : a?.isSome = true ↔ p)
    (fault : DocumentError) :
    (found fault a?).Meets supply (faultUnless p fault)
      fun a after => a? = some a ∧ supply = after := by
  cases a? with
  | none =>
    rw [faultUnless, if_neg fun hp => Bool.false_ne_true (h.2 hp)]
    exact meets_throw fault
  | some a =>
    rw [faultUnless, if_pos (h.1 rfl)]
    exact meets_pure ⟨rfl, rfl⟩

theorem meets_fresh (take : Supply → α × Supply) :
    (fresh take).Meets supply [] fun a after => take supply = (a, after) :=
  ⟨rfl, rfl⟩

/-- The faults of two steps stand one after the other. -/
theorem Meets.bind {step : Loading α} {next : α → Loading β} (h : step.Meets supply faults post)
    (hnext : ∀ a after, post a after → (next a).Meets after others final) :
    (step >>= next).Meets supply (faults ++ others) final := by
  unfold Meets at h ⊢
  rw [outcome_bind]
  revert h
  rcases step.outcome supply with ⟨error | a, after⟩ <;> intro h
  · obtain ⟨fault, rest, rfl, rfl⟩ := h
    exact ⟨fault, rest ++ others, rfl, rfl⟩
  · obtain ⟨rfl, hpost⟩ := h
    exact hnext a after hpost

/-- A second step that has no faults. -/
theorem Meets.bind_nil {step : Loading α} {next : α → Loading β} (h : step.Meets supply faults post)
    (hnext : ∀ a after, post a after → (next a).Meets after [] final) :
    (step >>= next).Meets supply faults final := by
  have hboth := h.bind hnext
  rwa [List.append_nil] at hboth

/-- A step whose result is only put into another form. -/
theorem Meets.map {step : Loading α} {write : α → β} (h : step.Meets supply faults post)
    (hfinal : ∀ a after, post a after → final (write a) after) :
    (step >>= fun a => pure (write a)).Meets supply faults final :=
  h.bind_nil fun a after hpost => meets_pure (hfinal a after hpost)

/-- A step that is only taken if something holds. -/
theorem meets_ite {c : Bool} {p : Prop} [Decidable p] (h : c = true ↔ ¬ p) (fault : DocumentError)
    {step : Loading α} (hstep : p → step.Meets supply faults post) :
    Meets (if c then throw (.document fault) else step) supply (faultUnless p fault ++ faults)
      post := by
  by_cases hp : p
  · have hc : ¬ c = true := fun hc => h.1 hc hp
    rw [if_neg hc, faultUnless, if_pos hp]
    exact hstep hp
  · rw [if_pos (h.2 hp), faultUnless, if_neg hp]
    exact ⟨fault, faults, rfl, rfl⟩

/-- A step that succeeds had no faults. -/
theorem Meets.of_ok {step : Loading α} {a : α} (h : step.Meets supply faults post)
    (hok : step.outcome supply = (.ok a, after)) : faults = [] ∧ post a after := by
  rw [Meets, hok] at h
  exact h

/-- A step that fails does so with the first of its faults. -/
theorem Meets.of_error {step : Loading α} {error : Error} (h : step.Meets supply faults post)
    (herror : step.outcome supply = (.error error, after)) :
    ∃ fault rest, faults = fault :: rest ∧ error = .document fault := by
  rw [Meets, herror] at h
  exact h

/-- A step without faults succeeds. -/
theorem Meets.exists_ok {step : Loading α} (h : step.Meets supply [] post) :
    ∃ a after, step.outcome supply = (.ok a, after) ∧ post a after := by
  rcases hstep : step.outcome supply with ⟨error | a, after⟩
  · obtain ⟨_, _, hfaults, _⟩ := h.of_error hstep
    cases hfaults
  · exact ⟨a, after, rfl, (h.of_ok hstep).2⟩

/-- A step with faults fails with the first of them. -/
theorem Meets.exists_error {step : Loading α} {fault : DocumentError}
    (h : step.Meets supply (fault :: others) post) :
    ∃ after, step.outcome supply = (.error (.document fault), after) := by
  rcases hstep : step.outcome supply with ⟨error | a, after⟩
  · obtain ⟨_, _, hfaults, rfl⟩ := h.of_error hstep
    cases hfaults
    exact ⟨after, rfl⟩
  · cases (h.of_ok hstep).1

end Loading

end Document

end ExprTree
