import ExprTree.Proofs.Number
import ExprTree.Proofs.Session

namespace ExprTree

/-!
# What the comparison of results finds

`Value.SameShape` says what two values have in common that `Value.equivalent` takes for
equivalent: they are built alike down to their fields, and objects from before the watermark
stand in both at the same places.  It is symmetric and transitive, and an earlier watermark
asks for less.

For the values of a reachable session the comparison finds just that
(`Value.equivalent_iff_sameShape`), although it goes through two lists of fields only as far as
both go and takes references for the same by their ids: the objects of one class have equally
many fields, and those of one id are one object.
-/

namespace Value

/-! ### Shapes -/

/-- Two values have the same shape.

* Scalars are equal, functions take equally many arguments.
* An object may stand for itself (`same`).
* It may stand for another one (`new`) if neither is from before the watermark, both are of
  one class, and they have equally many fields, each of the same shape as the one at its
  place. -/
inductive SameShape (watermark : Nat) : Value → Value → Prop
  | none : SameShape watermark .none .none
  | bool (b : Bool) : SameShape watermark (.bool b) (.bool b)
  | string (s : String) : SameShape watermark (.string s) (.string s)
  | number {m n : Number} : (m == n) = true → SameShape watermark (.number m) (.number n)
  | function {id id' : Nat} {f g : Callable Value} : f.arity = g.arity →
      SameShape watermark (.function id f) (.function id' g)
  | same (id : Nat) (cls : ClassDef) (fields : List Value) :
      SameShape watermark (.object id cls fields) (.object id cls fields)
  | new {id id' : Nat} {cls : ClassDef} {fields fields' : List Value} :
      watermark ≤ id → watermark ≤ id' → fields.length = fields'.length →
      (∀ (index : Nat) field field', fields[index]? = some field →
        fields'[index]? = some field' → SameShape watermark field field') →
      SameShape watermark (.object id cls fields) (.object id' cls fields')

namespace SameShape

variable {watermark watermark' : Nat} {a b c : Value}

/-- Whatever two values have in common, they have both ways. -/
theorem symm (h : SameShape watermark a b) : SameShape watermark b a := by
  induction h with
  | none => exact .none
  | bool b => exact .bool b
  | string s => exact .string s
  | number h => exact .number (BEq.symm h)
  | function h => exact .function h.symm
  | same id cls fields => exact .same id cls fields
  | new hid hid' hlength _ ih =>
    exact .new hid' hid hlength.symm fun index field field' hfield hfield' =>
      ih index field' field hfield' hfield

/-- What a second value has in common with both sides, these have with each other. -/
theorem trans (h : SameShape watermark a b) (h' : SameShape watermark b c) :
    SameShape watermark a c := by
  induction h generalizing c with
  | none | bool | string | same => exact h'
  | number h =>
    cases h' with
    | number h' => exact .number (BEq.trans h h')
  | function h =>
    cases h' with
    | function h' => exact .function (h.trans h')
  | @new id id' cls fields fields' hid hid' hlength hfields ih =>
    cases h' with
    | same => exact .new hid hid' hlength hfields
    -- two objects from behind the watermark, and so is the one between them
    | new _ hlater hlength' hfields' =>
      refine .new hid hlater (hlength.trans hlength') fun index field last hfield hlast => ?_
      -- the object between the two has a field at this place, too
      obtain ⟨field', hfield'⟩ : ∃ field', fields'[index]? = some field' := by
        have hindex := (List.getElem?_eq_some_iff.1 hfield).1
        exact ⟨_, List.getElem?_eq_getElem (hlength ▸ hindex)⟩
      exact ih index field field' hfield hfield' (hfields' index field' last hfield' hlast)

/-- An earlier watermark asks for less. -/
theorem mono (h : SameShape watermark' a b) (hle : watermark ≤ watermark') :
    SameShape watermark a b := by
  induction h with
  | none => exact .none
  | bool b => exact .bool b
  | string s => exact .string s
  | number h => exact .number h
  | function h => exact .function h
  | same id cls fields => exact .same id cls fields
  | new hid hid' hlength _ ih =>
    exact .new (Nat.le_trans hle hid) (Nat.le_trans hle hid') hlength ih

end SameShape

/-! ### The comparison -/

variable {watermark : Nat} {a b : Value}

/-- Fields are compared place by place, where both lists have one. -/
theorem fieldsEquivalent_iff_getElem? {fields fields' : List Value} :
    fieldsEquivalent watermark fields fields' = true ↔
      ∀ (index : Nat) field field', fields[index]? = some field →
        fields'[index]? = some field' → field.equivalent watermark field' = true := by
  induction fields generalizing fields' with
  | nil => simp [fieldsEquivalent]
  | cons field fields ih =>
    cases fields' with
    | nil => simp [fieldsEquivalent]
    | cons field' fields' =>
      rw [fieldsEquivalent, Bool.and_eq_true, ih]
      refine ⟨fun h index => ?_, fun h => ⟨h 0 field field' rfl rfl, fun index => h (index + 1)⟩⟩
      -- the first fields are compared first, and the others as far as both lists go
      cases index with
      | zero =>
        rintro _ _ ⟨⟩ ⟨⟩
        exact h.1
      | succ index => exact h.2 index

/-- Values of the same shape are found equivalent. -/
theorem SameShape.equivalent (h : SameShape watermark a b) : a.equivalent watermark b = true := by
  induction h with
  | none => rfl
  | bool b => exact beq_self_eq_true b
  | string s => exact beq_self_eq_true s
  | number h => exact h
  | function h => rw [Value.equivalent, h, beq_self_eq_true]
  | same id cls fields => rw [Value.equivalent, beq_self_eq_true, Bool.true_or]
  | new hid hid' _ _ ih =>
    simp [Value.equivalent, hid, hid', fieldsEquivalent_iff_getElem?.2 ih]

/-- Equivalent values have the same shape where references are told apart by their ids and
    objects have the fields of their class. -/
theorem sameShape_of_equivalent {known : Value → Prop} (hcoherent : Coherent known)
    (hfits : ∀ value, known value → value.Fits) (ha : a.All known) (hb : b.All known)
    (h : a.equivalent watermark b = true) : SameShape watermark a b := by
  induction a using inductionOnParts generalizing b with
  | step a ih =>
    cases a with
    | none => cases b <;> first | exact .none | cases h
    | bool x =>
      cases b with
      | bool y =>
        obtain rfl : x = y := beq_iff_eq.1 h
        exact .bool x
      | _ => cases h
    | number m =>
      cases b with
      | number n => exact .number h
      | _ => cases h
    | string s =>
      cases b with
      | string t =>
        obtain rfl : s = t := beq_iff_eq.1 h
        exact .string s
      | _ => cases h
    | function id f =>
      cases b with
      | function id' g =>
        rw [equivalent, beq_iff_eq] at h
        exact .function h
      | _ => cases h
    | object id cls fields =>
      cases b with
      | object id' cls' fields' =>
        simp only [equivalent, Bool.or_eq_true, Bool.and_eq_true, beq_iff_eq,
          decide_eq_true_eq] at h
        obtain rfl | ⟨⟨⟨hid, hid'⟩, rfl⟩, hfields⟩ := h
        · -- one id stands for one object
          rw [hcoherent.object ha.self hb.self]
          exact .same ..
        · -- the lists of fields are equally long, so both were gone through to the end
          have hlength : cls.fields.length = fields.length := (hfits _ ha.self).length_eq
          have hlength' : cls.fields.length = fields'.length := (hfits _ hb.self).length_eq
          refine .new hid hid' (hlength.symm.trans hlength')
            fun index field field' hfield hfield' => ?_
          have hmem : field ∈ fields := List.mem_of_getElem? hfield
          have hmem' : field' ∈ fields' := List.mem_of_getElem? hfield'
          exact ih field hmem (ha.part hmem) (hb.part hmem')
            (fieldsEquivalent_iff_getElem?.1 hfields index field field' hfield hfield')
      | _ => cases h

end Value

/-! ### Reachable sessions -/

namespace Session

variable {session : Session}

/-- What a session knows, it knows with everything that this holds. -/
theorem Knows.all {value : Value} (h : session.Knows value) : value.All session.Knows := by
  intro part hpart
  rcases h with ⟨held, hheld, hvalue⟩ | ⟨fn, hfn, held, hheld, hvalue⟩
  · exact .inl ⟨held, hheld, hvalue.trans hpart⟩
  · exact .inr ⟨fn, hfn, held, hheld, hvalue.trans hpart⟩

/-- What the comparison finds in a reachable session is the same shape. -/
theorem Reachable.equivalent_iff_sameShape (h : session.Reachable) (watermark : Nat) {a b : Value}
    (ha : session.Knows a) (hb : session.Knows b) :
    a.equivalent watermark b = true ↔ a.SameShape watermark b := by
  obtain ⟨known, hplay, hvalues, hfunctions⟩ := h.valid
  have hknows := knows_of_values hvalues fun fn hfn => (hfunctions fn hfn).2
  exact ⟨Value.sameShape_of_equivalent (hplay.coherent.mono hknows)
    (fun value hvalue => hplay.fits (hknows value hvalue)) ha.all hb.all,
    Value.SameShape.equivalent⟩

/-- **The comparison of results is coherent.**  For every watermark, among the values of a
reachable session with all that they hold:

* it is symmetric and transitive;
* it finds the same shape, all the way down;
* what it finds equivalent for a later watermark, it finds equivalent for an earlier one. -/
theorem Reachable.comparison_coherent (h : session.Reachable) (watermark : Nat) :
    (∀ a b, session.Knows a → session.Knows b →
      a.equivalent watermark b = true → b.equivalent watermark a = true)
    ∧ (∀ a b c, session.Knows a → session.Knows b → session.Knows c →
      a.equivalent watermark b = true → b.equivalent watermark c = true →
      a.equivalent watermark c = true)
    ∧ (∀ a b, session.Knows a → session.Knows b →
      (a.equivalent watermark b = true ↔ a.SameShape watermark b))
    ∧ ∀ a b later, session.Knows a → session.Knows b → watermark ≤ later →
      a.equivalent later b = true → a.equivalent watermark b = true := by
  refine ⟨fun a b ha hb hab => ?_, fun a b c ha hb hc hab hbc => ?_,
    fun a b => h.equivalent_iff_sameShape watermark, fun a b later ha hb hle hab => ?_⟩
  · -- the comparison finds the shape, of which these are properties
    exact ((h.equivalent_iff_sameShape watermark ha hb).1 hab).symm.equivalent
  · exact (((h.equivalent_iff_sameShape watermark ha hb).1 hab).trans
      ((h.equivalent_iff_sameShape watermark hb hc).1 hbc)).equivalent
  · exact (((h.equivalent_iff_sameShape later ha hb).1 hab).mono hle).equivalent

/-- A class of objects that hold any two values. -/
def pair : ClassDef := ⟨2, "Pair", [⟨"first", .any⟩, ⟨"second", .any⟩]⟩

/-- A flag. -/
def flagged (id : Nat) : Value := .object id flag [.bool true]

/-- A pair of two flags. -/
def paired (id first second : Nat) : Value := .object id pair [flagged first, flagged second]

/-- Three flags, and two pairs that have the first flag in common. -/
def pairing : Session :=
  ⟨{ nextObject := 6 }, [paired 5 1 3, paired 4 1 2, flagged 3, flagged 2, flagged 1, .bool true],
    [], []⟩

/-- The session creates the string, then the objects from the innermost on. -/
theorem reachable_pairing : pairing.Reachable := by
  have hscalar : start.Step ⟨{}, [.bool true], [], []⟩ := .scalar rfl
  have hflag : ∀ {id : Nat} {values : List Value}, .bool true ∈ values →
      Step ⟨{ nextObject := id }, values, [], []⟩
        ⟨{ nextObject := id + 1 }, flagged id :: values, [], []⟩ := fun htrue =>
    @Step.instantiate _ flag [.bool true] (by simpa using htrue)
  have hpair : ∀ {id first second : Nat} {values : List Value}, flagged first ∈ values →
      flagged second ∈ values → Step ⟨{ nextObject := id }, values, [], []⟩
        ⟨{ nextObject := id + 1 }, paired id first second :: values, [], []⟩ :=
    fun {id first second _} hfirst hsecond =>
      @Step.instantiate _ pair [flagged first, flagged second] (by simp [hfirst, hsecond])
  refine (((((Relation.ReflTransGen.single hscalar).tail (hflag ?_)).tail (hflag ?_)).tail
    (hflag ?_)).tail (hpair ?_ ?_)).tail (hpair ?_ ?_)
  all_goals simp

/-- With the first flag from before the watermark both pairs are equivalent, either way around
    and for an earlier watermark.  With the second one from before it they are not. -/
theorem comparison_coherent_pairing :
    pairing.Reachable
      ∧ (paired 4 1 2).equivalent 2 (paired 5 1 3) = true
      ∧ (paired 5 1 3).equivalent 2 (paired 4 1 2) = true
      ∧ (paired 4 1 2).SameShape 2 (paired 5 1 3)
      ∧ (paired 4 1 2).equivalent 1 (paired 5 1 3) = true
      ∧ (paired 4 1 2).equivalent 3 (paired 5 1 3) = false := by
  have hfirst : pairing.Knows (paired 4 1 2) := .inl ⟨_, by simp [pairing], .refl _⟩
  have hsecond : pairing.Knows (paired 5 1 3) := .inl ⟨_, by simp [pairing], .refl _⟩
  have hequivalent : (paired 4 1 2).equivalent 2 (paired 5 1 3) = true := by decide
  obtain ⟨hsymm, _, hshape, _⟩ := reachable_pairing.comparison_coherent 2
  obtain ⟨_, _, _, hmono⟩ := reachable_pairing.comparison_coherent 1
  exact ⟨reachable_pairing, hequivalent, hsymm _ _ hfirst hsecond hequivalent,
    (hshape _ _ hfirst hsecond).1 hequivalent,
    hmono _ _ 2 hfirst hsecond (by decide) hequivalent, by decide⟩

end Session

end ExprTree
