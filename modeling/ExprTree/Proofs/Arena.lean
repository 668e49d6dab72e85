import ExprTree.Arena
import Mathlib.Data.List.Forall2
import Mathlib.Order.Bounds.Basic

namespace ExprTree

/-!
# Ids of arenas

Values come into an arena one after the other, in two ways: `alloc` appends, so that there
may be equal values in it, and `intern` appends only what is new.

* `Arena.intern_cases` — all that interning can do: it finds the first equal value and
  changes nothing, or there is none and it appends;
* `Arena.toList_internAll` — interning alone adds what is new (`addNew`), and starting from
  nothing this leaves out the duplicates (`foldl_addNew_nil`);
* `Arena.index_insert` — an id is a position as long as 32 bits are enough, and
  `Arena.index_insert_of_full` — no longer;
* `Arena.reads_insertAll` — the ids read back what they were handed out for, whatever comes
  later;
* `Arena.ids_of_collect` — what ids are good for, in any order of insertions.

Where values are only interned, equality need not be lawful but at these values (`LawfulAt`).
-/

/-- Equality is lawful at a value: it is equal to itself, and it does not matter on which side
    something is compared with it. -/
structure LawfulAt {α : Type} [BEq α] (value : α) : Prop where
  refl : (value == value) = true
  comm : ∀ item, (item == value) = (value == item)

theorem lawfulAt {α : Type} [BEq α] [EquivBEq α] (value : α) : LawfulAt value :=
  ⟨BEq.rfl, fun _ => BEq.comm⟩

/-! ### Adding what is new -/

/-- Appends a value unless there is an equal one. -/
def addNew {α : Type} [BEq α] (found : List α) (value : α) : List α :=
  if found.contains value then found else found ++ [value]

section

variable {α : Type} [BEq α] {found values : List α} {value : α}

/-- What is found first is kept. -/
theorem prefix_addNew (found : List α) (value : α) : found <+: addNew found value := by
  unfold addNew
  split
  · exact List.prefix_refl _
  · exact List.prefix_append ..

/-- Starting from nothing, each value is kept where it comes first. -/
theorem foldl_addNew_nil (values : List α) : values.foldl addNew [] = values.eraseDups := by
  -- the loop of the library keeps what it found in reverse
  have hloop : ∀ found : List α,
      List.eraseDupsBy.loop (· == ·) values found = values.foldl addNew found.reverse := by
    induction values with
    | nil => exact fun found => rfl
    | cons value rest ih =>
      intro found
      have hany : found.any (value == ·) = found.reverse.contains value := by
        rw [List.any_beq, List.contains_reverse]
      rw [List.eraseDupsBy.loop, hany, List.foldl_cons, addNew]
      cases found.reverse.contains value with
      | true => exact ih found
      | false => simpa using ih (value :: found)
  exact (hloop []).symm

/-- No two values are equal where only what is new was added. -/
theorem foldl_addNew_pairwise (hvalues : ∀ value ∈ values, LawfulAt value)
    (h : found.Pairwise fun a b => (a == b) = false) :
    (values.foldl addNew found).Pairwise fun a b => (a == b) = false := by
  induction values generalizing found with
  | nil => exact h
  | cons value rest ih =>
    rw [List.forall_mem_cons] at hvalues
    refine ih hvalues.2 ?_
    unfold addNew
    split
    · exact h
    · rename_i hnew
      -- the new value comes last, so equality is asked of it in the other order than it
      -- was looked for
      refine List.pairwise_append.2 ⟨h, List.pairwise_singleton .., ?_⟩
      rintro a ha b hb
      rw [List.mem_singleton.1 hb, hvalues.1.comm]
      rw [List.contains_iff_exists_mem_beq] at hnew
      exact Bool.eq_false_iff.2 fun heq => hnew ⟨a, ha, heq⟩

end

/-! ### Words -/

namespace ArenaId

theorem index_ofIndex (index : Nat) : (ofIndex index).index = index % UInt32.size :=
  UInt32.toNat_ofNat'

/-- A position that 32 bits can hold is that of its id. -/
theorem index_ofIndex_of_lt {index : Nat} (h : index < UInt32.size) :
    (ofIndex index).index = index :=
  (index_ofIndex index).trans (Nat.mod_eq_of_lt h)

/-- An id is nothing but its index. -/
theorem ext_index {id id' : ArenaId} (h : id.index = id'.index) : id = id' := by
  cases id
  cases id'
  exact congrArg mk (UInt32.toNat_inj.1 h)

end ArenaId

namespace Arena

variable {α : Type} {arena after : Arena α} {value other : α} {index : Nat}

/-! ### Positions -/

/-- The list of an arena is read at the same positions. -/
theorem getElem?_toList (arena : Arena α) (index : Nat) :
    arena.toList[index]? = arena.get? index := by
  simp [toList, get?]

@[simp] theorem length_toList (arena : Arena α) : arena.toList.length = arena.size := by
  simp [toList, size]

@[simp] theorem toList_alloc (arena : Arena α) (value : α) :
    (arena.alloc value).2.toList = arena.toList ++ [value] := by
  simp [alloc, toList]

/-- Appending leaves every position as it was, and fills the next one. -/
theorem get?_alloc : (arena.alloc value).2.get? index
    = if index = arena.size then some value else arena.get? index :=
  Array.getElem?_push

/-- What is read stays where nothing but appending happens. -/
theorem get?_mono (h : arena.toList <+: after.toList) (hget : arena.get? index = some value) :
    after.get? index = some value := by
  rw [← getElem?_toList] at hget ⊢
  obtain ⟨added, hadded⟩ := h
  rw [← hadded, List.getElem?_append_left (List.getElem?_eq_some_iff.1 hget).1, hget]

theorem size_mono (h : arena.toList <+: after.toList) : arena.size ≤ after.size := by
  rw [← length_toList, ← length_toList]
  exact h.length_le

variable [BEq α]

/-- The positions of the values that are equal to a given one. -/
def places (arena : Arena α) (value : α) : Set Nat :=
  {index | ∃ item, arena.get? index = some item ∧ (item == value) = true}

theorem mem_places : index ∈ arena.places value ↔
    ∃ item, arena.get? index = some item ∧ (item == value) = true := Iff.rfl

theorem lt_of_mem_places (h : index ∈ arena.places value) : index < arena.size := by
  obtain ⟨item, hitem, _⟩ := h
  rw [← getElem?_toList] at hitem
  rw [← length_toList]
  exact (List.getElem?_eq_some_iff.1 hitem).1

/-- What comes later does not take a place away. -/
theorem places_mono (h : arena.toList <+: after.toList) :
    arena.places value ⊆ after.places value := by
  rintro index ⟨item, hitem, heq⟩
  exact ⟨item, get?_mono h hitem, heq⟩

/-- Appending a value adds one place, to those of all values that equal it. -/
theorem mem_places_alloc : index ∈ (arena.alloc value).2.places other ↔
    index ∈ arena.places other ∨ index = arena.size ∧ (value == other) = true := by
  rw [mem_places, mem_places, get?_alloc]
  by_cases hend : index = arena.size
  · subst hend
    have hnone : arena.get? arena.size = none := Array.getElem?_eq_none (Nat.le_refl _)
    simp [hnone]
  · simp [hend]

/-- A value is contained if it has a place. -/
theorem contains_iff : arena.contains value = true ↔ (arena.places value).Nonempty := by
  rw [contains, Array.any_eq_true]
  constructor
  · rintro ⟨index, hlt, heq⟩
    exact ⟨index, _, Array.getElem?_eq_getElem hlt, heq⟩
  · rintro ⟨index, item, hitem, heq⟩
    obtain ⟨hlt, rfl⟩ := Array.getElem?_eq_some_iff.1 hitem
    exact ⟨index, hlt, heq⟩

/-- Where equality is symmetric it makes no difference which side of it the items are on:
    the list asks for the value, and the arena for the item. -/
theorem contains_toList (h : LawfulAt value) :
    arena.toList.contains value = arena.contains value := by
  rw [← List.any_beq, contains, ← Array.any_toList]
  exact List.any_congr rfl fun item => (h.comm item).symm

/-- What is found is the least position of an equal value. -/
theorem isLeast_of_position? (h : arena.position? value = some index) :
    IsLeast (arena.places value) index := by
  obtain ⟨hlt, heq, hbefore⟩ := Array.findIdx?_eq_some_iff_getElem.1 h
  refine ⟨⟨_, Array.getElem?_eq_getElem hlt, heq⟩, ?_⟩
  rintro other ⟨item, hitem, hother⟩
  obtain ⟨_, rfl⟩ := Array.getElem?_eq_some_iff.1 hitem
  by_contra hle
  exact hbefore other (Nat.lt_of_not_le hle) hother

/-- What interning does not find has no place. -/
theorem places_of_position? (h : arena.position? value = none) : arena.places value = ∅ := by
  rw [Set.eq_empty_iff_forall_notMem]
  rintro index ⟨item, hitem, heq⟩
  have hmem : item ∈ arena.items := Array.mem_of_getElem? hitem
  simp [Array.findIdx?_eq_none_iff.1 h item hmem] at heq

/-- **What interning does.**  There is a first equal value, and nothing changes, or there is
    none, and the value is appended. -/
theorem intern_cases (arena : Arena α) (value : α) :
    (∃ index, IsLeast (arena.places value) index ∧ arena.intern value = (index, arena))
      ∨ arena.places value = ∅ ∧ arena.intern value = arena.alloc value := by
  unfold intern
  cases hfound : arena.position? value with
  | some index => exact .inl ⟨index, isLeast_of_position? hfound, rfl⟩
  | none => exact .inr ⟨places_of_position? hfound, rfl⟩

/-- Nothing that is in the arena changes its position. -/
theorem prefix_intern (arena : Arena α) (value : α) :
    arena.toList <+: (arena.intern value).2.toList := by
  obtain ⟨index, _, hintern⟩ | ⟨_, hintern⟩ := arena.intern_cases value
  · exact hintern ▸ List.prefix_refl _
  · rw [hintern, toList_alloc]
    exact List.prefix_append ..

/-- The arena grows only if there is no equal value. -/
theorem toList_intern (arena : Arena α) (value : α) : (arena.intern value).2.toList
    = if arena.contains value then arena.toList else arena.toList ++ [value] := by
  obtain ⟨index, hleast, hintern⟩ | ⟨hempty, hintern⟩ := arena.intern_cases value
  · rw [hintern, if_pos (contains_iff.2 ⟨index, hleast.1⟩)]
  · have hnew : ¬ arena.contains value = true := fun h =>
      Set.not_nonempty_empty (hempty ▸ contains_iff.1 h)
    rw [hintern, if_neg hnew, toList_alloc]

/-- The position is the least one of an equal value. -/
theorem isLeast_intern (arena : Arena α) (hrefl : (value == value) = true) :
    IsLeast ((arena.intern value).2.places value) (arena.intern value).1 := by
  obtain ⟨index, hleast, hintern⟩ | ⟨hempty, hintern⟩ := arena.intern_cases value
  · rw [hintern]
    exact hleast
  · rw [hintern]
    refine ⟨mem_places_alloc.2 (.inr ⟨rfl, hrefl⟩), fun index hindex => ?_⟩
    -- nothing before is equal, so that the value stands in the last position only
    rw [mem_places_alloc, hempty] at hindex
    obtain ⟨rfl, _⟩ := hindex.resolve_left (Set.notMem_empty index)
    exact Nat.le_refl _

/-- No position is given out but that of the value and those that were there. -/
theorem lt_or_eq_of_intern (h : index < (arena.intern value).2.size) :
    index < arena.size ∨ index = (arena.intern value).1 := by
  obtain ⟨found, _, hintern⟩ | ⟨_, hintern⟩ := arena.intern_cases value
  · rw [hintern] at h
    exact .inl h
  · have hsize : index < arena.size + 1 := by
      rw [hintern, ← length_toList] at h
      simpa using h
    rw [hintern]
    exact Nat.lt_succ_iff_lt_or_eq.1 hsize

/-! ### Interning alone -/

/-- Interns several values, one after the other; their positions come first. -/
def internAll (arena : Arena α) : List α → List Nat × Arena α
  | [] => ([], arena)
  | value :: rest =>
    let first := arena.intern value
    let others := first.2.internAll rest
    (first.1 :: others.1, others.2)

variable {values : List α}

/-- Interning can be stopped and resumed. -/
theorem internAll_append (arena : Arena α) (values values' : List α) :
    arena.internAll (values ++ values')
      = ((arena.internAll values).1 ++ ((arena.internAll values).2.internAll values').1,
        ((arena.internAll values).2.internAll values').2) := by
  induction values generalizing arena with
  | nil => rfl
  | cons value rest ih =>
    rw [List.cons_append, internAll, ih]
    rfl

/-- Interning adds to the list what is not in it. -/
theorem toList_intern_eq_addNew (arena : Arena α) (h : LawfulAt value) :
    (arena.intern value).2.toList = addNew arena.toList value := by
  rw [toList_intern, addNew, contains_toList h]

/-- **Interning values one after the other is adding what is new.** -/
theorem toList_internAll (hvalues : ∀ value ∈ values, LawfulAt value) :
    (arena.internAll values).2.toList = values.foldl addNew arena.toList := by
  induction values generalizing arena with
  | nil => rfl
  | cons value rest ih =>
    rw [List.forall_mem_cons] at hvalues
    rw [List.foldl_cons, ← arena.toList_intern_eq_addNew hvalues.1]
    exact ih hvalues.2

/-- Interning only appends. -/
theorem prefix_internAll (arena : Arena α) (values : List α) :
    arena.toList <+: (arena.internAll values).2.toList := by
  induction values generalizing arena with
  | nil => exact List.prefix_refl _
  | cons value rest ih => exact (arena.prefix_intern value).trans (ih _)

/-- **Every value has the position of an equal one**, and positions do not move. -/
theorem mem_places_internAll (hvalues : ∀ value ∈ values, LawfulAt value) :
    List.Forall₂ (fun index value => index ∈ (arena.internAll values).2.places value)
      (arena.internAll values).1 values := by
  induction values generalizing arena with
  | nil => exact .nil
  | cons value rest ih =>
    rw [List.forall_mem_cons] at hvalues
    refine .cons ?_ (ih hvalues.2)
    exact places_mono (prefix_internAll _ rest) (arena.isLeast_intern hvalues.1.refl).1

/-- **Every position that is new belongs to one of the values.** -/
theorem mem_of_lt_internAll (h : index < (arena.internAll values).2.size) :
    index < arena.size ∨ index ∈ (arena.internAll values).1 := by
  induction values generalizing arena with
  | nil => exact .inl h
  | cons value rest ih =>
    rcases ih h with h | h
    · exact (lt_or_eq_of_intern h).imp_right fun h => List.mem_cons.2 (.inl h)
    · exact .inr (List.mem_cons_of_mem _ h)

/-! ### Ids -/

/-- An id reads back a value that is equal to a given one. -/
def Reads (arena : Arena α) (id : ArenaId) (value : α) : Prop :=
  ∃ item, arena.read? id = some item ∧ (item == value) = true

/-- Puts several values into an arena, one after the other; their ids come first. -/
def insertAll (arena : Arena α) : List (Insertion α) → List ArenaId × Arena α
  | [] => ([], arena)
  | insertion :: rest =>
    let first := arena.insert insertion
    let others := first.2.insertAll rest
    (first.1 :: others.1, others.2)

/-- Puts several values into an empty arena. -/
def collect (insertions : List (Insertion α)) : List ArenaId × Arena α :=
  ({} : Arena α).insertAll insertions

variable {insertion : Insertion α} {insertions : List (Insertion α)} {later : Arena α}

/-- The first value that 32 bits cannot count gets the id of the first value of all. -/
theorem index_insert_of_full (hfull : arena.size = UInt32.size) :
    (arena.insert (.alloc value)).1.index = 0 := by
  have hindex : (arena.insert (.alloc value)).1.index = arena.size % UInt32.size :=
    ArenaId.index_ofIndex _
  rw [hindex, hfull, Nat.mod_self]

/-- Each way into the arena appends at most. -/
theorem prefix_insert (arena : Arena α) (insertion : Insertion α) :
    arena.toList <+: (arena.insert insertion).2.toList := by
  cases insertion with
  | alloc value => exact arena.toList_alloc value ▸ List.prefix_append ..
  | intern value => exact arena.prefix_intern value

/-- What is in an arena stays where it is. -/
theorem prefix_insertAll (arena : Arena α) (insertions : List (Insertion α)) :
    arena.toList <+: (arena.insertAll insertions).2.toList := by
  induction insertions generalizing arena with
  | nil => exact List.prefix_refl _
  | cons insertion rest ih => exact (arena.prefix_insert insertion).trans (ih _)

/-- Insertions can be stopped and resumed. -/
theorem insertAll_append (arena : Arena α) (insertions insertions' : List (Insertion α)) :
    arena.insertAll (insertions ++ insertions')
      = ((arena.insertAll insertions).1 ++ ((arena.insertAll insertions).2.insertAll insertions').1,
        ((arena.insertAll insertions).2.insertAll insertions').2) := by
  induction insertions generalizing arena with
  | nil => rfl
  | cons insertion rest ih =>
    rw [List.cons_append, insertAll, ih]
    rfl

/-- Each insertion gives one id. -/
theorem length_insertAll (arena : Arena α) (insertions : List (Insertion α)) :
    (arena.insertAll insertions).1.length = insertions.length := by
  induction insertions generalizing arena with
  | nil => rfl
  | cons insertion rest ih => exact congrArg (· + 1) (ih _)

/-- An arena that has seen more insertions continues the one that saw fewer. -/
theorem prefix_collect (insertions later : List (Insertion α)) :
    (collect insertions).2.toList <+: (collect (insertions ++ later)).2.toList := by
  rw [collect, collect, insertAll_append]
  exact prefix_insertAll _ later

/-- The ids of a sequence, split at one insertion: it finds the arena as the insertions
    before it left it. -/
theorem collect_append_cons (before : List (Insertion α)) (insertion : Insertion α)
    (rest : List (Insertion α)) : collect (before ++ insertion :: rest)
      = ((collect before).1 ++ ((collect before).2.insert insertion).1
          :: (((collect before).2.insert insertion).2.insertAll rest).1,
        (((collect before).2.insert insertion).2.insertAll rest).2) :=
  insertAll_append _ _ _

/-- The id that a single insertion gave. -/
theorem getElem?_collect (before : List (Insertion α)) (insertion : Insertion α)
    (rest : List (Insertion α)) : (collect (before ++ insertion :: rest)).1[before.length]?
      = some ((collect before).2.insert insertion).1 := by
  have hlength : (collect before).1.length = before.length := length_insertAll _ _
  rw [collect_append_cons, List.getElem?_append_right (Nat.le_of_eq hlength), hlength]
  simp

/-- What a single insertion left stays. -/
theorem prefix_insert_collect (before : List (Insertion α)) (insertion : Insertion α)
    (rest : List (Insertion α)) : ((collect before).2.insert insertion).2.toList
      <+: (collect (before ++ insertion :: rest)).2.toList := by
  rw [collect_append_cons]
  exact prefix_insertAll _ rest

/-- Interning through ids is interning. -/
theorem insertAll_map_intern (arena : Arena α) (values : List α) :
    (arena.insertAll (values.map .intern)).2 = (arena.internAll values).2 := by
  induction values generalizing arena with
  | nil => rfl
  | cons value rest ih => exact ih _

section

variable [EquivBEq α]

/-- A value that was put in stands at its position, or an equal one does. -/
theorem mem_places_place (arena : Arena α) (insertion : Insertion α) :
    (arena.place insertion).1 ∈ (arena.place insertion).2.places insertion.value := by
  cases insertion with
  | alloc value => exact mem_places_alloc.2 (.inr ⟨rfl, BEq.rfl⟩)
  | intern value => exact (arena.isLeast_intern BEq.rfl).1

/-- **Where positions have 32 bits, an id is a position.** -/
theorem index_insert (hfits : (arena.insert insertion).2.size ≤ UInt32.size) :
    (arena.insert insertion).1.index = (arena.place insertion).1 := by
  have hlt : (arena.place insertion).1 < UInt32.size :=
    Nat.lt_of_lt_of_le (lt_of_mem_places (arena.mem_places_place insertion)) hfits
  exact ArenaId.index_ofIndex_of_lt hlt

/-- **Ids go on reading what they were handed out for**, in every arena that begins alike. -/
theorem reads_insertAll (hfits : (arena.insertAll insertions).2.size ≤ UInt32.size)
    (hlater : (arena.insertAll insertions).2.toList <+: later.toList) :
    List.Forall₂ (fun id insertion => later.Reads id insertion.value)
      (arena.insertAll insertions).1 insertions := by
  induction insertions generalizing arena with
  | nil => exact .nil
  | cons insertion rest ih =>
    have hgrows : (arena.insert insertion).2.toList
        <+: (arena.insertAll (insertion :: rest)).2.toList := prefix_insertAll _ rest
    have hindex := index_insert ((size_mono hgrows).trans hfits)
    have hplace := places_mono (hgrows.trans hlater) (arena.mem_places_place insertion)
    refine .cons ?_ (ih hfits hlater)
    rwa [← hindex] at hplace

/-- Where no two values are equal, ids are the same exactly if the values are that they read. -/
theorem Reads.eq_iff {id id' : ArenaId}
    (hdistinct : arena.toList.Pairwise fun a b => (a == b) = false)
    (h : arena.Reads id value) (h' : arena.Reads id' other) :
    id = id' ↔ (value == other) = true := by
  obtain ⟨item, hitem, hvalue⟩ := h
  obtain ⟨item', hitem', hother⟩ := h'
  rw [read?, ← getElem?_toList] at hitem hitem'
  constructor
  · rintro rfl
    obtain rfl : item = item' := Option.some.inj (hitem.symm.trans hitem')
    exact BEq.trans (BEq.symm hvalue) hother
  · intro heq
    have hitems : (item == item') = true := BEq.trans (BEq.trans hvalue heq) (BEq.symm hother)
    obtain ⟨hlt, rfl⟩ := List.getElem?_eq_some_iff.1 hitem
    obtain ⟨hlt', rfl⟩ := List.getElem?_eq_some_iff.1 hitem'
    rw [List.pairwise_iff_getElem] at hdistinct
    -- of two positions the first one would hold a value that differs from the other
    refine ArenaId.ext_index (Nat.le_antisymm (Nat.not_lt.1 fun hafter => ?_)
      (Nat.not_lt.1 fun hbefore => ?_))
    · exact Bool.false_ne_true ((hdistinct _ _ hlt' hlt hafter).symm.trans (BEq.symm hitems))
    · exact Bool.false_ne_true ((hdistinct _ _ hlt hlt' hbefore).symm.trans hitems)

/-- Ids that were handed out for distinct values stand in one place each. -/
theorem getElem?_eq_iff_of_reads {ids : List ArenaId} {values : List α} {i j : Nat}
    (hdistinct : arena.toList.Pairwise fun a b => (a == b) = false)
    (hreads : List.Forall₂ (fun id value => arena.Reads id value) ids values)
    (hi : values[i]? = some value) (hj : values[j]? = some other) :
    ids[i]? = ids[j]? ↔ (value == other) = true := by
  obtain ⟨hlt, rfl⟩ := List.getElem?_eq_some_iff.1 hi
  obtain ⟨hlt', rfl⟩ := List.getElem?_eq_some_iff.1 hj
  have hid : i < ids.length := hreads.length_eq ▸ hlt
  have hid' : j < ids.length := hreads.length_eq ▸ hlt'
  rw [List.getElem?_eq_getElem hid, List.getElem?_eq_getElem hid', Option.some_inj]
  exact (hreads.get hid hlt).eq_iff hdistinct (hreads.get hid' hlt')

/-- Where positions have 32 bits, interning gives the least id of an equal value. -/
theorem isLeast_insert_intern (hfits : (arena.insert (.intern value)).2.size ≤ UInt32.size) :
    IsLeast ((arena.insert (.intern value)).2.places value)
      (arena.insert (.intern value)).1.index := by
  rw [index_insert hfits]
  exact arena.isLeast_intern BEq.rfl

/-- With `intern` alone an arena holds what was new at its time. -/
theorem toList_collect_intern (values : List α) :
    (collect (values.map .intern)).2.toList = values.foldl addNew [] := by
  rw [collect, insertAll_map_intern]
  exact toList_internAll fun value _ => lawfulAt value

/-- **Ids are stable and interning is canonical.**  Values come into an arena in any order, each
by `alloc` or by `intern`, and no more of them stay than 32 bits can count, which is 2³².

* Whatever comes later, every id reads back a value equal to the one it was handed out for.
* The id that `intern` gives is the least position of an equal value, and the arena grows only
  if there was none.
* With `intern` alone no two values in the arena are equal, they are the values that came, each
  where it came first, and two ids are the same exactly if the values are equal. -/
theorem ids_of_collect (hfits : (collect insertions).2.size ≤ UInt32.size) :
    (∀ later, List.Forall₂
      (fun id insertion => (collect (insertions ++ later)).2.Reads id insertion.value)
      (collect insertions).1 insertions)
    ∧ (∀ before value rest, insertions = before ++ .intern value :: rest →
      ∃ id interned, (collect before).2.insert (.intern value) = (id, interned)
        ∧ (collect insertions).1[before.length]? = some id
        ∧ IsLeast (interned.places value) id.index
        ∧ interned.toList = if (collect before).2.contains value then (collect before).2.toList
          else (collect before).2.toList ++ [value])
    ∧ ∀ values : List α, insertions = values.map .intern →
      ((collect insertions).2.toList.Pairwise fun a b => (a == b) = false)
      ∧ (collect insertions).2.toList = values.eraseDups
      ∧ ∀ (i j : Nat) (a b : α), values[i]? = some a → values[j]? = some b →
        ((collect insertions).1[i]? = (collect insertions).1[j]? ↔ (a == b) = true) := by
  refine ⟨fun later => ?_, fun before value rest hsplit => ?_, fun values hvalues => ?_⟩
  · exact reads_insertAll hfits (prefix_collect insertions later)
  · -- the arena may only grow between the insertion and the end, so its size is within
    -- bounds there, too
    subst hsplit
    have hgrows := prefix_insert_collect before (.intern value) rest
    have hleast := isLeast_insert_intern ((size_mono hgrows).trans hfits)
    exact ⟨_, _, rfl, getElem?_collect before _ rest, hleast, toList_intern _ value⟩
  · -- with interning alone no two items are equal, so an id that reads back a value is the
    -- only one that does
    subst hvalues
    have hdistinct : (collect (values.map .intern)).2.toList.Pairwise
        fun a b => (a == b) = false := by
      rw [toList_collect_intern]
      exact foldl_addNew_pairwise (fun value _ => lawfulAt value) .nil
    have hreads : List.Forall₂ (fun id value => (collect (values.map .intern)).2.Reads id value)
        (collect (values.map .intern)).1 values := by
      have h := reads_insertAll hfits (List.prefix_refl _)
      rwa [List.forall₂_map_right_iff] at h
    exact ⟨hdistinct, (toList_collect_intern values).trans (foldl_addNew_nil values),
      fun i j a b => getElem?_eq_iff_of_reads hdistinct hreads⟩

end

/-- Two equal strings that were put in each on its own, and two that were interned. -/
def twice : List (Insertion String) := [.alloc "q", .alloc "q", .intern "x", .intern "q"]

/-- Strings that were interned, one of them twice. -/
def again : List (Insertion String) := ["x", "q", "x"].map .intern

/-- The second `"q"` of `twice` goes on having an id of its own, but interning finds the first
    one.  The strings of `again` have one id each. -/
theorem ids_of_collect_twice :
    ((collect twice).2.size ≤ UInt32.size
      ∧ (collect twice).1 = [0, 1, 2, 0].map ArenaId.ofIndex
      ∧ (collect (twice ++ [.alloc "x", .intern "y"])).2.Reads (.ofIndex 1) "q"
      ∧ ∃ interned, (collect (twice.take 3)).2.insert (.intern "q") = (.ofIndex 0, interned)
        ∧ IsLeast (interned.places "q") 0 ∧ interned.toList = ["q", "q", "x"])
    ∧ (collect again).2.size ≤ UInt32.size
      ∧ ((collect again).2.toList.Pairwise fun a b => (a == b) = false)
      ∧ (collect again).2.toList = ["x", "q"]
      ∧ (collect again).1[0]? = (collect again).1[2]?
      ∧ (collect again).1[0]? ≠ (collect again).1[1]? := by
  have hids : (collect twice).1 = [0, 1, 2, 0].map ArenaId.ofIndex := by decide +kernel
  have hfits : (collect twice).2.size ≤ UInt32.size := by decide +kernel
  obtain ⟨hreads, hintern, _⟩ := ids_of_collect hfits
  have hread := hreads [.alloc "x", .intern "y"]
  rw [hids] at hread
  obtain ⟨_, hread⟩ := List.forall₂_cons.1 hread
  obtain ⟨id, interned, hinsert, hid, hleast, hlist⟩ := hintern (twice.take 3) "q" [] rfl
  obtain rfl : .ofIndex 0 = id := by
    rw [hids] at hid
    exact Option.some.inj hid
  have hfound : (collect (twice.take 3)).2.contains "q" = true := by decide +kernel
  rw [if_pos hfound] at hlist
  have hfits' : (collect again).2.size ≤ UInt32.size := by decide +kernel
  obtain ⟨_, _, hcanonical⟩ := ids_of_collect hfits'
  obtain ⟨hdistinct, hdups, hsame⟩ := hcanonical ["x", "q", "x"] rfl
  refine ⟨⟨hfits, hids, (List.forall₂_cons.1 hread).1, interned, hinsert, hleast,
    hlist.trans (by decide +kernel)⟩, hfits', hdistinct, hdups.trans (by decide), ?_, ?_⟩
  · exact (hsame 0 2 "x" "x" rfl rfl).2 (by decide)
  · exact fun h => absurd ((hsame 0 1 "x" "q" rfl rfl).1 h) (by decide)

end Arena

end ExprTree
