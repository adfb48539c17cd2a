import BlockScribe.Proofs.Document.History

/-!
# What a heap holds

A heap is what a history says of it: it has the objects that were made, each
with as much in it as there were places taken.  It refuses nothing that is
allowed, and after operations in good order it holds all of the values and
marks that were written, none of them in place of another.
-/

namespace BlockScribe

/-- What an operation puts in its place. -/
def Operation.slot? (number : Nat) : Operation → Option Slot
  | .make .. => some (.object number)
  | .set _ _ value => some (.scalar value)
  | .markBegin .. | .markEnd .. => none

/-- A key that is free, or the position behind the last one. -/
def Place.IsNext (taken : List Place) : Place → Prop
  | .key name => .key name ∉ taken
  | .index position => position = taken.length

namespace Object

def held? (object : Object) (place : Place) : Option Slot :=
  match object, place with
  | .map entries, .key name => entries.get? name
  | .list slots, .index index => slots[index]?
  | .text chars _, .index index => chars[index]?.map fun c => .scalar (.text c.toString)
  | _, _ => none

def marks : Object → List Mark
  | .text _ marks => marks.toList
  | _ => []

/-- An object of a kind in which places were taken one after the other, and which has marks. -/
def Matches : Object → ObjectKind → List Place → List Mark → Prop
  | .map entries, .map, taken, laid =>
      (∀ name, (entries.get? name).isSome → .key name ∈ taken) ∧ laid = []
  | .list slots, .list, taken, laid => slots.size = taken.length ∧ laid = []
  | .text chars marks, .text, taken, laid => chars.size = taken.length ∧ marks.toList = laid
  | _, _, _, _ => False

open Heap

variable {object object' : Object} {kind : ObjectKind} {taken : List Place} {laid : List Mark}
  {place : Place}

theorem matches_empty (kind : ObjectKind) : (empty kind).Matches kind [] [] := by
  cases kind <;> simp [empty, Matches]

/-! ## One value more -/

theorem Matches.putSlot {slot : Slot} (fits : object.Matches kind taken laid)
    (put : putSlot? object place slot = some object') :
    object'.Matches kind (taken ++ [place]) laid := by
  cases object <;> cases place <;> simp only [putSlot?, reduceCtorEq] at put
  case map.key entries name =>
    cases put
    cases kind <;> simp only [Matches] at fits ⊢
    refine ⟨fun other there => ?_, fits.2⟩
    rw [SortedMap.get?_insert] at there
    by_cases same : other = name
    · simp [same]
    · rw [if_neg same] at there
      exact List.mem_append_left _ (fits.1 other there)
  case list.index slots index =>
    split at put
    · cases put
      cases kind <;> simp_all [Matches]
    · cases put

theorem Matches.putScalar {value : Scalar} (fits : object.Matches kind taken laid)
    (put : putScalar? object place value = some object') :
    object'.Matches kind (taken ++ [place]) laid := by
  unfold putScalar? at put
  split at put
  · split at put
    · split at put
      · cases put
        cases kind <;> simp_all [Matches]
      · cases put
    · cases put
  · exact fits.putSlot put

theorem held?_putSlot {slot : Slot} (fits : object.Matches kind taken laid)
    (isNext : place.IsNext taken) (put : putSlot? object place slot = some object') :
    object'.held? place = some slot ∧
      ∀ other found, object.held? other = some found → object'.held? other = some found := by
  cases object <;> cases place <;> simp only [putSlot?, reduceCtorEq] at put
  case map.key entries name =>
    cases put
    refine ⟨by simp [held?], fun other found there => ?_⟩
    cases other with
    | index => cases there
    | key other =>
        have distinct : other ≠ name := by
          rintro rfl
          cases kind <;> simp only [Matches] at fits
          exact isNext (fits.1 other (by simp_all [held?]))
        simpa [held?, distinct] using there
  case list.index slots index =>
    cases kind <;> simp only [Matches] at fits
    obtain rfl : index = slots.size := isNext.trans fits.1.symm
    simp only [Nat.le_refl, dite_true, Option.some_inj] at put
    subst put
    refine ⟨by simp [held?], fun other found there => ?_⟩
    cases other with
    | key => cases there
    | index other =>
        simp only [held?] at there ⊢
        obtain ⟨inside, _⟩ := Array.getElem?_eq_some_iff.mp there
        simp [Array.getElem?_push, inside.ne, there]

theorem held?_putScalar {value : Scalar} (fits : object.Matches kind taken laid)
    (isNext : place.IsNext taken) (put : putScalar? object place value = some object') :
    object'.held? place = some (.scalar value) ∧
      ∀ other found, object.held? other = some found → object'.held? other = some found := by
  unfold putScalar? at put
  split at put
  · next chars marks index single =>
      split at put
      · next c spelled =>
          cases kind <;> simp only [Matches] at fits
          obtain rfl : index = chars.size := isNext.trans fits.1.symm
          simp only [Nat.le_refl, dite_true, Option.some_inj] at put
          subst put
          have text : c.toString = single := String.toList_inj.mp (by simp [spelled])
          refine ⟨by simp [held?, ← text], fun other found there => ?_⟩
          cases other with
          | key => cases there
          | index other =>
              simp only [held?, Option.map_eq_some_iff] at there ⊢
              obtain ⟨found, there, rfl⟩ := there
              have ⟨inside, _⟩ := Array.getElem?_eq_some_iff.mp there
              exact ⟨found, by simp [Array.getElem?_push, inside.ne, there], rfl⟩
      · cases put
  · exact held?_putSlot fits isNext put

/-! ## What is taken in -/

theorem exists_putSlot?_key {name : String} (fits : object.Matches .map taken laid) (slot : Slot) :
    ∃ object', putSlot? object (.key name) slot = some object' := by
  cases object with
  | map entries => exact ⟨_, rfl⟩
  | list | text => cases fits

theorem exists_putSlot?_index {index : Nat} (fits : object.Matches .list taken laid)
    (inRange : index ≤ taken.length) (slot : Slot) :
    ∃ object', putSlot? object (.index index) slot = some object' := by
  cases object with
  | list slots =>
      have inRange : index ≤ slots.size := inRange.trans_eq fits.1.symm
      exact ⟨_, dif_pos inRange⟩
  | map | text => cases fits

theorem Matches.marks_eq (fits : object.Matches kind taken laid) : object.marks = laid := by
  cases object <;> cases kind <;> simp_all [Matches, marks]

theorem putScalar?_of_putSlot? {value : Scalar}
    (put : putSlot? object place (.scalar value) = some object') :
    putScalar? object place value = some object' := by
  cases object with
  | map | list => cases place <;> exact put
  | text => cases place <;> cases put

end Object

namespace Heap

open History

variable {before : List Operation} {operation : Operation} {heap heap' : Heap}

structure Mirrors (before : List Operation) (heap : Heap) : Prop where
  count : heap.count = before.length
  openMark : heap.openMark = openMark? before
  made : ∀ number kind, kind? before number = some kind → ∃ object,
    heap.object? number = some object ∧
    object.Matches kind (places before number) (History.marks before number)
  unmade : ∀ number, kind? before number = none → heap.object? number = none ∧
    places before number = [] ∧ History.marks before number = []

theorem mirrors_initial : Mirrors [] initial := by
  refine ⟨rfl, rfl, fun number kind known => ?_, fun number known => ⟨?_, rfl, rfl⟩⟩
  · rw [object?_initial]
    by_cases root : number = rootObject
    · rw [kind?, if_pos root, Option.some_inj] at known
      exact ⟨_, if_pos root, known ▸ Object.matches_empty .map⟩
    · simp [kind?, root] at known
  · rw [object?_initial, if_neg]
    rintro rfl
    cases known

theorem Mirrors.known (mirrors : Mirrors before heap) {number : Nat} {object : Object}
    (there : heap.object? number = some object) : ∃ kind, kind? before number = some kind ∧
      object.Matches kind (places before number) (History.marks before number) := by
  cases known : kind? before number with
  | none =>
      rw [(mirrors.unmade number known).1] at there
      cases there
  | some kind =>
      obtain ⟨object', there', fits⟩ := mirrors.made number kind known
      rw [there, Option.some_inj] at there'
      exact ⟨kind, rfl, there' ▸ fits⟩

/-- What an operation comes to: a change of the object that it addresses, and maybe a new one. -/
structure Changes (before : List Operation) (operation : Operation) (object' : Object)
    (heap heap' : Heap) : Prop where
  count : heap'.count = heap.count + 1
  openMark : heap'.openMark = openMark? (before ++ [operation])
  addressed : heap'.object? operation.object = some object'
  others : ∀ number, number ≠ operation.object → number ≠ before.length + 1 →
    heap'.object? number = heap.object? number
  made : heap'.object? (before.length + 1) = operation.made?.map Object.empty

theorem Mirrors.of_changes (mirrors : Mirrors before heap) {object object' : Object}
    (there : heap.object? operation.object = some object)
    (fits : ∀ kind, object.Matches kind (places before operation.object)
      (History.marks before operation.object) →
      object'.Matches kind (places (before ++ [operation]) operation.object)
        (History.marks (before ++ [operation]) operation.object))
    (elsewhere : ∀ number, number ≠ operation.object →
      History.marks (before ++ [operation]) number = History.marks before number)
    (changes : Changes before operation object' heap heap') :
    Mirrors (before ++ [operation]) heap' := by
  obtain ⟨kind, known, matched⟩ := mirrors.known there
  have placesElsewhere (number : Nat) (other : number ≠ operation.object) :
      places (before ++ [operation]) number = places before number := by
    rw [places_append, places_singleton, if_neg other.symm, List.append_nil]
  have unmade (number : Nat) (none : kind? before number = none) :
      number ≠ operation.object ∧ places (before ++ [operation]) number = [] ∧
        History.marks (before ++ [operation]) number = [] := by
    have other : number ≠ operation.object := by
      rintro rfl
      rw [known] at none
      cases none
    rw [placesElsewhere number other, elsewhere number other]
    exact ⟨other, (mirrors.unmade number none).2⟩
  refine ⟨?_, changes.openMark, fun number kind' known' => ?_, fun number known' => ?_⟩
  · rw [changes.count, mirrors.count, List.length_append, List.length_singleton]
  · rw [kind?_concat] at known'
    split at known'
    · next isNew =>
        obtain ⟨-, noPlaces, noMarks⟩ := unmade number (kind?_of_fresh (by omega))
        rw [noPlaces, noMarks, isNew, changes.made, known']
        exact ⟨_, rfl, Object.matches_empty kind'⟩
    · next isOld =>
        by_cases here : number = operation.object
        · subst here
          obtain rfl : kind = kind' := Option.some_inj.mp (known.symm.trans known')
          exact ⟨object', changes.addressed, fits kind matched⟩
        · rw [changes.others number here isOld, placesElsewhere number here,
            elsewhere number here]
          exact mirrors.made number kind' known'
  · rw [kind?_concat] at known'
    split at known'
    · next isNew =>
        obtain ⟨-, empty⟩ := unmade number (kind?_of_fresh (by omega))
        refine ⟨?_, empty⟩
        rw [isNew, changes.made, known', Option.map_none]
    · next isOld =>
        obtain ⟨other, empty⟩ := unmade number known'
        refine ⟨?_, empty⟩
        rw [changes.others number other isOld]
        exact (mirrors.unmade number known').1

theorem Mirrors.markBegin (mirrors : Mirrors before heap) (number start : Nat) (name : String)
    (value : Scalar) : Mirrors (before ++ [.markBegin number start name value])
      { heap with
        count := heap.count + 1
        openMark := some ⟨number, start, name, value⟩ } := by
  have samePlaces (object : Nat) :
      places (before ++ [.markBegin number start name value]) object = places before object := by
    simp [places_append, places_singleton, Operation.place?]
  have sameMarks (object : Nat) :
      History.marks (before ++ [.markBegin number start name value]) object =
        History.marks before object := marks_concat rfl object
  have sameKind (object : Nat) :
      kind? (before ++ [.markBegin number start name value]) object = kind? before object := by
    rw [kind?_concat]
    split
    · next isNew => exact (kind?_of_fresh (by omega)).symm
    · rfl
  refine ⟨?_, (openMark?_concat before (.markBegin number start name value)).symm,
    fun object kind known => ?_, fun object known => ?_⟩
  · rw [mirrors.count, List.length_append, List.length_singleton]
  · rw [samePlaces, sameMarks]
    exact mirrors.made object kind (sameKind object ▸ known)
  · rw [samePlaces, sameMarks]
    exact mirrors.unmade object (sameKind object ▸ known)

/-! ## Operations that are taken in -/

/-- How an operation that is taken in changes the object that it addresses. -/
inductive Turns (number : Nat) (openMark : Option OpenMark) : Operation → Object → Object → Prop
  | make {kind : ObjectKind} {owner : Nat} {place : Place} {object object' : Object}
      (put : putSlot? object place (.object number) = some object') :
      Turns number openMark (.make kind owner place) object object'
  | set {owner : Nat} {place : Place} {value : Scalar} {object object' : Object}
      (put : putScalar? object place value = some object') :
      Turns number openMark (.set owner place value) object object'
  | markEnd {begun : OpenMark} {stop : Nat} {grows : Bool} {chars : Array Char}
      {marks : Array Mark} (opened : openMark = some begun) :
      Turns number openMark (.markEnd begun.object stop grows) (.text chars marks)
        (.text chars (marks.push ⟨begun.name, begun.value, begun.start, stop⟩))

theorem step?_make_eq_some {kind : ObjectKind} {owner : Nat} {place : Place} :
    heap.step? (.make kind owner place) = some heap' ↔ heap.openMark = none ∧ ∃ object object',
      heap.object? owner = some object ∧
      putSlot? object place (.object (heap.count + 1)) = some object' ∧
      { heap.update owner object' with objects :=
        (heap.update owner object').objects.insert (heap.count + 1) (.empty kind) } = heap' := by
  simp [step?, guard, Option.bind_eq_some_iff]

theorem step?_set_eq_some {owner : Nat} {place : Place} {value : Scalar} :
    heap.step? (.set owner place value) = some heap' ↔ heap.openMark = none ∧ ∃ object object',
      heap.object? owner = some object ∧ putScalar? object place value = some object' ∧
      heap.update owner object' = heap' := by
  simp [step?, guard, Option.bind_eq_some_iff]

theorem step?_markBegin_eq_some {owner start : Nat} {name : String} {value : Scalar} :
    heap.step? (.markBegin owner start name value) = some heap' ↔ heap.openMark = none ∧
      { heap with
        count := heap.count + 1
        openMark := some ⟨owner, start, name, value⟩ } = heap' := by
  simp [step?, guard, Option.bind_eq_some_iff]

theorem step?_markEnd_eq_some {owner stop : Nat} {grows : Bool} :
    heap.step? (.markEnd owner stop grows) = some heap' ↔ ∃ begun chars marks,
      heap.openMark = some begun ∧ begun.object = owner ∧
      heap.object? owner = some (.text chars marks) ∧ begun.start < stop ∧ stop ≤ chars.size ∧
      { heap.update owner (.text chars (marks.push ⟨begun.name, begun.value, begun.start, stop⟩))
        with openMark := none } = heap' := by
  constructor
  · intro stepped
    simp only [step?, Option.bind_eq_bind, Option.bind_eq_some_iff,
      Option.guard_eq_some'] at stepped
    obtain ⟨begun, opened, -, same, object, there, stepped⟩ := stepped
    cases object with
    | map | list => cases stepped
    | text chars marks =>
        simp only [Option.bind_eq_some_iff, Option.guard_eq_some'] at stepped
        obtain ⟨-, ⟨wide, inside⟩, stepped⟩ := stepped
        exact ⟨begun, chars, marks, opened, same, there, wide, inside, Option.some_inj.mp stepped⟩
  · rintro ⟨begun, chars, marks, opened, same, there, wide, inside, rfl⟩
    simp [step?, guard, opened, same, there, wide, inside]

theorem Mirrors.exists_changes (mirrors : Mirrors before heap)
    (stepped : heap.step? operation = some heap') (notBegin : operation.begun? = none) :
    ∃ object object', heap.object? operation.object = some object ∧
      Turns (heap.count + 1) heap.openMark operation object object' ∧
      Changes before operation object' heap heap' := by
  have free : heap.object? (before.length + 1) = none :=
    (mirrors.unmade _ (kind?_of_fresh (Nat.lt_succ_self _))).1
  have old {object : Object} (there : heap.object? operation.object = some object) :
      operation.object ≤ before.length :=
    have ⟨_, known, _⟩ := mirrors.known there
    le_length_of_kind? known
  have closed : openMark? (before ++ [operation]) = none := by rw [openMark?_concat, notBegin]
  cases operation with
  | make kind owner place =>
      obtain ⟨idle, object, object', there, put, rfl⟩ := step?_make_eq_some.mp stepped
      have below : owner ≤ before.length := old there
      refine ⟨object, object', there, .make put, ⟨rfl, idle.trans closed.symm, ?_, ?_, ?_⟩⟩
      · rw [object?_insert, mirrors.count, object?_update]
        exact (if_neg (Nat.ne_of_lt (Nat.lt_succ_of_le below))).trans (if_pos rfl)
      · intro number other notMade
        rw [object?_insert, mirrors.count, if_neg notMade, object?_update]
        exact if_neg other
      · rw [object?_insert, mirrors.count, if_pos rfl]
        rfl
  | set owner place value =>
      obtain ⟨idle, object, object', there, put, rfl⟩ := step?_set_eq_some.mp stepped
      have below : owner ≤ before.length := old there
      refine ⟨object, object', there, .set put, ⟨rfl, idle.trans closed.symm, ?_, ?_, ?_⟩⟩
      · exact (object?_update ..).trans (if_pos rfl)
      · exact fun number other _ => (object?_update ..).trans (if_neg other)
      · rw [object?_update, if_neg (by omega), free]
        rfl
  | markBegin => cases notBegin
  | markEnd owner stop grows =>
      obtain ⟨begun, chars, marks, opened, rfl, there, -, -, rfl⟩ :=
        step?_markEnd_eq_some.mp stepped
      have below : begun.object ≤ before.length := old there
      refine ⟨_, _, there, .markEnd opened, ⟨rfl, closed.symm, ?_, ?_, ?_⟩⟩
      · exact (object?_update ..).trans (if_pos rfl)
      · exact fun number other _ => (object?_update ..).trans (if_neg other)
      · refine ((object?_update ..).trans (if_neg (by omega))).trans ?_
        rw [free]
        rfl

theorem Mirrors.step (mirrors : Mirrors before heap)
    (stepped : heap.step? operation = some heap') : Mirrors (before ++ [operation]) heap' := by
  cases begins : operation.begun? with
  | some begun =>
      cases operation <;> cases begins
      obtain ⟨-, rfl⟩ := step?_markBegin_eq_some.mp stepped
      exact mirrors.markBegin _ _ _ _
  | none =>
      obtain ⟨object, object', there, turns, changes⟩ := mirrors.exists_changes stepped begins
      cases turns with
      | make put =>
          refine mirrors.of_changes there (fun kind fits => ?_) (fun _ _ => marks_concat rfl _)
            changes
          rw [marks_concat rfl, places_append, places_singleton, if_pos rfl]
          exact fits.putSlot put
      | set put =>
          refine mirrors.of_changes there (fun kind fits => ?_) (fun _ _ => marks_concat rfl _)
            changes
          rw [marks_concat rfl, places_append, places_singleton, if_pos rfl]
          exact fits.putScalar put
      | markEnd opened =>
          rw [mirrors.openMark] at opened
          refine mirrors.of_changes there (fun kind fits => ?_) (fun number other => ?_) changes
          · rw [marks_concat_end opened, places_append, places_singleton]
            cases kind <;> simp_all [Object.Matches, Operation.object, Operation.place?]
          · rw [marks_concat_end opened]
            exact (congrArg _ (if_neg (Ne.symm other))).trans (List.append_nil _)

theorem replay?_concat (operations : List Operation) (operation : Operation) :
    replay? (operations ++ [operation]) = (replay? operations).bind (·.step? operation) := by
  rw [replay?, List.foldlM_append]
  exact congrArg _ (funext fun heap => bind_pure (heap.step? operation))

/-- Any operations that are taken in make the heap what their history says. -/
theorem mirrors_of_replay? {operations : List Operation}
    (replayed : replay? operations = some heap) : Mirrors operations heap := by
  induction operations using List.reverseRecOn generalizing heap with
  | nil =>
      cases replayed
      exact mirrors_initial
  | append_singleton operations operation ih =>
      rw [replay?_concat, Option.bind_eq_some_iff] at replayed
      obtain ⟨earlier, replayed, stepped⟩ := replayed
      exact (ih replayed).step stepped

theorem Mirrors.takes (mirrors : Mirrors before heap) (allowed : Allowed before operation) :
    ∃ heap', heap.step? operation = some heap' := by
  cases allowed with
  | @entry _ name closed isMap key =>
      obtain ⟨object, there, fits⟩ := mirrors.made _ _ isMap
      have idle := mirrors.openMark.trans closed
      cases operation <;> cases key
      · obtain ⟨object', put⟩ := Object.exists_putSlot?_key fits (.object (heap.count + 1))
        exact ⟨_, step?_make_eq_some.mpr ⟨idle, object, object', there, put, rfl⟩⟩
      · obtain ⟨object', put⟩ := Object.exists_putSlot?_key fits _
        exact ⟨_, step?_set_eq_some.mpr
          ⟨idle, object, object', there, Object.putScalar?_of_putSlot? put, rfl⟩⟩
  | item closed isList position inRange =>
      obtain ⟨object, there, fits⟩ := mirrors.made _ _ isList
      have idle := mirrors.openMark.trans closed
      cases operation <;> cases position
      · obtain ⟨object', put⟩ :=
          Object.exists_putSlot?_index fits inRange (.object (heap.count + 1))
        exact ⟨_, step?_make_eq_some.mpr ⟨idle, object, object', there, put, rfl⟩⟩
      · obtain ⟨object', put⟩ := Object.exists_putSlot?_index fits inRange _
        exact ⟨_, step?_set_eq_some.mpr
          ⟨idle, object, object', there, Object.putScalar?_of_putSlot? put, rfl⟩⟩
  | @character text index c closed isText inRange =>
      obtain ⟨object, there, fits⟩ := mirrors.made _ _ isText
      have idle := mirrors.openMark.trans closed
      cases object with
      | map | list => cases fits
      | text chars marks =>
          have inRange : index ≤ chars.size := inRange.trans_eq fits.1.symm
          have put : putScalar? (.text chars marks) (.index index) (.text c.toString) =
              some (.text (chars.insertIdx index c inRange) marks) := by
            simp [putScalar?, inRange]
          exact ⟨_, step?_set_eq_some.mpr ⟨idle, _, _, there, put, rfl⟩⟩
  | markBegin closed isText inRange =>
      exact ⟨_, step?_markBegin_eq_some.mpr ⟨mirrors.openMark.trans closed, rfl⟩⟩
  | @markEnd begun stop grows opened isText nonempty inRange =>
      obtain ⟨object, there, fits⟩ := mirrors.made _ _ isText
      cases object with
      | map | list => cases fits
      | text chars marks =>
          exact ⟨_, step?_markEnd_eq_some.mpr ⟨begun, chars, marks, mirrors.openMark.trans opened,
            rfl, there, nonempty, inRange.trans_eq fits.1.symm, rfl⟩⟩

/-! ## The heap as a library -/

def library : Library Heap Unit where
  start := initial
  call heap operation := (heap.step? operation).elim (.error ()) .ok

theorem perform_library (operations : List Operation) :
    library.perform operations = (replay? operations).elim (.error ()) .ok := by
  have from_ (heap : Heap) : operations.foldlM library.call heap =
      (operations.foldlM step? heap).elim (.error ()) .ok := by
    induction operations generalizing heap with
    | nil => rfl
    | cons operation operations ih =>
        rw [List.foldlM_cons, List.foldlM_cons]
        cases stepped : heap.step? operation with
        | none => simp [library, stepped, bind, Except.bind]
        | some heap' => simpa [library, stepped, bind, Except.bind] using ih heap'
  exact from_ initial

theorem takesAllowed_library : library.TakesAllowed := by
  intro before heap operation performed allowed
  rw [perform_library] at performed
  cases replayed : replay? before with
  | none =>
      rw [replayed] at performed
      cases performed
  | some heap =>
      rw [replayed] at performed
      cases performed
      obtain ⟨heap', stepped⟩ := (mirrors_of_replay? replayed).takes allowed
      exact ⟨heap', by simp [library, stepped]⟩

/-! ## What is held in the end -/

def held? (heap : Heap) (object : Nat) (place : Place) : Option Slot :=
  (heap.object? object).bind (·.held? place)

def marks (heap : Heap) (object : Nat) : List Mark :=
  ((heap.object? object).map Object.marks).getD []

/-- All that was written is where it was put, and no mark is over another of its name. -/
structure Holds (heap : Heap) (operations : List Operation) : Prop where
  values : ∀ earlier operation later place, operations = earlier ++ operation :: later →
    operation.place? = some place →
    heap.held? operation.object place = operation.slot? (earlier.length + 1)
  marks : ∀ text, heap.marks text = History.marks operations text
  apart : ∀ text, History.Apart (heap.marks text)

theorem Mirrors.marks_eq (mirrors : Mirrors before heap) (number : Nat) :
    heap.marks number = History.marks before number := by
  cases known : kind? before number with
  | some kind =>
      obtain ⟨object, there, fits⟩ := mirrors.made number kind known
      rw [marks, there]
      exact fits.marks_eq
  | none =>
      obtain ⟨absent, -, empty⟩ := mirrors.unmade number known
      rw [marks, absent, empty]
      rfl

theorem isNext_of_follows (follows : Follows before operation) {place : Place}
    (takes : operation.place? = some place) :
    place.IsNext (places before operation.object) := by
  cases follows with
  | entry closed isMap key free =>
      obtain rfl := Option.some_inj.mp (takes.symm.trans key)
      exact free
  | item closed isList atEnd =>
      obtain rfl := Option.some_inj.mp (takes.symm.trans atEnd)
      rfl
  | character =>
      cases takes
      rfl
  | markBegin | markEnd => cases takes

/-- An operation in good order adds to an object and leaves what there is in it. -/
theorem Turns.held {number : Nat} {openMark : Option OpenMark} {object object' : Object}
    {kind : ObjectKind} {laid : List Mark} (turns : Turns number openMark operation object object')
    (fits : object.Matches kind (places before operation.object) laid)
    (follows : Follows before operation) :
    (∀ place, operation.place? = some place → object'.held? place = operation.slot? number) ∧
      ∀ place found, object.held? place = some found → object'.held? place = some found := by
  cases turns with
  | make put =>
      obtain ⟨written, kept⟩ := Object.held?_putSlot fits (isNext_of_follows follows rfl) put
      refine ⟨fun place takes => ?_, kept⟩
      cases takes
      exact written
  | set put =>
      obtain ⟨written, kept⟩ := Object.held?_putScalar fits (isNext_of_follows follows rfl) put
      refine ⟨fun place takes => ?_, kept⟩
      cases takes
      exact written
  | markEnd =>
      refine ⟨fun place takes => (nomatch takes), fun place found there => ?_⟩
      cases place <;> exact there

theorem Mirrors.held (mirrors : Mirrors before heap) (follows : Follows before operation)
    (stepped : heap.step? operation = some heap') :
    (∀ place, operation.place? = some place →
      heap'.held? operation.object place = operation.slot? (before.length + 1)) ∧
    ∀ number place found, heap.held? number place = some found →
      heap'.held? number place = some found := by
  cases begins : operation.begun? with
  | some begun =>
      cases operation <;> cases begins
      obtain ⟨-, rfl⟩ := step?_markBegin_eq_some.mp stepped
      exact ⟨fun place takes => (nomatch takes), fun number place found there => there⟩
  | none =>
      obtain ⟨object, object', there, turns, changes⟩ := mirrors.exists_changes stepped begins
      obtain ⟨kind, known, fits⟩ := mirrors.known there
      obtain ⟨written, kept⟩ := turns.held fits follows
      rw [mirrors.count] at written
      refine ⟨fun place takes => ?_, fun number place found holds => ?_⟩
      · rw [held?, changes.addressed]
        exact written place takes
      · obtain ⟨owner, here, holds⟩ := Option.bind_eq_some_iff.mp holds
        by_cases addressed : number = operation.object
        · subst addressed
          obtain rfl : object = owner := Option.some_inj.mp (there.symm.trans here)
          rw [held?, changes.addressed]
          exact kept place found holds
        · have ⟨_, made, _⟩ := mirrors.known here
          have below := le_length_of_kind? made
          rw [held?, changes.others number addressed (by omega), here]
          exact holds

theorem exists_slot?_of_place? {place : Place} (takes : operation.place? = some place)
    (number : Nat) : ∃ slot, operation.slot? number = some slot := by
  cases operation with
  | make | set => exact ⟨_, rfl⟩
  | markBegin | markEnd => cases takes

/-- After operations in good order, a heap still holds all that any of them wrote. -/
theorem holds_of_orderly {operations : List Operation} (orderly : Orderly [] operations) :
    ∃ heap, replay? operations = some heap ∧ heap.Holds operations := by
  suffices written : ∃ heap, replay? operations = some heap ∧
      ∀ earlier operation later place, operations = earlier ++ operation :: later →
        operation.place? = some place →
        heap.held? operation.object place = operation.slot? (earlier.length + 1) by
    obtain ⟨heap, replayed, values⟩ := written
    have mirrors := mirrors_of_replay? replayed
    refine ⟨heap, replayed, values, mirrors.marks_eq, fun text => ?_⟩
    rw [mirrors.marks_eq]
    exact apart_marks orderly text
  induction operations using List.reverseRecOn with
  | nil => exact ⟨initial, rfl, fun earlier operation later place same => by simp at same⟩
  | append_singleton operations operation ih =>
      obtain ⟨sooner, follows, -⟩ := orderly_append.mp orderly
      obtain ⟨heap, replayed, values⟩ := ih sooner
      have mirrors := mirrors_of_replay? replayed
      obtain ⟨heap', stepped⟩ := mirrors.takes follows.allowed
      obtain ⟨written, kept⟩ := mirrors.held follows stepped
      refine ⟨heap', by rw [replay?_concat, replayed, Option.bind_some, stepped], ?_⟩
      intro earlier operation' later place same takes
      -- The operation is the last one, or it was there before and its value is kept.
      cases later using List.reverseRecOn with
      | nil =>
          obtain ⟨rfl, single⟩ := List.append_inj' same rfl
          obtain rfl := List.singleton_inj.mp single
          exact written place takes
      | append_singleton later last =>
          rw [← List.cons_append, ← List.append_assoc] at same
          obtain ⟨same, -⟩ := List.append_inj' same rfl
          obtain ⟨slot, puts⟩ := exists_slot?_of_place? takes (earlier.length + 1)
          rw [puts]
          exact kept _ _ _ ((values earlier operation' later place same takes).trans puts)

end Heap

end BlockScribe
