import BlockScribe.Document.Heap
import BlockScribe.Proofs.Document.UniqueReading
import BlockScribe.Proofs.Result
import Mathlib.Data.List.Induction

/-!
# Histories of operations

What the operations before one say about a document: which objects there are
and of what kind, which places in them are taken, and which marks lie over
texts.  An operation follows a history in good order if it addresses an object
that is there, appends to a list or a text, takes a key that is free, and marks
some characters of a finished text that have no mark of that name.
-/

namespace BlockScribe

namespace Operation

def place? : Operation → Option Place
  | .make _ _ place | .set _ place _ => some place
  | .markBegin .. | .markEnd .. => none

def made? : Operation → Option ObjectKind
  | .make kind _ _ => some kind
  | _ => none

def begun? : Operation → Option OpenMark
  | .markBegin object start name value => some ⟨object, start, name, value⟩
  | _ => none

def isEnd : Operation → Bool
  | .markEnd .. => true
  | _ => false

@[simp] theorem isEnd_markBegin (object start : Nat) (name : String) (value : Scalar) :
    (markBegin object start name value).isEnd = false := rfl

theorem isEnd_of_place? {operation : Operation} {place : Place}
    (takes : operation.place? = some place) : operation.isEnd = false := by
  cases operation with
  | make | set => rfl
  | markBegin | markEnd => cases takes

end Operation

namespace History

/-- The kind of an object, which is the root or has the number of what made it. -/
def kind? (before : List Operation) (object : Nat) : Option ObjectKind :=
  if object = rootObject then some .map
  else before[object - firstNumber]?.bind Operation.made?

/-- The places in an object that were taken, in the order in which they were. -/
def places (before : List Operation) (object : Nat) : List Place :=
  before.filterMap fun operation =>
    if operation.object = object then operation.place? else none

/-- The mark that has begun last and waits for its end. -/
def openMark? (before : List Operation) : Option OpenMark :=
  before.getLast?.bind Operation.begun?

/-- The marks over a text, each of which was put there by two operations in a row. -/
def marks : List Operation → Nat → List Mark
  | .markBegin object start name value :: .markEnd object' stop _ :: rest, text =>
      if object = text ∧ object' = text then ⟨name, value, start, stop⟩ :: marks rest text
      else marks rest text
  | _ :: rest, text => marks rest text
  | [], _ => []

/-- What no document refuses: the object is there and of the right kind, and positions are in
range.  The two ends of a mark are put side by side, and nothing else comes between them. -/
inductive Allowed (before : List Operation) : Operation → Prop
  | entry {operation : Operation} {name : String} (closed : openMark? before = none)
      (isMap : kind? before operation.object = some .map)
      (key : operation.place? = some (.key name)) : Allowed before operation
  | item {operation : Operation} {index : Nat} (closed : openMark? before = none)
      (isList : kind? before operation.object = some .list)
      (position : operation.place? = some (.index index))
      (inRange : index ≤ (places before operation.object).length) : Allowed before operation
  | character {text index : Nat} {c : Char} (closed : openMark? before = none)
      (isText : kind? before text = some .text)
      (inRange : index ≤ (places before text).length) :
      Allowed before (.set text (.index index) (.text c.toString))
  | markBegin {text start : Nat} {name : String} {value : Scalar}
      (closed : openMark? before = none) (isText : kind? before text = some .text)
      (inRange : start ≤ (places before text).length) :
      Allowed before (.markBegin text start name value)
  | markEnd {begun : OpenMark} {stop : Nat} {grows : Bool} (opened : openMark? before = some begun)
      (isText : kind? before begun.object = some .text) (nonempty : begun.start < stop)
      (inRange : stop ≤ (places before begun.object).length) :
      Allowed before (.markEnd begun.object stop grows)

/-- Good order: lists and texts grow at their end, no key is taken twice, and a text has all of
its characters before the first mark.  A mark covers some of them, and none that a mark of the
same name is over. -/
inductive Follows (before : List Operation) : Operation → Prop
  | entry {operation : Operation} {name : String} (closed : openMark? before = none)
      (isMap : kind? before operation.object = some .map)
      (key : operation.place? = some (.key name))
      (free : .key name ∉ places before operation.object) : Follows before operation
  | item {operation : Operation} (closed : openMark? before = none)
      (isList : kind? before operation.object = some .list)
      (atEnd : operation.place? = some (.index (places before operation.object).length)) :
      Follows before operation
  | character {text : Nat} {c : Char} (closed : openMark? before = none)
      (isText : kind? before text = some .text)
      (unmarked : ∀ earlier ∈ before, earlier.object = text → earlier.place?.isSome) :
      Follows before (.set text (.index (places before text).length) (.text c.toString))
  | markBegin {text start : Nat} {name : String} {value : Scalar}
      (closed : openMark? before = none) (isText : kind? before text = some .text)
      (inside : start < (places before text).length)
      (clear : ∀ mark ∈ marks before text, mark.name = name → mark.stop ≤ start) :
      Follows before (.markBegin text start name value)
  | markEnd {begun : OpenMark} {stop : Nat} {grows : Bool} (opened : openMark? before = some begun)
      (isText : kind? before begun.object = some .text) (nonempty : begun.start < stop)
      (inside : stop ≤ (places before begun.object).length) :
      Follows before (.markEnd begun.object stop grows)

/-- Each operation follows those before it in good order. -/
def Orderly (before : List Operation) : List Operation → Prop
  | [] => True
  | operation :: rest => Follows before operation ∧ Orderly (before ++ [operation]) rest

variable {before a b : List Operation} {operation : Operation} {object : Nat}

theorem Follows.allowed (follows : Follows before operation) : Allowed before operation := by
  cases follows with
  | entry closed isMap key free => exact .entry closed isMap key
  | item closed isList atEnd => exact .item closed isList atEnd (Nat.le_refl _)
  | character closed isText unmarked => exact .character closed isText (Nat.le_refl _)
  | markBegin closed isText inside clear => exact .markBegin closed isText inside.le
  | markEnd opened isText nonempty inside => exact .markEnd opened isText nonempty inside

theorem orderly_append :
    Orderly before (a ++ b) ↔ Orderly before a ∧ Orderly (before ++ a) b := by
  induction a generalizing before with
  | nil => simp [Orderly]
  | cons operation a ih =>
      rw [List.cons_append, Orderly, Orderly, ih, and_assoc, List.append_assoc,
        List.singleton_append]

/-! ## Longer histories -/

theorem places_append (before more : List Operation) (object : Nat) :
    places (before ++ more) object = places before object ++ places more object :=
  List.filterMap_append

theorem places_singleton (operation : Operation) (object : Nat) :
    places [operation] object =
      if operation.object = object then operation.place?.toList else [] := by
  by_cases here : operation.object = object
  · cases place : operation.place? <;> simp [places, here, place]
  · simp [places, here]

theorem places_of_elsewhere (elsewhere : ∀ operation ∈ before, operation.object ≠ object) :
    places before object = [] := by
  refine List.filterMap_eq_nil_iff.mpr fun operation member => ?_
  rw [if_neg (elsewhere operation member)]

theorem kind?_append {kind : ObjectKind} (known : kind? before object = some kind)
    (more : List Operation) : kind? (before ++ more) object = some kind := by
  unfold kind? at known ⊢
  split at known
  · next root => rwa [if_pos root]
  · next other =>
      obtain ⟨maker, there, made⟩ := Option.bind_eq_some_iff.mp known
      have ⟨inside, _⟩ := List.getElem?_eq_some_iff.mp there
      rw [if_neg other, List.getElem?_append_left inside, there]
      exact made

theorem kind?_concat (before : List Operation) (operation : Operation) (object : Nat) :
    kind? (before ++ [operation]) object =
      if object = before.length + 1 then operation.made? else kind? before object := by
  unfold kind?
  by_cases root : object = rootObject
  · have other : object ≠ before.length + 1 := by simp [root, rootObject]
    rw [if_pos root, if_neg other, if_pos root]
  · have positive : object ≠ 0 := root
    rw [if_neg root, if_neg root, firstNumber, List.getElem?_append]
    by_cases made : object = before.length + 1
    · simp [made]
    · rw [if_neg made]
      split
      · rfl
      · next beyond =>
          have past : [operation].length ≤ object - 1 - before.length := by
            rw [List.length_singleton]
            omega
          rw [List.getElem?_eq_none past, List.getElem?_eq_none (by omega)]

theorem kind?_of_fresh (fresh : before.length < object) : kind? before object = none := by
  have other : object ≠ rootObject := Nat.ne_of_gt (Nat.zero_lt_of_lt fresh)
  have beyond : before.length ≤ object - firstNumber := Nat.le_sub_one_of_lt fresh
  rw [kind?, if_neg other, List.getElem?_eq_none beyond, Option.bind_none]

theorem le_length_of_kind? {kind : ObjectKind} (known : kind? before object = some kind) :
    object ≤ before.length := by
  by_contra beyond
  rw [kind?_of_fresh (Nat.lt_of_not_le beyond)] at known
  cases known

theorem openMark?_concat (before : List Operation) (operation : Operation) :
    openMark? (before ++ [operation]) = operation.begun? := by
  rw [openMark?, List.getLast?_concat, Option.bind_some]

theorem exists_of_openMark? {begun : OpenMark} (opened : openMark? before = some begun) :
    ∃ earlier, before =
      earlier ++ [.markBegin begun.object begun.start begun.name begun.value] := by
  obtain ⟨last, isLast, starts⟩ := Option.bind_eq_some_iff.mp opened
  obtain ⟨earlier, rfl⟩ := List.getLast?_eq_some_iff.mp isLast
  cases last <;> cases starts
  exact ⟨earlier, rfl⟩

/-- Marks are put by operations in a row, so a history may be cut before all but the second. -/
theorem marks_append (whole : ∀ operation ∈ b.head?, operation.isEnd = false) (text : Nat) :
    marks (a ++ b) text = marks a text ++ marks b text := by
  fun_induction marks a text with
  | case1 text object start name value object' stop grows rest here ih =>
      rw [List.cons_append, List.cons_append, marks, if_pos here, ih, List.cons_append]
  | case2 text object start name value object' stop grows rest elsewhere ih =>
      rw [List.cons_append, List.cons_append, marks, if_neg elsewhere, ih]
  | case3 first rest text single ih =>
      rw [List.cons_append, marks, ih]
      rintro object start name value object' stop grows tail rfl same
      cases rest with
      | nil =>
          rw [List.nil_append] at same
          cases whole (.markEnd object' stop grows) (by simp [same])
      | cons second rest =>
          obtain ⟨rfl, -⟩ := List.cons.inj same
          exact single object start name value object' stop grows rest rfl rfl
  | case4 => rfl

theorem marks_concat (notEnd : operation.isEnd = false) (text : Nat) :
    marks (before ++ [operation]) text = marks before text := by
  rw [marks_append (by simpa using notEnd)]
  simp [marks]

theorem marks_concat_end {begun : OpenMark} (opened : openMark? before = some begun)
    (stop : Nat) (grows : Bool) (text : Nat) :
    marks (before ++ [.markEnd begun.object stop grows]) text = marks before text ++
      if begun.object = text then [⟨begun.name, begun.value, begun.start, stop⟩] else [] := by
  obtain ⟨earlier, rfl⟩ := exists_of_openMark? opened
  rw [marks_concat (Operation.isEnd_markBegin ..), List.append_assoc, marks_append (by simp)]
  simp [marks]

/-! ## Good order -/

theorem Follows.known (follows : Follows before operation) :
    ∃ kind, kind? before operation.object = some kind := by
  cases follows with
  | entry _ known | item _ known | character _ known | markBegin _ known | markEnd _ known =>
      exact ⟨_, known⟩

/-- Objects have been made by the time they are addressed. -/
theorem object_le_of_orderly (orderly : Orderly before a)
    (known : ∀ operation ∈ before, operation.object ≤ before.length) :
    ∀ operation ∈ before ++ a, operation.object ≤ (before ++ a).length := by
  induction a generalizing before with
  | nil => simpa using known
  | cons operation a ih =>
      obtain ⟨follows, later⟩ := orderly
      rw [← List.singleton_append, ← List.append_assoc]
      refine ih later fun earlier member => ?_
      rw [List.length_append]
      rcases List.mem_append.mp member with member | member
      · exact (known earlier member).trans (Nat.le_add_right _ _)
      · obtain ⟨kind, there⟩ := follows.known
        rw [List.mem_singleton.mp member]
        exact (le_length_of_kind? there).trans (Nat.le_add_right _ _)

/-- No two marks of one name are over the same character. -/
def Apart (marks : List Mark) : Prop :=
  marks.Pairwise fun mark later => mark.name = later.name → mark.stop ≤ later.start

theorem clear_of_openMark? (orderly : Orderly [] before) {begun : OpenMark}
    (opened : openMark? before = some begun) :
    ∀ mark ∈ marks before begun.object, mark.name = begun.name → mark.stop ≤ begun.start := by
  obtain ⟨earlier, rfl⟩ := exists_of_openMark? opened
  obtain ⟨-, begins, -⟩ := orderly_append.mp orderly
  rw [marks_concat (Operation.isEnd_markBegin ..)]
  generalize starts : Operation.markBegin _ _ _ _ = operation at begins
  cases begins with
  | entry _ _ takes | item _ _ takes =>
      subst starts
      cases takes
  | character | markEnd => cases starts
  | markBegin _ _ _ clear =>
      cases starts
      exact clear

theorem apart_marks (orderly : Orderly [] before) (text : Nat) : Apart (marks before text) := by
  induction before using List.reverseRecOn with
  | nil => exact .nil
  | append_singleton before operation ih =>
      obtain ⟨sooner, follows, -⟩ := orderly_append.mp orderly
      have apart := ih sooner
      rw [List.nil_append] at follows
      cases follows with
      | entry _ _ takes _ | item _ _ takes =>
          rwa [marks_concat (Operation.isEnd_of_place? takes)]
      | character => rwa [marks_concat rfl]
      | markBegin => rwa [marks_concat rfl]
      | markEnd opened =>
          rw [marks_concat_end opened]
          split
          · next here =>
              refine List.pairwise_append.mpr
                ⟨apart, List.pairwise_singleton _ _, fun mark member other listed => ?_⟩
              rw [List.mem_singleton.mp listed]
              exact clear_of_openMark? sooner opened mark (here ▸ member)
          · rwa [List.append_nil]

end History

/-! ## Libraries of documents -/

/-- A document as others keep it: how it starts, and what comes of a call if it is not refused. -/
structure Library (σ ε : Type) where
  start : σ
  call : σ → Operation → Except ε σ

namespace Library

variable {σ ε : Type}

def perform (library : Library σ ε) (operations : List Operation) : Except ε σ :=
  operations.foldlM library.call library.start

theorem perform_concat (library : Library σ ε) (before : List Operation) (operation : Operation)
    {state : σ} (performed : library.perform before = .ok state) :
    library.perform (before ++ [operation]) = library.call state operation := by
  rw [perform] at performed ⊢
  rw [List.foldlM_append, performed]
  exact bind_pure (library.call state operation)

/-- After any calls that were taken, one that is allowed is taken as well. -/
def TakesAllowed (library : Library σ ε) : Prop :=
  ∀ before state operation, library.perform before = .ok state →
    History.Allowed before operation → ∃ state', library.call state operation = .ok state'

theorem perform_orderly {library : Library σ ε} (takes : library.TakesAllowed)
    {operations : List Operation} (orderly : History.Orderly [] operations) :
    ∃ document, library.perform operations = .ok document := by
  induction operations using List.reverseRecOn with
  | nil => exact ⟨library.start, rfl⟩
  | append_singleton operations operation ih =>
      obtain ⟨orderly, follows, -⟩ := History.orderly_append.mp orderly
      obtain ⟨state, performed⟩ := ih orderly
      obtain ⟨state', called⟩ := takes operations state operation performed follows.allowed
      exact ⟨state', (perform_concat library operations operation performed).trans called⟩

end Library

end BlockScribe
