import BlockScribe.Document.Heap
import BlockScribe.Document.Script
import BlockScribe.Document.View
import BlockScribe.Proofs.SortedMap

/-!
# Running scripts

A script runs where a heap stands: its operations are replayed from the next
number on.  It adds objects of its own, changes the one object it was given,
and leaves all others alone.  That is what `Script.Runs` says, and `Achieves`
carries it from the parts of a script to the whole.
-/

namespace BlockScribe

namespace Heap

def run? (heap : Heap) (operations : List Operation) : Option Heap :=
  operations.foldlM step? heap

theorem run?_append (heap : Heap) (a b : List Operation) :
    heap.run? (a ++ b) = (heap.run? a).bind (·.run? b) :=
  List.foldlM_append

theorem run?_cons (heap : Heap) (operation : Operation) (operations : List Operation) :
    heap.run? (operation :: operations) = (heap.step? operation).bind (·.run? operations) :=
  List.foldlM_cons

/-! ## Frames -/

/-- No mark is open, and the numbers to come are free. -/
structure Settled (heap : Heap) : Prop where
  closed : heap.openMark = none
  free : ∀ number, heap.count < number → heap.object? number = none

theorem Settled.le_count {heap : Heap} (settled : heap.Settled) {number : Nat} {object : Object}
    (here : heap.object? number = some object) : number ≤ heap.count := by
  by_contra beyond
  rw [settled.free number (Nat.lt_of_not_le beyond)] at here
  contradiction

/-- All objects of `heap` but `owner` are in `heap'` as they were. -/
structure Grows (owner : Nat) (heap heap' : Heap) : Prop where
  settled : heap'.Settled
  kept : ∀ number object, number ≠ owner → heap.object? number = some object →
    heap'.object? number = some object

theorem Grows.refl (owner : Nat) {heap : Heap} (settled : heap.Settled) :
    Grows owner heap heap :=
  ⟨settled, fun _ _ _ here => here⟩

theorem Grows.trans {owner : Nat} {a b c : Heap} (first : Grows owner a b)
    (second : Grows owner b c) : Grows owner a c :=
  ⟨second.settled, fun number object other here =>
    second.kept number object other (first.kept number object other here)⟩

theorem Grows.trans_fresh {owner made : Nat} {a b c : Heap} (first : Grows owner a b)
    (fresh : a.object? made = none) (second : Grows made b c) : Grows owner a c := by
  refine ⟨second.settled, fun number object other here => ?_⟩
  have distinct : number ≠ made := by
    rintro rfl
    rw [fresh] at here
    contradiction
  exact second.kept number object distinct (first.kept number object other here)

/-- All objects of `heap` from `base` on are in `later` as they were. -/
structure Keeps (base : Nat) (heap later : Heap) : Prop where
  settled : later.Settled
  kept : ∀ number object, base ≤ number → heap.object? number = some object →
    later.object? number = some object

theorem Keeps.trans {base : Nat} {a b c : Heap} (first : Keeps base a b)
    (second : Keeps base b c) : Keeps base a c :=
  ⟨second.settled, fun number object above here =>
    second.kept number object above (first.kept number object above here)⟩

theorem Keeps.mono {base base' : Nat} {heap later : Heap} (keeps : Keeps base heap later)
    (higher : base ≤ base') : Keeps base' heap later :=
  ⟨keeps.settled, fun number object above => keeps.kept number object (higher.trans above)⟩

theorem Grows.keeps {owner base : Nat} {heap heap' : Heap} (grows : Grows owner heap heap')
    (above : owner < base) : Keeps base heap heap' :=
  ⟨grows.settled, fun number object from_ => grows.kept number object (by omega)⟩

/-- Something holds in `heap`, and goes on to hold while its objects from `base` on are kept. -/
def Lasts (heap : Heap) (base : Nat) (holds : Heap → Prop) : Prop :=
  ∀ later, Keeps base heap later → holds later

theorem Lasts.of_keeps {heap later : Heap} {base base' : Nat} {holds : Heap → Prop}
    (lasts : heap.Lasts base holds) (higher : base' ≤ base) (keeps : Keeps base' heap later) :
    later.Lasts base holds :=
  fun _ after => lasts _ ((keeps.mono higher).trans after)

theorem Lasts.of_object {heap : Heap} {number : Nat} {object : Object} {holds : Heap → Prop}
    (here : heap.object? number = some object)
    (reads : ∀ later : Heap, later.object? number = some object → holds later) :
    heap.Lasts number holds :=
  fun later keeps => reads later (keeps.kept number object (Nat.le_refl _) here)

/-! ## Single operations -/

@[simp] theorem object?_insert (heap : Heap) (count number other : Nat) (object : Object)
    (openMark : Option OpenMark) :
    (Heap.mk count (heap.objects.insert number object) openMark).object? other =
      if other = number then some object else heap.object? other := by
  rw [object?, Std.TreeMap.getElem?_insert]
  by_cases same : other = number
  · simp [same]
  · have distinct : compare number other ≠ .eq := by
      simpa [Nat.compare_eq_eq] using Ne.symm same
    simp [same, distinct, object?]

@[simp] theorem object?_update (heap : Heap) (number other : Nat) (object : Object) :
    (heap.update number object).object? other =
      if other = number then some object else heap.object? other :=
  object?_insert heap _ number other object _

theorem Grows.of_update {heap : Heap} (settled : heap.Settled) {owner : Nat}
    {object : Object} (here : heap.object? owner = some object) (object' : Object) :
    Grows owner heap (heap.update owner object') := by
  refine ⟨⟨settled.closed, fun number beyond => ?_⟩, fun number object other there => ?_⟩
  · have below := settled.le_count here
    have beyond : heap.count + 1 < number := beyond
    rw [object?_update, if_neg (by omega), settled.free number (by omega)]
  · rw [object?_update, if_neg other, there]

theorem step?_set {heap : Heap} (settled : heap.Settled) {owner : Nat} {place : Place}
    {value : Scalar} {object object' : Object} (here : heap.object? owner = some object)
    (put : putScalar? object place value = some object') :
    heap.step? (.set owner place value) = some (heap.update owner object') := by
  simp [step?, settled.closed, here, put]

theorem step?_make {heap : Heap} (settled : heap.Settled) (kind : ObjectKind) {owner : Nat}
    {place : Place} {object object' : Object} (here : heap.object? owner = some object)
    (put : putSlot? object place (.object (heap.count + 1)) = some object') :
    ∃ heap', heap.step? (.make kind owner place) = some heap' ∧
      heap'.count = heap.count + 1 ∧ Grows owner heap heap' ∧
      heap'.object? owner = some object' ∧
      heap'.object? (heap.count + 1) = some (.empty kind) := by
  have below := settled.le_count here
  have grows := Grows.of_update settled here object'
  refine ⟨{ heap.update owner object' with
    objects := (heap.update owner object').objects.insert (heap.count + 1) (.empty kind) },
    ?_, rfl, ⟨⟨settled.closed, fun number beyond => ?_⟩, fun number object other there => ?_⟩,
    ?_, ?_⟩
  · simp [step?, settled.closed, here, put]
  · have beyond : heap.count + 1 < number := beyond
    rw [object?_insert, if_neg (by omega)]
    exact grows.settled.free number beyond
  · have old := settled.le_count there
    rw [object?_insert, if_neg (by omega)]
    exact grows.kept number object other there
  · rw [object?_insert, if_neg (by omega), object?_update, if_pos rfl]
  · rw [object?_insert, if_pos rfl]

end Heap

def Span.mark (span : Span) : Mark :=
  ⟨span.name, span.value, span.start, span.stop⟩

namespace Script

open Heap

/-! ## Whole scripts -/

structure Runs (script : Script) (owner : Nat) (heap heap' : Heap) : Prop where
  run : heap.run? (script (heap.count + 1)) = some heap'
  count : heap'.count = heap.count + (script (heap.count + 1)).length
  grows : Grows owner heap heap'

theorem Runs.nothing {owner : Nat} {heap : Heap} (settled : heap.Settled) :
    Script.nothing.Runs owner heap heap :=
  ⟨rfl, rfl, .refl owner settled⟩

theorem Runs.append {a b : Script} {owner : Nat} {heap heap' heap'' : Heap}
    (first : a.Runs owner heap heap') (second : b.Runs owner heap' heap'') :
    (a ++ b).Runs owner heap heap'' := by
  have next : heap.count + 1 + (a (heap.count + 1)).length = heap'.count + 1 := by
    rw [first.count]; omega
  refine ⟨?_, ?_, first.grows.trans second.grows⟩
  · rw [append_apply, run?_append, first.run, next]
    exact second.run
  · rw [append_apply, List.length_append, next, second.count, first.count]
    omega

/-- A script that runs, and where it does, ends in a heap with a property. -/
def Achieves (script : Script) (owner : Nat) (heap : Heap) (post : Heap → Prop) : Prop :=
  ∃ heap', script.Runs owner heap heap' ∧ post heap'

variable {owner : Nat} {heap : Heap} {post : Heap → Prop}

theorem Achieves.mono {script : Script} {before : Heap → Prop}
    (achieves : script.Achieves owner heap before)
    (weaker : ∀ heap', Grows owner heap heap' → before heap' → post heap') :
    script.Achieves owner heap post :=
  let ⟨heap', runs, holds⟩ := achieves
  ⟨heap', runs, weaker heap' runs.grows holds⟩

theorem Achieves.nothing (settled : heap.Settled) (holds : post heap) :
    Script.nothing.Achieves owner heap post :=
  ⟨heap, .nothing settled, holds⟩

theorem Achieves.append {a b : Script} {between : Heap → Prop}
    (first : a.Achieves owner heap between)
    (second : ∀ heap', Grows owner heap heap' → between heap' → b.Achieves owner heap' post) :
    (a ++ b).Achieves owner heap post := by
  obtain ⟨heap', runs, holds⟩ := first
  obtain ⟨heap'', runs', holds'⟩ := second heap' runs.grows holds
  exact ⟨heap'', runs.append runs', holds'⟩

theorem Achieves.setting (settled : heap.Settled) {place : Place} {value : Scalar}
    {object object' : Object} (here : heap.object? owner = some object)
    (put : putScalar? object place value = some object') :
    (setting owner place value).Achieves owner heap
      fun heap' => heap'.object? owner = some object' := by
  refine ⟨heap.update owner object', ⟨?_, rfl, .of_update settled here object'⟩, ?_⟩
  · simp [Script.setting, single, run?, step?_set settled here put]
  · exact (object?_update heap owner owner object').trans (if_pos rfl)

theorem Achieves.making (settled : heap.Settled) {kind : ObjectKind} {place : Place}
    {object object' : Object} {body : Nat → Script} {inner : Heap → Prop}
    (here : heap.object? owner = some object)
    (put : putSlot? object place (.object (heap.count + 1)) = some object')
    (fill : ∀ heap', heap'.Settled → heap'.object? (heap.count + 1) = some (.empty kind) →
      (body (heap.count + 1)).Achieves (heap.count + 1) heap' inner) :
    (making kind owner place body).Achieves owner heap
      fun heap' => heap'.object? owner = some object' ∧ inner heap' := by
  obtain ⟨heap', step, count, grows, changed, made⟩ := step?_make settled kind here put
  obtain ⟨heap'', runs, holds⟩ := fill heap' grows.settled made
  have below := settled.le_count here
  have distinct : owner ≠ heap.count + 1 := by omega
  have fresh := settled.free (heap.count + 1) (Nat.lt_succ_self _)
  refine ⟨heap'', ⟨?_, ?_, grows.trans_fresh fresh runs.grows⟩,
    runs.grows.kept owner object' distinct changed, holds⟩
  · rw [Script.making, run?_cons, step]
    exact count ▸ runs.run
  · rw [Script.making, List.length_cons, runs.count, count]
    omega

/-- A script adds an object to its owner, which `grown` says what becomes of, and what the
object shows lasts. -/
def Adds (script : Script) (owner : Nat) (heap : Heap) (grown : Nat → Object)
    (shows : Nat → Heap → Prop) : Prop :=
  script.Achieves owner heap fun heap' => ∃ number, owner < number ∧
    heap'.object? owner = some (grown number) ∧ heap'.Lasts number (shows number)

theorem Adds.making (settled : heap.Settled) {kind : ObjectKind} {place : Place}
    {object : Object} {body : Nat → Script} {grown : Nat → Object} {shows : Nat → Heap → Prop}
    (here : heap.object? owner = some object)
    (put : ∀ number, putSlot? object place (.object number) = some (grown number))
    (fill : ∀ number (heap' : Heap), heap'.Settled → heap'.object? number = some (.empty kind) →
      (body number).Achieves number heap' fun heap'' => heap''.Lasts number (shows number)) :
    (making kind owner place body).Adds owner heap grown shows := by
  have below := settled.le_count here
  have made := Achieves.making settled here (put (heap.count + 1)) (fill (heap.count + 1))
  apply made.mono
  rintro heap' _ ⟨changed, lasts⟩
  exact ⟨heap.count + 1, Nat.lt_succ_of_le below, changed, lasts⟩

end Script

end BlockScribe
