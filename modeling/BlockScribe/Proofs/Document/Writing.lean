import BlockScribe.Proofs.Document.Replay
import Mathlib.Data.List.Forall2

/-!
# What scripts write

The objects that the parts of a script leave behind.  Lists and texts grow at
their end, maps take in one entry after the other, and what is made in a list
can be read from then on whatever is made behind it.
-/

namespace BlockScribe

def FlatText.view (content : FlatText) : TextView :=
  .ofChars content.text.toList (content.spans.map Span.mark)

namespace Script

open Heap

variable {heap : Heap}

/-! ## Values, entries and marks -/

theorem values_list {list : Nat} (settled : heap.Settled) {slots : Array Slot}
    (here : heap.object? list = some (.list slots)) (scalars : List Scalar) :
    (values list slots.size scalars).Achieves list heap
      fun heap' => heap'.object? list = some (.list (slots ++ scalars.map Slot.scalar)) := by
  induction scalars generalizing heap slots with
  | nil => exact .nothing settled (by simpa using here)
  | cons value scalars ih =>
      have put : putScalar? (.list slots) (.index slots.size) value =
          some (.list (slots.push (.scalar value))) := by
        simp [putScalar?, putSlot?]
      apply Achieves.append (.setting settled here put)
      intro heap' grows pushed
      have rest := ih grows.settled pushed
      rw [Array.size_push] at rest
      apply rest.mono
      intro heap'' _ filled
      simpa using filled

theorem values_text {text : Nat} (settled : heap.Settled) {before : Array Char}
    (here : heap.object? text = some (.text before #[])) (chars : List Char) :
    (values text before.size (chars.map fun c => .text c.toString)).Achieves text heap
      fun heap' => heap'.object? text = some (.text (before ++ chars) #[]) := by
  induction chars generalizing heap before with
  | nil => exact .nothing settled (by simpa using here)
  | cons c chars ih =>
      have put : putScalar? (.text before #[]) (.index before.size) (.text c.toString) =
          some (.text (before.push c) #[]) := by
        simp [putScalar?]
      apply Achieves.append (.setting settled here put)
      intro heap' grows pushed
      have rest := ih grows.settled pushed
      rw [Array.size_push] at rest
      apply rest.mono
      intro heap'' _ filled
      simpa using filled

theorem settings_map {owner : Nat} (settled : heap.Settled) {map : SortedMap Slot}
    (here : heap.object? owner = some (.map map)) (entries : List (String × Scalar)) :
    (concat (entries.map fun (name, value) => setting owner (.key name) value)).Achieves owner heap
      fun heap' => heap'.object? owner =
        some (.map (map.insertAll (entries.map fun entry => (entry.1, .scalar entry.2)))) := by
  induction entries generalizing heap map with
  | nil => exact .nothing settled here
  | cons entry entries ih =>
      have put : putScalar? (.map map) (.key entry.1) entry.2 =
          some (.map (map.insert entry.1 (.scalar entry.2))) := rfl
      apply Achieves.append (.setting settled here put)
      intro heap' grows inserted
      exact ih grows.settled inserted

theorem mark_text {text : Nat} (settled : heap.Settled) {chars : Array Char}
    {marks : Array Mark} (here : heap.object? text = some (.text chars marks)) (span : Span)
    (inside : span.Within 0 chars.size) :
    (mark text span).Achieves text heap
      fun heap' => heap'.object? text = some (.text chars (marks.push span.mark)) := by
  have grows := Grows.of_update settled here (.text chars (marks.push span.mark))
  refine ⟨{ heap.update text (.text chars (marks.push span.mark)) with count := heap.count + 2 },
    ⟨?_, rfl, ⟨⟨settled.closed, ?_⟩, grows.kept⟩⟩, ?_⟩
  · show heap.run? [.markBegin text span.start span.name span.value,
      .markEnd text span.stop (span.name ≠ linkMark)] = _
    have here' : (Heap.mk (heap.count + 1) heap.objects
        (some ⟨text, span.start, span.name, span.value⟩)).object? text =
        some (.text chars marks) := here
    simp [run?, step?, settled.closed, here', inside.2.1, inside.2.2, Span.mark, update]
  · intro number beyond
    exact grows.settled.free number (Nat.lt_of_succ_lt beyond)
  · exact (object?_update heap text text _).trans (if_pos rfl)

theorem marks_text {text : Nat} (settled : heap.Settled) {chars : Array Char}
    {marks : Array Mark} (here : heap.object? text = some (.text chars marks)) (spans : List Span)
    (inside : ∀ span ∈ spans, span.Within 0 chars.size) :
    (concat (spans.map (mark text))).Achieves text heap
      fun heap' => heap'.object? text = some (.text chars (marks ++ spans.map Span.mark)) := by
  induction spans generalizing heap marks with
  | nil => exact .nothing settled (by simpa using here)
  | cons span spans ih =>
      have ⟨first, later⟩ := List.forall_mem_cons.mp inside
      apply Achieves.append (mark_text settled here span first)
      intro heap' grows marked
      apply (ih grows.settled marked later).mono
      intro heap'' _ filled
      simpa using filled

/-! ## Props and texts -/

theorem props_map {owner : Nat} (settled : heap.Settled) {entries : SortedMap Slot}
    (here : heap.object? owner = some (.map entries)) (map : SortedMap Scalar) :
    (props owner map).Adds owner heap
      (fun number => .map (entries.insert "props" (.object number)))
      (fun number later => later.map? number = some (map.mapValues Slot.scalar)) := by
  have whole : SortedMap.empty.insertAll
      (map.entries.map fun entry => (entry.1, Slot.scalar entry.2)) = map.mapValues .scalar :=
    SortedMap.ofList_entries (map.mapValues Slot.scalar)
  apply Adds.making settled here (fun _ => rfl)
  intro number heap₁ settled₁ made
  apply (settings_map settled₁ made map.entries).mono
  intro heap₂ _ filled
  rw [whole] at filled
  exact .of_object filled fun later there => by rw [map?, there]

theorem flatText_map {owner : Nat} (settled : heap.Settled) {entries : SortedMap Slot}
    (here : heap.object? owner = some (.map entries)) (content : FlatText) :
    (flatText owner content).Adds owner heap
      (fun number => .map (entries.insert "content" (.object number)))
      (fun number later => later.text? number = some content.view) := by
  apply Adds.making settled here (fun _ => rfl)
  intro number heap₁ settled₁ made
  apply Achieves.append (values_text settled₁ made content.text.toList)
  intro heap₂ grows₂ written
  have inside : ∀ span ∈ content.spans,
      span.Within 0 ((#[] : Array Char) ++ content.text.toList).size := by
    simpa [String.length_toList] using content.inside
  apply (marks_text grows₂.settled written content.spans inside).mono
  intro heap₃ _ marked
  refine .of_object marked fun later there => ?_
  simp [text?, there, FlatText.view]

theorem columnWidths_map {owner : Nat} (settled : heap.Settled) {entries : SortedMap Slot}
    (here : heap.object? owner = some (.map entries)) (widths : List Scalar) :
    (making .list owner (.key "columnWidths") fun list => values list 0 widths).Adds owner heap
      (fun number => .map (entries.insert "columnWidths" (.object number)))
      (fun number later => later.widthsAt? number = some widths) := by
  apply Adds.making settled here (fun _ => rfl)
  intro number heap₁ settled₁ made
  apply (values_list settled₁ made widths).mono
  intro heap₂ _ filled
  refine .of_object filled fun later there => ?_
  have slots : later.list? number = some (widths.map .scalar) := by simp [list?, there]
  simp [widthsAt?, slots, scalars?_map]

/-! ## Sequences -/

theorem sequence {α : Type} {list : Nat} (all : Nat → List α → Script)
    (one : Nat → α → Script) (shows : α → Nat → Heap → Prop)
    (nil : ∀ index, all index [] = nothing)
    (cons : ∀ index item items,
      all index (item :: items) = one index item ++ all (index + 1) items)
    (items : List α)
    (adds : ∀ item ∈ items, ∀ (heap : Heap) (slots : Array Slot), heap.Settled →
      heap.object? list = some (.list slots) →
      (one slots.size item).Adds list heap
        (fun number => .list (slots.push (.object number))) (shows item))
    (settled : heap.Settled) {slots : Array Slot}
    (here : heap.object? list = some (.list slots)) :
    (all slots.size items).Achieves list heap fun heap' => ∃ numbers : List Nat,
      heap'.object? list = some (.list (slots ++ numbers.map Slot.object)) ∧
      List.Forall₂ (fun number item => list < number ∧ heap'.Lasts number (shows item number))
        numbers items := by
  induction items generalizing heap slots with
  | nil =>
      rw [nil]
      exact .nothing settled ⟨[], by simpa using here, .nil⟩
  | cons item items ih =>
      have ⟨first, later⟩ := List.forall_mem_cons.mp adds
      rw [cons]
      apply Achieves.append (first heap slots settled here)
      rintro heap' grows ⟨number, above, pushed, lasts⟩
      have rest := ih later grows.settled pushed
      rw [Array.size_push] at rest
      apply rest.mono
      rintro heap'' grows' ⟨numbers, filled, shown⟩
      refine ⟨number :: numbers, by simpa using filled, .cons ⟨above, ?_⟩ shown⟩
      exact lasts.of_keeps (Nat.le_refl _) (grows'.keeps above)

/-- A list that starts out empty comes to hold its items, and they can be read for good. -/
theorem sequence_empty {α : Type} {list : Nat} (all : Nat → List α → Script)
    (one : Nat → α → Script) (shows : α → Nat → Heap → Prop)
    (nil : ∀ index, all index [] = nothing)
    (cons : ∀ index item items,
      all index (item :: items) = one index item ++ all (index + 1) items)
    (items : List α)
    (adds : ∀ item ∈ items, ∀ (heap : Heap) (slots : Array Slot), heap.Settled →
      heap.object? list = some (.list slots) →
      (one slots.size item).Adds list heap
        (fun number => .list (slots.push (.object number))) (shows item))
    (settled : heap.Settled) (here : heap.object? list = some (.empty .list)) :
    (all 0 items).Achieves list heap fun heap' => heap'.Lasts list fun later =>
      ∃ numbers, later.list? list = some (numbers.map .object) ∧
        List.Forall₂ (fun number item => list < number ∧ shows item number later)
          numbers items := by
  apply (sequence all one shows nil cons items adds settled here).mono
  rintro heap' _ ⟨numbers, filled, shown⟩ later keeps
  have slots := keeps.kept _ _ (Nat.le_refl _) filled
  refine ⟨numbers, by simp [list?, slots], shown.imp ?_⟩
  rintro number item ⟨above, lasts⟩
  exact ⟨above, lasts later (keeps.mono above.le)⟩

end Script

end BlockScribe
