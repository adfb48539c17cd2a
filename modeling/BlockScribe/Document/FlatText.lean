import BlockScribe.Block.Inline
import BlockScribe.Document.Scalar

/-!
# Flat text

Inline content as one text and spans over it, positions counted in characters.
The spans of an item are those of its runs, and for a link one more over all of
them.  Nothing is spanned where there are no characters.  A flat text can also be
made in one pass over the runs, which counts the characters instead of measuring
the text again and again.
-/

namespace BlockScribe

structure Span where
  name : String
  value : Scalar
  start : Nat
  stop : Nat
  deriving DecidableEq, Repr

/-- Whether a span covers some characters, and none but those from `start` to `stop`. -/
def Span.Within (start stop : Nat) (span : Span) : Prop :=
  start ≤ span.start ∧ span.start < span.stop ∧ span.stop ≤ stop

theorem Span.Within.mono {start stop start' stop' : Nat} {span : Span}
    (within : span.Within start stop) (below : start' ≤ start) (above : stop ≤ stop') :
    span.Within start' stop' :=
  ⟨Nat.le_trans below within.1, within.2.1, Nat.le_trans within.2.2 above⟩

structure FlatText where
  text : String
  spans : List Span
  inside : ∀ span ∈ spans, span.Within 0 text.length
  deriving DecidableEq, Repr

def linkMark : String := "link"

def Styles.marks (styles : Styles) : List (String × Scalar) :=
  let flag (name : String) (on : Bool) : List (String × Scalar) :=
    if on then [(name, .bool true)] else []
  let color (name : String) (value : Option String) : List (String × Scalar) :=
    value.toList.map fun value => (name, .text value)
  flag "bold" styles.bold ++ flag "italic" styles.italic ++ flag "underline" styles.underline ++
    flag "strike" styles.strike ++ flag "code" styles.code ++
    color "textColor" styles.textColor ++ color "backgroundColor" styles.backgroundColor

def InlineItem.runs : InlineItem → List Run
  | .plain value => [.plain value]
  | .run value => [value]
  | .link value => value.runs

def Inline.toItems : Inline → List InlineItem
  | .text value => [.plain value]
  | .items values => values

namespace FlatText

def textOf (runs : List Run) : String :=
  String.join (runs.map (·.text))

def runSpans (start : Nat) (run : Run) : List Span :=
  if run.text.isEmpty then []
  else run.styles.marks.map fun (name, value) => ⟨name, value, start, start + run.text.length⟩

def runsSpans : Nat → List Run → List Span
  | _, [] => []
  | start, run :: runs => runSpans start run ++ runsSpans (start + run.text.length) runs

def itemLength (item : InlineItem) : Nat :=
  (textOf item.runs).length

def linkSpans (start : Nat) : InlineItem → List Span
  | .link link =>
      let length := itemLength (.link link)
      if length = 0 then [] else [⟨linkMark, .text link.href, start, start + length⟩]
  | _ => []

def itemSpans (start : Nat) (item : InlineItem) : List Span :=
  runsSpans start item.runs ++ linkSpans start item

def itemsSpans : Nat → List InlineItem → List Span
  | _, [] => []
  | start, item :: items => itemSpans start item ++ itemsSpans (start + itemLength item) items

/-! ## Bounds -/

theorem within_runSpans (start : Nat) (run : Run) :
    ∀ span ∈ runSpans start run, span.Within start (start + run.text.length) := by
  intro span member
  rw [runSpans] at member
  split at member
  · simp at member
  · next visible =>
      obtain ⟨mark, -, rfl⟩ := List.mem_map.mp member
      have positive : 0 < run.text.length :=
        Nat.pos_of_ne_zero fun empty => visible (by simpa using empty)
      exact ⟨Nat.le_refl _, Nat.lt_add_of_pos_right positive, Nat.le_refl _⟩

theorem length_textOf_cons (run : Run) (runs : List Run) :
    (textOf (run :: runs)).length = run.text.length + (textOf runs).length := by
  simp [textOf]

theorem within_runsSpans (start : Nat) (runs : List Run) :
    ∀ span ∈ runsSpans start runs, span.Within start (start + (textOf runs).length) := by
  induction runs generalizing start with
  | nil => simp [runsSpans]
  | cons run runs ih =>
      intro span member
      rw [length_textOf_cons]
      rcases List.mem_append.mp member with here | later
      · exact (within_runSpans start run span here).mono (by omega) (by omega)
      · exact (ih _ span later).mono (by omega) (by omega)

theorem within_linkSpans (start : Nat) (item : InlineItem) :
    ∀ span ∈ linkSpans start item, span.Within start (start + itemLength item) := by
  intro span member
  cases item with
  | link link =>
      by_cases empty : itemLength (.link link) = 0
      · simp [linkSpans, empty] at member
      · simp only [linkSpans, empty, if_false, List.mem_singleton] at member
        rw [member]
        exact ⟨Nat.le_refl _, Nat.lt_add_of_pos_right (Nat.pos_of_ne_zero empty),
          Nat.le_refl _⟩
  | plain _ | run _ => simp [linkSpans] at member

theorem within_itemSpans (start : Nat) (item : InlineItem) :
    ∀ span ∈ itemSpans start item, span.Within start (start + itemLength item) := by
  intro span member
  rcases List.mem_append.mp member with inner | around
  · exact within_runsSpans start item.runs span inner
  · exact within_linkSpans start item span around

theorem length_textOf_flatMap_cons (item : InlineItem) (items : List InlineItem) :
    (textOf ((item :: items).flatMap (·.runs))).length =
      itemLength item + (textOf (items.flatMap (·.runs))).length := by
  simp [textOf, itemLength]

theorem within_itemsSpans (start : Nat) (items : List InlineItem) :
    ∀ span ∈ itemsSpans start items,
      span.Within start (start + (textOf (items.flatMap (·.runs))).length) := by
  induction items generalizing start with
  | nil => simp [itemsSpans]
  | cons item items ih =>
      intro span member
      rw [length_textOf_flatMap_cons]
      rcases List.mem_append.mp member with here | later
      · exact (within_itemSpans start item span here).mono (by omega) (by omega)
      · exact (ih _ span later).mono (by omega) (by omega)

/-! ## Whole texts -/

def ofItems (items : List InlineItem) : FlatText where
  text := textOf (items.flatMap (·.runs))
  spans := itemsSpans 0 items
  inside span member := by simpa using within_itemsSpans 0 items span member

def ofInline (content : Inline) : FlatText :=
  ofItems content.toItems

/-! ## In one pass -/

/-- A flat text that is not finished, and how many characters it has so far. -/
structure Growing where
  text : String
  spans : List Span
  count : Nat

namespace Growing

def push (flat : Growing) (run : Run) : Growing :=
  let stop := flat.count + run.text.length
  let marked := run.styles.marks.map fun (name, value) => Span.mk name value flat.count stop
  ⟨flat.text ++ run.text, if flat.count = stop then flat.spans else flat.spans ++ marked, stop⟩

def take (flat : Growing) : InlineItem → Growing
  | .plain text => flat.push (.plain text)
  | .run run => flat.push run
  | .link link =>
      let inner := link.runs.foldl push flat
      if flat.count < inner.count then
        let around := Span.mk linkMark (.text link.href) flat.count inner.count
        { inner with spans := inner.spans ++ [around] }
      else inner

end Growing

def grow (items : List InlineItem) : Growing :=
  items.foldl Growing.take ⟨"", [], 0⟩

end FlatText

end BlockScribe
