import BlockScribe.Proofs.Document.Order

/-!
# Content laid flat run by run

A flat text can be made in one pass over the runs, with a count of the
characters so far in place of the length of the text.  The count is always that
length, so the pass makes the same text and the same spans.  Spans of one name
stand one behind the other, there is one for each link that shows some text, and
laying two lists of items flat one behind the other only shifts the second.
-/

namespace BlockScribe

def Span.shift (distance : Nat) (span : Span) : Span :=
  { span with start := span.start + distance, stop := span.stop + distance }

namespace FlatText

/-! ## One pass over the runs -/

namespace Growing

/-- One more piece at the end, with spans of its own. -/
def extend (flat : Growing) (text : String) (spans : List Span) : Growing :=
  ⟨flat.text ++ text, flat.spans ++ spans, flat.count + text.length⟩

theorem push_eq (flat : Growing) (run : Run) :
    flat.push run = flat.extend run.text (runSpans flat.count run) := by
  by_cases empty : run.text = "" <;> simp [push, extend, runSpans, empty]

theorem foldl_push (flat : Growing) (runs : List Run) :
    runs.foldl push flat = flat.extend (textOf runs) (runsSpans flat.count runs) := by
  induction runs generalizing flat with
  | nil => simp [extend, textOf, runsSpans]
  | cons run runs ih =>
      rw [List.foldl_cons, push_eq, ih]
      simp [extend, textOf, runsSpans, String.append_assoc, Nat.add_assoc]

theorem take_eq (flat : Growing) (item : InlineItem) :
    flat.take item = flat.extend (textOf item.runs) (itemSpans flat.count item) := by
  cases item with
  | plain text =>
      simp [take, push_eq, extend, itemSpans, linkSpans, InlineItem.runs, runsSpans, textOf,
        Run.plain]
  | run run =>
      simp [take, push_eq, extend, itemSpans, linkSpans, InlineItem.runs, runsSpans, textOf]
  | link link =>
      by_cases empty : (textOf link.runs).length = 0
      · simp [take, foldl_push, extend, itemSpans, linkSpans, itemLength, InlineItem.runs, empty]
      · have shown : 0 < (textOf link.runs).length := Nat.pos_of_ne_zero empty
        simp [take, foldl_push, extend, itemSpans, linkSpans, itemLength, InlineItem.runs, empty,
          shown]

theorem foldl_take (flat : Growing) (items : List InlineItem) :
    items.foldl take flat =
      flat.extend (textOf (items.flatMap (·.runs))) (itemsSpans flat.count items) := by
  induction items generalizing flat with
  | nil => simp [extend, textOf, itemsSpans]
  | cons item items ih =>
      rw [List.foldl_cons, take_eq, ih]
      simp [extend, textOf, itemsSpans, itemLength, String.append_assoc, Nat.add_assoc]

end Growing

/-- The pass makes the flat text, and its count is the length of that. -/
theorem grow_eq (items : List InlineItem) :
    grow items = ⟨(ofItems items).text, (ofItems items).spans, (ofItems items).text.length⟩ := by
  rw [grow, Growing.foldl_take]
  simp [Growing.extend, ofItems]

/-! ## One list of items behind another -/

theorem runSpans_add (start distance : Nat) (run : Run) :
    runSpans (start + distance) run = (runSpans start run).map (Span.shift distance) := by
  rw [runSpans, runSpans]
  split
  · rfl
  · simp [Span.shift, Nat.add_right_comm]

theorem runsSpans_add (start distance : Nat) (runs : List Run) :
    runsSpans (start + distance) runs = (runsSpans start runs).map (Span.shift distance) := by
  induction runs generalizing start with
  | nil => rfl
  | cons run runs ih => simp [runsSpans, runSpans_add, Nat.add_right_comm start distance, ih]

theorem linkSpans_add (start distance : Nat) (item : InlineItem) :
    linkSpans (start + distance) item = (linkSpans start item).map (Span.shift distance) := by
  cases item with
  | plain | run => rfl
  | link link =>
      by_cases empty : itemLength (.link link) = 0 <;>
        simp [linkSpans, empty, Span.shift, Nat.add_right_comm]

theorem itemsSpans_add (start distance : Nat) (items : List InlineItem) :
    itemsSpans (start + distance) items = (itemsSpans start items).map (Span.shift distance) := by
  induction items generalizing start with
  | nil => rfl
  | cons item items ih =>
      simp [itemsSpans, itemSpans, runsSpans_add, linkSpans_add,
        Nat.add_right_comm start distance, ih]

theorem itemsSpans_append (start : Nat) (a b : List InlineItem) :
    itemsSpans start (a ++ b) =
      itemsSpans start a ++ itemsSpans (start + (textOf (a.flatMap (·.runs))).length) b := by
  induction a generalizing start with
  | nil => simp [itemsSpans, textOf]
  | cons item a ih =>
      rw [List.cons_append, itemsSpans, ih, itemsSpans, length_textOf_flatMap_cons]
      simp [Nat.add_assoc]

theorem ofItems_append (a b : List InlineItem) :
    (ofItems (a ++ b)).text = (ofItems a).text ++ (ofItems b).text ∧
      (ofItems (a ++ b)).spans =
        (ofItems a).spans ++ (ofItems b).spans.map (Span.shift (ofItems a).text.length) := by
  constructor
  · simp [ofItems, textOf]
  · simp only [ofItems, itemsSpans_append, ← itemsSpans_add]

/-! ## Spans of links -/

/-- One of the runs stands over the position, the first of them at `start`. -/
def Occupied : Nat → List Run → Nat → Prop
  | _, [], _ => False
  | start, run :: runs, position =>
      (start ≤ position ∧ position < start + run.text.length) ∨
        Occupied (start + run.text.length) runs position

theorem occupied_iff (start : Nat) (runs : List Run) (position : Nat) :
    Occupied start runs position ↔
      start ≤ position ∧ position < start + (textOf runs).length := by
  induction runs generalizing start with
  | nil => simp [Occupied, textOf]
  | cons run runs ih =>
      rw [Occupied, ih, length_textOf_cons]
      omega

/-- The span of a link of which the first run is at `start`: it covers its runs and no more. -/
structure Spanned (start : Nat) (link : Link) (span : Span) : Prop where
  name : span.name = linkMark
  value : span.value = .text link.href
  covers : ∀ position,
    (span.start ≤ position ∧ position < span.stop) ↔ Occupied start link.runs position

theorem spanned_iff {start : Nat} {link : Link} (shown : textOf link.runs ≠ "") (span : Span) :
    Spanned start link span ↔
      span = ⟨linkMark, .text link.href, start, start + (textOf link.runs).length⟩ := by
  have visible : 0 < (textOf link.runs).length :=
    Nat.pos_of_ne_zero fun none => shown (String.length_eq_zero_iff.mp none)
  constructor
  · rintro ⟨name, value, covers⟩
    simp only [occupied_iff] at covers
    -- The first and the last character that either covers fix its ends.
    have first := covers start
    have last := covers (start + (textOf link.runs).length - 1)
    have first' := covers span.start
    have last' := covers (span.stop - 1)
    obtain ⟨_, _, _, _⟩ := span
    simp only [Span.mk.injEq] at *
    refine ⟨name, value, ?_, ?_⟩ <;> omega
  · rintro rfl
    exact ⟨rfl, rfl, fun position => (occupied_iff start link.runs position).symm⟩

theorem mem_linkSpans {start : Nat} {item : InlineItem} {span : Span} :
    span ∈ linkSpans start item ↔
      ∃ link, item = .link link ∧ textOf link.runs ≠ "" ∧ Spanned start link span := by
  cases item with
  | plain | run => simp [linkSpans]
  | link link =>
      by_cases empty : textOf link.runs = ""
      · simp [linkSpans, itemLength, InlineItem.runs, empty]
      · simp [linkSpans, itemLength, InlineItem.runs, empty, spanned_iff empty]

/-- No style has the name of the mark for links. -/
theorem name_ne_of_mem_runsSpans {start : Nat} {runs : List Run} {span : Span}
    (member : span ∈ runsSpans start runs) : span.name ≠ linkMark := by
  intro same
  have styled := name_of_mem_runsSpans member
  rw [same] at styled
  exact absurd styled (by decide)

theorem mem_itemsSpans {start : Nat} {items : List InlineItem} {span : Span} :
    span ∈ itemsSpans start items ∧ span.name = linkMark ↔
      ∃ before link after, items = before ++ .link link :: after ∧ textOf link.runs ≠ "" ∧
        Spanned (start + (textOf (before.flatMap (·.runs))).length) link span := by
  constructor
  · rintro ⟨member, name⟩
    induction items generalizing start with
    | nil => cases member
    | cons item items ih =>
        rcases List.mem_append.mp member with here | later
        · rcases List.mem_append.mp here with inner | around
          · exact absurd name (name_ne_of_mem_runsSpans inner)
          · obtain ⟨link, rfl, shown, spanned⟩ := mem_linkSpans.mp around
            exact ⟨[], link, items, rfl, shown, spanned⟩
        · obtain ⟨before, link, after, rfl, shown, spanned⟩ := ih later
          refine ⟨item :: before, link, after, rfl, shown, ?_⟩
          rwa [length_textOf_flatMap_cons, ← Nat.add_assoc]
  · rintro ⟨before, link, after, rfl, shown, spanned⟩
    have around := mem_linkSpans.mpr ⟨link, rfl, shown, spanned⟩
    refine ⟨?_, spanned.name⟩
    simp [itemsSpans_append, itemsSpans, itemSpans, around]

/-! ## Flat texts -/

/--
One pass over the runs lays content flat, and the count that it keeps is the
number of characters.  Every span covers some of them, spans of one name do not
overlap and come in the order of the text, and those of links are over the runs
of one link each, for all links with some text.  Items that come behind others
are laid flat behind them.
-/
theorem ofInline_pass (content : Inline) :
    let flat := ofInline content
    grow content.toItems = ⟨flat.text, flat.spans, flat.text.length⟩ ∧
      flat.text = String.join ((content.toItems.flatMap (·.runs)).map (·.text)) ∧
      (∀ span ∈ flat.spans,
        0 ≤ span.start ∧ span.start < span.stop ∧ span.stop ≤ flat.text.length) ∧
      (flat.spans.Pairwise fun span later => span.name = later.name → span.stop ≤ later.start) ∧
      (∀ span, span ∈ flat.spans ∧ span.name = linkMark ↔
        ∃ before link after, content.toItems = before ++ .link link :: after ∧
          textOf link.runs ≠ "" ∧
          Spanned (textOf (before.flatMap (·.runs))).length link span) ∧
      ∀ a b, content.toItems = a ++ b →
        flat.text = (ofItems a).text ++ (ofItems b).text ∧
          flat.spans =
            (ofItems a).spans ++ (ofItems b).spans.map (Span.shift (ofItems a).text.length) := by
  intro flat
  refine ⟨grow_eq content.toItems, rfl, flat.inside, ?_, fun span => ?_, fun a b cut => ?_⟩
  · exact List.pairwise_map.mp (apart_ofInline content)
  · show span ∈ itemsSpans 0 content.toItems ∧ span.name = linkMark ↔ _
    rw [mem_itemsSpans]
    simp only [Nat.zero_add]
  · have whole := ofItems_append a b
    rwa [← cut] at whole

end FlatText

end BlockScribe
