import BlockScribe.Proofs.Document.Writing

/-!
# Marks over characters

Which marks cover which characters of a text.  A flat text is what its styled
characters say: each has the marks of the run that it comes from, and that of
the link around it.  Reading a text back finds the marks that were put on it,
however they are cut into stretches.
-/

namespace BlockScribe

def Mark.Covers (mark : Mark) (position : Nat) (name : String) (value : Scalar) : Prop :=
  mark.name = name ∧ mark.value = value ∧ mark.start ≤ position ∧ position < mark.stop

def Covered (marks : List Mark) (position : Nat) (name : String) (value : Scalar) : Prop :=
  ∃ mark ∈ marks, mark.Covers position name value

theorem covered_append {position : Nat} {name : String} {value : Scalar} (a b : List Mark) :
    Covered (a ++ b) position name value ↔
      Covered a position name value ∨ Covered b position name value := by
  simp only [Covered, List.mem_append, or_and_right, exists_or]

theorem covered_cons {position : Nat} {name : String} {value : Scalar} (mark : Mark)
    (marks : List Mark) :
    Covered (mark :: marks) position name value ↔
      mark.Covers position name value ∨ Covered marks position name value := by
  simp [Covered]

@[simp] theorem covered_nil (position : Nat) (name : String) (value : Scalar) :
    ¬Covered [] position name value := by
  simp [Covered]

/-! ## Styled characters -/

def Styles.mark? (styles : Styles) (name : String) : Option Scalar :=
  let flag (on : Bool) : Option Scalar := if on then some (.bool true) else none
  match name with
  | "bold" => flag styles.bold
  | "italic" => flag styles.italic
  | "underline" => flag styles.underline
  | "strike" => flag styles.strike
  | "code" => flag styles.code
  | "textColor" => styles.textColor.map .text
  | "backgroundColor" => styles.backgroundColor.map .text
  | _ => none

theorem Styles.mem_marks (styles : Styles) (name : String) (value : Scalar) :
    (name, value) ∈ styles.marks ↔ styles.mark? name = some value := by
  have flag (key : String) (on : Bool) :
      ((name, value) ∈ if on then [(key, Scalar.bool true)] else []) ↔
        name = key ∧ on ∧ value = .bool true := by
    cases on <;> simp
  have color (key : String) (given : Option String) :
      (name, value) ∈ given.toList.map (fun value => (key, Scalar.text value)) ↔
        name = key ∧ ∃ text, given = some text ∧ value = .text text := by
    cases given <;> simp
  simp only [marks, List.mem_append, flag, color]
  unfold mark?
  split <;> simp_all [@eq_comm Scalar]

structure StyledChar where
  char : Char
  styles : Styles
  href : Option String
  deriving DecidableEq, Repr

def StyledChar.mark? (c : StyledChar) (name : String) : Option Scalar :=
  if name = linkMark then c.href.map .text else c.styles.mark? name

def Run.styledChars (href : Option String) (run : Run) : List StyledChar :=
  run.text.toList.map fun char => ⟨char, run.styles, href⟩

def InlineItem.href? : InlineItem → Option String
  | .link value => some value.href
  | .plain _ | .run _ => none

def InlineItem.styledChars (item : InlineItem) : List StyledChar :=
  item.runs.flatMap (Run.styledChars item.href?)

def Inline.styledChars (content : Inline) : List StyledChar :=
  content.toItems.flatMap InlineItem.styledChars

@[simp] theorem Run.length_styledChars (href : Option String) (run : Run) :
    (run.styledChars href).length = run.text.length := by
  rw [styledChars, List.length_map, String.length_toList]

@[simp] theorem InlineItem.length_styledChars (item : InlineItem) :
    item.styledChars.length = FlatText.itemLength item := by
  rw [InlineItem.styledChars, FlatText.itemLength]
  induction item.runs with
  | nil => rfl
  | cons run runs ih => simp [FlatText.length_textOf_cons, ih]

/-- Among characters of which the first is at `start`, the one at `position` passes a test. -/
def Finds (start : Nat) (chars : List StyledChar) (position : Nat)
    (test : StyledChar → Prop) : Prop :=
  start ≤ position ∧ ∃ c, chars[position - start]? = some c ∧ test c

variable {start position : Nat} {name : String} {value : Scalar}

theorem finds_append (a b : List StyledChar) (test : StyledChar → Prop) :
    Finds start (a ++ b) position test ↔
      Finds start a position test ∨ Finds (start + a.length) b position test := by
  -- Subtraction stops at zero, so positions before `start` fall in the first case.
  by_cases here : position - start < a.length
  · rw [Finds, Finds, Finds, List.getElem?_append_left here]
    constructor
    · exact Or.inl
    · rintro (found | ⟨later, -⟩)
      · exact found
      · omega
  · have shifted : position - start - a.length = position - (start + a.length) := by omega
    have absent : a[position - start]? = none := by simpa using here
    rw [Finds, Finds, Finds, List.getElem?_append_right (Nat.le_of_not_lt here), shifted, absent]
    constructor
    · rintro ⟨above, found⟩
      exact .inr ⟨by omega, found⟩
    · rintro (⟨-, c, there, -⟩ | ⟨above, found⟩)
      · cases there
      · exact ⟨by omega, found⟩

theorem finds_or (chars : List StyledChar) (first second : StyledChar → Prop) :
    Finds start chars position (fun c => first c ∨ second c) ↔
      Finds start chars position first ∨ Finds start chars position second := by
  simp only [Finds, and_or_left, exists_or]

theorem finds_congr {chars : List StyledChar} {first second : StyledChar → Prop}
    (same : ∀ c ∈ chars, (first c ↔ second c)) :
    Finds start chars position first ↔ Finds start chars position second := by
  refine and_congr_right fun _ => exists_congr fun c => and_congr_right fun there => ?_
  exact same c (List.mem_of_getElem? there)

theorem finds_const (chars : List StyledChar) (test : Prop) :
    Finds start chars position (fun _ => test) ↔
      test ∧ start ≤ position ∧ position < start + chars.length := by
  rw [Finds]
  constructor
  · rintro ⟨above, c, there, holds⟩
    have ⟨below, _⟩ := List.getElem?_eq_some_iff.mp there
    exact ⟨holds, above, by omega⟩
  · rintro ⟨holds, above, below⟩
    exact ⟨above, _, List.getElem?_eq_getElem (by omega), holds⟩

/-! ## Spans over styled characters -/

namespace FlatText

theorem covered_runSpans (href : Option String) (run : Run) :
    Covered ((runSpans start run).map Span.mark) position name value ↔
      Finds start (run.styledChars href) position fun c => c.styles.mark? name = some value := by
  have alike : ∀ c ∈ run.styledChars href, (c.styles.mark? name = some value ↔
      run.styles.mark? name = some value) := by
    intro c member
    obtain ⟨_, -, rfl⟩ := List.mem_map.mp member
    rfl
  rw [finds_congr alike, finds_const, run.length_styledChars, ← Styles.mem_marks, runSpans]
  split
  · next empty =>
      have none : run.text.length = 0 := by simpa using empty
      simp [none]
  · simp [Covered, Mark.Covers, Span.mark]

theorem covered_runsSpans (href : Option String) (runs : List Run) :
    Covered ((runsSpans start runs).map Span.mark) position name value ↔
      Finds start (runs.flatMap (Run.styledChars href)) position
        fun c => c.styles.mark? name = some value := by
  induction runs generalizing start with
  | nil => simp [runsSpans, Finds]
  | cons run runs ih =>
      rw [runsSpans, List.map_append, covered_append, covered_runSpans href, ih,
        List.flatMap_cons, finds_append, run.length_styledChars]

theorem covered_linkSpans (item : InlineItem) :
    Covered ((linkSpans start item).map Span.mark) position name value ↔
      Finds start item.styledChars position
        fun c => name = linkMark ∧ c.href.map .text = some value := by
  have alike : ∀ c ∈ item.styledChars,
      ((name = linkMark ∧ c.href.map Scalar.text = some value) ↔
        name = linkMark ∧ item.href?.map .text = some value) := by
    intro c member
    obtain ⟨run, -, member⟩ := List.mem_flatMap.mp member
    obtain ⟨_, -, rfl⟩ := List.mem_map.mp member
    rfl
  rw [finds_congr alike, finds_const, item.length_styledChars]
  cases item with
  | link link =>
      by_cases empty : itemLength (.link link) = 0
      · simp [linkSpans, empty]
      · simp [linkSpans, empty, Covered, Mark.Covers, Span.mark, InlineItem.href?, eq_comm,
          and_assoc]
  | plain _ | run _ => simp [linkSpans, InlineItem.href?]

theorem covered_itemSpans (item : InlineItem) :
    Covered ((itemSpans start item).map Span.mark) position name value ↔
      Finds start item.styledChars position fun c => c.mark? name = some value := by
  have split (c : StyledChar) : c.mark? name = some value ↔
      c.styles.mark? name = some value ∨ (name = linkMark ∧ c.href.map .text = some value) := by
    by_cases isLink : name = linkMark
    · simp [StyledChar.mark?, Styles.mark?, isLink, linkMark]
    · simp [StyledChar.mark?, isLink]
  rw [itemSpans, List.map_append, covered_append, covered_runsSpans item.href?,
    covered_linkSpans, finds_congr fun c _ => split c, finds_or]
  rfl

theorem covered_itemsSpans (items : List InlineItem) :
    Covered ((itemsSpans start items).map Span.mark) position name value ↔
      Finds start (items.flatMap InlineItem.styledChars) position
        fun c => c.mark? name = some value := by
  induction items generalizing start with
  | nil => simp [itemsSpans, Finds]
  | cons item items ih =>
      rw [itemsSpans, List.map_append, covered_append, covered_itemSpans, ih,
        List.flatMap_cons, finds_append, item.length_styledChars]

theorem covered_spans (content : Inline) :
    Covered ((ofInline content).spans.map Span.mark) position name value ↔
      ∃ c, content.styledChars[position]? = some c ∧ c.mark? name = some value := by
  have covered : Covered ((itemsSpans 0 content.toItems).map Span.mark) position name value ↔
      Finds 0 (content.toItems.flatMap InlineItem.styledChars) position
        fun c => c.mark? name = some value := covered_itemsSpans content.toItems
  simpa [Finds, ofInline, ofItems, Inline.styledChars] using covered

theorem text_ofInline (content : Inline) :
    (ofInline content).text = String.ofList (content.styledChars.map (·.char)) := by
  have run (href : Option String) (run : Run) :
      (run.styledChars href).map (·.char) = run.text.toList := by
    simp [Run.styledChars, Function.comp_def]
  have chars (item : InlineItem) :
      item.styledChars.map (·.char) = item.runs.flatMap (·.text.toList) := by
    simp [InlineItem.styledChars, List.map_flatMap, run]
  have toList : (ofInline content).text.toList = content.styledChars.map (·.char) := by
    simp [ofInline, ofItems, textOf, Inline.styledChars, List.map_flatMap, chars,
      String.toList_join, List.flatMap_assoc, List.flatMap_map]
  rw [← toList, String.ofList_toList]

end FlatText

/-! ## Marks of views -/

namespace TextView

theorem getElem?_paint (mark : Mark) (layer : List (Option Scalar))
    (ordered : mark.start ≤ mark.stop) (inside : mark.stop ≤ layer.length) :
    (paint mark layer)[position]? =
      if mark.start ≤ position ∧ position < mark.stop then some (some mark.value)
      else layer[position]? := by
  have starts : (layer.take mark.start).length = mark.start := by
    rw [List.length_take]
    omega
  rw [paint, List.append_assoc, List.getElem?_append, starts]
  split
  · next before =>
      rw [if_neg (by omega), List.getElem?_take_of_lt before]
  · next behind =>
      rw [List.getElem?_append, List.length_replicate]
      split
      · next within =>
          rw [if_pos (by omega), List.getElem?_replicate, if_pos within]
      · next past =>
          rw [if_neg (by omega), List.getElem?_drop]
          congr 1
          omega

theorem length_paint (mark : Mark) (layer : List (Option Scalar))
    (ordered : mark.start ≤ mark.stop) (inside : mark.stop ≤ layer.length) :
    (paint mark layer).length = layer.length := by
  simp only [paint, List.length_append, List.length_take, List.length_replicate,
    List.length_drop]
  omega

def Bounded (length : Nat) (marks : List Mark) : Prop :=
  ∀ mark ∈ marks, mark.start ≤ mark.stop ∧ mark.stop ≤ length

/-- A character shows the value of a mark that is over it, or what it showed before. -/
theorem getElem?_foldl_paint (position : Nat) (marks : List Mark) (layer : List (Option Scalar))
    (bounded : Bounded layer.length marks) :
    (∃ mark ∈ marks, (mark.start ≤ position ∧ position < mark.stop) ∧
      (marks.foldl (fun layer mark => paint mark layer) layer)[position]? =
        some (some mark.value)) ∨
    ((∀ mark ∈ marks, ¬(mark.start ≤ position ∧ position < mark.stop)) ∧
      (marks.foldl (fun layer mark => paint mark layer) layer)[position]? = layer[position]?) := by
  induction marks generalizing layer with
  | nil => exact .inr ⟨by simp, rfl⟩
  | cons mark marks ih =>
      have ⟨⟨ordered, fits⟩, later⟩ := List.forall_mem_cons.mp bounded
      rw [← length_paint mark layer ordered fits] at later
      rw [List.foldl_cons]
      -- A later mark paints over this one; only where there is none does this one show.
      rcases ih (paint mark layer) later with ⟨last, member, inside, shows⟩ | ⟨free, same⟩
      · exact .inl ⟨last, List.mem_cons_of_mem _ member, inside, shows⟩
      · rw [getElem?_paint mark layer ordered fits] at same
        by_cases inside : mark.start ≤ position ∧ position < mark.stop
        · rw [if_pos inside] at same
          exact .inl ⟨mark, List.mem_cons_self, inside, same⟩
        · rw [if_neg inside] at same
          exact .inr ⟨List.forall_mem_cons.mpr ⟨inside, free⟩, same⟩

/-- No character is under two marks of one name that differ in their values. -/
def Consistent (marks : List Mark) : Prop :=
  ∀ position name value value', Covered marks position name value →
    Covered marks position name value' → value = value'

theorem getElem?_layer {length : Nat} {marks : List Mark} (bounded : Bounded length marks)
    (consistent : Consistent marks) :
    (layer length marks name)[position]? = some (some value) ↔
      Covered marks position name value := by
  have named {mark : Mark} (member : mark ∈ marks.filter (·.name = name)) :
      mark ∈ marks ∧ mark.name = name := by
    simpa using member
  have bounded' : Bounded (List.replicate length (none : Option Scalar)).length
      (marks.filter (·.name = name)) := by
    intro mark member
    simpa using bounded mark (named member).1
  rw [layer]
  rcases getElem?_foldl_paint position _ _ bounded' with
    ⟨mark, member, inside, shows⟩ | ⟨free, same⟩
  · have ⟨there, isNamed⟩ := named member
    have covered : Covered marks position name mark.value :=
      ⟨mark, there, isNamed, rfl, inside⟩
    rw [shows, Option.some_inj, Option.some_inj]
    constructor
    · rintro rfl
      exact covered
    · exact consistent position name mark.value value covered
  · rw [same, List.getElem?_replicate]
    constructor
    · intro shows
      split at shows <;> cases shows
    · rintro ⟨mark, there, isNamed, -, inside⟩
      exact absurd inside (free mark (by simpa [isNamed] using there))

/-! ### Stretches -/

theorem mem_stretches (start : Nat) (values : List (Option Scalar)) :
    ∀ mark ∈ stretches name start values,
      mark.name = name ∧ start ≤ mark.start ∧ mark.start < mark.stop := by
  fun_induction stretches name start values with
  | case1 => simp
  | case2 start values ih =>
      intro mark member
      have ⟨isNamed, above, wide⟩ := ih mark member
      exact ⟨isNamed, by omega, wide⟩
  | case3 start value values first marks cut touches ih =>
      rw [cut] at ih
      have ⟨⟨isNamed, above, wide⟩, later⟩ := List.forall_mem_cons.mp ih
      refine List.forall_mem_cons.mpr ⟨⟨isNamed, Nat.le_refl _, by simp only; omega⟩, ?_⟩
      intro mark member
      have ⟨isNamed, above, wide⟩ := later mark member
      exact ⟨isNamed, by omega, wide⟩
  | case4 start value values first marks cut apart ih =>
      rw [cut] at ih
      refine List.forall_mem_cons.mpr ⟨⟨rfl, Nat.le_refl _, Nat.lt_succ_self _⟩, ?_⟩
      intro mark member
      have ⟨isNamed, above, wide⟩ := ih mark member
      exact ⟨isNamed, by omega, wide⟩
  | case5 start value values cut ih => simp

theorem covers_char (start : Nat) (here : Scalar) :
    (⟨name, here, start, start + 1⟩ : Mark).Covers position name value ↔
      position = start ∧ here = value := by
  simp only [Mark.Covers, true_and]
  constructor
  · rintro ⟨same, above, below⟩
    exact ⟨by omega, same⟩
  · rintro ⟨rfl, same⟩
    exact ⟨same, Nat.le_refl _, Nat.lt_succ_self _⟩

theorem covers_sooner {mark : Mark} (isNamed : mark.name = name) (touches : mark.start = start + 1)
    (wide : mark.start < mark.stop) :
    ({ mark with start := start } : Mark).Covers position name value ↔
      (position = start ∧ mark.value = value) ∨ mark.Covers position name value := by
  simp only [Mark.Covers, isNamed, touches, true_and]
  rw [touches] at wide
  constructor
  · rintro ⟨same, above, below⟩
    by_cases first : position = start
    · exact .inl ⟨first, same⟩
    · exact .inr ⟨same, by omega, below⟩
  · rintro (⟨rfl, same⟩ | ⟨same, above, below⟩)
    · exact ⟨same, Nat.le_refl _, by omega⟩
    · exact ⟨same, by omega, below⟩

theorem getElem?_cons_from {α : Type} (head : α) (rest : List α) {found : α} :
    start ≤ position ∧ (head :: rest)[position - start]? = some found ↔
      (position = start ∧ head = found) ∨
        (start + 1 ≤ position ∧ rest[position - (start + 1)]? = some found) := by
  rcases Nat.lt_trichotomy position start with below | rfl | above
  · constructor
    · rintro ⟨above, -⟩
      omega
    · rintro (⟨same, -⟩ | ⟨above, -⟩) <;> omega
  · simp
  · have shifted : position - start = position - (start + 1) + 1 := by omega
    rw [shifted, List.getElem?_cons_succ]
    constructor
    · exact fun ⟨_, there⟩ => .inr ⟨above, there⟩
    · rintro (⟨rfl, -⟩ | ⟨_, there⟩)
      · omega
      · exact ⟨above.le, there⟩

theorem covered_stretches (start : Nat) (values : List (Option Scalar)) :
    Covered (stretches name start values) position name value ↔
      start ≤ position ∧ values[position - start]? = some (some value) := by
  fun_induction stretches name start values with
  | case1 => simp
  | case2 start values ih => simp [ih, getElem?_cons_from]
  | case3 start here values first marks cut touches ih =>
      have first_mem : first ∈ stretches name (start + 1) values := by simp [cut]
      have ⟨isNamed, _, wide⟩ := mem_stretches (start + 1) values first first_mem
      rw [cut, covered_cons] at ih
      rw [covered_cons, covers_sooner isNamed touches.1 wide, or_assoc, ih, touches.2,
        getElem?_cons_from, Option.some_inj]
  | case4 start here values first marks cut apart ih =>
      rw [cut] at ih
      rw [covered_cons, covers_char, ih, getElem?_cons_from, Option.some_inj]
  | case5 start here values cut ih =>
      rw [cut] at ih
      rw [covered_cons, covers_char, ih, getElem?_cons_from, Option.some_inj]

/-! ### Texts -/

theorem mem_names (marks : List Mark) : name ∈ names marks ↔ ∃ mark ∈ marks, mark.name = name := by
  rw [names, SortedMap.mem_names_iff, SortedMap.isSome_get?_ofList]
  simp

theorem covered_ofChars {chars : List Char} {marks : List Mark}
    (bounded : Bounded chars.length marks) (consistent : Consistent marks) :
    Covered (ofChars chars marks).marks position name value ↔
      Covered marks position name value := by
  have shown : (layer chars.length marks name)[position]? = some (some value) ↔
      Covered marks position name value := getElem?_layer bounded consistent
  have stretch : Covered (stretches name 0 (layer chars.length marks name)) position name value ↔
      (layer chars.length marks name)[position]? = some (some value) := by
    simp [covered_stretches]
  rw [← shown, ← stretch]
  constructor
  · rintro ⟨mark, member, covers⟩
    obtain ⟨other, listed, member⟩ := List.mem_flatMap.mp member
    have isNamed := (mem_stretches 0 _ mark member).1
    rw [← isNamed, covers.1] at member
    exact ⟨mark, member, covers⟩
  · intro covered
    have ⟨given, there, isNamed, _⟩ := shown.mp (stretch.mp covered)
    obtain ⟨mark, member, covers⟩ := covered
    have listed := (mem_names marks).mpr ⟨given, there, isNamed⟩
    exact ⟨mark, List.mem_flatMap.mpr ⟨name, listed, member⟩, covers⟩

end TextView

/-! ## Marks of contents -/

namespace FlatText

theorem bounded_spans (content : FlatText) :
    TextView.Bounded content.text.toList.length (content.spans.map Span.mark) := by
  intro mark member
  obtain ⟨span, there, rfl⟩ := List.mem_map.mp member
  have ⟨_, wide, below⟩ := content.inside span there
  exact ⟨wide.le, String.length_toList ▸ below⟩

theorem consistent_spans (content : Inline) :
    TextView.Consistent ((ofInline content).spans.map Span.mark) := by
  intro position name value value' covered covered'
  obtain ⟨c, there, holds⟩ := (covered_spans content).mp covered
  obtain ⟨c', there', holds'⟩ := (covered_spans content).mp covered'
  obtain rfl : c = c' := Option.some_inj.mp (there.symm.trans there')
  exact Option.some_inj.mp (holds.symm.trans holds')

/-- What is read of a content: on each character the marks of its run and of its link. -/
theorem covered_view (content : Inline) :
    Covered (ofInline content).view.marks position name value ↔
      ∃ c, content.styledChars[position]? = some c ∧ c.mark? name = some value :=
  (TextView.covered_ofChars (bounded_spans _) (consistent_spans content)).trans
    (covered_spans content)

end FlatText

end BlockScribe
