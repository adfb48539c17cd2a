import BlockScribe.Proofs.Document.RoundTrip

/-!
# Runs cut in another way

One text in one style can be written as one run or as many, with or without a
link around the pieces and with empty pieces in between.  What is stored depends
on the characters alone, each with its styles and the link that it is in: where
these agree, the text and the marks that are read back agree, although the spans
that have been written need not.
-/

namespace BlockScribe

/-! ## Ways to cut -/

/-- One run cut in two, or one without text put in. -/
inductive Run.Recut : List Run → List Run → Prop
  | split (styles : Styles) (a b : String) : Recut [⟨a ++ b, styles⟩] [⟨a, styles⟩, ⟨b, styles⟩]
  | empty (styles : Styles) : Recut [] [⟨"", styles⟩]

/-- Items in the place of which there can be others. -/
inductive InlineItem.Recut : List InlineItem → List InlineItem → Prop
  | runs {a b : List Run} (step : Run.Recut a b) : Recut (a.map .run) (b.map .run)
  | linked (href : String) (before after : List Run) {a b : List Run} (step : Run.Recut a b) :
      Recut [.link ⟨href, .runs (before ++ a ++ after)⟩]
        [.link ⟨href, .runs (before ++ b ++ after)⟩]
  | emptyText : Recut [] [.plain ""]
  | emptyLink (link : Link) (empty : FlatText.textOf link.runs = "") : Recut [] [.link link]
  | unstyled (text : String) : Recut [.plain text] [.run (.plain text)]
  | bareLink (href text : String) :
      Recut [.link ⟨href, .text text⟩] [.link ⟨href, .runs [.plain text]⟩]

/-- One step from a content to another, forwards or backwards and at any place. -/
inductive Inline.Recut : Inline → Inline → Prop
  | items (before after : List InlineItem) {a b : List InlineItem} (step : InlineItem.Recut a b) :
      Recut (.items (before ++ a ++ after)) (.items (before ++ b ++ after))
  | bare (text : String) : Recut (.text text) (.items [.plain text])
  | back {content content' : Inline} (step : Recut content content') : Recut content' content

theorem Run.Recut.styledChars_eq {a b : List Run} (step : Run.Recut a b) (href : Option String) :
    a.flatMap (Run.styledChars href) = b.flatMap (Run.styledChars href) := by
  cases step with
  | split styles a b => simp [Run.styledChars]
  | empty styles => rfl

theorem InlineItem.styledChars_eq_nil {item : InlineItem}
    (empty : FlatText.textOf item.runs = "") : item.styledChars = [] := by
  rw [← List.length_eq_zero_iff, item.length_styledChars, FlatText.itemLength, empty]
  rfl

theorem InlineItem.Recut.styledChars_eq {a b : List InlineItem} (step : InlineItem.Recut a b) :
    a.flatMap InlineItem.styledChars = b.flatMap InlineItem.styledChars := by
  cases step with
  | runs step =>
      have each : (fun run : Run => (InlineItem.run run).styledChars) = Run.styledChars none :=
        funext fun run => List.append_nil _
      rw [List.flatMap_map, List.flatMap_map, each, step.styledChars_eq]
  | linked href before after step =>
      simp [InlineItem.styledChars, InlineItem.runs, Link.runs, InlineItem.href?,
        step.styledChars_eq]
  | emptyText => rfl
  | emptyLink link empty =>
      have nothing : (InlineItem.link link).styledChars = [] :=
        InlineItem.styledChars_eq_nil empty
      rw [List.flatMap_singleton, nothing]
      rfl
  | unstyled text => rfl
  | bareLink href text => rfl

theorem Inline.Recut.styledChars_eq {content content' : Inline} (step : content.Recut content') :
    content.styledChars = content'.styledChars := by
  induction step with
  | items before after step =>
      simp only [Inline.styledChars, Inline.toItems, List.flatMap_append, step.styledChars_eq]
  | bare text => rfl
  | back _ ih => exact ih.symm

/-! ## Marks that cover the same -/

namespace TextView

variable {marks marks' : List Mark}

theorem length_foldl_paint (marks : List Mark) (layer : List (Option Scalar))
    (bounded : Bounded layer.length marks) :
    (marks.foldl (fun layer mark => paint mark layer) layer).length = layer.length := by
  induction marks generalizing layer with
  | nil => rfl
  | cons mark marks ih =>
      have ⟨⟨ordered, fits⟩, later⟩ := List.forall_mem_cons.mp bounded
      have same := length_paint mark layer ordered fits
      rw [List.foldl_cons, ih _ (same ▸ later), same]

theorem length_layer {length : Nat} (bounded : Bounded length marks) (name : String) :
    (layer length marks name).length = length := by
  rw [layer, length_foldl_paint, List.length_replicate]
  intro mark member
  rw [List.length_replicate]
  exact bounded mark (List.mem_filter.mp member).1

/-- Each character shows what covers it, so marks that cover the same show the same. -/
theorem layer_congr {length : Nat} {name : String} (bounded : Bounded length marks)
    (bounded' : Bounded length marks') (consistent : Consistent marks)
    (consistent' : Consistent marks')
    (same : ∀ position value, Covered marks position name value ↔
      Covered marks' position name value) :
    layer length marks name = layer length marks' name := by
  refine List.ext_getElem (by rw [length_layer bounded, length_layer bounded']) ?_
  intro position here here'
  refine Option.ext fun value => ?_
  have shown : (layer length marks name)[position]? = some (some value) ↔
      (layer length marks' name)[position]? = some (some value) := by
    rw [getElem?_layer bounded consistent, getElem?_layer bounded' consistent', same]
  rwa [List.getElem?_eq_getElem here, List.getElem?_eq_getElem here', Option.some_inj,
    Option.some_inj] at shown

theorem names_congr (same : ∀ name, (∃ mark ∈ marks, mark.name = name) ↔
    ∃ mark ∈ marks', mark.name = name) : names marks = names marks' := by
  have maps : SortedMap.ofList (marks.map fun mark => (mark.name, ())) =
      .ofList (marks'.map fun mark => (mark.name, ())) := by
    refine SortedMap.ext_get? fun name => Option.ext fun _ => ?_
    have listed := (mem_names marks).trans ((same name).trans (mem_names marks').symm)
    rw [names, names, SortedMap.mem_names_iff, SortedMap.mem_names_iff, Option.isSome_iff_exists,
      Option.isSome_iff_exists] at listed
    simpa only [Unique.exists_iff] using listed
  rw [names, names, maps]

theorem ofChars_congr {chars : List Char} (bounded : Bounded chars.length marks)
    (bounded' : Bounded chars.length marks') (consistent : Consistent marks)
    (consistent' : Consistent marks')
    (named : ∀ name, (∃ mark ∈ marks, mark.name = name) ↔ ∃ mark ∈ marks', mark.name = name)
    (same : ∀ position name value, Covered marks position name value ↔
      Covered marks' position name value) :
    ofChars chars marks = ofChars chars marks' := by
  have layers (name : String) : layer chars.length marks name = layer chars.length marks' name :=
    layer_congr bounded bounded' consistent consistent' fun position value =>
      same position name value
  simp only [ofChars, names_congr named, layers]

end TextView

namespace FlatText

/-- No mark of a text is empty, so a name that is there is over some character. -/
theorem named_spans_iff (content : FlatText) (name : String) :
    (∃ mark ∈ content.spans.map Span.mark, mark.name = name) ↔
      ∃ position value, Covered (content.spans.map Span.mark) position name value := by
  constructor
  · rintro ⟨mark, member, isNamed⟩
    obtain ⟨span, there, rfl⟩ := List.mem_map.mp member
    exact ⟨span.start, span.value, span.mark, member, isNamed, rfl, Nat.le_refl _,
      (content.inside span there).2.1⟩
  · rintro ⟨_, _, mark, member, covers⟩
    exact ⟨mark, member, covers.1⟩

theorem view_congr {content content' : Inline}
    (same : content.styledChars = content'.styledChars) :
    (ofInline content).view = (ofInline content').view := by
  have text : (ofInline content).text = (ofInline content').text := by
    rw [text_ofInline, text_ofInline, same]
  have covered (position : Nat) (name : String) (value : Scalar) :
      Covered ((ofInline content).spans.map Span.mark) position name value ↔
        Covered ((ofInline content').spans.map Span.mark) position name value := by
    rw [covered_spans, covered_spans, same]
  have bounded' := bounded_spans (ofInline content')
  rw [view, view, text]
  rw [← text] at bounded' ⊢
  refine TextView.ofChars_congr (bounded_spans _) bounded' (consistent_spans content)
    (consistent_spans content') (fun name => ?_) covered
  simp only [named_spans_iff, covered]

end FlatText

/-! ## Blocks with the same characters -/

structure Cell.SameText (cell cell' : Cell) : Prop where
  props : cell.props = cell'.props
  chars : cell.content.styledChars = cell'.content.styledChars

inductive Content.SameText : Option Content → Option Content → Prop
  | refl (content : Option Content) : SameText content content
  | inline {content content' : Inline} (chars : content.styledChars = content'.styledChars) :
      SameText (some (.inline content)) (some (.inline content'))
  | table {widths : List (Option Double)} {rows rows' : List (List Cell)}
      (cells : List.Forall₂ (List.Forall₂ Cell.SameText) rows rows') :
      SameText (some (.table ⟨widths, rows⟩)) (some (.table ⟨widths, rows'⟩))

mutual

/-- Two blocks that differ at most in how their texts are cut. -/
inductive Block.SameText : Block → Block → Prop
  | intro {id : Option String} {type : String} {props : SortedMap Json}
      {content content' : Option Content} {children children' : List Block}
      (inner : Content.SameText content content') (below : Block.SameTexts children children') :
      Block.SameText ⟨id, type, props, content, children⟩ ⟨id, type, props, content', children'⟩

inductive Block.SameTexts : List Block → List Block → Prop
  | nil : Block.SameTexts [] []
  | cons {block block' : Block} {blocks blocks' : List Block}
      (first : Block.SameText block block') (rest : Block.SameTexts blocks blocks') :
      Block.SameTexts (block :: blocks) (block' :: blocks')

end

theorem Cell.SameText.view_plan {cell cell' : Cell} (same : cell.SameText cell') :
    cell.plan.map CellPlan.view = cell'.plan.map CellPlan.view := by
  rw [Cell.plan, Cell.plan, same.props]
  refine map_bind_congr_right _ fun props => ?_
  show Except.ok (CellView.mk props _) = Except.ok (CellView.mk props _)
  rw [FlatText.view_congr same.chars]

/-- What the parts of a stored block are that a body becomes. -/
def Body.parts (body : Body) :
    Option TextView × Option (List Scalar) × Option (List (List CellView)) :=
  (body.text?, body.columnWidths?, body.rows?)

theorem Body.parts_ofTable {widths : List (Option Double)} {rows rows' : List (List Cell)}
    (cells : List.Forall₂ (List.Forall₂ Cell.SameText) rows rows') :
    (ofTable ⟨widths, rows⟩).map parts = (ofTable ⟨widths, rows'⟩).map parts := by
  have planned : (rows.mapM (List.mapM Cell.plan)).map (List.map (List.map CellPlan.view)) =
      (rows'.mapM (List.mapM Cell.plan)).map (List.map (List.map CellPlan.view)) :=
    map_mapM_congr cells fun row row' alike =>
      map_mapM_congr alike fun cell cell' same => same.view_plan
  refine map_bind_congr planned fun plans plans' same => ?_
  show Except.ok (_, _, some (plans.map (List.map CellPlan.view))) =
    Except.ok (_, _, some (plans'.map (List.map CellPlan.view)))
  rw [same]
  rfl

theorem Content.SameText.parts_ofContent {content content' : Option Content}
    (same : Content.SameText content content') (type : BlockType) :
    (Body.ofContent type content).map Body.parts =
      (Body.ofContent type content').map Body.parts := by
  cases same with
  | refl => rfl
  | inline chars =>
      cases kind : type.contentKind with
      | inline =>
          simp only [Body.ofContent, kind]
          show Except.ok (some _, _) = Except.ok (some _, _)
          rw [FlatText.view_congr chars]
          rfl
      | table | none => simp only [Body.ofContent, kind]
  | table cells =>
      cases kind : type.contentKind with
      | table =>
          simp only [Body.ofContent, kind]
          exact Body.parts_ofTable cells
      | inline | none => simp only [Body.ofContent, kind]

mutual

theorem Block.SameText.view_plan (store : String) (path : List Nat) : {block block' : Block} →
    block.SameText block' →
    (Plan.ofBlock store path block).map Plan.view = (Plan.ofBlock store path block').map Plan.view
  | _, _, @Block.SameText.intro _ name given _ _ _ _ inner below => by
      rw [Plan.ofBlock, Plan.ofBlock]
      cases known : BlockType.ofName? name with
      | none => rfl
      | some type =>
          refine map_bind_congr_right _ fun props => ?_
          refine map_bind_congr (inner.parts_ofContent type) fun body body' sameBody => ?_
          have plans := Block.SameTexts.views_plans store path 0 below
          refine map_bind_congr plans fun children children' sameChildren => ?_
          obtain ⟨text, widths, rows⟩ : body.text? = body'.text? ∧
              body.columnWidths? = body'.columnWidths? ∧ body.rows? = body'.rows? := by
            simpa [Body.parts] using sameBody
          show Except.ok (Plan.view _) = Except.ok (Plan.view _)
          rw [Plan.view, Plan.view, text, widths, rows, sameChildren]

theorem Block.SameTexts.views_plans (store : String) (path : List Nat) (index : Nat) :
    {blocks blocks' : List Block} → Block.SameTexts blocks blocks' →
    (Plan.ofBlocks store path index blocks).map (List.map Plan.view) =
      (Plan.ofBlocks store path index blocks').map (List.map Plan.view)
  | _, _, .nil => rfl
  | _, _, .cons first rest => by
      rw [Plan.ofBlocks, Plan.ofBlocks]
      refine map_bind_congr (first.view_plan store (path ++ [index])) fun plan plan' same => ?_
      refine map_bind_congr (rest.views_plans store path (index + 1)) fun plans plans' sames => ?_
      show Except.ok (plan.view :: plans.map Plan.view) =
        Except.ok (plan'.view :: plans'.map Plan.view)
      rw [same, sames]

end

/-! ## Documents -/

/--
Stored text depends on the characters, their styles and their links only, and
no way to cut it in runs changes those.  Blocks whose texts have the same
characters fail alike, or the same is read back from their documents.
-/
theorem construct_recut :
    (∀ content content' : Inline, content.Recut content' →
      content.styledChars = content'.styledChars) ∧
    ∀ (store : String) (blocks blocks' : List Block), Block.SameTexts blocks blocks' →
      (∃ error, construct store blocks = .error error ∧ construct store blocks' = .error error) ∨
      ∃ operations operations' views,
        construct store blocks = .ok operations ∧ construct store blocks' = .ok operations' ∧
        readBlocks? operations store = some views ∧ readBlocks? operations' store = some views := by
  refine ⟨fun content content' step => step.styledChars_eq, fun store blocks blocks' alike => ?_⟩
  have views : (Plan.ofList store blocks).map (List.map Plan.view) =
      (Plan.ofList store blocks').map (List.map Plan.view) := alike.views_plans store [] 0
  rw [construct, construct]
  cases planned : Plan.ofList store blocks with
  | error error =>
      cases planned' : Plan.ofList store blocks' with
      | error error' =>
          rw [planned, planned'] at views
          cases views
          exact .inl ⟨error, rfl, rfl⟩
      | ok plans' =>
          rw [planned, planned'] at views
          cases views
  | ok plans =>
      cases planned' : Plan.ofList store blocks' with
      | error error' =>
          rw [planned, planned'] at views
          cases views
      | ok plans' =>
          rw [planned, planned'] at views
          refine .inr ⟨_, _, plans.map Plan.view, rfl, rfl, readBlocks?_store store plans, ?_⟩
          rw [readBlocks?_store, Except.ok.inj views]

/-- A quote of a link around the runs. -/
def linkedQuote (runs : List Run) : Block :=
  ⟨some "top", "quote", .empty,
    some (.inline (.items [.link ⟨"https://example.org", .runs runs⟩])), []⟩

theorem construct_recut_sample : ∃ operations operations' views,
    construct "notes" [linkedQuote [.plain "ab"]] = .ok operations ∧
      construct "notes" [linkedQuote [.plain "a", .plain "b"]] = .ok operations' ∧
      readBlocks? operations "notes" = some views ∧
      readBlocks? operations' "notes" = some views := by
  have step : Inline.Recut
      (.items [.link ⟨"https://example.org", .runs [.plain "ab"]⟩])
      (.items [.link ⟨"https://example.org", .runs [.plain "a", .plain "b"]⟩]) :=
    .items [] [] (.linked "https://example.org" [] [] (.split .plain "a" "b"))
  have alike : Block.SameTexts [linkedQuote [.plain "ab"]]
      [linkedQuote [.plain "a", .plain "b"]] :=
    .cons (.intro (.inline (construct_recut.1 _ _ step)) .nil) .nil
  rcases construct_recut.2 "notes" _ _ alike with ⟨error, failed, -⟩ | same
  · cases failed
  · exact same

end BlockScribe
