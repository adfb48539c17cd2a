import BlockScribe.Proofs.Json.Grammar

/-!
# Holes in a tree

What stands in one place of a tree has its tokens in one stretch.  They can be
changed for those of anything else, and the tree changes in that place only.
Tokens that differ in their places alone make up the same tree, its places apart.
-/

namespace BlockScribe.Json

/-! ## Slots between tokens -/

/-- A tree as a function of what stands in one place of it. -/
inductive Hole : (Node → Node) → Prop
  | root : Hole fun node => node
  | item (start : Nat) (ahead behind : List Node) {around : Node → Node} (inner : Hole around) :
      Hole fun node => .array start (ahead ++ around node :: behind)
  | member (start : Nat) (ahead behind : List (Key × Node)) (key : Key) {around : Node → Node}
      (inner : Hole around) : Hole fun node =>
        .object start (ahead ++ (key, around node) :: behind)

theorem Hole.comp {outer inner : Node → Node} (hole : Hole outer) (hole' : Hole inner) :
    Hole fun node => outer (inner node) := by
  induction hole with
  | root => exact hole'
  | item start ahead behind _ ih => exact .item start ahead behind ih
  | member start ahead behind key _ ih => exact .member start ahead behind key ih

def Token.IsMark : Token → Prop
  | .mark .. => True
  | _ => False

/-- A mark that may follow a value. -/
def Token.EndsValue : Token → Prop
  | .mark _ kind => kind = .comma ∨ kind = .closeArray ∨ kind = .closeObject
  | _ => False

/-- Tokens in front and behind, with a gap between them for those of any part. -/
structure Slot {α β : Type} (whole : List Token → α → Prop) (one : List Token → β → Prop)
    (around : β → α) (front back : List Token) : Prop where
  fills : ∀ inner part, one inner part → whole (front ++ inner ++ back) (around part)
  opens : ∀ token ∈ front.getLast?, token.IsMark
  closes : ∀ token ∈ back.head?, token.EndsValue

namespace Slot

variable {α β γ : Type}

theorem trans {whole : List Token → α → Prop} {middle : List Token → β → Prop}
    {one : List Token → γ → Prop} {outer : β → α} {inner : γ → β}
    {front back front' back' : List Token} (slot : Slot whole middle outer front back)
    (slot' : Slot middle one inner front' back') :
    Slot whole one (fun part => outer (inner part)) (front ++ front') (back' ++ back) where
  fills tokens part here := by
    have filled := slot.fills _ _ (slot'.fills _ _ here)
    simpa using filled
  opens token last := by
    rw [List.getLast?_append, Option.mem_def, Option.or_eq_some_iff] at last
    rcases last with last | ⟨-, last⟩
    · exact slot'.opens token last
    · exact slot.opens token last
  closes token first := by
    rw [List.head?_append, Option.mem_def, Option.or_eq_some_iff] at first
    rcases first with first | ⟨-, first⟩
    · exact slot'.closes token first
    · exact slot.closes token first

theorem refl (one : List Token → α → Prop) : Slot one one (fun part => part) [] [] where
  fills inner part here := by simpa using here
  opens _ last := by cases last
  closes _ first := by cases first

/-- Any part of a sequence can be changed for another one. -/
theorem of_sequence {one : List Token → α → Prop} {tokens : List Token} {ahead behind : List α}
    {part : α} (sequence : Sequence one tokens (ahead ++ part :: behind)) :
    ∃ front inner back, tokens = front ++ inner ++ back ∧ one inner part ∧
      Slot (Sequence one) one (fun part => ahead ++ part :: behind) front back := by
  induction ahead generalizing tokens with
  | nil =>
      cases sequence with
      | last here =>
          refine ⟨[], tokens, [], by simp, here, fun inner part here => ?_, ?_, ?_⟩
          · simpa using Sequence.last here
          · rintro _ ⟨⟩
          · rintro _ ⟨⟩
      | @more tokens rest _ next parts here comma later =>
          refine ⟨[], tokens, .mark comma .comma :: rest, by simp, here, ?_, ?_, ?_⟩
          · exact fun inner part here => .more here comma later
          · rintro _ ⟨⟩
          · rintro _ ⟨⟩
            exact .inl rfl
  | cons first ahead ih =>
      obtain ⟨before, comma, rest, rfl, here, later⟩ := sequence.uncons (by simp)
      obtain ⟨front, inner, back, rfl, found, slot⟩ := ih later
      refine ⟨before ++ .mark comma .comma :: front, inner, back, by simp, found, ?_, ?_,
        slot.closes⟩
      · intro inner' part' here'
        simpa using (slot.fills inner' part' here').cons here comma (by simp)
      · -- The front ends in the comma, or, where more stands behind that, as it did before.
        intro token last
        rw [List.getLast?_append, List.getLast?_cons, Option.some_or] at last
        cases front with
        | nil =>
            cases last
            trivial
        | cons other front =>
            exact slot.opens token (by simpa [List.getLast?_cons] using last)

/-- Marks around a sequence. -/
theorem enclosed {whole : List Token → Node → Prop} {one : List Token → α → Prop}
    {around : List α → Node} (opening : Nat) (kind : Mark) {closing : Token}
    (ends : closing.EndsValue) (makes : ∀ tokens parts, Sequence one tokens parts →
      whole (.mark opening kind :: (tokens ++ [closing])) (around parts)) :
    Slot whole (Sequence one) around [.mark opening kind] [closing] where
  fills tokens parts each := by simpa using makes tokens parts each
  opens := by
    rintro _ ⟨⟩
    trivial
  closes := by
    rintro _ ⟨⟩
    exact ends

/-- A name and a colon in front of a value. -/
theorem named (start stop colon : Nat) {name : Reading String} (whole : name.isBroken = false) :
    Slot (MemberOf Forms) Forms (fun node => (⟨name, colon⟩, node))
      [.string start stop name, .mark colon .colon] [] where
  fills inner node here := by simpa using .intro start stop colon whole here
  opens := by
    rintro _ ⟨⟩
    trivial
  closes := by rintro _ ⟨⟩

end Slot

/-- What stands in one place of a tree has its tokens in one stretch, and they can be changed
for those of anything else. -/
theorem Hole.exists_slot {around : Node → Node} (hole : Hole around) {tokens : List Token}
    {node : Node} (forms : Forms tokens (around node)) :
    ∃ front inner back, tokens = front ++ inner ++ back ∧ Forms inner node ∧
      Slot Forms Forms around front back := by
  induction hole generalizing tokens with
  | root => exact ⟨[], tokens, [], by simp, forms, .refl Forms⟩
  | item start ahead behind _ ih =>
      cases forms with
      | array _ stop each =>
          obtain ⟨front, inner, back, rfl, here, slot⟩ := Slot.of_sequence each
          obtain ⟨front', inner, back', rfl, here, slot'⟩ := ih here
          have outer : Slot Forms (Sequence Forms) (Node.array start)
              [.mark start .openArray] [.mark stop .closeArray] :=
            .enclosed start .openArray (.inr (.inl rfl)) fun _ _ each => .array start stop each
          exact ⟨_, inner, _, by simp, here, (outer.trans slot).trans slot'⟩
  | member start ahead behind key _ ih =>
      cases forms with
      | object _ stop each =>
          obtain ⟨front, inner, back, rfl, here, slot⟩ := Slot.of_sequence each
          cases here with
          | @intro first last colon name whole tokens _ here =>
              obtain ⟨front', inner, back', rfl, here, slot'⟩ := ih here
              have outer : Slot Forms (Sequence (MemberOf Forms)) (Node.object start)
                  [.mark start .openObject] [.mark stop .closeObject] :=
                .enclosed start .openObject (.inr (.inr rfl)) fun _ _ each =>
                  .object start stop each
              have named := Slot.named first last colon whole
              exact ⟨_, inner, _, by simp, here, ((outer.trans slot).trans named).trans slot'⟩

/-- Another member can be put in front of those of an object. -/
theorem Forms.exists_slot_cons {tokens : List Token} {start : Nat} {members : List (Key × Node)}
    (forms : Forms tokens (.object start members)) : ∃ rest,
    tokens = .mark start .openObject :: rest ∧ ∀ (opening first last colon comma : Nat)
      (name : Reading String), name.isBroken = false →
        Slot Forms Forms (fun node => .object opening ((⟨name, colon⟩, node) :: members))
          [.mark opening .openObject, .string first last name, .mark colon .colon]
          ((if members = [] then [] else [.mark comma .comma]) ++ rest) := by
  cases forms with
  | @object _ stop tokens _ each =>
      refine ⟨tokens ++ [.mark stop .closeObject], rfl, ?_⟩
      intro opening first last colon comma name whole
      refine ⟨fun inner node here => ?_, ?_, ?_⟩
      · cases members with
        | nil =>
            cases each
            have forms := Forms.object opening stop (.last (.intro first last colon whole here))
            simpa using forms
        | cons next members =>
            have forms :=
              Forms.object opening stop (.more (.intro first last colon whole here) comma each)
            simpa using forms
      · rintro _ ⟨⟩
        trivial
      · cases members with
        | nil =>
            cases each
            rintro _ ⟨⟩
            exact .inr (.inr rfl)
        | cons next members =>
            rintro _ ⟨⟩
            exact .inl rfl

/-! ## Alike trees -/

inductive Alongside (alike : Node → Node → Prop) : Key × Node → Key × Node → Prop
  | intro {name name' : Reading String} {follow follow' : Nat} (named : name.Alike name')
      {node node' : Node} (here : alike node node') :
      Alongside alike (⟨name, follow⟩, node) (⟨name', follow'⟩, node')

/-- The same tree, places in the text apart. -/
inductive Node.Alike : Node → Node → Prop
  | leaf {start stop start' stop' : Nat} {reading reading' : Reading Json}
      (same : reading.Alike reading') :
      Alike (.leaf start stop reading) (.leaf start' stop' reading')
  | array {start start' : Nat} {items items' : List Node} (each : List.Forall₂ Alike items items') :
      Alike (.array start items) (.array start' items')
  | object {start start' : Nat} {members members' : List (Key × Node)}
      (each : List.Forall₂ (Alongside Alike) members members') :
      Alike (.object start members) (.object start' members')

theorem exists_of_forall₂_append {α β : Type} {related : α → β → Prop} {front back : List α}
    {others : List β} (paired : List.Forall₂ related (front ++ back) others) :
    ∃ front' back', others = front' ++ back' ∧ List.Forall₂ related front front' ∧
      List.Forall₂ related back back' := by
  induction front generalizing others with
  | nil => exact ⟨[], others, rfl, .nil, paired⟩
  | cons first front ih =>
      cases paired with
      | cons here later =>
          obtain ⟨front', back', rfl, ahead, behind⟩ := ih later
          exact ⟨_ :: front', back', rfl, .cons here ahead, behind⟩

theorem exists_of_forall₂_enclosed {α β : Type} {related : α → β → Prop} {opening closing : α}
    {inner : List α} {others : List β}
    (paired : List.Forall₂ related (opening :: (inner ++ [closing])) others) :
    ∃ opening' inner' closing', others = opening' :: (inner' ++ [closing']) ∧
      related opening opening' ∧ List.Forall₂ related inner inner' ∧
      related closing closing' := by
  cases paired with
  | cons first later =>
      obtain ⟨inner', back, rfl, alike, rest⟩ := exists_of_forall₂_append later
      cases rest with
      | cons last rest =>
          cases rest
          exact ⟨_, inner', _, rfl, first, alike, last⟩

/-- Tokens like these make a part that is related to this one. -/
def Moves {α : Type} (one : List Token → α → Prop) (related : α → α → Prop) (tokens : List Token)
    (part : α) : Prop :=
  ∀ tokens', List.Forall₂ Token.Alike tokens tokens' →
    ∃ part', one tokens' part' ∧ related part part'

theorem Sequence.moves {α : Type} {one : List Token → α → Prop} {related : α → α → Prop}
    {tokens : List Token} {parts : List α} (each : Sequence (Moves one related) tokens parts) :
    Moves (Sequence one) (List.Forall₂ related) tokens parts := by
  induction each with
  | nil =>
      rintro _ ⟨⟩
      exact ⟨[], .nil, .nil⟩
  | last here =>
      intro tokens' alike
      obtain ⟨part', here', same⟩ := here _ alike
      exact ⟨[part'], .last here', .cons same .nil⟩
  | more here comma _ ih =>
      intro tokens' alike
      obtain ⟨first, _, rfl, ahead, behind⟩ := exists_of_forall₂_append alike
      cases behind with
      | cons mark behind =>
          cases mark
          obtain ⟨part', here', same⟩ := here first ahead
          obtain ⟨parts', later', alike⟩ := ih _ behind
          cases alike with
          | cons same' alike => exact ⟨_, .more here' _ later', .cons same (.cons same' alike)⟩

theorem Reading.Alike.isBroken_eq {α : Type} {reading reading' : Reading α}
    (alike : reading.Alike reading') : reading'.isBroken = reading.isBroken := by
  cases alike <;> rfl

theorem Reading.Alike.map {α β : Type} {reading reading' : Reading α}
    (alike : reading.Alike reading') (f : α → β) : (reading.map f).Alike (reading'.map f) := by
  cases alike with
  | sound value => exact .sound (f value)
  | skippable fault fault' => exact .skippable fault fault'
  | broken place place' => exact .broken place place'

theorem MemberOf.moves {tokens : List Token} {member : Key × Node}
    (forms : MemberOf (Moves Forms Node.Alike) tokens member) :
    Moves (MemberOf Forms) (Alongside Node.Alike) tokens member := by
  obtain ⟨_, _, _, whole, here⟩ := forms
  intro tokens' alike
  cases alike with
  | cons name alike =>
      cases alike with
      | cons colon alike =>
          cases name with
          | string same =>
              cases colon
              obtain ⟨node', here', below⟩ := here _ alike
              exact ⟨_, .intro _ _ _ (same.isBroken_eq.trans whole) here', .intro same below⟩

/-- The same tokens make the same tree wherever they stand. -/
theorem Forms.moves {tokens : List Token} {node : Node} (forms : Forms tokens node) :
    Moves Forms Node.Alike tokens node := by
  induction forms using Forms.induction with
  | plain start stop reading whole =>
      rintro _ (_ | ⟨here, rest⟩)
      cases rest
      cases here with
      | plain same => exact ⟨_, .plain _ _ (same.isBroken_eq.trans whole), .leaf same⟩
  | string start stop reading whole =>
      rintro _ (_ | ⟨here, rest⟩)
      cases rest
      cases here with
      | string same => exact ⟨_, .string _ _ (same.isBroken_eq.trans whole), .leaf (same.map _)⟩
  | array start stop tokens items _ each =>
      have moves : Sequence (Moves Forms Node.Alike) tokens items :=
        each.imp fun item _ tokens inner => inner.2
      intro tokens' whole
      obtain ⟨_, inner, _, rfl, first, alike, last⟩ := exists_of_forall₂_enclosed whole
      cases first
      cases last
      obtain ⟨items', each', same⟩ := moves.moves _ alike
      exact ⟨_, .array _ _ each', .array same⟩
  | object start stop tokens members _ each =>
      have moves : Sequence (Moves (MemberOf Forms) (Alongside Node.Alike)) tokens members :=
        each.imp fun member _ tokens inner => (inner.imp fun _ inner => inner.2).moves
      intro tokens' whole
      obtain ⟨_, inner, _, rfl, first, alike, last⟩ := exists_of_forall₂_enclosed whole
      cases first
      cases last
      obtain ⟨members', each', same⟩ := moves.moves _ alike
      exact ⟨_, .object _ _ each', .object same⟩

end BlockScribe.Json
