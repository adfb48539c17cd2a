import BlockScribe.Proofs.Json.Holes

/-!
# Text in the place of other text

Around any part of a tree its text can be cut, and any text of a value can be
put between the two ends: the tree of the whole is the one before, with the tree
of the value in the place of the part.
-/

namespace BlockScribe.Json

/-! ## Tokens of texts put together -/

theorem isGap_of_tokensFrom_eq_nil {text : List Char} {index : Nat}
    (empty : tokensFrom text index = []) : ∀ c ∈ text, isGap c = true := by
  fun_induction tokensFrom text index with
  | case1 => exact List.forall_mem_nil _
  | case2 _ _ _ gap ih => exact List.forall_mem_cons.mpr ⟨gap, ih empty⟩
  | case3 => cases empty
  | case4 => cases empty

/-- A text that is read to its end has its tokens wherever it stands. -/
theorem lexes_of_goesOn {text : List Char} {index : Nat} {tokens : List Token}
    (read : tokensFrom text index = tokens) (goesOn : ∀ token ∈ tokens, ¬token.IsLast) :
    Lexes text tokens := by
  obtain ⟨chars, gap, cut, -, lexes, rest⟩ :=
    exists_cut (read.trans (List.append_nil tokens).symm) goesOn
  have whole := lexes.append_gap (isGap_of_tokensFrom_eq_nil rest)
  rwa [← cut] at whole

theorem Token.IsMark.not_isPlain {token : Token} (mark : token.IsMark) : ¬token.IsPlain := by
  cases token with
  | mark => exact id
  | plain | string => exact mark.elim

theorem Lexes.append {a b : List Char} {tokens tokens' : List Token} (lexes : Lexes a tokens)
    (later : Lexes b tokens') (closed : ∀ token ∈ tokens.getLast?, token.IsMark) :
    Lexes (a ++ b) (tokens ++ tokens') := by
  intro rest index last
  obtain ⟨front, first, alike⟩ := lexes (b ++ rest) index fun token here plain =>
    absurd plain (closed token here).not_isPlain
  obtain ⟨back, second, alike'⟩ := later rest (index + byteLength a) fun token here plain => by
    refine last token ?_ plain
    rw [List.getLast?_append, Option.mem_def.mp here]
    rfl
  refine ⟨front ++ back, ?_, List.rel_append alike alike'⟩
  rw [List.append_assoc, first, second, byteLength_append, List.append_assoc, Nat.add_assoc]

/-- A text has tokens like these wherever it begins. -/
def HasTokens (text : List Char) (tokens : List Token) : Prop :=
  ∀ index, List.Forall₂ Token.Alike tokens (tokensFrom text index)

theorem Lexes.hasTokens {chars rest : List Char} {tokens later : List Token}
    (lexes : Lexes chars tokens) (has : HasTokens rest later)
    (ends : ∀ token ∈ tokens.getLast?, token.IsPlain → Ended rest) :
    HasTokens (chars ++ rest) (tokens ++ later) := by
  intro index
  obtain ⟨tokens', read, alike⟩ := lexes rest index ends
  rw [read]
  exact List.rel_append alike (has _)

theorem Lexes.hasTokens_self {chars : List Char} {tokens : List Token}
    (lexes : Lexes chars tokens) : HasTokens chars tokens := by
  have empty : HasTokens [] [] := fun index => by
    rw [tokensFrom]
    exact .nil
  have whole := lexes.hasTokens empty fun _ _ _ c first => by cases first
  rwa [List.append_nil, List.append_nil] at whole

theorem HasTokens.ended {text : List Char} {tokens : List Token} (has : HasTokens text tokens)
    (closes : ∀ token ∈ tokens.head?, token.EndsValue) : Ended text := by
  have alike := has 0
  cases read : tokensFrom text 0 with
  | nil =>
      intro c first
      obtain ⟨rest, rfl⟩ := List.head?_eq_some_iff.mp first
      have gap := isGap_of_tokensFrom_eq_nil read c List.mem_cons_self
      simp [isEnd, gap]
  | cons token rest =>
      rw [read] at alike
      cases alike with
      | cons same _ =>
          have ends := closes _ rfl
          cases same with
          | mark start start' kind => exact ended_of_mark read ends
          | plain | string => exact ends.elim

theorem Tree.forms_of_ofText {text : String} {root : Node} (tree : ofText text = ⟨root, .ok ()⟩)
    (whole : root.skip = .ok ()) : Forms (tokensFrom text.toList 0) root :=
  forms_of_ofTokens tree whole

theorem Tree.exists_ofText {text : String} {tokens : List Token} {root : Node}
    (has : HasTokens text.toList tokens) (forms : Forms tokens root) :
    ∃ root', ofText text = ⟨root', .ok ()⟩ ∧ root.Alike root' := by
  obtain ⟨root', forms', alike⟩ := forms.moves _ (has 0)
  exact ⟨root', ofTokens_of_forms forms' _, alike⟩

/-! ## Text around a hole -/

/-- Between these two texts any value can stand, and its tree stands in a hole of the whole. -/
def Encloses (before behind : String) (around : Node → Node) : Prop :=
  ∀ {value : String} {node : Node}, Tree.ofText value = ⟨node, .ok ()⟩ → node.skip = .ok () →
    ∃ root, Tree.ofText (before ++ value ++ behind) = ⟨root, .ok ()⟩ ∧ (around node).Alike root

theorem encloses_of_slot {before behind : String} {front back : List Token}
    {around : Node → Node} (slot : Slot Forms Forms around front back)
    (lexes : Lexes before.toList front) (has : HasTokens behind.toList back) :
    Encloses before behind around := by
  intro value node tree whole
  have forms := Tree.forms_of_ofText tree whole
  refine Tree.exists_ofText ?_ (slot.fills _ _ forms)
  rw [String.toList_append, String.toList_append, List.append_assoc, List.append_assoc]
  have closed := (lexes_of_goesOn rfl forms.goesOn).hasTokens has fun _ _ _ => has.ended slot.closes
  exact lexes.hasTokens closed fun token last plain =>
    absurd plain (slot.opens token last).not_isPlain

/-- The text of any part of a tree can be cut out, and that of another value put in its place. -/
theorem exists_encloses {text : String} {around : Node → Node} {node : Node} (hole : Hole around)
    (tree : Tree.ofText text = ⟨around node, .ok ()⟩) (whole : (around node).skip = .ok ()) :
    ∃ before old behind, text = before ++ old ++ behind ∧ byteLength before.toList = node.start ∧
      (∃ node', Tree.ofText old = ⟨node', .ok ()⟩ ∧ node.Alike node') ∧
      Encloses before behind around := by
  have forms := Tree.forms_of_ofText tree whole
  have goesOn := forms.goesOn
  obtain ⟨front, inner, back, tokens, here, slot⟩ := hole.exists_slot forms
  rw [tokens, List.append_assoc, List.forall_mem_append, List.forall_mem_append] at goesOn
  obtain ⟨frontGoesOn, innerGoesOn, backGoesOn⟩ := goesOn
  obtain ⟨first, rest, rfl, start, -⟩ := here.exists_first
  rw [List.append_assoc] at tokens
  obtain ⟨before, middle, cut, begins, opens, next⟩ := exists_cut_at tokens frontGoesOn
  obtain ⟨old, behind, rfl, -, lexes, last⟩ := exists_cut next innerGoesOn
  have has : HasTokens behind back := (lexes_of_goesOn last backGoesOn).hasTokens_self
  refine ⟨.ofList before, .ofList old, .ofList behind, ?_, ?_, ?_, ?_⟩
  · rw [← String.ofList_append, ← String.ofList_append, List.append_assoc, ← cut,
      String.ofList_toList]
  · rw [String.toList_ofList, ← start, begins, Nat.zero_add]
  · refine Tree.exists_ofText ?_ here
    rw [String.toList_ofList]
    exact lexes.hasTokens_self
  · exact encloses_of_slot slot (by rwa [String.toList_ofList]) (by rwa [String.toList_ofList])

/-- An opening brace stands where its token begins. -/
theorem exists_of_openObject {text : List Char} {index : Nat} {tokens : List Token}
    (read : tokensFrom text index = .mark index .openObject :: tokens) :
    ∃ rest, text = '\x7b' :: rest ∧ tokensFrom rest (index + 1) = tokens := by
  obtain ⟨gap, c, text, rfl, blank, solid, start⟩ := exists_start read
  obtain rfl : gap = [] := by
    cases gap with
    | nil => rfl
    | cons c gap =>
        have size := utf8Size_of_isGap (blank c List.mem_cons_self)
        rw [byteLength_cons, size] at start
        exact absurd (show index = index + (1 + byteLength gap) from start) (by omega)
  have first := head?_tokensFrom text index solid
  rw [List.nil_append] at read
  rw [read, List.head?_cons, Option.some_inj] at first
  have mark : markOf c = .openObject := markOf_of_nextToken (Prod.ext first.symm rfl)
  obtain rfl : c = '\x7b' := by
    unfold markOf at mark
    split at mark <;> first | rfl | cases mark
  rw [tokensFrom_cons_of_nextToken rfl rfl] at read
  exact ⟨text, rfl, (List.cons.inj read).2⟩

/-- A member that an object does not have can be put in front of the others. -/
theorem exists_encloses_content {text : String} {around : Node → Node} {start : Nat}
    {members : List (Key × Node)} (hole : Hole around)
    (tree : Tree.ofText text = ⟨around (.object start members), .ok ()⟩)
    (whole : (around (.object start members)).skip = .ok ()) :
    ∃ before behind, text = before ++ "\x7b" ++ behind ∧ byteLength before.toList = start ∧
      Encloses (before ++ "\x7b\"content\":") ((if members = [] then "" else ",") ++ behind)
        fun node => around (.object 0 ((⟨.sound "content", 10⟩, node) :: members)) := by
  have forms := Tree.forms_of_ofText tree whole
  have goesOn := forms.goesOn
  obtain ⟨front, inner, back, tokens, here, slot⟩ := hole.exists_slot forms
  obtain ⟨rest, rfl, member⟩ := here.exists_slot_cons
  -- The places are those of the new tokens in a text of their own, which will do: trees are
  -- compared without them.
  have filled := slot.trans (member 0 1 10 10 0 (.sound "content") rfl)
  rw [List.append_assoc, List.cons_append] at tokens
  rw [tokens, List.forall_mem_append, List.forall_mem_cons] at goesOn
  obtain ⟨frontGoesOn, -, backGoesOn⟩ := goesOn
  obtain ⟨before, middle, cut, begins, opens, next⟩ := exists_cut_at tokens frontGoesOn
  obtain ⟨behind, rfl, last⟩ := exists_of_openObject next
  have has : HasTokens behind (rest ++ back) := (lexes_of_goesOn last backGoesOn).hasTokens_self
  have name : Lexes "\x7b\"content\":".toList
      [.mark 0 .openObject, .string 1 10 (.sound "content"), .mark 10 .colon] :=
    lexes_of_goesOn (by with_unfolding_all rfl : tokensFrom _ 0 = _)
      (by simp [Token.IsLast, Reading.isBroken])
  have comma : Lexes ",".toList [.mark 0 .comma] :=
    lexes_of_goesOn (by with_unfolding_all rfl : tokensFrom _ 0 = _) (by simp [Token.IsLast])
  refine ⟨.ofList before, .ofList behind, ?_, ?_, encloses_of_slot filled ?_ ?_⟩
  · rw [← String.toList_inj, cut]
    simp
  · rw [String.toList_ofList]
    exact (begins.trans (Nat.zero_add _)).symm
  · rw [String.toList_append, String.toList_ofList]
    exact opens.append name slot.opens
  · rw [String.toList_append, String.toList_ofList, List.append_assoc]
    by_cases none : members = []
    · rwa [if_pos none, if_pos none]
    · rw [if_neg none, if_neg none]
      exact comma.hasTokens has (by simp [Token.IsPlain])

end BlockScribe.Json
