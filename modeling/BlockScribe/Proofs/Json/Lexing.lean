import BlockScribe.Proofs.Json.Scanning

/-!
# Text cut at its tokens

A token is known by its characters: it is the same wherever they stand and
whatever comes behind them, places apart, as long as what comes behind a number
does not go on with it.  So a text can be cut behind any of its tokens, and
between the parts other text can be put without a change to their tokens.
-/

namespace BlockScribe.Json

/-! ## Tokens wherever they stand -/

/-- The same reading, places of faults apart. -/
inductive Reading.Alike {α : Type} : Reading α → Reading α → Prop
  | sound (value : α) : Alike (.sound value) (.sound value)
  | skippable (fault fault' : Fault) : Alike (.skippable fault) (.skippable fault')
  | broken (place place' : Break) : Alike (.broken place) (.broken place')

/-- The same token, its place apart. -/
inductive Token.Alike : Token → Token → Prop
  | mark (start start' : Nat) (mark : Mark) : Alike (.mark start mark) (.mark start' mark)
  | plain {start stop start' stop' : Nat} {reading reading' : Reading Json}
      (same : reading.Alike reading') :
      Alike (.plain start stop reading) (.plain start' stop' reading')
  | string {start stop start' stop' : Nat} {reading reading' : Reading String}
      (same : reading.Alike reading') :
      Alike (.string start stop reading) (.string start' stop' reading')

theorem Numeral.toOption_number (numeral : Numeral) (stop stop' : Nat) :
    (numeral.number stop).toOption = (numeral.number stop').toOption := by
  unfold number
  split
  extract_lets rounded rounded'
  have each (exponent : Int) : (rounded exponent).toOption = (rounded' exponent).toOption := by
    unfold rounded rounded'
    split <;> rfl
  split
  · split
    · rfl
    · exact each _
  · split
    · split <;> rfl
    · exact each _

theorem Numeral.reading_alike (numeral : Numeral) (stop stop' : Nat) :
    (numeral.reading stop).Alike (numeral.reading stop') := by
  have same := numeral.toOption_number stop stop'
  unfold reading
  cases here : numeral.number stop with
  | ok value =>
      rw [here] at same
      rw [toOption_eq_some.mp same.symm]
      exact .sound _
  | error fault =>
      cases there : numeral.number stop' with
      | ok value =>
          rw [here, there] at same
          cases same
      | error fault' => exact .skippable fault fault'

def Token.IsPlain : Token → Prop
  | .plain .. => True
  | _ => False

/-- A token that breaks for everyone, so that nothing behind it is looked at. -/
def Token.IsLast : Token → Prop
  | .mark _ kind => kind = .stray
  | .plain _ _ reading => reading.isBroken = true
  | .string _ _ reading => reading.isBroken = true

theorem isLast_of_nextToken {c : Char} {text : List Char} {index : Nat} {token : Token}
    (next : nextToken c text index = (token, none)) : token.IsLast := by
  unfold nextToken at next
  split at next
  · split at next <;> cases next <;> rfl
  · split at next
    · split at next <;> cases next
      rfl
    · split at next
      · split at next <;> cases next
        rfl
      · split at next <;> cases next
        rfl

theorem start_nextToken (c : Char) (text : List Char) (index : Nat) :
    (nextToken c text index).1.start = index := by
  unfold nextToken
  repeat' split
  all_goals rfl

/-- The characters behind `c` belong to its token, whatever there is behind them. -/
def Makes (c : Char) (chars : List Char) (token : Token) (holds : List Char → Prop) : Prop :=
  ∀ more index, holds more → ∃ token',
    nextToken c (chars ++ more) index =
      (token', some (more, index + byteLength (c :: chars))) ∧ token.Alike token'

section

variable {c : Char} {text rest : List Char} {index stop : Nat} {token : Token}

theorem nextToken_string (next : nextToken '"' text index = (token, some (rest, stop))) :
    ∃ chars, text = chars ++ rest ∧ stop = index + byteLength ('"' :: chars) ∧
      Makes '"' chars token fun _ => True := by
  have skipped : skipString text (index + 1) = .ok (rest, stop) := by
    rw [nextToken, if_pos rfl] at next
    split at next <;> cases next <;> assumption
  obtain ⟨chars, rfl, closes⟩ := exists_closes skipped
  obtain ⟨read, reads⟩ := closes.exists_readString
  have sound (more : List Char) (index : Nat) {found : List Char}
      (here : readString (chars ++ more) (index + 1) = .ok found) :
      nextToken '"' (chars ++ more) index =
        (.string index (index + byteLength ('"' :: chars)) (.sound (String.ofList found)),
          some (more, index + byteLength ('"' :: chars))) := by
    rw [nextToken, if_pos rfl, closes.skipString_eq, here, byteLength_cons, ← Nat.add_assoc]
    rfl
  have skippable (more : List Char) (index : Nat) {fault : Fault}
      (here : readString (chars ++ more) (index + 1) = .error fault) :
      nextToken '"' (chars ++ more) index =
        (.string index (index + byteLength ('"' :: chars)) (.skippable fault),
          some (more, index + byteLength ('"' :: chars))) := by
    rw [nextToken, if_pos rfl, closes.skipString_eq, here, byteLength_cons, ← Nat.add_assoc]
    rfl
  have same (more : List Char) (index' : Nat) :
      (readString (chars ++ more) (index' + 1)).toOption =
        (readString (chars ++ rest) (index + 1)).toOption :=
    (reads more (index' + 1)).trans (reads rest (index + 1)).symm
  cases here : readString (chars ++ rest) (index + 1) with
  | ok found =>
      cases (sound rest index here).symm.trans next
      refine ⟨chars, rfl, rfl, fun more index' _ => ⟨_, sound more index' ?_, .string (.sound _)⟩⟩
      rw [← toOption_eq_some, same, here]
      rfl
  | error fault =>
      cases (skippable rest index here).symm.trans next
      refine ⟨chars, rfl, rfl, fun more index' _ => ?_⟩
      cases there : readString (chars ++ more) (index' + 1) with
      | ok found =>
          have unread := same more index'
          rw [here, there] at unread
          cases unread
      | error fault' =>
          exact ⟨_, skippable more index' there, .string (.skippable fault fault')⟩

theorem nextToken_numeral (unquoted : c ≠ '"') (starts : (c = '-' || isDigit c) = true)
    {numeral : Numeral} (split : splitNumeral (c :: text) index = .ok ⟨numeral, rest, stop⟩) :
    ∃ chars, text = chars ++ rest ∧ stop = index + byteLength (c :: chars) ∧
      Makes c chars (.plain index stop (numeral.reading stop)) (Follows rest) := by
  obtain ⟨chars, whole, stops, again⟩ := splitNumeral_isLocal _ _ _ split
  have shorter := length_of_splitNumeral split
  cases chars with
  | nil =>
      rw [List.nil_append] at whole
      rw [whole] at shorter
      exact absurd shorter (Nat.lt_irrefl _)
  | cons first chars =>
      obtain ⟨rfl, rfl⟩ := List.cons.inj whole
      refine ⟨chars, rfl, stops, fun more index' follows => ?_⟩
      have next : nextToken c (chars ++ more) index' = (.plain index'
          (index' + byteLength (c :: chars)) (numeral.reading (index' + byteLength (c :: chars))),
            some (more, index' + byteLength (c :: chars))) := by
        rw [nextToken, if_neg unquoted, if_pos starts, ← List.cons_append, again more _ follows]
      exact ⟨_, next, .plain (numeral.reading_alike _ _)⟩

theorem append_of_spell {letters : List Char} (spelled : spell letters text index = .ok rest) :
    text = letters ++ rest := by
  fun_induction spell letters text index with
  | case1 =>
      cases spelled
      rfl
  | case2 => cases spelled
  | case3 _ _ _ _ ih => rw [ih spelled, List.cons_append]
  | case4 => cases spelled

theorem nextToken_word {letters : List Char} {value : Json}
    (isWord : word? c = some (letters, value))
    (spelled : spell letters text (index + 1) = .ok rest) :
    text = letters ++ rest ∧ index + 1 + letters.length = index + byteLength (c :: letters) ∧
      Makes c letters (.plain index (index + 1 + letters.length) (.sound value)) fun _ => True := by
  obtain ⟨unquoted, wordy, size⟩ : c ≠ '"' ∧ (c = '-' || isDigit c) = false ∧
      ∀ index : Nat, index + 1 + letters.length = index + byteLength (c :: letters) := by
    unfold word? at isWord
    split at isWord <;> cases isWord <;> exact ⟨by decide, rfl, fun index => rfl⟩
  refine ⟨append_of_spell spelled, size index, fun more index' _ => ?_⟩
  have next : nextToken c (letters ++ more) index' = (.plain index' (index' + 1 + letters.length)
      (.sound value), some (more, index' + 1 + letters.length)) := by
    rw [nextToken, if_neg unquoted, wordy]
    simp only [isWord, Builder.spell_append, Bool.false_eq_true, if_false]
  rw [← size]
  exact ⟨_, next, .plain (.sound value)⟩

theorem nextToken_mark (unquoted : c ≠ '"') (wordy : (c = '-' || isDigit c) = false)
    (noWord : word? c = none) (known : markOf c ≠ .stray) (text : List Char) (index : Nat) :
    nextToken c text index =
      (.mark index (markOf c), some (text, index + byteLength [c])) := by
  have size : c.utf8Size = 1 := by
    unfold markOf at known
    split at known <;> first | rfl | exact absurd rfl known
  rw [nextToken, if_neg unquoted, wordy, byteLength_cons, size]
  simp only [noWord, Bool.false_eq_true, if_false]
  cases mark : markOf c with
  | stray => exact absurd mark known
  | _ => rfl

/-- A token takes up some characters, and these make it up. -/
theorem exists_makes (next : nextToken c text index = (token, some (rest, stop))) :
    ∃ chars, text = chars ++ rest ∧ stop = index + byteLength (c :: chars) ∧
      Makes c chars token fun more => token.IsPlain → Follows rest more := by
  have always {chars : List Char} {token : Token} (makes : Makes c chars token fun _ => True) :
      Makes c chars token fun more => token.IsPlain → Follows rest more :=
    fun more index _ => makes more index trivial
  by_cases quote : c = '"'
  · subst quote
    obtain ⟨chars, whole, stops, makes⟩ := nextToken_string next
    exact ⟨chars, whole, stops, always makes⟩
  cases starts : (c = '-' || isDigit c) with
  | true =>
      rw [nextToken, if_neg quote, if_pos starts] at next
      split at next <;> cases next
      next split =>
      obtain ⟨chars, whole, stops, makes⟩ := nextToken_numeral quote starts split
      exact ⟨chars, whole, stops, fun more index follows =>
        makes more index (follows trivial)⟩
  | false =>
      cases word : word? c with
      | some found =>
          obtain ⟨letters, value⟩ := found
          rw [nextToken, if_neg quote, starts] at next
          simp only [Bool.false_eq_true, if_false, word] at next
          split at next <;> cases next
          next spelled =>
          obtain ⟨whole, stops, makes⟩ := nextToken_word word spelled
          exact ⟨letters, whole, stops, always makes⟩
      | none =>
          by_cases stray : markOf c = .stray
          · rw [nextToken, if_neg quote, starts] at next
            simp [word, stray] at next
          · have same := nextToken_mark quote starts word stray
            rw [same] at next
            cases next
            exact ⟨[], rfl, rfl, always fun more index' _ =>
              ⟨_, same more index', .mark index index' (markOf c)⟩⟩

end

/-! ## Texts cut at their tokens -/

/-- Some characters make up some tokens, whatever there is behind them. -/
def Lexes (chars : List Char) (tokens : List Token) : Prop :=
  ∀ rest index, (∀ token ∈ tokens.getLast?, token.IsPlain → Ended rest) → ∃ tokens',
    tokensFrom (chars ++ rest) index = tokens' ++ tokensFrom rest (index + byteLength chars) ∧
      List.Forall₂ Token.Alike tokens tokens'

theorem tokensFrom_gap {gap : List Char} (blank : ∀ c ∈ gap, isGap c = true) (rest : List Char)
    (index : Nat) : tokensFrom (gap ++ rest) index = tokensFrom rest (index + byteLength gap) := by
  induction gap generalizing index with
  | nil => rfl
  | cons c gap ih =>
      obtain ⟨first, later⟩ := List.forall_mem_cons.mp blank
      rw [List.cons_append, tokensFrom, if_pos first, ih later, byteLength_cons,
        utf8Size_of_isGap first, Nat.add_assoc]

theorem Lexes.nil : Lexes [] [] :=
  fun _ _ _ => ⟨[], rfl, .nil⟩

theorem Lexes.append_gap {chars gap : List Char} {tokens : List Token} (lexes : Lexes chars tokens)
    (blank : ∀ c ∈ gap, isGap c = true) : Lexes (chars ++ gap) tokens := by
  intro rest index ends
  have ends' : ∀ token ∈ tokens.getLast?, token.IsPlain → Ended (gap ++ rest) := by
    intro token last plain
    cases gap with
    | nil => exact ends token last plain
    | cons c gap =>
        rintro _ ⟨⟩
        simp [isEnd, blank c List.mem_cons_self]
  obtain ⟨tokens', read, alike⟩ := lexes (gap ++ rest) index ends'
  refine ⟨tokens', ?_, alike⟩
  rw [List.append_assoc, read, tokensFrom_gap blank, byteLength_append, Nat.add_assoc]

theorem tokensFrom_cons_of_nextToken {c : Char} {text rest : List Char} {index stop : Nat}
    {token : Token} (solid : isGap c = false)
    (next : nextToken c text index = (token, some (rest, stop))) :
    tokensFrom (c :: text) index = token :: tokensFrom rest stop := by
  rw [tokensFrom]
  simp only [solid, Bool.false_eq_true, if_false]
  split
  · next broken =>
      rw [next] at broken
      cases broken
  · next found =>
      rw [next] at found
      cases found
      rfl

theorem Lexes.cons {c : Char} {chars later rest : List Char} {token : Token} {tokens : List Token}
    (solid : isGap c = false)
    (makes : Makes c chars token fun more => token.IsPlain → Follows (later ++ rest) more)
    (lexes : Lexes later tokens) (both : later = [] ↔ tokens = []) :
    Lexes (c :: chars ++ later) (token :: tokens) := by
  intro more index last
  have follows : token.IsPlain → Follows (later ++ rest) (later ++ more) := by
    intro plain
    cases later with
    | nil =>
        obtain rfl := both.mp rfl
        exact .inr (last token rfl plain)
    | cons c later => exact .inl rfl
  obtain ⟨token', next, alike⟩ := makes (later ++ more) index follows
  have last' : ∀ token ∈ tokens.getLast?, token.IsPlain → Ended more := by
    intro token' here
    cases tokens with
    | nil => cases here
    | cons other tokens => exact last token' here
  obtain ⟨tokens', read, alikes⟩ := lexes more (index + byteLength (c :: chars)) last'
  refine ⟨token' :: tokens', ?_, .cons alike alikes⟩
  rw [List.append_assoc, List.cons_append, tokensFrom_cons_of_nextToken solid next, read,
    byteLength_append, Nat.add_assoc, List.cons_append]

theorem head?_tokensFrom {c : Char} (text : List Char) (index : Nat) (solid : isGap c = false) :
    (tokensFrom (c :: text) index).head? = some (nextToken c text index).1 := by
  rw [tokensFrom]
  simp only [solid, Bool.false_eq_true, if_false]
  split
  · next next => rw [next, List.head?_cons]
  · next next => rw [next, List.head?_cons]

/-- A text whose tokens fall into two parts is cut between them. -/
theorem exists_cut {text : List Char} {index : Nat} {front back : List Token}
    (cut : tokensFrom text index = front ++ back) (goesOn : ∀ token ∈ front, ¬token.IsLast) :
    ∃ before behind, text = before ++ behind ∧ (before = [] ↔ front = []) ∧
      Lexes before front ∧ tokensFrom behind (index + byteLength before) = back := by
  by_cases none : front = []
  · subst none
    exact ⟨[], text, rfl, by simp, .nil, cut⟩
  -- Along the tokens of the text: blanks go to the first part, and a token of the first part is
  -- made of its own characters, so that the rest can be cut by itself.
  fun_induction tokensFrom text index generalizing front with
  | case1 =>
      obtain ⟨rfl, rfl⟩ := List.append_eq_nil_iff.mp cut.symm
      exact absurd rfl none
  | case2 index c text gap ih =>
      obtain ⟨before, behind, rfl, -, lexes, rest⟩ := ih cut goesOn none
      refine ⟨c :: before, behind, rfl, by simp [none], fun more index last => ?_, ?_⟩
      · obtain ⟨tokens, read, alike⟩ := lexes more (index + 1) last
        refine ⟨tokens, ?_, alike⟩
        rw [List.cons_append, tokensFrom, if_pos gap, read, byteLength_cons,
          utf8Size_of_isGap gap, Nat.add_assoc]
      · rw [byteLength_cons, utf8Size_of_isGap gap, ← Nat.add_assoc, rest]
  | case3 index c text _ token next =>
      obtain ⟨token', front, rfl⟩ := List.exists_cons_of_ne_nil none
      obtain ⟨rfl, -⟩ := List.cons.inj cut
      exact absurd (isLast_of_nextToken next) (goesOn _ List.mem_cons_self)
  | case4 index c text solid token rest stop next ih =>
      obtain ⟨token', front, rfl⟩ := List.exists_cons_of_ne_nil none
      obtain ⟨rfl, tail⟩ := List.cons.inj cut
      obtain ⟨chars, rfl, rfl, makes⟩ := exists_makes next
      obtain ⟨later, behind, whole, both, lexes, back⟩ : ∃ later behind, rest = later ++ behind ∧
          (later = [] ↔ front = []) ∧ Lexes later front ∧
          tokensFrom behind (index + byteLength (c :: chars) + byteLength later) = back := by
        by_cases last : front = []
        · subst last
          exact ⟨[], rest, rfl, by simp, .nil, tail⟩
        · exact ih tail (fun token member => goesOn token (List.mem_cons_of_mem _ member)) last
      subst whole
      refine ⟨c :: chars ++ later, behind, by simp, by simp,
        .cons (by simpa using solid) makes lexes both, ?_⟩
      rw [byteLength_append, ← Nat.add_assoc, back]

/-- The text of a token begins at its start, behind blanks. -/
theorem exists_start {text : List Char} {index : Nat} {token : Token} {tokens : List Token}
    (read : tokensFrom text index = token :: tokens) : ∃ gap c rest, text = gap ++ c :: rest ∧
      (∀ c ∈ gap, isGap c = true) ∧ isGap c = false ∧ token.start = index + byteLength gap := by
  fun_induction tokensFrom text index with
  | case1 => cases read
  | case2 index c text gap ih =>
      obtain ⟨blank, first, rest, rfl, each, solid, start⟩ := ih read
      refine ⟨c :: blank, first, rest, rfl, List.forall_mem_cons.mpr ⟨gap, each⟩, solid, ?_⟩
      rw [start, byteLength_cons, utf8Size_of_isGap gap, Nat.add_assoc]
  | case3 index c text solid token' next =>
      obtain ⟨rfl, -⟩ := List.cons.inj read
      have start := start_nextToken c text index
      rw [next] at start
      exact ⟨[], c, text, rfl, List.forall_mem_nil _, by simpa using solid, start⟩
  | case4 index c text solid token' rest stop next ih =>
      obtain ⟨rfl, -⟩ := List.cons.inj read
      have start := start_nextToken c text index
      rw [next] at start
      exact ⟨[], c, text, rfl, List.forall_mem_nil _, by simpa using solid, start⟩

/-- The cut can be made right in front of the second part. -/
theorem exists_cut_at {text : List Char} {index : Nat} {front back : List Token} {token : Token}
    (cut : tokensFrom text index = front ++ token :: back)
    (goesOn : ∀ token ∈ front, ¬token.IsLast) :
    ∃ before behind, text = before ++ behind ∧ token.start = index + byteLength before ∧
      Lexes before front ∧ tokensFrom behind token.start = token :: back := by
  obtain ⟨before, behind, rfl, -, lexes, rest⟩ := exists_cut cut goesOn
  obtain ⟨gap, c, behind, rfl, blank, -, start⟩ := exists_start rest
  rw [Nat.add_assoc, ← byteLength_append] at start
  refine ⟨before ++ gap, c :: behind, by simp, start, lexes.append_gap blank, ?_⟩
  rw [start, byteLength_append, ← Nat.add_assoc, ← tokensFrom_gap blank, rest]

theorem markOf_of_nextToken {c : Char} {text : List Char} {index start : Nat} {kind : Mark}
    {more : Option (List Char × Nat)}
    (next : nextToken c text index = (.mark start kind, more)) : markOf c = kind := by
  unfold nextToken at next
  split at next
  · split at next <;> cases next
  · split at next
    · split at next <;> cases next
    · split at next
      · split at next <;> cases next
      · split at next <;> cases next
        · assumption
        · rfl

/-- A value is not gone on with where a mark that may follow it comes next. -/
theorem ended_of_mark {text : List Char} {index start : Nat} {kind : Mark} {tokens : List Token}
    (read : tokensFrom text index = .mark start kind :: tokens)
    (ends : kind = .comma ∨ kind = .closeArray ∨ kind = .closeObject) : Ended text := by
  have marked {c : Char} (mark : markOf c = kind) : isEnd c = true := by
    subst mark
    unfold markOf at ends
    split at ends <;> first | rfl | simp at ends
  unfold tokensFrom at read
  split at read
  · cases read
  · next c text =>
      rintro _ ⟨⟩
      split at read
      · next gap => simp [isEnd, gap]
      · split at read
        · next next =>
            cases read
            exact marked (markOf_of_nextToken next)
        · next next =>
            cases read
            exact marked (markOf_of_nextToken next)

end BlockScribe.Json
