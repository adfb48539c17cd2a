import BlockScribe.Proofs.Json.Compact
import BlockScribe.Proofs.Result
import Mathlib.Data.List.TakeWhile

/-!
# Strings and numerals wherever they stand

The characters of a string up to its closing mark make it up, whatever there is
behind them.  Those of a numeral do as long as what is behind them does not go
on with it, as a blank or a mark that ends a value never does.
-/

namespace BlockScribe.Json

/-! ## Bytes -/

theorem byteLength_cons (c : Char) (chars : List Char) :
    byteLength (c :: chars) = c.utf8Size + byteLength chars := rfl

theorem byteLength_append (a b : List Char) :
    byteLength (a ++ b) = byteLength a + byteLength b := by
  induction a with
  | nil => exact (Nat.zero_add _).symm
  | cons c a ih => rw [List.cons_append, byteLength_cons, byteLength_cons, ih, Nat.add_assoc]

theorem utf8Size_of_isDigit {c : Char} (digit : isDigit c = true) : c.utf8Size = 1 := by
  rw [isDigit, Bool.and_eq_true, decide_eq_true_eq, decide_eq_true_eq] at digit
  exact Char.utf8Size_eq_one_iff.mpr (Nat.le_trans digit.2 (by decide))

theorem utf8Size_of_isGap {c : Char} (gap : isGap c = true) : c.utf8Size = 1 := by
  simp only [isGap, Bool.or_eq_true, decide_eq_true_eq] at gap
  rcases gap with ((rfl | rfl) | rfl) | rfl <;> rfl

theorem utf8Size_of_digitValue? {c : Char} {value : Nat} (digit : Hex.digitValue? c = some value) :
    c.utf8Size = 1 := by
  have bounded {top : Char} (below : c ≤ top) (small : top ≤ '\x7f') : c.utf8Size = 1 :=
    Char.utf8Size_eq_one_iff.mpr (Nat.le_trans below small)
  unfold Hex.digitValue? at digit
  split at digit
  · next bounds => exact bounded bounds.2 (by decide)
  · split at digit
    · next bounds => exact bounded bounds.2 (by decide)
    · split at digit
      · next bounds => exact bounded bounds.2 (by decide)
      · cases digit

theorem byteLength_of_value? {digits : List Char} {code : Nat}
    (value : Hex.value? digits = some code) : byteLength digits = digits.length := by
  rw [Hex.value?] at value
  generalize 0 = start at value
  induction digits generalizing start with
  | nil => rfl
  | cons c digits ih =>
      simp only [List.foldlM_cons, Option.bind_eq_bind, Option.bind_eq_some_iff,
        Option.map_eq_map, Option.map_eq_some_iff] at value
      obtain ⟨_, ⟨_, digit, -⟩, later⟩ := value
      rw [byteLength_cons, utf8Size_of_digitValue? digit, ih _ later, List.length_cons,
        Nat.add_comm]

/-! ## Strings -/

/-- The rest of a string, as far as its closing mark. -/
inductive Closes : List Char → Prop
  | quote : Closes ['"']
  | unicode {a b c d : Char} {code : Nat} {chars : List Char}
      (digits : Hex.value? [a, b, c, d] = some code) (later : Closes chars) :
      Closes ('\\' :: 'u' :: a :: b :: c :: d :: chars)
  | named {letter : Char} {chars : List Char} (known : (namedEscape? letter).isSome)
      (later : Closes chars) : Closes ('\\' :: letter :: chars)
  | char {c : Char} {chars : List Char} (unquoted : c ≠ '"') (unescaped : c ≠ '\\')
      (visible : isControl c = false) (later : Closes chars) : Closes (c :: chars)

theorem hexQuad_eq_ok {digits rest : List Char} {index code : Nat} :
    hexQuad digits index = .ok (code, rest) ↔
      ∃ a b c d, digits = a :: b :: c :: d :: rest ∧ Hex.value? [a, b, c, d] = some code := by
  constructor
  · intro read
    unfold hexQuad at read
    split at read
    · next a b c d tail =>
        split at read
        · next value =>
            cases read
            exact ⟨a, b, c, d, rfl, value⟩
        · cases read
    · split at read <;> cases read
  · rintro ⟨a, b, c, d, rfl, value⟩
    rw [hexQuad, value]

theorem namedEscape?_isSome {letter : Char} (known : (namedEscape? letter).isSome) :
    letter.utf8Size = 1 ∧ letter ≠ 'u' := by
  unfold namedEscape? at known
  split at known <;> first | exact ⟨rfl, by decide⟩ | cases known

theorem Closes.skipString_eq {chars : List Char} (closes : Closes chars) (rest : List Char)
    (index : Nat) : skipString (chars ++ rest) index = .ok (rest, index + byteLength chars) := by
  induction closes generalizing index with
  | quote => rw [List.singleton_append, skipString]; rfl
  | @unicode a b c d code chars digits _ ih =>
      have quad : hexQuad (a :: b :: c :: d :: (chars ++ rest)) (index + 2) =
          .ok (code, chars ++ rest) := hexQuad_eq_ok.mpr ⟨a, b, c, d, rfl, digits⟩
      have size : byteLength ('\\' :: 'u' :: ([a, b, c, d] ++ chars)) = 6 + byteLength chars := by
        rw [byteLength_cons, byteLength_cons, byteLength_append, byteLength_of_value? digits]
        show 1 + (1 + (4 + _)) = _
        omega
      simp only [List.cons_append]
      rw [skipString, quad]
      simp only [ih]
      rw [Nat.add_assoc, ← size]
      rfl
  | @named letter chars known _ ih =>
      obtain ⟨size, other⟩ := namedEscape?_isSome known
      rw [List.cons_append, List.cons_append, skipString]
      · rw [if_pos known, ih, byteLength_cons, byteLength_cons, size, Nat.add_assoc]
        show Except.ok (rest, index + (2 + _)) = Except.ok (rest, index + (1 + (1 + _)))
        rw [← Nat.add_assoc 1 1]
      · exact other
  | @char c chars unquoted unescaped visible _ ih =>
      rw [List.cons_append, skipString]
      · rw [if_neg (by simp [visible]), ih, byteLength_cons, Nat.add_assoc]
      · exact unquoted
      all_goals simp [unescaped]

theorem exists_closes {text rest : List Char} {index stop : Nat}
    (skipped : skipString text index = .ok (rest, stop)) :
    ∃ chars, text = chars ++ rest ∧ Closes chars := by
  fun_induction skipString text index with
  | case1 => cases skipped
  | case2 =>
      cases skipped
      exact ⟨['"'], rfl, .quote⟩
  | case3 => cases skipped
  | case4 => cases skipped
  | case5 _ _ _ _ quad ih =>
      obtain ⟨chars, rfl, closes⟩ := ih skipped
      obtain ⟨a, b, c, d, rfl, digits⟩ := hexQuad_eq_ok.mp quad
      exact ⟨_, rfl, .unicode digits closes⟩
  | case6 _ letter _ _ known ih =>
      obtain ⟨chars, rfl, closes⟩ := ih skipped
      exact ⟨_, rfl, .named known closes⟩
  | case7 => cases skipped
  | case8 => cases skipped
  | case9 _ c _ unquoted lone _ escape shown ih =>
      obtain ⟨chars, rfl, closes⟩ := ih skipped
      refine ⟨c :: chars, rfl, .char unquoted (fun backslash => ?_) (by simpa using shown) closes⟩
      cases closing : chars ++ rest with
      | nil => exact lone backslash closing
      | cons letter text => exact escape letter text backslash closing

/-! ### Characters of a string -/

theorem readString_unicode (digits : List Char) (index : Nat) :
    readString ('\\' :: 'u' :: digits) index =
      escapedChar digits (index + 2) >>= fun (c, rest, next) =>
        (c :: ·) <$> readString rest next := by
  rw [readString]
  split
  · next broken =>
      rw [broken]
      rfl
  · next found =>
      rw [found]
      rfl

theorem toOption_cons {result : Except Fault (List Char)} {read : Option (List Char)}
    (same : result.toOption = read) (c : Char) :
    ((c :: ·) <$> result).toOption = read.map (c :: ·) := by
  rw [toOption_map, same]
  rfl

/-- Only a second half can follow the first half of a character. -/
theorem trailingSurrogate_of_closes {chars : List Char} (closes : Closes chars) :
    (∃ code later, Closes later ∧ later.length < chars.length ∧ ∀ rest index,
      trailingSurrogate (chars ++ rest) index = .ok (code, later ++ rest)) ∨
    ∀ rest index, (trailingSurrogate (chars ++ rest) index).toOption = none := by
  cases closes with
  | quote => exact .inr fun _ _ => rfl
  | @unicode a b c d code later digits closes =>
      have quad (rest : List Char) (index : Nat) :
          hexQuad (a :: b :: c :: d :: (later ++ rest)) index = .ok (code, later ++ rest) :=
        hexQuad_eq_ok.mpr ⟨a, b, c, d, rfl, digits⟩
      by_cases second : isTrailing code = true
      · refine .inl ⟨code, later, closes, by simp only [List.length_cons]; omega, ?_⟩
        intro rest index
        simp [trailingSurrogate, quad, second, bind, Except.bind, pure, Except.pure]
      · refine .inr fun rest index => ?_
        simp [trailingSurrogate, quad, second, bind, Except.bind, throw, throwThe,
          MonadExceptOf.throw, Except.toOption]
  | @named letter later known _ =>
      have other := (namedEscape?_isSome known).2
      refine .inr fun rest index => ?_
      simp only [List.cons_append]
      rw [trailingSurrogate.eq_def]
      simp [other, Except.toOption]
  | @char c later _ unescaped _ _ =>
      refine .inr fun rest index => ?_
      rw [List.cons_append, trailingSurrogate.eq_def]
      simp [unescaped, Except.toOption]

/-- An escaped character takes up one group of digits or two, or cannot be read. -/
theorem escapedChar_of_closes {a b c d : Char} {code : Nat} {later : List Char}
    (digits : Hex.value? [a, b, c, d] = some code) (closes : Closes later) :
    (∃ char last, Closes last ∧ last.length ≤ later.length ∧ ∀ rest index, ∃ next,
      escapedChar (a :: b :: c :: d :: (later ++ rest)) index = .ok (char, last ++ rest, next)) ∨
    ∀ rest index, (escapedChar (a :: b :: c :: d :: (later ++ rest)) index).toOption = none := by
  have escape (rest : List Char) (index : Nat) :
      escapedChar (a :: b :: c :: d :: (later ++ rest)) index =
        if isTrailing code then .error ⟨.loneSurrogate, index + 4⟩
        else if isLeading code then
          trailingSurrogate (later ++ rest) (index + 4) >>= fun found =>
            .ok (joinSurrogates code found.1, found.2, index + 10)
        else .ok (Char.ofNat code, later ++ rest, index + 4) := by
    rw [escapedChar, hexQuad_eq_ok.mpr ⟨a, b, c, d, rfl, digits⟩]
    rfl
  by_cases trailing : isTrailing code = true
  · exact .inr fun rest index => by rw [escape, if_pos trailing]; rfl
  · by_cases leading : isLeading code = true
    · rcases trailingSurrogate_of_closes closes with ⟨second, last, closes, shorter, found⟩ | lone
      · refine .inl ⟨joinSurrogates code second, last, closes, by omega, fun rest index => ?_⟩
        refine ⟨index + 10, ?_⟩
        rw [escape, if_neg trailing, if_pos leading, found]
        rfl
      · refine .inr fun rest index => ?_
        rw [escape, if_neg trailing, if_pos leading, toOption_bind, lone]
        rfl
    · refine .inl ⟨Char.ofNat code, later, closes, Nat.le_refl _, fun rest index => ?_⟩
      exact ⟨index + 4, by rw [escape, if_neg trailing, if_neg leading]⟩

/-- A string has its characters, or none that can be read, whatever there is behind it. -/
theorem Closes.exists_readString {chars : List Char} (closes : Closes chars) :
    ∃ read, ∀ rest index, (readString (chars ++ rest) index).toOption = read := by
  cases closes with
  | quote => exact ⟨some [], fun rest index => by rw [List.singleton_append, readString]; rfl⟩
  | @unicode a b c d code later digits closes =>
      simp only [List.cons_append, readString_unicode]
      rcases escapedChar_of_closes digits closes with ⟨char, last, closes, _, found⟩ | lone
      · obtain ⟨read, reads⟩ := closes.exists_readString
        refine ⟨read.map (char :: ·), fun rest index => ?_⟩
        obtain ⟨next, escape⟩ := found rest (index + 2)
        rw [escape]
        exact toOption_cons (reads rest next) char
      · exact ⟨none, fun rest index => by rw [toOption_bind, lone]; rfl⟩
  | @named letter later known closes =>
      obtain ⟨meant, named⟩ := Option.isSome_iff_exists.mp known
      obtain ⟨read, reads⟩ := closes.exists_readString
      refine ⟨read.map (meant :: ·), fun rest index => ?_⟩
      rw [List.cons_append, List.cons_append, readString]
      · rw [named]
        exact toOption_cons (reads _ _) meant
      · exact (namedEscape?_isSome known).2
  | @char c later unquoted unescaped shown closes =>
      obtain ⟨read, reads⟩ := closes.exists_readString
      refine ⟨read.map (c :: ·), fun rest index => ?_⟩
      rw [List.cons_append, readString]
      · rw [if_neg (by simp [shown])]
        exact toOption_cons (reads _ _) c
      · exact unquoted
      all_goals simp [unescaped]
termination_by chars.length

/-! ## Numerals -/

def isEnd (c : Char) : Bool :=
  isGap c || c = ',' || c = ']' || c = '\x7d'

/-- Text that does not go on with a value: it is at its end, at a blank or at a mark. -/
def Ended (rest : List Char) : Prop :=
  ∀ c ∈ rest.head?, isEnd c = true

/-- Text that ends a value, or goes on with the same character as other text. -/
def Follows (rest more : List Char) : Prop :=
  more.head? = rest.head? ∨ Ended more

theorem Follows.append {rest more : List Char} (follows : Follows rest more)
    (chars : List Char) : Follows (chars ++ rest) (chars ++ more) := by
  cases chars with
  | nil => exact follows
  | cons c chars => exact .inl rfl

theorem Follows.forall_head {rest more : List Char} (follows : Follows rest more)
    (holds : Char → Prop) (ends : ∀ c, isEnd c = true → holds c)
    (first : ∀ c ∈ rest.head?, holds c) : ∀ c ∈ more.head?, holds c := by
  rcases follows with same | ended
  · rwa [same]
  · exact fun c here => ends c (ended c here)

theorem isDigit_of_isEnd {c : Char} (ends : isEnd c = true) : isDigit c = false := by
  simp only [isEnd, isGap, Bool.or_eq_true, decide_eq_true_eq] at ends
  rcases ends with ((((((rfl | rfl) | rfl) | rfl) | rfl) | rfl) | rfl) <;> rfl

/-- A row of digits is the same as long as no other digit follows. -/
def IsRow (row : List Char → Nat → Except Break (List Nat × List Char)) : Prop :=
  ∀ text index digits rest, row text index = .ok (digits, rest) →
    ∃ chars, text = chars ++ rest ∧ byteLength chars = digits.length ∧
      ∀ more index, Follows rest more → row (chars ++ more) index = .ok (digits, more)

theorem exists_spanDigits (text : List Char) : ∃ chars rest, text = chars ++ rest ∧
    byteLength chars = (chars.map digitOf).length ∧
    ∀ more, Follows rest more → spanDigits (chars ++ more) = (chars.map digitOf, more) := by
  have digits : ∀ c ∈ text.takeWhile isDigit, isDigit c = true :=
    fun c member => List.mem_takeWhile_imp member
  refine ⟨text.takeWhile isDigit, text.dropWhile isDigit, List.takeWhile_append_dropWhile.symm,
    ?_, fun more follows => spanDigits_append digits ?_⟩
  · generalize text.takeWhile isDigit = chars at digits
    induction chars with
    | nil => rfl
    | cons c chars ih =>
        obtain ⟨first, later⟩ := List.forall_mem_cons.mp digits
        rw [byteLength_cons, utf8Size_of_isDigit first, ih later, List.map_cons,
          List.length_cons, Nat.add_comm]
  · refine follows.forall_head (isDigit · = false) (fun c => isDigit_of_isEnd)
      fun c here => ?_
    have stops := List.head?_dropWhile_not isDigit text
    rw [Option.mem_def.mp here] at stops
    simpa using stops

/-- A row is local if it is all the digits there are, taken or not for what they are. -/
theorem IsRow.of_spanDigits {row : List Char → Nat → Except Break (List Nat × List Char)}
    (accepts : List Nat → Prop) (takes : ∀ text index digits rest,
      row text index = .ok (digits, rest) ↔ spanDigits text = (digits, rest) ∧ accepts digits) :
    IsRow row := by
  intro text index digits rest read
  obtain ⟨chars, behind, rfl, size, span⟩ := exists_spanDigits text
  obtain ⟨spanned, accepted⟩ := (takes _ _ _ _).mp read
  rw [span behind (.inl rfl)] at spanned
  cases spanned
  exact ⟨chars, rfl, size, fun more index follows =>
    (takes _ _ _ _).mpr ⟨span more follows, accepted⟩⟩

theorem digitMissing_ne_ok (index : Nat) (text : List Char) (row : List Nat × List Char) :
    digitMissing index text ≠ .ok row := by
  unfold digitMissing
  split <;> rintro ⟨⟩

theorem someDigits_isRow : IsRow someDigits := by
  refine .of_spanDigits (· ≠ []) fun text index digits rest => ?_
  unfold someDigits
  generalize spanDigits text = row
  split
  · refine iff_of_false (digitMissing_ne_ok _ _ _) ?_
    rintro ⟨⟨⟩, some⟩
    exact some rfl
  · next some =>
      rw [Except.ok.injEq, iff_self_and]
      rintro rfl none
      exact some rest (Prod.ext none rfl)

theorem wholeDigits_isRow : IsRow wholeDigits := by
  refine .of_spanDigits (fun digits => digits ≠ [] ∧ ∀ next more, digits ≠ 0 :: next :: more)
    fun text index digits rest => ?_
  unfold wholeDigits
  generalize spanDigits text = row
  split
  · refine iff_of_false (digitMissing_ne_ok _ _ _) ?_
    rintro ⟨⟨⟩, some, -⟩
    exact some rfl
  · refine iff_of_false (by rintro ⟨⟩) ?_
    rintro ⟨⟨⟩, -, single⟩
    exact single _ _ rfl
  · next some single =>
      rw [Except.ok.injEq, iff_self_and]
      rintro rfl
      exact ⟨fun none => some rest (Prod.ext none rfl),
        fun next more leading => single next more rest (Prod.ext leading rfl)⟩

/-- A part of a numeral is the same wherever it stands, unless the text behind goes on with it. -/
def IsLocal (scan : List Char → Nat → Except Break Split) : Prop :=
  ∀ text index split, scan text index = .ok split →
    ∃ chars, text = chars ++ split.rest ∧ split.stop = index + byteLength chars ∧
      ∀ more index, Follows split.rest more →
        scan (chars ++ more) index = .ok ⟨split.numeral, more, index + byteLength chars⟩

theorem IsRow.isLocal {row : List Char → Nat → Except Break (List Nat × List Char)}
    {next : List Nat → List Char → Nat → Except Break Split} (isRow : IsRow row)
    (later : ∀ digits, IsLocal (next digits)) :
    IsLocal fun text index =>
      row text index >>= fun (digits, rest) => next digits rest (index + digits.length) := by
  intro text index split read
  obtain ⟨⟨digits, rest⟩, first, second⟩ := bind_eq_ok.mp read
  obtain ⟨chars, rfl, size, again⟩ := isRow _ _ _ _ first
  obtain ⟨chars', rfl, stop, again'⟩ := later digits _ _ _ second
  refine ⟨chars ++ chars', (List.append_assoc ..).symm, ?_, fun more index follows => ?_⟩
  · rw [stop, byteLength_append, size, Nat.add_assoc]
  · simp only [List.append_assoc, again _ index (follows.append chars')]
    show next digits (chars' ++ more) (index + digits.length) = _
    rw [again' _ _ follows, byteLength_append, size, Nat.add_assoc]

/-- A mark inside a numeral, which is none that ends a value, decides how to go on. -/
theorem IsLocal.choose {scan unmarked : List Char → Nat → Except Break Split}
    (isMark : Char → Bool) {marked : Char → List Char → Nat → Except Break Split}
    (inner : ∀ c, isMark c = true → c.utf8Size = 1 ∧ isEnd c = false)
    (goesOn : ∀ c, isMark c = true → IsLocal (marked c)) (otherwise : IsLocal unmarked)
    (onMark : ∀ c rest index, isMark c = true → scan (c :: rest) index = marked c rest (index + 1))
    (onOther : ∀ text index, (∀ c ∈ text.head?, isMark c = false) →
      scan text index = unmarked text index) : IsLocal scan := by
  intro text index split read
  by_cases other : ∀ c ∈ text.head?, isMark c = false
  · rw [onOther _ _ other] at read
    obtain ⟨chars, rfl, stop, again⟩ := otherwise _ _ _ read
    refine ⟨chars, rfl, stop, fun more index follows => ?_⟩
    rw [onOther, again _ _ follows]
    refine (follows.append chars).forall_head (isMark · = false) (fun c ends => ?_) other
    by_contra mark
    rw [(inner c (by simpa using mark)).2] at ends
    cases ends
  · push Not at other
    obtain ⟨c, here, mark⟩ := other
    obtain ⟨rest, rfl⟩ := List.head?_eq_some_iff.mp here
    have mark : isMark c = true := by simpa using mark
    rw [onMark _ _ _ mark] at read
    obtain ⟨chars, rfl, stop, again⟩ := goesOn c mark _ _ _ read
    have size (index : Nat) : index + 1 + byteLength chars = index + byteLength (c :: chars) := by
      rw [byteLength_cons, (inner c mark).1, Nat.add_assoc]
    refine ⟨c :: chars, rfl, stop.trans (size index), fun more index follows => ?_⟩
    rw [List.cons_append, onMark _ _ _ mark, again _ _ follows, size]

theorem IsLocal.done (numeral : Numeral) :
    IsLocal fun text index => .ok ⟨numeral, text, index⟩ := by
  rintro text index _ ⟨⟩
  exact ⟨[], rfl, rfl, fun _ _ _ => rfl⟩

theorem splitPower_isLocal (numeral : Numeral) (negative : Bool) :
    IsLocal (splitPower numeral negative) :=
  someDigits_isRow.isLocal fun digits =>
    .done { numeral with exponent := some ⟨negative, digits⟩ }

theorem splitExponent_isLocal (numeral : Numeral) : IsLocal (splitExponent numeral) := by
  refine .choose (fun c => c = '+' || c = '-') ?_
    (fun c _ => splitPower_isLocal numeral (c = '-')) (splitPower_isLocal numeral false) ?_ ?_
  · intro c mark
    simp only [Bool.or_eq_true, decide_eq_true_eq] at mark
    rcases mark with rfl | rfl <;> exact ⟨rfl, rfl⟩
  · intro c rest index mark
    simp only [Bool.or_eq_true, decide_eq_true_eq] at mark
    rcases mark with rfl | rfl <;> rfl
  · intro text index other
    unfold splitExponent
    split
    · cases other '+' rfl
    · cases other '-' rfl
    · rfl

theorem splitTail_isLocal (numeral : Numeral) : IsLocal (splitTail numeral) := by
  refine .choose (fun c => c = 'e' || c = 'E') ?_
    (fun _ _ => splitExponent_isLocal numeral) (.done numeral) ?_ ?_
  · intro c mark
    simp only [Bool.or_eq_true, decide_eq_true_eq] at mark
    rcases mark with rfl | rfl <;> exact ⟨rfl, rfl⟩
  · intro c rest index mark
    simp only [Bool.or_eq_true, decide_eq_true_eq] at mark
    rcases mark with rfl | rfl <;> rfl
  · intro text index other
    unfold splitTail
    split
    · cases other 'e' rfl
    · cases other 'E' rfl
    · rfl

theorem splitFraction_isLocal (numeral : Numeral) : IsLocal (splitFraction numeral) := by
  refine .choose (fun c => c = '.') ?_
    (fun _ _ => someDigits_isRow.isLocal fun digits =>
      splitTail_isLocal { numeral with fraction := some digits })
    (splitTail_isLocal numeral) ?_ ?_
  · intro c mark
    obtain rfl := of_decide_eq_true mark
    exact ⟨rfl, rfl⟩
  · intro c rest index mark
    obtain rfl := of_decide_eq_true mark
    rfl
  · intro text index other
    unfold splitFraction
    split
    · cases other '.' rfl
    · rfl

theorem splitNumeral_isLocal : IsLocal splitNumeral := by
  have magnitude (negative : Bool) : IsLocal (splitMagnitude negative) :=
    wholeDigits_isRow.isLocal fun digits => splitFraction_isLocal ⟨negative, digits, none, none⟩
  refine .choose (fun c => c = '-') ?_ (fun _ _ => magnitude true) (magnitude false) ?_ ?_
  · intro c mark
    obtain rfl := of_decide_eq_true mark
    exact ⟨rfl, rfl⟩
  · intro c rest index mark
    obtain rfl := of_decide_eq_true mark
    rfl
  · intro text index other
    unfold splitNumeral
    split
    · cases other '-' rfl
    · rfl

end BlockScribe.Json
