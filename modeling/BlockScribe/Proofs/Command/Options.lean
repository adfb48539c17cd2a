import BlockScribe.Command.Options
import BlockScribe.Proofs.Result
import BlockScribe.Proofs.SortedMap

/-!
# Options as they are written

An argument list that is made of options is read as these options, whichever
way their values are written.  It is taken if no option comes twice and the
actor, if there is one, can be read; then an option has the value that stands
under its name, and the order of the options does not matter.
-/

namespace BlockScribe

/-! ## Spellings -/

/-- A value stands behind an equals sign, or as an argument of its own if it begins with no dash. -/
inductive OptionName.Writes (name : OptionName) (value : String) : List String → Prop
  | joined : Writes name value [name.spelling ++ "=" ++ value]
  | apart (plain : value.startsWith "-" = false) : Writes name value [name.spelling, value]

namespace Options

/-- The arguments are these options with these values, one behind the other. -/
inductive Written : List (OptionName × String) → List String → Prop
  | nil : Written [] []
  | cons {name : OptionName} {value : String} {choices : List (OptionName × String)}
      {first rest : List String} (here : name.Writes value first)
      (later : Written choices rest) : Written ((name, value) :: choices) (first ++ rest)

theorem ofSpelling?_spelling (name : OptionName) :
    OptionName.ofSpelling? name.spelling = some name := by
  cases name <;> decide

theorem equals_not_mem_spelling (name : OptionName) : '=' ∉ name.spelling.toList := by
  cases name <;> decide

theorem splitArgument_spelling (name : OptionName) :
    splitArgument name.spelling = (name.spelling, .none) := by
  cases name <;> decide

theorem splitArgument_joined (name : OptionName) (value : String) :
    splitArgument (name.spelling ++ "=" ++ value) = (name.spelling, some value) := by
  have chars : (name.spelling ++ "=" ++ value).toList =
      name.spelling.toList ++ '=' :: value.toList := by simp
  have letters : ∀ c ∈ name.spelling.toList, decide (c ≠ '=') = true := fun c member =>
    decide_eq_true fun same => equals_not_mem_spelling name (same ▸ member)
  rw [splitArgument, chars, List.takeWhile_append_of_pos letters,
    List.dropWhile_append_of_pos letters]
  simp

/-! ## Reading -/

theorem ne_dashes_of_splitArgument {argument spelling : String} {value : Option String}
    (split : splitArgument argument = (spelling, value))
    (known : (OptionName.ofSpelling? spelling).isSome) : argument ≠ "--" := by
  rintro rfl
  have dashes : splitArgument "--" = ("--", .none) := by decide
  rw [dashes] at split
  cases split
  cases known

theorem parseFrom_joined (options : Options) (name : OptionName) (value : String)
    (rest : List String) :
    parseFrom options ((name.spelling ++ "=" ++ value) :: rest) = (do
      parseFrom (← options.set name value) rest) := by
  have other := ne_dashes_of_splitArgument (splitArgument_joined name value)
    (by rw [ofSpelling?_spelling]; rfl)
  rw [parseFrom]
  · simp only [splitArgument_joined, ofSpelling?_spelling]
  · exact fun same _ => other same

theorem parseFrom_apart (options : Options) (name : OptionName) {value : String}
    (plain : value.startsWith "-" = false) (rest : List String) :
    parseFrom options (name.spelling :: value :: rest) = (do
      parseFrom (← options.set name value) rest) := by
  have taken : isValue value = true := by simp [isValue, plain]
  rw [parseFrom]
  · simp only [splitArgument_spelling, ofSpelling?_spelling, taken, if_true]
  · exact nofun

/-- Reading arguments is setting the options that they are, one after the other. -/
theorem Written.parseFrom_eq {choices : List (OptionName × String)} {arguments : List String}
    (written : Written choices arguments) (options : Options) :
    parseFrom options arguments =
      choices.foldlM (fun options choice => options.set choice.1 choice.2) options := by
  induction written generalizing options with
  | nil => rfl
  | cons here later ih =>
      rw [List.foldlM_cons]
      cases here with
      | joined => rw [List.singleton_append, parseFrom_joined, funext ih]
      | apart plain =>
          rw [List.cons_append, List.singleton_append, parseFrom_apart _ _ plain, funext ih]

/-! ## Setting -/

/-- No option is given twice, and what is given as an actor is one. -/
structure Sound (choices : List (OptionName × String)) : Prop where
  distinct : (choices.map (·.1)).Nodup
  readable : ∀ text, (.actorId, text) ∈ choices → ∃ actor, Actor.parse text = .ok actor

def has (options : Options) : OptionName → Bool
  | .storeName => options.store.isSome
  | .actorId => options.actor.isSome

theorem set_eq_ok {options next : Options} {name : OptionName} {value : String}
    (taken : options.set name value = .ok next) :
    options.has name = false ∧ (∀ other, next.has other = (other = name || options.has other)) ∧
      (name = .actorId → ∃ actor, Actor.parse value = .ok actor) := by
  cases name with
  | storeName =>
      rw [set] at taken
      split at taken
      · cases taken
      · next fresh =>
          cases taken
          refine ⟨by simpa [has] using fresh, fun other => ?_, nofun⟩
          cases other <;> simp [has]
  | actorId =>
      rw [set] at taken
      split at taken
      · cases taken
      · next fresh =>
          obtain ⟨actor, read, taken⟩ := bind_eq_ok.mp taken
          cases taken
          refine ⟨by simpa [has] using fresh, fun other => ?_,
            fun _ => ⟨actor, mapError_eq_ok.mp read⟩⟩
          cases other <;> simp [has]

/-- Options that could all be set are sound, and none of them had been set before. -/
theorem sound_of_foldlM {choices : List (OptionName × String)} {options result : Options}
    (taken : choices.foldlM (fun options choice => options.set choice.1 choice.2) options =
      .ok result) : Sound choices ∧ ∀ choice ∈ choices, options.has choice.1 = false := by
  induction choices generalizing options with
  | nil => exact ⟨⟨List.nodup_nil, nofun⟩, nofun⟩
  | cons choice choices ih =>
      rw [List.foldlM_cons] at taken
      obtain ⟨next, first, taken⟩ := bind_eq_ok.mp taken
      obtain ⟨fresh, has_next, readable⟩ := set_eq_ok first
      obtain ⟨sound, later⟩ := ih taken
      simp only [has_next, Bool.or_eq_false_iff, decide_eq_false_iff_not] at later
      refine ⟨⟨?_, fun text member => ?_⟩, List.forall_mem_cons.mpr
        ⟨fresh, fun other member => (later other member).2⟩⟩
      · refine List.nodup_cons.mpr ⟨fun again => ?_, sound.distinct⟩
        obtain ⟨other, member, same⟩ := List.mem_map.mp again
        exact (later other member).1 same
      · rcases List.mem_cons.mp member with rfl | member
        · exact readable rfl
        · exact sound.readable text member

theorem exists_set {options : Options} {name : OptionName} {value : String}
    (fresh : options.has name = false)
    (readable : name = .actorId → ∃ actor, Actor.parse value = .ok actor) :
    ∃ next, options.set name value = .ok next ∧
      next.store = (if .storeName = name then some value else options.store) ∧
      next.actor = if .actorId = name then (Actor.parse value).toOption else options.actor := by
  cases name with
  | storeName =>
      have unset : options.store.isSome = false := fresh
      exact ⟨{ options with store := some value }, by simp [set, unset], rfl, rfl⟩
  | actorId =>
      obtain ⟨actor, read⟩ := readable rfl
      have unset : options.actor.isSome = false := fresh
      refine ⟨{ options with actor := some actor }, ?_, rfl, by simp [read, Except.toOption]⟩
      simp only [set, unset, read]
      rfl

/-- Sound options leave the value of each under its name, beside all that was set before. -/
theorem foldlM_of_sound {choices : List (OptionName × String)} (sound : Sound choices)
    {options : Options} (fresh : ∀ choice ∈ choices, options.has choice.1 = false) :
    choices.foldlM (fun options choice => options.set choice.1 choice.2) options =
      .ok ⟨(choices.lookup .storeName).or options.store,
        ((choices.lookup .actorId).bind fun text => (Actor.parse text).toOption).or
          options.actor⟩ := by
  induction choices generalizing options with
  | nil => rfl
  | cons choice choices ih =>
      obtain ⟨name, value⟩ := choice
      obtain ⟨once, distinct⟩ := List.nodup_cons.mp sound.distinct
      obtain ⟨here, later⟩ := List.forall_mem_cons.mp fresh
      have rest : Sound choices :=
        ⟨distinct, fun text member => sound.readable text (List.mem_cons_of_mem _ member)⟩
      obtain ⟨next, first, store, actor⟩ := exists_set here fun same =>
        sound.readable value (same ▸ List.mem_cons_self)
      have fresh' : ∀ choice ∈ choices, next.has choice.1 = false := by
        intro choice member
        have other : choice.1 ≠ name :=
          fun same => once (same ▸ List.mem_map_of_mem (f := (·.1)) member)
        simp [(set_eq_ok first).2.1, other, later choice member]
      -- Behind the option that has just been set, its name does not come again.
      have none_behind : choices.lookup name = .none := SortedMap.lookup_eq_none_of_fresh once
      rw [List.foldlM_cons, first]
      refine (ih rest fresh').trans ?_
      simp only [SortedMap.lookup_cons_ite, store, actor]
      cases name with
      | storeName => simp [none_behind]
      | actorId =>
          have unset : options.actor = .none := by simpa [has] using here
          simp [none_behind, unset]

/-! ## Order -/

theorem lookup_perm {choices others : List (OptionName × String)} (perm : others.Perm choices)
    (distinct : (choices.map (·.1)).Nodup) (name : OptionName) :
    others.lookup name = choices.lookup name := by
  have distinct' : (others.map (·.1)).Nodup := (perm.map (·.1)).nodup_iff.mpr distinct
  refine Option.ext fun value => ?_
  have here := SortedMap.mem_iff_lookup distinct (name, value)
  have there := SortedMap.mem_iff_lookup distinct' (name, value)
  rw [← here, ← there, perm.mem_iff]

theorem sound_perm {choices others : List (OptionName × String)} (perm : others.Perm choices) :
    Sound others ↔ Sound choices := by
  have oneWay {choices others : List (OptionName × String)} (perm : others.Perm choices)
      (sound : Sound others) : Sound choices :=
    ⟨(perm.map (·.1)).nodup_iff.mp sound.distinct,
      fun text member => sound.readable text (perm.mem_iff.mpr member)⟩
  exact ⟨oneWay perm, oneWay perm.symm⟩

/-! ## Arguments -/

theorem Written.parse_of_sound {choices : List (OptionName × String)} {arguments : List String}
    (written : Written choices arguments) (sound : Sound choices) :
    parse arguments = .ok ⟨choices.lookup .storeName,
      (choices.lookup .actorId).bind fun text => (Actor.parse text).toOption⟩ := by
  rw [parse, written.parseFrom_eq, foldlM_of_sound sound fun choice _ => by cases choice.1 <;> rfl]
  simp [none]

theorem Written.parse_of_not_sound {choices : List (OptionName × String)}
    {arguments : List String} (written : Written choices arguments) (unsound : ¬Sound choices) :
    ∃ error, parse arguments = .error error := by
  rw [parse, written.parseFrom_eq]
  cases taken : choices.foldlM (fun options choice => options.set choice.1 choice.2) none with
  | ok result => exact absurd (sound_of_foldlM taken).1 unsound
  | error error => exact ⟨error, rfl⟩

end Options

end BlockScribe
