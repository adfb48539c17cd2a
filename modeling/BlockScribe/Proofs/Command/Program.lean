import BlockScribe.Command.Program
import BlockScribe.Proofs.Command.Options
import BlockScribe.Proofs.Stream.Faults

/-!
# The program does the run that its arguments name

With options that can be read, the program is a run with the store and the actor
that they name, or with the usual ones, and its exit code tells how the run
ended.  With options that cannot be read there is no run.
-/

namespace BlockScribe

namespace Program

/-! ## How runs end -/

theorem runWith_sound (settings : Settings) (input : List UInt8) :
    let transcript := settings.run .none input
    runWith settings .sound input =
      ⟨0, transcript.outputText, transcript.diagnosticText, none⟩ := by
  have went : complaint? Connection.sound.gone (settings.run .none input).result = none := by
    rw [Settings.run_none]
    rfl
  simp only [runWith, Connection.faults, Connection.received, went, codeOf]

/-- A failure to read is complained of, whatever had been read before. -/
theorem complaint?_run_unreadable (settings : Settings) (input : List UInt8) :
    complaint? Connection.unreadable.gone
      (settings.run { Faults.none with input := true } input).result = some (.stream .read) := by
  rw [Settings.run_eq_overLines,
    Run.overLines_through settings (by simp [Faults.none]) (by simp [Faults.none])]
  rfl

theorem runWith_unreadable (settings : Settings) (input : List UInt8) :
    runWith settings .unreadable input = ⟨1, "", "", some (.stream .read)⟩ := by
  have nothing : settings.run Connection.unreadable.faults [] = ⟨[], [], [], .error .read⟩ := by
    simp [Settings.run_eq_overLines, Run.lines, cutLines, Run.overLines, Connection.faults]
  rw [runWith, Connection.received, nothing]
  rfl

/-- Where the output takes nothing, a run ends with its first line of output. -/
theorem run_refused (settings : Settings) (input : List UInt8) :
    let outcomes := settings.outcomes ((Run.lines .none input).map lineText)
    (outcomes = [] → ∃ summary,
      settings.run { Faults.none with output := true } input = ⟨[], [], [], .ok summary⟩) ∧
    (outcomes ≠ [] →
      settings.run { Faults.none with output := true } input =
        ⟨[], (outcomes.take 1).filterMap (·.diagnostic?), [], .error .write⟩) := by
  have lines : Run.lines { Faults.none with output := true } input = Run.lines .none input := rfl
  rw [Settings.run_eq_overLines, lines]
  refine ⟨fun nothing => ?_, fun something => Run.overLines_write settings rfl something⟩
  rw [Run.overLines_through settings (fun _ => nothing) (by simp [Faults.none]),
    Run.overLines_eq_after]
  simp only [Run.after, nothing, Run.told]
  exact ⟨_, rfl⟩

theorem runWith_unread (settings : Settings) (input : List UInt8) :
    let outcomes := settings.outcomes ((Run.lines .none input).map lineText)
    runWith settings .unread input =
      ⟨0, "", streamText ((outcomes.take 1).filterMap (·.diagnostic?)), none⟩ := by
  obtain ⟨went, stopped⟩ := run_refused settings input
  by_cases nothing : settings.outcomes ((Run.lines .none input).map lineText) = []
  · obtain ⟨summary, run⟩ := went nothing
    simp only [runWith, Connection.faults, Connection.received, run, nothing]
    rfl
  · simp only [runWith, Connection.faults, Connection.received, stopped nothing]
    rfl

theorem runWith_refused (settings : Settings) (input : List UInt8) :
    let outcomes := settings.outcomes ((Run.lines .none input).map lineText)
    (outcomes = [] → runWith settings .refused input = ⟨0, "", "", none⟩) ∧
    (outcomes ≠ [] → runWith settings .refused input =
      ⟨1, "", streamText ((outcomes.take 1).filterMap (·.diagnostic?)),
        some (.stream .write)⟩) := by
  obtain ⟨went, stopped⟩ := run_refused settings input
  constructor
  · intro nothing
    obtain ⟨summary, run⟩ := went nothing
    simp only [runWith, Connection.faults, Connection.received, run]
    rfl
  · intro something
    simp only [runWith, Connection.faults, Connection.received, stopped something]
    rfl

/-! ## Programs -/

/-- The store and the actor that stand under the names of the options, or the usual ones. -/
structure Names (choices : List (OptionName × String)) (format : Format) (settings : Settings) :
    Prop where
  store : settings.store = (choices.lookup .storeName).getD "document-store"
  actor : match choices.lookup .actorId with
    | none => settings.actor = utf8 "storydoc"
    | some text => Actor.parse text = .ok settings.actor
  format : settings.format = format

variable {choices : List (OptionName × String)} {arguments : List String}

theorem exists_names (written : Options.Written choices arguments)
    (sound : Options.Sound choices) (format : Format) :
    ∃ settings, Names choices format settings ∧ ∀ connection input,
      run arguments connection input format = runWith settings connection input := by
  have parsed := written.parse_of_sound sound
  refine ⟨_, ⟨rfl, ?_, rfl⟩, fun connection input => by rw [run, parsed]⟩
  cases given : choices.lookup .actorId with
  | none =>
      show Settings.defaultActor = utf8 "storydoc"
      decide
  | some text =>
      have member := (SortedMap.mem_iff_lookup sound.distinct (.actorId, text)).mpr given
      obtain ⟨actor, read⟩ := sound.readable text member
      simp [Options.settings, read, Except.toOption]

theorem run_of_not_sound (written : Options.Written choices arguments)
    (unsound : ¬Options.Sound choices) :
    ∃ error, ∀ connection input format,
      run arguments connection input format = ⟨2, "", "", some (.usage error)⟩ := by
  obtain ⟨error, refused⟩ := written.parse_of_not_sound unsound
  refine ⟨error, fun connection input format => ?_⟩
  rw [run, refused]
  rfl

/--
Neither the order of the options nor the way they are written makes a difference.
Of options that cannot be read, they decide at most which error is complained of.
-/
theorem run_perm {others : List (OptionName × String)} {further : List String}
    (written : Options.Written choices arguments) (again : Options.Written others further)
    (perm : others.Perm choices) (connection : Connection) (input : List UInt8)
    (format : Format) :
    let exit := run arguments connection input format
    let exit' := run further connection input format
    exit'.code = exit.code ∧ exit'.output = exit.output ∧
      exit'.diagnostics = exit.diagnostics ∧ (Options.Sound choices → exit' = exit) := by
  by_cases sound : Options.Sound choices
  · have same : run further connection input format = run arguments connection input format := by
      rw [run, run, again.parse_of_sound ((Options.sound_perm perm).mpr sound),
        written.parse_of_sound sound, Options.lookup_perm perm sound.distinct,
        Options.lookup_perm perm sound.distinct]
    simp [same]
  · obtain ⟨error, refused⟩ := run_of_not_sound written sound
    obtain ⟨error', refused'⟩ :=
      run_of_not_sound again fun good => sound ((Options.sound_perm perm).mp good)
    simp [refused, refused', sound]

/--
A program whose options are sound is the run with the settings that they name:
it writes what the run writes, complains of nothing and exits with 0.  If the
input cannot be read it exits with 1, wherever reading fails.  If the output
cannot be written it stops with the first line of output: with 0 if nobody reads
the output, and else with 1.  With options of which one comes twice or is no
actor it runs nothing, complains of them and exits with 2.  The order of the
options and the way they are written make no difference, unless it is in what
is wrong with options that are not sound.
-/
theorem run_written (written : Options.Written choices arguments) (format : Format)
    (input : List UInt8) :
    (Options.Sound choices → ∃ settings, Names choices format settings ∧
      let transcript := settings.run .none input
      let outcomes := ((Run.lines .none input).map lineText).filterMap settings.process
      let first := streamText ((outcomes.take 1).filterMap (·.diagnostic?))
      run arguments .sound input format =
        ⟨0, transcript.outputText, transcript.diagnosticText, none⟩ ∧
      run arguments .unreadable input format = ⟨1, "", "", some (.stream .read)⟩ ∧
      (∀ read, codeOf (complaint? Connection.unreadable.gone
        (settings.run { Faults.none with input := true } read).result) = 1) ∧
      run arguments .unread input format = ⟨0, "", first, none⟩ ∧
      (outcomes = [] → run arguments .refused input format = ⟨0, "", "", none⟩) ∧
      (outcomes ≠ [] →
        run arguments .refused input format = ⟨1, "", first, some (.stream .write)⟩)) ∧
    (¬Options.Sound choices → ∃ error, ∀ connection,
      run arguments connection input format = ⟨2, "", "", some (.usage error)⟩) ∧
    ∀ others further, Options.Written others further → others.Perm choices → ∀ connection,
      let exit := run arguments connection input format
      let exit' := run further connection input format
      exit'.code = exit.code ∧ exit'.output = exit.output ∧
        exit'.diagnostics = exit.diagnostics ∧ (Options.Sound choices → exit' = exit) := by
  refine ⟨fun sound => ?_, fun unsound => ?_, fun others further again perm connection =>
    run_perm written again perm connection input format⟩
  · obtain ⟨settings, names, runs⟩ := exists_names written sound format
    refine ⟨settings, names, ?_⟩
    simp only [runs]
    refine ⟨runWith_sound settings input, runWith_unreadable settings input, fun read => ?_,
      runWith_unread settings input, runWith_refused settings input⟩
    rw [complaint?_run_unreadable]
    rfl
  · obtain ⟨error, refused⟩ := run_of_not_sound written unsound
    exact ⟨error, fun connection => refused connection input format⟩

theorem run_written_sample :
    let arguments := ["--actor-id", "0fA0", "--store-name=-a=b"]
    let settings : Settings := ⟨"-a=b", [0x0F, 0xA0], .payload⟩
    let input := utf8 "[1]" ++ [lineFeed]
    let transcript := settings.run .none input
    Options.Written [(.actorId, "0fA0"), (.storeName, "-a=b")] arguments ∧
      Options.Sound [(.actorId, "0fA0"), (.storeName, "-a=b")] ∧
      run arguments .sound input =
        ⟨0, transcript.outputText, transcript.diagnosticText, none⟩ ∧
      run ["--store-name=-a=b", "--actor-id=0fA0"] .sound input = run arguments .sound input := by
  intro arguments settings input transcript
  have actor : Actor.parse "0fA0" = .ok [0x0F, 0xA0] := by decide +kernel
  have written : Options.Written [(.actorId, "0fA0"), (.storeName, "-a=b")] arguments :=
    .cons (.apart (by decide +kernel)) (.cons .joined .nil)
  have turned : Options.Written [(.storeName, "-a=b"), (.actorId, "0fA0")]
      ["--store-name=-a=b", "--actor-id=0fA0"] := .cons .joined (.cons .joined .nil)
  have sound : Options.Sound [(.actorId, "0fA0"), (.storeName, "-a=b")] :=
    ⟨by decide, fun text member => by simp_all⟩
  obtain ⟨good, -, order⟩ := run_written written .payload input
  obtain ⟨named, names, whole, -⟩ := good sound
  obtain rfl : named = settings := by
    obtain ⟨store, bytes, format⟩ := named
    have sameStore : store = "-a=b" := names.store
    have sameBytes : Actor.parse "0fA0" = .ok bytes := names.actor
    have sameFormat : format = .payload := names.format
    rw [actor] at sameBytes
    cases sameBytes
    rw [sameStore, sameFormat]
  obtain ⟨-, -, -, same⟩ := order _ _ turned (List.Perm.swap _ _ []) .sound
  exact ⟨written, sound, whole, same sound⟩

end Program

end BlockScribe
