import BlockScribe.Proofs.Block.Violations
import BlockScribe.Proofs.Document.Activity
import BlockScribe.Proofs.Record.SampleLines

/-!
# Lines that are watched

Nothing in the writing of blocks keeps them from being nested without end.  What
does is that a description can only be read so deep: a line can be watched while
it is processed, and there are never more blocks being written at once than a
block list can have levels.
-/

namespace BlockScribe

open Event (active)

/-! ## Watching -/

/-- A result, and what happened to the document on the way there. -/
structure Watched (α : Type) where
  result : α
  events : List Event

namespace Settings

def encodeWatched (settings : Settings) (description : String) :
    Watched (Except Failure (List UInt8)) :=
  match Block.parseList description with
  | .error error => ⟨.error (.record (.invalidBlockList error)), []⟩
  | .ok blocks =>
      let log := Activity.store settings.store blocks firstNumber
      ⟨settings.format.save settings.actor <$> log.trace.result.mapError .schema, log.events⟩

def convertWatched (settings : Settings) (record : Record) : Watched Outcome :=
  match record.description with
  | none => ⟨.empty record.id, []⟩
  | some description =>
      let watched := settings.encodeWatched description
      let outcome := match watched.result with
        | .ok payload => .converted record.id payload
        | .error failure => .failed record.id failure
      ⟨outcome, watched.events⟩

def processWatched (settings : Settings) (line : String) : Option (Watched Outcome) :=
  if isBlank line.toList then none
  else
    match Record.parse line with
    | .ok record => some (settings.convertWatched record)
    | .error error => some ⟨.failed (recoverId line) (.record error), []⟩

variable (settings : Settings)

theorem result_encodeWatched (description : String) :
    (settings.encodeWatched description).result = settings.encodeDescription description := by
  rw [encodeWatched, encodeDescription]
  cases Block.parseList description with
  | error error => rfl
  | ok blocks =>
      simp only [Activity.result_store]
      rfl

theorem result_convertWatched (record : Record) :
    (settings.convertWatched record).result = settings.convert record := by
  rw [convertWatched, convert]
  cases record.description with
  | none => rfl
  | some description =>
      have same := settings.result_encodeWatched description
      cases encoded : settings.encodeDescription description <;> simp only [same, encoded]

/-- A line comes to the same whether it is watched or not. -/
theorem result_processWatched (line : String) :
    (settings.processWatched line).map (·.result) = settings.process line := by
  rw [processWatched, process]
  split
  · rfl
  · cases Record.parse line with
    | ok record => simp [result_convertWatched]
    | error error => rfl

/-! ## Blocks at once -/

/-- The blocks that are active at once are as many as there are levels, unless the schema is
broken. -/
theorem rises_encodeWatched (description : String) :
    ∃ height ≤ 63, Activity.Rises height (settings.encodeWatched description).events ∧
      ∀ blocks operations, Block.parseList description = .ok blocks →
        construct settings.store blocks = .ok operations → height = Block.levelsOf blocks := by
  rw [encodeWatched]
  cases read : Block.parseList description with
  | error error => exact ⟨0, Nat.zero_le 63, .writes [], nofun⟩
  | ok blocks =>
      have bound := Block.levelsOf_le_of_parseList read
      obtain ⟨height, most, rises, complete⟩ :=
        Activity.reaches_store settings.store blocks firstNumber
      refine ⟨height, by omega, rises, ?_⟩
      rintro _ operations ⟨⟩ constructed
      rw [← Activity.result_store, Trace.result_eq_ok] at constructed
      exact complete constructed.1

theorem rises_processWatched {line : String} {watched : Watched Outcome}
    (processed : settings.processWatched line = some watched) :
    ∃ height ≤ 63, Activity.Rises height watched.events := by
  rw [processWatched] at processed
  split at processed
  · cases processed
  · split at processed
    · cases processed
      rw [convertWatched]
      split
      · exact ⟨0, Nat.zero_le 63, .writes []⟩
      · next description _ =>
          obtain ⟨height, bound, rises, -⟩ := settings.rises_encodeWatched description
          exact ⟨height, bound, rises⟩
    · cases processed
      exact ⟨0, Nat.zero_le 63, .writes []⟩

end Settings

/-! ## Towers in lines -/

theorem construct_tower (store : String) (height : Nat) :
    ∃ operations, construct store (Block.tower height) = .ok operations := by
  rw [(construct_reports store _).ok_iff]
  induction height with
  | zero => rfl
  | succ height ih =>
      have clean : Block.violations ⟨none, BlockType.paragraph.name, .empty, none,
          Block.tower height⟩ = [] := rfl
      rw [Block.tower, Block.preorders, Block.preorder, Block.preorders, List.append_nil,
        List.flatMap_cons, clean, ih]
      rfl

/-- A line whose description is a tower of blocks. -/
def towerEntry (height : Nat) : Sample.Entry :=
  ⟨.string "tower", some (Block.towerJson height)⟩

theorem parse_towerEntry (height : Nat) : Record.parse (towerEntry height).line =
    .ok ⟨⟨"tower"⟩, some (Block.towerJson height).compact⟩ := by
  have single : (RecordId.ofJson (.string "tower")).isSingleLine := by decide
  rw [Sample.Entry.parse_line (.string "tower") single, Sample.Entry.record, towerEntry]
  simp only [Option.map_some, Sample.text, Block.canonical_towerJson]
  rfl

/-- The line of a tower has all of its blocks active at one moment. -/
theorem Settings.exists_active_tower (settings : Settings) {height : Nat} (low : height ≤ 63) :
    ∃ watched moment, settings.processWatched (towerEntry height).line = some watched ∧
      active (watched.events.take moment) = height := by
  obtain ⟨operations, constructed⟩ := construct_tower settings.store height
  obtain ⟨reached, -, rises, complete⟩ :=
    settings.rises_encodeWatched (Block.towerJson height).compact
  have full := complete _ operations (Block.parseList_towerJson low) constructed
  rw [Block.levelsOf_tower] at full
  obtain ⟨moment, most⟩ := rises.reached
  let record : Record := ⟨⟨"tower"⟩, some (Block.towerJson height).compact⟩
  refine ⟨settings.convertWatched record, moment, ?_, most.trans (congrArg _ full)⟩
  rw [processWatched, (towerEntry height).isBlank_line, parse_towerEntry]
  rfl

/--
The blocks that a description is read as have at most 63 levels, so no more of them
are being written at any moment while a line is processed; watching it changes
nothing.  There is a line with just as many, whatever the settings are.
-/
theorem Settings.processWatched_active :
    (∀ text blocks, Block.parseList text = .ok blocks → Block.levelsOf blocks ≤ 63) ∧
    (∀ (settings : Settings) line,
      (settings.processWatched line).map (·.result) = settings.process line) ∧
    (∀ (settings : Settings) line watched, settings.processWatched line = some watched →
      ∀ moment, 0 ≤ active (watched.events.take moment) ∧
        active (watched.events.take moment) ≤ 63) ∧
    ∃ line id description blocks, Record.parse line = .ok ⟨id, some description⟩ ∧
      Block.parseList description = .ok blocks ∧ Block.levelsOf blocks = 63 ∧
      ∀ settings : Settings, ∃ watched moment, settings.processWatched line = some watched ∧
        active (watched.events.take moment) = 63 := by
  refine ⟨fun _ _ => Block.levelsOf_le_of_parseList, fun settings => settings.result_processWatched,
    fun settings line watched processed moment => ?_, ?_⟩
  · obtain ⟨height, bound, rises⟩ := settings.rises_processWatched processed
    have within := rises.bounded moment
    omega
  · exact ⟨_, _, _, _, parse_towerEntry 63, Block.parseList_towerJson (Nat.le_refl 63),
      Block.levelsOf_tower 63, fun settings => settings.exists_active_tower (Nat.le_refl 63)⟩

end BlockScribe
