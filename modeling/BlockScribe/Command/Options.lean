import BlockScribe.Command.Actor
import BlockScribe.Record.Outcome

/-!
# Options of the command line

The name of the store and the actor, each at most once and in either order,
with the value behind an equals sign or as the next argument.  Nothing else is
taken, except for a final pair of dashes.
-/

namespace BlockScribe

inductive OptionName where
  | storeName
  | actorId
  deriving DecidableEq, Repr

inductive UsageError where
  | unexpected (argument : String)
  | missingValue (option : OptionName)
  | repeated (option : OptionName)
  | invalidActor (error : ActorError)
  deriving DecidableEq, Repr

namespace OptionName

def spelling : OptionName → String
  | .storeName => "--store-name"
  | .actorId => "--actor-id"

def ofSpelling? (text : String) : Option OptionName :=
  [storeName, actorId].find? (·.spelling = text)

end OptionName

def UsageError.message : UsageError → String
  | .unexpected argument => "unexpected argument " ++ quotedText argument
  | .missingValue option => "a value is required for " ++ option.spelling
  | .repeated option => option.spelling ++ " cannot be used multiple times"
  | .invalidActor error => error.message

structure Options where
  store : Option String
  actor : Option Actor
  deriving DecidableEq, Repr

namespace Options

def none : Options := ⟨.none, .none⟩

def settings (options : Options) (format : Format) : Settings where
  store := options.store.getD Settings.defaultStore
  actor := options.actor.getD Settings.defaultActor
  format := format

def splitArgument (argument : String) : String × Option String :=
  let chars := argument.toList
  let name := String.ofList (chars.takeWhile (· ≠ '='))
  match chars.dropWhile (· ≠ '=') with
  | _ :: value => (name, some (String.ofList value))
  | [] => (name, .none)

def isValue (argument : String) : Bool :=
  argument = "-" || !argument.startsWith "-"

def set (options : Options) (name : OptionName) (value : String) : Except UsageError Options :=
  match name with
  | .storeName =>
      if options.store.isSome then .error (.repeated name)
      else .ok { options with store := some value }
  | .actorId => do
      if options.actor.isSome then throw (.repeated name)
      let actor ← (Actor.parse value).mapError .invalidActor
      return { options with actor := some actor }

def parseFrom (options : Options) : List String → Except UsageError Options
  | [] => .ok options
  | ["--"] => .ok options
  | argument :: rest =>
      match splitArgument argument with
      | (spelling, value) =>
          match OptionName.ofSpelling? spelling, value, rest with
          | .none, _, _ => .error (.unexpected argument)
          | some name, some value, rest => do
              parseFrom (← options.set name value) rest
          | some name, .none, value :: rest =>
              if isValue value then do parseFrom (← options.set name value) rest
              else .error (.missingValue name)
          | some name, .none, [] => .error (.missingValue name)

def parse (arguments : List String) : Except UsageError Options :=
  parseFrom none arguments

end Options

end BlockScribe
