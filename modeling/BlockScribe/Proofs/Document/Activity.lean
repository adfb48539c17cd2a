import BlockScribe.Proofs.Block.Levels
import BlockScribe.Proofs.Document.Calls

/-!
# Blocks that are being written

To write a block is to write the blocks below it as well, so several blocks are
being written at once, each within the one above.  An activity is a writing that
tells where each block begins and ends; apart from that it is the writing itself,
with the same operations and the same error.  Blocks that have begun end in any
case, those around an error too.
-/

namespace BlockScribe

inductive Event where
  /-- A block begins to be written. -/
  | begins
  | writes (operation : Operation)
  | ends
  deriving DecidableEq, Repr

namespace Event

def operation? : Event → Option Operation
  | .writes operation => some operation
  | .begins | .ends => none

def change : Event → Int
  | .begins => 1
  | .writes _ => 0
  | .ends => -1

/-- The number of blocks that have begun and not ended yet. -/
def active : List Event → Int
  | [] => 0
  | event :: events => event.change + active events

@[simp] theorem active_nil : active [] = 0 := rfl

@[simp] theorem active_cons (event : Event) (events : List Event) :
    active (event :: events) = event.change + active events := rfl

@[simp] theorem active_append (a b : List Event) : active (a ++ b) = active a + active b := by
  induction a with
  | nil => simp
  | cons event a ih => simp [ih, Int.add_assoc]

end Event

open Event (active)

/-! ## Activities -/

/-- What has happened, and the error that ended it if one did. -/
structure Log where
  events : List Event
  error? : Option SchemaError

def Log.trace (log : Log) : Trace :=
  ⟨log.events.filterMap Event.operation?, log.error?⟩

/-- What happens up to an error, given the number of the first operation. -/
def Activity := Nat → Log

namespace Activity

/-- No block begins or ends. -/
def ofCalls (calls : Calls) : Activity := fun first =>
  let trace := calls first
  ⟨trace.operations.map .writes, trace.error?⟩

def append (a b : Activity) : Activity := fun first =>
  let log := a first
  match log.error? with
  | some _ => log
  | none =>
      let rest := b (first + log.trace.operations.length)
      ⟨log.events ++ rest.events, rest.error?⟩

instance : Append Activity := ⟨append⟩

def making (kind : ObjectKind) (object : Nat) (place : Place) (body : Nat → Activity) :
    Activity := fun number =>
  let log := body number (number + 1)
  ⟨.writes (.make kind object place) :: log.events, log.error?⟩

/-- All of it is part of one block. -/
def within (body : Activity) : Activity := fun first =>
  let log := body first
  ⟨.begins :: (log.events ++ [.ends]), log.error?⟩

mutual

/-- The object of a block is there by the time that the block begins. -/
def block (store : String) (path : List Nat) (list index : Nat) : Block → Activity
  | ⟨id, typeName, given, inner, blocks⟩ =>
      making .map list (.index index) fun object => within <|
        match BlockType.ofName? typeName with
        | none => ofCalls (.fail (.unknownType typeName))
        | some type =>
            ofCalls (.write (Script.setting object (.key "id")
              (.text (id.getD (Identifier.derive store path))))) ++
            (ofCalls (.write (Script.setting object (.key "type") (.text type.name))) ++
              (ofCalls (.props (.block type) object given) ++
                (ofCalls (.content object type inner) ++
                  making .list object (.key "children") fun children =>
                    Activity.blocks store path children 0 blocks)))

def blocks (store : String) (path : List Nat) (list index : Nat) : List Block → Activity
  | [] => ofCalls .nothing
  | inner :: rest =>
      block store (path ++ [index]) list index inner ++
        blocks store path list (index + 1) rest

end

def store (name : String) (list : List Block) : Activity :=
  making .list rootObject (.key name) fun object => blocks name [] object 0 list

/-! ## The writing itself -/

def Writes (activity : Activity) (calls : Calls) : Prop :=
  ∀ first, (activity first).trace = calls first

namespace Writes

theorem ofCalls (calls : Calls) : Writes (ofCalls calls) calls := by
  intro first
  have kept : (calls first).operations.filterMap (Event.operation? ∘ Event.writes) =
      (calls first).operations := List.filterMap_some
  rw [Activity.ofCalls, Log.trace, List.filterMap_map, kept]

theorem append {a b : Activity} {calls calls' : Calls} (first : Writes a calls)
    (second : Writes b calls') : Writes (a ++ b) (calls ++ calls') := by
  intro number
  show (Activity.append a b number).trace = Calls.append calls calls' number
  simp only [Activity.append, Calls.append, ← first number, ← second _]
  cases stops : (a number).error? <;> simp [Log.trace, stops]

theorem making {kind : ObjectKind} {object : Nat} {place : Place} {body : Nat → Activity}
    {calls : Nat → Calls} (writes : ∀ number, Writes (body number) (calls number)) :
    Writes (making kind object place body) (Calls.making kind object place calls) := by
  intro number
  rw [Calls.making, ← writes number]
  rfl

theorem within {body : Activity} {calls : Calls} (writes : Writes body calls) :
    Writes (within body) calls := by
  intro first
  rw [← writes first]
  simp [Activity.within, Log.trace, List.filterMap_cons, Event.operation?]

end Writes

mutual

theorem writes_block (store : String) (path : List Nat) (list index : Nat) : (given : Block) →
    Writes (block store path list index given) (Calls.block store path list index given)
  | ⟨id, typeName, given, inner, children⟩ => by
      rw [block, Calls.block]
      refine .making fun object => .within ?_
      cases BlockType.ofName? typeName with
      | none => exact .ofCalls _
      | some type =>
          exact .append (.ofCalls _) (.append (.ofCalls _) (.append (.ofCalls _)
            (.append (.ofCalls _) (.making fun children' =>
              writes_blocks store path children' 0 children))))

theorem writes_blocks (store : String) (path : List Nat) (list index : Nat) :
    (given : List Block) →
    Writes (blocks store path list index given) (Calls.blocks store path list index given)
  | [] => by
      rw [blocks, Calls.blocks]
      exact .ofCalls _
  | first :: rest => by
      rw [blocks, Calls.blocks]
      exact (writes_block store (path ++ [index]) list index first).append
        (writes_blocks store path list (index + 1) rest)

end

/-- With beginnings and ends left out, an activity is the construction of the document. -/
theorem result_store (name : String) (given : List Block) :
    (store name given firstNumber).trace.result = construct name given := by
  have writes : Writes (store name given) (Calls.store name given) :=
    .making fun object => writes_blocks name [] object 0 given
  rw [writes firstNumber, Calls.result_store]

/-! ## The greatest number of blocks at once -/

/-- The most blocks that are active at any moment; at no moment have more ended than begun, and in
the end all have. -/
structure Rises (height : Nat) (events : List Event) : Prop where
  bounded (moment : Nat) :
    0 ≤ active (events.take moment) ∧ active (events.take moment) ≤ height
  reached : ∃ moment, active (events.take moment) = height
  closed : active events = 0

namespace Rises

theorem writes (operations : List Operation) : Rises 0 (operations.map .writes) := by
  have idle (operations : List Operation) : active (operations.map .writes) = 0 := by
    induction operations with
    | nil => rfl
    | cons operation operations ih => simpa [Event.change] using ih
  refine ⟨fun moment => ?_, ⟨0, by simp⟩, idle operations⟩
  rw [← List.map_take, idle]
  exact ⟨Int.le_refl 0, Int.le_refl 0⟩

theorem exists_moment {height : Nat} {events : List Event} (rises : Rises height events) :
    ∃ moment ≤ events.length, active (events.take moment) = height := by
  obtain ⟨moment, reached⟩ := rises.reached
  refine ⟨min moment events.length, Nat.min_le_right _ _, ?_⟩
  rw [← reached, ← List.take_eq_take_min]

theorem append {height height' : Nat} {a b : List Event} (first : Rises height a)
    (second : Rises height' b) : Rises (max height height') (a ++ b) := by
  refine ⟨fun moment => ?_, ?_, ?_⟩
  · rw [List.take_append, Event.active_append]
    rcases Nat.le_total moment a.length with early | late
    · have bound := first.bounded moment
      simp only [Nat.sub_eq_zero_of_le early, List.take_zero, Event.active_nil]
      omega
    · -- By then all that began among the first events has ended.
      have bound := second.bounded (moment - a.length)
      rw [List.take_of_length_le late, first.closed]
      omega
  · rcases Nat.le_total height' height with higher | higher
    · obtain ⟨moment, inside, reached⟩ := first.exists_moment
      refine ⟨moment, ?_⟩
      rw [List.take_append_of_le_length inside, reached, Nat.max_eq_left higher]
    · obtain ⟨moment, reached⟩ := second.reached
      refine ⟨a.length + moment, ?_⟩
      rw [List.take_length_add_append, Event.active_append, first.closed, reached,
        Nat.max_eq_right higher, Int.zero_add]
  · rw [Event.active_append, first.closed, second.closed, Int.zero_add]

theorem within {height : Nat} {events : List Event} (rises : Rises height events) :
    Rises (height + 1) (.begins :: (events ++ [.ends])) := by
  refine ⟨fun moment => ?_, ?_, ?_⟩
  · cases moment with
    | zero =>
        rw [List.take_zero, Event.active_nil]
        omega
    | succ moment =>
        have bound := rises.bounded moment
        rw [List.take_succ_cons, Event.active_cons, List.take_append, Event.active_append]
        have ending : -1 ≤ active ([Event.ends].take (moment - events.length)) ∧
            active ([Event.ends].take (moment - events.length)) ≤ 0 := by
          cases moment - events.length <;> simp [Event.change]
        simp only [Event.change]
        omega
  · obtain ⟨moment, inside, reached⟩ := rises.exists_moment
    refine ⟨moment + 1, ?_⟩
    rw [List.take_succ_cons, Event.active_cons, List.take_append_of_le_length inside, reached]
    simp only [Event.change]
    omega
  · simp [Event.change, rises.closed]

end Rises

/-- Up to so many blocks are active at once, and as many unless an error comes before. -/
def ReachesUpTo (levels : Nat) (activity : Activity) : Prop :=
  ∀ first, ∃ height ≤ levels, Rises height (activity first).events ∧
    ((activity first).error? = none → height = levels)

namespace ReachesUpTo

theorem ofCalls (calls : Calls) : ReachesUpTo 0 (ofCalls calls) :=
  fun _ => ⟨0, Nat.le_refl 0, .writes _, fun _ => rfl⟩

theorem fail (levels : Nat) (error : SchemaError) :
    ReachesUpTo levels (Activity.ofCalls (.fail error)) :=
  fun _ => ⟨0, Nat.zero_le levels, .writes [], nofun⟩

theorem append {levels levels' : Nat} {a b : Activity} (first : ReachesUpTo levels a)
    (second : ReachesUpTo levels' b) : ReachesUpTo (max levels levels') (a ++ b) := by
  intro number
  obtain ⟨height, bound, rises, complete⟩ := first number
  show ∃ height ≤ _, Rises height (Activity.append a b number).events ∧
    ((Activity.append a b number).error? = none → _)
  rw [Activity.append]
  cases stops : (a number).error? with
  | some error =>
      refine ⟨height, by omega, rises, fun none => ?_⟩
      rw [stops] at none
      cases none
  | none =>
      obtain ⟨height', bound', rises', complete'⟩ :=
        second (number + (a number).trace.operations.length)
      refine ⟨max height height', by omega, rises.append rises', fun none => ?_⟩
      rw [complete stops, complete' none]

theorem making {levels : Nat} {kind : ObjectKind} {object : Nat} {place : Place}
    {body : Nat → Activity} (reaches : ∀ number, ReachesUpTo levels (body number)) :
    ReachesUpTo levels (making kind object place body) := by
  intro number
  obtain ⟨height, bound, rises, complete⟩ := reaches number (number + 1)
  have whole := (Rises.writes [.make kind object place]).append rises
  rw [Nat.max_eq_right (Nat.zero_le height)] at whole
  exact ⟨height, bound, whole, complete⟩

theorem within {levels : Nat} {body : Activity} (reaches : ReachesUpTo levels body) :
    ReachesUpTo (levels + 1) (within body) := by
  intro first
  obtain ⟨height, bound, rises, complete⟩ := reaches first
  exact ⟨height + 1, by omega, rises.within, fun none => congrArg (· + 1) (complete none)⟩

/-- Calls in which no block begins may come before. -/
theorem after {levels : Nat} {activity : Activity} (reaches : ReachesUpTo levels activity)
    (calls : Calls) : ReachesUpTo levels (Activity.ofCalls calls ++ activity) := by
  have whole := (ofCalls calls).append reaches
  rwa [Nat.max_eq_right (Nat.zero_le levels)] at whole

end ReachesUpTo

mutual

theorem reaches_block (store : String) (path : List Nat) (list index : Nat) : (given : Block) →
    ReachesUpTo given.levels (block store path list index given)
  | ⟨id, typeName, given, inner, children⟩ => by
      rw [block, Block.levels]
      refine .making fun object => .within ?_
      cases BlockType.ofName? typeName with
      | none => exact .fail _ _
      | some type =>
          have below : ReachesUpTo (Block.levelsOf children) (making .list object (.key "children")
              fun children' => blocks store path children' 0 children) :=
            .making fun children' => reaches_blocks store path children' 0 children
          exact (((below.after _).after _).after _).after _

theorem reaches_blocks (store : String) (path : List Nat) (list index : Nat) :
    (given : List Block) →
    ReachesUpTo (Block.levelsOf given) (blocks store path list index given)
  | [] => by
      rw [blocks, Block.levelsOf]
      exact .ofCalls _
  | first :: rest => by
      rw [blocks, Block.levelsOf]
      exact (reaches_block store (path ++ [index]) list index first).append
        (reaches_blocks store path list (index + 1) rest)

end

/-- As many blocks are active at once as the list has levels, unless the schema is broken. -/
theorem reaches_store (name : String) (given : List Block) :
    ReachesUpTo (Block.levelsOf given) (store name given) :=
  .making fun object => reaches_blocks name [] object 0 given

end Activity

end BlockScribe
