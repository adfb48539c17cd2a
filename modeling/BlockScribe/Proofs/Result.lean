import Mathlib.Data.List.Forall2

/-!
# Results

Computations that may fail, by what they return and by the errors they report.
Of several errors the first is reported, and nothing behind it is looked at.
-/

namespace BlockScribe

/-! ## Values -/

theorem mapM_congr {m : Type → Type} [Monad m] [LawfulMonad m] {α β : Type} {f g : α → m β}
    {values : List α} (same : ∀ value ∈ values, f value = g value) :
    values.mapM f = values.mapM g := by
  induction values with
  | nil => rfl
  | cons value values ih =>
      have ⟨first, later⟩ := List.forall_mem_cons.mp same
      rw [List.mapM_cons, List.mapM_cons, first, ih later]

theorem bind_eq_ok {ε α β : Type} {first : Except ε α} {next : α → Except ε β} {result : β} :
    first >>= next = .ok result ↔ ∃ value, first = .ok value ∧ next value = .ok result := by
  cases first with
  | ok value => simp [bind, Except.bind]
  | error error => simp [bind, Except.bind]

theorem forall₂_of_mapM {ε α β : Type} {make : α → Except ε β} {values : List α}
    {made : List β} (accepted : values.mapM make = .ok made) :
    List.Forall₂ (fun value image => make value = .ok image) values made := by
  induction values generalizing made with
  | nil =>
      cases accepted
      exact .nil
  | cons value values ih =>
      rw [List.mapM_cons, bind_eq_ok] at accepted
      obtain ⟨image, first, accepted⟩ := accepted
      obtain ⟨images, rest, accepted⟩ := bind_eq_ok.mp accepted
      cases accepted
      exact .cons first (ih rest)

theorem forall₂_of_mapM_eq_some {α β : Type} {make : α → Option β} {values : List α}
    {made : List β} (accepted : values.mapM make = some made) :
    List.Forall₂ (fun value image => make value = some image) values made := by
  induction values generalizing made with
  | nil =>
      cases accepted
      exact .nil
  | cons value values ih =>
      simp only [List.mapM_cons, Option.bind_eq_bind, Option.bind_eq_some_iff] at accepted
      obtain ⟨image, first, images, rest, accepted⟩ := accepted
      cases accepted
      exact .cons first (ih rest)

theorem exists_mem_of_forall₂ {α β : Type} {related : α → β → Prop} {values : List α}
    {others : List β} (paired : List.Forall₂ related values others) {other : β}
    (member : other ∈ others) : ∃ value ∈ values, related value other := by
  induction paired with
  | nil => cases member
  | cons first _ ih =>
      rcases List.mem_cons.mp member with rfl | member
      · exact ⟨_, List.mem_cons_self, first⟩
      · obtain ⟨value, listed, here⟩ := ih member
        exact ⟨value, List.mem_cons_of_mem _ listed, here⟩

theorem exists_of_forall₂ {α β : Type} {related : α → β → Prop} {values : List α} {others : List β}
    (paired : List.Forall₂ related values others) {value : α} (member : value ∈ values) :
    ∃ other, related value other := by
  obtain ⟨other, -, here⟩ := exists_mem_of_forall₂ paired.flip member
  exact ⟨other, here⟩

theorem forall_mem_congr {α β : Type} {holds : α → Prop} {holds' : β → Prop} {values : List α}
    {others : List β} (paired : List.Forall₂ (fun value other => holds value ↔ holds' other)
      values others) : (∀ value ∈ values, holds value) ↔ ∀ other ∈ others, holds' other := by
  induction paired with
  | nil => simp
  | cons here _ ih => rw [List.forall_mem_cons, List.forall_mem_cons, here, ih]

theorem exists_of_mem_mapM {ε α β : Type} {make : α → Except ε β} {values : List α}
    {made : List β} (accepted : values.mapM make = .ok made) {image : β}
    (member : image ∈ made) : ∃ value, make value = .ok image := by
  obtain ⟨value, -, here⟩ := exists_mem_of_forall₂ (forall₂_of_mapM accepted) member
  exact ⟨value, here⟩

theorem exists_of_mem_foldlM {ε α β : Type} {step : β → α → Except ε β} {values : List α}
    {start last : β} (accepted : values.foldlM step start = .ok last) {value : α}
    (member : value ∈ values) : ∃ state next, step state value = .ok next := by
  induction values generalizing start with
  | nil => cases member
  | cons first values ih =>
      rw [List.foldlM_cons] at accepted
      obtain ⟨next, here, accepted⟩ := bind_eq_ok.mp accepted
      rcases List.mem_cons.mp member with rfl | member
      · exact ⟨start, next, here⟩
      · exact ih accepted member

theorem map_of_mapM {ε α β γ : Type} {make : α → Except ε β} {f : β → γ} {g : α → γ}
    (agrees : ∀ value image, make value = .ok image → f image = g value) {values : List α}
    {made : List β} (accepted : values.mapM make = .ok made) : made.map f = values.map g := by
  have paired := forall₂_of_mapM accepted
  clear accepted
  induction paired with
  | nil => rfl
  | cons first _ ih => rw [List.map_cons, List.map_cons, agrees _ _ first, ih]

theorem mapError_eq_ok {ε ε' α : Type} {result : Except ε α} {f : ε → ε'} {value : α} :
    result.mapError f = .ok value ↔ result = .ok value := by
  cases result with
  | ok found => simp [Except.mapError]
  | error error => simp [Except.mapError]

theorem map_eq_ok {ε α β : Type} {result : Except ε α} {f : α → β} {value : β} :
    f <$> result = .ok value ↔ ∃ found, result = .ok found ∧ f found = value := by
  cases result <;> simp [Functor.map, Except.map]

/-! ## Values seen through a function -/

/-- Steps that cannot tell two values apart have results that cannot be told apart either. -/
theorem map_bind_congr {ε α β γ δ : Type} {first first' : Except ε α}
    {next next' : α → Except ε β} {f : α → γ} {g : β → δ} (same : first.map f = first'.map f)
    (later : ∀ value value', f value = f value' → (next value).map g = (next' value').map g) :
    (first >>= next).map g = (first' >>= next').map g := by
  cases first with
  | error error =>
      cases first' with
      | error error' =>
          cases same
          rfl
      | ok value' => cases same
  | ok value =>
      cases first' with
      | error error' => cases same
      | ok value' => exact later value value' (Except.ok.inj same)

theorem map_bind_congr_right {ε α β γ : Type} (first : Except ε α) {next next' : α → Except ε β}
    {f : β → γ} (later : ∀ value, (next value).map f = (next' value).map f) :
    (first >>= next).map f = (first >>= next').map f := by
  refine map_bind_congr (f := id) rfl fun value value' same => ?_
  obtain rfl : value = value' := same
  exact later value

theorem map_mapM_congr {ε α α' β γ : Type} {related : α → α' → Prop} {make : α → Except ε β}
    {make' : α' → Except ε β} {f : β → γ} {values : List α} {values' : List α'}
    (paired : List.Forall₂ related values values')
    (each : ∀ value value', related value value' → (make value).map f = (make' value').map f) :
    (values.mapM make).map (List.map f) = (values'.mapM make').map (List.map f) := by
  induction paired with
  | nil => rfl
  | cons here _ ih =>
      rw [List.mapM_cons, List.mapM_cons]
      refine map_bind_congr (each _ _ here) fun first first' same => ?_
      refine map_bind_congr ih fun rest rest' sameRest => ?_
      show Except.ok (f first :: rest.map f) = Except.ok (f first' :: rest'.map f)
      rw [same, sameRest]

/-! ## Values without errors -/

theorem toOption_eq_some {ε α : Type} {result : Except ε α} {value : α} :
    result.toOption = some value ↔ result = .ok value := by
  cases result <;> simp [Except.toOption]

theorem toOption_mapError {ε ε' α : Type} (result : Except ε α) (f : ε → ε') :
    (result.mapError f).toOption = result.toOption := by
  cases result <;> rfl

theorem toOption_bind {ε α β : Type} (first : Except ε α) (next : α → Except ε β) :
    (first >>= next).toOption = first.toOption.bind fun value => (next value).toOption := by
  cases first <;> rfl

theorem toOption_map {ε α β : Type} (result : Except ε α) (f : α → β) :
    (f <$> result).toOption = f <$> result.toOption := by
  cases result <;> rfl

theorem toOption_mapM {ε α α' β : Type} {related : α → α' → Prop} {make : α → Except ε β}
    {make' : α' → Option β} {values : List α} {values' : List α'}
    (paired : List.Forall₂ related values values')
    (each : ∀ value value', related value value' → (make value).toOption = make' value') :
    (values.mapM make).toOption = values'.mapM make' := by
  induction paired with
  | nil => rfl
  | cons here _ ih =>
      rw [List.mapM_cons, List.mapM_cons, toOption_bind, each _ _ here]
      refine congrArg _ (funext fun value => ?_)
      rw [toOption_bind, ih]
      rfl

theorem toOption_foldlM {ε α α' β : Type} {related : α → α' → Prop} {step : β → α → Except ε β}
    {step' : β → α' → Option β} {values : List α} {values' : List α'}
    (paired : List.Forall₂ related values values')
    (each : ∀ state value value', related value value' →
      (step state value).toOption = step' state value') (start : β) :
    (values.foldlM step start).toOption = values'.foldlM step' start := by
  induction paired generalizing start with
  | nil => rfl
  | cons here _ ih =>
      rw [List.foldlM_cons, List.foldlM_cons, toOption_bind, each _ _ _ here]
      exact congrArg _ (funext ih)

theorem toOption_bind_congr {ε α β : Type} {first first' : Except ε α} {next next' : α → Except ε β}
    (same : first.toOption = first'.toOption)
    (later : ∀ value, (next value).toOption = (next' value).toOption) :
    (first >>= next).toOption = (first' >>= next').toOption := by
  rw [toOption_bind, toOption_bind, same, funext later]

theorem toOption_mapM_congr {ε α α' β : Type} {make : α → Except ε β} {make' : α' → Except ε β}
    {values : List α} {values' : List α'}
    (paired : List.Forall₂ (fun value value' => (make value).toOption = (make' value').toOption)
      values values') : (values.mapM make).toOption = (values'.mapM make').toOption := by
  induction paired with
  | nil => rfl
  | cons here _ ih =>
      rw [List.mapM_cons, List.mapM_cons]
      exact toOption_bind_congr here fun _ => toOption_bind_congr ih fun _ => rfl

theorem toOption_foldlM_congr {ε α α' β : Type} {step : β → α → Except ε β}
    {step' : β → α' → Except ε β} {values : List α} {values' : List α'}
    (paired : List.Forall₂ (fun value value' => ∀ state,
      (step state value).toOption = (step' state value').toOption) values values') (start : β) :
    (values.foldlM step start).toOption = (values'.foldlM step' start).toOption := by
  induction paired generalizing start with
  | nil => rfl
  | cons here _ ih =>
      rw [List.foldlM_cons, List.foldlM_cons]
      exact toOption_bind_congr (here start) ih

/-! ## All errors -/

/-- Whatever error a result tells, it has a property. -/
def FailsOnly {ε α : Type} (holds : ε → Prop) (result : Except ε α) : Prop :=
  ∀ error, result = .error error → holds error

namespace FailsOnly

variable {ε α β : Type} {holds : ε → Prop}

theorem of_ok (value : α) : FailsOnly holds (.ok value : Except ε α) :=
  fun _ same => nomatch same

theorem of_error {error : ε} (here : holds error) :
    FailsOnly holds (.error error : Except ε α) := by
  rintro _ ⟨⟩
  exact here

theorem mono {holds' : ε → Prop} {result : Except ε α} (fails : FailsOnly holds result)
    (weaker : ∀ error, holds error → holds' error) : FailsOnly holds' result :=
  fun error same => weaker error (fails error same)

theorem bind {first : Except ε α} {next : α → Except ε β} (fails : FailsOnly holds first)
    (later : ∀ value, first = .ok value → FailsOnly holds (next value)) :
    FailsOnly holds (first >>= next) := by
  cases first with
  | ok value => exact later value rfl
  | error error => exact .of_error (fails error rfl)

theorem map {result : Except ε α} (fails : FailsOnly holds result) (f : α → β) :
    FailsOnly holds (f <$> result) := by
  cases result with
  | ok value => exact .of_ok (f value)
  | error error => exact .of_error (fails error rfl)

theorem mapM {make : α → Except ε β} {values : List α}
    (fails : ∀ value ∈ values, FailsOnly holds (make value)) :
    FailsOnly holds (values.mapM make) := by
  induction values with
  | nil => exact .of_ok []
  | cons value values ih =>
      have ⟨first, later⟩ := List.forall_mem_cons.mp fails
      rw [List.mapM_cons]
      exact first.bind fun made _ => (ih later).bind fun rest _ => .of_ok (made :: rest)

theorem foldlM {step : β → α → Except ε β} {values : List α}
    (fails : ∀ value ∈ values, ∀ state, FailsOnly holds (step state value)) (start : β) :
    FailsOnly holds (values.foldlM step start) := by
  induction values generalizing start with
  | nil => exact .of_ok start
  | cons value values ih =>
      have ⟨first, later⟩ := List.forall_mem_cons.mp fails
      rw [List.foldlM_cons]
      exact (first start).bind fun state _ => ih later state

theorem mapError {ε' : Type} {holds' : ε' → Prop} {result : Except ε α} {f : ε → ε'}
    (fails : FailsOnly holds result) (carries : ∀ error, holds error → holds' (f error)) :
    FailsOnly holds' (result.mapError f) := by
  cases result with
  | ok value => exact .of_ok value
  | error error => exact .of_error (carries error (fails error rfl))

end FailsOnly

/-! ## First errors -/

/-- A result tells the first of the errors that there are, and is good if there are none. -/
def Reports {ε α : Type} (result : Except ε α) (errors : List ε) : Prop :=
  match result with
  | .ok _ => errors = []
  | .error error => errors.head? = some error

namespace Reports

variable {ε α β : Type} {errors more : List ε}

theorem ok_iff {result : Except ε α} (reports : Reports result errors) :
    (∃ value, result = .ok value) ↔ errors = [] := by
  cases result with
  | ok value => simpa [Reports] using reports
  | error error =>
      rw [Reports] at reports
      constructor
      · rintro ⟨value, same⟩
        cases same
      · rintro rfl
        cases reports

theorem error_iff {result : Except ε α} (reports : Reports result errors) (error : ε) :
    result = .error error ↔ errors.head? = some error := by
  cases result with
  | ok value =>
      rw [Reports] at reports
      simp [reports]
  | error found =>
      rw [Reports] at reports
      simp [reports]

/-- A check has no other result than what there is to report. -/
theorem unique {result result' : Except ε Unit} (reports : Reports result errors)
    (reports' : Reports result' errors) : result = result' := by
  cases result with
  | error error => exact ((reports'.error_iff error).mpr ((reports.error_iff error).mp rfl)).symm
  | ok =>
      obtain ⟨_, rfl⟩ := reports'.ok_iff.mpr (reports.ok_iff.mp ⟨(), rfl⟩)
      rfl

theorem of_ok (value : α) : Reports (.ok value : Except ε α) [] := rfl

theorem of_error (error : ε) : Reports (.error error : Except ε α) (error :: errors) := rfl

theorem bind {first : Except ε α} {next : α → Except ε β} (reports : Reports first errors)
    (later : ∀ value, first = .ok value → Reports (next value) more) :
    Reports (first >>= next) (errors ++ more) := by
  cases first with
  | ok value =>
      rw [Reports] at reports
      rw [reports]
      exact later value rfl
  | error error =>
      rw [Reports] at reports
      show (errors ++ more).head? = some error
      rw [List.head?_append, reports, Option.some_or]

theorem map {first : Except ε α} (reports : Reports first errors) (f : α → β) :
    Reports (do return f (← first)) errors := by
  have whole : Reports (do return f (← first)) (errors ++ []) :=
    reports.bind fun value _ => .of_ok (f value)
  rwa [List.append_nil] at whole

theorem forM {check : α → Except ε Unit} {errors : α → List ε} {values : List α}
    (reports : ∀ value ∈ values, Reports (check value) (errors value)) :
    Reports (values.forM check) (values.flatMap errors) := by
  induction values with
  | nil => exact .of_ok ()
  | cons value values ih =>
      have ⟨first, later⟩ := List.forall_mem_cons.mp reports
      rw [List.flatMap_cons]
      exact first.bind fun _ _ => ih later

theorem mapM {make : α → Except ε β} {errors : α → List ε} {values : List α}
    (reports : ∀ value ∈ values, Reports (make value) (errors value)) :
    Reports (values.mapM make) (values.flatMap errors) := by
  induction values with
  | nil => exact .of_ok []
  | cons value values ih =>
      have ⟨first, later⟩ := List.forall_mem_cons.mp reports
      rw [List.mapM_cons, List.flatMap_cons]
      exact first.bind fun made _ => (ih later).map (made :: ·)

end Reports

end BlockScribe
