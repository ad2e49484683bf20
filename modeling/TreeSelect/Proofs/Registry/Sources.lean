import TreeSelect.Conventions

/-! What it means to ask a source. A question changes nothing but the number of questions to that
source, and conventions ask their source once, whether a convention is wanted of them or a
description. -/

namespace TreeSelect

namespace NameSources

/-- What the source answers when it has been asked so often before. -/
def answer (sources : NameSources) (number asked : Nat) : String :=
  (sources.list[number]?.map fun source => source.answer asked).getD ""

theorem ask_fst (sources : NameSources) (number : Nat) :
    (sources.ask number).1 = sources.answer number (sources.calls number) := by
  rw [ask, answer, calls]
  cases sources.list[number]? with
  | none => rfl
  | some source => rfl

theorem length_ask (sources : NameSources) (number : Nat) :
    (sources.ask number).2.list.length = sources.list.length := by
  rw [ask]
  split
  next => rfl
  next => exact List.length_set

theorem calls_ask (sources : NameSources) (number : Nat) {other : Nat}
    (present : other < sources.list.length) :
    (sources.ask number).2.calls other =
      sources.calls other + if number = other then 1 else 0 := by
  rw [ask]
  split
  next absent =>
    have different : number ≠ other := by
      rintro rfl
      exact absurd present (Nat.not_lt.mpr (List.getElem?_eq_none_iff.mp absent))
    rw [if_neg different, Nat.add_zero]
  next source found =>
    rw [calls, calls, List.getElem?_set]
    split
    next same =>
      subst same
      rw [if_pos present, found]
      rfl
    next => rfl

theorem answer_ask (sources : NameSources) (number other asked : Nat) :
    (sources.ask number).2.answer other asked = sources.answer other asked := by
  rw [ask]
  split
  next => rfl
  next source found =>
    rw [answer, answer, List.getElem?_set]
    split
    next same =>
      subst same
      have present : number < sources.list.length := (List.getElem?_eq_some_iff.mp found).1
      rw [if_pos present, found]
      rfl
    next => rfl

end NameSources

namespace Conventions

/-- How often the source of the conventions has been asked. -/
def asked (conventions : Conventions) (sources : NameSources) : Nat :=
  (conventions.idName.map sources.calls).getD 0

/-- The name that the source gives when it has been asked so often before. -/
def nameAt (conventions : Conventions) (sources : NameSources) (asked : Nat) : Option String :=
  conventions.idName.map fun number => sources.answer number asked

/-- The sources once that of the conventions has been asked. -/
def read (conventions : Conventions) (sources : NameSources) : NameSources :=
  match conventions.idName with
  | some number => (sources.ask number).2
  | none => sources

/-- The convention that follows from the name: a name of its own is compared exactly, and the usual
ones are not, unless a case is given. -/
def withName (conventions : Conventions) : Option String → IdConvention
  | some name => ⟨[name], conventions.idCase.getD .sensitive⟩
  | none => ⟨["id", "name"], conventions.idCase.getD .insensitive⟩

/-- The description that shows the name. -/
def describeWith (conventions : Conventions) (name : Option String) : String :=
  Text.closedRecord "Conventions"
    [("id_attribute_name", Text.optional (name.map Text.quoted)),
      ("id_case", Text.optional (conventions.idCase.map IdCase.describe)),
      ("pseudo_policy", conventions.pseudoPolicy.describe)]

variable (conventions : Conventions) (sources : NameSources)

theorem idConvention_eq :
    conventions.idConvention sources =
      (conventions.withName (conventions.nameAt sources (conventions.asked sources)),
        conventions.read sources) := by
  rw [idConvention, nameAt, asked, read]
  cases conventions.idName with
  | none => rfl
  | some number =>
    simp only [Option.map_some, Option.getD_some, withName, ← NameSources.ask_fst]

theorem describe_eq :
    conventions.describe sources =
      (conventions.describeWith (conventions.nameAt sources (conventions.asked sources)),
        conventions.read sources) := by
  rw [describe, nameAt, asked, read, describeWith]
  cases conventions.idName with
  | none => rfl
  | some number =>
    simp only [Option.map_some, Option.getD_some, ← NameSources.ask_fst]

theorem length_read : (conventions.read sources).list.length = sources.list.length := by
  rw [read]
  split
  next => exact sources.length_ask _
  next => rfl

theorem calls_read {number : Nat} (present : number < sources.list.length) :
    (conventions.read sources).calls number =
      sources.calls number + if conventions.idName = some number then 1 else 0 := by
  rw [read]
  split
  next asked named => simp only [sources.calls_ask asked present, named, Option.some_inj]
  next unnamed => rw [unnamed, if_neg nofun, Nat.add_zero]

theorem answer_read (number asked : Nat) :
    (conventions.read sources).answer number asked = sources.answer number asked := by
  rw [read]
  split
  next => exact sources.answer_ask _ number asked
  next => rfl

end Conventions
end TreeSelect
