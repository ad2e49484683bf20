import Mathlib.Data.List.Perm.Basic
import TreeSelect.Conventions.Configuration
import TreeSelect.Proofs.Json.Reading
import TreeSelect.Proofs.Json.Writing

/-! Configurations and their texts. A configuration is read back from the text written for it, and
the members of an object may be put in any order, with others among them. -/

namespace TreeSelect.Configuration
open Json (Mark Spells marksOf textMember writeTextMember)

/-- The names that have a meaning. -/
def knownNames : List String := ["id-attribute-name", "id-case", "pseudo-policy"]

/-- The name of a member that stands for something else. -/
def Unknown (marks : List Mark) : Prop :=
  ∃ name, Mark.decode marks = some name ∧ String.ofList name ∉ knownNames

/-- The same members in some order, and others of unknown names with any values. -/
def Enlarges (larger members : List (List Mark × Json)) : Prop :=
  ∃ extra, larger.Perm (members ++ extra) ∧ ∀ member ∈ extra, Unknown member.1

/-- What is written of a configuration, by name. -/
def fields (config : Configuration) : List (String × String) :=
  (config.idAttributeName.map ("id-attribute-name", ·)).toList ++
    (config.idCase.map fun case => ("id-case", case.name)).toList ++
    [("pseudo-policy", config.pseudoPolicy.name)]

theorem spells_write (config : Configuration) :
    Spells (.object (config.fields.map textMember)) config.write := by
  have same : config.write =
      '\x7b' :: [','].intercalate (config.fields.map writeTextMember) ++ ['\x7d'] := by
    obtain ⟨_ | name, _ | case, policy⟩ := config <;> rfl
  rw [same]
  exact Json.spells_textMembers config.fields

theorem textOf?_marksOf (text : String) : textOf? (.string (marksOf text.toList)) = some text := by
  rw [textOf?, Json.decode_marksOf, Option.map_some, String.ofList_toList]

theorem decodeNames_textMembers (fields : List (String × String)) :
    decodeNames (fields.map textMember) =
      some (fields.map fun field => (field.1, .string (marksOf field.2.toList))) := by
  induction fields with
  | nil => rfl
  | cons field fields ih =>
    rw [List.map_cons, textMember, decodeNames, textOf?_marksOf, ih]
    rfl

theorem ofName?_name_case (case : IdCase) : IdCase.ofName? case.name = some case := by
  cases case <;> decide

theorem ofName?_name_policy (policy : PseudoPolicy) :
    PseudoPolicy.ofName? policy.name = some policy := by
  cases policy <;> decide

theorem ofJson?_fields (config : Configuration) :
    ofJson? (.object (config.fields.map textMember)) = some config := by
  rw [ofJson?, decodeNames_textMembers]
  obtain ⟨_ | name, _ | case, policy⟩ := config
  all_goals
    simp [fields, member?, optional?, named?, textOf?_marksOf, ofName?_name_case, ofName?_name_policy]

/-- The entry is the member with its name decoded. -/
def Named (member : List Mark × Json) (entry : String × Json) : Prop :=
  textOf? (.string member.1) = some entry.1 ∧ member.2 = entry.2

theorem decodeNames_eq_some_iff {members : List (List Mark × Json)} {named : List (String × Json)} :
    decodeNames members = some named ↔ List.Forall₂ Named members named := by
  induction members generalizing named with
  | nil => simp [decodeNames, eq_comm]
  | cons member members ih =>
    simp only [decodeNames, Option.bind_eq_bind, Option.bind_eq_some_iff, Option.some_inj, ih,
      List.forall₂_cons_left_iff, Named]
    constructor
    · rintro ⟨name, found, others, each, rfl⟩
      exact ⟨_, _, ⟨found, rfl⟩, each, rfl⟩
    · rintro ⟨⟨name, value⟩, others, ⟨found, rfl⟩, each, rfl⟩
      exact ⟨name, found, others, each, rfl⟩

/-- A name that is no text, such as half of a surrogate pair, is not even unknown: the object has no
value. -/
theorem ofJson?_eq_none_of_decode {members : List (List Mark × Json)} {member : List Mark × Json}
    (here : member ∈ members) (undecoded : Mark.decode member.1 = none) :
    ofJson? (.object members) = none := by
  have none : decodeNames members = none := by
    induction here with
    | head =>
      rw [decodeNames, textOf?, undecoded]
      rfl
    | tail other later ih => simp [decodeNames, ih]
  rw [ofJson?, none]
  rfl

theorem exists_named_of_unknown {extra : List (List Mark × Json)}
    (unknown : ∀ member ∈ extra, Unknown member.1) :
    ∃ named, List.Forall₂ Named extra named ∧ ∀ entry ∈ named, entry.1 ∉ knownNames := by
  induction extra with
  | nil => exact ⟨[], .nil, nofun⟩
  | cons member extra ih =>
    obtain ⟨name, decoded, other⟩ := unknown member (.head extra)
    obtain ⟨named, each, others⟩ := ih fun member later => unknown member (.tail _ later)
    have first : Named member (String.ofList name, member.2) := ⟨by rw [textOf?, decoded]; rfl, rfl⟩
    exact ⟨_ :: named, .cons first each, List.forall_mem_cons.mpr ⟨other, others⟩⟩

/-- A member is looked for by its name only. -/
theorem member?_congr {Value : Type} {named moved : List (String × Json)} {name : String}
    (same : (moved.filter (·.1 = name)).Perm (named.filter (·.1 = name)))
    (read : Json → Option Value) (default : Value) :
    member? moved name read default = member? named name read default := by
  rw [member?, member?]
  revert same
  generalize moved.filter (·.1 = name) = first, named.filter (·.1 = name) = second
  intro same
  match second with
  | [] => rw [same.eq_nil]
  | [entry] => rw [same.eq_singleton]
  | entry :: next :: rest =>
    match first with
    | [] | [_] => simp at same
    | _ :: _ :: _ => rfl

theorem Enlarges.exists_named {larger members : List (List Mark × Json)}
    {named : List (String × Json)} (enlarges : Enlarges larger members)
    (each : List.Forall₂ Named members named) : ∃ moved, List.Forall₂ Named larger moved ∧
      ∀ name ∈ knownNames, (moved.filter (·.1 = name)).Perm (named.filter (·.1 = name)) := by
  obtain ⟨extra, same, unknown⟩ := enlarges
  obtain ⟨others, named', unknown⟩ := exists_named_of_unknown unknown
  obtain ⟨moved, each', same⟩ := List.perm_comp_forall₂ same (List.rel_append each named')
  refine ⟨moved, each', fun name known => ?_⟩
  have none : others.filter (·.1 = name) = [] := by
    simp only [List.filter_eq_nil_iff, decide_eq_true_eq]
    rintro entry member rfl
    exact unknown entry member known
  have filtered := same.filter (·.1 = name)
  rw [List.filter_append, none, List.append_nil] at filtered
  exact filtered

theorem ofJson?_of_enlarges {larger members : List (List Mark × Json)} {config : Configuration}
    (enlarges : Enlarges larger members) (read : ofJson? (.object members) = some config) :
    ofJson? (.object larger) = some config := by
  rw [ofJson?, Option.bind_eq_bind, Option.bind_eq_some_iff] at read
  obtain ⟨named, decoded, read⟩ := read
  obtain ⟨moved, each, same⟩ := enlarges.exists_named (decodeNames_eq_some_iff.mp decoded)
  rw [ofJson?, decodeNames_eq_some_iff.mpr each, Option.bind_eq_bind, Option.bind_some,
    member?_congr (same _ (by simp [knownNames])), member?_congr (same _ (by simp [knownNames])),
    member?_congr (same _ (by simp [knownNames]))]
  exact read

theorem parse?_eq_some_iff {text : List Char} {config : Configuration} :
    parse? text = some config ↔ ∃ value, Spells value text ∧ ofJson? value = some config := by
  simp [parse?, Option.bind_eq_some_iff, Json.parse?_eq_some_iff]

/-- A configuration is read back from what is written for it. An object that is read as the
configuration is read so in every other way to write it, with its members in any order and with
any members of unknown names among them. -/
theorem parse?_write_and_enlarges (config : Configuration) :
    parse? config.write = some config ∧
      ∀ {members : List (List Mark × Json)} {text : List Char}, Spells (.object members) text →
        parse? text = some config →
        ∀ {larger : List (List Mark × Json)} {changed : List Char}, Enlarges larger members →
          Spells (.object larger) changed → parse? changed = some config := by
  constructor
  · exact parse?_eq_some_iff.mpr ⟨_, spells_write config, ofJson?_fields config⟩
  · intro members text spells read larger changed enlarges spellsChanged
    rw [parse?, Json.parse?_eq_some_iff.mpr spells] at read
    exact parse?_eq_some_iff.mpr ⟨_, spellsChanged, ofJson?_of_enlarges enlarges read⟩

def quotedName : List Mark × Json :=
  ("id-attribute-name".toList.map .plain,
    .string [.plain 'q', .plain '"', .plain '\\', .unit 1, .unit 0xD83D, .unit 0xDE00])

def nestedNote : List Mark × Json :=
  ("note".toList.map .plain,
    .array [.number "-1.5e+3".toList, .object [([.plain 'a'], .null)], .string [.unit 0xD800]])

/-- A name of every kind of letter, and a member in front of it that has no meaning. -/
theorem parse?_write_and_enlarges_noted :
    parse? "\x7b\"id-attribute-name\":\"q\\\"\\\\\\u0001\\uD83D\\uDE00\"\x7d".toList =
        some ⟨some "q\"\\\x01😀", none, .ignore⟩ ∧
      Enlarges [nestedNote, quotedName] [quotedName] ∧
      parse? ("\x7b \"note\":[-1.5e+3 ,\x7b\"a\":null\x7d,\"\\uD800\"],\n\"id-attribute-name\" :" ++
          " \"q\\\"\\\\\\u0001\\uD83D\\uDE00\"\x7d ").toList =
        some ⟨some "q\"\\\x01😀", none, .ignore⟩ := by
  have spells : Spells (.object [quotedName])
      "\x7b\"id-attribute-name\":\"q\\\"\\\\\\u0001\\uD83D\\uDE00\"\x7d".toList :=
    Json.parse?_eq_some_iff.mp (by cbv)
  -- The number is read on its own, apart from the tokens in front of it and behind it.
  have front : Json.tokens? 12 "\x7b \"note\":[".toList =
      some [.openBrace, .string nestedNote.1, .colon, .openBracket] := by cbv
  have number : Json.number? "-1.5e+3".toList = some ("-1.5e+3".toList, []) := by decide
  have back : Json.tokens? 80 (" ,\x7b\"a\":null\x7d,\"\\uD800\"],\n\"id-attribute-name\" :" ++
        " \"q\\\"\\\\\\u0001\\uD83D\\uDE00\"\x7d ").toList =
      some [.comma, .openBrace, .string [.plain 'a'], .colon, .scalar .null, .closeBrace, .comma,
        .string [.unit 0xD800], .closeBracket, .comma, .string quotedName.1, .colon,
        .string [.plain 'q', .plain '"', .plain '\\', .unit 1, .unit 0xD83D, .unit 0xDE00],
        .closeBrace] := by cbv
  have spellsChanged : Spells (.object [nestedNote, quotedName])
      ("\x7b \"note\":[-1.5e+3 ,\x7b\"a\":null\x7d,\"\\uD800\"],\n\"id-attribute-name\" :" ++
        " \"q\\\"\\\\\\u0001\\uD83D\\uDE00\"\x7d ").toList := by
    have spelled := Json.Spelled.number (Json.Takes.sound Json.takes_number number).1
    have written := (Json.tokens?_sound front).append
      (spelled.written.append (Json.tokens?_sound back))
    rw [← String.toList_append, ← String.toList_append] at written
    exact written
  have read : parse? "\x7b\"id-attribute-name\":\"q\\\"\\\\\\u0001\\uD83D\\uDE00\"\x7d".toList =
      some ⟨some "q\"\\\x01😀", none, .ignore⟩ := by decide +kernel
  have enlarges : Enlarges [nestedNote, quotedName] [quotedName] := by
    refine ⟨[nestedNote], .swap _ _ _, ?_⟩
    intro member here
    rw [List.mem_singleton.mp here]
    exact ⟨"note".toList, by cbv, by decide⟩
  exact ⟨read, enlarges, (parse?_write_and_enlarges _).2 spells read enlarges spellsChanged⟩

end TreeSelect.Configuration
