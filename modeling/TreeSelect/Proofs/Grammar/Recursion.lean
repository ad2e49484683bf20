import Mathlib.Data.List.Chain
import Mathlib.Data.List.Nodup
import TreeSelect.Proofs.Grammar.Expansion

/-! Expansion of any table. It always comes to an end: with the text that the references spell out if
the start leads to no rule that leads back to itself, and otherwise with a chain of references into
such a rule. -/

namespace TreeSelect
open Relation

namespace Piece

/-- The pieces are those of the template: together they are written as it is, a reference is the
name of a rule up to the first closing brace, and where a brace stays plain no rule is named. -/
structure Splits (known : List Char → Bool) (template : List Char) (pieces : List Piece) :
    Prop where
  written : written pieces = template
  references : ∀ rule, .reference rule ∈ pieces → known rule = true ∧ '\x7d' ∉ rule
  others : ∀ front back, pieces = front ++ .plain '\x7b' :: back → ∀ rule rest,
    Piece.written back = rule ++ '\x7d' :: rest → '\x7d' ∉ rule → known rule = false

variable {known : List Char → Bool}

theorem named?_eq_some_iff {text name : List Char} : named? known text = some name ↔
    known name = true ∧ '\x7d' ∉ name ∧ ∃ rest, text = name ++ '\x7d' :: rest := by
  constructor
  · intro named
    have valid := known_of_named? named
    simp only [named?] at named
    split at named
    next condition =>
      have closed : '\x7d' ∈ text := List.contains_iff_mem.mp (Bool.and_eq_true_iff.mp condition).1
      obtain ⟨front, rest, rfl, inside⟩ := List.eq_append_cons_of_mem closed
      rw [takeWhile_closed inside] at named
      cases named
      exact ⟨valid, inside, rest, rfl⟩
    next => cases named
  · rintro ⟨valid, inside, rest, rfl⟩
    exact named?_closed valid inside rest

theorem written_scan (skipped : Nat) (text : List Char) :
    written (scan known skipped text) = text.drop skipped := by
  fun_induction scan known skipped text with
  | case1 => rw [List.drop_nil, written]
  | case2 skipped _ rest ih => rw [ih, List.drop_succ_cons]
  | case3 rest rule named ih =>
    obtain ⟨_, _, behind, rfl⟩ := named?_eq_some_iff.mp named
    have left : (rule ++ '\x7d' :: behind).drop (rule.length + 1) = behind := by
      rw [List.drop_length_add_append, List.drop_succ_cons, List.drop_zero]
    rw [written, ih, left, List.drop_zero]
  | case4 rest _ ih => rw [written, ih, List.drop_zero, List.drop_zero]
  | case5 letter rest _ ih => rw [written, ih, List.drop_zero, List.drop_zero]

/-- Where the scan leaves a brace plain it has found no name. -/
theorem named?_of_scan {skipped : Nat} {text : List Char} {front back : List Piece}
    (found : scan known skipped text = front ++ .plain '\x7b' :: back) :
    named? known (written back) = none := by
  fun_induction scan known skipped text generalizing front with
  | case1 => exact absurd found (by simp)
  | case2 _ _ _ ih => exact ih found
  | case3 rest rule named ih =>
    cases front with
    | nil => cases found
    | cons piece front => exact ih (List.cons.inj found).2
  | case4 rest absent ih =>
    cases front with
    | nil =>
      cases found
      rwa [written_scan, List.drop_zero]
    | cons piece front => exact ih (List.cons.inj found).2
  | case5 letter rest other ih =>
    cases front with
    | nil =>
      cases found
      exact absurd rfl other
    | cons piece front => exact ih (List.cons.inj found).2

theorem closed_of_mem_scan {skipped : Nat} {text name : List Char}
    (member : .reference name ∈ scan known skipped text) : '\x7d' ∉ name := by
  fun_induction scan known skipped text with
  | case1 => cases member
  | case2 _ _ _ ih => exact ih member
  | case3 rest rule named ih =>
    rcases List.mem_cons.mp member with equal | later
    · cases equal
      exact (named?_eq_some_iff.mp named).2.1
    · exact ih later
  | case4 rest _ ih => exact ih (by simpa using member)
  | case5 letter rest _ ih => exact ih (by simpa using member)

/-- The scan from left to right finds the pieces, and no template has others. -/
theorem splits_iff {template : List Char} {pieces : List Piece} :
    Splits known template pieces ↔ pieces = scan known 0 template := by
  constructor
  · rintro ⟨rfl, references, others⟩
    refine (scan_written references fun front back same => ?_).symm
    cases named : named? known (written back) with
    | none => rfl
    | some rule =>
      obtain ⟨valid, inside, rest, behind⟩ := named?_eq_some_iff.mp named
      rw [others front back same rule rest behind inside] at valid
      cases valid
  · rintro rfl
    refine ⟨by rw [written_scan, List.drop_zero], fun rule member =>
      ⟨known_of_mem_scan member, closed_of_mem_scan member⟩, ?_⟩
    intro front back same rule rest behind inside
    cases valid : known rule with
    | false => rfl
    | true =>
      have absent := named?_of_scan same
      rw [behind, named?_closed valid inside] at absent
      cases absent

end Piece
namespace RuleTable
open Dialect

/-- The text of a rule: its template, with a group around the text of its rule in the place of each
reference. -/
inductive Expands (table : RuleTable) : List Char → List Char → Prop where
  | rule {rule template : List Char} {pieces : List Piece} {bodies : List Char → List Char}
      (found : table.rules.get? rule = some template)
      (split : Piece.Splits table.rules.contains template pieces)
      (inner : ∀ other, .reference other ∈ pieces → Expands table other (bodies other)) :
      Expands table rule (spelled bodies pieces)

/-- The chain leads by references from the start to a second occurrence of the rule, and to none
before. -/
structure ReturnsTo (table : RuleTable) (start rule : String) (chain : List String) : Prop where
  first : chain.head? = some start
  last : chain.getLast? = some rule
  refers : chain.IsChain fun one next => table.Refers one.toList next.toList
  distinct : chain.dropLast.Nodup
  again : rule ∈ chain.dropLast

variable {table : RuleTable} {start rule : List Char} {entered : List (List Char)}

/-! ### Pieces -/

theorem expandPieces_congr {inner other : List Char → Except GrammarError (List Char)}
    {pieces : List Piece} (same : ∀ rule, .reference rule ∈ pieces → inner rule = other rule) :
    expandPieces inner pieces = expandPieces other pieces := by
  induction pieces with
  | nil => rfl
  | cons piece rest ih =>
    have later := ih fun rule member => same rule (List.mem_cons_of_mem _ member)
    cases piece with
    | plain letter => rw [expandPieces, expandPieces, later]
    | reference rule => rw [expandPieces, expandPieces, same rule (List.mem_cons_self ..), later]

/-- Pieces fail by one of their references. -/
theorem exists_failed {inner : List Char → Except GrammarError (List Char)} {pieces : List Piece}
    {error : GrammarError} (failed : expandPieces inner pieces = .error error) :
    ∃ rule, .reference rule ∈ pieces ∧ inner rule = .error error := by
  induction pieces with
  | nil => cases failed
  | cons piece rest ih =>
    have later : expandPieces inner rest = .error error →
        ∃ rule, .reference rule ∈ piece :: rest ∧ inner rule = .error error := fun behind =>
      (ih behind).imp fun _ found => ⟨List.mem_cons_of_mem _ found.1, found.2⟩
    cases piece with
    | plain letter =>
      cases behind : expandPieces inner rest with
      | ok text => simp [expandPieces, behind, bind, Except.bind] at failed
      | error other =>
        simp only [expandPieces, behind, bind, Except.bind] at failed
        exact later (behind.trans failed)
    | reference rule =>
      cases one : inner rule with
      | error other =>
        simp only [expandPieces, one, bind, Except.bind] at failed
        exact ⟨rule, List.mem_cons_self .., one.trans failed⟩
      | ok body =>
        cases behind : expandPieces inner rest with
        | ok text => simp [expandPieces, one, behind, bind, Except.bind] at failed
        | error other =>
          simp only [expandPieces, one, behind, bind, Except.bind] at failed
          exact later (behind.trans failed)

theorem spelled_congr {bodies others : List Char → List Char} {pieces : List Piece}
    (same : ∀ rule, .reference rule ∈ pieces → bodies rule = others rule) :
    spelled bodies pieces = spelled others pieces := by
  induction pieces with
  | nil => rfl
  | cons piece rest ih =>
    have later := ih fun rule member => same rule (List.mem_cons_of_mem _ member)
    cases piece with
    | plain letter => rw [spelled, spelled, later]
    | reference rule => rw [spelled, spelled, same rule (List.mem_cons_self ..), later]

/-! ### The way down -/

/-- The rules on the way down from the start are distinct, and each refers to the next one. -/
structure Descends (table : RuleTable) (start : List Char) (entered : List (List Char))
    (rule : List Char) : Prop where
  first : (entered ++ [rule]).head? = some start
  refers : (entered ++ [rule]).IsChain table.Refers
  distinct : (entered ++ [rule]).Nodup
  known : ∀ other ∈ entered, other ∈ table.rules.keys

namespace Descends

theorem here (rule : List Char) : table.Descends rule [] rule where
  first := rfl
  refers := .singleton rule
  distinct := by simp
  known := nofun

theorem length_le (path : table.Descends start entered rule) : entered.length ≤ table.size := by
  have distinct : entered.Nodup := (List.nodup_append.mp path.distinct).1
  have within := (distinct.subperm path.known).length_le
  rwa [Association.keys, List.length_map] at within

theorem step (path : table.Descends start entered rule) {other : List Char}
    (refers : table.Refers rule other) (fresh : other ∉ entered ++ [rule]) :
    table.Descends start (entered ++ [rule]) other where
  first := by
    rw [List.head?_append, path.first]
    rfl
  refers := by
    rw [List.append_assoc]
    exact List.isChain_append_cons_cons.mpr ⟨path.refers, refers, .singleton other⟩
  distinct := by
    refine List.nodup_append.mpr ⟨path.distinct, by simp, ?_⟩
    rintro first member last singleton rfl
    exact fresh (List.mem_singleton.mp singleton ▸ member)
  known := by
    intro entry member
    rcases List.mem_append.mp member with earlier | last
    · exact path.known entry earlier
    · obtain ⟨template, found, _⟩ := refers
      rw [List.mem_singleton.mp last]
      exact Association.mem_keys_of_get? found

end Descends

/-- The depth never decides: what is entered are distinct rules of the table. -/
theorem expandFrom_stable (depth : Nat) : ∀ {more : Nat} {entered : List (List Char)}
    {rule : List Char}, table.Descends start entered rule →
      table.size < depth + entered.length → table.size < more + entered.length →
      table.expandFrom depth entered rule = table.expandFrom more entered rule := by
  induction depth with
  | zero =>
    intro more entered rule path enough _
    have bound := path.length_le
    omega
  | succ depth ih =>
    intro more entered rule path enough also
    cases more with
    | zero =>
      have bound := path.length_le
      omega
    | succ more =>
      rw [expandFrom, expandFrom]
      cases found : table.rules.get? rule with
      | none => rfl
      | some template =>
        refine expandPieces_congr fun other member => ?_
        by_cases again : other ∈ entered ++ [rule]
        · rw [if_pos again, if_pos again]
        · rw [if_neg again, if_neg again]
          have deeper : (entered ++ [rule]).length = entered.length + 1 := List.length_append
          exact ih (path.step ⟨template, found, member⟩ again) (by omega) (by omega)

/-- Below a known rule expansion fails only where a reference returns to a rule on the way. -/
theorem returns_of_expandFrom {error : GrammarError} (depth : Nat) :
    ∀ {entered : List (List Char)} {rule template : List Char},
      table.Descends start entered rule → table.rules.get? rule = some template →
      table.size < depth + entered.length → table.expandFrom depth entered rule = .error error →
      ∃ way latest again, table.Descends start way latest ∧ table.Refers latest again ∧
        again ∈ way ++ [latest] ∧ error = cycleThrough (way ++ [latest]) again := by
  induction depth with
  | zero =>
    intro entered rule template path _ enough _
    have bound := path.length_le
    omega
  | succ depth ih =>
    intro entered rule template path found enough failed
    simp only [expandFrom, found] at failed
    obtain ⟨other, member, inner⟩ := exists_failed failed
    have refers : table.Refers rule other := ⟨template, found, member⟩
    split at inner
    next again =>
      cases inner
      exact ⟨entered, rule, other, path, refers, again, rfl⟩
    next fresh =>
      obtain ⟨own, known⟩ := refers.known
      have deeper : (entered ++ [rule]).length = entered.length + 1 := List.length_append
      exact ih (path.step refers fresh) known (by omega) inner

theorem acyclic_of_refers (inner : ∀ other, table.Refers rule other → table.Acyclic other) :
    table.Acyclic rule := by
  intro reached path around
  rcases path.cases_head with rfl | ⟨other, refers, further⟩
  · obtain ⟨other, refers, back⟩ := TransGen.head'_iff.mp around
    exact inner other refers rule back around
  · exact inner other refers reached further around

/-- What expands is spelled out by its references, and leads to no rule that leads back to itself. -/
theorem expands_of_expandFrom (depth : Nat) : ∀ {entered : List (List Char)}
    {rule text : List Char}, table.expandFrom depth entered rule = .ok text →
      table.Expands rule text ∧ table.Acyclic rule := by
  induction depth with
  | zero =>
    intro entered rule text expanded
    cases expanded
  | succ depth ih =>
    intro entered rule text expanded
    obtain ⟨further, template, bodies, fewer, found, rfl, each⟩ := expandFrom_ok expanded
    cases fewer
    refine ⟨.rule found (Piece.splits_iff.mpr rfl) fun other member => (ih (each other member)).1,
      acyclic_of_refers fun other refers => ?_⟩
    obtain ⟨own, same, member⟩ := refers
    cases found.symm.trans same
    exact (ih (each other member)).2

/-- The text of a rule is unique. -/
theorem Expands.eq_of_expandFrom {text : List Char} (expands : table.Expands rule text) :
    ∀ {depth : Nat} {entered : List (List Char)} {other : List Char},
      table.expandFrom depth entered rule = .ok other → text = other := by
  induction expands with
  | @rule rule template pieces bodies found split _ ih =>
    intro depth entered other expanded
    obtain ⟨depth, own, others, rfl, same, rfl, each⟩ := expandFrom_ok expanded
    cases found.symm.trans same
    cases Piece.splits_iff.mp split
    exact spelled_congr fun inner member => ih inner member (each inner member)

theorem Descends.returnsTo {start : String} {way : List (List Char)} {latest again : List Char}
    (path : table.Descends start.toList way latest) (refers : table.Refers latest again)
    (member : again ∈ way ++ [latest]) :
    table.ReturnsTo start (String.ofList again)
      ((way ++ [latest] ++ [again]).map String.ofList) where
  first := by
    rw [List.head?_map, List.head?_append, path.first]
    simp
  last := by simp
  refers := by
    rw [List.isChain_map]
    simp only [String.toList_ofList]
    rw [List.append_assoc]
    exact List.isChain_append_cons_cons.mpr ⟨path.refers, refers, .singleton again⟩
  distinct := by
    rw [List.map_append, List.map_singleton, List.dropLast_concat]
    exact path.distinct.map @String.ofList_injective
  again := by
    rw [List.map_append, List.map_singleton, List.dropLast_concat]
    exact List.mem_map_of_mem member

/-! ### Tables -/

theorem get?_eq_none_iff (table : RuleTable) (start : String) :
    table.get? start = none ↔ table.rules.get? start.toList = none := by
  rw [get?, Option.map_eq_none_iff]

/-- From a known rule expansion fails only with a chain of references that returns to a rule. -/
theorem exists_returnsTo {start : String} {template : List Char} {error : GrammarError}
    (found : table.rules.get? start.toList = some template)
    (failed : table.expand start = .error error) :
    ∃ rule chain, error = .cycle rule chain ∧ table.ReturnsTo start rule chain := by
  obtain ⟨way, latest, again, path, refers, member, rfl⟩ :=
    returns_of_expandFrom _ (.here _) found (Nat.lt_succ_self _) failed
  exact ⟨_, _, rfl, path.returnsTo refers member⟩

theorem expand_unknown_iff (table : RuleTable) (start : String) :
    table.expand start = .error (.unknownRule start) ↔ table.get? start = none := by
  rw [get?_eq_none_iff]
  constructor
  · intro failed
    cases found : table.rules.get? start.toList with
    | none => rfl
    | some template =>
      obtain ⟨_, _, same, _⟩ := exists_returnsTo found failed
      cases same
  · intro missing
    rw [expand, expandFrom, missing]
    simp

/-- From a known rule there is a cycle to report where one is in reach, and only there. -/
theorem expand_cycle_iff {start : String} {template : List Char}
    (found : table.rules.get? start.toList = some template) :
    (∃ rule chain, table.expand start = .error (.cycle rule chain)) ↔
      ∃ rule, ReflTransGen table.Refers start.toList rule ∧ TransGen table.Refers rule rule := by
  constructor
  · rintro ⟨rule, chain, failed⟩
    by_contra none
    have acyclic : table.Acyclic start.toList := fun rule path around => none ⟨rule, path, around⟩
    obtain ⟨text, expanded⟩ := exists_expand acyclic found
    cases failed.symm.trans expanded
  · rintro ⟨rule, path, around⟩
    cases result : table.expand start with
    | ok text => exact absurd around ((expands_of_expandFrom _ result).2 rule path)
    | error error =>
      obtain ⟨again, chain, rfl, _⟩ := exists_returnsTo found result
      exact ⟨again, chain, rfl⟩

/-- Expansion always comes to an end. A start that is no rule is reported as such. From a rule that
leads to one that leads back to itself, a chain of references into such a rule is reported; from any
other rule the text is put together from the templates, and it is the only such text. -/
theorem expand_settled (table : RuleTable) (start : String) :
    (∀ depth, table.size < depth →
      table.expandFrom depth [] start.toList = table.expand start) ∧
    (table.expand start = .error (.unknownRule start) ↔ table.get? start = none) ∧
    (table.get? start ≠ none →
      ((∃ rule chain, table.expand start = .error (.cycle rule chain)) ↔
        ∃ rule, ReflTransGen table.Refers start.toList rule ∧ TransGen table.Refers rule rule) ∧
      (∀ rule chain, table.expand start = .error (.cycle rule chain) →
        table.ReturnsTo start rule chain) ∧
      ((∀ rule, ReflTransGen table.Refers start.toList rule → ¬ TransGen table.Refers rule rule) →
        ∃ text, table.expand start = .ok text ∧
          ∀ other, table.Expands start.toList other ↔ other = text)) := by
  refine ⟨fun depth enough => ?_, expand_unknown_iff table start, fun known => ?_⟩
  · exact expandFrom_stable depth (.here _) enough (Nat.lt_succ_self _)
  · obtain ⟨template, found⟩ :=
      Option.ne_none_iff_exists'.mp (mt (get?_eq_none_iff table start).mpr known)
    refine ⟨expand_cycle_iff found, fun rule chain failed => ?_, fun acyclic => ?_⟩
    · obtain ⟨_, _, same, returns⟩ := exists_returnsTo found failed
      cases same
      exact returns
    · obtain ⟨text, expanded⟩ := exists_expand acyclic found
      refine ⟨text, expanded, fun other => ⟨fun also => also.eq_of_expandFrom expanded, ?_⟩⟩
      intro same
      rw [same]
      exact (expands_of_expandFrom _ expanded).1

/-- The start rule leads into a cycle that it is not part of. -/
example : (ofList [("List", "{Item}+"), ("Item", "{x}{Pair}"), ("Pair", "{Item},")]).expand "List" =
    .error (.cycle "Item" ["List", "Item", "Pair", "Item"]) := by
  decide +kernel

end RuleTable
end TreeSelect
