import TreeSelect.Proofs.Pattern.DialectReading
import Mathlib.Data.List.Perm.Subperm
import Mathlib.Logic.Relation

/-! Expansion of templates: references form a graph on the rules of a table, and where this graph
has no cycle, every reference is replaced by a group around the expansion of its rule. -/

namespace TreeSelect
open Relation

theorem Piece.known_of_named? {known : List Char → Bool} {text name : List Char}
    (named : named? known text = some name) : known name = true := by
  simp only [named?] at named
  split at named
  next condition =>
    cases named
    exact (Bool.and_eq_true _ _ ▸ condition).2
  next => cases named

/-- Only known rules are referred to. -/
theorem Piece.known_of_mem_scan {known : List Char → Bool} {name : List Char} {skipped : Nat}
    {text : List Char} (member : .reference name ∈ scan known skipped text) :
    known name = true := by
  fun_induction scan known skipped text with
  | case1 => cases member
  | case2 skipped _ rest ih => exact ih member
  | case3 rest rule named ih =>
      rcases List.mem_cons.mp member with equal | later
      · cases equal
        exact known_of_named? named
      · exact ih later
  | case4 rest _ ih => exact ih (by simpa using member)
  | case5 letter rest _ ih => exact ih (by simpa using member)

/-- The text of a template with these pieces. -/
def Piece.written : List Piece → List Char
  | [] => []
  | .plain letter :: rest => letter :: written rest
  | .reference rule :: rest => '\x7b' :: (rule ++ '\x7d' :: written rest)

theorem Piece.scan_skip (known : List Char → Bool) (skipped rest : List Char) :
    scan known skipped.length (skipped ++ rest) = scan known 0 rest := by
  induction skipped with
  | nil => rfl
  | cons letter further ih => exact ih

/-- A name leads up to the first closing brace. -/
theorem Piece.takeWhile_closed {name : List Char} (inside : '\x7d' ∉ name) (rest : List Char) :
    (name ++ '\x7d' :: rest).takeWhile (· ≠ '\x7d') = name := by
  have before : ∀ letter ∈ name, decide (letter ≠ '\x7d') = true := fun letter member =>
    decide_eq_true fun closing => inside (closing ▸ member)
  rw [List.takeWhile_append_of_pos before, List.takeWhile_cons_of_neg (by decide),
    List.append_nil]

theorem Piece.named?_closed {known : List Char → Bool} {rule : List Char}
    (valid : known rule = true) (inside : '\x7d' ∉ rule) (rest : List Char) :
    named? known (rule ++ '\x7d' :: rest) = some rule := by
  simp only [named?, takeWhile_closed inside, valid]
  simp

/-- The scan finds the pieces that a template was written with, unless one of its plain braces
begins a group that names a rule. -/
theorem Piece.scan_written {known : List Char → Bool} {pieces : List Piece}
    (references : ∀ rule, .reference rule ∈ pieces → known rule = true ∧ '\x7d' ∉ rule)
    (others : ∀ front back, pieces = front ++ .plain '\x7b' :: back →
      named? known (written back) = none) :
    scan known 0 (written pieces) = pieces := by
  induction pieces with
  | nil => rfl
  | cons piece rest ih =>
      have later := ih (fun rule member => references rule (List.mem_cons_of_mem _ member))
        (fun front back equal => others (piece :: front) back (congrArg (piece :: ·) equal))
      cases piece with
      | plain letter =>
          by_cases brace : letter = '\x7b'
          · subst brace
            simp [written, scan, others [] rest rfl, later]
          · simp [written, scan, brace, later]
      | reference rule =>
          obtain ⟨valid, inside⟩ := references rule List.mem_cons_self
          have skip := scan_skip known (rule ++ ['\x7d']) (written rest)
          rw [List.append_assoc, List.length_append] at skip
          simp only [written, scan, if_pos, named?_closed valid inside]
          exact congrArg (_ :: ·) (skip.trans later)

/-- A key that is found is one of the keys. -/
theorem Association.mem_keys_of_get? {Key Value : Type} [DecidableEq Key]
    {map : Association Key Value} {key : Key} {value : Value} (found : map.get? key = some value) :
    key ∈ map.keys := by
  have walk : ∀ entries : List (Key × Value), find key entries = some value →
      key ∈ entries.map Prod.fst := by
    intro entries found
    induction entries with
    | nil => cases found
    | cons entry rest ih =>
        rw [List.map_cons, List.mem_cons]
        by_cases same : entry.1 = key
        · exact .inl same.symm
        · exact .inr (ih (by rwa [find, if_neg same] at found))
  exact walk map.entries found

namespace RuleTable
open Dialect

/-- The template of the rule refers to the other one. -/
def Refers (table : RuleTable) (rule other : List Char) : Prop :=
  ∃ template, table.rules.get? rule = some template ∧ .reference other ∈ table.pieces template

theorem Refers.known {table : RuleTable} {rule other : List Char}
    (refers : table.Refers rule other) : ∃ template, table.rules.get? other = some template := by
  obtain ⟨template, -, member⟩ := refers
  exact Option.isSome_iff_exists.mp (Piece.known_of_mem_scan member)

/-! ### Pieces -/

theorem expandPieces_eq_spelled {inner : List Char → Except GrammarError (List Char)}
    {bodies : List Char → List Char} {pieces : List Piece}
    (expanded : ∀ rule, .reference rule ∈ pieces → inner rule = .ok (bodies rule)) :
    expandPieces inner pieces = .ok (spelled bodies pieces) := by
  induction pieces with
  | nil => rfl
  | cons piece rest ih =>
      have later := ih fun rule member => expanded rule (List.mem_cons_of_mem _ member)
      cases piece with
      | plain letter => simp only [expandPieces, later, bind, Except.bind, spelled]
      | reference rule =>
          simp only [expandPieces, expanded rule List.mem_cons_self, later, bind, Except.bind,
            spelled]

theorem expanded_of_mem {inner : List Char → Except GrammarError (List Char)}
    {pieces : List Piece} {text rule : List Char} (expanded : expandPieces inner pieces = .ok text)
    (member : .reference rule ∈ pieces) : ∃ body, inner rule = .ok body := by
  induction pieces generalizing text with
  | nil => cases member
  | cons piece rest ih =>
      cases later : expandPieces inner rest with
      | error _ =>
          cases piece with
          | plain letter => simp [expandPieces, later, bind, Except.bind] at expanded
          | reference first =>
              cases one : inner first <;>
                simp [expandPieces, one, later, bind, Except.bind] at expanded
      | ok behind =>
          rcases List.mem_cons.mp member with rfl | member
          · cases one : inner rule with
            | error _ => simp [expandPieces, one, bind, Except.bind] at expanded
            | ok body => exact ⟨body, rfl⟩
          · exact ih later member

/-- Pieces expand only if each of their references does. -/
theorem exists_bodies {inner : List Char → Except GrammarError (List Char)}
    {pieces : List Piece} {text : List Char} (expanded : expandPieces inner pieces = .ok text) :
    ∃ bodies, (∀ rule, .reference rule ∈ pieces → inner rule = .ok (bodies rule)) ∧
      text = spelled bodies pieces := by
  have each : ∀ rule, ∃ body, .reference rule ∈ pieces → inner rule = .ok body := fun rule =>
    if member : .reference rule ∈ pieces then
      (expanded_of_mem expanded member).imp fun _ one _ => one
    else ⟨[], fun other => absurd other member⟩
  choose bodies inner_ok using each
  exact ⟨bodies, inner_ok, Except.ok.inj (expanded.symm.trans (expandPieces_eq_spelled inner_ok))⟩

/-! ### Rules -/

/-- No rule that the start leads to leads back to itself. -/
def Acyclic (table : RuleTable) (start : List Char) : Prop :=
  ∀ rule, ReflTransGen table.Refers start rule → ¬TransGen table.Refers rule rule

/-- The rules entered on the way are distinct, and each leads to the rule that comes next. -/
structure Entered (table : RuleTable) (entered : List (List Char)) (rule : List Char) :
    Prop where
  distinct : entered.Nodup
  known : ∀ other ∈ entered, other ∈ table.rules.keys
  leads : ∀ other ∈ entered, TransGen table.Refers other rule

namespace Entered

variable {table : RuleTable} {entered : List (List Char)} {rule other : List Char}

theorem start (rule : List Char) : table.Entered [] rule where
  distinct := List.nodup_nil
  known := fun _ member => by cases member
  leads := fun _ member => by cases member

theorem length_le (path : table.Entered entered rule) : entered.length ≤ table.size := by
  have within := (path.distinct.subperm path.known).length_le
  rwa [Association.keys, List.length_map] at within

/-- Without cycles, no rule is entered twice. -/
theorem not_mem (path : table.Entered entered rule) (open_end : ¬TransGen table.Refers rule rule) :
    rule ∉ entered :=
  fun member => open_end (path.leads rule member)

theorem step (path : table.Entered entered rule) (open_end : ¬TransGen table.Refers rule rule)
    (refers : table.Refers rule other) : table.Entered (entered ++ [rule]) other where
  distinct := by
    rw [List.nodup_append]
    refine ⟨path.distinct, by simp, ?_⟩
    rintro first member last singleton rfl
    exact path.not_mem open_end (List.mem_singleton.mp singleton ▸ member)
  known := by
    intro entry member
    rcases List.mem_append.mp member with earlier | last
    · exact path.known entry earlier
    · obtain ⟨template, found, -⟩ := refers
      rw [List.mem_singleton.mp last]
      exact Association.mem_keys_of_get? found
  leads := by
    intro entry member
    rcases List.mem_append.mp member with earlier | last
    · exact (path.leads entry earlier).tail refers
    · rw [List.mem_singleton.mp last]
      exact .single refers

end Entered

variable {table : RuleTable}

/-- Where no rule leads back to itself, the depth lasts for every way down. -/
theorem exists_expandFrom {start : List Char} (acyclic : table.Acyclic start) (depth : Nat) :
    ∀ {entered : List (List Char)} {rule template : List Char},
      ReflTransGen table.Refers start rule → table.rules.get? rule = some template →
      table.Entered entered rule → table.size < depth + entered.length →
      ∃ text, table.expandFrom depth entered rule = .ok text := by
  induction depth with
  | zero =>
      intro entered rule template _ _ path deep
      have := path.length_le
      omega
  | succ depth ih =>
      intro entered rule template reached found path deep
      have open_end := acyclic rule reached
      have each : ∀ other, ∃ body, .reference other ∈ table.pieces template →
          (if other ∈ entered ++ [rule] then
            .error (cycleThrough (entered ++ [rule]) other)
          else table.expandFrom depth (entered ++ [rule]) other) = .ok body := by
        intro other
        by_cases member : .reference other ∈ table.pieces template
        · have refers : table.Refers rule other := ⟨template, found, member⟩
          have further := path.step open_end refers
          obtain ⟨own, known⟩ := refers.known
          obtain ⟨body, expanded⟩ := ih (reached.tail refers) known further
            (by rw [List.length_append, List.length_singleton]; omega)
          exact ⟨body, fun _ => by
            rw [if_neg (further.not_mem (acyclic other (reached.tail refers))), expanded]⟩
        · exact ⟨[], fun present => absurd present member⟩
      choose bodies expanded using each
      refine ⟨spelled bodies (table.pieces template), ?_⟩
      rw [expandFrom, found]
      exact expandPieces_eq_spelled expanded

theorem exists_expand {start : String} {template : List Char}
    (acyclic : table.Acyclic start.toList) (found : table.rules.get? start.toList = some template) :
    ∃ source, table.expand start = .ok source :=
  exists_expandFrom acyclic _ .refl found
    (.start start.toList) (Nat.lt_succ_self _)

/-- An expanded rule is its template, each reference replaced by a group around the expansion of
its rule. -/
theorem expandFrom_ok {depth : Nat} {entered : List (List Char)} {rule text : List Char}
    (expanded : table.expandFrom depth entered rule = .ok text) :
    ∃ further template bodies, depth = further + 1 ∧ table.rules.get? rule = some template ∧
      text = spelled bodies (table.pieces template) ∧
      ∀ other, .reference other ∈ table.pieces template →
        table.expandFrom further (entered ++ [rule]) other = .ok (bodies other) := by
  cases depth with
  | zero => cases expanded
  | succ depth =>
      rw [expandFrom] at expanded
      cases found : table.rules.get? rule with
      | none => rw [found] at expanded; cases expanded
      | some template =>
          rw [found] at expanded
          obtain ⟨bodies, each, spelling⟩ := exists_bodies expanded
          refine ⟨depth, template, bodies, rfl, rfl, spelling, fun other member => ?_⟩
          have one := each other member
          split at one
          · cases one
          · exact one

end RuleTable
end TreeSelect
