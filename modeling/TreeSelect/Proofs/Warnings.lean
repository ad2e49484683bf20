import Mathlib.Data.List.Basic
import Mathlib.Data.List.Induction
import TreeSelect.Warnings

/-! Warnings in use. A warning is remembered by one text for its component and its message, and two
different warnings can have the same text. Which can is said exactly, and with it which warnings are
new after any sequence of calls. -/

namespace TreeSelect.Warnings

/-- What stands in a key between the component and the message. -/
def bracket : List Char := [']', ' ']

/-- The second component goes on behind the first with a bracket of its own, and the first message
begins with what follows there. -/
def Overlaps (component message other text : String) : Prop :=
  ∃ middle, other.toList = component.toList ++ bracket ++ middle ∧
    message.toList = middle ++ bracket ++ text.toList

/-- The warnings are the same, or the bracket of one stands inside the component of the other. -/
def Alike (component message other text : String) : Prop :=
  (component = other ∧ message = text) ∨ Overlaps component message other text ∨
    Overlaps other text component message

theorem key_toList (component message : String) :
    (key component message).toList =
      '[' :: (component.toList ++ (bracket ++ message.toList)) := by
  simp [key, bracket]

theorem bracket_append_eq_iff {message middle text : List Char} :
    bracket ++ message = middle ++ (bracket ++ text) ↔
      (middle = [] ∧ message = text) ∨
        ∃ rest, middle = bracket ++ rest ∧ message = rest ++ bracket ++ text := by
  rw [bracket]
  cases middle with
  | nil => simp
  | cons first middle =>
    cases middle with
    | nil => simp
    | cons second rest => simp +contextual [eq_comm, and_assoc]

/-- Two warnings are remembered as one exactly if they are alike. -/
theorem key_eq_iff {component message other text : String} :
    key component message = key other text ↔ Alike component message other text := by
  rw [← String.toList_inj, key_toList, key_toList, List.cons_inj_right, List.append_eq_append_iff]
  constructor
  · rintro (⟨middle, longer, same⟩ | ⟨middle, longer, same⟩)
    · rcases bracket_append_eq_iff.mp same with ⟨rfl, messages⟩ | ⟨rest, rfl, split⟩
      · rw [List.append_nil] at longer
        exact .inl ⟨(String.toList_inj.mp longer).symm, String.toList_inj.mp messages⟩
      · exact .inr (.inl ⟨rest, by rw [longer, List.append_assoc], split⟩)
    · rcases bracket_append_eq_iff.mp same with ⟨rfl, messages⟩ | ⟨rest, rfl, split⟩
      · rw [List.append_nil] at longer
        exact .inl ⟨String.toList_inj.mp longer, (String.toList_inj.mp messages).symm⟩
      · exact .inr (.inr ⟨rest, by rw [longer, List.append_assoc], split⟩)
  · rintro (⟨rfl, rfl⟩ | ⟨rest, longer, split⟩ | ⟨rest, longer, split⟩)
    · exact .inl ⟨[], by simp, by simp⟩
    · exact .inl ⟨bracket ++ rest, by simp [longer], by simp [split]⟩
    · exact .inr ⟨bracket ++ rest, by simp [longer], by simp [split]⟩

/-- Warnings whose components are without a bracket are told apart. -/
theorem alike_iff_of_plain {component message other text : String}
    (plain : ¬bracket <:+: component.toList) (clear : ¬bracket <:+: other.toList) :
    Alike component message other text ↔ component = other ∧ message = text := by
  refine or_iff_left ?_
  rintro (⟨middle, longer, -⟩ | ⟨middle, longer, -⟩)
  · exact clear ⟨component.toList, middle, longer.symm⟩
  · exact plain ⟨other.toList, middle, longer.symm⟩

inductive Call where
  | issue (component message : String)
  | clear
  deriving DecidableEq, Repr

def perform (warnings : Warnings) : Call → Warnings
  | .issue component message => (warnings.issue component message).2
  | .clear => .empty

/-- The warnings given after all calls, the first of them on none. -/
def run (calls : List Call) : Warnings := calls.foldl perform .empty

/-- The warning was issued, and none of the calls behind it cleared the warnings. -/
def Standing (calls : List Call) (component message : String) : Prop :=
  ∃ before after, calls = before ++ .issue component message :: after ∧ .clear ∉ after

theorem run_concat (calls : List Call) (call : Call) :
    run (calls ++ [call]) = (run calls).perform call := List.foldl_concat ..

/-- Whether it is new or not, a warning is remembered once it was issued. -/
theorem mem_given_issue {warnings : Warnings} {component message entry : String} :
    entry ∈ (warnings.issue component message).2.given ↔
      entry = key component message ∨ entry ∈ warnings.given := by
  rw [issue]
  split
  next old => exact (or_iff_right_of_imp fun same => same ▸ old).symm
  next => exact List.mem_cons

theorem not_standing_nil {component message : String} : ¬Standing [] component message := by
  rintro ⟨before, after, split, -⟩
  simp at split

theorem standing_concat {calls : List Call} {call : Call} {component message : String} :
    Standing (calls ++ [call]) component message ↔
      call = .issue component message ∨ (call ≠ .clear ∧ Standing calls component message) := by
  constructor
  · rintro ⟨before, after, split, kept⟩
    rcases List.eq_nil_or_concat' after with rfl | ⟨after, last, rfl⟩
    · exact .inl (List.append_singleton_inj.mp split).2
    · rw [← List.cons_append, ← List.append_assoc] at split
      obtain ⟨rfl, rfl⟩ := List.append_singleton_inj.mp split
      rw [List.mem_append, List.mem_singleton, not_or] at kept
      exact .inr ⟨Ne.symm kept.2, before, after, rfl, kept.1⟩
  · rintro (rfl | ⟨other, before, after, rfl, kept⟩)
    · exact ⟨calls, [], rfl, List.not_mem_nil⟩
    · refine ⟨before, after ++ [call], by simp, ?_⟩
      rw [List.mem_append, List.mem_singleton, not_or]
      exact ⟨kept, Ne.symm other⟩

/-- The keys of the warnings issued since they were last cleared are remembered, and nothing else. -/
theorem mem_given_run {calls : List Call} {entry : String} :
    entry ∈ (run calls).given ↔
      ∃ component message, Standing calls component message ∧ entry = key component message := by
  induction calls using List.reverseRecOn with
  | nil => simp [run, empty, not_standing_nil]
  | append_singleton calls call ih =>
    rw [run_concat]
    cases call with
    | issue component message =>
      rw [perform, mem_given_issue, ih]
      constructor
      · rintro (rfl | ⟨other, text, stands, rfl⟩)
        · exact ⟨component, message, standing_concat.mpr (.inl rfl), rfl⟩
        · exact ⟨other, text, standing_concat.mpr (.inr ⟨nofun, stands⟩), rfl⟩
      · rintro ⟨other, text, stands, rfl⟩
        rcases standing_concat.mp stands with same | ⟨-, stands⟩
        · cases same
          exact .inl rfl
        · exact .inr ⟨other, text, stands, rfl⟩
    | clear => simp [perform, empty, standing_concat]

theorem issue_new_iff_forall_key {calls : List Call} {component message : String} :
    ((run calls).issue component message).1 = true ↔
      ∀ other text, Standing calls other text → key component message ≠ key other text := by
  have new_iff : ((run calls).issue component message).1 = true ↔
      key component message ∉ (run calls).given := by
    rw [issue]
    split
    next old => simp [old]
    next new => simp [new]
  rw [new_iff, mem_given_run]
  constructor
  · intro absent other text stands same
    exact absent ⟨other, text, stands, same⟩
  · rintro apart ⟨other, text, stands, same⟩
    exact apart other text stands same

/-- Where no component has a bracket, a warning is new exactly if it was not issued since the
warnings were last cleared. -/
theorem issue_new_iff_of_plain {calls : List Call} {component : String}
    (plain : ¬bracket <:+: component.toList)
    (clear : ∀ other text, Standing calls other text → ¬bracket <:+: other.toList)
    (message : String) :
    ((run calls).issue component message).1 = true ↔ ¬Standing calls component message := by
  rw [issue_new_iff_forall_key]
  constructor
  · intro apart stands
    exact apart component message stands rfl
  · intro fresh other text stands same
    obtain ⟨rfl, rfl⟩ := (alike_iff_of_plain plain (clear other text stands)).mp (key_eq_iff.mp same)
    exact fresh stands

/-- After any calls, a warning is new exactly if none that is alike was issued since the warnings
were last cleared. -/
theorem issue_new_iff (calls : List Call) (component message : String) :
    ((run calls).issue component message).1 = true ↔
      ∀ other text, Standing calls other text → ¬Alike component message other text := by
  rw [issue_new_iff_forall_key]
  exact forall₃_congr fun other text _ => not_congr key_eq_iff

/-- The bracket in the first component is taken for the one behind the second. -/
example : ((run [.issue "a] b" "c"]).issue "a" "b] c").1 = false := by decide

end TreeSelect.Warnings
