import Mathlib.Data.List.Forall2
import TreeSelect.Proofs.Machine.Threads
import TreeSelect.Proofs.Pattern.Ways

/-! The search through a lowered pattern. From the first instruction of a pattern the machine comes
to its last one in exactly the ordered ways of the pattern, whatever waits at the checkpoints. -/

namespace TreeSelect.Machine

/-- In place of the first threads, the search may as well go on with the others: it decides the
same. -/
def Explores (program : Program) (threads others : List Thread) : Prop :=
  ∀ waiting count outcome, Decides program count (others ++ waiting) outcome →
    ∃ total, Decides program total (threads ++ waiting) outcome

namespace Explores
variable {program : Program}

theorem refl (threads : List Thread) : Explores program threads threads :=
  fun _ count _ decides => ⟨count, decides⟩

theorem trans {first second third : List Thread} (left : Explores program first second)
    (right : Explores program second third) : Explores program first third := by
  intro waiting count outcome decides
  obtain ⟨middle, further⟩ := right waiting count outcome decides
  exact left waiting middle outcome further

/-- What waits behind other threads is explored when these have failed. -/
theorem behind (front : List Thread) {threads others : List Thread}
    (explores : Explores program threads others) :
    Explores program (front ++ threads) (front ++ others) := by
  intro waiting count outcome decides
  generalize same : front ++ others ++ waiting = all at decides
  induction decides generalizing front with
  | noMatch =>
    obtain ⟨rfl, rest⟩ : front = [] ∧ others ++ waiting = [] := by
      simpa [and_assoc] using same
    exact explores waiting 0 .noMatch (rest ▸ .noMatch)
  | @accept thread later accepting =>
    cases front with
    | nil =>
      have whole : others ++ waiting = thread :: later := by simpa using same
      exact explores waiting 1 _ (whole ▸ .accept accepting)
    | cons first front =>
      simp only [List.cons_append, List.cons.injEq] at same
      obtain ⟨rfl, _⟩ := same
      exact ⟨1, .accept accepting⟩
  | @step count thread later outcome searching further ih =>
    cases front with
    | nil =>
      have whole : others ++ waiting = thread :: later := by simpa using same
      exact explores waiting (count + 1) outcome (whole ▸ .step searching further)
    | cons first front =>
      simp only [List.cons_append, List.cons.injEq] at same
      obtain ⟨rfl, rfl⟩ := same
      obtain ⟨total, decides⟩ := ih (first.successors program ++ front) (by simp)
      exact ⟨total + 1, .step searching (by simpa using decides)⟩

theorem append {first second third fourth : List Thread} (left : Explores program first second)
    (right : Explores program third fourth) :
    Explores program (first ++ third) (second ++ fourth) := by
  refine (behind first right).trans ?_
  intro waiting count outcome decides
  rw [List.append_assoc] at decides ⊢
  exact left (fourth ++ waiting) count outcome decides

/-- A thread is explored by what its instruction makes of it. -/
theorem of_instruction {thread : Thread} {instruction : Instruction}
    (fetched : program.code[thread.target]? = some instruction)
    (searching : instruction ≠ .accept) :
    Explores program [thread] (thread.goOn instruction) := by
  intro waiting count outcome decides
  have proceeds : ¬ thread.Accepting program := by
    rintro ⟨accept, _⟩
    rw [fetched] at accept
    exact searching (Option.some.inj accept)
  refine ⟨count + 1, .step proceeds ?_⟩
  rw [Thread.successors, fetched]
  exact decides

/-- A last instruction short of the end of the text fails. -/
theorem of_unfinished {thread : Thread} (fetched : program.code[thread.target]? = some .accept)
    (unfinished : thread.place.rest ≠ []) : Explores program [thread] [] := by
  intro waiting count outcome decides
  refine ⟨count + 1, .step (fun accepting => unfinished accepting.2) ?_⟩
  rw [Thread.successors, fetched]
  exact decides

end Explores

/-- The instructions stand in the program from the given place on. -/
def Holds (program : Program) : (start : Nat) → List Instruction → Prop
  | _, [] => True
  | start, instruction :: rest =>
      program.code[start]? = some instruction ∧ Holds program (start + 1) rest

theorem holds_append (program : Program) (start : Nat) (front back : List Instruction) :
    Holds program start (front ++ back) ↔
      Holds program start front ∧ Holds program (start + front.length) back := by
  induction front generalizing start with
  | nil => simp [Holds]
  | cons instruction front ih =>
    simp only [List.cons_append, Holds, ih, List.length_cons, and_assoc]
    rw [Nat.add_right_comm, Nat.add_assoc]

theorem holds_of_code (front : List Instruction) (rest : List Instruction) (slots : Nat) :
    Holds ⟨(front ++ rest).toArray, slots⟩ front.length rest := by
  induction rest generalizing front with
  | nil => trivial
  | cons instruction rest ih =>
    refine ⟨by simp, ?_⟩
    have later := ih (front ++ [instruction])
    simpa using later

/-- The boundaries tell the captures, whatever is open around them and follows them. -/
def Tells (boundaries : List Boundary) (captures : List Capture) : Prop :=
  ∀ pending rest, Capture.pair pending (boundaries ++ rest) = captures ++ Capture.pair pending rest

theorem tells_nil : Tells [] [] := fun _ _ => rfl

theorem Tells.append {front back : List Boundary} {first second : List Capture}
    (left : Tells front first) (right : Tells back second) :
    Tells (front ++ back) (first ++ second) := by
  intro pending rest
  rw [List.append_assoc, left, right, List.append_assoc]

theorem Tells.enclose {boundaries : List Boundary} {captures : List Capture}
    (tells : Tells boundaries captures) (rule : String) (start stop : Nat) :
    Tells (.opened rule start :: boundaries ++ [.closed stop])
      (captures ++ [⟨rule, start, stop⟩]) := by
  intro pending rest
  simp only [List.cons_append, Capture.pair, List.append_assoc]
  rw [tells]
  rfl

/-- The thread has come to `exit` in the given way. Its own slots apart, the marks are as they
were. -/
structure Thread.Arrives (thread : Thread) (exit slot loops : Nat) (way : Way)
    (later : Thread) : Prop where
  target : later.target = exit
  place : later.place = way.stop
  history : ∃ boundaries, later.history = thread.history ++ boundaries ∧
    Tells boundaries way.captures
  size : later.marks.size = thread.marks.size
  marks : ∀ other, other < slot ∨ slot + loops ≤ other → later.marks[other]? = thread.marks[other]?

namespace Thread.Arrives
variable {thread middle later : Thread} {exit slot loops : Nat} {way : Way}

theorem trans {target first second own owned : Nat} {further : Way}
    (left : thread.Arrives target first own way middle)
    (right : middle.Arrives exit second owned further later)
    (ownInside : slot ≤ first ∧ first + own ≤ slot + loops)
    (ownedInside : slot ≤ second ∧ second + owned ≤ slot + loops) :
    thread.Arrives exit slot loops ⟨further.stop, way.captures ++ further.captures⟩ later := by
  obtain ⟨front, frontHistory, frontTells⟩ := left.history
  obtain ⟨back, backHistory, backTells⟩ := right.history
  refine ⟨right.target, right.place, ⟨front ++ back, ?_, frontTells.append backTells⟩,
    right.size.trans left.size, fun other outside => ?_⟩
  · rw [backHistory, frontHistory, List.append_assoc]
  · rw [right.marks other (by omega), left.marks other (by omega)]

end Thread.Arrives

/-- From the threads the search comes to one thread for each of the ways. -/
def Reaches (program : Program) (threads : List Thread) (arrives : Way → Thread → Prop)
    (ways : List Way) : Prop :=
  ∃ arrived, Explores program threads arrived ∧ List.Forall₂ arrives ways arrived

namespace Reaches
variable {program : Program} {arrives others : Way → Thread → Prop}

theorem of_explores {threads later : List Thread} {ways : List Way}
    (explores : Explores program threads later) (reaches : Reaches program later arrives ways) :
    Reaches program threads arrives ways := by
  obtain ⟨arrived, further, all⟩ := reaches
  exact ⟨arrived, explores.trans further, all⟩

theorem append {threads later : List Thread} {ways further : List Way}
    (left : Reaches program threads arrives ways) (right : Reaches program later arrives further) :
    Reaches program (threads ++ later) arrives (ways ++ further) := by
  obtain ⟨first, firstExplores, firstAll⟩ := left
  obtain ⟨second, secondExplores, secondAll⟩ := right
  exact ⟨first ++ second, firstExplores.append secondExplores,
    List.rel_append firstAll secondAll⟩

theorem nothing : Reaches program [] arrives [] := ⟨[], .refl [], .nil⟩

theorem single {thread : Thread} {way : Way} (arrived : arrives way thread) :
    Reaches program [thread] arrives [way] :=
  ⟨[thread], .refl _, .cons arrived .nil⟩

theorem imp {threads : List Thread} {ways : List Way} (reaches : Reaches program threads arrives ways)
    (weaken : ∀ way thread, arrives way thread → others way thread) :
    Reaches program threads others ways := by
  obtain ⟨arrived, explores, all⟩ := reaches
  exact ⟨arrived, explores, all.imp fun _ _ related => weaken _ _ related⟩

theorem map {threads : List Thread} {ways : List Way} (change : Way → Way)
    (reaches : Reaches program threads arrives ways)
    (weaken : ∀ way thread, arrives way thread → others (change way) thread) :
    Reaches program threads others (ways.map change) := by
  obtain ⟨arrived, explores, all⟩ := reaches
  refine ⟨arrived, explores, List.forall₂_map_left_iff.mpr ?_⟩
  exact all.imp fun _ _ related => weaken _ _ related

/-- Every arrived thread goes on by itself. -/
theorem flatMap {threads : List Thread} {ways : List Way} (next : Way → List Way)
    (reaches : Reaches program threads arrives ways)
    (each : ∀ way ∈ ways, ∀ thread, arrives way thread →
      Reaches program [thread] others (next way)) :
    Reaches program threads others (ways.flatMap next) := by
  obtain ⟨arrived, explores, all⟩ := reaches
  apply of_explores explores
  clear explores
  induction all with
  | nil => exact nothing
  | @cons way thread ways arrived related rest ih =>
    rw [List.flatMap_cons]
    exact append (each way (List.mem_cons_self ..) thread related)
      (ih fun other member => each other (List.mem_cons_of_mem _ member))

end Reaches

end TreeSelect.Machine
