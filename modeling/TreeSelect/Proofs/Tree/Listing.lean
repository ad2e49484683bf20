import TreeSelect.Proofs.Tree.Navigation

/-! Document order. The nodes below some nodes are listed each before what lies below it, and the
sweep over an agenda makes this list. -/

namespace TreeSelect.Tree
open Relation
variable {Node : Type} {children : Node → List Node} {nodes order : List Node}

/-- Each node, then what is listed below it, then what is listed for the nodes behind it. -/
inductive Listing (children : Node → List Node) : List Node → List Node → Prop where
  | nil : Listing children [] []
  | cons {node : Node} {nodes below later : List Node}
      (deeper : Listing children (children node) below)
      (further : Listing children nodes later) :
      Listing children (node :: nodes) (node :: (below ++ later))

/-- Nodes are listed in one order only. -/
theorem Listing.unique {other : List Node} (first : Listing children nodes order)
    (second : Listing children nodes other) : order = other := by
  induction first generalizing other with
  | nil =>
    cases second
    rfl
  | cons _ _ deeper further =>
    cases second with
    | cons below later => rw [deeper below, further later]

theorem Listing.append {others later : List Node} (front : Listing children nodes order)
    (back : Listing children others later) :
    Listing children (nodes ++ others) (order ++ later) := by
  induction front with
  | nil => exact back
  | cons deeper _ _ further =>
    rw [List.cons_append, List.cons_append, List.append_assoc]
    exact .cons deeper further

/-- The sweep takes one round for each node that is listed. -/
theorem sweep_listing (listing : Listing children nodes order) (rounds : Nat)
    (agenda : List Node) :
    sweep children (order.length + rounds) (nodes ++ agenda) =
      order ++ sweep children rounds agenda := by
  induction listing generalizing rounds agenda with
  | nil => simp
  | @cons node nodes below later _ _ deeper further =>
    have count : (node :: (below ++ later)).length + rounds =
        below.length + (later.length + rounds) + 1 := by
      simp only [List.length_cons, List.length_append]
      omega
    rw [count, List.cons_append, sweep, deeper, further]
    simp

theorem sweep_nil (rounds : Nat) : sweep children rounds [] = [] := by
  cases rounds <;> rfl

/-- Below the node there are at most so many levels. -/
def Low (children : Node → List Node) : Nat → Node → Prop
  | 0, node => children node = []
  | depth + 1, node => ∀ child ∈ children node, Low children depth child

theorem low_succ {depth : Nat} {node : Node} (low : Low children depth node) :
    Low children (depth + 1) node := by
  induction depth generalizing node with
  | zero =>
    intro child member
    have leaf : children node = [] := low
    rw [leaf] at member
    cases member
  | succ depth ih => exact fun child member => ih (low child member)

theorem Low.mono {depth deeper : Nat} {node : Node} (low : Low children depth node)
    (bound : depth ≤ deeper) : Low children deeper node := by
  induction bound with
  | refl => exact low
  | step _ ih => exact low_succ ih

theorem low_of_leaf {node : Node} (leaf : children node = []) (depth : Nat) :
    Low children depth node := by
  have low : Low children 0 node := leaf
  exact low.mono (Nat.zero_le depth)

theorem exists_listing_of_each {depth : Nat} (nodes : List Node)
    (each : ∀ node ∈ nodes, ∃ below, Listing children (children node) below ∧
      below.length + 1 ≤ visits children depth node) :
    ∃ order, Listing children nodes order ∧
      order.length ≤ (nodes.map (visits children depth)).foldr (· + ·) 0 := by
  induction nodes with
  | nil => exact ⟨[], .nil, Nat.le_refl _⟩
  | cons node nodes ih =>
    obtain ⟨below, deeper, few⟩ := each node (List.mem_cons_self ..)
    obtain ⟨later, further, fewer⟩ := ih fun other member => each other (List.mem_cons_of_mem _ member)
    refine ⟨_, .cons deeper further, ?_⟩
    simp only [List.length_cons, List.length_append, List.map_cons, List.foldr_cons]
    omega

/-- What is counted from a node suffices for all that is listed below it. -/
theorem exists_listing_of_low {depth : Nat} {node : Node} (low : Low children depth node) :
    ∃ below, Listing children (children node) below ∧
      below.length + 1 ≤ visits children depth node := by
  induction depth generalizing node with
  | zero =>
    have leaf : children node = [] := low
    exact ⟨[], by rw [leaf]; exact .nil, Nat.le_refl _⟩
  | succ depth ih =>
    obtain ⟨below, listing, few⟩ := exists_listing_of_each (children node)
      fun child member => ih (low child member)
    refine ⟨below, listing, ?_⟩
    rw [visits]
    omega

theorem mem_listing (listing : Listing children nodes order) (other : Node) :
    other ∈ order ↔
      ∃ node ∈ nodes, ReflTransGen (fun node child => child ∈ children node) node other := by
  induction listing with
  | nil => simp
  | @cons node nodes below later _ _ deeper further =>
    rw [List.mem_cons, List.mem_append, deeper, further]
    constructor
    · rintro (rfl | ⟨child, member, reached⟩ | ⟨sibling, member, reached⟩)
      · exact ⟨other, List.mem_cons_self .., .refl⟩
      · exact ⟨node, List.mem_cons_self .., .head member reached⟩
      · exact ⟨sibling, List.mem_cons_of_mem _ member, reached⟩
    · rintro ⟨first, member, reached⟩
      rcases List.mem_cons.mp member with rfl | member
      · rcases reached.cases_head with same | ⟨child, below, deeper⟩
        · exact .inl same.symm
        · exact .inr (.inl ⟨child, below, deeper⟩)
      · exact .inr (.inr ⟨first, member, reached⟩)

section Order
variable {tree : Tree Node} {Has : Node → Prop}

theorem exists_preorder {root : Node} (low : Low tree.children tree.depth root) :
    Listing tree.children [root] (tree.preorder root) := by
  obtain ⟨below, listing, few⟩ := exists_listing_of_low low
  have whole := Listing.cons listing .nil
  rw [List.append_nil] at whole
  obtain ⟨rounds, count⟩ := Nat.exists_eq_add_of_le few
  have swept := sweep_listing whole rounds []
  rw [List.append_nil, sweep_nil, List.append_nil] at swept
  rw [preorder, count]
  exact swept.symm ▸ whole

theorem low_of_line (consistent : tree.Consistent Has) (bounded : tree.Bounded Has) {depth : Nat}
    {node : Node} {line : List Node} (lined : Line tree.parent? node line)
    (high : tree.depth ≤ line.length + depth + 1) : Low tree.children depth node := by
  induction depth generalizing node line with
  | zero =>
    rw [Low, List.eq_nil_iff_forall_not_mem]
    intro child member
    obtain ⟨has, above⟩ := consistent.listed node child member
    obtain ⟨longer, whole, short, _⟩ := bounded.lines child has
    rw [whole.unique (.more above lined), List.length_cons] at short
    omega
  | succ depth ih =>
    intro child member
    have above := (consistent.listed node child member).2
    exact ih (.more above lined) (by rw [List.length_cons]; omega)

theorem low_root (consistent : tree.Consistent Has) (bounded : tree.Bounded Has) {root : Node}
    (has : Has root) : Low tree.children tree.depth root := by
  obtain ⟨line, lined, _⟩ := bounded.lines root has
  exact low_of_line consistent bounded lined (by omega)

theorem not_above_self (bounded : tree.Bounded Has) {node : Node} (has : Has node) :
    ¬ TransGen tree.Above node node := by
  obtain ⟨line, lined, _⟩ := bounded.lines node has
  exact fun cycle => lined.not_mem ((lined.mem_iff node).mpr cycle)

theorem above_of_below (consistent : tree.Consistent Has) {node other : Node}
    (reached : ReflTransGen (fun node child => child ∈ tree.children node) node other) :
    ReflTransGen tree.Above other node := by
  induction reached with
  | refl => exact .refl
  | tail _ member ih => exact .head (consistent.listed _ _ member).2 ih

theorem above_total {node first second : Node} (left : ReflTransGen tree.Above node first)
    (right : ReflTransGen tree.Above node second) :
    ReflTransGen tree.Above first second ∨ ReflTransGen tree.Above second first :=
  ReflTransGen.total_of_right_unique (fun _ _ _ one other => Option.some.inj (one.symm.trans other))
    left right

/-- Neither of the nodes is above the other. -/
def Beside (tree : Tree Node) (first second : Node) : Prop :=
  ¬ ReflTransGen tree.Above first second ∧ ¬ ReflTransGen tree.Above second first

theorem beside_children (consistent : tree.Consistent Has) (bounded : tree.Bounded Has)
    (node : Node) : (tree.children node).Pairwise tree.Beside := by
  have apart : ∀ first ∈ tree.children node, ∀ second ∈ tree.children node, first ≠ second →
      ¬ ReflTransGen tree.Above first second := by
    intro first firstMember second secondMember distinct reached
    have above := (consistent.listed node first firstMember).2
    obtain ⟨has, parent⟩ := consistent.listed node second secondMember
    rcases reached.cases_head with same | ⟨middle, step, further⟩
    · exact distinct same
    · have meet : middle = node := Option.some.inj (step.symm.trans above)
      subst meet
      exact not_above_self bounded has (.head' parent further)
  exact (consistent.once node).imp_of_mem fun first second distinct =>
    ⟨apart _ first _ second distinct, apart _ second _ first (Ne.symm distinct)⟩

/-- Below nodes that lie beside each other no node is listed twice. -/
theorem nodup_listing (consistent : tree.Consistent Has) (bounded : tree.Bounded Has)
    (listing : Listing tree.children nodes order) (beside : nodes.Pairwise tree.Beside) :
    order.Nodup := by
  induction listing with
  | nil => exact List.nodup_nil
  | @cons node nodes below later deeperListing furtherListing deeper further =>
    have ⟨apart, rest⟩ := List.pairwise_cons.mp beside
    have fromBelow : ∀ other ∈ below, TransGen tree.Above other node := by
      intro other member
      obtain ⟨child, listed, reached⟩ := (mem_listing deeperListing other).mp member
      exact .tail' (above_of_below consistent reached) (consistent.listed node child listed).2
    have fromLater : ∀ other ∈ later, ∃ sibling ∈ nodes, ReflTransGen tree.Above other sibling := by
      intro other member
      obtain ⟨sibling, listed, reached⟩ := (mem_listing furtherListing other).mp member
      exact ⟨sibling, listed, above_of_below consistent reached⟩
    refine List.nodup_cons.mpr ⟨fun member => ?_, List.nodup_append.mpr
      ⟨deeper (beside_children consistent bounded node), further rest, ?_⟩⟩
    · rcases List.mem_append.mp member with inBelow | inLater
      · obtain ⟨child, listed, reached⟩ := (mem_listing deeperListing node).mp inBelow
        obtain ⟨has, above⟩ := consistent.listed node child listed
        exact not_above_self bounded has (.head' above (above_of_below consistent reached))
      · obtain ⟨sibling, listed, reached⟩ := fromLater node inLater
        exact (apart sibling listed).1 reached
    · rintro other inBelow _ inLater rfl
      obtain ⟨sibling, listed, reached⟩ := fromLater other inLater
      rcases above_total (fromBelow other inBelow).to_reflTransGen reached with up | down
      · exact (apart sibling listed).1 up
      · exact (apart sibling listed).2 down

theorem nodup_preorder (consistent : tree.Consistent Has) (bounded : tree.Bounded Has)
    {root : Node} (has : Has root) : (tree.preorder root).Nodup :=
  nodup_listing consistent bounded (exists_preorder (low_root consistent bounded has))
    (List.pairwise_singleton ..)

theorem has_of_mem_preorder (consistent : tree.Consistent Has) (bounded : tree.Bounded Has)
    {root node : Node} (has : Has root) (member : node ∈ tree.preorder root) : Has node := by
  obtain ⟨first, listed, reached⟩ :=
    (mem_listing (exists_preorder (low_root consistent bounded has)) node).mp member
  rw [List.mem_singleton.mp listed] at reached
  rcases reached.cases_tail with rfl | ⟨parent, _, below⟩
  · exact has
  · exact (consistent.listed parent node below).1

end Order
end TreeSelect.Tree
