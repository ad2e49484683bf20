import Mathlib.Data.List.Basic
import TreeSelect.Proofs.Tree.Kinds

/-! How the links of an arena hang together. A parent, the children of the parent and the previous
sibling say the same thing three times, are written one after the other, and are never taken back.
However often a node is appended again, its latest place is the one that all three agree on; and if
only nodes without a parent are appended, never above themselves, the links form a forest. -/

namespace TreeSelect.Arena
open Relation TreeSelect.Tree

variable {arena later : Arena} {parent child : Nat}

/-- One call that makes a node, attaches one, or does both. -/
inductive Command where
  | alloc (content : Content)
  | appendElement (parent : Nat) (element : Element)
  | appendText (parent : Nat) (text : String)
  | appendChild (parent child : Nat)

/-- Fails if a node is missing. -/
def perform? (arena : Arena) : Command → Option Arena
  | .alloc content => some (arena.alloc content).2
  | .appendElement parent element => (arena.append? parent (.element element)).map Prod.snd
  | .appendText parent text => (arena.append? parent (.text text)).map Prod.snd
  | .appendChild parent child => arena.appendChild? parent child

/-- What comes of the document alone by all the calls, in their order. -/
def run? (commands : List Command) : Option Arena := commands.foldlM perform? .new

/-- How many nodes a call makes. -/
def Command.makes : Command → Nat
  | .alloc _ | .appendElement _ _ | .appendText _ _ => 1
  | .appendChild _ _ => 0

/-- The call makes a new node and appends it at once. -/
def Command.appends : Command → Bool
  | .appendElement _ _ | .appendText _ _ => true
  | .alloc _ | .appendChild _ _ => false

/-- The call names only nodes with numbers below the bound. -/
def Command.Names (bound : Nat) : Command → Prop
  | .alloc _ => True
  | .appendElement parent _ | .appendText parent _ => parent < bound
  | .appendChild parent child => parent < bound ∧ child < bound

/-- A node that is appended has no parent yet, and it is neither the new parent nor above it. -/
def Command.Orderly (arena : Arena) : Command → Prop
  | .appendChild parent child =>
      arena.parent? child = none ∧ child ≠ parent ∧ ¬ TransGen arena.tree.Above parent child
  | _ => True

/-- Every call names only nodes that exist when it is made, where there are `size` at first. -/
def Known : (size : Nat) → List Command → Prop
  | _, [] => True
  | size, command :: rest => command.Names size ∧ Known (size + command.makes) rest

/-- Every call is orderly in the arena that it is made in. -/
def Orderly : Arena → List Command → Prop
  | _, [] => True
  | arena, command :: rest => command.Orderly arena ∧
      ∀ later, arena.perform? command = some later → Orderly later rest

instance (bound : Nat) (command : Command) : Decidable (command.Names bound) := by
  cases command <;> unfold Command.Names <;> infer_instance

instance decidableKnown : (size : Nat) → (commands : List Command) → Decidable (Known size commands)
  | _, [] => isTrue trivial
  | size, command :: rest =>
      have := decidableKnown (size + command.makes) rest
      inferInstanceAs (Decidable (_ ∧ _))

/-- What the links say of any node, even one that was appended several times: it stands among the
children of its parent, and the previous sibling is what is in front of its last place there. -/
structure Linked (arena : Arena) : Prop where
  children_lt : ∀ id, ∀ child ∈ arena.children id, child < arena.size
  parent_lt : ∀ id parent, arena.parent? id = some parent → parent < arena.size
  sibling_lt : ∀ id sibling, arena.previousSibling? id = some sibling → sibling < arena.size
  detached : ∀ id, arena.parent? id = none →
    (∀ other, id ∉ arena.children other) ∧ arena.previousSibling? id = none
  attached : ∀ id parent, arena.parent? id = some parent → ∃ before after,
    arena.children parent = before ++ id :: after ∧ id ∉ after ∧
      arena.previousSibling? id = before.getLast?

/-- Every node is listed once, by its parent. The chains of parents end, and those of previous
siblings go through all children in front. -/
structure Forest (arena : Arena) : Prop where
  listed : ∀ parent child, child ∈ arena.children parent ↔ arena.parent? child = some parent
  once : ∀ parent, (arena.children parent).Nodup
  climbs : ∀ id, ∃ line, Line arena.parent? id line
  siblings : ∀ parent before id after, arena.children parent = before ++ id :: after →
    Line arena.previousSibling? id before.reverse

/-- The links after a node was appended. -/
structure Appended (arena : Arena) (parent child : Nat) (later : Arena) : Prop where
  size : later.size = arena.size
  parents : ∀ id, later.parent? id = if id = child then some parent else arena.parent? id
  lists : ∀ id, later.children id =
    if id = parent then arena.children parent ++ [child] else arena.children id
  siblings : ∀ id, later.previousSibling? id =
    if id = child then (arena.children parent).getLast? else arena.previousSibling? id

/-- A node as it reads after the append. -/
def Node.relinked (arena : Arena) (parent child id : Nat) (node : Node) : Node where
  content := node.content
  parent := if id = child then some parent else node.parent
  children := if id = parent then node.children ++ [child] else node.children
  previousSibling :=
    if id = child then (arena.children parent).getLast? else node.previousSibling

/-- Nodes that exist can be appended to each other. -/
theorem exists_appendChild? (above : parent < arena.size) (below : child < arena.size) :
    ∃ later, arena.appendChild? parent child = some later ∧ later.size = arena.size ∧
      ∀ id, later.get? id = (arena.get? id).map (Node.relinked arena parent child id) := by
  have found : arena.get? parent = some arena.nodes[parent] := Array.getElem?_eq_getElem above
  have children : arena.children parent = arena.nodes[parent].children := by
    rw [Arena.children, found]
  refine ⟨_, by rw [appendChild?, found]; exact if_pos below, by simp [Arena.size], fun id => ?_⟩
  unfold Arena.get? Node.relinked
  rw [children, Array.getElem?_modify, Array.getElem?_modify]
  cases arena.nodes[id]? with
  | none => simp
  | some node => by_cases own : child = id <;> by_cases same : parent = id <;> simp [own, same, eq_comm]

theorem exists_appended (above : parent < arena.size) (below : child < arena.size) :
    ∃ later, arena.appendChild? parent child = some later ∧ Appended arena parent child later := by
  obtain ⟨later, appends, size, reads⟩ := exists_appendChild? above below
  have known : ∀ {id}, id < arena.size → ∃ node, arena.get? id = some node := fun small =>
    ⟨_, Array.getElem?_eq_getElem small⟩
  refine ⟨later, appends, size, fun id => ?_, fun id => ?_, fun id => ?_⟩
  · rw [Arena.parent?, reads, Arena.parent?]
    by_cases own : id = child
    · subst own
      obtain ⟨node, found⟩ := known below
      simp [found, Node.relinked]
    · cases arena.get? id <;> simp [Node.relinked, own]
  · rw [Arena.children, reads]
    by_cases own : id = parent
    · obtain ⟨node, found⟩ := known (own ▸ above)
      simp [← own, found, Node.relinked, Arena.children]
    · rw [Arena.children, if_neg own]
      cases found : arena.get? id <;> simp [Node.relinked, Arena.children, own, found]
  · rw [Arena.previousSibling?, reads, Arena.previousSibling?]
    by_cases own : id = child
    · subst own
      obtain ⟨node, found⟩ := known below
      simp [found, Node.relinked]
    · cases arena.get? id <;> simp [Node.relinked, own]

/-- A node that was just made has no links. -/
theorem get?_alloc (arena : Arena) (content : Content) (id : Nat) :
    (arena.alloc content).2.get? id =
      if id = arena.size then some (.detached content) else arena.get? id :=
  Array.getElem?_push

theorem get?_size (arena : Arena) : arena.get? arena.size = none :=
  Array.getElem?_eq_none (Nat.le_refl _)

theorem size_alloc (arena : Arena) (content : Content) :
    (arena.alloc content).2.size = arena.size + 1 := Array.size_push _

theorem parent?_alloc (arena : Arena) (content : Content) :
    (arena.alloc content).2.parent? = arena.parent? := by
  funext id
  rw [Arena.parent?, get?_alloc, Arena.parent?]
  split
  next same => rw [same, get?_size]; rfl
  next => rfl

theorem children_alloc (arena : Arena) (content : Content) :
    (arena.alloc content).2.children = arena.children := by
  funext id
  rw [Arena.children, get?_alloc, Arena.children]
  by_cases same : id = arena.size
  · rw [if_pos same, same, get?_size]
    rfl
  · rw [if_neg same]

theorem previousSibling?_alloc (arena : Arena) (content : Content) :
    (arena.alloc content).2.previousSibling? = arena.previousSibling? := by
  funext id
  rw [Arena.previousSibling?, get?_alloc, Arena.previousSibling?]
  split
  next same => rw [same, get?_size]; rfl
  next => rfl

/-- The document alone has no links. -/
theorem bare_new (id : Nat) : Arena.new.parent? id = none ∧ Arena.new.children id = [] ∧
    Arena.new.previousSibling? id = none := by
  cases id <;> exact ⟨rfl, rfl, rfl⟩

theorem linked_new : Arena.new.Linked := by
  constructor
  · intro id child member
    simp [bare_new] at member
  · intro id parent above
    simp [bare_new] at above
  · intro id sibling before
    simp [bare_new] at before
  · exact fun id _ => ⟨fun other => by simp [bare_new], (bare_new id).2.2⟩
  · intro id parent above
    simp [bare_new] at above

theorem forest_new : Arena.new.Forest := by
  constructor
  · intro parent child
    simp [bare_new]
  · intro parent
    simp [bare_new]
  · exact fun id => ⟨[], .done (bare_new id).1⟩
  · intro parent before id after children
    simp [bare_new] at children

theorem Linked.alloc (linked : arena.Linked) (content : Content) :
    (arena.alloc content).2.Linked := by
  constructor
  all_goals simp only [size_alloc, parent?_alloc, children_alloc, previousSibling?_alloc]
  · exact fun id child member => Nat.lt_succ_of_lt (linked.children_lt id child member)
  · exact fun id parent above => Nat.lt_succ_of_lt (linked.parent_lt id parent above)
  · exact fun id sibling before => Nat.lt_succ_of_lt (linked.sibling_lt id sibling before)
  · exact linked.detached
  · exact linked.attached

theorem Forest.alloc (forest : arena.Forest) (content : Content) :
    (arena.alloc content).2.Forest := by
  constructor
  all_goals simp only [parent?_alloc, children_alloc, previousSibling?_alloc]
  · exact forest.listed
  · exact forest.once
  · exact forest.climbs
  · exact forest.siblings

/-- An append in any order, even of a node to itself, leaves the links in agreement. -/
theorem Linked.append (linked : arena.Linked) (above : parent < arena.size)
    (below : child < arena.size) (appended : Appended arena parent child later) :
    later.Linked := by
  have last : ∀ sibling, (arena.children parent).getLast? = some sibling →
      sibling < arena.size := fun sibling found =>
    linked.children_lt parent sibling (List.mem_of_getLast? found)
  constructor
  · intro id other member
    rw [appended.lists] at member
    rw [appended.size]
    split at member
    next =>
      rcases List.mem_append.mp member with old | new
      · exact linked.children_lt parent other old
      · exact List.mem_singleton.mp new ▸ below
    next => exact linked.children_lt id other member
  · intro id other found
    rw [appended.parents] at found
    rw [appended.size]
    split at found
    next => exact Option.some.inj found ▸ above
    next => exact linked.parent_lt id other found
  · intro id sibling found
    rw [appended.siblings] at found
    rw [appended.size]
    split at found
    next => exact last sibling found
    next => exact linked.sibling_lt id sibling found
  · intro id alone
    rw [appended.parents] at alone
    split at alone
    next => cases alone
    next other =>
      obtain ⟨unlisted, first⟩ := linked.detached id alone
      refine ⟨fun owner => ?_, by rw [appended.siblings, if_neg other, first]⟩
      rw [appended.lists]
      split
      next => simp [unlisted, other]
      next => exact unlisted owner
  · intro id owner found
    rw [appended.parents] at found
    rw [appended.siblings, appended.lists]
    split at found
    next own =>
      subst own
      cases found
      exact ⟨arena.children parent, [], by simp, List.not_mem_nil, if_pos rfl⟩
    next other =>
      obtain ⟨before, after, children, latest, sibling⟩ := linked.attached id owner found
      rw [if_neg other]
      split
      next same =>
        subst same
        exact ⟨before, after ++ [child], by simp [children], by simp [latest, other], sibling⟩
      next => exact ⟨before, after, children, latest, sibling⟩

/-- Where the links agree and every node is listed once, the ways to move about agree. -/
theorem Linked.consistent (linked : arena.Linked)
    (listed : ∀ parent child, child ∈ arena.children parent ↔ arena.parent? child = some parent)
    (once : ∀ parent, (arena.children parent).Nodup) : arena.tree.Consistent arena.Has := by
  constructor
  · exact fun node child member =>
      ⟨linked.children_lt node child member, (listed node child).mp member⟩
  · exact fun node parent _ above => (listed parent node).mpr above
  · exact once
  · intro parent before node after children
    have member : node ∈ arena.tree.children parent := by simp [children]
    obtain ⟨front, back, split, behind, sibling⟩ :=
      linked.attached node parent ((listed parent node).mp member)
    -- the last place is the only one
    have whole : front ++ node :: back = before ++ node :: after := split.symm.trans children
    have distinct := once parent
    rw [split, List.nodup_middle, List.nodup_cons, List.mem_append] at distinct
    have same : front = before :=
      ((List.append_cons_inj_of_notMem (fun found => distinct.1 (.inl found)) behind).mp whole).1
    exact same ▸ sibling
  · exact fun node _ top => (linked.detached node top).2

theorem Linked.forest (linked : arena.Linked)
    (listed : ∀ parent child, child ∈ arena.children parent ↔ arena.parent? child = some parent)
    (once : ∀ parent, (arena.children parent).Nodup)
    (climbs : ∀ id, ∃ line, Line arena.parent? id line) : arena.Forest :=
  ⟨listed, once, climbs, fun _ _ _ _ children =>
    (linked.consistent listed once).line_siblings children⟩

theorem Forest.acyclic (forest : arena.Forest) (id : Nat) :
    ¬ TransGen arena.tree.Above id id := by
  obtain ⟨line, lined⟩ := forest.climbs id
  exact fun cycle => lined.not_mem ((lined.mem_iff id).mpr cycle)

/-- The line of a node that is not under the appended one stays as it is. -/
theorem Appended.line (appended : Appended arena parent child later) {id : Nat} {line : List Nat}
    (lined : Line arena.parent? id line) (apart : child ∉ id :: line) :
    Line later.parent? id line := by
  induction lined with
  | done last =>
    have other := List.ne_of_not_mem_cons apart
    exact .done (by rw [appended.parents, if_neg (Ne.symm other), last])
  | more step _ ih =>
    have other := List.ne_of_not_mem_cons apart
    exact .more (by rw [appended.parents, if_neg (Ne.symm other), step])
      (ih (List.not_mem_of_not_mem_cons apart))

/-- A node without a parent that is appended below others, and not below itself, keeps the forest a
forest. -/
theorem Forest.append (forest : arena.Forest) (linked : later.Linked)
    (free : arena.parent? child = none) (other : child ≠ parent)
    (apart : ¬ TransGen arena.tree.Above parent child)
    (appended : Appended arena parent child later) : later.Forest := by
  have unlisted : ∀ owner, child ∉ arena.children owner := by
    intro owner member
    rw [forest.listed, free] at member
    cases member
  have listed : ∀ owner id, id ∈ later.children owner ↔ later.parent? id = some owner := by
    intro owner id
    rw [appended.lists, appended.parents]
    by_cases own : id = child
    · subst own
      by_cases same : owner = parent
      · simp [same]
      · simp [same, unlisted, Ne.symm same]
    · by_cases same : owner = parent
      · simp [same, own, forest.listed]
      · simp [same, own, forest.listed]
  have once : ∀ owner, (later.children owner).Nodup := by
    intro owner
    rw [appended.lists]
    split
    next =>
      refine List.nodup_append.mpr ⟨forest.once parent, List.pairwise_singleton .., ?_⟩
      rintro id member _ new rfl
      exact unlisted parent (List.mem_singleton.mp new ▸ member)
    next => exact forest.once owner
  refine linked.forest listed once fun id => ?_
  obtain ⟨above, climbs⟩ := forest.climbs parent
  have outside : child ∉ parent :: above := by
    intro member
    rcases List.mem_cons.mp member with same | further
    · exact other same
    · exact apart ((climbs.mem_iff child).mp further)
  obtain ⟨line, lined⟩ := forest.climbs id
  -- a line that used to end at the appended node now goes on to the parent
  induction lined with
  | @done first last =>
    by_cases own : first = child
    · exact ⟨parent :: above, .more (by rw [appended.parents, if_pos own])
        (appended.line climbs outside)⟩
    · exact ⟨[], .done (by rw [appended.parents, if_neg own, last])⟩
  | @more first second rest step _ ih =>
    obtain ⟨line, lined⟩ := ih
    have own : first ≠ child := by
      rintro rfl
      rw [free] at step
      cases step
    exact ⟨second :: line, .more (by rw [appended.parents, if_neg own, step]) lined⟩

/-- A new node that is appended at once is in nobody's way. -/
theorem exists_append (arena : Arena) (content : Content) (above : parent < arena.size) :
    ∃ later, arena.append? parent content = some (arena.size, later) ∧
      Appended (arena.alloc content).2 parent arena.size later := by
  have size := size_alloc arena content
  have old : parent < (arena.alloc content).2.size := by omega
  have new : arena.size < (arena.alloc content).2.size := by omega
  obtain ⟨later, appends, appended⟩ := exists_appended old new
  exact ⟨later, by rw [append?]; exact congrArg (Option.map _) appends, appended⟩

theorem exists_perform {command : Command} (appends : command.appends = true)
    (names : command.Names arena.size) : ∃ parent < arena.size, ∃ content later,
      arena.perform? command = some later ∧ later.size = arena.size + command.makes ∧
        Appended (arena.alloc content).2 parent arena.size later := by
  cases command with
  | alloc | appendChild => cases appends
  | appendElement parent element =>
    obtain ⟨later, appends, appended⟩ := arena.exists_append (.element element) names
    exact ⟨parent, names, _, later, by rw [perform?, appends]; rfl,
      appended.size.trans (size_alloc arena _), appended⟩
  | appendText parent text =>
    obtain ⟨later, appends, appended⟩ := arena.exists_append (.text text) names
    exact ⟨parent, names, _, later, by rw [perform?, appends]; rfl,
      appended.size.trans (size_alloc arena _), appended⟩

theorem Linked.append_new (linked : arena.Linked) {content : Content} (above : parent < arena.size)
    (appended : Appended (arena.alloc content).2 parent arena.size later) : later.Linked := by
  have size := size_alloc arena content
  exact (linked.alloc content).append (by omega) (by omega) appended

theorem Forest.append_new (forest : arena.Forest) (linked : arena.Linked) {content : Content}
    (above : parent < arena.size)
    (appended : Appended (arena.alloc content).2 parent arena.size later) : later.Forest := by
  refine (forest.alloc content).append (linked.append_new above appended) ?_ ?_ ?_ appended
  · rw [parent?_alloc, Arena.parent?, get?_size]
    rfl
  · omega
  · intro reached
    obtain ⟨last, _, step⟩ := TransGen.tail'_iff.mp reached
    change (arena.alloc content).2.parent? last = some arena.size at step
    rw [parent?_alloc] at step
    exact Nat.lt_irrefl _ (linked.parent_lt last arena.size step)

/-- One call that names existing nodes succeeds, keeps the links in agreement, and keeps a forest if
it is orderly. -/
theorem Linked.perform (linked : arena.Linked) {command : Command}
    (names : command.Names arena.size) :
    ∃ later, arena.perform? command = some later ∧ later.size = arena.size + command.makes ∧
      later.Linked ∧ (arena.Forest → command.Orderly arena → later.Forest) := by
  cases command with
  | alloc content =>
    exact ⟨_, rfl, size_alloc arena content, linked.alloc content,
      fun forest _ => forest.alloc content⟩
  | appendElement | appendText =>
    obtain ⟨parent, above, content, later, performed, size, appended⟩ := exists_perform rfl names
    exact ⟨later, performed, size, linked.append_new above appended,
      fun forest _ => forest.append_new linked above appended⟩
  | appendChild parent child =>
    obtain ⟨later, appends, appended⟩ := exists_appended names.1 names.2
    have kept := linked.append names.1 names.2 appended
    exact ⟨later, appends, appended.size, kept, fun forest orderly =>
      forest.append kept orderly.1 orderly.2.1 orderly.2.2 appended⟩

theorem Linked.run (linked : arena.Linked) {commands : List Command}
    (known : Known arena.size commands) :
    ∃ last, commands.foldlM perform? arena = some last ∧ last.Linked ∧
      (arena.Forest → Orderly arena commands → last.Forest) := by
  induction commands generalizing arena with
  | nil => exact ⟨arena, rfl, linked, fun forest _ => forest⟩
  | cons command commands ih =>
    obtain ⟨later, performed, size, kept, forested⟩ := linked.perform known.1
    obtain ⟨last, ran, keptLast, forestedLast⟩ := ih kept (size ▸ known.2)
    refine ⟨last, by rw [List.foldlM_cons, performed]; exact ran, keptLast,
      fun forest orderly => ?_⟩
    exact forestedLast (forested forest orderly.1) (orderly.2 later performed)

/-- Any calls that name existing nodes succeed and leave links that agree about the latest place of
every node; if only free nodes were appended, and none below itself, the links form a forest. -/
theorem run_links (commands : List Command) (known : Known new.size commands) :
    ∃ arena, run? commands = some arena ∧ arena.Linked ∧
      (Orderly .new commands → arena.Forest) := by
  obtain ⟨arena, ran, linked, forested⟩ := linked_new.run known
  exact ⟨arena, ran, linked, forested forest_new⟩

/-- A node that is appended again, and then one that is appended to itself. -/
def tangled : List Command :=
  [.appendElement 0 (.ofList "a" []), .appendText 0 "b", .appendChild 0 1, .appendChild 2 2]

/-- A text that hangs nowhere at first. -/
def adopting : List Command :=
  [.alloc (.text "b"), .appendElement 0 (.ofList "a" []), .appendChild 2 1]

theorem run_links_tangled :
    (∃ arena, run? tangled = some arena ∧ arena.Linked) ∧
      ∃ arena, run? adopting = some arena ∧ arena.Forest := by
  constructor
  · obtain ⟨arena, ran, linked, _⟩ := run_links tangled (by decide)
    exact ⟨arena, ran, linked⟩
  · obtain ⟨arena, ran, _, forested⟩ := run_links adopting (by decide)
    refine ⟨arena, ran, forested ⟨trivial, ?_⟩⟩
    rintro _ ⟨⟩
    refine ⟨trivial, ?_⟩
    rintro _ ⟨⟩
    refine ⟨⟨rfl, by decide, fun above => ?_⟩, fun _ _ => trivial⟩
    suffices lined : Line _ 2 [0] from absurd ((lined.mem_iff 1).mpr above) (by decide)
    exact .more rfl (.done rfl)

end TreeSelect.Arena
