import TreeSelect.Proofs.Tree.Links

/-! The text of a node in an arena. The loop over a stack of nodes meets them in document order, so it
ends where the links form a forest, and what it has then added up is told of every node by its own
text, if it is one, and the texts of its children behind it. -/

namespace TreeSelect.Arena
open TreeSelect.Tree

variable {arena : Arena} {id : Nat} {nodes order stack : List Nat}

/-- What is told of each node is its own text, if it is one, and then what is told of its children,
in their order. -/
def Recites (arena : Arena) (told : Nat → String) : Prop :=
  ∀ id, told id = arena.chunk id ++ String.join ((arena.children id).map told)

/-- The nodes that are still to be met are those listed for the stack; each of them takes one round
and adds its chunk. -/
theorem textFrom_listing (listing : Listing arena.children stack order) (rounds : Nat)
    (text : String) : arena.textFrom rounds text stack =
      if order.length ≤ rounds then some (text ++ String.join (order.map arena.chunk))
      else none := by
  induction order generalizing stack rounds text with
  | nil =>
    cases listing
    cases rounds <;> simp [textFrom, String.join_nil]
  | cons node order ih =>
    cases listing with
    | cons deeper further =>
      cases rounds with
      | zero => simp [textFrom]
      | succ rounds =>
        -- the children on top of the stack are listed in front of what waits below them
        rw [textFrom, ih (deeper.append further)]
        simp only [List.length_cons, Nat.add_le_add_iff_right, List.map_cons, String.join_cons,
          String.append_assoc]

theorem textContent_eq_join (low : Low arena.children arena.size id)
    (listing : Listing arena.children [id] order) :
    arena.textContent id = String.join (order.map arena.chunk) := by
  obtain ⟨below, deeper, few⟩ := exists_listing_of_low low
  have same := listing.unique (.cons deeper .nil)
  subst same
  rw [textContent, textFrom_listing listing, if_pos (by simpa using few)]
  exact String.empty_append

theorem Recites.join_eq {told : Nat → String} (recites : arena.Recites told)
    (listing : Listing arena.children nodes order) :
    String.join (nodes.map told) = String.join (order.map arena.chunk) := by
  induction listing with
  | nil => rfl
  | @cons node nodes below later _ _ deeper further =>
    simp only [List.map_cons, List.map_append, String.join_cons, String.join_append]
    rw [recites node, deeper, further, String.append_assoc]

section Low
variable (low : ∀ id, Low arena.children arena.size id)
include low

theorem join_textContent (listing : Listing arena.children nodes order) :
    String.join (nodes.map arena.textContent) = String.join (order.map arena.chunk) := by
  induction listing with
  | nil => rfl
  | @cons node nodes below later deeper _ _ further =>
    have own := textContent_eq_join (low node) (.cons deeper .nil)
    rw [List.append_nil] at own
    rw [List.map_cons, String.join_cons, own, further, ← List.cons_append, List.map_append,
      String.join_append]

theorem recites_textContent : arena.Recites arena.textContent := by
  intro id
  obtain ⟨below, listing, _⟩ := exists_listing_of_low (low id)
  rw [textContent_eq_join (low id) (.cons listing .nil), join_textContent low listing,
    List.append_nil, List.map_cons, String.join_cons]

theorem Recites.eq_textContent {told : Nat → String} (recites : arena.Recites told) :
    told = arena.textContent := by
  funext id
  obtain ⟨below, listing, _⟩ := exists_listing_of_low (low id)
  rw [recites id, recites.join_eq listing, recites_textContent low id, join_textContent low listing]

end Low

theorem Linked.low (linked : arena.Linked) (forest : arena.Forest) (id : Nat) :
    Low arena.children arena.size id := by
  have consistent := linked.consistent forest.listed forest.once
  by_cases has : arena.Has id
  · exact low_root consistent (arena.bounded consistent forest.acyclic) has
  · refine low_of_leaf (List.eq_nil_iff_forall_not_mem.mpr fun child listed => ?_) _
    exact has (has_of_children listed)

/-- Where only free nodes are appended, and none below itself, the loop over the stack ends at every
node: it takes as many rounds as there are nodes from that one down. Its result is told of a node by
its own text and those of its children, and nothing else is told so of all nodes. A node that does
not exist has the empty text. -/
theorem run_textContent (commands : List Command) (known : Known new.size commands)
    (orderly : Orderly .new commands) : ∃ arena, run? commands = some arena ∧
      (∀ id rounds, arena.textFrom rounds "" [id] =
        if (arena.tree.preorder id).length ≤ rounds then some (arena.textContent id) else none) ∧
      arena.Recites arena.textContent ∧
      (∀ told, arena.Recites told → told = arena.textContent) ∧
      ∀ id, arena.size ≤ id → arena.textContent id = "" := by
  obtain ⟨arena, ran, linked, forested⟩ := linked_new.run known
  have low := linked.low (forested forest_new orderly)
  refine ⟨arena, ran, fun id rounds => ?_, recites_textContent low,
    fun told recites => recites.eq_textContent low, fun id absent => ?_⟩
  · have listing : Listing arena.tree.children [id] _ := exists_preorder (low id)
    rw [textFrom_listing listing, textContent_eq_join (low id) listing, String.empty_append]
  · have missing : arena.get? id = none := Array.getElem?_eq_none absent
    rw [recites_textContent low id, chunk, text?, Arena.children, missing]
    rfl

/-- A paragraph of two texts, of which the later one was made first, and a text behind it. -/
def paragraph : List Command :=
  [.alloc (.text "b"), .appendElement 0 (.ofList "p" []), .appendText 2 "a", .appendChild 2 1,
    .appendText 0 "c"]

theorem run_textContent_paragraph : ∃ arena, run? paragraph = some arena ∧
    arena.textContent 0 = "abc" ∧ arena.textFrom 4 "" [0] = none ∧ arena.textContent 5 = "" := by
  have orderly : Orderly .new paragraph := by
    refine ⟨trivial, ?_⟩
    rintro _ ⟨⟩
    refine ⟨trivial, ?_⟩
    rintro _ ⟨⟩
    refine ⟨trivial, ?_⟩
    rintro _ ⟨⟩
    refine ⟨⟨rfl, by decide, fun above => ?_⟩, fun _ _ => ⟨trivial, fun _ _ => trivial⟩⟩
    suffices lined : Line _ 2 [0] from absurd ((lined.mem_iff 1).mpr above) (by decide)
    exact .more rfl (.done rfl)
  obtain ⟨arena, ran, ends, _, _, absent⟩ := run_textContent paragraph (by decide) orderly
  cases ran
  exact ⟨_, rfl, by decide, by rw [ends]; rfl, absent 5 (by decide)⟩

end TreeSelect.Arena
