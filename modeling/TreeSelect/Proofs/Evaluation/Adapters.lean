import TreeSelect.Proofs.Evaluation.Answer
import TreeSelect.Proofs.Evaluation.Collecting
import TreeSelect.Proofs.Evaluation.Image
import TreeSelect.Proofs.Tree.Paths

/-! The same answers from an arena and from the outline of its shape. A context hands out ordinals
until a node is asked for; so two contexts whose indexes are alike are told apart by the nodes only,
and these correspond. -/

namespace TreeSelect
open TreeSelect.Tree

namespace Context
variable {Node Image : Type} [DecidableEq Node] [DecidableEq Image]

/-- Any text either fails in both contexts, with the same error, or is answered in both, with nodes
in the one and their images in the other. -/
def Agrees (image : Node → Image) (context : Context Node) (shown : Context Image) : Prop :=
  ∀ grammar text warnings others,
    (∃ error, context.select grammar text warnings = .error error ∧
      shown.select grammar text others = .error error) ∨
    ∃ found given later nodes, context.select grammar text warnings = .ok (found, given) ∧
      shown.select grammar text others = .ok (found, later) ∧
      context.Yields found nodes ∧ shown.Yields found (nodes.map image)

section Image
variable {context : Context Node} {shown : Context Image} {Has : Node → Prop}
  {Shown : Image → Prop} {image : Node → Image}
  (likeness : Likeness context.tree Has shown.tree Shown image)
  (alike : Index.Alike Has image context.index shown.index)
include likeness alike

omit likeness in
theorem filterMap_image (ordinals : List Nat) :
    ordinals.filterMap shown.index.node? = (ordinals.filterMap context.index.node?).map image := by
  rw [List.map_filterMap]
  exact List.filterMap_congr fun ordinal _ => alike.node? ordinal

theorem remaining_image (found : Matches) :
    shown.remaining found = (context.remaining found).map image := by
  unfold remaining Matches.collect Index.resolve
  rw [List.map_append, filterMap_image alike, List.map_flatMap]
  congr 1
  refine List.flatMap_congr fun selector _ => ?_
  rw [Index.evaluate_image likeness alike]
  exact filterMap_image alike _

/-- Whether a text is read and accepted depends on the policy alone. -/
theorem agrees_of_alike (policy : context.pseudoPolicy = shown.pseudoPolicy) :
    Agrees image context shown := by
  intro grammar text warnings others
  cases read : SelectorGroup.read grammar text with
  | error error =>
    unfold select
    rw [read]
    exact .inl ⟨error, rfl, rfl⟩
  | ok group =>
    have yields := (yields_iff shown (.ofGroup group) _).mpr
      (remaining_image likeness alike (.ofGroup group)).symm
    cases rejects : context.pseudoPolicy with
    | ignore =>
      unfold select
      rw [read, ← policy, rejects]
      exact .inr ⟨.ofGroup group, _, _, _, rfl, rfl, yields_remaining context _, yields⟩
    | reject =>
      rw [select_of_reject rejects read, select_of_reject (policy ▸ rejects) read]
      cases group.pseudoTexts with
      | nil =>
        exact .inr ⟨.ofGroup group, warnings, others, _, rfl, rfl, yields_remaining context _, yields⟩
      | cons first further => exact .inl ⟨.unsupported first, rfl, rfl⟩

end Image
end Context

namespace Arena

/-- What the contexts of two roots share, however they were made, if their conventions were resolved
alike. -/
theorem Grown.agrees {arena : Arena} (grown : arena.Grown) {root : Nat} (known : arena.Has root)
    (session other : Session) (number second : Nat) (chosen given : Option Conventions)
    (convention : (Context.new session number arena.tree root chosen).1.idConvention =
      (Context.new other second arena.outline.tree (arena.path root) given).1.idConvention)
    (policy : (Context.new session number arena.tree root chosen).1.pseudoPolicy =
      (Context.new other second arena.outline.tree (arena.path root) given).1.pseudoPolicy) :
    Context.Agrees arena.path (Context.new session number arena.tree root chosen).1
      (Context.new other second arena.outline.tree (arena.path root) given).1 := by
  refine Context.agrees_of_alike grown.likeness ?_ policy
  have alike := Index.alike_build grown.likeness known
    (Context.new session number arena.tree root chosen).1.idConvention
  nth_rewrite 2 [convention] at alike
  exact alike

/-- Calls that append new nodes to existing ones make an arena that is one with an outline. The
paths of its nodes are those of the outline, every way to move about corresponds, and so do the
answers below every root. -/
theorem run_outline (commands : List Command)
    (appends : ∀ command ∈ commands, command.appends = true) (known : Known new.size commands) :
    ∃ arena, run? commands = some arena ∧
      Mirrors arena.tree arena.Has arena.outline.tree arena.path ∧
      (∀ path, arena.outline.Has path ↔ ∃ id, arena.Has id ∧ arena.path id = path) ∧
      (∀ id, arena.Has id → arena.outline.tree.previousElementSibling? (arena.path id) =
        (arena.tree.previousElementSibling? id).map arena.path) ∧
      (∀ id name, arena.tree.attribute? id name =
        Association.find name (arena.tree.attributes id)) ∧
      ∀ root, arena.Has root → ∀ session other number second chosen given,
        let context := (Context.new session number arena.tree root chosen).1
        let shown := (Context.new other second arena.outline.tree (arena.path root) given).1
        context.idConvention = shown.idConvention → context.pseudoPolicy = shown.pseudoPolicy →
          Context.Agrees arena.path context shown := by
  obtain ⟨arena, ran, grown⟩ := grown_new.run appends known
  refine ⟨arena, ran, grown.mirrors, fun path => ⟨grown.exists_path, ?_⟩,
    fun id => grown.likeness.previousElementSibling?, Index.arena_plain arena,
    fun root known => grown.agrees known⟩
  rintro ⟨id, known, rfl⟩
  exact grown.likeness.shows id known

/-- A shelf with a label, a text and a book. -/
def shelf : List Command :=
  [.appendElement 0 (.ofList "shelf" [("id", "a")]), .appendElement 1 (.ofList "label" []),
    .appendText 1 "on", .appendElement 1 (.ofList "book" [("ID", "b")])]

theorem run_outline_shelf : ∃ arena, run? shelf = some arena ∧
    Context.Agrees arena.path (Context.new .new 0 arena.tree 1 none).1
      (Context.new .new 7 arena.outline.tree (arena.path 1) (some .standard)).1 := by
  obtain ⟨arena, ran, _, _, _, _, agrees⟩ := run_outline shelf (by simp [shelf, Command.appends])
    (by decide)
  have root : ∀ arena, run? shelf = some arena → arena.Has 1 := by
    rintro _ ⟨⟩
    exact Nat.lt_of_sub_eq_succ rfl
  exact ⟨arena, ran, agrees 1 (root arena ran) .new .new 0 7 none (some .standard) rfl rfl⟩

end Arena
end TreeSelect
