import Mathlib.Computability.Language
import TreeSelect.Proofs.Derivation.Spelling

/-! The language of a pattern without anchors, put together from the languages of its parts. It does
not matter there where a text begins, so the matches of the pattern are the texts of the language,
wherever they stand; between two anchors they are the accepted texts. -/

namespace TreeSelect.Pattern
open Place
open scoped Computability

mutual

/-- No part of the pattern asks where the text begins or ends. -/
def unanchored : Pattern → Bool
  | .empty | .char _ | .oneOf _ | .anyChar => true
  | .atStart | .atEnd => false
  | .sequence patterns | .choice patterns => allUnanchored patterns
  | .repeated inner _ | .capture _ inner => inner.unanchored

def allUnanchored : List Pattern → Bool
  | [] => true
  | first :: rest => first.unanchored && allUnanchored rest

end

/-- The texts of one letter that satisfies the condition. -/
def letterLanguage (admits : Char → Prop) : Language Char :=
  {text | ∃ letter, admits letter ∧ text = [letter]}

mutual

/-- The texts that the pattern matches. An anchor consumes nothing. -/
def language : Pattern → Language Char
  | .empty | .atStart | .atEnd => 1
  | .char letter => {[letter]}
  | .oneOf set => letterLanguage fun letter => set.contains letter = true
  | .anyChar => letterLanguage fun _ => True
  | .sequence items => sequenceLanguage items
  | .choice alternatives => choiceLanguage alternatives
  | .repeated inner .star => inner.language∗
  | .repeated inner .plus => inner.language * inner.language∗
  | .repeated inner .optional => 1 + inner.language
  | .capture _ inner => inner.language

def sequenceLanguage : List Pattern → Language Char
  | [] => 1
  | first :: rest => first.language * sequenceLanguage rest

def choiceLanguage : List Pattern → Language Char
  | [] => 1
  | [last] => last.language
  | preferred :: other :: further => preferred.language + choiceLanguage (other :: further)

end

theorem unanchored_of_mem {patterns : List Pattern} (plain : allUnanchored patterns = true) :
    ∀ pattern ∈ patterns, pattern.unanchored = true := by
  induction patterns with
  | nil => exact List.forall_mem_nil _
  | cons first rest ih =>
    obtain ⟨firstPlain, restPlain⟩ := Bool.and_eq_true_iff.mp plain
    exact List.forall_mem_cons.mpr ⟨firstPlain, ih restPlain⟩

theorem language_sequence (items : List Pattern) :
    (sequence items).language = (items.map language).prod := by
  induction items with
  | nil => rfl
  | cons first rest ih => exact congrArg (first.language * ·) ih

/-- A choice has the texts of all its alternatives. -/
theorem mem_language_choice {alternatives : List Pattern} {alternative : Pattern}
    (offered : alternative ∈ alternatives) {text : List Char}
    (member : text ∈ alternative.language) : text ∈ (choice alternatives).language := by
  induction alternatives with
  | nil => cases offered
  | cons preferred others ih =>
    cases others with
    | nil => exact List.mem_singleton.mp offered ▸ member
    | cons other further =>
      rcases List.mem_cons.mp offered with rfl | later
      · exact .inl member
      · exact .inr (ih later)

theorem mem_letterLanguage {admits : Char → Prop} {text : List Char} :
    text ∈ letterLanguage admits ↔ ∃ letter, admits letter ∧ text = [letter] := Iff.rfl

theorem mem_singleton_language {text word : List Char} :
    text ∈ ({word} : Language Char) ↔ text = word := Iff.rfl

/-- What is matched is a text of the language. -/
theorem mem_language_of_matches {pattern : Pattern} {front back : Place}
    (matched : pattern.Matches front back) (plain : pattern.unanchored = true) :
    ∃ letters ∈ pattern.language, front.Leads letters back := by
  induction matched with
  | @empty place => exact ⟨[], Language.nil_mem_one, .refl place⟩
  | char found =>
    obtain ⟨letter, same, leads⟩ := leads_of_after? found
    exact ⟨[letter], mem_singleton_language.mpr (by rw [eq_of_beq same]), leads⟩
  | oneOf found =>
    obtain ⟨letter, admitted, leads⟩ := leads_of_after? found
    exact ⟨[letter], ⟨letter, admitted, rfl⟩, leads⟩
  | anyChar found =>
    obtain ⟨letter, _, leads⟩ := leads_of_after? found
    exact ⟨[letter], ⟨letter, trivial, rfl⟩, leads⟩
  | atStart | atEnd => cases plain
  | @sequenceDone place => exact ⟨[], Language.nil_mem_one, .refl place⟩
  | sequenceMore _ _ left right =>
    obtain ⟨firstPlain, secondPlain⟩ := Bool.and_eq_true_iff.mp plain
    obtain ⟨letters, member, leads⟩ := left firstPlain
    obtain ⟨others, further, onward⟩ := right secondPlain
    exact ⟨letters ++ others, Language.append_mem_mul member further, leads.trans onward⟩
  | choice offered _ found =>
    obtain ⟨letters, member, leads⟩ := found (unanchored_of_mem plain _ offered)
    exact ⟨letters, mem_language_choice offered member, leads⟩
  | @choiceNone place => exact ⟨[], Language.nil_mem_one, .refl place⟩
  | @starDone inner place => exact ⟨[], Language.nil_mem_kstar _, .refl place⟩
  | @starMore inner _ _ _ _ _ once again =>
    obtain ⟨letters, member, leads⟩ := once plain
    obtain ⟨others, further, onward⟩ := again plain
    have grows : inner.language * inner.language∗ ≤ inner.language∗ := mul_kstar_le_kstar
    exact ⟨letters ++ others, grows (Language.append_mem_mul member further), leads.trans onward⟩
  | plus _ _ once again =>
    obtain ⟨letters, member, leads⟩ := once plain
    obtain ⟨others, further, onward⟩ := again plain
    exact ⟨letters ++ others, Language.append_mem_mul member further, leads.trans onward⟩
  | @absent inner place => exact ⟨[], .inl Language.nil_mem_one, .refl place⟩
  | present _ found =>
    obtain ⟨letters, member, leads⟩ := found plain
    exact ⟨letters, .inr member, leads⟩
  | capture _ found => exact found plain

theorem star_matches_of_flatten {inner : Pattern} {parts : List (List Char)}
    (each : ∀ part ∈ parts, ∀ front back : Place, front.Leads part back → inner.Matches front back)
    {front back : Place} (leads : front.Leads parts.flatten back) :
    (repeated inner .star).Matches front back := by
  induction parts generalizing front with
  | nil =>
    rw [leads.eq_of_nil]
    exact .starDone
  | cons part parts ih =>
    obtain ⟨middle, first, rest⟩ := leads.split
    exact .starMore (each part (List.mem_cons_self ..) front middle first)
      (ih (fun other member => each other (List.mem_cons_of_mem _ member)) rest)

/-- A text of the language is matched wherever it stands. -/
theorem matches_of_mem_language {pattern : Pattern} (plain : pattern.unanchored = true)
    {letters : List Char} (member : letters ∈ pattern.language) {front back : Place}
    (leads : front.Leads letters back) : pattern.Matches front back := by
  induction pattern generalizing letters front back with
  | empty =>
    rw [(Language.mem_one _).mp member] at leads
    rw [leads.eq_of_nil]
    exact .empty
  | char letter =>
    rw [mem_singleton_language.mp member] at leads
    exact .char (after?_of_leads leads (beq_self_eq_true letter))
  | oneOf set =>
    obtain ⟨letter, admitted, rfl⟩ := member
    exact .oneOf (after?_of_leads leads admitted)
  | anyChar =>
    obtain ⟨letter, _, rfl⟩ := member
    exact .anyChar (after?_of_leads leads rfl)
  | atStart | atEnd => cases plain
  | sequenceNil =>
    rw [(Language.mem_one _).mp member] at leads
    rw [leads.eq_of_nil]
    exact .sequenceDone
  | sequenceCons first rest firstMatches restMatches =>
    obtain ⟨firstPlain, restPlain⟩ := Bool.and_eq_true_iff.mp plain
    obtain ⟨left, leftMember, right, rightMember, rfl⟩ := Language.mem_mul.mp member
    obtain ⟨middle, before, behind⟩ := leads.split
    exact .sequenceMore (firstMatches firstPlain leftMember before)
      (restMatches restPlain rightMember behind)
  | choiceNil =>
    rw [(Language.mem_one _).mp member] at leads
    rw [leads.eq_of_nil]
    exact .choiceNone
  | choiceLast last lastMatches =>
    have lastPlain := unanchored_of_mem plain last (List.mem_singleton_self _)
    exact .choice (List.mem_singleton_self _) (lastMatches lastPlain member leads)
  | choiceCons preferred other further preferredMatches otherMatches =>
    obtain ⟨preferredPlain, otherPlain⟩ := Bool.and_eq_true_iff.mp plain
    rcases member with left | right
    · exact .choice (List.mem_cons_self ..) (preferredMatches preferredPlain left leads)
    · exact (otherMatches otherPlain right leads).later
  | repeated inner quantifier innerMatches =>
    have each (parts : List (List Char)) (members : ∀ part ∈ parts, part ∈ inner.language) :
        ∀ part ∈ parts, ∀ front back : Place, front.Leads part back → inner.Matches front back :=
      fun part found _ _ => innerMatches plain (members part found)
    cases quantifier with
    | star =>
      obtain ⟨parts, rfl, members⟩ := Language.mem_kstar.mp member
      exact star_matches_of_flatten (each parts members) leads
    | plus =>
      obtain ⟨first, once, others, again, rfl⟩ := Language.mem_mul.mp member
      obtain ⟨parts, rfl, members⟩ := Language.mem_kstar.mp again
      obtain ⟨middle, before, behind⟩ := leads.split
      exact .plus (innerMatches plain once before)
        (star_matches_of_flatten (each parts members) behind)
    | optional =>
      rcases member with none | once
      · rw [(Language.mem_one _).mp none] at leads
        rw [leads.eq_of_nil]
        exact .absent
      · exact .present (innerMatches plain once leads)
  | capture name inner innerMatches => exact .capture (innerMatches plain member leads)

/-- The matches of a pattern without anchors are the texts of its language. -/
theorem matches_iff_mem_language {pattern : Pattern} (plain : pattern.unanchored = true)
    (front back : Place) :
    pattern.Matches front back ↔ ∃ letters ∈ pattern.language, front.Leads letters back :=
  ⟨fun matched => mem_language_of_matches matched plain,
    fun ⟨_, member, leads⟩ => matches_of_mem_language plain member leads⟩

/-- The same for patterns one after another, the last of which asks for the end of the text. -/
theorem matches_items_iff {items : List Pattern} (plain : ∀ item ∈ items, item.unanchored = true)
    (front back : Place) :
    (sequence (items ++ [.atEnd])).Matches front back ↔
      back.rest = [] ∧ ∃ letters ∈ (items.map language).prod, front.Leads letters back := by
  induction items generalizing front with
  | nil =>
    constructor
    · intro matched
      cases matched with
      | sequenceMore last done =>
        cases done
        cases last with
        | atEnd stop => exact ⟨stop, [], Language.nil_mem_one, .refl _⟩
    · rintro ⟨stop, letters, member, leads⟩
      rw [(Language.mem_one _).mp member] at leads
      rw [leads.eq_of_nil] at stop ⊢
      exact .sequenceMore (.atEnd stop) .sequenceDone
  | cons item items ih =>
    have ⟨itemPlain, othersPlain⟩ := List.forall_mem_cons.mp plain
    rw [List.map_cons, List.prod_cons]
    constructor
    · intro matched
      cases matched with
      | sequenceMore left right =>
        obtain ⟨letters, member, leads⟩ := mem_language_of_matches left itemPlain
        obtain ⟨stop, others, further, onward⟩ := (ih othersPlain _).mp right
        exact ⟨stop, letters ++ others, Language.append_mem_mul member further,
          leads.trans onward⟩
    · rintro ⟨stop, letters, member, leads⟩
      obtain ⟨left, leftMember, right, rightMember, rfl⟩ := Language.mem_mul.mp member
      obtain ⟨middle, before, behind⟩ := leads.split
      exact .sequenceMore (matches_of_mem_language itemPlain leftMember before)
        ((ih othersPlain _).mpr ⟨stop, right, rightMember, behind⟩)

/-- Between the two anchors stands the whole text. -/
theorem accepts_anchored_iff {items : List Pattern}
    (plain : ∀ item ∈ items, item.unanchored = true) (text : List Char) :
    (sequence (.atStart :: items ++ [.atEnd])).Accepts text ↔
      text ∈ (items.map language).prod := by
  constructor
  · rintro ⟨stop, matched, done⟩
    cases matched with
    | sequenceMore left right =>
      cases left
      obtain ⟨_, letters, member, leads⟩ := (matches_items_iff plain _ _).mp right
      have whole : text = letters ++ stop.rest := leads.rest
      rw [done, List.append_nil] at whole
      exact whole ▸ member
  · intro member
    refine ⟨⟨Text.width text, []⟩, .sequenceMore (.atStart rfl) ?_, rfl⟩
    exact (matches_items_iff plain _ _).mpr
      ⟨rfl, text, member, (List.append_nil text).symm, by simp [Place.start]⟩

end TreeSelect.Pattern
