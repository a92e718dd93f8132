import Descent.Proofs.Script.Shape
import Descent.Proofs.Transcript

/-!
Reading an outline back. The lines of an outline tell the levels and labels of all trees, and these
tell the trees up to one thing: a leaf and a node without operands are shown by the same line. The
grammar never puts the two at the same place. Main statement: two scripts have the same outline only
if they have the same trees.
-/

namespace Descent

open Descent.Parser Text

namespace Script

/-- Without a space or a line feed, so that neither an indentation nor a line ends in it. -/
def IsLabel (text : String) : Prop := ∀ char ∈ text.toList, char ≠ ' ' ∧ char ≠ '\n'

theorem outline_line_to_list (level : Nat × String) :
    (outlineLine level).toList = List.replicate (2 * level.1) ' ' ++ level.2.toList := by
  rw [outlineLine, String.toList_append, String.toList_ofList]

theorem outline_line_plain {level : Nat × String} (label : IsLabel level.2) :
    ∀ char ∈ (outlineLine level).toList, char ≠ '\n' := by
  intro char member
  rw [outline_line_to_list, List.mem_append] at member
  rcases member with indentation | inside
  · rw [(List.mem_replicate.mp indentation).2]
    decide
  · exact (label char inside).2

theorem outline_line_injective {level other : Nat × String} (label : IsLabel level.2)
    (labelOther : IsLabel other.2) (same : outlineLine level = outlineLine other) :
    level = other := by
  have chars := congrArg String.toList same
  rw [outline_line_to_list, outline_line_to_list] at chars
  have stops {text : String} (label : IsLabel text) :
      ∀ char ∈ text.toList.head?, (char == ' ') = false := by
    intro char first
    exact beq_false_of_ne (label char (List.mem_of_head? first)).1
  obtain ⟨indentation, text⟩ := run_injective (· == ' ') (by simp) (stops label)
    (by simp) (stops labelOther) chars
  have depth : level.1 = other.1 := by
    have lengths := congrArg List.length indentation
    simp only [List.length_replicate] at lengths
    omega
  exact Prod.ext depth (String.toList_inj.mp text)

theorem lines_injective {levels others : List (Nat × String)}
    (labels : ∀ level ∈ levels, IsLabel level.2) (labelsOther : ∀ level ∈ others, IsLabel level.2)
    (same : levels.map outlineLine = others.map outlineLine) : levels = others := by
  induction levels generalizing others with
  | nil => exact (List.map_eq_nil_iff.mp same.symm).symm
  | cons level levels ih =>
      cases others with
      | nil => simp at same
      | cons other others =>
          obtain ⟨label, following⟩ := List.forall_mem_cons.mp labels
          obtain ⟨labelOther, followingOthers⟩ := List.forall_mem_cons.mp labelsOther
          obtain ⟨line, lines⟩ := List.cons.inj same
          rw [outline_line_injective label labelOther line, ih following followingOthers lines]

namespace Tree

/-- What a tree shows in its line. -/
def label : Tree → String
  | leaf scalar => scalar.text
  | node operator _ => operator

mutual

/-- The tree with a node for every leaf: as much of it as levels and labels tell. -/
def skeleton : Tree → Tree
  | leaf scalar => node scalar.text []
  | node operator operands => node operator (skeletons operands)

def skeletons : List Tree → List Tree
  | [] => []
  | tree :: trees => skeleton tree :: skeletons trees

end

theorem skeletons_eq_map (trees : List Tree) : skeletons trees = trees.map skeleton := by
  induction trees with
  | nil => rfl
  | cons tree trees ih => rw [skeletons, ih, List.map_cons]

theorem levels_eq (depth : Nat) (tree : Tree) :
    levels depth tree = (depth, tree.label) :: levelsAll (depth + 1) tree.operands := by
  cases tree with
  | leaf scalar => rfl
  | node operator operands => rfl

theorem skeleton_eq (tree : Tree) : tree.skeleton = node tree.label (skeletons tree.operands) := by
  cases tree with
  | leaf scalar => rfl
  | node operator operands => rfl

mutual

theorem depth_le_levels (depth : Nat) : (tree : Tree) →
    ∀ level ∈ levels depth tree, depth ≤ level.1
  | leaf scalar => by simp [levels]
  | node operator operands => by
      rw [levels, List.forall_mem_cons]
      refine ⟨Nat.le_refl depth, ?_⟩
      intro level member
      exact Nat.le_of_succ_le (depth_le_levels_all (depth + 1) operands level member)

theorem depth_le_levels_all (depth : Nat) : (trees : List Tree) →
    ∀ level ∈ levelsAll depth trees, depth ≤ level.1
  | [] => by simp [levelsAll]
  | tree :: trees => by
      rw [levelsAll, List.forall_mem_append]
      exact ⟨depth_le_levels depth tree, depth_le_levels_all depth trees⟩

end

/-- Operands end where a line stands as high as their node. -/
theorem levels_split {depth : Nat} {operands trees operandsOther others : List Tree}
    (same : levelsAll (depth + 1) operands ++ levelsAll depth trees =
      levelsAll (depth + 1) operandsOther ++ levelsAll depth others) :
    levelsAll (depth + 1) operands = levelsAll (depth + 1) operandsOther ∧
      levelsAll depth trees = levelsAll depth others := by
  have deeper (trees : List Tree) :
      ∀ level ∈ levelsAll (depth + 1) trees, decide (depth < level.1) = true := by
    intro level member
    exact decide_eq_true (depth_le_levels_all (depth + 1) trees level member)
  have ended (trees : List Tree) :
      ∀ level ∈ (levelsAll depth trees).head?, decide (depth < level.1) = false := by
    cases trees with
    | nil => simp [levelsAll]
    | cons tree trees => simp [levelsAll, levels_eq]
  exact run_injective _ (deeper operands) (ended trees) (deeper operandsOther) (ended others) same

theorem levels_all_eq_nil {depth : Nat} {trees : List Tree} (none : levelsAll depth trees = []) :
    trees = [] := by
  cases trees with
  | nil => rfl
  | cons tree trees => simp [levelsAll, levels_eq] at none

mutual

theorem skeleton_of_levels (depth : Nat) : (tree other : Tree) →
    levels depth tree = levels depth other → tree.skeleton = other.skeleton
  | leaf scalar, other, same => by
      rw [levels_eq depth other] at same
      obtain ⟨line, below⟩ := List.cons.inj same
      rw [skeleton_eq other, levels_all_eq_nil below.symm, ← (Prod.mk.inj line).2]
      rfl
  | node operator operands, other, same => by
      rw [levels_eq depth other] at same
      obtain ⟨line, below⟩ := List.cons.inj same
      have inner := skeletons_of_levels_all (depth + 1) operands other.operands below
      rw [skeleton_eq other, ← inner, ← (Prod.mk.inj line).2]
      rfl

theorem skeletons_of_levels_all (depth : Nat) : (trees others : List Tree) →
    levelsAll depth trees = levelsAll depth others → skeletons trees = skeletons others
  | [], others, same => by rw [levels_all_eq_nil same.symm]
  | tree :: trees, [], same => absurd (levels_all_eq_nil same) (List.cons_ne_nil _ _)
  | tree :: trees, other :: others, same => by
      rw [levelsAll, levelsAll, levels_eq, levels_eq] at same
      obtain ⟨line, below⟩ := List.cons.inj same
      obtain ⟨operands, following⟩ := levels_split below
      have here : levels depth tree = levels depth other := by
        rw [levels_eq, levels_eq, line, operands]
      rw [skeletons, skeletons, skeleton_of_levels depth tree other here,
        skeletons_of_levels_all depth trees others following]

end

end Tree

def Scalar.Readable : Scalar → Prop
  | number _ => True
  | name text => IsVariable text

theorem number_text (value : Nat) : (Scalar.number value).text.toList = Nat.toDigits 10 value :=
  Nat.toList_repr

theorem number_text_ne_name {value : Nat} {text : String} (proper : IsVariable text) :
    (Scalar.number value).text ≠ text := by
  intro same
  obtain ⟨-, first, others, letters, lower, -⟩ := proper
  obtain ⟨digit, digits, written, isDigit, -⟩ := digits_visible value
  rw [← same, number_text, written] at letters
  rw [← (List.cons.inj letters).1, digit_not_lower isDigit] at lower
  contradiction

theorem scalar_text_injective {scalar other : Scalar} (readable : scalar.Readable)
    (readableOther : other.Readable) (same : scalar.text = other.text) : scalar = other := by
  cases scalar with
  | number value =>
      cases other with
      | number next =>
          have digits := congrArg String.toList same
          rw [number_text, number_text] at digits
          have values := congrArg decimalValue digits
          rw [decimal_value_digits, decimal_value_digits] at values
          rw [values]
      | name text => exact absurd same (number_text_ne_name readableOther)
  | name text =>
      cases other with
      | number value => exact absurd same.symm (number_text_ne_name readable)
      | name text => exact congrArg Scalar.name same

namespace Tree

/-- All operands but the first are nodes. -/
def branching (operator : String) : Bool := ["if", "fn"].contains operator

/-- Whether the tree suits a place for leaves or a place for nodes. At the one a node has operands,
and at the other there is no leaf. -/
inductive Placed : Bool → Tree → Prop where
  | leaf {scalar : Scalar} (readable : scalar.Readable) : Placed true (leaf scalar)
  | childless (operator : String) : Placed false (node operator [])
  | node {place : Bool} {operator : String} {first : Tree} {others : List Tree}
      (leading : Placed true first)
      (following : ∀ tree ∈ others, Placed (!branching operator) tree) :
      Placed place (node operator (first :: others))

theorem placed_name {text : String} (proper : IsVariable text) : Placed true (name text) :=
  .leaf proper

theorem Placed.node_anywhere {operator : String} {operands : List Tree}
    (placed : Placed true (Tree.node operator operands)) (place : Bool) :
    Placed place (Tree.node operator operands) := by
  cases placed with
  | node leading following => exact .node leading following

theorem map_skeleton_injective {trees others : List Tree}
    (injective : ∀ tree ∈ trees, ∀ other ∈ others, tree.skeleton = other.skeleton → tree = other)
    (same : trees.map skeleton = others.map skeleton) : trees = others := by
  induction trees generalizing others with
  | nil => exact (List.map_eq_nil_iff.mp same.symm).symm
  | cons tree trees ih =>
      cases others with
      | nil => simp at same
      | cons other others =>
          obtain ⟨here, following⟩ := List.cons.inj same
          have equal := injective tree List.mem_cons_self other List.mem_cons_self here
          have more := ih (fun tree member next memberNext => injective tree
            (List.mem_cons_of_mem _ member) next (List.mem_cons_of_mem _ memberNext)) following
          rw [equal, more]

theorem placed_injective {place : Bool} {tree other : Tree} (placed : Placed place tree)
    (placedOther : Placed place other) (same : tree.skeleton = other.skeleton) :
    tree = other := by
  induction placed generalizing other with
  | leaf readable =>
      cases placedOther with
      | leaf readableOther =>
          have text := (Tree.node.inj same).1
          rw [scalar_text_injective readable readableOther text]
      | node leading following => simp [skeleton, skeletons] at same
  | childless operator =>
      cases placedOther with
      | childless name => rw [(Tree.node.inj same).1]
      | node leading following => simp [skeleton, skeletons] at same
  | node leading following ih ihFollowing =>
      cases placedOther with
      | leaf readableOther => simp [skeleton, skeletons] at same
      | childless name => simp [skeleton, skeletons] at same
      | node leadingOther followingOther =>
          obtain ⟨rfl, operands⟩ := Tree.node.inj same
          obtain ⟨first, others⟩ := List.cons.inj operands
          rw [skeletons_eq_map, skeletons_eq_map] at others
          have equal := ih leadingOther first
          have more := map_skeleton_injective (fun tree member next memberNext =>
            ihFollowing tree member (followingOther next memberNext)) others
          rw [equal, more]

end Tree

/-- Blocks are nodes, and all other trees stand at places for leaves. -/
def Kind.allowsLeaf : Kind → Bool
  | expression | statement => true
  | block => false

theorem placed_of_shaped {kind : Kind} {tree : Tree} (shaped : Shaped kind tree) :
    Tree.Placed kind.allowsLeaf tree := by
  induction shaped with
  | number bounded => exact .leaf trivial
  | name proper => exact Tree.placed_name proper
  | binary arithmetic left right ihLeft ihRight =>
      refine .node ihLeft ?_
      simp only [List.mem_cons, List.not_mem_nil, or_false] at arithmetic
      rcases arithmetic with rfl | rfl | rfl | rfl <;> exact List.forall_mem_singleton.mpr ihRight
  | call proper expressions ih => exact .node (Tree.placed_name proper) ih
  | oneBranch test first ihTest ihFirst =>
      exact .node ihTest (List.forall_mem_singleton.mpr ihFirst)
  | twoBlocks test first second ihTest ihFirst ihSecond =>
      exact .node ihTest (List.forall_mem_cons.mpr ⟨ihFirst, List.forall_mem_singleton.mpr ihSecond⟩)
  | elseIf test first second ihTest ihFirst ihSecond =>
      have branch := ihSecond.node_anywhere false
      exact .node ihTest (List.forall_mem_cons.mpr ⟨ihFirst, List.forall_mem_singleton.mpr branch⟩)
  | @block statements inner ih =>
      cases statements with
      | nil => exact .childless "block"
      | cons statement statements =>
          obtain ⟨first, others⟩ := List.forall_mem_cons.mp ih
          exact .node first others
  | expression inner ih => exact ih
  | assignment proper inner ih =>
      exact .node (Tree.placed_name proper) (List.forall_mem_singleton.mpr ih)
  | @definition text names body proper listed inner ih =>
      have parameters : Tree.Placed false (.node "params" (names.map .name)) := by
        cases names with
        | nil => exact .childless "params"
        | cons name names =>
            obtain ⟨first, others⟩ := List.forall_mem_cons.mp listed
            refine .node (Tree.placed_name first) ?_
            intro tree member
            obtain ⟨next, known, rfl⟩ := List.mem_map.mp member
            exact Tree.placed_name (others next known)
      exact .node (Tree.placed_name proper)
        (List.forall_mem_cons.mpr ⟨parameters, List.forall_mem_singleton.mpr ih⟩)

theorem label_of_known {tree : Tree} (known : tree.Known) : IsLabel tree.label := by
  intro char member
  have wordlike (passes : isWordChar char = true) : char ≠ ' ' ∧ char ≠ '\n' := by
    constructor
    · rintro rfl
      contradiction
    · rintro rfl
      contradiction
  cases tree with
  | node operator operands =>
      have checked : ∀ operator ∈ operators,
          operator.toList.all (fun char => decide (char ≠ ' ' ∧ char ≠ '\n')) = true := by decide
      exact of_decide_eq_true (List.all_eq_true.mp (checked operator known) char member)
  | leaf scalar =>
      cases scalar with
      | number value =>
          rw [Tree.label, number_text] at member
          exact wordlike (word_char (.inr (all_digits value char member)))
      | name text =>
          obtain ⟨-, first, others, letters, lower, passes⟩ := known
          rw [Tree.label, Scalar.text, letters, List.mem_cons] at member
          rcases member with rfl | inside
          · exact wordlike (word_char (.inl lower))
          · exact wordlike (passes char inside)

namespace Tree

mutual

theorem levels_labels (depth : Nat) : (tree : Tree) →
    (levels depth tree).map Prod.snd = tree.preorder.map label
  | leaf scalar => rfl
  | node operator operands => by
      rw [levels, preorder, List.map_cons, List.map_cons, levels_all_labels (depth + 1) operands]
      rfl

theorem levels_all_labels (depth : Nat) : (trees : List Tree) →
    (levelsAll depth trees).map Prod.snd = (preorders trees).map label
  | [] => rfl
  | tree :: trees => by
      rw [levelsAll, preorders, List.map_append, List.map_append, levels_labels depth tree,
        levels_all_labels depth trees]

end

end Tree

theorem labels_of_shaped {trees : List Tree} (shaped : ∀ tree ∈ trees, Shaped .statement tree)
    (depth : Nat) : ∀ level ∈ Tree.levelsAll depth trees, IsLabel level.2 := by
  intro level member
  have shown : level.2 ∈ (Tree.levelsAll depth trees).map Prod.snd := List.mem_map_of_mem member
  rw [Tree.levels_all_labels] at shown
  obtain ⟨below, inside, same⟩ := List.mem_map.mp shown
  obtain ⟨tree, statement, deeper⟩ := Tree.mem_preorders.mp inside
  rw [← same]
  exact label_of_known (known_of_shaped (shaped tree statement) below deeper)

theorem outline_plain {trees : List Tree} (shaped : ∀ tree ∈ trees, Shaped .statement tree) :
    ∀ line ∈ outline trees, ∀ char ∈ line.toList, char ≠ '\n' := by
  intro line member
  obtain ⟨level, shown, rfl⟩ := List.mem_map.mp member
  exact outline_line_plain (labels_of_shaped shaped 0 level shown)

/-- The outline of statements that the grammar can make tells the statements. -/
theorem outline_injective {trees others : List Tree}
    (shaped : ∀ tree ∈ trees, Shaped .statement tree)
    (shapedOthers : ∀ tree ∈ others, Shaped .statement tree)
    (same : Transcript.text (outline trees) = Transcript.text (outline others)) :
    trees = others := by
  have lines := Transcript.text_injective (outline_plain shaped) (outline_plain shapedOthers) same
  have levels := lines_injective (labels_of_shaped shaped 0) (labels_of_shaped shapedOthers 0) lines
  have skeletons := Tree.skeletons_of_levels_all 0 trees others levels
  rw [Tree.skeletons_eq_map, Tree.skeletons_eq_map] at skeletons
  refine Tree.map_skeleton_injective ?_ skeletons
  intro tree member other memberOther
  exact Tree.placed_injective (placed_of_shaped (shaped tree member))
    (placed_of_shaped (shapedOthers other memberOther))

theorem display_of_parsed {source : List Char} {trees : List Tree}
    (parsed : parseProgram source = .ok trees) :
    (display source).outputText = Transcript.text (outline trees) := by
  rw [display, parsed]
  rfl

theorem shaped_of_parsed {source : List Char} {trees : List Tree}
    (parsed : parseProgram source = .ok trees) : ∀ tree ∈ trees, Shaped .statement tree := by
  obtain ⟨tokens, reads, phrases⟩ := derives_of_parse_program parsed
  exact shapes_of_derives phrases reads.holds

theorem outline_determines_script {first second : List Char}
    (accepted : ∃ trees, parseProgram first = .ok trees)
    (acceptedSecond : ∃ trees, parseProgram second = .ok trees) :
    (display first).outputText = (display second).outputText ↔
      parseProgram first = parseProgram second := by
  obtain ⟨trees, parsed⟩ := accepted
  obtain ⟨others, parsedSecond⟩ := acceptedSecond
  rw [display_of_parsed parsed, display_of_parsed parsedSecond, parsed, parsedSecond,
    Except.ok.injEq]
  constructor
  · exact outline_injective (shaped_of_parsed parsed) (shaped_of_parsed parsedSecond)
  · rintro rfl
    rfl

/-- A condition named like an empty block is shown like one, and is not taken for one. -/
theorem block_is_told_from_its_namesake :
    parseProgram "if(block){}".toList =
        .ok [.node "if" [.name "block", .node "block" []]] ∧
      parseProgram "if(block){block;}".toList =
        .ok [.node "if" [.name "block", .node "block" [.name "block"]]] ∧
      (display "if(block){}".toList).outputText ≠
        (display "if(block){block;}".toList).outputText := by
  have run : advance (parser .statement) "if(block){}".toList =
      ([.node "if" [.name "block", .node "block" []]], []) := by decide +kernel
  have rerun : advance (parser .statement) "if(block){block;}".toList =
      ([.node "if" [.name "block", .node "block" [.name "block"]]], []) := by decide +kernel
  have empty : parseProgram "if(block){}".toList =
      .ok [.node "if" [.name "block", .node "block" []]] := by
    rw [parse_program_eq, run]
    rfl
  have filled : parseProgram "if(block){block;}".toList =
      .ok [.node "if" [.name "block", .node "block" [.name "block"]]] := by
    rw [parse_program_eq, rerun]
    rfl
  refine ⟨empty, filled, ?_⟩
  intro alike
  have same := (outline_determines_script ⟨_, empty⟩ ⟨_, filled⟩).mp alike
  rw [empty, filled] at same
  simp [Tree.name] at same

end Script

end Descent
