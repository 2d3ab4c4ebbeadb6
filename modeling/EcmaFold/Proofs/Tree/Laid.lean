import EcmaFold.Proofs.Tree.Lays

/-!
Trees whose layout is scanned as what their slots ask for. What may stand right behind a node depends on its
kind: an operand may be increased, called or accessed, everything else ends before a blank, a bracket or a
separator.
-/

namespace EcmaFold

/-- What may stand right behind a node of a kind; a target ends in a space. -/
def Kind.admits : Kind → Bytes → Bool
  | program => fun _ => false
  | target => fun _ => true
  | lhs | member => calmOr [0x2B, 0x2D]
  | primary | instantiation | arguments | modifier _ => calmOr [0x2B, 0x2D, 0x2E]
  | _ => calm

namespace Tree

/-- What may stand right behind a tree. A point may not stand behind a number that would take it. -/
def Admits : {shape : Shape} → Tree shape → Bytes → Prop
  | .node kind, tree, rest => kind.admits rest = true ∧ (tree.needsSpace = true → rest.head? ≠ some 0x2E)
  | .list kind, _, rest => kind.admits rest = true ∧ kind ≠ .primary
  | .optional kind, _, rest => kind.admits rest = true ∧ kind ≠ .primary

theorem kind_of_needsSpace {kind : Kind} {node : Node kind} (needs : node.needsSpace = true) : kind = .primary := by
  cases node <;> first | rfl | cases needs

theorem admits_of_kind {kind : Kind} {node : Node kind} {rest : Bytes} (admits : kind.admits rest = true)
    (other : kind ≠ .primary) : node.Admits rest :=
  ⟨admits, fun needs => absurd (kind_of_needsSpace needs) other⟩

/-- The layout of every node of the tree is scanned as its slots, in front of what it admits. -/
def Laid {shape : Shape} (tree : Tree shape) : Prop :=
  ∀ depth, List.Forall₂ (fun slots pieces => ∀ rest, tree.Admits rest → ∀ newline, Lays slots pieces rest newline)
    tree.slots (tree.layout depth)

theorem Laid.before {kind : Kind} {node : Node kind} (laid : node.Laid) (depth : Nat) {rest : Bytes}
    (admits : node.Admits rest) (newline : Bool) : Lays node.yield (node.layout depth).flatten rest newline := by
  have single := laid depth
  rw [slots_node, layout_node] at single
  exact (List.forall₂_cons.mp single).1 rest admits newline

theorem Laid.node {kind : Kind} {node : Node kind} (laid : node.Laid) (depth : Nat) (other : kind ≠ .primary) :
    LaysBefore kind.admits node.yield (node.layout depth).flatten :=
  fun _ admits newline => laid.before depth (admits_of_kind admits other) newline

theorem Laid.list {kind : Kind} {list : Tree (.list kind)} (laid : list.Laid) (depth : Nat) (other : kind ≠ .primary) :
    List.Forall₂ (LaysBefore kind.admits) list.slots (list.layout depth) :=
  (laid depth).imp fun _ _ lays rest admits newline => lays rest ⟨admits, other⟩ newline

theorem Laid.of_present {kind : Kind} {node : Node kind} (laid : (Tree.present node).Laid) (other : kind ≠ .primary) :
    node.Laid :=
  fun depth => (laid depth).imp fun _ _ lays rest admits => lays rest ⟨admits.1, other⟩

theorem Laid.present {kind : Kind} {node : Node kind} (laid : (Tree.present node).Laid) (depth : Nat)
    (other : kind ≠ .primary) : LaysBefore kind.admits node.yield (node.layout depth).flatten :=
  (laid.of_present other).node depth other

theorem Laid.optional {kind : Kind} {node : Tree (.optional kind)} (laid : node.Laid) (depth : Nat)
    (other : kind ≠ .primary) : List.Forall₂ (LaysBefore kind.admits) node.slots (node.layout depth) :=
  (laid depth).imp fun _ _ lays rest admits newline => lays rest ⟨admits, other⟩ newline

theorem laid_single {kind : Kind} {node : Node kind} {slots : List Slot} {pieces : List Piece}
    (lays : ∀ rest, node.Admits rest → ∀ newline, Lays slots pieces rest newline) :
    List.Forall₂ (fun slots pieces => ∀ rest, node.Admits rest → ∀ newline, Lays slots pieces rest newline)
      [slots] [pieces] :=
  .cons lays .nil

/-- A node that is laid out as another one and admits no more than it. -/
theorem Laid.wrapped {kind kind' : Kind} {node : Node kind} {outer : Node kind'} (laid : node.Laid)
    (slots : outer.slots = node.slots) (layout : ∀ depth, outer.layout depth = node.layout depth)
    (admits : ∀ rest, outer.Admits rest → node.Admits rest) : outer.Laid := by
  intro depth
  rw [slots, layout]
  exact (laid depth).imp fun _ _ lays rest outside => lays rest (admits rest outside)

theorem laid_cons {kind : Kind} {head : Node kind} {tail : Tree (.list kind)} (laidHead : head.Laid)
    (laidTail : tail.Laid) : (cons head tail).Laid := by
  intro depth
  refine List.rel_append ((laidHead depth).imp ?_) ((laidTail depth).imp ?_)
  · exact fun _ _ lays rest admits => lays rest (admits_of_kind admits.1 admits.2)
  · exact fun _ _ lays rest admits => lays rest admits

theorem laid_present {kind : Kind} {node : Node kind} (laid : node.Laid) : (Tree.present node).Laid := by
  intro depth
  exact (laid depth).imp fun _ _ lays rest admits => lays rest (admits_of_kind admits.1 admits.2)

theorem flatMap_layout_present {kind : Kind} (node : Node kind) (depth : Nat) (f : List Piece → List Piece) :
    ((present node).layout depth).flatMap f = f (node.layout depth).flatten := by
  rw [show (present node).layout depth = [(node.layout depth).flatten] from layout_node node depth,
    List.flatMap_singleton]

end Tree

end EcmaFold
