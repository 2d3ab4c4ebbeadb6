import EcmaFold.Proofs.LongestPart
import EcmaFold.Proofs.SourceAnswers

/-!
What the nodes of a program cover. Every node but the program covers the source from the beginning of its first token to
the end of its last one. Along the route of a node its children stand in a row, so they lie inside it and one behind the
other.
-/

namespace EcmaFold

/-! Cursors on a route -/

namespace Cursor

variable {c between after : Cursor}

theorem Leads.to_advance (leads : c.Leads between) : c.Leads between.advance := by
  refine leads.trans ?_
  obtain ⟨stop, _ | ⟨next, rest⟩⟩ := between
  · exact .refl _
  · exact .next (.refl _)

theorem leads_behindCommas (stop : Nat) (rest : List Lexeme) : Leads ⟨stop, rest⟩ (behindCommas stop rest) := by
  fun_induction behindCommas stop rest with
  | case1 _ _ span rest ih => exact .next ih
  | case2 => exact .refl _

theorem Leads.to_skipCommas (leads : c.Leads between) : c.Leads between.skipCommas :=
  leads.trans (leads_behindCommas between.stop between.rest)

theorem Leads.to_follow {α : Type} (leads : c.Leads between) (route : Route α) : c.Leads (route.follow between).2 := by
  induction route generalizing between with
  | done value => exact leads
  | pass next ih => exact ih leads.to_advance
  | passCommas next ih => exact ih leads.to_skipCommas
  | start next ih => exact ih _ leads
  | stop next ih => exact ih _ leads

theorem Leads.ne_nil (leads : c.Leads after) (nonempty : after.rest ≠ []) : c.rest ≠ [] :=
  fun empty => nonempty (List.suffix_nil.mp (empty ▸ leads.suffix))

theorem length_advance (nonempty : c.rest ≠ []) : c.advance.rest.length < c.rest.length := by
  obtain ⟨stop, _ | ⟨next, rest⟩⟩ := c
  · exact absurd rfl nonempty
  · exact Nat.lt_succ_self _

theorem Past.leads (past : c.Past between) (leads : between.Leads after) : c.Past after :=
  fun nonempty => Nat.lt_of_le_of_lt leads.length_le (past (leads.ne_nil nonempty))

theorem Leads.past (leads : c.Leads between) (past : between.Past after) : c.Past after :=
  fun nonempty => Nat.lt_of_lt_of_le (past nonempty) leads.length_le

theorem past_advance (c : Cursor) : c.Past c.advance :=
  fun nonempty => length_advance ((Leads.refl c).to_advance.ne_nil nonempty)

theorem Leads.past_steps (leads : c.Leads between) (count : Nat) :
    c.Past ((Route.steps (count + 1)).follow between).2 :=
  leads.past ((past_advance between).leads ((Leads.refl _).to_follow _))

theorem Past.to_follow {α : Type} (past : c.Past between) (route : Route α) : c.Past (route.follow between).2 :=
  past.leads ((Leads.refl _).to_follow route)

end Cursor

/-! Nodes in a row -/

/-- The nodes stand one behind the other between two cursors, each from the beginning of a token to the end of one. -/
inductive AnyNode.InRow : Cursor → List AnyNode → Cursor → Prop where
  | none {c after : Cursor} (leads : c.Leads after) : InRow c [] after
  | next {c first last after : Cursor} {any : AnyNode} {more : List AnyNode} (before : c.Leads first)
      (across : first.Leads last) (span : any.node.span = ⟨first.offset, last.stop⟩) (rest : InRow last more after) :
      InRow c (any :: more) after

namespace AnyNode.InRow

variable {c between after : Cursor} {nodes more : List AnyNode}

theorem before (leads : c.Leads between) (row : InRow between nodes after) : InRow c nodes after := by
  cases row with
  | none on => exact none (leads.trans on)
  | next on across span rest => exact next (leads.trans on) across span rest

theorem append (first : InRow c nodes between) (second : InRow between more after) : InRow c (nodes ++ more) after := by
  induction first with
  | none leads => exact before leads second
  | next on across span _ ih => exact next on across span (ih second)

theorem behind (row : InRow c nodes between) (leads : between.Leads after) : InRow c nodes after := by
  rw [← List.append_nil nodes]
  exact row.append (none leads)

theorem leads (row : InRow c nodes after) : c.Leads after := by
  induction row with
  | none leads => exact leads
  | next on across _ _ ih => exact on.trans (across.trans ih)

/-- What stands in a row lies between its ends. -/
theorem inside {source : Bytes} (row : InRow c nodes after) (of : c.Of source) (nonempty : after.rest ≠ []) :
    ∀ any ∈ nodes, c.offset ≤ any.node.span.start ∧ any.node.span.stop ≤ after.stop := by
  induction row with
  | none => exact List.forall_mem_nil _
  | @next c first last after any more before across span rest ih =>
    have left := rest.leads.ne_nil nonempty
    have here := of.leads before (across.ne_nil left)
    have there := here.leads across left
    refine List.forall_mem_cons.mpr ⟨?_, fun other member => ?_⟩
    · rw [span]
      exact ⟨of.offset_le before (across.ne_nil left), there.stop_le rest.leads nonempty⟩
    · obtain ⟨start, stop⟩ := ih there nonempty other member
      exact ⟨Nat.le_trans (of.offset_le (before.trans across) left) start, stop⟩

/-- What stands in a row stands one behind the other. -/
theorem pairwise {source : Bytes} (row : InRow c nodes after) (of : c.Of source) (nonempty : after.rest ≠ []) :
    nodes.Pairwise fun any other => any.node.span.stop ≤ other.node.span.start := by
  induction row with
  | none => exact .nil
  | @next c first last after any more before across span rest ih =>
    have left := rest.leads.ne_nil nonempty
    have there := of.leads (before.trans across) left
    refine List.pairwise_cons.mpr ⟨fun other member => ?_, ih there nonempty⟩
    rw [span]
    exact Nat.le_trans there.stop_le_offset (rest.inside there nonempty other member).1

end AnyNode.InRow

theorem Tier.operand_ne_program (tier : Tier) : tier.operand ≠ .program := by
  cases tier <;> exact Kind.noConfusion

namespace Tree

open AnyNode

/-! Exact nodes -/

/-- The operations of a tier, from the end of an operand on: each operator stands behind the operand before it and
before its own. -/
def OperatorsFrom : (stop : Nat) → {shape : Shape} → Tree shape → Prop
  | stop, _, cons (operation _ _ offset operand) rest =>
    stop ≤ offset ∧ offset < operand.span.start ∧ rest.OperatorsFrom operand.span.stop
  | _, _, _ => True

/-- Each operator of a node stands between its operands. -/
def OperatorsBetween : {shape : Shape} → Tree shape → Prop
  | _, level _ _ head operations => operations.OperatorsFrom head.span.stop
  | _, _ => True

/-- A node covers exactly its tokens: it begins with a token and ends with one, its children lie inside it one behind
the other, and its operators between them. A program may be empty, and ends where the next token would begin. -/
structure Exact (source : Bytes) (shape : Shape) (node : Tree shape) : Prop where
  ordered : node.span.start ≤ node.span.stop
  nonempty : shape ≠ .node .program → node.span.start < node.span.stop
  starts : shape ≠ .node .program →
    ∃ lexeme ∈ Lexeme.scan source, lexeme.At source ∧ node.span.start = lexeme.span.start
  stops : shape ≠ .node .program → ∃ lexeme ∈ Lexeme.scan source, lexeme.At source ∧ node.span.stop = lexeme.span.stop
  inside : ∀ child ∈ node.children, node.span.start ≤ child.node.span.start ∧ child.node.span.stop ≤ node.span.stop
  apart : node.children.Pairwise fun child next => child.node.span.stop ≤ next.node.span.start
  operators : node.OperatorsBetween

/-- A node that covers what lies between two cursors is exact. -/
theorem exact_of_row {source : Bytes} {shape : Shape} {node : Tree shape} {c after : Cursor} (of : c.Of source)
    (nonempty : after.rest ≠ []) (past : c.Past after) (span : node.span = ⟨c.offset, after.stop⟩)
    (row : InRow c node.children after) (operators : node.OperatorsBetween) : node.Exact source shape := by
  obtain ⟨forward, starts, stops⟩ := of.exists_taken row.leads nonempty (past nonempty)
  refine ⟨?_, fun _ => ?_, fun _ => ?_, fun _ => ?_, ?_, row.pairwise of nonempty, operators⟩
  · rw [span]
    exact Nat.le_of_lt forward
  · rwa [span]
  · rwa [span]
  · rwa [span]
  · rw [span]
    exact row.inside of nonempty

/-- The source has the spelling of a name or a number where it stands, and a string is read from there. -/
def Spelled (source : Bytes) : {shape : Shape} → Tree shape → Prop
  | _, ident span name => span.text source = name
  | _, numberLit span value => span.text source = value.raw
  | _, stringLit span value => Token.read (span.text source) = (.string value, (span.text source).length)
  | _, _ => True

theorem Attested.spelled {source : Bytes} {shape : Shape} {node : Tree shape} (attested : node.Attested source shape) :
    node.Spelled source := by
  have spelledBy {span : Span} {token : Token} (found : ∃ lexeme ∈ Lexeme.scan source,
      lexeme.At source ∧ lexeme.span = span ∧ lexeme.token = token) : token.SpelledBy (span.text source) := by
    obtain ⟨lexeme, -, stands, rfl, rfl⟩ := found
    exact stands.spelledBy
  cases node with
  | ident => exact spelledBy attested
  | numberLit => exact (spelledBy attested).1
  | stringLit => exact Token.read_of_literal (spelledBy attested)
  | _ => trivial

/-- Something stands here, and it is not a program, which may be empty. -/
def hasTokens : {shape : Shape} → Tree shape → Bool
  | _, nil | _, absent | _, program .. => false
  | _, cons node _ | _, present node => node.hasTokens
  | _, _ => true

theorem hasTokens_of_node {kind : Kind} (node : Node kind) (noProgram : kind ≠ .program) : node.hasTokens = true := by
  cases node with
  | program => exact absurd rfl noProgram
  | _ => rfl

/-- The route goes over a token, unless it runs out of lexemes. -/
def RoutePast {shape : Shape} (tree : Tree shape) : Prop :=
  ∀ (lead joint : Route Unit) (c : Cursor), c.Past ((tree.route lead joint).follow c).2

theorem RoutePast.past {shape : Shape} {tree : Tree shape} (past : tree.RoutePast) {lead joint : Route Unit}
    {c between : Cursor} (leads : c.Leads between) : c.Past ((tree.route lead joint).follow between).2 :=
  leads.past (past lead joint between)

open Cursor Route in
theorem routePast {shape : Shape} (tree : Tree shape) (proper : tree.All Proper) (something : tree.hasTokens = true) :
    tree.RoutePast := by
  have node {kind : Kind} {part : Node kind} (ih : part.All Proper → part.hasTokens = true → part.RoutePast)
      (noProgram : kind ≠ .program) (proper : part.All Proper) : part.RoutePast :=
    ih proper (hasTokens_of_node part noProgram)
  induction tree with
  | nil | absent | program => cases something
  | cons first rest ih _ =>
    intro lead joint c
    simp only [route, follow_bind, follow_pure]
    exact ((ih proper.1 something).past ((Leads.refl c).to_follow lead)).to_follow _
  | present first ih =>
    intro lead joint c
    simp only [route, follow_bind, follow_pure]
    exact (ih proper something).past ((Leads.refl c).to_follow lead)
  | ofStatement inner ih | ofBlock inner ih | ofInstantiation inner ih | ofArguments inner ih | instantiated inner ih =>
    intro lead joint c
    simp only [route, follow_bind, follow_pure]
    exact (node ih Kind.noConfusion proper).past (.refl c)
  | sequence span list ih =>
    intro lead joint c
    simp only [route, follow_placed, follow_bind, follow_pure]
    refine (ih proper.2 ?_).past (.refl c)
    cases list with
    | nil => cases proper.1
    | cons first _ => exact hasTokens_of_node first Kind.noConfusion
  | assign span targets value _ ih =>
    intro lead joint c
    simp only [route, follow_placed, follow_bind, follow_pure]
    exact (node ih Kind.noConfusion proper.2.2).past ((Leads.refl c).to_follow _)
  | unary span _ operand ih | newExpr span _ operand ih =>
    intro lead joint c
    simp only [route, follow_placed, follow_bind, follow_pure]
    exact (node ih Kind.noConfusion proper.2).past ((Leads.refl c).to_follow _)
  | plain span first ih =>
    intro lead joint c
    simp only [route, follow_placed, follow_bind, follow_pure]
    exact (node ih Kind.noConfusion proper.2).past (.refl c)
  | update span first op ih =>
    intro lead joint c
    simp only [route, follow_placed, follow_bind, follow_pure]
    exact ((node ih Kind.noConfusion proper.2).past (.refl c)).to_follow _
  | level span tier first operations ih _ =>
    intro lead joint c
    simp only [route, follow_placed, follow_bind, follow_pure]
    exact ((node ih tier.operand_ne_program proper.2.1).past (.refl c)).to_follow _
  | member span first modifiers ih _ =>
    intro lead joint c
    simp only [route, follow_placed, follow_bind, follow_pure]
    exact ((node ih Kind.noConfusion proper.2.1).past (.refl c)).to_follow _
  | call span first args modifiers ih _ _ =>
    intro lead joint c
    simp only [route, follow_placed, follow_bind, follow_pure]
    exact ((node ih Kind.noConfusion proper.2.1).past (.refl c)).to_follow _ |>.to_follow _
  | _ =>
    intro lead joint c
    simp only [route, functionRoute, follow_placed, follow_bind, follow_pure, follow]
    -- One of the tokens of the node itself lies on the way.
    with_reducible repeat' first
      | exact Leads.refl _
      | apply Leads.past_steps
      | apply Past.to_follow
      | apply Leads.to_follow

/-- Wherever its route begins in a source, the tree that it gives is exact, and so are the nodes below. -/
def RouteExact (source : Bytes) {shape : Shape} (tree : Tree shape) : Prop :=
  ∀ ⦃lead joint : Route Unit⦄ ⦃c : Cursor⦄, c.Of source → ((tree.route lead joint).follow c).2.rest ≠ [] →
    InRow c ((tree.route lead joint).follow c).1.entries ((tree.route lead joint).follow c).2 ∧
      ((tree.route lead joint).follow c).1.All (Exact source)

namespace RouteExact

variable {source : Bytes} {shape : Shape} {tree : Tree shape} {lead joint : Route Unit}
  {c origin start last after : Cursor}

/-- A part of a node, from `start` on, as one of a row. -/
theorem row (exact : tree.RouteExact source) (behind : ((tree.route lead joint).follow start).2.Leads last)
    (of : origin.Of source) (nonempty : after.rest ≠ []) (on : origin.Leads start) (reach : last.Leads after)
    (leads : c.Leads start) : InRow c ((tree.route lead joint).follow start).1.entries last := by
  have left := (behind.trans reach).ne_nil nonempty
  have here := of.leads on (((Cursor.Leads.refl start).to_follow _).ne_nil left)
  exact ((exact here left).1.behind behind).before leads

theorem all (exact : tree.RouteExact source) (of : origin.Of source) (nonempty : after.rest ≠ [])
    (on : origin.Leads start) (reach : ((tree.route lead joint).follow start).2.Leads after) :
    ((tree.route lead joint).follow start).1.All (Exact source) := by
  have left := reach.ne_nil nonempty
  have here := of.leads on (((Cursor.Leads.refl start).to_follow _).ne_nil left)
  exact (exact here left).2

end RouteExact

open Route in
/-- A tier or a unary expression covers what its route goes over. -/
theorem span_route {kind : Kind} (node : Node kind) (c : Cursor)
    (isOperand : kind = .unary ∨ ∃ tier, kind = .tier tier) :
    (node.route.follow c).1.span = ⟨c.offset, (node.route.follow c).2.stop⟩ := by
  cases node with
  | level | unary => simp only [route, follow_placed, follow_bind, follow_pure, Tree.span]
  | _ => simp at isOperand

theorem span_operand {tier : Tier} (operand : Node tier.operand) (c : Cursor) :
    (operand.route.follow c).1.span = ⟨c.offset, (operand.route.follow c).2.stop⟩ :=
  span_route operand c (by cases tier <;> simp [Tier.operand])

open Cursor Route in
/-- Along their route, the operators of a tier stand between the operands. -/
theorem operatorsFrom_route {source : Bytes} {tier : Tier} : (operations : Tree (.list (.operation tier))) →
    ∀ {c : Cursor} {low : Nat}, c.Of source → (operations.route.follow c).2.rest ≠ [] → low ≤ c.stop →
      (operations.route.follow c).1.OperatorsFrom low
  | nil, _, _, _, _, _ => trivial
  | cons (operation _ op _ operand) rest, c, low, of, nonempty, before => by
    simp only [route, follow, follow_bind, follow_pure] at nonempty ⊢
    have on := (Leads.refl c).to_follow (steps 1)
    have across := (Leads.refl ((steps 1).follow c).2).to_follow operand.route
    have left := ((Leads.refl _).to_follow rest.route).ne_nil nonempty
    have here := of.leads on (across.ne_nil left)
    obtain ⟨taken, -⟩ := of.exists_taken on (across.ne_nil left) ((Leads.refl c).past_steps 0 (across.ne_nil left))
    have first := of.stop_le_offset
    have next := here.stop_le_offset
    simp only [OperatorsFrom, span_operand]
    refine ⟨by omega, by omega, ?_⟩
    exact operatorsFrom_route rest (here.leads across left) nonempty (Nat.le_refl _)

open Cursor Route in
/-- Wherever its route begins in a source, the tree that it gives is exact. -/
theorem routeExact (source : Bytes) {shape : Shape} (tree : Tree shape) (proper : tree.All Proper)
    (noProgram : shape.kind ≠ .program) : tree.RouteExact source := by
  induction tree with
  | nil | absent => exact fun _ _ c _ _ => ⟨.none (.refl c), trivial⟩
  | program => exact absurd rfl noProgram
  | cons first rest ih ih' =>
    intro lead joint c of nonempty
    simp only [route, follow_bind, follow_pure, All, entries_cons] at nonempty ⊢
    have exact := ih proper.1 noProgram
    have exact' := ih' proper.2 noProgram
    have on := (Leads.refl c).to_follow lead
    have reach := (Leads.refl (first.route.follow (lead.follow c).2).2).to_follow (rest.route joint joint)
    refine ⟨(exact.row (.refl _) of nonempty on reach on).append ?_, exact.all of nonempty on reach, ?_⟩
    · exact exact'.row (.refl _) of nonempty (on.to_follow _) (.refl _) (.refl _)
    · exact exact'.all of nonempty (on.to_follow _) (.refl _)
  | present inner ih =>
    intro lead joint c of nonempty
    simp only [route, follow_bind, follow_pure, All] at nonempty ⊢
    have exact := ih proper noProgram
    have on := (Leads.refl c).to_follow lead
    exact ⟨exact.row (.refl _) of nonempty on (.refl _) on, exact.all of nonempty on (.refl _)⟩
  | ofStatement inner ih | ofBlock inner ih | ofInstantiation inner ih | ofArguments inner ih | instantiated inner ih =>
    intro lead joint c of nonempty
    simp only [route, follow_bind, follow_pure, All] at nonempty ⊢
    exact ih proper Kind.noConfusion of nonempty
  | target inner op ih =>
    intro lead joint c of nonempty
    simp only [route, follow_bind, follow_pure, All] at nonempty ⊢
    have exact := ih proper Kind.noConfusion
    have reach := (Leads.refl (inner.route.follow c).2).to_follow (steps 1)
    exact ⟨exact.row reach of nonempty (.refl c) (.refl _) (.refl c), exact.all of nonempty (.refl c) reach⟩
  | operation tier op offset operand ih =>
    intro lead joint c of nonempty
    simp only [route, follow, follow_bind, follow_pure, All] at nonempty ⊢
    have exact := ih proper tier.operand_ne_program
    have on := (Leads.refl c).to_follow (steps 1)
    exact ⟨exact.row (.refl _) of nonempty on (.refl _) on, exact.all of nonempty on (.refl _)⟩
  | level span tier head operations ih ih' =>
    intro lead joint c of nonempty
    have past := routePast _ proper rfl lead joint c
    simp only [route, follow_placed, follow_bind, follow_pure, All] at nonempty past ⊢
    have exact := ih proper.2.1 tier.operand_ne_program
    have exact' := ih' proper.2.2 Kind.noConfusion
    have on := (Leads.refl c).to_follow head.route
    have reach := (Leads.refl (head.route.follow c).2).to_follow operations.route
    refine ⟨.next (.refl c) (on.trans reach) rfl (.none (.refl _)), exact_of_row of nonempty past rfl ?_ ?_,
      exact.all of nonempty (.refl c) reach, exact'.all of nonempty on (.refl _)⟩
    · exact (exact.row (.refl _) of nonempty (.refl c) reach (.refl c)).append
        (exact'.row (.refl _) of nonempty on (.refl _) (.refl _))
    · simp only [OperatorsBetween, span_operand]
      exact operatorsFrom_route operations (of.leads on (reach.ne_nil nonempty)) nonempty (Nat.le_refl _)
  | emptyStmt | continueStmt | breakStmt | debugger | property | thisExpr | ident | nullLit | boolLit | numberLit
  | stringLit =>
    intro lead joint c of nonempty
    have past := routePast _ proper rfl lead joint c
    simp only [route, follow_placed, follow_bind, follow_pure, All] at nonempty past ⊢
    refine ⟨.next (.refl c) ?_ rfl (.none (.refl _)), exact_of_row of nonempty past rfl (.none ?_) trivial⟩
    all_goals
      with_reducible repeat' first
        | exact Leads.refl _
        | apply Leads.to_follow
  | _ =>
    intro lead joint c of nonempty
    have past := routePast _ proper rfl lead joint c
    simp only [All] at proper
    casesm* _ ∧ _
    simp_all only [Shape.kind, ne_eq, reduceCtorEq, not_false_eq_true, forall_const]
    simp only [route, functionRoute, follow_placed, follow_bind, follow_pure, All] at nonempty past ⊢
    refine ⟨.next (.refl c) ?_ rfl (.none (.refl _)), exact_of_row of nonempty past rfl ?_ trivial, ?_⟩
    rotate_left
    · unfold children
      dsimp only
      with_reducible repeat' first
        | exact Leads.refl _
        | apply Leads.to_follow
        | assumption
        | apply InRow.append
        | apply RouteExact.row
    all_goals
      with_reducible repeat' first
        | exact Leads.refl _
        | apply Leads.to_follow
        | assumption
        | apply And.intro
        | apply RouteExact.all

end Tree

namespace Program

open EcmaFold.Parser EcmaFold.Tree

/-- What is read from a source is exact, and so is the program over it. -/
theorem readPart_exact (source : Bytes) : (readPart source).tree.All (Exact source) := by
  have tells := Reading.ofLexemes_tells source
  have of := Cursor.of_ofSource source
  have there := of.leads tells.leads tells.nonempty
  have stands : (ofList (reading source).elements).Stands (.ofSource source) (reading source).cursor :=
    Reading.elementsFrom_stands (Grammar.ofDepth_places _) _ _
  obtain ⟨row, below⟩ := routeExact source _ (Reading.ofLexemes_reads source).1 Kind.noConfusion of
    (by rw [stands]; exact tells.nonempty)
  rw [stands] at row below
  refine ⟨⟨?_, ?_, ?_, ?_, fun child member => ?_, ?_, trivial⟩, below⟩
  · exact of.offset_le tells.leads tells.nonempty
  · exact fun notProgram => absurd rfl notProgram
  · exact fun notProgram => absurd rfl notProgram
  · exact fun notProgram => absurd rfl notProgram
  · obtain ⟨start, stop⟩ := row.inside of tells.nonempty child member
    exact ⟨start, Nat.le_trans stop there.stop_le_offset⟩
  · exact row.pairwise of tells.nonempty

theorem parse_exact {file source : Bytes} {program : Program} (accepted : parse file source = .ok program) :
    program.tree.All (Exact source) := by
  obtain ⟨-, rfl⟩ := eq_of_parse accepted
  exact readPart_exact source

/-- Every node of a program that is accepted covers exactly its tokens: its children and operators lie inside it one
behind the other, and names and literals where they are spelled. -/
theorem nodes_exact {file source : Bytes} {program : Program} (accepted : parse file source = .ok program) :
    ∀ any ∈ program.tree.nodes, any.node.Exact source _ ∧ any.node.Spelled source :=
  fun any member => ⟨all_iff_nodes.mp (parse_exact accepted) any member,
    (all_iff_nodes.mp (parse_faithful accepted) any member).spelled⟩

/-- In `x = a /* b */ + 'c' ;`, where comments and blanks lie between the nodes, the string is one of them. -/
theorem nodes_exact_comment : ∃ program, parse [] (utf8 "x = a /* b */ + 'c' ;") = .ok program ∧
    ∃ any ∈ program.tree.nodes, any.kind = .primary ∧ any.node.span = ⟨16, 19⟩ ∧
      any.node.Exact (utf8 "x = a /* b */ + 'c' ;") _ ∧ any.node.Spelled (utf8 "x = a /* b */ + 'c' ;") := by
  have complete : (readPart (utf8 "x = a /* b */ + 'c' ;")).complete = true := by decide +kernel
  have found : ∃ any ∈ (readPart (utf8 "x = a /* b */ + 'c' ;")).tree.nodes,
      any.kind = .primary ∧ any.node.span = ⟨16, 19⟩ := by decide +kernel
  obtain ⟨any, member, isPrimary, span⟩ := found
  have accepted := @parse_of_complete [] _ complete
  exact ⟨_, accepted, any, member, isPrimary, span, nodes_exact accepted any member⟩

end Program

end EcmaFold
