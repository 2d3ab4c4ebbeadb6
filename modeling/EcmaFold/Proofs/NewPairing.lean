import EcmaFold.Proofs.Acceptance
import EcmaFold.Proofs.Tree.LaidOut

/-!
How `new` pairs with argument lists. A left-hand side is a row of `new`s, an object and what follows it: argument
lists and accesses. The argument lists pair with the `new`s from the inside out, and the first one that is left calls.
This is the tree that the left-recursive grammar of member, new and call expressions gives, and it gives no other.
-/

namespace EcmaFold

namespace Tree

/-! The tree as a whole -/

/-- The accesses in front of the first argument list. -/
def accesses : List (Node (.modifier true)) → List (Node (.modifier false))
  | .index span expr :: rest => .index span expr :: accesses rest
  | .property span own :: rest => .property span own :: accesses rest
  | _ => []

/-- The argument lists, each with all that stands behind it. -/
def argumentLists : List (Node (.modifier true)) → List (Node .arguments × List (Node (.modifier true)))
  | [] => []
  | .ofArguments args :: rest => (args, rest) :: argumentLists rest
  | _ :: rest => argumentLists rest

/-- A `new` in front of an object with an argument list behind it, and the accesses up to the next argument list. -/
def instantiate (object : Node .member) (list : Node .arguments × List (Node (.modifier true))) : Node .member :=
  match accesses list.2 with
  | [] => .ofInstantiation (.instantiation .zero object list.1)
  | found => .member .zero (.instantiated (.instantiation .zero object list.1)) (ofList found)

/-- The left-hand side with some `new`s in front of an identifier and suffixes behind it. The argument lists make
instantiations as long as there are `new`s, the innermost first. An argument list that is left calls the result, and
`new`s that are left stay without arguments. -/
def pairing (news : Nat) (own : Bytes) (suffixes : List (Node (.modifier true))) : Node .lhs :=
  let lists := argumentLists suffixes
  let object := (lists.take news).foldl instantiate (.member .zero (.ident .zero own) (ofList (accesses suffixes)))
  match lists[news]? with
  | some (args, behind) => .call .zero object args (ofList behind)
  | none => .newExpr .zero (news - lists.length) object

/-! The tree suffix by suffix -/

/-- An identifier by itself. -/
def base (own : Bytes) : Node .member := .member .zero (.ident .zero own) .nil

/-- A list with one more node at its end. -/
def snoc {kind : Kind} : Tree (.list kind) → Node kind → Tree (.list kind)
  | nil, node => cons node nil
  | cons head tail, node => cons head (tail.snoc node)

theorem snoc_ofList {kind : Kind} (list : List (Node kind)) (node : Node kind) :
    (ofList list).snoc node = ofList (list ++ [node]) := by
  induction list with
  | nil => rw [ofList, snoc, List.nil_append, ofList, ofList]
  | cons head tail ih => rw [ofList, snoc, ih, List.cons_append, ofList]

/-- A member expression with one more access behind it. -/
def addAccess : Node .member → Node (.modifier false) → Node .member
  | .member span object modifiers, access => .member span object (modifiers.snoc access)
  | .ofInstantiation node, access => .member .zero (.instantiated node) (.cons access .nil)

/-- The left-hand side with some `new`s open in front of an object and suffixes behind it, taken one by one. -/
def attach : (news : Nat) → (object : Node .member) → List (Node (.modifier true)) → Node .lhs
  | news, object, [] => .newExpr .zero news object
  | news, object, .index span expr :: rest => attach news (object.addAccess (.index span expr)) rest
  | news, object, .property span own :: rest => attach news (object.addAccess (.property span own)) rest
  | news + 1, object, .ofArguments args :: rest =>
    attach news (.ofInstantiation (.instantiation .zero object args)) rest
  | 0, object, .ofArguments args :: rest => .call .zero object args (ofList rest)

theorem foldl_addAccess_member (span : Span) (object : Node .primary) (list list' : List (Node (.modifier false))) :
    list'.foldl addAccess (.member span object (ofList list)) = .member span object (ofList (list ++ list')) := by
  induction list' generalizing list with
  | nil => rw [List.append_nil, List.foldl_nil]
  | cons access list' ih =>
    rw [List.foldl_cons, addAccess, snoc_ofList, ih, List.append_assoc]
    rfl

/-- Accesses that are added one by one are those of the instantiation. -/
theorem foldl_addAccess_instantiation (object : Node .member) (args : Node .arguments)
    (behind : List (Node (.modifier true))) :
    (accesses behind).foldl addAccess (.ofInstantiation (.instantiation .zero object args)) =
      instantiate object (args, behind) := by
  unfold instantiate
  cases accesses behind with
  | nil => rfl
  | cons access list => exact foldl_addAccess_member .zero _ [access] list

theorem attach_eq (news : Nat) (object : Node .member) (suffixes : List (Node (.modifier true))) :
    attach news object suffixes =
      let lists := argumentLists suffixes
      let result := (lists.take news).foldl instantiate ((accesses suffixes).foldl addAccess object)
      match lists[news]? with
      | some (args, behind) => .call .zero result args (ofList behind)
      | none => .newExpr .zero (news - lists.length) result := by
  induction suffixes generalizing news object with
  | nil => simp [attach, argumentLists, accesses]
  | cons suffix rest ih =>
    cases suffix with
    | index span expr =>
      rw [attach, ih]
      rfl
    | property span own =>
      rw [attach, ih]
      rfl
    | ofArguments args =>
      cases news with
      | zero => rw [attach]; rfl
      | succ news =>
        rw [attach, ih, foldl_addAccess_instantiation]
        simp only [argumentLists, accesses, List.take_succ_cons, List.foldl_cons, List.foldl_nil,
          List.getElem?_cons_succ, List.length_cons, Nat.add_sub_add_right]

/-- Taken one by one, the suffixes give the tree as a whole. -/
theorem pairing_eq_attach (news : Nat) (own : Bytes) (suffixes : List (Node (.modifier true))) :
    pairing news own suffixes = attach news (base own) suffixes := by
  have accessed : (accesses suffixes).foldl addAccess (base own) =
      .member .zero (.ident .zero own) (ofList (accesses suffixes)) := foldl_addAccess_member _ _ [] _
  rw [attach_eq, accessed]
  rfl

/-! The tokens of the tree -/

open Slot (word)

theorem yield_ofList_single {kind : Kind} (node : Node kind) : (ofList [node]).yield = node.yield := by
  rw [yield_ofList, List.map_singleton, List.flatten_singleton]

theorem yield_snoc {kind : Kind} (list : Tree (.list kind)) (node : Node kind) :
    (list.snoc node).yield = list.yield ++ node.yield := by
  obtain ⟨items, rfl⟩ := exists_ofList list
  rw [snoc_ofList, yield_ofList_append, yield_ofList_single]

theorem yield_addAccess (object : Node .member) (access : Node (.modifier false)) :
    (object.addAccess access).yield = object.yield ++ access.yield := by
  cases object with
  | member span object modifiers =>
    have split (modifiers : Tree (.list (.modifier false))) :
        (Tree.member span object modifiers).yield = object.yield ++ modifiers.yield := List.append_nil _
    rw [addAccess, split, split, yield_snoc, List.append_assoc]
  | ofInstantiation node =>
    exact (List.append_nil _).trans (congrArg (node.yield ++ ·) (yield_ofList_single access))

/-- The tokens stand in the order in which they are read. -/
theorem yield_attach (news : Nat) (object : Node .member) (suffixes : List (Node (.modifier true))) :
    (attach news object suffixes).yield =
      List.replicate news (word .kwNew) ++ (object.yield ++ (suffixes.map yield).flatten) := by
  induction suffixes generalizing news object with
  | nil => simp [attach, yield, slots]
  | cons suffix rest ih =>
    rw [List.map_cons, List.flatten_cons]
    cases suffix with
    | index span expr =>
      rw [attach, ih, yield_addAccess, List.append_assoc]
      rfl
    | property span own =>
      rw [attach, ih, yield_addAccess, List.append_assoc]
      rfl
    | ofArguments args =>
      cases news with
      | zero =>
        rw [attach, ← yield_ofList]
        exact List.append_nil _
      | succ news =>
        have opened : (Tree.ofInstantiation (.instantiation .zero object args)).yield =
            word .kwNew :: (object.yield ++ args.yield) := List.append_nil _
        rw [attach, ih, opened, List.replicate_succ']
        simp only [List.append_assoc, List.cons_append, List.nil_append]
        rfl

theorem yield_pairing (news : Nat) (own : Bytes) (suffixes : List (Node (.modifier true))) :
    (pairing news own suffixes).yield =
      List.replicate news (word .kwNew) ++ .name own :: (suffixes.map yield).flatten := by
  rw [pairing_eq_attach, yield_attach]
  rfl

/-! The rules of the grammar hold of it -/

/-- What is asked of nodes allows the nodes of a left-hand side, a member expression with accesses among them. -/
structure AllowsLhs (P : (shape : Shape) → Tree shape → Prop) : Prop where
  newExpr : ∀ span count object, P _ (newExpr span count object)
  call : ∀ span callee args modifiers, P _ (call span callee args modifiers)
  instantiation : ∀ span object args, P _ (instantiation span object args)
  member : ∀ span object modifiers access, P _ (member span object (snoc modifiers access))
  index : ∀ {span expr}, P _ (@index true span expr) → P _ (@index false span expr)
  property : ∀ {span own}, P _ (@property true span own) → P _ (@property false span own)

theorem allowsLhs_proper : AllowsLhs Proper where
  newExpr _ _ _ := trivial
  call _ _ _ _ := trivial
  instantiation _ _ _ := trivial
  member _ _ modifiers _ _ := by cases modifiers <;> rw [snoc] <;> rfl
  index _ := trivial
  property := id

theorem allowsLhs_validString : AllowsLhs ValidString where
  newExpr _ _ _ := trivial
  call _ _ _ _ := trivial
  instantiation _ _ _ := trivial
  member _ _ _ _ := trivial
  index _ := trivial
  property _ := trivial

section Allowed

variable {P : (shape : Shape) → Tree shape → Prop}

theorem all_snoc {kind : Kind} {list : Tree (.list kind)} {node : Node kind} (allList : list.All P)
    (allNode : node.All P) : (list.snoc node).All P := by
  obtain ⟨items, rfl⟩ := exists_ofList list
  rw [snoc_ofList]
  exact all_ofList.mpr (List.forall_mem_append.mpr ⟨all_ofList.mp allList, List.forall_mem_singleton.mpr allNode⟩)

theorem AllowsLhs.addAccess (allows : AllowsLhs P) {object : Node .member} {access : Node (.modifier false)}
    (allObject : object.All P) (allAccess : access.All P) : (object.addAccess access).All P := by
  cases object with
  | member span object modifiers =>
    exact ⟨allows.member _ _ _ _, allObject.2.1, all_snoc allObject.2.2 allAccess⟩
  | ofInstantiation node =>
    have single := allows.member .zero (.instantiated node) .nil access
    rw [snoc] at single
    exact ⟨single, allObject, allAccess, trivial⟩

theorem AllowsLhs.attach (allows : AllowsLhs P) {news : Nat} {object : Node .member}
    {suffixes : List (Node (.modifier true))} (allObject : object.All P) (all : ∀ suffix ∈ suffixes, suffix.All P) :
    (attach news object suffixes).All P := by
  induction suffixes generalizing news object with
  | nil => exact ⟨allows.newExpr _ _ _, allObject⟩
  | cons suffix rest ih =>
    obtain ⟨first, others⟩ := List.forall_mem_cons.mp all
    cases suffix with
    | index span expr => exact ih (allows.addAccess allObject ⟨allows.index first.1, first.2⟩) others
    | property span own => exact ih (allows.addAccess allObject (allows.property first)) others
    | ofArguments args =>
      cases news with
      | zero => exact ⟨allows.call _ _ _ _, allObject, first, all_ofList.mpr others⟩
      | succ news => exact ih ⟨allows.instantiation _ _ _, allObject, first⟩ others

theorem AllowsLhs.pairing (allows : AllowsLhs P) {news : Nat} {own : Bytes} {suffixes : List (Node (.modifier true))}
    (allBase : (base own).All P) (all : ∀ suffix ∈ suffixes, suffix.All P) :
    (pairing news own suffixes).All P := by
  rw [pairing_eq_attach]
  exact allows.attach allBase all

end Allowed

/-! The source of the tree -/

open Piece (text text_append)

/-- The normalised text of a tree that stands by itself. -/
def laidText {shape : Shape} (tree : Tree shape) : Bytes := text (tree.layout 0).flatten

theorem laidText_ofList {kind : Kind} (list : List (Node kind)) :
    (ofList list).laidText = list.flatMap laidText := by
  induction list with
  | nil => rfl
  | cons head tail ih =>
    have split : (ofList (head :: tail)).layout 0 = head.layout 0 ++ (ofList tail).layout 0 := rfl
    rw [laidText, split, List.flatten_append, text_append, List.flatMap_cons, ← ih]
    rfl

/-- An access may stand right behind the member expression. -/
def TakesAccess : Node .member → Prop
  | .member _ object _ => object.needsSpace = false
  | .ofInstantiation _ => True

theorem TakesAccess.addAccess {object : Node .member} (takes : TakesAccess object) (access : Node (.modifier false)) :
    TakesAccess (object.addAccess access) := by
  cases object with
  | member _ _ _ => exact takes
  | ofInstantiation _ => exact rfl

theorem laidText_member {object : Node .primary} (noSpace : object.needsSpace = false) (span : Span)
    (modifiers : Tree (.list (.modifier false))) :
    (Tree.member span object modifiers).laidText = object.laidText ++ modifiers.laidText := by
  have split : ((Tree.member span object modifiers).layout 0).flatten =
      (object.layout 0).flatten ++ (if object.needsSpace && modifiers.startsWithProperty then [.space] else []) ++
        (modifiers.layout 0).flatten := List.append_nil _
  rw [laidText, split, noSpace, Bool.false_and, if_neg Bool.false_ne_true, List.append_nil, text_append]
  rfl

theorem laidText_addAccess {object : Node .member} (takes : TakesAccess object) (access : Node (.modifier false)) :
    (object.addAccess access).laidText = object.laidText ++ access.laidText := by
  cases object with
  | member span object modifiers =>
    obtain ⟨items, rfl⟩ := exists_ofList modifiers
    rw [addAccess, snoc_ofList, laidText_member takes, laidText_member takes, laidText_ofList, laidText_ofList,
      List.flatMap_append, List.flatMap_singleton, List.append_assoc]
  | ofInstantiation node =>
    rw [addAccess, laidText_member rfl, ← ofList, ← ofList, laidText_ofList, List.flatMap_singleton]
    rfl

theorem text_new (pieces : List Piece) : text ([.word .kwNew, .space] ++ pieces) = utf8 "new " ++ text pieces := rfl

theorem text_news (news : Nat) (pieces : List Piece) :
    text ((List.replicate news [.word .kwNew, .space]).flatten ++ pieces) =
      (List.replicate news (utf8 "new ")).flatten ++ text pieces := by
  induction news with
  | zero => rfl
  | succ news ih =>
    rw [List.replicate_succ, List.flatten_cons, List.append_assoc, text_new, ih, List.replicate_succ,
      List.flatten_cons, List.append_assoc]

/-- The text of a left-hand side is that of its parts, with a space behind each `new`. -/
theorem laidText_attach (news : Nat) {object : Node .member} (takes : TakesAccess object)
    (suffixes : List (Node (.modifier true))) :
    (attach news object suffixes).laidText =
      (List.replicate news (utf8 "new ")).flatten ++ (object.laidText ++ suffixes.flatMap laidText) := by
  induction suffixes generalizing news object with
  | nil =>
    have split : (Tree.newExpr .zero news object).laidText =
        text ((List.replicate news [.word .kwNew, .space]).flatten ++ (object.layout 0).flatten) :=
      congrArg text (List.append_nil _)
    rw [attach, split, text_news, List.flatMap_nil, List.append_nil]
    rfl
  | cons suffix rest ih =>
    rw [List.flatMap_cons]
    cases suffix with
    | index span expr =>
      rw [attach, ih _ (takes.addAccess _), laidText_addAccess takes, List.append_assoc]
      rfl
    | property span own =>
      rw [attach, ih _ (takes.addAccess _), laidText_addAccess takes, List.append_assoc]
      rfl
    | ofArguments args =>
      cases news with
      | zero =>
        have split : ((Tree.call .zero object args (ofList rest)).layout 0).flatten =
            (object.layout 0).flatten ++ (args.layout 0).flatten ++ ((ofList rest).layout 0).flatten :=
          List.append_nil _
        rw [attach, laidText, split, text_append, text_append, ← laidText_ofList, List.append_assoc]
        rfl
      | succ news =>
        have split : ((Tree.ofInstantiation (.instantiation .zero object args)).layout 0).flatten =
            [.word .kwNew, .space] ++ ((object.layout 0).flatten ++ (args.layout 0).flatten) :=
          List.append_nil _
        have opened : (Tree.ofInstantiation (.instantiation .zero object args)).laidText =
            utf8 "new " ++ (object.laidText ++ args.laidText) := by
          rw [laidText, split, text_new, text_append]
          rfl
        have takes : TakesAccess (.ofInstantiation (.instantiation .zero object args)) := trivial
        rw [attach, ih news takes, opened, List.replicate_succ', List.flatten_append]
        simp only [List.flatten_singleton, List.append_assoc]
        rfl

end Tree

/-! The left-recursive grammar -/

/-- What a left-hand side is made of. -/
inductive LhsPart where
  | new
  | identifier (own : Bytes)
  | suffix (suffix : Node (.modifier true))

namespace LhsPart

/-- Some `new`s, an identifier, and what follows. -/
def phrase (news : Nat) (own : Bytes) (suffixes : List (Node (.modifier true))) : List LhsPart :=
  List.replicate news new ++ identifier own :: suffixes.map suffix

theorem phrase_inj {news news' : Nat} {own own' : Bytes} {suffixes suffixes' : List (Node (.modifier true))}
    (same : phrase news own suffixes = phrase news' own' suffixes') :
    news = news' ∧ own = own' ∧ suffixes = suffixes' := by
  induction news generalizing news' with
  | zero =>
    cases news' with
    | zero =>
      obtain ⟨first, others⟩ := List.cons.inj same
      refine ⟨rfl, identifier.inj first, ?_⟩
      exact List.map_injective_iff.mpr (fun _ _ => suffix.inj) others
    | succ _ => cases (List.cons.inj same).1
  | succ news ih =>
    cases news' with
    | zero => cases (List.cons.inj same).1
    | succ news' =>
      obtain ⟨rfl, rest⟩ := ih (List.cons.inj same).2
      exact ⟨rfl, rest⟩

theorem phrase_snoc (news : Nat) (own : Bytes) (suffixes : List (Node (.modifier true)))
    (last : Node (.modifier true)) :
    phrase news own suffixes ++ [suffix last] = phrase news own (suffixes ++ [last]) := by
  rw [phrase, phrase, List.append_assoc, List.map_append]
  rfl

end LhsPart

namespace Derivation

open LhsPart EcmaFold.Tree

/-- Member expressions: an identifier, a member expression with an access behind it, or `new` with a member expression
and an argument list. -/
inductive Member where
  | identifier (own : Bytes)
  | index (object : Member) (span : Span) (expr : Node .sequence)
  | property (object : Member) (span : Span) (own : Bytes)
  | instantiation (object : Member) (args : Node .arguments)

/-- New expressions: a member expression, or `new` with a new expression. -/
inductive New where
  | ofMember (object : Member)
  | new (inner : New)

/-- Call expressions: a member expression with an argument list, or a call expression with an argument list or an
access behind it. -/
inductive Call where
  | ofMember (callee : Member) (args : Node .arguments)
  | suffix (inner : Call) (suffix : Node (.modifier true))

/-- Left-hand sides: a new expression or a call expression. -/
inductive Lhs where
  | ofNew (expr : New)
  | ofCall (expr : Call)

/-! What is derived -/

def Member.parts : Member → List LhsPart
  | identifier own => [.identifier own]
  | index object span expr => object.parts ++ [.suffix (.index span expr)]
  | property object span own => object.parts ++ [.suffix (.property span own)]
  | instantiation object args => .new :: (object.parts ++ [.suffix (.ofArguments args)])

def New.parts : New → List LhsPart
  | ofMember object => object.parts
  | new inner => .new :: inner.parts

def Call.parts : Call → List LhsPart
  | ofMember callee args => callee.parts ++ [.suffix (.ofArguments args)]
  | suffix inner last => inner.parts ++ [.suffix last]

def Lhs.parts : Lhs → List LhsPart
  | ofNew expr => expr.parts
  | ofCall expr => expr.parts

/-! The trees of derivations, where accesses in a row are one list -/

def Member.tree : Member → Node .member
  | identifier own => base own
  | index object span expr => object.tree.addAccess (.index span expr)
  | property object span own => object.tree.addAccess (.property span own)
  | instantiation object args => .ofInstantiation (.instantiation .zero object.tree args)

/-- A left-hand side behind more `new`s. -/
def addNews (more : Nat) : Node .lhs → Node .lhs
  | .newExpr span count object => .newExpr span (count + more) object
  | other => other

def New.tree : New → Node .lhs
  | ofMember object => .newExpr .zero 0 object.tree
  | new inner => addNews 1 inner.tree

/-- A call with one more suffix. -/
def addSuffix : Node .lhs → Node (.modifier true) → Node .lhs
  | .call span callee args modifiers, last => .call span callee args (modifiers.snoc last)
  | other, _ => other

def Call.tree : Call → Node .lhs
  | ofMember callee args => .call .zero callee.tree args .nil
  | suffix inner last => addSuffix inner.tree last

def Lhs.tree : Lhs → Node .lhs
  | ofNew expr => expr.tree
  | ofCall expr => expr.tree

/-! There is one tree -/

/-- A member expression closes as many `new`s as it has argument lists: what follows is attached to its tree. -/
theorem Member.attach_tree (object : Member) : ∃ news own suffixes, object.parts = phrase news own suffixes ∧
    ∀ more rest, attach (news + more) (base own) (suffixes ++ rest) = attach more object.tree rest := by
  induction object with
  | identifier own =>
    refine ⟨0, own, [], rfl, fun more rest => ?_⟩
    rw [Nat.zero_add]
    rfl
  | index object span expr ih =>
    obtain ⟨news, own, suffixes, parts, attached⟩ := ih
    refine ⟨news, own, suffixes ++ [.index span expr], ?_, fun more rest => ?_⟩
    · rw [Member.parts, parts, phrase_snoc]
    · rw [List.append_assoc, attached]
      rfl
  | property object span name ih =>
    obtain ⟨news, own, suffixes, parts, attached⟩ := ih
    refine ⟨news, own, suffixes ++ [.property span name], ?_, fun more rest => ?_⟩
    · rw [Member.parts, parts, phrase_snoc]
    · rw [List.append_assoc, attached]
      rfl
  | instantiation object args ih =>
    obtain ⟨news, own, suffixes, parts, attached⟩ := ih
    refine ⟨news + 1, own, suffixes ++ [.ofArguments args], ?_, fun more rest => ?_⟩
    · rw [Member.parts, parts, phrase_snoc]
      rfl
    · rw [List.append_assoc, Nat.add_right_comm, Nat.add_assoc, attached]
      rfl

theorem addNews_addNews (first second : Nat) (expr : Node .lhs) :
    addNews second (addNews first expr) = addNews (first + second) expr := by
  cases expr with
  | newExpr span count object => rw [addNews, addNews, addNews, Nat.add_assoc]
  | call _ _ _ _ => rfl

theorem New.attach_tree (expr : New) : ∃ news own suffixes, expr.parts = phrase news own suffixes ∧
    ∀ more, attach (news + more) (base own) suffixes = addNews more expr.tree := by
  induction expr with
  | ofMember object =>
    obtain ⟨news, own, suffixes, parts, attached⟩ := object.attach_tree
    refine ⟨news, own, suffixes, parts, fun more => ?_⟩
    have closed := attached more []
    rw [List.append_nil] at closed
    rw [closed, attach, New.tree, addNews, Nat.zero_add]
  | new inner ih =>
    obtain ⟨news, own, suffixes, parts, attached⟩ := ih
    refine ⟨news + 1, own, suffixes, congrArg (LhsPart.new :: ·) parts, fun more => ?_⟩
    rw [Nat.add_assoc, attached, New.tree, addNews_addNews]

theorem foldl_addSuffix (span : Span) (callee : Node .member) (args : Node .arguments)
    (list list' : List (Node (.modifier true))) :
    list'.foldl addSuffix (.call span callee args (ofList list)) = .call span callee args (ofList (list ++ list')) := by
  induction list' generalizing list with
  | nil => rw [List.append_nil, List.foldl_nil]
  | cons last list' ih =>
    rw [List.foldl_cons, addSuffix, snoc_ofList, ih, List.append_assoc]
    rfl

theorem Call.attach_tree (expr : Call) : ∃ news own suffixes, expr.parts = phrase news own suffixes ∧
    ∀ rest, attach news (base own) (suffixes ++ rest) = rest.foldl addSuffix expr.tree := by
  induction expr with
  | ofMember callee args =>
    obtain ⟨news, own, suffixes, parts, attached⟩ := callee.attach_tree
    refine ⟨news, own, suffixes ++ [.ofArguments args], ?_, fun rest => ?_⟩
    · rw [Call.parts, parts, phrase_snoc]
    · rw [List.append_assoc, ← Nat.add_zero news, attached]
      exact (foldl_addSuffix .zero callee.tree args [] rest).symm
  | suffix inner last ih =>
    obtain ⟨news, own, suffixes, parts, attached⟩ := ih
    refine ⟨news, own, suffixes ++ [last], ?_, fun rest => ?_⟩
    · rw [Call.parts, parts, phrase_snoc]
    · rw [List.append_assoc, attached]
      rfl

/-- Whatever way a left-hand side is derived, its tree is the pairing. -/
theorem Lhs.tree_eq {expr : Lhs} {news : Nat} {own : Bytes} {suffixes : List (Node (.modifier true))}
    (parts : expr.parts = phrase news own suffixes) : expr.tree = pairing news own suffixes := by
  rw [pairing_eq_attach]
  cases expr with
  | ofNew expr =>
    obtain ⟨news', own', suffixes', parts', attached⟩ := expr.attach_tree
    obtain ⟨rfl, rfl, rfl⟩ := phrase_inj (parts'.symm.trans parts)
    have none (lhs : Node .lhs) : addNews 0 lhs = lhs := by cases lhs <;> rfl
    exact ((attached 0).trans (none _)).symm
  | ofCall expr =>
    obtain ⟨news', own', suffixes', parts', attached⟩ := expr.attach_tree
    obtain ⟨rfl, rfl, rfl⟩ := phrase_inj (parts'.symm.trans parts)
    have closed := attached []
    rw [List.append_nil] at closed
    exact closed.symm

/-! There is a derivation -/

theorem exists_new (news : Nat) (object : Member) :
    ∃ expr : New, expr.parts = List.replicate news LhsPart.new ++ object.parts := by
  induction news with
  | zero => exact ⟨.ofMember object, rfl⟩
  | succ news ih =>
    obtain ⟨expr, parts⟩ := ih
    exact ⟨.new expr, congrArg (LhsPart.new :: ·) parts⟩

theorem exists_call (expr : Call) (suffixes : List (Node (.modifier true))) :
    ∃ whole : Call, whole.parts = expr.parts ++ suffixes.map LhsPart.suffix := by
  induction suffixes generalizing expr with
  | nil => exact ⟨expr, (List.append_nil _).symm⟩
  | cons first rest ih =>
    obtain ⟨whole, parts⟩ := ih (.suffix expr first)
    refine ⟨whole, ?_⟩
    rw [parts, Call.parts, List.append_assoc]
    rfl

theorem exists_lhs (news : Nat) (object : Member) (suffixes : List (Node (.modifier true))) :
    ∃ expr : Lhs, expr.parts =
      List.replicate news LhsPart.new ++ (object.parts ++ suffixes.map LhsPart.suffix) := by
  induction suffixes generalizing news object with
  | nil =>
    obtain ⟨expr, parts⟩ := exists_new news object
    exact ⟨.ofNew expr, by rw [List.map_nil, List.append_nil]; exact parts⟩
  | cons first rest ih =>
    rw [List.map_cons]
    cases first with
    | index span expr =>
      obtain ⟨whole, parts⟩ := ih news (.index object span expr)
      exact ⟨whole, by rw [parts, Member.parts, List.append_assoc, List.singleton_append]⟩
    | property span own =>
      obtain ⟨whole, parts⟩ := ih news (.property object span own)
      exact ⟨whole, by rw [parts, Member.parts, List.append_assoc, List.singleton_append]⟩
    | ofArguments args =>
      cases news with
      | zero =>
        obtain ⟨whole, parts⟩ := exists_call (.ofMember object args) rest
        exact ⟨.ofCall whole, by rw [Lhs.parts, parts, Call.parts, List.append_assoc]; rfl⟩
      | succ news =>
        obtain ⟨whole, parts⟩ := ih news (.instantiation object args)
        refine ⟨whole, ?_⟩
        rw [parts, Member.parts, List.replicate_succ']
        simp only [List.append_assoc, List.cons_append, List.nil_append]

end Derivation

namespace Program

open EcmaFold.Tree Slot Grammar EcmaFold.Derivation

/-- The source of `new`s with a space behind each, an identifier, and suffixes in their normalised form. -/
def pairingSource (news : Nat) (own : Bytes) (suffixes : List (Node (.modifier true))) : Bytes :=
  (List.replicate news (utf8 "new ")).flatten ++ (own ++ suffixes.flatMap format)

theorem laidText_pairing (news : Nat) (own : Bytes) (suffixes : List (Node (.modifier true))) :
    (pairing news own suffixes).laidText = pairingSource news own suffixes := by
  have text : (base own).laidText = own := by
    rw [base, laidText_member rfl]
    exact (List.append_nil _).trans (List.append_nil _)
  have takes : TakesAccess (base own) := rfl
  rw [pairing_eq_attach, laidText_attach news takes, text]
  rfl

/-- The source is scanned as the tokens of the pairing. -/
theorem covers_pairingSource {own : Bytes} (identifier : Name.identifier? own = some own) (news : Nat)
    {suffixes : List (Node (.modifier true))} (proper : ∀ suffix ∈ suffixes, suffix.All Proper)
    (valid : ∀ suffix ∈ suffixes, suffix.All ValidString) :
    Covers (pairing news own suffixes).yield (Lexeme.marks false (pairingSource news own suffixes))
      [(.ending, false)] := by
  have properLhs : (pairing news own suffixes).All Proper :=
    allowsLhs_proper.pairing ⟨nofun, identifier, trivial⟩ proper
  have validLhs : (pairing news own suffixes).All ValidString :=
    allowsLhs_validString.pairing ⟨trivial, trivial, trivial⟩ valid
  have laid := (pairing news own suffixes).laid properLhs validLhs
  have lays : Lays _ _ [] false := laid.node 0 Kind.noConfusion [] rfl false
  rw [Lays, List.append_nil] at lays
  rwa [← laidText_pairing]

/-- A source of `new`s, an identifier and suffixes is accepted as an expression, however it is spaced, and its tree is
their pairing. The left-recursive grammar derives the same parts, and all its derivations have this tree. -/
theorem parseExpression_pairing {own : Bytes} (identifier : Name.identifier? own = some own) (news : Nat)
    {suffixes : List (Node (.modifier true))} (proper : ∀ suffix ∈ suffixes, suffix.All Proper) :
    (∀ source newline, Covers (List.replicate news (word .kwNew) ++ .name own :: (suffixes.map yield).flatten)
        (Lexeme.marks false source) [(.ending, newline)] →
      ∃ expr, parseExpression source = .ok expr ∧ Same expr (exprOf (pairing news own suffixes))) ∧
    ((∀ suffix ∈ suffixes, suffix.All ValidString) →
      ∃ expr, parseExpression (pairingSource news own suffixes) = .ok expr ∧
        Same expr (exprOf (pairing news own suffixes))) ∧
    (∃ expr : Derivation.Lhs, expr.parts = LhsPart.phrase news own suffixes) ∧
    ∀ expr : Derivation.Lhs, expr.parts = LhsPart.phrase news own suffixes →
      expr.tree = pairing news own suffixes := by
  have properExpr : (exprOf (pairing news own suffixes)).All Proper :=
    all_exprOf (allowsLhs_proper.pairing ⟨nofun, identifier, trivial⟩ proper)
  have accepted {source : Bytes} {newline : Bool}
      (covers : Covers (pairing news own suffixes).yield (Lexeme.marks false source) [(.ending, newline)]) :
      ∃ expr, parseExpression source = .ok expr ∧ Same expr (exprOf (pairing news own suffixes)) := by
    rw [← yield_exprOf] at covers
    exact parseExpression_of_covers properExpr covers
  refine ⟨fun source newline covers => ?_, fun valid => ?_, exists_lhs news (.identifier own) suffixes,
    fun expr parts => Lhs.tree_eq parts⟩
  · rw [← yield_pairing] at covers
    exact accepted covers
  · exact accepted (covers_pairingSource identifier news proper valid)

/-- Both `new`s take an argument list, each with what stands behind it, and the third list calls. -/
theorem parseExpression_pairing_call : ∃ expr, parseExpression (utf8 "new new x.a()().b().c") = .ok expr ∧
    Same expr (exprOf (.call .zero
      (.member .zero (.instantiated (.instantiation .zero (.ofInstantiation (.instantiation .zero
        (.member .zero (.ident .zero (utf8 "x")) (ofList [.property .zero (utf8 "a")]))
        (.arguments .zero .nil))) (.arguments .zero .nil))) (ofList [.property .zero (utf8 "b")]))
      (.arguments .zero .nil) (ofList [.property .zero (utf8 "c")]))) := by
  let suffixes : List (Node (.modifier true)) := [.property .zero (utf8 "a"), .ofArguments (.arguments .zero .nil),
    .ofArguments (.arguments .zero .nil), .property .zero (utf8 "b"), .ofArguments (.arguments .zero .nil),
    .property .zero (utf8 "c")]
  have identifier : Name.identifier? (utf8 "x") = some (utf8 "x") := by decide +kernel
  have named : ∀ own ∈ [utf8 "a", utf8 "b", utf8 "c"], Name.read? own = some own := by decide +kernel
  have proper : ∀ suffix ∈ suffixes, suffix.All Proper := by
    simp_all [suffixes, All, Proper]
  have valid : ∀ suffix ∈ suffixes, suffix.All ValidString := by
    simp [suffixes, All, ValidString]
  have source : pairingSource 2 (utf8 "x") suffixes = utf8 "new new x.a()().b().c" := by decide +kernel
  rw [← source]
  exact (parseExpression_pairing identifier 2 proper).2.1 valid

end Program

end EcmaFold
