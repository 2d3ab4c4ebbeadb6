import EcmaFold.Tree.Walk

/-!
Trees as normalised source text. A tree is laid out as a list of pieces, tokens and the white space
between them; the tokens alone are the yield of the tree.
-/

namespace EcmaFold

/-- A piece of normalised source. -/
inductive Piece where
  | token (t : Token)
  | space
  /-- A new line that begins `depth` steps deep. -/
  | newline (depth : Nat)

namespace Piece

def punct (p : Punct) : Piece := token (.punct p)

def word (w : Word) : Piece := token (.keyword w)

def name (spelling : Bytes) : Piece := token (.name spelling)

def bytes : Piece → Bytes
  | token t => t.spelling
  | space => [0x20]
  | newline depth => 0x0A :: Bytes.spaces (4 * depth)

def token? : Piece → Option Token
  | token t => some t
  | _ => none

end Piece

namespace Layout

open Piece

/-- Parts with a comma and a space between two of them. -/
def commas : List (List Piece) → List Piece
  | [] => []
  | [part] => part
  | part :: rest => part ++ [punct .comma, space] ++ commas rest

/-- Parts on new lines. -/
def lines (depth : Nat) (parts : List (List Piece)) : List Piece :=
  parts.flatMap (newline depth :: ·)

/-- Parts on lines of their own, the first without a new line before it. -/
def paragraphs : List (List Piece) → List Piece
  | [] => []
  | [part] => part ++ [newline 0]
  | part :: rest => part ++ [newline 0] ++ paragraphs rest

/-- Parts in braces one step deeper; braces around nothing touch each other. -/
def braces (depth : Nat) (parts : List (List Piece)) : List Piece :=
  [punct .lbrace] ++ lines (depth + 1) parts ++
    (if parts.isEmpty then [] else [newline depth]) ++ [punct .rbrace]

/-- An expression in the parentheses of a statement's head. -/
def head (w : Word) (expr : List Piece) : List Piece :=
  [word w, space, punct .lparen] ++ expr ++ [punct .rparen, space]

/-- The parts of a loop head after the initialisation. -/
def clauses (cond post : List (List Piece)) : List Piece :=
  cond.flatMap (space :: ·) ++ [punct .semicolon] ++ post.flatMap (space :: ·)

/-- A function with an optional name. -/
def function (depth : Nat) (own : Option Bytes) (params : List Bytes) (body : List (List Piece)) :
    List Piece :=
  [word .kwFunction] ++ (own.toList.flatMap fun n => [space, name n]) ++
    [punct .lparen] ++ commas (params.map fun n => [name n]) ++ [punct .rparen, space] ++
    braces depth body

/-- A jump with an optional label. -/
def jump (w : Word) (label : Option Bytes) : List Piece :=
  [word w] ++ (label.toList.flatMap fun n => [space, name n]) ++ [punct .semicolon]

/-- Whether two unary operators would run together without a space: `- -x` is not `--x`. -/
def wouldMerge (op next : UnaryOp) : Bool :=
  match op, next with
  | .plus, .plus | .plus, .inc | .inc, .plus | .inc, .inc => true
  | .minus, .minus | .minus, .dec | .dec, .minus | .dec, .dec => true
  | _, _ => false

/-- Unary operators. A word is always followed by a space; another operator is, if it would run into
the next or the next is a word. -/
def unaryOps : List UnaryOp → List Piece
  | [] => []
  | op :: rest =>
    let apart := op.isWord || rest.head?.any fun next => wouldMerge op next || next.isWord
    [token op.token] ++ (if apart then [space] else []) ++ unaryOps rest

/-- Whether a number is spelled so that a point right behind it would become part of it. -/
def takesPoint (number : Number) : Bool :=
  number.raw.all fun b => !(b = 0x2E || b = 0x65 || b = 0x45 || b = 0x78 || b = 0x58)

end Layout

namespace Tree

open Layout Piece

/-- Whether a property access right behind this node needs a space before its point. -/
def needsSpace : {shape : Shape} → Tree shape → Bool
  | _, numberLit _ value => takesPoint value
  | _, _ => false

/-- Whether a list begins with a property access. -/
def startsWithProperty : {shape : Shape} → Tree shape → Bool
  | _, cons (property ..) _ => true
  | _, _ => false

/-- The pieces of the nodes of a tree: one list for a node, and one for each node of a list. -/
def layout : {shape : Shape} → Tree shape → (depth : Nat) → List (List Piece)
  | _, nil, _ => []
  | _, cons node rest, d => node.layout d ++ rest.layout d
  | _, absent, _ => []
  | _, present node, d => node.layout d
  | _, program _ elements, d => [paragraphs (elements.layout d)]
  | _, funcDecl _ own params body, d => [function d (some own) params (body.layout (d + 1))]
  | _, ofStatement node, d => node.layout d
  | _, ofBlock node, d => node.layout d
  | _, block _ list, d => [braces d (list.layout (d + 1))]
  | _, varStmt _ list, d => [[word .kwVar, space] ++ commas (list.layout d) ++ [punct .semicolon]]
  | _, declaration _ own init, d =>
    [[name own] ++ (init.layout d).flatMap ([space, punct .assign, space] ++ ·)]
  | _, emptyStmt _, _ => [[punct .semicolon]]
  | _, exprStmt _ expr, d => [(expr.layout d).flatten ++ [punct .semicolon]]
  | _, ifStmt _ cond yes no, d =>
    [head .kwIf (cond.layout d).flatten ++ (yes.layout d).flatten ++
      (no.layout d).flatMap ([space, word .kwElse, space] ++ ·)]
  | _, doWhile _ body cond, d =>
    [[word .kwDo, space] ++ (body.layout d).flatten ++
      [space, word .kwWhile, space, punct .lparen] ++ (cond.layout d).flatten ++
      [punct .rparen, punct .semicolon]]
  | _, whileStmt _ cond body, d =>
    [head .kwWhile (cond.layout d).flatten ++ (body.layout d).flatten]
  | _, forStmt _ init cond post body, d =>
    [head .kwFor ((init.layout d).flatten ++ [punct .semicolon] ++
        clauses (cond.layout d) (post.layout d)) ++ (body.layout d).flatten]
  | _, forVar _ decls cond post body, d =>
    [head .kwFor ([word .kwVar, space] ++ commas (decls.layout d) ++ [punct .semicolon] ++
        clauses (cond.layout d) (post.layout d)) ++ (body.layout d).flatten]
  | _, forIn _ into object body, d =>
    [head .kwFor ((into.layout d).flatten ++ [space, word .kwIn, space] ++
        (object.layout d).flatten) ++ (body.layout d).flatten]
  | _, forInVar _ decl object body, d =>
    [head .kwFor ([word .kwVar, space] ++ (decl.layout d).flatten ++ [space, word .kwIn, space] ++
        (object.layout d).flatten) ++ (body.layout d).flatten]
  | _, continueStmt _ label, _ => [jump .kwContinue label]
  | _, breakStmt _ label, _ => [jump .kwBreak label]
  | _, returnStmt _ value, d =>
    [[word .kwReturn] ++ (value.layout d).flatMap (space :: ·) ++ [punct .semicolon]]
  | _, withStmt _ object body, d =>
    [head .kwWith (object.layout d).flatten ++ (body.layout d).flatten]
  | _, labeled _ label body, d => [[name label, punct .colon, space] ++ (body.layout d).flatten]
  | _, switchStmt _ tag cases fallback trailing, d =>
    [head .kwSwitch (tag.layout d).flatten ++ [punct .lbrace] ++
      lines (d + 1) (cases.layout (d + 1) ++ fallback.layout (d + 1) ++ trailing.layout (d + 1)) ++
      [newline d, punct .rbrace]]
  | _, caseClause _ value body, d =>
    [[word .kwCase, space] ++ (value.layout d).flatten ++ [punct .colon] ++
      lines (d + 1) (body.layout (d + 1))]
  | _, defaultClause _ body, d =>
    [[word .kwDefault, punct .colon] ++ lines (d + 1) (body.layout (d + 1))]
  | _, throwStmt _ value, d =>
    [[word .kwThrow, space] ++ (value.layout d).flatten ++ [punct .semicolon]]
  | _, tryStmt _ body handler cleanup, d =>
    [[word .kwTry, space] ++ (body.layout d).flatten ++ (handler.layout d).flatMap (space :: ·) ++
      (cleanup.layout d).flatMap ([space, word .kwFinally, space] ++ ·)]
  | _, catchClause _ param body, d => [head .kwCatch [name param] ++ (body.layout d).flatten]
  | _, debugger _, _ => [[word .kwDebugger, punct .semicolon]]
  | _, sequence _ list, d => [commas (list.layout d)]
  | _, assign _ targets value, d => [(targets.layout d).flatten ++ (value.layout d).flatten]
  | _, target node op, d => [(node.layout d).flatten ++ [space, token op.token, space]]
  | _, plain _ value, d => value.layout d
  | _, ternary _ test yes no, d =>
    [(test.layout d).flatten ++ [space, punct .question, space] ++ (yes.layout d).flatten ++
      [space, punct .colon, space] ++ (no.layout d).flatten]
  | _, level _ _ first operations, d => [(first.layout d).flatten ++ (operations.layout d).flatten]
  | _, operation _ op _ node, d => [[space, token op.1.token, space] ++ (node.layout d).flatten]
  | _, unary _ ops operand, d => [unaryOps ops ++ (operand.layout d).flatten]
  | _, update _ operand op, d =>
    [(operand.layout d).flatten ++ (op.toList.map fun op => token op.token)]
  | _, call _ callee args modifiers, d =>
    [(callee.layout d).flatten ++ (args.layout d).flatten ++ (modifiers.layout d).flatten]
  | _, newExpr _ count object, d =>
    [(List.replicate count [word .kwNew, space]).flatten ++ (object.layout d).flatten]
  | _, member _ object modifiers, d =>
    [(object.layout d).flatten ++
      (if object.needsSpace && modifiers.startsWithProperty then [space] else []) ++
      (modifiers.layout d).flatten]
  | _, ofInstantiation node, d => node.layout d
  | _, instantiation _ object args, d =>
    [[word .kwNew, space] ++ (object.layout d).flatten ++ (args.layout d).flatten]
  | _, arguments _ list, d => [[punct .lparen] ++ commas (list.layout d) ++ [punct .rparen]]
  | _, ofArguments node, d => node.layout d
  | _, index _ expr, d => [[punct .lbracket] ++ (expr.layout d).flatten ++ [punct .rbracket]]
  | _, property _ own, _ => [[punct .dot, token (.ofName own)]]
  | _, thisExpr _, _ => [[word .kwThis]]
  | _, ident _ own, _ => [[name own]]
  | _, nullLit _, _ => [[word .kwNull]]
  | _, boolLit _ value, _ => [[word (if value then .kwTrue else .kwFalse)]]
  | _, numberLit _ value, _ => [[token (.number value)]]
  | _, stringLit _ value, _ => [[token (.string value)]]
  | _, arrayLit _ elements, d =>
    [[punct .lbracket] ++ commas (elements.layout d) ++ [punct .rbracket]]
  | _, paren _ expr, d => [[punct .lparen] ++ (expr.layout d).flatten ++ [punct .rparen]]
  | _, funcExpr _ own params body, d => [function d own params (body.layout (d + 1))]
  | _, instantiated node, d => node.layout d

/-- The tokens of a tree in source order. -/
def tokens {shape : Shape} (tree : Tree shape) : List Token :=
  (tree.layout 0).flatten.filterMap Piece.token?

/-- A node as normalised source. A clause is no source by itself and has no text. -/
def format : {kind : Kind} → Node kind → Bytes
  | .caseClause, _ | .defaultClause, _ | .catchClause, _ => []
  | _, node => (node.layout 0).flatten.flatMap Piece.bytes

end Tree

namespace AnyNode

/-- The normalised source of a node that may be missing, which then has none. -/
def format? : Option AnyNode → Bytes
  | some any => any.node.format
  | none => []

end AnyNode

end EcmaFold
