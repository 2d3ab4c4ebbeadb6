import EcmaFold.Lexeme

/-!
The operators of expressions and the ten binary precedence tiers.
-/

namespace EcmaFold

/-- The binary precedence tiers, the loosest first. -/
inductive Tier where
  | logicalOr | logicalAnd | bitOr | bitXor | bitAnd | equality | relational | shift | additive
  | multiplicative
  deriving DecidableEq, Repr

/-- The binary operators. -/
inductive BinaryOp where
  | lor | land | bitOr | bitXor | bitAnd
  | eq | ne | strictEq | strictNe
  | lt | gt | le | ge | instanceOf | isIn
  | shl | sar | shr | add | sub | mul | div | mod
  deriving DecidableEq, Repr

namespace BinaryOp

def all : List BinaryOp :=
  [lor, land, bitOr, bitXor, bitAnd, eq, ne, strictEq, strictNe, lt, gt, le, ge, instanceOf, isIn,
    shl, sar, shr, add, sub, mul, div, mod]

/-- The tier that an operator belongs to. -/
def tier : BinaryOp → Tier
  | lor => .logicalOr
  | land => .logicalAnd
  | bitOr => .bitOr
  | bitXor => .bitXor
  | bitAnd => .bitAnd
  | eq | ne | strictEq | strictNe => .equality
  | lt | gt | le | ge | instanceOf | isIn => .relational
  | shl | sar | shr => .shift
  | add | sub => .additive
  | mul | div | mod => .multiplicative

def token : BinaryOp → Token
  | lor => .punct .lor
  | land => .punct .land
  | bitOr => .punct .or
  | bitXor => .punct .xor
  | bitAnd => .punct .and
  | eq => .punct .eq
  | ne => .punct .ne
  | strictEq => .punct .strictEq
  | strictNe => .punct .strictNe
  | lt => .punct .lt
  | gt => .punct .gt
  | le => .punct .le
  | ge => .punct .ge
  | instanceOf => .keyword .kwInstanceof
  | isIn => .keyword .kwIn
  | shl => .punct .shl
  | sar => .punct .sar
  | shr => .punct .shr
  | add => .punct .add
  | sub => .punct .sub
  | mul => .punct .mul
  | div => .punct .div
  | mod => .punct .mod

/-- The binary operator that a token spells. -/
def ofToken? : Token → Option BinaryOp
  | .punct .lor => some lor
  | .punct .land => some land
  | .punct .or => some bitOr
  | .punct .xor => some bitXor
  | .punct .and => some bitAnd
  | .punct .eq => some eq
  | .punct .ne => some ne
  | .punct .strictEq => some strictEq
  | .punct .strictNe => some strictNe
  | .punct .lt => some lt
  | .punct .gt => some gt
  | .punct .le => some le
  | .punct .ge => some ge
  | .keyword .kwInstanceof => some instanceOf
  | .keyword .kwIn => some isIn
  | .punct .shl => some shl
  | .punct .sar => some sar
  | .punct .shr => some shr
  | .punct .add => some add
  | .punct .sub => some sub
  | .punct .mul => some mul
  | .punct .div => some div
  | .punct .mod => some mod
  | _ => none

end BinaryOp

/-- The operators of one tier. -/
abbrev Tier.Op (tier : Tier) := { op : BinaryOp // op.tier = tier }

/-- The operator of a tier that a token spells. Where `allowIn` is false the operator `in` is
none. -/
def Tier.opOf? (tier : Tier) (allowIn : Bool) (token : Token) : Option tier.Op :=
  match BinaryOp.ofToken? token with
  | some op => if h : op.tier = tier then
      if op = .isIn ∧ allowIn = false then none else some ⟨op, h⟩
    else none
  | none => none

/-- The operators before an operand. -/
inductive UnaryOp where
  | delete | void | typeof | inc | dec | plus | minus | bitNot | not
  deriving DecidableEq, Repr

namespace UnaryOp

def token : UnaryOp → Token
  | delete => .keyword .kwDelete
  | void => .keyword .kwVoid
  | typeof => .keyword .kwTypeof
  | inc => .punct .inc
  | dec => .punct .dec
  | plus => .punct .add
  | minus => .punct .sub
  | bitNot => .punct .bitNot
  | not => .punct .not

def ofToken? : Token → Option UnaryOp
  | .keyword .kwDelete => some delete
  | .keyword .kwVoid => some void
  | .keyword .kwTypeof => some typeof
  | .punct .inc => some inc
  | .punct .dec => some dec
  | .punct .add => some plus
  | .punct .sub => some minus
  | .punct .bitNot => some bitNot
  | .punct .not => some not
  | _ => none

/-- Whether the operator is spelled as a word. -/
def isWord : UnaryOp → Bool
  | delete | void | typeof => true
  | _ => false

end UnaryOp

/-- The operators after an operand. -/
inductive UpdateOp where
  | inc | dec
  deriving DecidableEq, Repr

namespace UpdateOp

def token : UpdateOp → Token
  | inc => .punct .inc
  | dec => .punct .dec

def ofToken? : Token → Option UpdateOp
  | .punct .inc => some inc
  | .punct .dec => some dec
  | _ => none

end UpdateOp

/-- The assignment operators. -/
inductive AssignOp where
  | set | add | sub | mul | div | mod | shl | sar | shr | bitAnd | bitOr | bitXor
  deriving DecidableEq, Repr

namespace AssignOp

def token : AssignOp → Token
  | set => .punct .assign
  | add => .punct .addAssign
  | sub => .punct .subAssign
  | mul => .punct .mulAssign
  | div => .punct .divAssign
  | mod => .punct .modAssign
  | shl => .punct .shlAssign
  | sar => .punct .sarAssign
  | shr => .punct .shrAssign
  | bitAnd => .punct .andAssign
  | bitOr => .punct .orAssign
  | bitXor => .punct .xorAssign

def ofToken? : Token → Option AssignOp
  | .punct .assign => some set
  | .punct .addAssign => some add
  | .punct .subAssign => some sub
  | .punct .mulAssign => some mul
  | .punct .divAssign => some div
  | .punct .modAssign => some mod
  | .punct .shlAssign => some shl
  | .punct .sarAssign => some sar
  | .punct .shrAssign => some shr
  | .punct .andAssign => some bitAnd
  | .punct .orAssign => some bitOr
  | .punct .xorAssign => some bitXor
  | _ => none

end AssignOp

def BinaryOp.spelling (op : BinaryOp) : Bytes := op.token.spelling
def UnaryOp.spelling (op : UnaryOp) : Bytes := op.token.spelling
def UpdateOp.spelling (op : UpdateOp) : Bytes := op.token.spelling
def AssignOp.spelling (op : AssignOp) : Bytes := op.token.spelling

end EcmaFold
