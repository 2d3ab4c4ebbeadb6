import EcmaFold.Text.Bytes

/-!
The fixed vocabulary of the language: punctuators, reserved words, and the numbering that puts both
into one list.
-/

namespace EcmaFold

/-- The punctuators. -/
inductive Punct where
  | lbrace | rbrace | lparen | rparen | lbracket | rbracket
  | dot | semicolon | comma | question | colon
  | lt | gt | le | ge | eq | ne | strictEq | strictNe
  | add | sub | mul | div | mod | inc | dec
  | shl | sar | shr | and | or | xor | not | bitNot | land | lor
  | assign | addAssign | subAssign | mulAssign | divAssign | modAssign
  | shlAssign | sarAssign | shrAssign | andAssign | orAssign | xorAssign
  deriving DecidableEq, Repr

namespace Punct

/-- Every punctuator, in the order of the numbering. -/
def all : List Punct :=
  [lbrace, rbrace, lparen, rparen, lbracket, rbracket, dot, semicolon, comma, question, colon,
    lt, gt, le, ge, eq, ne, strictEq, strictNe, add, sub, mul, div, mod, inc, dec,
    shl, sar, shr, and, or, xor, not, bitNot, land, lor,
    assign, addAssign, subAssign, mulAssign, divAssign, modAssign,
    shlAssign, sarAssign, shrAssign, andAssign, orAssign, xorAssign]

def spelling : Punct → Bytes
  | lbrace => utf8 "\x7b"
  | rbrace => utf8 "\x7d"
  | lparen => utf8 "("
  | rparen => utf8 ")"
  | lbracket => utf8 "["
  | rbracket => utf8 "]"
  | dot => utf8 "."
  | semicolon => utf8 ";"
  | comma => utf8 ","
  | question => utf8 "?"
  | colon => utf8 ":"
  | lt => utf8 "<"
  | gt => utf8 ">"
  | le => utf8 "<="
  | ge => utf8 ">="
  | eq => utf8 "=="
  | ne => utf8 "!="
  | strictEq => utf8 "==="
  | strictNe => utf8 "!=="
  | add => utf8 "+"
  | sub => utf8 "-"
  | mul => utf8 "*"
  | div => utf8 "/"
  | mod => utf8 "%"
  | inc => utf8 "++"
  | dec => utf8 "--"
  | shl => utf8 "<<"
  | sar => utf8 ">>"
  | shr => utf8 ">>>"
  | and => utf8 "&"
  | or => utf8 "|"
  | xor => utf8 "^"
  | not => utf8 "!"
  | bitNot => utf8 "~"
  | land => utf8 "&&"
  | lor => utf8 "||"
  | assign => utf8 "="
  | addAssign => utf8 "+="
  | subAssign => utf8 "-="
  | mulAssign => utf8 "*="
  | divAssign => utf8 "/="
  | modAssign => utf8 "%="
  | shlAssign => utf8 "<<="
  | sarAssign => utf8 ">>="
  | shrAssign => utf8 ">>>="
  | andAssign => utf8 "&="
  | orAssign => utf8 "|="
  | xorAssign => utf8 "^="

/-- `=` and the compound assignment operators. -/
def isAssignment : Punct → Bool
  | assign | addAssign | subAssign | mulAssign | divAssign | modAssign
  | shlAssign | sarAssign | shrAssign | andAssign | orAssign | xorAssign => true
  | _ => false

/-- The punctuators of one length, in the order of the numbering. -/
def ofLength (length : Nat) : List Punct := all.filter (·.spelling.length = length)

/-- The punctuators, the longest first. -/
def longestFirst : List Punct := ofLength 4 ++ ofLength 3 ++ ofLength 2 ++ ofLength 1

/-- The longest punctuator that the bytes begin with. -/
def longest? (bytes : Bytes) : Option Punct :=
  longestFirst.find? (·.spelling.isPrefixOf bytes)

end Punct

/-- What kind of reserved word a word is. -/
inductive Word.Role where
  | keyword | future | literal
  deriving DecidableEq, Repr

/-- The reserved words. -/
inductive Word where
  | kwBreak | kwCase | kwCatch | kwContinue | kwDebugger | kwDefault | kwDelete | kwDo | kwElse
  | kwFinally | kwFor | kwFunction | kwIf | kwIn | kwInstanceof | kwNew | kwReturn | kwSwitch
  | kwThis | kwThrow | kwTry | kwTypeof | kwVar | kwVoid | kwWhile | kwWith
  | kwClass | kwConst | kwEnum | kwExport | kwExtends | kwImplements | kwImport | kwInterface
  | kwLet | kwPackage | kwPrivate | kwProtected | kwPublic | kwStatic | kwSuper | kwYield
  | kwNull | kwTrue | kwFalse
  deriving DecidableEq, Repr

namespace Word

def keywords : List Word :=
  [kwBreak, kwCase, kwCatch, kwContinue, kwDebugger, kwDefault, kwDelete, kwDo, kwElse,
    kwFinally, kwFor, kwFunction, kwIf, kwIn, kwInstanceof, kwNew, kwReturn, kwSwitch,
    kwThis, kwThrow, kwTry, kwTypeof, kwVar, kwVoid, kwWhile, kwWith]

/-- Words kept free for later versions of the language. -/
def futures : List Word :=
  [kwClass, kwConst, kwEnum, kwExport, kwExtends, kwImplements, kwImport, kwInterface,
    kwLet, kwPackage, kwPrivate, kwProtected, kwPublic, kwStatic, kwSuper, kwYield]

def literals : List Word := [kwNull, kwTrue, kwFalse]

/-- Every reserved word, in the order of the numbering. -/
def all : List Word := keywords ++ futures ++ literals

def spelling : Word → Bytes
  | kwBreak => utf8 "break"
  | kwCase => utf8 "case"
  | kwCatch => utf8 "catch"
  | kwContinue => utf8 "continue"
  | kwDebugger => utf8 "debugger"
  | kwDefault => utf8 "default"
  | kwDelete => utf8 "delete"
  | kwDo => utf8 "do"
  | kwElse => utf8 "else"
  | kwFinally => utf8 "finally"
  | kwFor => utf8 "for"
  | kwFunction => utf8 "function"
  | kwIf => utf8 "if"
  | kwIn => utf8 "in"
  | kwInstanceof => utf8 "instanceof"
  | kwNew => utf8 "new"
  | kwReturn => utf8 "return"
  | kwSwitch => utf8 "switch"
  | kwThis => utf8 "this"
  | kwThrow => utf8 "throw"
  | kwTry => utf8 "try"
  | kwTypeof => utf8 "typeof"
  | kwVar => utf8 "var"
  | kwVoid => utf8 "void"
  | kwWhile => utf8 "while"
  | kwWith => utf8 "with"
  | kwClass => utf8 "class"
  | kwConst => utf8 "const"
  | kwEnum => utf8 "enum"
  | kwExport => utf8 "export"
  | kwExtends => utf8 "extends"
  | kwImplements => utf8 "implements"
  | kwImport => utf8 "import"
  | kwInterface => utf8 "interface"
  | kwLet => utf8 "let"
  | kwPackage => utf8 "package"
  | kwPrivate => utf8 "private"
  | kwProtected => utf8 "protected"
  | kwPublic => utf8 "public"
  | kwStatic => utf8 "static"
  | kwSuper => utf8 "super"
  | kwYield => utf8 "yield"
  | kwNull => utf8 "null"
  | kwTrue => utf8 "true"
  | kwFalse => utf8 "false"

def role (w : Word) : Role :=
  if w ∈ keywords then .keyword else if w ∈ futures then .future else .literal

/-- The reserved word that is spelled so. -/
def ofSpelling? (spelling : Bytes) : Option Word := all.find? (·.spelling = spelling)

end Word

/-- A number of the vocabulary: a punctuator, a reserved word, the end of the source, or a number
that names nothing. -/
inductive Symbol where
  | illegal
  | ending
  | punct (p : Punct)
  | word (w : Word)
  deriving DecidableEq, Repr

namespace Symbol

/-- The symbols by their numbers. Each group of punctuators, keywords and future words stands
between two numbers that name nothing. -/
def table : List Symbol :=
  [illegal, ending] ++
    [illegal] ++ Punct.all.map punct ++ [illegal] ++
    [illegal] ++ Word.keywords.map word ++ [illegal] ++
    [illegal] ++ Word.futures.map word ++ [illegal] ++
    Word.literals.map word

/-- The symbol with this number; all numbers past the table name nothing. -/
def ofNumber (number : Nat) : Symbol := table[number]?.getD illegal

def spelling : Symbol → Bytes
  | illegal => utf8 "<illegal>"
  | ending => utf8 "EOF"
  | punct p => p.spelling
  | word w => w.spelling

/-- The first symbol of the table that is spelled so. -/
def ofSpelling (spelling : Bytes) : Symbol :=
  (table.find? (·.spelling = spelling)).getD illegal

def isPunctuator : Symbol → Bool
  | punct _ => true
  | _ => false

def isKeyword : Symbol → Bool
  | word w => w.role = .keyword
  | _ => false

def isFutureReserved : Symbol → Bool
  | word w => w.role = .future
  | _ => false

/-- Reserved words may not be used as identifiers. -/
def isReserved : Symbol → Bool
  | word _ => true
  | _ => false

def isAssignment : Symbol → Bool
  | punct p => p.isAssignment
  | _ => false

end Symbol

end EcmaFold
