import EcmaFold.Parser.Statement
import EcmaFold.Proofs.Parser.Outcome

/-!
First tokens. Every production decides on its next token before it uses the grammar it is written over, so
where that token starts nothing of its kind, the production fails at any depth of nesting.
-/

namespace EcmaFold

/-- The words that an expression can start with. -/
def Word.startsExpression : Word → Bool
  | kwThis | kwNull | kwTrue | kwFalse | kwFunction | kwNew | kwDelete | kwVoid | kwTypeof => true
  | _ => false

/-- The punctuators that an expression can start with. -/
def Punct.startsExpression : Punct → Bool
  | lparen | lbracket | inc | dec | add | sub | bitNot | not => true
  | _ => false

/-- The words that a statement can start with. -/
def Word.startsStatement : Word → Bool
  | kwVar | kwIf | kwDo | kwWhile | kwFor | kwContinue | kwBreak | kwReturn | kwWith | kwSwitch | kwThrow
  | kwTry | kwDebugger => true
  | w => w.startsExpression

/-- The punctuators that a statement can start with. -/
def Punct.startsStatement : Punct → Bool
  | semicolon | lbrace => true
  | p => p.startsExpression

namespace Token

/-- The tokens that an expression can start with. -/
def startsExpression : Token → Bool
  | number _ | string _ | name _ => true
  | keyword w => w.startsExpression
  | punct p => p.startsExpression
  | stray _ | ending => false

/-- The tokens that a statement can start with. -/
def startsStatement : Token → Bool
  | number _ | string _ | name _ => true
  | keyword w => w.startsStatement
  | punct p => p.startsStatement
  | stray _ | ending => false

theorem startsStatement_of_startsExpression {t : Token} (starts : t.startsExpression = true) :
    t.startsStatement = true := by
  cases t with
  | keyword w => revert starts; cases w <;> decide
  | punct p => revert starts; cases p <;> decide
  | _ => exact starts

end Token

namespace Cursor

/-- No expression can start at the cursor. -/
def NoExpression (c : Cursor) : Prop := ∀ t ∈ c.next?, t.startsExpression = false

/-- No statement can start at the cursor. -/
def NoStatement (c : Cursor) : Prop := ∀ t ∈ c.next?, t.startsStatement = false

theorem NoStatement.noExpression {c : Cursor} (noStart : c.NoStatement) : c.NoExpression := by
  intro t next
  rw [← Bool.not_eq_true]
  intro starts
  have stuck := noStart t next
  rw [Token.startsStatement_of_startsExpression starts] at stuck
  cases stuck

end Cursor

namespace Grammar

open EcmaFold.Parser

variable (g : Grammar)

theorem functionExpr_fails {c : Cursor} (noStart : ∀ t ∈ c.next?, t ≠ .keyword .kwFunction) :
    g.functionExpr.Fails c := by
  have missing : (require (.word .kwFunction)).Fails c := by
    simpa using noStart
  simp [functionExpr, missing]

theorem atom_fails {c : Cursor} (noStart : ∀ t ∈ c.next?, atom? t = none) : atom.Fails c := by
  have missing : (accept atom?).Gives c none c := by simpa using noStart
  rw [atom, spanned_fails, bind_fails]
  exact .inr ⟨_, _, missing, by simp⟩

theorem arrayLit_fails {c : Cursor} (noStart : ∀ t ∈ c.next?, t ≠ .punct .lbracket) :
    g.arrayLit.Fails c := by
  have missing : (require (.punct .lbracket)).Fails c := by
    simpa using noStart
  simp [arrayLit, missing]

theorem paren_fails {c : Cursor} (noStart : ∀ t ∈ c.next?, t ≠ .punct .lparen) : g.paren.Fails c := by
  have missing : (take (.punct .lparen)).Gives c false c := by
    simpa using noStart
  rw [paren, spanned_fails, bind_fails]
  exact .inr ⟨_, _, missing, by simp⟩

theorem atom?_eq_none {t : Token} (noStart : t.startsExpression = false) : atom? t = none := by
  cases t with
  | keyword w => revert noStart; cases w <;> simp [atom?, Token.startsExpression, Word.startsExpression]
  | _ => first | rfl | cases noStart

theorem unaryOp_eq_none {t : Token} (noStart : t.startsExpression = false) : UnaryOp.ofToken? t = none := by
  cases t with
  | keyword w =>
    revert noStart; cases w <;> simp [UnaryOp.ofToken?, Token.startsExpression, Word.startsExpression]
  | punct p =>
    revert noStart; cases p <;> simp [UnaryOp.ofToken?, Token.startsExpression, Punct.startsExpression]
  | _ => rfl

theorem member_fails {c : Cursor} (noStart : c.NoExpression) : g.member.Fails c := by
  have absent : ∀ u : Token, u.startsExpression = true → ∀ t ∈ c.next?, t ≠ u := by
    rintro u start t next rfl
    rw [noStart t next] at start
    cases start
  have noFunction := g.functionExpr_fails (absent (.keyword .kwFunction) rfl)
  have noAtom := atom_fails fun t next => atom?_eq_none (noStart t next)
  have noArray := g.arrayLit_fails (absent (.punct .lbracket) rfl)
  have noParen := g.paren_fails (absent (.punct .lparen) rfl)
  simp [member, primary, noFunction, noAtom, noArray, noParen]

/-- Where no `new` is next, there is none to pair. -/
theorem news_gives_nil {c : Cursor} (noStart : ∀ t ∈ c.next?, t ≠ .keyword .kwNew) : news.Gives c [] c := by
  have missing : (take (.word .kwNew)).Gives c false c := by
    simpa using noStart
  refine loop_gives_last ?_
  rw [bind_gives]
  refine ⟨_, c, offset_gives.mpr ⟨rfl, rfl⟩, ?_⟩
  rw [bind_gives]
  exact ⟨false, c, missing, by simp⟩

theorem lhs_fails {c : Cursor} (noStart : c.NoExpression) : g.lhs.Fails c := by
  have noNews : news.Gives c [] c := by
    refine news_gives_nil ?_
    rintro t next rfl
    cases noStart _ next
  rw [lhs, spanned_fails, bind_fails]
  refine .inr ⟨[], c, noNews, ?_⟩
  rw [bind_fails]
  exact .inl (g.member_fails noStart)

theorem unary_fails {c : Cursor} (noStart : c.NoExpression) : g.unary.Fails c := by
  have noOps : (manyTokens UnaryOp.ofToken?).Gives c [] c :=
    manyTokens_gives_nil fun t next => unaryOp_eq_none (noStart t next)
  rw [unary, spanned_fails, bind_fails]
  refine .inr ⟨[], c, noOps, ?_⟩
  simp [update, g.lhs_fails noStart]

/-- The number that a point belongs to only changes what is missed. -/
theorem point_result (c : Cursor) : (point c).result = (require (.punct .dot) c).result := by
  obtain ⟨stop, _ | ⟨⟨token, newline, span⟩, rest⟩⟩ := c
  · rfl
  · cases token with
    | number value =>
      have stuck : (require (.punct .dot)).Fails ⟨stop, ⟨.number value, newline, span⟩ :: rest⟩ := by
        simp [Cursor.next?]
      rw [show (require (.punct .dot) _).result = none from stuck]
      simp only [point]
      split <;> rfl
    | _ => rfl

theorem level_fails {tier : Tier} {allowIn : Bool} {operand : Parser (Node tier.operand)} {c : Cursor}
    (stuck : operand.Fails c) : (level tier allowIn operand).Fails c := by
  simp [level, stuck]

theorem cond_fails {allowIn : Bool} {c : Cursor} (noStart : c.NoExpression) : (g.cond allowIn).Fails c := by
  have stuck : (g.logicalOr allowIn).Fails c :=
    level_fails <| level_fails <| level_fails <| level_fails <| level_fails <| level_fails <|
      level_fails <| level_fails <| level_fails <| level_fails <| g.unary_fails noStart
  simp [cond, stuck]

theorem assignExpr_fails {allowIn : Bool} {c : Cursor} (noStart : c.NoExpression) :
    (g.assignExpr allowIn).Fails c := by
  simp [assignExpr, g.cond_fails noStart]

/-- Nothing that starts no expression is read as one, however deep the grammar goes. -/
theorem assign_fails {depth : Nat} {allowIn : Bool} {c : Cursor} (noStart : c.NoExpression) :
    ((ofDepth depth).assign allowIn).Fails c := by
  cases depth with
  | zero => exact fail_fails.mpr trivial
  | succ depth => exact (ofDepth depth).assignExpr_fails noStart

theorem sequence_fails {allowIn : Bool} {c : Cursor} (stuck : (g.assign allowIn).Fails c) :
    (g.sequence allowIn).Fails c := by
  simp [sequence, separated, stuck]

/-- The form of the statements that a word introduces. -/
def wordForm : Word → Unplaced
  | .kwVar => g.varStmt
  | .kwIf => g.ifStmt
  | .kwDo => g.doWhile
  | .kwWhile => g.whileStmt
  | .kwFor => g.forStmt
  | .kwContinue => continueStmt
  | .kwBreak => breakStmt
  | .kwReturn => g.returnStmt
  | .kwWith => g.withStmt
  | .kwSwitch => g.switchStmt
  | .kwThrow => g.throwStmt
  | .kwTry => g.tryStmt
  | .kwDebugger => debugger
  | _ => fail

theorem wordForm_fails {c : Cursor} {w : Word} (noStart : ∀ t ∈ c.next?, t ≠ .keyword w) :
    (g.wordForm w).Fails c := by
  have missing : (require (.word w)).Fails c := by
    simpa using noStart
  cases w <;> first | exact bind_fails.mpr (.inl missing) | exact fail_fails.mpr trivial

theorem exprStmt_fails {c : Cursor} (stuck : (g.assign true).Fails c) : g.exprStmt.Fails c := by
  cases next : c.next?.any (Symbol.isSpelled (.word .kwFunction)) <;>
    simp [exprStmt, next, g.sequence_fails stuck]

theorem emptyStmt_fails {c : Cursor} (noStart : ∀ t ∈ c.next?, t ≠ .punct .semicolon) :
    emptyStmt.Fails c := by
  have missing : (require (.punct .semicolon)).Fails c := by
    simpa using noStart
  exact bind_fails.mpr (.inl missing)

theorem labeled_fails {c : Cursor} (noStart : ∀ t ∈ c.next?, nameOf? t = none) : g.labeled.Fails c := by
  rw [labeled, bind_fails]
  exact .inr ⟨_, c, accept_gives_none.mpr ⟨noStart, rfl⟩, by simp⟩

theorem blockStmt_fails {c : Cursor} (noStart : ∀ t ∈ c.next?, t ≠ .punct .lbrace) :
    g.blockStmt.Fails c := by
  have missing : (ahead (.punct .lbrace)).Gives c false c := by
    rw [ahead_gives, eq_comm, Option.any_eq_false]
    exact ⟨by simpa using noStart, rfl⟩
  rw [blockStmt, bind_fails]
  exact .inr ⟨false, c, missing, by simp⟩

/-- A statement that a word introduces is read by the form of that word. -/
theorem statementForm_gives_of_word {c after : Cursor} {w : Word} {t : Node .statement}
    (next : c.next? = some (.keyword w)) (stuck : (g.assign true).Fails c)
    (run : (spanned (g.wordForm w)).Gives c t after) : g.statementForm.Gives c t after := by
  have other : ∀ v : Word, v ≠ w → (g.wordForm v).Fails c := by
    intro v different
    refine g.wordForm_fails ?_
    rw [next]
    rintro _ ⟨⟩ same
    exact different (by injection same with same; exact same.symm)
  have noExpr := g.exprStmt_fails stuck
  have noEmpty : emptyStmt.Fails c := emptyStmt_fails (by simp [next])
  have noLabeled : g.labeled.Fails c := g.labeled_fails (by simp [next, nameOf?])
  have noVar : Word.kwVar ≠ w → g.varStmt.Fails c := other .kwVar
  have noIf : Word.kwIf ≠ w → g.ifStmt.Fails c := other .kwIf
  have noDo : Word.kwDo ≠ w → g.doWhile.Fails c := other .kwDo
  have noWhile : Word.kwWhile ≠ w → g.whileStmt.Fails c := other .kwWhile
  have noFor : Word.kwFor ≠ w → g.forStmt.Fails c := other .kwFor
  have noContinue : Word.kwContinue ≠ w → Parser.Fails continueStmt c := other .kwContinue
  have noBreak : Word.kwBreak ≠ w → Parser.Fails breakStmt c := other .kwBreak
  have noReturn : Word.kwReturn ≠ w → g.returnStmt.Fails c := other .kwReturn
  have noWith : Word.kwWith ≠ w → g.withStmt.Fails c := other .kwWith
  have noSwitch : Word.kwSwitch ≠ w → g.switchStmt.Fails c := other .kwSwitch
  have noThrow : Word.kwThrow ≠ w → g.throwStmt.Fails c := other .kwThrow
  have noTry : Word.kwTry ≠ w → g.tryStmt.Fails c := other .kwTry
  simp only [statementForm, either_gives, spanned_fails, noExpr, noEmpty, noLabeled]
  cases w <;> simp_all [wordForm]

theorem statementForm_fails {c : Cursor} (stuck : (g.assign true).Fails c) (noStart : c.NoStatement) :
    g.statementForm.Fails c := by
  have absent : ∀ u : Token, u.startsStatement = true → ∀ t ∈ c.next?, t ≠ u := by
    rintro u start t next rfl
    rw [noStart t next] at start
    cases start
  have noForm : ∀ w : Word, w.startsStatement = true → (g.wordForm w).Fails c :=
    fun w start => g.wordForm_fails (absent (.keyword w) start)
  have noLabel : ∀ t ∈ c.next?, nameOf? t = none := by
    intro t next
    have stuck := noStart t next
    cases t <;> first | rfl | cases stuck
  simp only [statementForm, either_fails, spanned_fails]
  exact ⟨g.exprStmt_fails stuck, noForm .kwVar rfl, emptyStmt_fails (absent (.punct .semicolon) rfl),
    noForm .kwIf rfl, noForm .kwDo rfl, noForm .kwWhile rfl, noForm .kwFor rfl, noForm .kwContinue rfl,
    noForm .kwBreak rfl, noForm .kwReturn rfl, noForm .kwWith rfl, g.labeled_fails noLabel,
    noForm .kwSwitch rfl, noForm .kwThrow rfl, noForm .kwTry rfl, noForm .kwDebugger rfl,
    g.blockStmt_fails (absent (.punct .lbrace) rfl)⟩

theorem statement_fails {depth : Nat} {c : Cursor} (noStart : c.NoStatement) :
    (ofDepth depth).statement.Fails c := by
  cases depth with
  | zero => exact fail_fails.mpr trivial
  | succ depth =>
    exact statementForm_fails _ ((ofDepth depth).assignExpr_fails noStart.noExpression) noStart

theorem element_fails {depth : Nat} {c : Cursor} (noStart : c.NoStatement) :
    (ofDepth depth).element.Fails c := by
  cases depth with
  | zero => exact fail_fails.mpr trivial
  | succ depth =>
    have noFunction : (require (.word .kwFunction)).Fails c := by
      rw [require_fails]
      intro t next
      have stuck := noStart t next
      rw [Symbol.not_isSpelled_word]
      rintro rfl
      cases stuck
    have noDecl : (ofDepth depth).funcDecl.Fails c := spanned_fails.mpr (bind_fails.mpr (.inl noFunction))
    have noForm := statementForm_fails ⟨(ofDepth depth).assignExpr, (ofDepth depth).statement, (ofDepth depth).element⟩
      ((ofDepth depth).assignExpr_fails noStart.noExpression) noStart
    exact either_fails.mpr ⟨noDecl, map_fails.mpr noForm⟩

end Grammar

end EcmaFold
