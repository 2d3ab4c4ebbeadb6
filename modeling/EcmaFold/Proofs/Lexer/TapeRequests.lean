import EcmaFold.Proofs.Lexer.TapeLiteral

/-!
Sequences of requests. Whatever is asked for, and in whatever order, the head stays in the source and goes where the
rules on texts send it.
-/

namespace EcmaFold

open Tape

/-! Rules -/

/-- A lexical rule, with what it looks for. -/
inductive Rule where
  | punct (symbol : Symbol)
  | punctIn (symbols : List Symbol)
  | keyword (symbol : Symbol)
  | keywordIn (symbols : List Symbol)
  | identifierName
  | identifier
  | number
  | stringLiteral

namespace Rule

/-- What a rule gives where it succeeds. -/
def Value : Rule → Type
  | punct _ | punctIn _ | keyword _ | keywordIn _ => Symbol
  | identifierName | identifier | stringLiteral => Bytes
  | number => Number

/-- Punctuators are looked for as punctuators, and reserved words as words. -/
def isProper : Rule → Bool
  | punct symbol => symbol.isPunctuator
  | punctIn symbols => symbols.all Symbol.isPunctuator
  | keyword symbol => symbol.isReserved
  | keywordIn symbols => symbols.all Symbol.isReserved
  | _ => true

/-- The rule, as the head follows it. -/
def run (find? : Bytes → Option Nat) : (rule : Rule) → Act (Option rule.Value)
  | punct symbol => Act.punctIn [symbol]
  | punctIn symbols => Act.punctIn symbols
  | keyword symbol => Act.keyword symbol
  | keywordIn symbols => Act.keywordIn symbols
  | identifierName => Act.identifierName
  | identifier => Act.identifier
  | number => Act.number find?
  | stringLiteral => Act.stringLiteral

/-- What the rule finds at a place. -/
def read? (find? : Bytes → Option Nat) : (rule : Rule) → Scanner → Option (rule.Value × Scanner)
  | punct symbol => Scanner.punctIn? [symbol]
  | punctIn symbols => Scanner.punctIn? symbols
  | keyword symbol => Scanner.keyword? symbol
  | keywordIn symbols => Scanner.keywordIn? symbols
  | identifierName => Scanner.identifierName?
  | identifier => Scanner.identifier?
  | number => Scanner.numberBy? find?
  | stringLiteral => Scanner.stringLiteral?

variable {find? : Bytes → Option Nat}

theorem run_refines (finds : Pattern.FindsMatches Number.pattern find?) :
    ∀ rule : Rule, Act.Refines (rule.run find?) (rule.read? find?)
  | punct symbol => Act.punctIn_refines [symbol]
  | punctIn symbols => Act.punctIn_refines symbols
  | keyword symbol => Act.keyword_refines symbol
  | keywordIn symbols => Act.keywordIn_refines symbols
  | identifierName => Act.identifierName_refines
  | identifier => Act.identifier_refines
  | number => Act.number_refines finds
  | stringLiteral => Act.stringLiteral_refines

end Rule

/-! Where the rules leave off -/

/-- The place lies behind the trivia, and further if something is asked for. -/
def Scanner.Behind (after s : Scanner) (asked : Bool) : Prop :=
  ∃ width, after = s.skip.advance width ∧ (asked = true → 0 < width)

namespace Scanner

variable {s after : Scanner}

theorem behind_of_punctIn? {symbols : List Symbol} {found : Symbol}
    (stands : s.punctIn? symbols = some (found, after)) : after.Behind s (symbols.all Symbol.isPunctuator) := by
  obtain ⟨width, here, rfl⟩ := rule_eq_some.mp stands
  refine ⟨width, rfl, fun proper => ?_⟩
  obtain ⟨member, same⟩ := Option.ite_none_right_eq_some.mp here
  cases same
  have isPunctuator : (symbolAt s.skip.rest).1.isPunctuator = true := List.all_eq_true.mp proper _ member
  change 0 < (symbolAt s.skip.rest).2
  rw [symbolAt] at isPunctuator ⊢
  cases longest : Punct.longest? s.skip.rest with
  | some p =>
    have positive : ∀ p ∈ Punct.all, 0 < p.spelling.length := by decide
    exact positive p p.mem_all
  | none =>
    rw [longest] at isPunctuator
    cases isPunctuator

theorem behind_of_keyword? {symbol found : Symbol} (stands : s.keyword? symbol = some (found, after)) :
    after.Behind s symbol.isReserved := by
  obtain ⟨-, -, rfl⟩ := keyword?_eq_some.mp stands
  refine ⟨_, rfl, fun reserved => ?_⟩
  cases symbol with
  | word w =>
    have positive : ∀ w ∈ Word.all, 0 < w.spelling.length := by decide
    exact positive w w.mem_all
  | _ => cases reserved

theorem behind_of_keywordIn? {symbols : List Symbol} {found : Symbol}
    (stands : s.keywordIn? symbols = some (found, after)) : after.Behind s (symbols.all Symbol.isReserved) := by
  obtain ⟨symbol, member, here⟩ := List.exists_of_findSome?_eq_some stands
  obtain ⟨width, rfl, positive⟩ := behind_of_keyword? here
  exact ⟨width, rfl, fun proper => positive (List.all_eq_true.mp proper symbol member)⟩

theorem behind_of_identifierName? {name : Bytes} (stands : s.identifierName? = some (name, after)) :
    after.Behind s true := by
  obtain ⟨read, rfl⟩ := identifierName?_eq_some.mp stands
  refine ⟨_, rfl, fun _ => List.length_pos_iff.mpr ?_⟩
  obtain ⟨c, chars, -, -, rfl⟩ := (Name.read?_eq_some read).1
  have positive := Utf8.encode_length_pos c
  rw [List.flatMap_cons]
  exact fun none => by simp [(List.append_eq_nil_iff.mp none).1] at positive

theorem behind_of_numberBy? {find? : Bytes → Option Nat} (finds : Pattern.FindsMatches Number.pattern find?)
    {number : Number} (stands : s.numberBy? find? = some (number, after)) : after.Behind s true := by
  obtain ⟨width, here, rfl⟩ := rule_eq_some.mp stands
  refine ⟨width, rfl, fun _ => ?_⟩
  obtain ⟨read, found, same⟩ := Option.map_eq_some_iff.mp here
  cases same
  obtain ⟨⟨width, stops, raw⟩, -⟩ := Number.readBy?_eq_some found
  rw [raw]
  exact List.length_pos_iff.mpr (Number.mem_pattern.mp (finds _ _ stops).2).ne_nil

theorem behind_of_stringLiteral? {value : Bytes} (stands : s.stringLiteral? = some (value, after)) :
    after.Behind s true := by
  obtain ⟨width, here, rfl⟩ := rule_eq_some.mp stands
  refine ⟨width, rfl, fun _ => ?_⟩
  cases left : s.skip.rest with
  | nil =>
    rw [left] at here
    cases here
  | cons quote tail =>
    rw [left, StringLiteral.read?] at here
    obtain ⟨_, same⟩ := Option.ite_none_right_eq_some.mp here
    obtain ⟨_, _, same⟩ := Option.map_eq_some_iff.mp same
    cases same
    exact Nat.succ_pos _

end Scanner

theorem Rule.read?_behind {find? : Bytes → Option Nat} (finds : Pattern.FindsMatches Number.pattern find?) {rule : Rule}
    {s after : Scanner} {value : rule.Value} (found : rule.read? find? s = some (value, after)) :
    after.Behind s rule.isProper := by
  cases rule with
  | punct symbol =>
    have behind := Scanner.behind_of_punctIn? found
    rwa [List.all_cons, List.all_nil, Bool.and_true] at behind
  | punctIn symbols => exact Scanner.behind_of_punctIn? found
  | keyword symbol => exact Scanner.behind_of_keyword? found
  | keywordIn symbols => exact Scanner.behind_of_keywordIn? found
  | identifierName => exact Scanner.behind_of_identifierName? found
  | identifier =>
    have named : s.identifierName? = some (value, after) := by
      have filtered : s.identifier? = some (value, after) := found
      rw [Scanner.identifier?_eq] at filtered
      exact (Option.filter_eq_some_iff.mp filtered).1
    exact Scanner.behind_of_identifierName? named
  | number => exact Scanner.behind_of_numberBy? finds found
  | stringLiteral => exact Scanner.behind_of_stringLiteral? found

/-! Calls -/

/-- What a reader of tokens can be asked for. -/
inductive Request where
  | skip
  | atEnd
  | newlineAhead
  | remaining (place : Nat)
  | reset (place : Nat)
  | follow (rule : Rule)

namespace Request

/-- No place outside of a source of this size is gone to. -/
def isInside (size : Nat) : Request → Bool
  | reset place => place ≤ size
  | _ => true

/-- The request, whatever it answers. -/
def run (find? : Bytes → Option Nat) : Request → Act Unit
  | skip => do let _ ← Act.skip
  | atEnd => do let _ ← Act.atEnd
  | newlineAhead => do let _ ← Act.newlineAhead
  | remaining place => do let _ ← Act.remaining place
  | reset place => Act.moveTo place
  | follow rule => do let _ ← rule.run find?

/-- Where the request goes from a place. -/
def next (find? : Bytes → Option Nat) (s : Scanner) : Request → Scanner
  | skip | atEnd => s.skip
  | newlineAhead | remaining _ => s
  | reset place => s.moveTo place
  | follow rule => ((rule.read? find? s).map Prod.snd).getD s

end Request

namespace Act

variable {t : Tape}

theorem atEnd_apply (sound : t.Sound) : atEnd t = some (t.scanner.atEnd, t.skipped) := by
  simp only [atEnd, bind_apply, skip_apply sound, size_apply, offset_apply, pure_apply, Option.bind_some]
  rfl

theorem newlineAhead_apply (sound : t.Sound) :
    newlineAhead t = some (t.scanner.newlineAhead, { t.skipped with head := t.head }) := by
  have back : moveTo t.head t.skipped = some ((), { t.skipped with head := t.head }) := moveTo_apply sound.fits
  simp only [newlineAhead, bind_apply, offset_apply, skip_apply sound, back, pure_apply, Option.bind_some]
  rfl

theorem remaining_apply (place : Nat) : remaining place t = some (t.source.drop place, t) := by
  simp only [remaining, bind_apply, size_apply, Option.bind_some, ite_apply, pure_apply]
  split
  · rename_i outside
    rw [List.drop_eq_nil_of_le outside]
  · rename_i inside
    rw [part_apply (by omega) (Nat.le_refl _), ← List.length_drop, List.take_length]

/-- The requests, one after the other. -/
def runAll (find? : Bytes → Option Nat) : List Request → Act Unit
  | [] => return ()
  | request :: requests => do
    request.run find?
    runAll find? requests

end Act

variable {find? : Bytes → Option Nat} {t : Tape}

theorem Request.next_source (finds : Pattern.FindsMatches Number.pattern find?) (s : Scanner) (request : Request) :
    (request.next find? s).source = s.source := by
  cases request with
  | follow rule =>
    cases found : rule.read? find? s with
    | none => rw [next, found]; rfl
    | some result =>
      obtain ⟨width, same, -⟩ := rule.read?_behind finds found
      rw [next, found, Option.map_some, Option.getD_some, same]
      rfl
  | _ => rfl

/-- A request has a result wherever the head is. -/
theorem Request.run_apply (finds : Pattern.FindsMatches Number.pattern find?) (sound : t.Sound) {request : Request}
    (inside : request.isInside t.source.length = true) :
    ∃ t', request.run find? t = some ((), t') ∧ t'.Sound ∧ t'.scanner = request.next find? t.scanner := by
  cases request with
  | skip => exact ⟨t.skipped, by rw [run, Act.bind_apply, Act.skip_apply sound]; rfl, sound.skipped, rfl⟩
  | atEnd => exact ⟨t.skipped, by rw [run, Act.bind_apply, Act.atEnd_apply sound]; rfl, sound.skipped, rfl⟩
  | newlineAhead =>
    exact ⟨_, by rw [run, Act.bind_apply, Act.newlineAhead_apply sound]; rfl, sound.skipped.moveTo sound.fits, rfl⟩
  | remaining place => exact ⟨t, by rw [run, Act.bind_apply, Act.remaining_apply]; rfl, sound, rfl⟩
  | reset place =>
    have fits : place ≤ t.source.length := of_decide_eq_true inside
    exact ⟨_, Act.moveTo_apply fits, sound.moveTo fits, rfl⟩
  | follow rule =>
    obtain ⟨t', ran, sound', stands⟩ := rule.run_refines finds t sound
    exact ⟨t', by rw [run, Act.bind_apply, ran]; rfl, sound', stands⟩

/-- Whatever is asked for, there is no fault, and the head goes from place to place as the requests say. -/
theorem Act.runAll_apply (finds : Pattern.FindsMatches Number.pattern find?) (sound : t.Sound) {requests : List Request}
    (inside : ∀ request ∈ requests, request.isInside t.source.length = true) :
    ∃ t', runAll find? requests t = some ((), t') ∧ t'.Sound ∧ t'.source = t.source ∧
      t'.scanner = requests.foldl (Request.next find?) t.scanner := by
  induction requests generalizing t with
  | nil => exact ⟨t, rfl, sound, rfl, rfl⟩
  | cons request requests ih =>
    obtain ⟨first, others⟩ := List.forall_mem_cons.mp inside
    obtain ⟨t', ran, sound', stands⟩ := request.run_apply finds sound first
    have source : t'.source = t.source := (congrArg Scanner.source stands).trans (request.next_source finds t.scanner)
    obtain ⟨t'', ran', sound'', source', stands'⟩ := ih sound' (source ▸ others)
    refine ⟨t'', ?_, sound'', source'.trans source, ?_⟩
    · rw [runAll, bind_apply, ran]
      exact ran'
    · rw [stands', stands, List.foldl_cons]

end EcmaFold
