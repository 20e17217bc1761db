import Mathlib.Data.List.Forall2
import MiniPascal.Proofs.Blame
import MiniPascal.Proofs.Evaluation.Integers
import MiniPascal.Proofs.Layout
import MiniPascal.Proofs.Token.Words

/-!
# Arithmetic as text

A formula over whole numbers is written as a text: the words of its tree, with the parentheses that precedence and the
lean to the left require, and with single spaces between them. The text has the tokens of the printed tree
(`Formula.spelled`), and all of them stand on line 1, so that the tree itself is read back (`Formula.parse_text`).

* `Formula.evaluateExpression_text`: the text has the value that the formula has, or the first fault of its parts.
-/

namespace MiniPascal

/-! ## Formulas -/

/-- Arithmetic over constants that 64 bits hold, with all operators but `/`. -/
inductive Formula where
  | constant (n : Fin (2 ^ 63))
  | signed (op : UnaryOperator) (operand : Formula)
  | operation (op : { op : BinaryOperator // op ≠ .divide }) (left right : Formula)

def UnaryOperator.text : UnaryOperator → String
  | plus => "+"
  | minus => "-"

def BinaryOperator.text : BinaryOperator → String
  | add => "+"
  | subtract => "-"
  | multiply => "*"
  | quotient => "div"
  | divide => "/"

namespace Formula

/-- The tree of a formula that is written on one line. -/
def tree : Formula → Expr
  | constant n => .literal (.integer (Int64.ofInt n)) 1
  | signed op operand => .unary op operand.tree 1
  | operation op left right => .binary op left.tree right.tree 1

def enclose (needed : Bool) (words : List String) : List String := if needed then "(" :: words ++ [")"] else words

/-- The words of a formula. An operand is enclosed if it binds less tightly than its operator, a right operand also if
it binds as tightly. -/
def words : Formula → List String
  | constant n => [toString n.val]
  | signed op operand => op.text :: enclose (operand.tree.precedence < 3) operand.words
  | operation op left right =>
    enclose (left.tree.precedence < op.val.precedence) left.words ++
      op.val.text :: enclose (right.tree.precedence ≤ op.val.precedence) right.words

/-- The formula as a text, a single space between its words. -/
def text (f : Formula) : String := String.intercalate " " f.words

/-! ## Tokens of the text -/

theorem spells_unaryOperator (op : UnaryOperator) : Spells op.text op.token := by
  cases op with
  | plus => decide +kernel
  | minus => decide +kernel

theorem spells_binaryOperator (op : BinaryOperator) : Spells op.text op.token := by
  cases op with
  | add => decide +kernel
  | subtract => decide +kernel
  | multiply => decide +kernel
  | quotient => decide +kernel
  | divide => decide +kernel

theorem spelled_enclose {needed : Bool} {words : List String} {w : List Lexeme}
    (h : List.Forall₂ Spells words (w.map Lexeme.token)) :
    List.Forall₂ Spells (enclose needed words) ((parenthesize needed w).map Lexeme.token) := by
  have hopen : Spells "(" (.mark .leftParen) := by decide +kernel
  have hclose : Spells ")" (.mark .rightParen) := by decide +kernel
  cases needed with
  | false => exact h
  | true =>
    simp only [enclose, parenthesize, if_true, List.map_append, List.map_cons, List.map_nil]
    exact List.rel_append (.cons hopen h) (.cons hclose .nil)

/-- The words spell the tokens of the printed tree. -/
theorem spelled : ∀ f : Formula, List.Forall₂ Spells f.words (f.tree.print.map Lexeme.token)
  | constant n => .cons (spells_number n.isLt) .nil
  | signed op operand => .cons (spells_unaryOperator op) (spelled_enclose operand.spelled)
  | operation op left right => by
    rw [words, tree, Expr.print, List.map_append, List.map_cons]
    refine List.rel_append (spelled_enclose left.spelled) (.cons ?_ (spelled_enclose right.spelled))
    exact spells_binaryOperator op.val

/-! ## The line of the text -/

theorem newline_notMem_number (n : Nat) : '\n' ∉ (toString n).toList := by
  intro h
  rw [Nat.toString_eq_ofList_toDigits, String.toList_ofList] at h
  have hdigit := Nat.isDigit_of_mem_toDigits (by decide) (by decide) h
  exact absurd hdigit (by decide)

theorem newline_notMem_enclose {needed : Bool} {words : List String} (h : ∀ word ∈ words, '\n' ∉ word.toList) :
    ∀ word ∈ enclose needed words, '\n' ∉ word.toList := by
  cases needed with
  | false => exact h
  | true =>
    refine List.forall_mem_append.mpr ⟨List.forall_mem_cons.mpr ⟨?_, h⟩, List.forall_mem_singleton.mpr ?_⟩
    · decide
    · decide

theorem newline_notMem_words : ∀ f : Formula, ∀ word ∈ f.words, '\n' ∉ word.toList
  | constant n => List.forall_mem_singleton.mpr (newline_notMem_number n)
  | signed op operand => by
    have hop : '\n' ∉ op.text.toList := by cases op <;> decide
    exact List.forall_mem_cons.mpr ⟨hop, newline_notMem_enclose operand.newline_notMem_words⟩
  | operation op left right => by
    have hop : '\n' ∉ op.val.text.toList := by cases op.val <;> decide
    refine List.forall_mem_append.mpr ⟨newline_notMem_enclose left.newline_notMem_words, ?_⟩
    exact List.forall_mem_cons.mpr ⟨hop, newline_notMem_enclose right.newline_notMem_words⟩

/-- The text has the tokens of the printed tree, all on its only line. -/
theorem exists_tokens (f : Formula) :
    ∃ ts, tokenize f.text = .ok ts ∧ ts.map Lexeme.token = f.tree.print.map Lexeme.token ++ [.endOfInput] ∧
      ∀ t ∈ ts, t.line = 1 := by
  obtain ⟨ts, htokens, hts⟩ := tokensOf_eq_ok.mp (tokensOf_words f.spelled)
  refine ⟨ts, htokens, hts, fun t ht => ?_⟩
  have hline := line_of_tokenize htokens t ht
  rw [count_newline_words f.newline_notMem_words] at hline
  omega

/-! ## The tree of the text -/

theorem line_eq_of_standsOn {ts : List Lexeme} {line : Nat} {token : Token} (hts : ∀ t ∈ ts, t.line = 1)
    (h : StandsOn ts line token) : line = 1 := by
  obtain ⟨t, ht, -, hline⟩ := h
  rw [← hline, hts t ht]

/-- A tree that is placed on one line is known without its places. -/
theorem eq_tree_of_unplaced {ts : List Lexeme} (hts : ∀ t ∈ ts, t.line = 1) : ∀ {f : Formula} {e : Expr},
    e.Placed ts → e.unplaced = f.tree.unplaced → e = f.tree
  | constant n, .literal value line, hplaced, h => by
    rw [tree, line_eq_of_standsOn hts hplaced]
    simp only [Expr.unplaced, tree, Expr.literal.injEq, and_true] at h
    rw [h]
  | signed op operand, .unary op' operand' line, hplaced, h => by
    simp only [Expr.unplaced, tree, Expr.unary.injEq, and_true] at h
    rw [tree, line_eq_of_standsOn hts hplaced.1, h.1, eq_tree_of_unplaced hts hplaced.2 h.2]
  | operation op left right, .binary op' left' right' line, hplaced, h => by
    simp only [Expr.unplaced, tree, Expr.binary.injEq, and_true] at h
    obtain ⟨hop, hleft, hright⟩ := h
    rw [tree, line_eq_of_standsOn hts hplaced.1, hop, eq_tree_of_unplaced hts hplaced.2.1 hleft,
      eq_tree_of_unplaced hts hplaced.2.2 hright]

/-- What is written is read back. -/
theorem parse_text (f : Formula) : ∃ ts, tokenize f.text = .ok ts ∧ parseExpression ts = .ok f.tree := by
  obtain ⟨ts, htokens, hts, hline⟩ := f.exists_tokens
  refine ⟨ts, htokens, ?_⟩
  let printed := f.tree.print ++ [Lexeme.loose .endOfInput]
  have hprinted : parseExpression printed = .ok f.tree := by
    have hword := (Grammar.printed f.tree).expression
    exact Parser.parseExpression_eq_ok.mpr ⟨_, upToEnd_append (Grammar.endFree_expressionOf hword) _ _, hword⟩
  -- the same tokens at other places give the same tree at other places
  have hsame : ts.map Lexeme.token = printed.map Lexeme.token := by
    rw [hts, List.map_append]
    rfl
  have hbare := parseExpression_unplaced ts
  rw [map_unplaced_eq hsame, parseExpression_unplaced, hprinted] at hbare
  cases hparsed : parseExpression ts with
  | error e => rw [hparsed] at hbare; cases hbare
  | ok e =>
    rw [hparsed] at hbare
    simp only [Except.map, Except.mapError, Except.ok.injEq] at hbare
    rw [eq_tree_of_unplaced hline (placed_of_parseExpression hparsed) hbare.symm]

/-! ## The value of the text -/

theorem accesses_tree : ∀ f : Formula, f.tree.accesses = []
  | constant _ => rfl
  | signed _ operand => operand.accesses_tree
  | operation _ left right => by
    rw [tree, Expr.accesses, left.accesses_tree, right.accesses_tree, List.append_nil]

theorem isIntegral_tree (context : Context) : ∀ f : Formula, context.IsIntegral f.tree
  | constant _ => .constant _ 1
  | signed op operand => .unary op 1 (operand.isIntegral_tree context)
  | operation op left right => .binary 1 op.property (left.isIntegral_tree context) (right.isIntegral_tree context)

/-- A formula reads no name, so that only its evaluation can fail. -/
theorem evaluateExpression_eq (f : Formula) :
    evaluateExpression f.text = ((Context.ofStore .empty).eval f.tree).mapError .runtime := by
  obtain ⟨ts, htokens, htree⟩ := f.parse_text
  have hsound : (Analysis.checkExpr f.tree Analysis.start).result = .ok () := by
    rw [Analysis.result_checkExpr_eq_ok, f.accesses_tree]
    nofun
  exact evaluateExpression_of_sound htokens htree hsound

theorem line_of_evaluateExpression {f : Formula} {fault : Fault} (h : evaluateExpression f.text = .error fault) :
    fault.line = 1 := by
  obtain ⟨ts, htokens, -, hline⟩ := f.exists_tokens
  obtain ⟨t, ht, hfault⟩ := (fits_of_evaluateExpression htokens h).exists_line
  rw [← hfault, hline t ht]

/-- **Arithmetic text has its mathematical value**: the text of a formula evaluates to `n` when every part has a value
over unbounded integers that 64 bits hold, no divisor being zero, and the whole has the value `n`; otherwise it fails on
line 1 with the fault of the first part in post-order that is in violation. -/
theorem evaluateExpression_text (f : Formula) :
    let context := Context.ofStore .empty
    let holds := ∀ s ∈ f.tree.postOrder, ∃ m, context.unbounded? s = some m ∧ -2 ^ 63 ≤ m ∧ m ≤ 2 ^ 63 - 1
    (∀ n : Integer, evaluateExpression f.text = .ok (.integer n) ↔
      holds ∧ context.unbounded? f.tree = some n.toInt) ∧
    (¬ holds → ∃ e, f.tree.postOrder.findSome? context.violation? = some e ∧ e.line = 1 ∧
      evaluateExpression f.text = .error (.runtime e)) := by
  intro context holds
  have heq : evaluateExpression f.text = (context.eval f.tree).mapError .runtime := f.evaluateExpression_eq
  rcases Context.agrees_of_isIntegral (f.isIntegral_tree context) with
    ⟨n, heval, hexact, hfits⟩ | ⟨fault, heval, hfirst⟩
  · rw [heq, heval]
    refine ⟨fun i => ?_, fun hnot => absurd hfits hnot⟩
    rw [hexact]
    constructor
    · intro hi
      cases hi
      exact ⟨hfits, rfl⟩
    · rintro ⟨-, hi⟩
      rw [Option.some.injEq] at hi
      rw [Int64.toInt_inj.mp hi]
      rfl
  · have herror : evaluateExpression f.text = .error (.runtime fault) := by
      rw [heq, heval]
      rfl
    refine ⟨fun i => ?_, fun _ => ⟨fault, hfirst, line_of_evaluateExpression herror, herror⟩⟩
    rw [herror]
    constructor
    · intro hi
      cases hi
    · rintro ⟨hfits, -⟩
      rw [Context.Fits.findSome?_eq_none (e := f.tree) hfits] at hfirst
      cases hfirst

example :
    let inner := operation ⟨.subtract, nofun⟩ (constant 2) (constant 3)
    let f := operation ⟨.multiply, nofun⟩ (operation ⟨.subtract, nofun⟩ (constant 1) inner) (signed .minus (constant 4))
    f.text = "( 1 - ( 2 - 3 ) ) * - 4" ∧ evaluateExpression f.text = .ok (.integer (-8)) := by
  decide +kernel

end Formula

end MiniPascal
