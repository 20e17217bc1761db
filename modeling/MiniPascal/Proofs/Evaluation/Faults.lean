import MiniPascal.Proofs.Access
import MiniPascal.Proofs.Double.Bits
import MiniPascal.Proofs.Evaluation.Kinds

/-!
# Faults of mixed arithmetic

What an operation comes to and when it fails is said here for the values of its operands, be they integers or reals
(`BinaryOperator.Gives`, `BinaryOperator.Faults`). From this follow the value of an expression (`Context.Yields`) and
the faults of its nodes (`Context.Faults`), neither of which mentions an order of evaluation. Evaluation visits the
nodes in post-order and stops at the first one that faults.

* `BinaryOperator.apply_eq_ok_iff`, `BinaryOperator.apply_eq_error_iff`: what one operation does.
* `Context.eval_faults`: an expression fails exactly if one of its nodes faults, and with the fault of the first one.
-/

namespace MiniPascal

/-! ## Operations -/

/-- The integer zero, or a real zero of either sign. -/
def Value.IsZero : Value → Prop
  | integer n => n = 0
  | real x => x.toBits = 0 ∨ x.toBits = 0x8000000000000000

instance : DecidablePred Value.IsZero
  | .integer n => inferInstanceAs (Decidable (n = 0))
  | .real _ => inferInstanceAs (Decidable (_ ∨ _))

namespace UnaryOperator

/-- A sign before a value gives a value. -/
inductive Gives : UnaryOperator → Value → Value → Prop
  | plus (a : Value) : Gives .plus a a
  | opposite {n m : Integer} : m.toInt = -n.toInt → Gives .minus (.integer n) (.integer m)
  | negated (x : Double) : Gives .minus (.real x) (.real (-x))

/-- Only the least integer has no opposite. -/
def Faults (op : UnaryOperator) (a : Value) (line : Nat) (fault : RuntimeError) : Prop :=
  op = .minus ∧ a = .integer Int64.minValue ∧ fault = .overflow line

end UnaryOperator

namespace BinaryOperator

/-- `div` and `/`. -/
def IsDivision (op : BinaryOperator) : Prop := op = .quotient ∨ op = .divide

instance : DecidablePred IsDivision := fun _ => inferInstanceAs (Decidable (_ ∨ _))

/-- The operation on reals, which always has a result. -/
def real : BinaryOperator → Double → Double → Double
  | add, x, y => x + y
  | subtract, x, y => x - y
  | multiply, x, y => x * y
  | quotient, x, y => Double.truncate (x / y)
  | divide, x, y => x / y

/-- Two values give a third one: integers their exact result, and all others, as well as integers under `/`, the result
of the operation on reals. -/
inductive Gives (op : BinaryOperator) : Value → Value → Value → Prop
  | exact {n m k : Integer} : op.unbounded? n.toInt m.toInt = some k.toInt →
      Gives op (.integer n) (.integer m) (.integer k)
  | real {a b : Value} : a.kind = .real ∨ b.kind = .real ∨ op = .divide → ¬ (op.IsDivision ∧ b.IsZero) →
      Gives op a b (.real (op.real a.toReal b.toReal))

/-- Both values are integers, and 64 bits do not hold the exact result. -/
def Exceeds (op : BinaryOperator) (a b : Value) : Prop :=
  ∃ n m k, a = .integer n ∧ b = .integer m ∧ op.unbounded? n.toInt m.toInt = some k ∧ ¬ (-2 ^ 63 ≤ k ∧ k ≤ 2 ^ 63 - 1)

/-- A division fails if its divisor is zero, whatever is divided, and an operation on integers if it exceeds their
range. -/
def Faults (op : BinaryOperator) (a b : Value) (line : Nat) (fault : RuntimeError) : Prop :=
  op.IsDivision ∧ b.IsZero ∧ fault = .divisionByZero line ∨ op.Exceeds a b ∧ fault = .overflow line

end BinaryOperator

/-! ## Nodes -/

namespace Context

/-- The value of an expression, if all its parts have one. -/
inductive Yields (context : Context) : Expr → Value → Prop
  | constant (value : Value) (line : Nat) : Yields context (.literal value line) value
  | holding {name : String} {value : Value} (line : Nat) : context.store.get? name = some value →
      Yields context (.variable name line) value
  | unary {op : UnaryOperator} {operand : Expr} {a value : Value} (line : Nat) : Yields context operand a →
      op.Gives a value → Yields context (.unary op operand line) value
  | binary {op : BinaryOperator} {left right : Expr} {a b value : Value} (line : Nat) : Yields context left a →
      Yields context right b → op.Gives a b value → Yields context (.binary op left right line) value

/-- The fault of a node whose operands have values: a variable that holds nothing, or an operation that fails. -/
def Faults (context : Context) : Expr → RuntimeError → Prop
  | .literal _ _, _ => False
  | .variable name line, fault => context.store.get? name = none ∧ fault = context.missing name line
  | .unary op operand line, fault => ∃ a, context.Yields operand a ∧ op.Faults a line fault
  | .binary op left right line, fault =>
    ∃ a b, context.Yields left a ∧ context.Yields right b ∧ op.Faults a b line fault

/-- None of the nodes faults. -/
def Faultless (context : Context) (nodes : List Expr) : Prop := ∀ s ∈ nodes, ∀ fault, ¬ context.Faults s fault

/-- The first of the nodes that faults does so with this fault. -/
def FirstFault (context : Context) (nodes : List Expr) (fault : RuntimeError) : Prop :=
  ∃ before node after, nodes = before ++ node :: after ∧ context.Faultless before ∧ context.Faults node fault

end Context

/-! ## One operation -/

namespace Arithmetic

theorem checked_eq_ok_iff {n : Int} {line : Nat} {value : Value} :
    checked n line = .ok value ↔ ∃ i : Integer, value = .integer i ∧ n = i.toInt := by
  by_cases h : Integer.InRange n
  · obtain ⟨i, hi, rfl⟩ := checked_of_inRange h line
    simp [hi, Int64.toInt_inj, eq_comm]
  · rw [checked_of_not_inRange h]
    constructor
    · intro hok
      cases hok
    · rintro ⟨i, -, rfl⟩
      exact absurd (Integer.inRange_toInt i) h

theorem checked_eq_error_iff {n : Int} {line : Nat} {fault : RuntimeError} :
    checked n line = .error fault ↔ ¬ (-2 ^ 63 ≤ n ∧ n ≤ 2 ^ 63 - 1) ∧ fault = .overflow line := by
  by_cases h : Integer.InRange n
  · obtain ⟨i, hi, -⟩ := checked_of_inRange h line
    rw [hi]
    exact iff_of_false nofun fun hnot => hnot.1 h
  · rw [checked_of_not_inRange h, Except.error.injEq, eq_comm]
    exact (and_iff_right h).symm

theorem onReals_eq (op : BinaryOperator) (x y : Double) (line : Nat) :
    onReals op x y line =
      if op.IsDivision ∧ y.isZero = true then .error (.divisionByZero line) else .ok (.real (op.real x y)) := by
  cases op <;> simp [onReals, BinaryOperator.IsDivision, BinaryOperator.real]

end Arithmetic

/-- The nearest real of an integer is a zero only if the integer is. -/
theorem Value.isZero_toReal {a : Value} : a.toReal.isZero = true ↔ a.IsZero := by
  cases a with
  | integer n => rw [toReal, Double.isZero_ofInt, IsZero, ← Int64.toInt_inj, Int64.toInt_zero]
  | real x => exact Double.isZero_iff

namespace UnaryOperator

variable {op : UnaryOperator} {a value : Value} {line : Nat} {fault : RuntimeError}

theorem apply_eq_ok_iff : op.apply a line = .ok value ↔ op.Gives a value := by
  cases op with
  | plus =>
    constructor
    · intro h
      cases h
      exact .plus a
    · rintro ⟨⟩
      rfl
  | minus =>
    cases a with
    | integer n =>
      rw [apply, Arithmetic.checked_eq_ok_iff]
      constructor
      · rintro ⟨m, rfl, hm⟩
        exact .opposite hm.symm
      · rintro (_ | hm | _)
        exact ⟨_, rfl, hm.symm⟩
    | real x =>
      constructor
      · intro h
        cases h
        exact .negated x
      · rintro ⟨⟩
        rfl

/-- The opposite of the least integer is the only one that is out of range. -/
theorem apply_eq_error_iff : op.apply a line = .error fault ↔ op.Faults a line fault := by
  cases op with
  | plus => exact iff_of_false nofun fun h => by cases h.1
  | minus =>
    cases a with
    | integer n =>
      have hleast : ¬ (-2 ^ 63 ≤ -n.toInt ∧ -n.toInt ≤ 2 ^ 63 - 1) ↔ n = Int64.minValue := by
        have := n.le_toInt
        have := n.toInt_lt
        have hmin : Int64.minValue.toInt = -2 ^ 63 := rfl
        rw [← Int64.toInt_inj, hmin]
        omega
      rw [apply, Arithmetic.checked_eq_error_iff, hleast, Faults]
      simp
    | real x => exact iff_of_false nofun fun h => by cases h.2.1

end UnaryOperator

namespace BinaryOperator

variable {op : BinaryOperator} {a b value : Value} {line : Nat} {fault : RuntimeError}

/-- Integers meet as reals under `/` only. -/
theorem eq_divide_of_real {n m : Integer}
    (h : (Value.integer n).kind = .real ∨ (Value.integer m).kind = .real ∨ op = .divide) : op = .divide := by
  simpa [Value.kind_integer] using h

/-- With a real operand, and under `/`, only the divisor matters. -/
theorem apply_of_real (h : a.kind = .real ∨ b.kind = .real ∨ op = .divide) (line : Nat) :
    op.apply a b line =
      if op.IsDivision ∧ b.IsZero then .error (.divisionByZero line) else .ok (.real (op.real a.toReal b.toReal)) := by
  have hreals : op.apply a b line = Arithmetic.onReals op a.toReal b.toReal line := by
    cases a with
    | real x => rfl
    | integer n =>
      cases b with
      | real y => rfl
      | integer m =>
        obtain rfl := eq_divide_of_real h
        rfl
  rw [hreals, Arithmetic.onReals_eq]
  simp only [Value.isZero_toReal]

theorem not_exceeds_of_real (h : a.kind = .real ∨ b.kind = .real ∨ op = .divide) : ¬ op.Exceeds a b := by
  rintro ⟨n, m, k, rfl, rfl, hk, -⟩
  obtain rfl := eq_divide_of_real h
  cases hk

/-- Values are integers under an operation that stays among them, or the operation is one on reals. -/
theorem integers_or_real (op : BinaryOperator) (a b : Value) :
    (∃ n m, a = .integer n ∧ b = .integer m ∧ op ≠ .divide) ∨ a.kind = .real ∨ b.kind = .real ∨ op = .divide := by
  by_cases hop : op = .divide
  · exact .inr (.inr (.inr hop))
  · cases a with
    | real x => exact .inr (.inl rfl)
    | integer n =>
      cases b with
      | real y => exact .inr (.inr (.inl rfl))
      | integer m => exact .inl ⟨n, m, rfl, rfl, hop⟩

theorem apply_eq_ok_iff : op.apply a b line = .ok value ↔ op.Gives a b value := by
  rcases op.integers_or_real a b with ⟨n, m, rfl, rfl, hop⟩ | hreal
  · have hgives : op.Gives (.integer n) (.integer m) value ↔
        ∃ k : Integer, value = .integer k ∧ op.unbounded? n.toInt m.toInt = some k.toInt := by
      constructor
      · rintro (hk | ⟨hkind, -⟩)
        · exact ⟨_, rfl, hk⟩
        · simp [Value.kind_integer, hop] at hkind
      · rintro ⟨k, rfl, hk⟩
        exact .exact hk
    rw [hgives, apply]
    cases hk : op.unbounded? n.toInt m.toInt with
    | some k => simp only [Arithmetic.onIntegers_of_unbounded? hk, Arithmetic.checked_eq_ok_iff, Option.some.injEq]
    | none =>
      obtain ⟨rfl, hzero⟩ := Arithmetic.of_unbounded?_eq_none hop hk
      simp [Arithmetic.onIntegers, hzero]
  · rw [apply_of_real hreal]
    split
    next hzero =>
      refine iff_of_false (fun h => by cases h) ?_
      rintro (hk | ⟨-, hnonzero⟩)
      · obtain rfl := eq_divide_of_real hreal
        cases hk
      · exact hnonzero hzero
    next hnonzero =>
      constructor
      · intro h
        cases h
        exact .real hreal hnonzero
      · rintro (hk | ⟨-, -⟩)
        · obtain rfl := eq_divide_of_real hreal
          cases hk
        · rfl

theorem apply_eq_error_iff : op.apply a b line = .error fault ↔ op.Faults a b line fault := by
  unfold Faults
  rcases op.integers_or_real a b with ⟨n, m, rfl, rfl, hop⟩ | hreal
  · rw [apply]
    cases hk : op.unbounded? n.toInt m.toInt with
    | some k =>
      have hnonzero : ¬ (op.IsDivision ∧ (Value.integer m).IsZero ∧ fault = .divisionByZero line) := by
        rintro ⟨rfl | rfl, rfl, -⟩
        · cases hk
        · exact hop rfl
      rw [Arithmetic.onIntegers_of_unbounded? hk, Arithmetic.checked_eq_error_iff, or_iff_right hnonzero]
      simp [Exceeds, hk]
    | none =>
      obtain ⟨rfl, hzero⟩ := Arithmetic.of_unbounded?_eq_none hop hk
      have hexact : ¬ Exceeds .quotient (.integer n) (.integer m) := by
        rintro ⟨_, _, k, ⟨⟩, ⟨⟩, hk', -⟩
        cases hk.symm.trans hk'
      have hm : (Value.integer m).IsZero := Int64.toInt_inj.mp hzero
      simp [hexact, hm, Arithmetic.onIntegers, hzero, IsDivision, eq_comm]
  · rw [apply_of_real hreal]
    simp only [not_exceeds_of_real hreal, false_and, or_false, ← and_assoc]
    split
    next hzero => simp [hzero, eq_comm]
    next hnonzero => simp [hnonzero]

end BinaryOperator

/-! ## Expressions -/

namespace Context

variable {context : Context}

/-- Evaluation finds the value of an expression. -/
theorem eval_eq_ok_iff : ∀ {e : Expr} {value : Value}, context.eval e = .ok value ↔ context.Yields e value
  | .literal constant line, value => by
    constructor
    · intro h
      cases h
      exact .constant constant line
    · intro h
      cases h
      rfl
  | .variable name line, value => by
    rw [eval, read_eq_ok]
    constructor
    · exact .holding line
    · intro h
      cases h with
      | holding _ hvalue => exact hvalue
  | .unary op operand line, value => by
    simp only [eval_unary_eq_ok, eval_eq_ok_iff (e := operand), UnaryOperator.apply_eq_ok_iff]
    constructor
    · rintro ⟨a, ha, hgives⟩
      exact .unary line ha hgives
    · intro h
      cases h with
      | unary _ ha hgives => exact ⟨_, ha, hgives⟩
  | .binary op left right line, value => by
    simp only [eval_binary_eq_ok, eval_eq_ok_iff (e := left), eval_eq_ok_iff (e := right),
      BinaryOperator.apply_eq_ok_iff]
    constructor
    · rintro ⟨a, b, ha, hb, hgives⟩
      exact .binary line ha hb hgives
    · intro h
      cases h with
      | binary _ ha hb hgives => exact ⟨_, _, ha, hb, hgives⟩

theorem read_eq_error_iff {name : String} {line : Nat} {fault : RuntimeError} :
    context.read name line = .error fault ↔ context.store.get? name = none ∧ fault = context.missing name line := by
  unfold read missing
  cases context.store.get? name with
  | some value => simp
  | none =>
    dsimp only
    split <;> simp [eq_comm]

/-! ## Faults of nodes -/

theorem faults_literal {value : Value} {line : Nat} {fault : RuntimeError} :
    context.Faults (.literal value line) fault ↔ context.eval (.literal value line) = .error fault :=
  iff_of_false id nofun

theorem faults_variable {name : String} {line : Nat} {fault : RuntimeError} :
    context.Faults (.variable name line) fault ↔ context.eval (.variable name line) = .error fault :=
  read_eq_error_iff.symm

/-- Behind an operand that has a value, a node fails as its operation does. -/
theorem faults_unary {op : UnaryOperator} {operand : Expr} {a : Value} (ha : context.eval operand = .ok a) {line : Nat}
    {fault : RuntimeError} :
    context.Faults (.unary op operand line) fault ↔ context.eval (.unary op operand line) = .error fault := by
  have heval : context.eval (.unary op operand line) = op.apply a line := by
    rw [eval, ha]
    rfl
  simp only [Faults, ← eval_eq_ok_iff, ← UnaryOperator.apply_eq_error_iff, ha, Except.ok.injEq, exists_eq_left', heval]

theorem faults_binary {op : BinaryOperator} {left right : Expr} {a b : Value} (ha : context.eval left = .ok a)
    (hb : context.eval right = .ok b) {line : Nat} {fault : RuntimeError} :
    context.Faults (.binary op left right line) fault ↔ context.eval (.binary op left right line) = .error fault := by
  have heval : context.eval (.binary op left right line) = op.apply a b line := by
    rw [eval, ha, hb]
    rfl
  simp only [Faults, ← eval_eq_ok_iff, ← BinaryOperator.apply_eq_error_iff, ha, hb, Except.ok.injEq, exists_eq_left',
    exists_and_left, heval]

/-- The operands of a node that faults have values, so it is the node that is blamed. -/
theorem eval_of_faults {fault : RuntimeError} : ∀ {s : Expr}, context.Faults s fault → context.eval s = .error fault
  | .literal _ _, h => faults_literal.mp h
  | .variable _ _, h => faults_variable.mp h
  | .unary _ _ _, h => by
    obtain ⟨a, ha, -⟩ := id h
    exact (faults_unary (eval_eq_ok_iff.mpr ha)).mp h
  | .binary _ _ _ _, h => by
    obtain ⟨a, b, ha, hb, -⟩ := id h
    exact (faults_binary (eval_eq_ok_iff.mpr ha) (eval_eq_ok_iff.mpr hb)).mp h

/-! ## The first fault -/

section FirstFault

variable {nodes others : List Expr} {node : Expr} {fault fault' : RuntimeError}

theorem faultless_append : context.Faultless (nodes ++ others) ↔ context.Faultless nodes ∧ context.Faultless others :=
  List.forall_mem_append

theorem faultless_singleton : context.Faultless [node] ↔ ∀ fault, ¬ context.Faults node fault :=
  List.forall_mem_singleton

theorem FirstFault.append (h : context.FirstFault nodes fault) (others : List Expr) :
    context.FirstFault (nodes ++ others) fault := by
  obtain ⟨before, s, after, rfl, hbefore, hfault⟩ := h
  exact ⟨before, s, after ++ others, by simp, hbefore, hfault⟩

theorem FirstFault.behind (h : context.FirstFault others fault) (hnodes : context.Faultless nodes) :
    context.FirstFault (nodes ++ others) fault := by
  obtain ⟨before, s, after, rfl, hbefore, hfault⟩ := h
  exact ⟨nodes ++ before, s, after, by simp, faultless_append.mpr ⟨hnodes, hbefore⟩, hfault⟩

theorem FirstFault.not_faultless (h : context.FirstFault nodes fault) : ¬ context.Faultless nodes := by
  obtain ⟨before, s, after, rfl, -, hfault⟩ := h
  exact fun hnodes => hnodes s (by simp) fault hfault

/-- Nodes without a fault end before a node that faults. -/
theorem Faultless.length_le {before before' after after' : List Expr} (h : context.Faultless before')
    (hfault : context.Faults node fault) (hsplit : before ++ node :: after = before' ++ after') :
    before'.length ≤ before.length := by
  rcases List.append_eq_append_iff.mp hsplit with ⟨mid, rfl, hmid⟩ | ⟨mid, rfl, -⟩
  · cases mid with
    | nil => simp
    | cons s mid =>
      cases (List.cons.inj hmid).1
      exact absurd hfault (h node (by simp) fault)
  · simp

/-- There is one first fault at most. -/
theorem FirstFault.unique (h : context.FirstFault nodes fault) (h' : context.FirstFault nodes fault') :
    fault = fault' := by
  obtain ⟨before, s, after, rfl, hbefore, hfault⟩ := h
  obtain ⟨before', s', after', hsplit, hbefore', hfault'⟩ := h'
  have hlength := Nat.le_antisymm (hbefore.length_le hfault' hsplit.symm) (hbefore'.length_le hfault hsplit)
  cases (List.append_inj hsplit hlength).2
  exact Except.error.inj ((eval_of_faults hfault).symm.trans (eval_of_faults hfault'))

/-- Behind operands without a fault, all depends on the node itself. -/
theorem faultless_or_firstFault_concat (hnodes : context.Faultless nodes)
    (hnode : ∀ {fault}, context.Faults node fault ↔ context.eval node = .error fault) :
    (∃ value, context.eval node = .ok value) ∧ context.Faultless (nodes ++ [node]) ∨
      ∃ fault, context.eval node = .error fault ∧ context.FirstFault (nodes ++ [node]) fault := by
  cases heval : context.eval node with
  | ok value =>
    refine .inl ⟨⟨value, rfl⟩, faultless_append.mpr ⟨hnodes, faultless_singleton.mpr fun fault hfault => ?_⟩⟩
    cases heval.symm.trans (hnode.mp hfault)
  | error fault => exact .inr ⟨fault, rfl, nodes, node, [], rfl, hnodes, hnode.mpr heval⟩

end FirstFault

/-- Evaluation gets through an expression that has no faults, and stops at the first fault of any other. -/
theorem faultless_or_firstFault : ∀ e : Expr,
    (∃ value, context.eval e = .ok value) ∧ context.Faultless e.postOrder ∨
      ∃ fault, context.eval e = .error fault ∧ context.FirstFault e.postOrder fault
  | .literal _ _ => @faultless_or_firstFault_concat _ [] _ (List.forall_mem_nil _) faults_literal
  | .variable _ _ => @faultless_or_firstFault_concat _ [] _ (List.forall_mem_nil _) faults_variable
  | .unary op operand line => by
    rw [Expr.postOrder]
    rcases faultless_or_firstFault operand with ⟨⟨a, ha⟩, hclean⟩ | ⟨fault, heval, hfirst⟩
    · exact faultless_or_firstFault_concat hclean (faults_unary ha)
    · refine .inr ⟨fault, ?_, hfirst.append _⟩
      rw [eval, heval]
      rfl
  | .binary op left right line => by
    rw [Expr.postOrder]
    rcases faultless_or_firstFault left with ⟨⟨a, ha⟩, hleft⟩ | ⟨fault, heval, hfirst⟩
    · rcases faultless_or_firstFault right with ⟨⟨b, hb⟩, hright⟩ | ⟨fault, heval, hfirst⟩
      · exact faultless_or_firstFault_concat (faultless_append.mpr ⟨hleft, hright⟩) (faults_binary ha hb)
      · refine .inr ⟨fault, ?_, (hfirst.behind hleft).append _⟩
        rw [eval, ha, heval]
        rfl
    · refine .inr ⟨fault, ?_, (hfirst.append _).append _⟩
      rw [eval, heval]
      rfl

/-- **Faults are complete and ordered.** An expression fails exactly if one of its nodes faults, and then with the fault
of the first such node in post-order; otherwise it has its value. -/
theorem eval_faults (context : Context) (e : Expr) :
    ((∃ fault, context.eval e = .error fault) ↔ ∃ s ∈ e.postOrder, ∃ fault, context.Faults s fault) ∧
    (∀ fault, context.eval e = .error fault ↔ context.FirstFault e.postOrder fault) ∧
    ∀ value, context.eval e = .ok value ↔ context.Yields e value := by
  rcases context.faultless_or_firstFault e with ⟨⟨value, hvalue⟩, hclean⟩ | ⟨fault, hfault, hfirst⟩
  · refine ⟨iff_of_false ?_ ?_, fun fault => iff_of_false ?_ ?_, fun _ => eval_eq_ok_iff⟩
    · rintro ⟨fault, hfault⟩
      cases hvalue.symm.trans hfault
    · rintro ⟨s, hs, fault, hfault⟩
      exact hclean s hs fault hfault
    · intro hfault
      cases hvalue.symm.trans hfault
    · exact fun hfirst => hfirst.not_faultless hclean
  · refine ⟨iff_of_true ⟨fault, hfault⟩ ?_, fun other => ⟨fun hother => ?_, fun hother => ?_⟩, fun _ => eval_eq_ok_iff⟩
    · obtain ⟨before, s, after, hnodes, -, hs⟩ := hfirst
      exact ⟨s, by simp [hnodes], fault, hs⟩
    · cases hfault.symm.trans hother
      exact hfirst
    · rw [hfault, hfirst.unique hother]

-- a negative zero divides an integer, before a name that holds nothing is read
example :
    let quotient : Expr := .binary .divide (.literal (.integer 1) 1) (.literal (.real (.ofMagnitude true 0)) 1) 2
    (Context.ofStore .empty).eval (.binary .add quotient (.variable "x" 3) 4) = .error (.divisionByZero 2) := by
  rfl

end Context

end MiniPascal
