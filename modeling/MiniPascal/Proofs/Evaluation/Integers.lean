import Mathlib.Algebra.Group.Int.Defs
import MiniPascal.Evaluation

/-!
# Integer arithmetic is exact or fails

Expressions over integers are computed a second time, with unbounded whole numbers (`Context.unbounded?`). A node is in
violation when 64 bits do not hold its unbounded value, or when it divides by zero (`Context.violation?`). Evaluation
visits the nodes in post-order (`Expr.postOrder`), so that the first violation there is the fault it reports.

* `Context.eval_integral`: evaluation gives the unbounded value if no node is in violation, and the first violation
  otherwise.
-/

namespace MiniPascal

/-- The expression and all its parts, each behind its own parts, left before right. -/
def Expr.postOrder : Expr → List Expr
  | .literal value line => [.literal value line]
  | .variable name line => [.variable name line]
  | .unary op operand line => operand.postOrder ++ [.unary op operand line]
  | .binary op left right line => left.postOrder ++ right.postOrder ++ [.binary op left right line]

/-! ## Unbounded values -/

def UnaryOperator.unbounded : UnaryOperator → Int → Int
  | plus, n => n
  | minus, n => -n

/-- The result over unbounded integers, `div` dropping the fraction. A quotient by zero has no value, and `/` leaves the
integers. -/
def BinaryOperator.unbounded? : BinaryOperator → Int → Int → Option Int
  | add, n, m => some (n + m)
  | subtract, n, m => some (n - m)
  | multiply, n, m => some (n * m)
  | quotient, n, m => if m = 0 then none else some (n.tdiv m)
  | divide, _, _ => none

namespace Context

/-- Built from integer constants, variables that hold an integer, signs, and all operators but `/`. -/
inductive IsIntegral (context : Context) : Expr → Prop
  | constant (n : Integer) (line : Nat) : IsIntegral context (.literal (.integer n) line)
  | holding {name : String} {n : Integer} (line : Nat) : context.store.get? name = some (.integer n) →
      IsIntegral context (.variable name line)
  | unary (op : UnaryOperator) {operand : Expr} (line : Nat) : IsIntegral context operand →
      IsIntegral context (.unary op operand line)
  | binary {op : BinaryOperator} {left right : Expr} (line : Nat) : op ≠ .divide → IsIntegral context left →
      IsIntegral context right → IsIntegral context (.binary op left right line)

/-- The value over unbounded integers, if no part divides by zero. -/
def unbounded? (context : Context) : Expr → Option Int
  | .literal (.integer n) _ => some n.toInt
  | .literal (.real _) _ => none
  | .variable name _ => match context.store.get? name with
    | some (.integer n) => some n.toInt
    | _ => none
  | .unary op operand _ => (context.unbounded? operand).map op.unbounded
  | .binary op left right _ => do
    let n ← context.unbounded? left
    let m ← context.unbounded? right
    op.unbounded? n m

/-- The fault of a node whose parts have values: a zero divisor, or a value that 64 bits do not hold. -/
def violation? (context : Context) (e : Expr) : Option RuntimeError :=
  match e with
  | .literal _ _ => none
  | .variable _ _ => none
  | .unary _ _ line => tooLarge? line
  | .binary op _ right line =>
    if op = .quotient ∧ context.unbounded? right = some 0 then some (.divisionByZero line) else tooLarge? line
where
  tooLarge? (line : Nat) : Option RuntimeError :=
    match context.unbounded? e with
    | some n => if Integer.InRange n then none else some (.overflow line)
    | none => none

/-- Every part has a value, and 64 bits hold it. -/
def Fits (context : Context) (e : Expr) : Prop :=
  ∀ s ∈ e.postOrder, ∃ n, context.unbounded? s = some n ∧ Integer.InRange n

end Context

/-! ## One operation -/

namespace Arithmetic

theorem checked_of_inRange {n : Int} (h : Integer.InRange n) (line : Nat) :
    ∃ i : Integer, checked n line = .ok (.integer i) ∧ i.toInt = n := by
  refine ⟨Int64.ofInt n, ?_, Integer.toInt_ofInt h⟩
  simp [checked, Integer.ofInt?, h]

theorem checked_of_not_inRange {n : Int} (h : ¬ Integer.InRange n) (line : Nat) :
    checked n line = .error (.overflow line) := by
  simp [checked, Integer.ofInt?, h]

/-- Where the unbounded result exists, it is what is checked. -/
theorem onIntegers_of_unbounded? {op : BinaryOperator} {n m : Integer} {k : Int}
    (h : op.unbounded? n.toInt m.toInt = some k) (line : Nat) : onIntegers op n m line = checked k line := by
  cases op with
  | add => cases h; rfl
  | subtract => cases h; rfl
  | multiply => cases h; rfl
  | quotient =>
    simp only [BinaryOperator.unbounded?] at h
    split at h
    · cases h
    next hm =>
      cases h
      simp [onIntegers, hm]
  | divide => cases h

/-- Only a quotient by zero has no unbounded result. -/
theorem of_unbounded?_eq_none {op : BinaryOperator} {n m : Int} (hop : op ≠ .divide) (h : op.unbounded? n m = none) :
    op = .quotient ∧ m = 0 := by
  cases op with
  | add => cases h
  | subtract => cases h
  | multiply => cases h
  | quotient =>
    simp only [BinaryOperator.unbounded?] at h
    split at h
    next hm => exact ⟨rfl, hm⟩
    · cases h
  | divide => exact absurd rfl hop

end Arithmetic

theorem UnaryOperator.apply_integer (op : UnaryOperator) (n : Integer) (line : Nat) :
    op.apply (.integer n) line = Arithmetic.checked (op.unbounded n.toInt) line := by
  cases op with
  | plus =>
    obtain ⟨i, hi, hn⟩ := Arithmetic.checked_of_inRange (Integer.inRange_toInt n) line
    rw [UnaryOperator.unbounded, hi, Int64.toInt_inj.mp hn]
    rfl
  | minus => rfl

namespace Context

variable {context : Context}

/-! ## Violations -/

/-- A part of a fitting expression fits. -/
theorem Fits.violation?_eq_none {e s : Expr} (h : context.Fits e) (hs : s ∈ e.postOrder) :
    context.violation? s = none := by
  obtain ⟨n, hn, hrange⟩ := h s hs
  have htooLarge : ∀ line, violation?.tooLarge? context s line = none := by
    intro line
    simp [violation?.tooLarge?, hn, hrange]
  match s with
  | .literal _ _ => rfl
  | .variable _ _ => rfl
  | .unary _ _ line => exact htooLarge line
  | .binary op left right line =>
    have hdivisor : ¬ (op = .quotient ∧ context.unbounded? right = some 0) := by
      rintro ⟨rfl, hzero⟩
      simp only [unbounded?, hzero] at hn
      cases hleft : context.unbounded? left <;> simp [hleft, BinaryOperator.unbounded?] at hn
    simp only [violation?, if_neg hdivisor]
    exact htooLarge line

theorem Fits.findSome?_eq_none {e : Expr} (h : context.Fits e) : e.postOrder.findSome? context.violation? = none :=
  List.findSome?_eq_none_iff.mpr fun _ hs => h.violation?_eq_none hs

/-- The parts of a node and the node itself. -/
theorem fits_unary {op : UnaryOperator} {operand : Expr} {line : Nat} {n : Int} (h : context.Fits operand)
    (hn : context.unbounded? (.unary op operand line) = some n) (hrange : Integer.InRange n) :
    context.Fits (.unary op operand line) := by
  intro s hs
  rw [Expr.postOrder, List.mem_append, List.mem_singleton] at hs
  rcases hs with hs | rfl
  · exact h s hs
  · exact ⟨n, hn, hrange⟩

theorem fits_binary {op : BinaryOperator} {left right : Expr} {line : Nat} {n : Int} (hleft : context.Fits left)
    (hright : context.Fits right) (hn : context.unbounded? (.binary op left right line) = some n)
    (hrange : Integer.InRange n) : context.Fits (.binary op left right line) := by
  intro s hs
  rw [Expr.postOrder, List.mem_append, List.mem_append, List.mem_singleton] at hs
  rcases hs with (hs | hs) | rfl
  · exact hleft s hs
  · exact hright s hs
  · exact ⟨n, hn, hrange⟩

/-! ## Evaluation -/

/-- Evaluation and unbounded computation come to the same end: a common value, or the first violation. -/
def Agrees (context : Context) (e : Expr) : Prop :=
  (∃ n : Integer, context.eval e = .ok (.integer n) ∧ context.unbounded? e = some n.toInt ∧ context.Fits e) ∨
    ∃ fault, context.eval e = .error fault ∧ e.postOrder.findSome? context.violation? = some fault

theorem agrees_literal (n : Integer) (line : Nat) : context.Agrees (.literal (.integer n) line) := by
  refine .inl ⟨n, rfl, rfl, fun s hs => ?_⟩
  rw [List.mem_singleton.mp hs]
  exact ⟨n.toInt, rfl, Integer.inRange_toInt n⟩

theorem agrees_variable {name : String} {n : Integer} (h : context.store.get? name = some (.integer n)) (line : Nat) :
    context.Agrees (.variable name line) := by
  have hexact : context.unbounded? (.variable name line) = some n.toInt := by simp [unbounded?, h]
  refine .inl ⟨n, by simp [eval, read, h], hexact, fun s hs => ?_⟩
  rw [List.mem_singleton.mp hs]
  exact ⟨n.toInt, hexact, Integer.inRange_toInt n⟩

theorem Agrees.unary {operand : Expr} (h : context.Agrees operand) (op : UnaryOperator) (line : Nat) :
    context.Agrees (.unary op operand line) := by
  rcases h with ⟨n, heval, hexact, hfits⟩ | ⟨fault, heval, hfirst⟩
  · have happly : context.eval (.unary op operand line) = Arithmetic.checked (op.unbounded n.toInt) line := by
      rw [← UnaryOperator.apply_integer, eval, heval]
      rfl
    have hvalue : context.unbounded? (.unary op operand line) = some (op.unbounded n.toInt) := by
      simp [unbounded?, hexact]
    by_cases hrange : Integer.InRange (op.unbounded n.toInt)
    · obtain ⟨i, hi, hin⟩ := Arithmetic.checked_of_inRange hrange line
      exact .inl ⟨i, by rw [happly, hi], by rw [hvalue, hin], fits_unary hfits hvalue hrange⟩
    · refine .inr ⟨_, by rw [happly, Arithmetic.checked_of_not_inRange hrange], ?_⟩
      simp [Expr.postOrder, List.findSome?_append, hfits.findSome?_eq_none, violation?, violation?.tooLarge?, hvalue,
        hrange]
  · refine .inr ⟨fault, by rw [eval, heval]; rfl, ?_⟩
    simp [Expr.postOrder, List.findSome?_append, hfirst]

theorem Agrees.binary {left right : Expr} (hl : context.Agrees left) (hr : context.Agrees right) {op : BinaryOperator}
    (hop : op ≠ .divide) (line : Nat) : context.Agrees (.binary op left right line) := by
  rcases hl with ⟨n, hleft, hn, hfitsl⟩ | ⟨fault, hleft, hfirst⟩
  · rcases hr with ⟨m, hright, hm, hfitsr⟩ | ⟨fault, hright, hfirst⟩
    · have happly : context.eval (.binary op left right line) = Arithmetic.onIntegers op n m line := by
        rw [eval, hleft, hright]
        rfl
      have hfirst : (Expr.binary op left right line).postOrder.findSome? context.violation? =
          context.violation? (.binary op left right line) := by
        simp [Expr.postOrder, List.findSome?_append, hfitsl.findSome?_eq_none, hfitsr.findSome?_eq_none]
      have hvalue : context.unbounded? (.binary op left right line) = op.unbounded? n.toInt m.toInt := by
        simp [unbounded?, hn, hm]
      cases hk : op.unbounded? n.toInt m.toInt with
      | none =>
        obtain ⟨rfl, hzero⟩ := Arithmetic.of_unbounded?_eq_none hop hk
        refine .inr ⟨.divisionByZero line, ?_, ?_⟩
        · simp [happly, Arithmetic.onIntegers, hzero]
        · simp [hfirst, violation?, hm, hzero]
      | some k =>
        have hdivisor : ¬ (op = .quotient ∧ context.unbounded? right = some 0) := by
          rintro ⟨rfl, hzero⟩
          rw [hm, Option.some.injEq] at hzero
          simp [BinaryOperator.unbounded?, hzero] at hk
        rw [Arithmetic.onIntegers_of_unbounded? hk] at happly
        rw [hk] at hvalue
        by_cases hrange : Integer.InRange k
        · obtain ⟨i, hi, hik⟩ := Arithmetic.checked_of_inRange hrange line
          exact .inl ⟨i, by rw [happly, hi], by rw [hvalue, hik], fits_binary hfitsl hfitsr hvalue hrange⟩
        · refine .inr ⟨.overflow line, by rw [happly, Arithmetic.checked_of_not_inRange hrange], ?_⟩
          rw [hfirst, violation?, if_neg hdivisor]
          simp [violation?.tooLarge?, hvalue, hrange]
    · refine .inr ⟨fault, by rw [eval, hleft, hright]; rfl, ?_⟩
      simp [Expr.postOrder, List.findSome?_append, hfitsl.findSome?_eq_none, hfirst]
  · refine .inr ⟨fault, by rw [eval, hleft]; rfl, ?_⟩
    simp [Expr.postOrder, List.findSome?_append, hfirst]

theorem agrees_of_isIntegral {e : Expr} (h : context.IsIntegral e) : context.Agrees e := by
  induction h with
  | constant n line => exact agrees_literal n line
  | holding line hget => exact agrees_variable hget line
  | unary op line _ ih => exact ih.unary op line
  | binary line hop _ _ ihl ihr => exact ihl.binary ihr hop line

/-- **Integer arithmetic is exact or fails**: an expression over integers has its unbounded value if every part has one
between -2^63 and 2^63 - 1, and the fault of the first part in post-order that has none otherwise. -/
theorem eval_integral (context : Context) (e : Expr) (h : context.IsIntegral e) :
    (∀ n : Integer, context.eval e = .ok (.integer n) ↔
      (∀ s ∈ e.postOrder, ∃ m, context.unbounded? s = some m ∧ -2 ^ 63 ≤ m ∧ m ≤ 2 ^ 63 - 1) ∧
        context.unbounded? e = some n.toInt) ∧
    (∀ fault, context.eval e = .error fault ↔ e.postOrder.findSome? context.violation? = some fault) ∧
    ((∃ n, context.eval e = .ok (.integer n)) ∨ ∃ fault, context.eval e = .error fault) := by
  rcases agrees_of_isIntegral h with ⟨n, heval, hexact, hfits⟩ | ⟨fault, heval, hfirst⟩
  · refine ⟨fun i => ?_, fun fault => ?_, .inl ⟨n, heval⟩⟩
    · rw [heval, hexact]
      constructor
      · intro hi
        cases hi
        exact ⟨hfits, rfl⟩
      · rintro ⟨-, hi⟩
        rw [Option.some.injEq] at hi
        rw [Int64.toInt_inj.mp hi]
    · rw [heval, hfits.findSome?_eq_none]
      constructor <;> intro hfault <;> cases hfault
  · refine ⟨fun i => ?_, fun other => ?_, .inr ⟨fault, heval⟩⟩
    · rw [heval]
      constructor
      · intro hi
        cases hi
      · rintro ⟨hfits, -⟩
        rw [Fits.findSome?_eq_none (e := e) hfits] at hfirst
        cases hfirst
    · rw [heval, hfirst, Except.error.injEq, Option.some.injEq]

/-- The least integer has no opposite, and a zero divisor behind it is not reached. -/
theorem eval_integral_least :
    let context : Context := .ofStore (Store.empty.assign "x" (.integer Int64.minValue))
    let opposite : Expr := .binary .quotient (.variable "x" 1) (.unary .minus (.literal (.integer 1) 2) 2) 3
    let e : Expr := .binary .multiply opposite (.binary .quotient (.variable "x" 4) (.literal (.integer 0) 4) 5) 6
    context.IsIntegral e ∧ context.eval e = .error (.overflow 3) := by
  intro context opposite e
  have hx : context.store.get? "x" = some (.integer Int64.minValue) := by simp [context, ofStore]
  have hopposite : context.IsIntegral opposite := .binary 3 nofun (.holding 1 hx) (.unary .minus 2 (.constant 1 2))
  have he : context.IsIntegral e := .binary 6 nofun hopposite (.binary 5 nofun (.holding 4 hx) (.constant 0 4))
  exact ⟨he, ((eval_integral context e he).2.1 (.overflow 3)).mpr (by rfl)⟩

end Context

end MiniPascal
