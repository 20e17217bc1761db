import MiniPascal.Proofs.Analysis.Lexical
import MiniPascal.Proofs.Interpreter
import MiniPascal.Proofs.Syntax.Places
import MiniPascal.Proofs.Token.Composition

/-!
# Names of types

The rules of scoping look a type up like any other name, so a declaration of that name in an inner scope would hide it.
No text can declare one: the names of types are reserved words, which the lexer does not read as identifiers
(`Lexer.Finds.text_ne`), and the names of a parsed tree are identifiers of its text (`Placed`). So whatever scopes are
open, the types are visible in them, and what is no variable is a procedure (`Lexical.Uncaptured`).

* `types_uncaptured`: a program has no unknown type, and takes no type for a variable.
-/

namespace MiniPascal

/-! ## Reserved words -/

/-- The name is not that of a type. -/
def Ordinary (name : String) : Prop := ∀ type : TypeName, type.text ≠ name

def OrdinaryNames (ts : List Lexeme) : Prop := ∀ line name, StandsOn ts line (.identifier name) → Ordinary name

namespace Lexer

/-- A reserved word is preferred to an identifier, so an identifier is none. -/
theorem Finds.text_ne {remaining rest : List Char} {name : String}
    (h : Finds remaining (.ok (.identifier name)) rest) (word : Keyword) : word.text ≠ name := by
  intro hword
  cases h with
  | @longest _ text _ p _ hlongest hmakes =>
    cases hmakes with
    | identifier =>
      have hmatches : Pattern.Matches (.keyword word) text := by
        apply Pattern.Matches.keyword
        rw [hword, String.toList_ofList]
      obtain ⟨hpattern, -⟩ := hlongest.preferred _ hmatches fun heq => by cases heq
      cases hpattern

theorem Yields.ordinary {lexer last : Lexer} {ts : List Lexeme} (h : Yields lexer ts last) :
    ∀ t ∈ ts, ∀ name, t.token = .identifier name → Ordinary name := by
  induction h with
  | nil => exact fun _ h => by cases h
  | @cons lexer last t ts hnext _ _ ih =>
    refine List.forall_mem_cons.mpr ⟨fun name htoken type => ?_, ih⟩
    have hfinds := finds_nextToken lexer
    rw [hnext, verdict, htoken] at hfinds
    cases type with
    | integer => exact hfinds.text_ne .integer
    | real => exact hfinds.text_ne .real

end Lexer

/-- No identifier of a text is the name of a type. -/
theorem ordinaryNames_of_tokenize {source : String} {tokens : List Lexeme} (h : tokenize source = .ok tokens) :
    OrdinaryNames tokens := by
  intro line name hname
  obtain ⟨ts, last, stop, hyields, -, hstop, rfl⟩ := exists_yields_of_tokenize h
  obtain ⟨t, ht, htoken, -⟩ := hname
  rcases List.mem_append.mp ht with ht | ht
  · exact hyields.ordinary t ht name htoken
  · obtain rfl := List.mem_singleton.mp ht
    rw [hstop] at htoken
    cases htoken

theorem HeadingOn.exists_standsOn {ts : List Lexeme} {line : Nat} {name : String} (h : HeadingOn ts line name) :
    ∃ nameLine, StandsOn ts nameLine (.identifier name) := by
  obtain ⟨t, t', hpair, -, -, htoken⟩ := h
  exact ⟨t'.line, t', hpair.subset (by simp), htoken, rfl⟩

/-! ## Declared procedures -/

mutual

/-- The names of the procedures that a declaration declares, at any depth. -/
def Declaration.procedures : Declaration → List String
  | .variable _ => []
  | .procedure name _ ⟨declarations, _⟩ _ => name :: Declaration.allProcedures declarations

def Declaration.allProcedures : List Declaration → List String
  | [] => []
  | first :: others => first.procedures ++ Declaration.allProcedures others

end

def Program.procedures (program : Program) : List String := Declaration.allProcedures program.block.declarations

/-! ## Faults -/

namespace SemanticError

/-- A name has no meaning, or it is that of a procedure and no variable. -/
def IsUnresolved (procedures : List String) : SemanticError → Prop
  | undeclaredIdentifier _ _ => True
  | notAVariable name _ => name ∈ procedures
  | _ => False

/-- The fault is not about a type. -/
def SparesTypes (procedures : List String) : SemanticError → Prop
  | unknownType _ _ => False
  | notAVariable name _ => name ∈ procedures
  | _ => True

theorem IsUnresolved.sparesTypes {procedures : List String} {e : SemanticError} (h : e.IsUnresolved procedures) :
    e.SparesTypes procedures := by
  cases e with
  | duplicateIdentifier => trivial
  | unknownType => exact h
  | undeclaredIdentifier => trivial
  | notAVariable => exact h

end SemanticError

namespace Lexical

/-- The check fails with a fault of the one kind or has a result of the other. -/
def Gives {α : Type} (E : SemanticError → Prop) (P : α → Prop) : Except SemanticError α → Prop
  | .ok a => P a
  | .error e => E e

theorem Gives.bind {α β : Type} {E : SemanticError → Prop} {P : α → Prop} {Q : β → Prop}
    {x : Except SemanticError α} {f : α → Except SemanticError β} (hx : Gives E P x)
    (hf : ∀ a, P a → Gives E Q (f a)) : Gives E Q (x >>= f) := by
  cases x with
  | error e => exact hx
  | ok a => exact hf a hx

theorem Gives.imp {α : Type} {E E' : SemanticError → Prop} {P : α → Prop} {x : Except SemanticError α}
    (hx : Gives E P x) (h : ∀ e, E e → E' e) : Gives E' P x := by
  cases x with
  | error e => exact h e hx
  | ok a => exact hx

theorem Gives.error {α : Type} {E : SemanticError → Prop} {P : α → Prop} {x : Except SemanticError α}
    (hx : Gives E P x) {e : SemanticError} (h : x = .error e) : E e := by
  rw [h] at hx
  exact hx

/-! ## Frames -/

/-- The types are visible and no other name is that of a type; names of procedures are known. -/
structure Uncaptured (procedures : List String) (frames : List Frame) : Prop where
  type : ∀ type : TypeName, meaning? frames type.text = some .type
  ordinary : ∀ name, Ordinary name → meaning? frames name ≠ some .type
  procedure : ∀ name, meaning? frames name = some .procedure → name ∈ procedures

theorem meaning?_builtins {name : String} (hname : Ordinary name) : meaning? [builtins] name = none := by
  have hinteger : (name == "integer") = false := beq_eq_false_iff_ne.mpr (Ne.symm (hname .integer))
  have hreal : (name == "real") = false := beq_eq_false_iff_ne.mpr (Ne.symm (hname .real))
  simp [meaning?, Frame.meaning?, builtins, List.lookup_cons, hinteger, hreal]

theorem uncaptured_builtins (procedures : List String) : Uncaptured procedures [builtins] := by
  have htype (type : TypeName) : meaning? [builtins] type.text = some .type := by cases type <;> decide
  refine ⟨htype, fun name hname h => ?_, fun name h => ?_⟩
  · rw [meaning?_builtins hname] at h
    cases h
  · have hname : Ordinary name := by
      rintro type rfl
      rw [htype] at h
      cases h
    rw [meaning?_builtins hname] at h
    cases h

namespace Uncaptured

variable {procedures : List String} {own : Frame} {outer frames : List Frame}

theorem opened (h : Uncaptured procedures frames) (title : String) : Uncaptured procedures (⟨title, []⟩ :: frames) :=
  ⟨h.type, h.ordinary, h.procedure⟩

theorem of_declare (h : Uncaptured procedures (own :: outer)) {name : String} (hname : Ordinary name)
    {meaning : Meaning} (htype : meaning ≠ .type) (hprocedure : meaning = .procedure → name ∈ procedures) {line : Nat}
    {own' : Frame} (hdeclare : own.declare name meaning line = .ok own') : Uncaptured procedures (own' :: outer) where
  type type := by
    rw [meaning?_of_declare hdeclare, if_neg (hname type), h.type]
  ordinary other hother := by
    rw [meaning?_of_declare hdeclare]
    split
    · simpa using htype
    · exact h.ordinary other hother
  procedure other hother := by
    rw [meaning?_of_declare hdeclare] at hother
    split at hother
    next heq =>
      cases hother
      rw [heq]
      exact hprocedure rfl
    next => exact h.procedure other hother

theorem declare (h : Uncaptured procedures (own :: outer)) {name : String} (hname : Ordinary name) {meaning : Meaning}
    (htype : meaning ≠ .type) (hprocedure : meaning = .procedure → name ∈ procedures) (line : Nat) :
    Gives (SemanticError.SparesTypes procedures) (fun own' => Uncaptured procedures (own' :: outer))
      (own.declare name meaning line) := by
  cases hdeclare : own.declare name meaning line with
  | ok own' => exact h.of_declare hname htype hprocedure hdeclare
  | error e =>
    -- a name can only be taken, which is no fault of a type
    unfold Frame.declare at hdeclare
    split at hdeclare
    · cases hdeclare
      trivial
    · cases hdeclare

end Uncaptured

/-! ## Rules -/

section Rules

variable {ts : List Lexeme} {procedures : List String} {frames : List Frame}

theorem requireType_eq_ok (h : Uncaptured procedures frames) (type : TypeSpec) : requireType frames type = .ok () :=
  requireType_eq_ok_iff.mpr (h.type _)

theorem requireTypes_eq_ok (h : Uncaptured procedures frames) (ps : List TypedName) :
    requireTypes frames ps = .ok () :=
  requireTypes_eq_ok_iff.mpr fun _ _ => h.type _

theorem gives_requireVariable (h : Uncaptured procedures frames) {name : String} (hname : Ordinary name) (line : Nat) :
    Gives (SemanticError.IsUnresolved procedures) (fun _ => True) (requireVariable frames name line) := by
  unfold requireVariable
  rcases hmeaning : meaning? frames name with _ | _ | _ | _
  · trivial
  · exact absurd hmeaning (h.ordinary name hname)
  · trivial
  · exact h.procedure name hmeaning

theorem gives_checkExpr (hnames : OrdinaryNames ts) (h : Uncaptured procedures frames) : ∀ {e : Expr}, e.Placed ts →
    Gives (SemanticError.IsUnresolved procedures) (fun _ => True) (checkExpr frames e)
  | .literal _ _, _ => trivial
  | .variable _ line, hplaced => gives_requireVariable h (hnames _ _ hplaced) line
  | .unary _ operand _, hplaced => gives_checkExpr hnames h (e := operand) hplaced.2
  | .binary _ left right _, hplaced =>
    (gives_checkExpr hnames h (e := left) hplaced.2.1).bind fun _ _ =>
      gives_checkExpr hnames h (e := right) hplaced.2.2

mutual

theorem gives_checkStatement (hnames : OrdinaryNames ts) (h : Uncaptured procedures frames) :
    ∀ {s : Statement}, s.Placed ts →
    Gives (SemanticError.IsUnresolved procedures) (fun _ => True) (checkStatement frames s)
  | .compound children, hplaced => by
    rw [Statement.Placed] at hplaced
    rw [checkStatement]
    exact gives_checkStatements hnames h hplaced
  | .assign target line value _, hplaced => by
    rw [Statement.Placed] at hplaced
    rw [checkStatement]
    exact (gives_requireVariable h (hnames _ _ hplaced.1) line).bind fun _ _ => gives_checkExpr hnames h hplaced.2.2
  | .skip, _ => by
    rw [checkStatement]
    trivial

theorem gives_checkStatements (hnames : OrdinaryNames ts) (h : Uncaptured procedures frames) :
    ∀ {ss : List Statement}, Statement.AllPlaced ts ss →
    Gives (SemanticError.IsUnresolved procedures) (fun _ => True) (checkStatements frames ss)
  | [], _ => by
    rw [checkStatements]
    trivial
  | first :: others, hplaced => by
    rw [Statement.AllPlaced] at hplaced
    rw [checkStatements]
    exact (gives_checkStatement hnames h hplaced.1).bind fun _ _ => gives_checkStatements hnames h hplaced.2

end

theorem gives_declareParameters (hnames : OrdinaryNames ts) {outer : List Frame} :
    ∀ {ps : List TypedName} {own : Frame}, Uncaptured procedures (own :: outer) → (∀ p ∈ ps, p.Placed ts) →
    Gives (SemanticError.SparesTypes procedures) (fun own' => Uncaptured procedures (own' :: outer))
      (declareParameters own ps)
  | [], _, h, _ => h
  | first :: others, own, h, hplaced => by
    obtain ⟨hfirst, hothers⟩ := List.forall_mem_cons.mp hplaced
    rw [declareParameters]
    refine (h.declare (hnames _ _ hfirst.name) (fun heq => by cases heq) (fun heq => by cases heq) first.line).bind ?_
    exact fun own' h' => gives_declareParameters hnames h' hothers

mutual

/-- A declaration leaves the types visible. -/
theorem gives_checkDeclaration (hnames : OrdinaryNames ts) : ∀ {d : Declaration} {outer : List Frame} {own : Frame},
    Uncaptured procedures (own :: outer) → d.Placed ts → d.procedures ⊆ procedures →
    Gives (SemanticError.SparesTypes procedures) (fun own' => Uncaptured procedures (own' :: outer))
      (checkDeclaration outer own d)
  | .variable declared, outer, own, h, hplaced, _ => by
    rw [Declaration.Placed] at hplaced
    rw [checkDeclaration, requireType_eq_ok h]
    exact h.declare (hnames _ _ hplaced.name) (fun heq => by cases heq) (fun heq => by cases heq) declared.line
  | .procedure name parameters ⟨declarations, body⟩ line, outer, own, h, hplaced, hsub => by
    rw [Declaration.Placed, Block.Placed] at hplaced
    obtain ⟨hheading, hparameters, hdeclarations, hbody⟩ := hplaced
    rw [Declaration.procedures] at hsub
    obtain ⟨hprocedure, hinner⟩ := List.cons_subset.mp hsub
    obtain ⟨nameLine, hname⟩ := hheading.exists_standsOn
    rw [checkDeclaration, requireTypes_eq_ok h]
    refine (h.declare (hnames _ _ hname) (fun heq => by cases heq) (fun _ => hprocedure) line).bind fun own' h' => ?_
    -- inside, the frame of the procedure comes first, and around it all is as the heading has left it
    refine (gives_declareParameters hnames (h'.opened name) hparameters).bind fun inner hinner' => ?_
    refine (gives_checkDeclarations hnames hinner' hdeclarations hinner).bind fun inner' hinner'' => ?_
    have hstatements := gives_checkStatements hnames hinner'' hbody
    exact (hstatements.imp fun _ => SemanticError.IsUnresolved.sparesTypes).bind fun _ _ => h'

theorem gives_checkDeclarations (hnames : OrdinaryNames ts) :
    ∀ {ds : List Declaration} {outer : List Frame} {own : Frame},
    Uncaptured procedures (own :: outer) → Declaration.AllPlaced ts ds → Declaration.allProcedures ds ⊆ procedures →
    Gives (SemanticError.SparesTypes procedures) (fun own' => Uncaptured procedures (own' :: outer))
      (checkDeclarations outer own ds)
  | [], _, _, h, _, _ => by
    rw [checkDeclarations]
    exact h
  | first :: others, outer, own, h, hplaced, hsub => by
    rw [Declaration.AllPlaced] at hplaced
    rw [Declaration.allProcedures] at hsub
    obtain ⟨hfirst, hothers⟩ := List.append_subset.mp hsub
    rw [checkDeclarations]
    refine (gives_checkDeclaration hnames h hplaced.1 hfirst).bind fun own' h' => ?_
    exact gives_checkDeclarations hnames h' hplaced.2 hothers

end

end Rules

end Lexical

/-! ## Programs and expressions -/

/-- A program that stands in a text may repeat or miss names, but it has its types. -/
theorem sparesTypes_of_checkProgram {ts : List Lexeme} (hnames : OrdinaryNames ts) {program : Program}
    (hplaced : program.Placed ts) {fault : SemanticError}
    (h : (Analysis.checkProgram program Analysis.start).result = .error fault) :
    fault.SparesTypes program.procedures := by
  obtain ⟨name, ⟨declarations, body⟩, line⟩ := program
  have hblock := hplaced.block
  rw [Block.Placed] at hblock
  rw [Analysis.result_checkProgram, Analysis.result_checkBlock_eq_lexical, Analysis.frame_start] at h
  have hdeclarations := Lexical.gives_checkDeclarations hnames
    (Lexical.uncaptured_builtins (Declaration.allProcedures declarations)) hblock.1 (List.Subset.refl _)
  have hgives := hdeclarations.bind fun own hown =>
    (Lexical.gives_checkStatements hnames hown hblock.2).imp fun _ => SemanticError.IsUnresolved.sparesTypes
  exact hgives.error h

/-- An expression can only miss a name. -/
theorem isUnresolved_of_checkExpr {ts : List Lexeme} (hnames : OrdinaryNames ts) {e : Expr} (hplaced : e.Placed ts)
    {fault : SemanticError} (h : (Analysis.checkExpr e Analysis.start).result = .error fault) :
    fault.IsUnresolved [] := by
  rw [Analysis.result_checkExpr_eq_lexical] at h
  exact (Lexical.gives_checkExpr hnames (Lexical.uncaptured_builtins []) hplaced).error h

/-- **Types cannot be captured**: no program has an unknown type, what it wrongly takes for a variable is one of its
procedures, and an expression can only miss a name. -/
theorem types_uncaptured (source : String) :
    (∀ name line, runProgram source ≠ .error (.semantic (.unknownType name line))) ∧
    (∀ name line, runProgram source = .error (.semantic (.notAVariable name line)) →
      ∃ tokens tree, tokenize source = .ok tokens ∧ parseProgram tokens = .ok tree ∧ name ∈ tree.procedures) ∧
    ∀ e, evaluateExpression source = .error (.semantic e) → ∃ name line, e = .undeclaredIdentifier name line := by
  have hprogram {e : SemanticError} (h : runProgram source = .error (.semantic e)) :
      ∃ tokens tree, tokenize source = .ok tokens ∧ parseProgram tokens = .ok tree ∧ e.SparesTypes tree.procedures := by
    obtain ⟨tokens, tree, htokens, htree, hfault⟩ := exists_of_runProgram_semantic h
    exact ⟨tokens, tree, htokens, htree,
      sparesTypes_of_checkProgram (ordinaryNames_of_tokenize htokens) (placed_of_parseProgram htree) hfault⟩
  refine ⟨fun name line h => ?_, fun name line h => hprogram h, fun e h => ?_⟩
  · obtain ⟨_, _, -, -, hspares⟩ := hprogram h
    exact hspares
  · obtain ⟨tokens, tree, htokens, htree, hfault⟩ := exists_of_evaluateExpression_semantic h
    have hunresolved :=
      isUnresolved_of_checkExpr (ordinaryNames_of_tokenize htokens) (placed_of_parseExpression htree) hfault
    cases e with
    | undeclaredIdentifier name line => exact ⟨name, line, rfl⟩
    | notAVariable => cases hunresolved
    | duplicateIdentifier => exact hunresolved.elim
    | unknownType => exact hunresolved.elim

/-- In the procedure `a` the name `x` is that of a procedure, which hides the variable. -/
theorem types_uncaptured_hiding :
    let source := "program p; var x : integer; procedure a; procedure x; begin end; begin x := 1 end; begin end."
    runProgram source = .error (.semantic (.notAVariable "x" 1)) ∧
    (∃ tokens tree, tokenize source = .ok tokens ∧ parseProgram tokens = .ok tree ∧ "x" ∈ tree.procedures) ∧
    ∃ name line, evaluateExpression "integers + 1" = .error (.semantic (.undeclaredIdentifier name line)) := by
  intro source
  have hsource : runProgram source = .error (.semantic (.notAVariable "x" 1)) := by decide +kernel
  have hexpression : evaluateExpression "integers + 1" = .error (.semantic (.undeclaredIdentifier "integers" 1)) := by
    decide +kernel
  obtain ⟨name, line, hundeclared⟩ := (types_uncaptured "integers + 1").2.2 _ hexpression
  exact ⟨hsource, (types_uncaptured source).2.1 "x" 1 hsource, name, line, by rw [hexpression, hundeclared]⟩

-- A tree that is the tree of no text can declare a variable `integer` in an inner scope, and that hides the type.
example :
    let inner : Block := ⟨[.variable ⟨"integer", ⟨.real, 1⟩, 1⟩, .variable ⟨"x", ⟨.integer, 2⟩, 2⟩], []⟩
    (Analysis.checkProgram ⟨"p", ⟨[.procedure "q" [] inner 1], []⟩, 1⟩ Analysis.start).result =
      .error (.unknownType "integer" 2) := by decide

end MiniPascal
