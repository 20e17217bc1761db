import MiniPascal.Proofs.Evaluation.Assignments
import MiniPascal.Proofs.TypeNames

/-!
# Declared types

A type that is declared for a variable or a parameter is looked up and then forgotten: nothing depends on which of the
two it is. The look-up itself succeeds in every program that stands in a text, where both types are visible everywhere
(`Lexical.Uncaptured`). So the types can be exchanged (`Program.Retypes`), at any depth, and nobody notices.

* `Lexical.checkDeclarations_of_retypes`: declarations with other types have the same fault, or the same frame.
* `run_of_retypes`: analysis and evaluation of a program with other types.
-/

namespace MiniPascal

/-! ## Exchanged types -/

/-- The second name has another type, or the same one, on the same line. -/
structure TypedName.Retypes (v v' : TypedName) : Prop where
  name : v'.name = v.name
  typeLine : v'.type.line = v.type.line
  line : v'.line = v.line

/-- The second list is the first one with other types of variables and parameters, at any depth. -/
inductive Declaration.Retypes : List Declaration → List Declaration → Prop
  | nil : Retypes [] []
  | variable {v v' : TypedName} {ds ds' : List Declaration} : v.Retypes v' → Retypes ds ds' →
      Retypes (.variable v :: ds) (.variable v' :: ds')
  | procedure (name : String) {ps ps' : List TypedName} (body : List Statement) (line : Nat)
      {inner inner' ds ds' : List Declaration} : List.Forall₂ TypedName.Retypes ps ps' → Retypes inner inner' →
      Retypes ds ds' →
      Retypes (.procedure name ps ⟨inner, body⟩ line :: ds) (.procedure name ps' ⟨inner', body⟩ line :: ds')

structure Program.Retypes (p p' : Program) : Prop where
  name : p'.name = p.name
  declarations : Declaration.Retypes p.block.declarations p'.block.declarations
  body : p'.block.body = p.block.body
  line : p'.line = p.line

/-! ## Analysis -/

namespace Lexical

theorem Gives.ok {α : Type} {E : SemanticError → Prop} {P : α → Prop} {x : Except SemanticError α}
    (hx : Gives E P x) {a : α} (h : x = .ok a) : P a := by
  rw [h] at hx
  exact hx

theorem bind_congr_ok {α β : Type} {x : Except SemanticError α} {f g : α → Except SemanticError β}
    (h : ∀ a, x = .ok a → f a = g a) : x >>= f = x >>= g := by
  cases x with
  | error e => rfl
  | ok a => exact h a rfl

theorem declareParameters_of_retypes {ps ps' : List TypedName} (h : List.Forall₂ TypedName.Retypes ps ps')
    (own : Frame) : declareParameters own ps' = declareParameters own ps := by
  induction h generalizing own with
  | nil => rfl
  | cons hfirst _ ih =>
    rw [declareParameters, declareParameters, hfirst.name, hfirst.line]
    exact bind_congr_ok fun own' _ => ih own'

section Rules

variable {ts : List Lexeme} {procedures : List String}

theorem checkDeclaration_of_retypes {outer : List Frame} {own : Frame} (h : Uncaptured procedures (own :: outer))
    {v v' : TypedName} (hv : v.Retypes v') :
    checkDeclaration outer own (.variable v') = checkDeclaration outer own (.variable v) := by
  rw [checkDeclaration, checkDeclaration, requireType_eq_ok h, requireType_eq_ok h, hv.name, hv.line]

/-- A procedure with other types, once its own declarations are known to agree. -/
theorem checkProcedure_of_retypes (hnames : OrdinaryNames ts) {outer : List Frame} {own : Frame}
    (h : Uncaptured procedures (own :: outer)) {name : String} {ps ps' : List TypedName}
    {inner inner' : List Declaration} {body : List Statement} {line : Nat}
    (hplaced : (Declaration.procedure name ps ⟨inner, body⟩ line).Placed ts) (hname : name ∈ procedures)
    (hps : List.Forall₂ TypedName.Retypes ps ps')
    (hinner : ∀ frame own', Uncaptured procedures (frame :: own' :: outer) →
      checkDeclarations (own' :: outer) frame inner' = checkDeclarations (own' :: outer) frame inner) :
    checkDeclaration outer own (.procedure name ps' ⟨inner', body⟩ line) =
      checkDeclaration outer own (.procedure name ps ⟨inner, body⟩ line) := by
  rw [Declaration.Placed] at hplaced
  obtain ⟨hheading, hparameters, -⟩ := hplaced
  obtain ⟨nameLine, hstands⟩ := hheading.exists_standsOn
  rw [checkDeclaration, checkDeclaration, requireTypes_eq_ok h, requireTypes_eq_ok h]
  refine bind_congr_ok fun _ _ => bind_congr_ok fun own' hown => ?_
  have hdeclared := h.of_declare (hnames _ _ hstands) (fun heq => by cases heq) (fun _ => hname) hown
  rw [declareParameters_of_retypes hps]
  refine bind_congr_ok fun frame hframe => ?_
  rw [hinner frame own' ((gives_declareParameters hnames (hdeclared.opened name) hparameters).ok hframe)]

/-- A list agrees with another one if its first declaration does, and the others do behind it. -/
theorem checkDeclarations_cons_congr (hnames : OrdinaryNames ts) {outer : List Frame} {own : Frame}
    (h : Uncaptured procedures (own :: outer)) {d d' : Declaration} {ds ds' : List Declaration}
    (hplaced : Declaration.AllPlaced ts (d :: ds)) (hsub : Declaration.allProcedures (d :: ds) ⊆ procedures)
    (hd : d.Placed ts → d.procedures ⊆ procedures → checkDeclaration outer own d' = checkDeclaration outer own d)
    (hds : ∀ own', Uncaptured procedures (own' :: outer) → Declaration.AllPlaced ts ds →
      Declaration.allProcedures ds ⊆ procedures → checkDeclarations outer own' ds' = checkDeclarations outer own' ds) :
    checkDeclarations outer own (d' :: ds') = checkDeclarations outer own (d :: ds) := by
  rw [Declaration.AllPlaced] at hplaced
  rw [Declaration.allProcedures] at hsub
  obtain ⟨hfirst, hothers⟩ := List.append_subset.mp hsub
  rw [checkDeclarations, checkDeclarations, hd hplaced.1 hfirst]
  refine bind_congr_ok fun own' hown => ?_
  exact hds own' ((gives_checkDeclaration hnames h hplaced.1 hfirst).ok hown) hplaced.2 hothers

/-- Where the types are visible, it does not matter which of them is declared. -/
theorem checkDeclarations_of_retypes (hnames : OrdinaryNames ts) {ds ds' : List Declaration}
    (h : Declaration.Retypes ds ds') {outer : List Frame} {own : Frame}
    (huncaptured : Uncaptured procedures (own :: outer)) (hplaced : Declaration.AllPlaced ts ds)
    (hsub : Declaration.allProcedures ds ⊆ procedures) :
    checkDeclarations outer own ds' = checkDeclarations outer own ds := by
  induction h generalizing outer own with
  | nil => rfl
  | «variable» hv _ ih =>
    refine checkDeclarations_cons_congr hnames huncaptured hplaced hsub (fun _ _ => ?_) fun own' hown => ih hown
    exact checkDeclaration_of_retypes huncaptured hv
  | procedure name body line hps _ _ ihinner ih =>
    refine checkDeclarations_cons_congr hnames huncaptured hplaced hsub (fun hfirst hprocedures => ?_)
      fun own' hown => ih hown
    rw [Declaration.procedures] at hprocedures
    obtain ⟨hname, hinner⟩ := List.cons_subset.mp hprocedures
    refine checkProcedure_of_retypes hnames huncaptured hfirst hname hps fun frame own' hframe => ?_
    rw [Declaration.Placed, Block.Placed] at hfirst
    exact ihinner hframe hfirst.2.2.1 hinner

end Rules

end Lexical

/-- The verdict on a program that stands in a text does not depend on its types. -/
theorem Analysis.result_checkProgram_of_retypes {ts : List Lexeme} (hnames : OrdinaryNames ts) {p p' : Program}
    (hplaced : p.Placed ts) (h : p.Retypes p') :
    (checkProgram p' start).result = (checkProgram p start).result := by
  obtain ⟨name, ⟨declarations, body⟩, line⟩ := p
  obtain ⟨name', ⟨declarations', body'⟩, line'⟩ := p'
  obtain ⟨-, hdeclarations, hbody, -⟩ := h
  dsimp only at hdeclarations hbody
  subst hbody
  have hblock := hplaced.block
  rw [Block.Placed] at hblock
  rw [result_checkProgram, result_checkProgram, result_checkBlock_eq_lexical, result_checkBlock_eq_lexical, frame_start]
  have heq := Lexical.checkDeclarations_of_retypes hnames hdeclarations
    (Lexical.uncaptured_builtins (Declaration.allProcedures declarations)) hblock.1 (List.Subset.refl _)
  have houter : start.enclosing.map Scope.frame = [] := rfl
  rw [houter, heq]

/-! ## Evaluation -/

theorem Declaration.names_of_retypes {ds ds' : List Declaration} (h : Retypes ds ds') :
    ds'.filterMap variableName? = ds.filterMap variableName? ∧
      ds'.filterMap procedureName? = ds.filterMap procedureName? := by
  induction h with
  | nil => exact ⟨rfl, rfl⟩
  | «variable» hv _ ih => simp [List.filterMap_cons, variableName?, procedureName?, hv.name, ih]
  | procedure _ _ _ _ _ _ _ ih => simp [List.filterMap_cons, variableName?, procedureName?, ih]

/-- A run announces names, skips procedures and makes assignments; none of these has a type. -/
theorem Evaluation.runProgram_of_retypes {p p' : Program} (h : p.Retypes p') : runProgram p' = runProgram p := by
  obtain ⟨hvariables, hprocedures⟩ := Declaration.names_of_retypes h.declarations
  funext context
  simp only [runProgram_apply, runBlock_apply, Block.assignments, Block.variableNames, Block.procedureNames, h.body,
    h.name, hvariables, hprocedures]

/-- **Declared types have no influence.** With other types of its variables and parameters, a program that was read from
a text is sound if it was, or has the same fault; and it evaluates to the same value or fault, with the same variables
and the same log. -/
theorem run_of_retypes {source : String} {tokens : List Lexeme} {p p' : Program}
    (htokens : tokenize source = .ok tokens) (hp : parseProgram tokens = .ok p) (h : p.Retypes p') :
    (Analysis.checkProgram p' Analysis.start).result = (Analysis.checkProgram p Analysis.start).result ∧
      ∀ context, Evaluation.runProgram p' context = Evaluation.runProgram p context :=
  ⟨Analysis.result_checkProgram_of_retypes (ordinaryNames_of_tokenize htokens) (placed_of_parseProgram hp) h,
    congrFun (Evaluation.runProgram_of_retypes h)⟩

/-- A token of a text of one line. -/
def Lexeme.between (start : Nat) (token : Token) (stop : Nat) : Lexeme := ⟨token, ⟨start, 1, start + 1⟩, stop⟩

/-- The types of the parameter `x` and of the variable `x` are exchanged for others. The program is refused for the same
name as before, and its body does the same. -/
theorem run_of_retypes_parameter :
    let source := "program p;procedure q(x:real);var x:real;begin end;begin y:=1 end."
    let tokens : List Lexeme :=
      [.between 0 (.keyword .program) 7, .between 8 (.identifier "p") 9, .between 9 (.mark .semicolon) 10,
        .between 10 (.keyword .procedure) 19, .between 20 (.identifier "q") 21, .between 21 (.mark .leftParen) 22,
        .between 22 (.identifier "x") 23, .between 23 (.mark .colon) 24, .between 24 (.keyword .real) 28,
        .between 28 (.mark .rightParen) 29, .between 29 (.mark .semicolon) 30, .between 30 (.keyword .var) 33,
        .between 34 (.identifier "x") 35, .between 35 (.mark .colon) 36, .between 36 (.keyword .real) 40,
        .between 40 (.mark .semicolon) 41, .between 41 (.keyword .beginBlock) 46, .between 47 (.keyword .endBlock) 50,
        .between 50 (.mark .semicolon) 51, .between 51 (.keyword .beginBlock) 56, .between 57 (.identifier "y") 58,
        .between 58 (.mark .assign) 60, .between 60 (.integer 1) 61, .between 62 (.keyword .endBlock) 65,
        .between 65 (.mark .dot) 66, .between 66 .endOfInput 66]
    let tree (parameter inner : TypeName) : Program :=
      ⟨"p", ⟨[.procedure "q" [⟨"x", ⟨parameter, 1⟩, 1⟩] ⟨[.variable ⟨"x", ⟨inner, 1⟩, 1⟩], [.skip]⟩ 1],
        [.assign "y" 1 (.literal (.integer 1) 1) 1]⟩, 1⟩
    (tokenize source = .ok tokens ∧ parseProgram tokens = .ok (tree .real .real)) ∧
      ∀ parameter inner, (tree .real .real).Retypes (tree parameter inner) ∧
        (Analysis.checkProgram (tree parameter inner) Analysis.start).result =
          .error (.duplicateIdentifier "x" "q" 1) ∧
        (Evaluation.runProgram (tree parameter inner) (.ofStore .empty)).state.store.entries = [("y", .integer 1)] := by
  intro source tokens tree
  have htokens : tokenize source = .ok tokens := by decide +kernel
  have hp : parseProgram tokens = .ok (tree .real .real) := by
    simp only [tokens, tree]
    cbv
  refine ⟨⟨htokens, hp⟩, fun parameter inner => ?_⟩
  have hretypes : (tree .real .real).Retypes (tree parameter inner) :=
    ⟨rfl, .procedure "q" [.skip] 1 (.cons ⟨rfl, rfl, rfl⟩ .nil) (.variable ⟨rfl, rfl, rfl⟩ .nil) .nil, rfl, rfl⟩
  obtain ⟨hverdict, hrun⟩ := run_of_retypes htokens hp hretypes
  refine ⟨hretypes, hverdict.trans rfl, ?_⟩
  rw [hrun]
  rfl

end MiniPascal
