import Mathlib.Data.List.Induction
import Mathlib.Data.List.Nodup
import MiniPascal.Proofs.Analysis.Scopes

/-!
# Histories of open scopes

What any sequence of calls makes of the open scopes, whether the calls succeed or not (`Scopes.Reached`). One call keeps
the names of a scope in the order in which they were first given (`Scopes.KeepsNames.after`). Open scopes are chained,
so the way from a scope to its recorded parent never leads to a scope that was closed (`Scopes.follow_outward`). The
histories include all that an analysis does to its scopes, because a walk changes them by nested calls alone
(`Analysis.MakesCalls`).

* `Scopes.reached_lawful`: what holds after every history.
* `Analysis.reached_checkProgram`: the scopes of an analysis have a history.
* `Analysis.result_lookup_eq_follow`: a lookup of an analysis answers what the recorded parents lead to.
-/

namespace MiniPascal

/-! ## First occurrences -/

theorem eraseDups_concat (names : List String) (name : String) :
    (names ++ [name]).eraseDups = if name ∈ names then names.eraseDups else names.eraseDups ++ [name] := by
  rw [List.eraseDups_append]
  by_cases h : name ∈ names
  · simp [List.removeAll, h]
  · simp [List.removeAll, h, List.eraseDups_cons]

theorem nodup_eraseDups (names : List String) : names.eraseDups.Nodup := by
  induction names using List.reverseRecOn with
  | nil => exact List.nodup_nil
  | append_singleton names name ih =>
    rw [eraseDups_concat]
    split
    next => exact ih
    next hnew =>
      have hnew' : name ∉ names.eraseDups := fun h => hnew (List.mem_eraseDups.mp h)
      rw [← List.concat_eq_append]
      exact ih.concat hnew'

/-! ## Names of a scope -/

namespace Scope

def names (scope : Scope) : List String := scope.symbols.map Symbol.name

theorem isSome_get?_iff {scope : Scope} {name : String} : (scope.get? name).isSome ↔ name ∈ scope.names := by
  simp [get?, names, List.find?_isSome]

/-- A name that is there already keeps its place. -/
theorem names_insert (scope : Scope) (symbol : Symbol) :
    (scope.insert symbol).names = if symbol.name ∈ scope.names then scope.names else scope.names ++ [symbol.name] := by
  unfold insert
  by_cases h : symbol.name ∈ scope.names
  · rw [if_pos (isSome_get?_iff.mpr h), if_pos h]
    simp only [names, List.map_map]
    apply List.map_congr_left
    intro other _
    by_cases hother : other.name = symbol.name <;> simp [hother]
  · have hnone : ¬ (scope.get? symbol.name).isSome := fun hsome => h (isSome_get?_iff.mp hsome)
    rw [if_neg hnone, if_neg h]
    simp [names]

/-- Where no name occurs twice, a scope is a map from names to symbols. -/
theorem get?_eq_some_iff {scope : Scope} (hdistinct : scope.names.Nodup) {name : String} {symbol : Symbol} :
    scope.get? name = some symbol ↔ symbol ∈ scope.symbols ∧ symbol.name = name := by
  constructor
  · intro h
    exact ⟨List.mem_of_find?_eq_some h, name_of_get? h⟩
  · rintro ⟨hmem, rfl⟩
    have hfound : (scope.get? symbol.name).isSome := isSome_get?_iff.mpr (List.mem_map_of_mem hmem)
    obtain ⟨other, hother⟩ := Option.isSome_iff_exists.mp hfound
    have hsame := List.inj_on_of_nodup_map hdistinct (List.mem_of_find?_eq_some hother) hmem (name_of_get? hother)
    rw [hother, hsame]

end Scope

/-! ## Calls -/

inductive ScopeCall where
  | enter (name : String)
  | leave
  | define (symbol : Symbol) (line : Nat)

namespace Scopes

/-- What a call leaves behind, whether it succeeds or not. -/
def after (scopes : Scopes) : ScopeCall → Scopes
  | .enter name => scopes.enter name
  | .leave => match scopes.leave? with
    | some (_, outer) => outer
    | none => scopes
  | .define symbol line => (Analysis.define symbol line scopes).state

/-- The names given to each open scope so far, from the inside out, where a call may give a name again. -/
def givenAfter : List (List String) → ScopeCall → List (List String)
  | given, .enter _ => [] :: given
  | _ :: outer :: others, .leave => outer :: others
  | given, .leave => given
  | [], .define _ _ => []
  | inner :: others, .define symbol _ => (inner ++ [symbol.name]) :: others

/-- Open scopes that some sequence of calls leads to, with the names given to each. -/
inductive Reached : List (List String) → Scopes → Prop
  | ofName (outermost : String) : Reached [[]] (.ofName outermost)
  | ofBuiltins (outermost : String) (builtins : List Symbol) :
      Reached [builtins.map Symbol.name] (.ofBuiltins outermost builtins)
  | call {given : List (List String)} {scopes : Scopes} (call : ScopeCall) : Reached given scopes →
      Reached (givenAfter given call) (scopes.after call)

/-! ## What every call keeps -/

/-- The names of each scope stand where they were first given. -/
def KeepsNames (given : List (List String)) (scopes : Scopes) : Prop :=
  scopes.inward.map Scope.names = given.map List.eraseDups

theorem names_foldl_insert (builtins : List Symbol) (scope : Scope) (given : List String)
    (h : scope.names = given.eraseDups) :
    (builtins.foldl Scope.insert scope).names = (given ++ builtins.map Symbol.name).eraseDups := by
  induction builtins generalizing scope given with
  | nil => simpa using h
  | cons first others ih =>
    have hfirst : (scope.insert first).names = (given ++ [first.name]).eraseDups := by
      rw [Scope.names_insert, eraseDups_concat, h]
      simp [List.mem_eraseDups]
    simpa using ih (scope.insert first) (given ++ [first.name]) hfirst

theorem KeepsNames.ofBuiltins (outermost : String) (builtins : List Symbol) :
    KeepsNames [builtins.map Symbol.name] (.ofBuiltins outermost builtins) := by
  have hnames := names_foldl_insert builtins ⟨outermost, 1, none, []⟩ [] rfl
  simpa [KeepsNames, Scopes.ofBuiltins, inward] using hnames

namespace KeepsNames

variable {given : List (List String)} {scopes : Scopes}

theorem enter (h : KeepsNames given scopes) (name : String) : KeepsNames ([] :: given) (scopes.enter name) :=
  congrArg ([] :: ·) h

theorem leave (h : KeepsNames given scopes) : KeepsNames (givenAfter given .leave) (scopes.after .leave) := by
  obtain ⟨current, enclosing, chained⟩ := scopes
  cases enclosing with
  | nil =>
    obtain ⟨only, rfl⟩ : ∃ only, given = [only] := by
      rw [← List.length_eq_one_iff]
      simpa [inward] using (congrArg List.length h).symm
    exact h
  | cons outer others =>
    rcases given with _ | ⟨first, _ | ⟨second, rest⟩⟩
    · cases h
    · simp [KeepsNames, inward] at h
    · exact List.tail_eq_of_cons_eq h

/-- A name that the current scope holds already is not declared again. -/
theorem define (h : KeepsNames given scopes) (symbol : Symbol) (line : Nat) :
    KeepsNames (givenAfter given (.define symbol line)) (scopes.after (.define symbol line)) := by
  cases given with
  | nil => cases h
  | cons inner others =>
    have hinner : scopes.current.names = inner.eraseDups := List.head_eq_of_cons_eq h
    have hothers : scopes.enclosing.map Scope.names = others.map List.eraseDups := List.tail_eq_of_cons_eq h
    show KeepsNames ((inner ++ [symbol.name]) :: others) (Analysis.define symbol line scopes).state
    rw [Analysis.state_define]
    by_cases hname : symbol.name ∈ inner
    · have hheld : (scopes.current.get? symbol.name).isSome := by
        rw [Scope.isSome_get?_iff, hinner]
        exact List.mem_eraseDups.mpr hname
      rw [if_pos hheld, KeepsNames, h, List.map_cons, List.map_cons, eraseDups_concat, if_pos hname]
    · have hfree : ¬ (scopes.current.get? symbol.name).isSome := by
        rw [Scope.isSome_get?_iff, hinner]
        exact fun hmem => hname (List.mem_eraseDups.mp hmem)
      rw [if_neg hfree, KeepsNames, List.map_cons, eraseDups_concat, if_neg hname, ← hinner, ← hothers]
      simp [inward, adding, Scope.names]

/-- One call keeps what was kept. -/
theorem after (h : KeepsNames given scopes) (call : ScopeCall) :
    KeepsNames (givenAfter given call) (scopes.after call) := by
  cases call with
  | enter name => exact h.enter name
  | leave => exact h.leave
  | define symbol line => exact h.define symbol line

theorem nodup_names (h : KeepsNames given scopes) {scope : Scope} (hscope : scope ∈ scopes.inward) :
    scope.names.Nodup := by
  have hmem : scope.names ∈ given.map List.eraseDups := h ▸ List.mem_map_of_mem hscope
  obtain ⟨names, -, heq⟩ := List.mem_map.mp hmem
  rw [← heq]
  exact nodup_eraseDups names

end KeepsNames

/-- Every history keeps it. -/
theorem Reached.keepsNames {given : List (List String)} {scopes : Scopes} (h : Reached given scopes) :
    KeepsNames given scopes := by
  induction h with
  | ofName outermost => exact KeepsNames.ofBuiltins outermost []
  | ofBuiltins outermost builtins => exact .ofBuiltins outermost builtins
  | call call _ ih => exact ih.after call

/-- A history goes on with more calls. -/
theorem Reached.foldl_after {given : List (List String)} {scopes : Scopes} (h : Reached given scopes)
    (calls : List ScopeCall) : Reached (calls.foldl givenAfter given) (calls.foldl after scopes) := by
  induction calls generalizing given scopes with
  | nil => exact h
  | cons first others ih => exact ih (.call first h)

/-! ## Indices -/

theorem get?_of_split {scopes : Scopes} {inner outer : List Scope} {scope : Scope}
    (h : scopes.inward = inner ++ scope :: outer) : scopes.get? outer.length = some scope := by
  simp [get?, h]

theorem split_of_getElem?_reverse {index : Nat} {scope : Scope} (stack : List Scope)
    (h : stack.reverse[index]? = some scope) :
    ∃ inner outer, stack = inner ++ scope :: outer ∧ outer.length = index := by
  induction stack with
  | nil => simp at h
  | cons first others ih =>
    rw [List.reverse_cons] at h
    by_cases hindex : index < others.length
    · rw [List.getElem?_append_left (by simpa using hindex)] at h
      obtain ⟨inner, outer, rfl, hlength⟩ := ih h
      exact ⟨first :: inner, outer, rfl, hlength⟩
    · rw [List.getElem?_append_right (by simpa using hindex), List.getElem?_singleton] at h
      split at h
      next hzero =>
        cases h
        exact ⟨[], others, rfl, by simp at hzero; omega⟩
      next => cases h

/-- The open scopes are those that have an index: inside of each are the higher ones. -/
theorem get?_eq_some_iff {scopes : Scopes} {index : Nat} {scope : Scope} :
    scopes.get? index = some scope ↔ ∃ inner outer, scopes.inward = inner ++ scope :: outer ∧ outer.length = index := by
  constructor
  · exact split_of_getElem?_reverse scopes.inward
  · rintro ⟨inner, outer, hsplit, rfl⟩
    exact get?_of_split hsplit

theorem get?_currentIndex (scopes : Scopes) : scopes.get? scopes.currentIndex = some scopes.current :=
  @get?_of_split scopes [] scopes.enclosing scopes.current rfl

/-- A scope in a chain is in the place that goes with its index. -/
theorem inPlace_of_chained {inner outer : List Scope} {scope : Scope} (h : Scope.Chained (inner ++ scope :: outer)) :
    scope.InPlace outer.length := by
  induction inner with
  | nil => exact h.1
  | cons first others ih => exact ih h.2

theorem inPlace_of_split {scopes : Scopes} {inner outer : List Scope} {scope : Scope}
    (h : scopes.inward = inner ++ scope :: outer) : scope.InPlace outer.length := by
  have hchained : Scope.Chained scopes.inward := scopes.chained
  rw [h] at hchained
  exact inPlace_of_chained hchained

/-! ## Lookups -/

/-- Looks a name up by the recorded indices, from a scope to its parent, in at most the given number of steps. There is
no answer if a step leads to an index that is not open. -/
def follow (scopes : Scopes) (name : String) (currentOnly : Bool) : Nat → Option Nat → Option (Option Symbol)
  | _, none => some none
  | 0, some _ => none
  | steps + 1, some index =>
    match scopes.get? index with
    | none => none
    | some scope =>
      match scope.get? name with
      | some symbol => some (some symbol)
      | none => if currentOnly then some none else scopes.follow name currentOnly steps scope.parent

theorem follow_of_open {scopes : Scopes} {index : Nat} {scope : Scope} (h : scopes.get? index = some scope)
    (name : String) (currentOnly : Bool) (steps : Nat) :
    scopes.follow name currentOnly (steps + 1) (some index) =
      match scope.get? name with
      | some symbol => some (some symbol)
      | none => if currentOnly then some none else scopes.follow name currentOnly steps scope.parent := by
  rw [follow, h]

/-- From an open scope outwards, one step for each scope is enough. -/
theorem follow_outward {scopes : Scopes} (name : String) (outer : List Scope) :
    ∀ inner scope, scopes.inward = inner ++ scope :: outer →
      scopes.follow name false (outer.length + 1) (some outer.length) =
        some ((scope :: outer).findSome? (·.get? name)) := by
  induction outer with
  | nil =>
    intro inner scope hsplit
    have hparent : scope.parent = none := (inPlace_of_split hsplit).parent
    rw [follow_of_open (get?_of_split hsplit), List.findSome?_cons, hparent]
    cases scope.get? name <;> rfl
  | cons next others ih =>
    intro inner scope hsplit
    have hparent : scope.parent = some others.length := (inPlace_of_split hsplit).parent
    have hnext := ih (inner ++ [scope]) next (by simpa using hsplit)
    rw [follow_of_open (get?_of_split hsplit), List.findSome?_cons, hparent]
    cases scope.get? name with
    | some symbol => rfl
    | none => exact hnext

theorem follow_eq_lookup (scopes : Scopes) (name : String) :
    scopes.follow name false scopes.inward.length (some scopes.currentIndex) = some (scopes.lookup name) :=
  follow_outward name scopes.enclosing [] scopes.current rfl

theorem follow_eq_lookupCurrent (scopes : Scopes) (name : String) :
    scopes.follow name true scopes.inward.length (some scopes.currentIndex) = some (scopes.lookupCurrent name) := by
  rw [inward, List.length_cons, follow_of_open (get?_currentIndex scopes)]
  cases hname : scopes.current.get? name <;> simp [lookupCurrent, hname]

/-- Of two open scopes, the one with the higher index is further inside. -/
theorem mem_of_length_lt {inner inner' outer outer' : List Scope} {scope other : Scope}
    (h : inner ++ scope :: outer = inner' ++ other :: outer') (hlength : outer.length < outer'.length) :
    other ∈ inner := by
  rcases List.append_eq_append_iff.mp h with ⟨between, rfl, hbehind⟩ | ⟨between, rfl, hbehind⟩
  · have := congrArg List.length hbehind
    simp at this
    omega
  · cases between with
    | nil =>
      have := congrArg List.length hbehind
      simp at this
      omega
    | cons first between =>
      cases hbehind
      simp

/-- A name is looked up in the innermost scope that holds it. -/
theorem lookup_eq_some_iff {scopes : Scopes} {name : String} {symbol : Symbol} :
    scopes.lookup name = some symbol ↔
      ∃ index scope, scopes.get? index = some scope ∧ scope.get? name = some symbol ∧
        ∀ deeper inner, index < deeper → scopes.get? deeper = some inner → inner.get? name = none := by
  rw [lookup, List.findSome?_eq_some_iff]
  constructor
  · rintro ⟨inner, scope, outer, hsplit, hfound, hinner⟩
    refine ⟨outer.length, scope, get?_of_split hsplit, hfound, fun deeper other hdeeper hother => ?_⟩
    obtain ⟨inner', outer', hsplit', rfl⟩ := get?_eq_some_iff.mp hother
    exact hinner other (mem_of_length_lt (hsplit.symm.trans hsplit') hdeeper)
  · rintro ⟨index, scope, hscope, hfound, hinner⟩
    obtain ⟨inner, outer, hsplit, rfl⟩ := get?_eq_some_iff.mp hscope
    refine ⟨inner, scope, outer, hsplit, hfound, fun other hother => ?_⟩
    obtain ⟨before, behind, rfl⟩ := List.append_of_mem hother
    have hbefore : scopes.inward = before ++ other :: (behind ++ scope :: outer) := by simpa using hsplit
    exact hinner _ other (by simp; omega) (get?_of_split hbefore)

theorem lookup_eq_none_iff {scopes : Scopes} {name : String} :
    scopes.lookup name = none ↔ ∀ index scope, scopes.get? index = some scope → scope.get? name = none := by
  rw [lookup, List.findSome?_eq_none_iff]
  constructor
  · intro h index scope hscope
    obtain ⟨inner, outer, hsplit, -⟩ := get?_eq_some_iff.mp hscope
    exact h scope (hsplit ▸ List.mem_append_right _ List.mem_cons_self)
  · intro h scope hscope
    obtain ⟨inner, outer, hsplit⟩ := List.append_of_mem hscope
    exact h outer.length scope (get?_of_split hsplit)

/-! ## Nested calls -/

/-- Calls that leave every scope that they enter, and no other. -/
inductive Nested : List ScopeCall → Prop
  | nil : Nested []
  | define {symbol : Symbol} {line : Nat} {calls : List ScopeCall} : Nested calls →
      Nested (.define symbol line :: calls)
  | scope {name : String} {inner calls : List ScopeCall} : Nested inner → Nested calls →
      Nested (.enter name :: (inner ++ .leave :: calls))

theorem Nested.append {calls others : List ScopeCall} (h : Nested calls) (hothers : Nested others) :
    Nested (calls ++ others) := by
  induction h with
  | nil => exact hothers
  | define _ ih => exact .define ih
  | @scope name inner calls hinner _ _ ih => simpa using Nested.scope hinner ih

theorem leave_adding_enter (scopes : Scopes) (name : String) (symbols : List Symbol) :
    ((scopes.enter name).adding symbols).after .leave = scopes := rfl

/-- Nested calls at most declare symbols in the current scope. -/
theorem Nested.foldl_after {calls : List ScopeCall} (h : Nested calls) (scopes : Scopes) :
    ∃ symbols, calls.foldl after scopes = scopes.adding symbols := by
  induction h generalizing scopes with
  | nil => exact ⟨[], (adding_nil scopes).symm⟩
  | @define symbol line calls _ ih =>
    obtain ⟨symbols, hdefine⟩ := Analysis.onlyAdds_define symbol line scopes
    obtain ⟨others, hcalls⟩ := ih (scopes.adding symbols)
    refine ⟨symbols ++ others, ?_⟩
    rw [List.foldl_cons, after, hdefine, hcalls, adding_adding]
  | @scope name inner calls _ _ ihinner ihcalls =>
    obtain ⟨symbols, hinner⟩ := ihinner (scopes.enter name)
    obtain ⟨others, hcalls⟩ := ihcalls scopes
    refine ⟨others, ?_⟩
    rw [List.foldl_cons, List.foldl_append, List.foldl_cons, after, hinner, leave_adding_enter, hcalls]

/-- Leaving a scope undoes entering it and all that was done in between. -/
theorem Nested.restores {calls : List ScopeCall} (h : Nested calls) (name : String) (scopes : Scopes) :
    (.enter name :: (calls ++ [.leave])).foldl after scopes = scopes := by
  obtain ⟨symbols, hcalls⟩ := h.foldl_after (scopes.enter name)
  rw [List.foldl_cons, List.foldl_append, after, hcalls]
  exact leave_adding_enter scopes name symbols

/-! ## All histories -/

/-- **After every history** a scope is open, levels and parents go with the indices, and each scope is a map that keeps
its names in the order in which they were first given. So indices lead from scope to scope without leaving the open
ones, a lookup answers with the innermost scope that holds the name, a failing declaration changes nothing, and leaving
restores what entering found. -/
theorem reached_lawful {given : List (List String)} {scopes : Scopes} (h : Reached given scopes) :
    (∃ scope, scopes.get? 0 = some scope) ∧
    (∀ index scope, scopes.get? index = some scope →
      scope.level = index + 1 ∧ scope.parent = if index = 0 then none else some (index - 1)) ∧
    scopes.inward.map (·.symbols.map Symbol.name) = given.map List.eraseDups ∧
    (∀ scope ∈ scopes.inward, (scope.symbols.map Symbol.name).Nodup ∧
      ∀ name symbol, scope.get? name = some symbol ↔ symbol ∈ scope.symbols ∧ symbol.name = name) ∧
    (scopes.currentIndex + 1 = scopes.inward.length ∧ scopes.get? scopes.currentIndex = some scopes.current) ∧
    (∀ name, scopes.follow name false scopes.inward.length (some scopes.currentIndex) = some (scopes.lookup name) ∧
      scopes.follow name true scopes.inward.length (some scopes.currentIndex) = some (scopes.lookupCurrent name)) ∧
    (∀ name symbol, scopes.lookup name = some symbol ↔
      ∃ index scope, scopes.get? index = some scope ∧ scope.get? name = some symbol ∧
        ∀ deeper inner, index < deeper → scopes.get? deeper = some inner → inner.get? name = none) ∧
    (∀ name, scopes.lookup name = none ↔ ∀ index scope, scopes.get? index = some scope → scope.get? name = none) ∧
    (∀ symbol line e, (Analysis.define symbol line scopes).result = .error e →
      (Analysis.define symbol line scopes).state = scopes) ∧
    ∀ name calls, Nested calls → (.enter name :: (calls ++ [.leave])).foldl after scopes = scopes := by
  have hnames := h.keepsNames
  refine ⟨?_, ?_, hnames, fun scope hscope => ?_, ⟨rfl, get?_currentIndex scopes⟩,
    fun name => ⟨scopes.follow_eq_lookup name, scopes.follow_eq_lookupCurrent name⟩,
    fun _ _ => lookup_eq_some_iff, fun _ => lookup_eq_none_iff, fun _ _ _ => Analysis.state_define_of_error,
    fun name calls hcalls => hcalls.restores name scopes⟩
  · have hsplit := List.dropLast_append_getLast (l := scopes.inward) (by simp [inward])
    exact ⟨_, @get?_of_split scopes _ [] _ hsplit.symm⟩
  · intro index scope hscope
    obtain ⟨inner, outer, hsplit, rfl⟩ := get?_eq_some_iff.mp hscope
    obtain ⟨hlevel, hparent⟩ := inPlace_of_split hsplit
    refine ⟨hlevel, hparent.trans ?_⟩
    cases outer <;> rfl
  · have hdistinct := hnames.nodup_names hscope
    exact ⟨hdistinct, fun _ _ => Scope.get?_eq_some_iff hdistinct⟩

/-- The outermost scope is left in vain, a built-in type is given twice, and `x` is declared in both scopes and once
more in the inner one. -/
theorem reached_lawful_shadowed :
    let types : List Symbol := [.builtinType "integer", .builtinType "real", .builtinType "integer"]
    let outer : Symbol := .variable ⟨"x", "integer"⟩
    let inner : Symbol := .variable ⟨"x", "real"⟩
    let calls : List ScopeCall := [.leave, .define outer 1, .enter "p", .define inner 2, .define outer 3]
    let scopes := calls.foldl after (.ofBuiltins "global" types)
    Reached [["x", "x"], ["integer", "real", "integer", "x"]] scopes ∧
      scopes.inward.map (·.symbols.map Symbol.name) = [["x"], ["integer", "real", "x"]] ∧
      scopes.follow "x" false 2 (some 1) = some (some inner) ∧
      [.enter "q", .define outer 4, .leave].foldl after scopes = scopes := by
  intro types outer inner calls scopes
  have hreached : Reached [["x", "x"], ["integer", "real", "integer", "x"]] scopes :=
    .call (.define outer 3) <| .call (.define inner 2) <| .call (.enter "p") <| .call (.define outer 1) <|
      .call .leave <| .ofBuiltins "global" types
  obtain ⟨-, -, hnames, -, -, hfollow, -, -, -, hrestores⟩ := reached_lawful hreached
  exact ⟨hreached, hnames, (hfollow "x").1, hrestores "q" [.define outer 4] (.define .nil)⟩

end Scopes

/-! ## Histories of an analysis -/

namespace Analysis

open Scopes (Nested Reached)

variable {α β : Type}

/-- The walk changes the scopes by nested calls alone. -/
def MakesCalls (x : Analysis α) : Prop :=
  ∀ scopes, ∃ calls, Nested calls ∧ (x scopes).state = calls.foldl Scopes.after scopes

theorem Preserves.makesCalls {x : Analysis α} (hx : Preserves x) : MakesCalls x := fun scopes =>
  ⟨[], .nil, hx scopes⟩

theorem MakesCalls.bind {x : Analysis α} {f : α → Analysis β} (hx : MakesCalls x) (hf : ∀ a, MakesCalls (f a)) :
    MakesCalls (x >>= f) := by
  intro scopes
  obtain ⟨calls, hnested, hstate⟩ := hx scopes
  cases hresult : (x scopes).result with
  | error e => exact ⟨calls, hnested, by rw [Traced.state_bind_of_error f hresult, hstate]⟩
  | ok a =>
    obtain ⟨others, hnested', hstate'⟩ := hf a (x scopes).state
    refine ⟨calls ++ others, hnested.append hnested', ?_⟩
    rw [Traced.state_bind_of_ok f hresult, hstate', hstate, List.foldl_append]

theorem state_inScope (walk : Analysis α) (name : String) (scopes : Scopes) :
    (inScope name walk scopes).state = (walk (scopes.enter name)).state.after .leave := by
  simp only [inScope, Traced.bind_apply, Traced.modify, Traced.emit, Traced.ensuring_apply, Scopes.after]
  cases (walk (scopes.enter name)).state.leave? <;> rfl

/-- The scope of a procedure is left behind the calls that are made inside of it. -/
theorem MakesCalls.inScope {walk : Analysis α} (hwalk : MakesCalls walk) (name : String) :
    MakesCalls (inScope name walk) := by
  intro scopes
  obtain ⟨calls, hnested, hstate⟩ := hwalk (scopes.enter name)
  refine ⟨.enter name :: (calls ++ [.leave]), .scope hnested .nil, ?_⟩
  rw [state_inScope, hstate, List.foldl_cons, List.foldl_append]
  rfl

theorem walkClosed_makesCalls : WalkClosed MakesCalls where
  pure a := (referenceClosed_preserves.pure a).makesCalls
  fail e := (referenceClosed_preserves.fail e).makesCalls
  lookup name := (referenceClosed_preserves.lookup name).makesCalls
  bind := MakesCalls.bind
  define symbol line := fun _ => ⟨[.define symbol line], .define .nil, rfl⟩
  inScope name hwalk := hwalk.inScope name

/-- From scopes with a history a walk goes on with it, however it ends. -/
theorem MakesCalls.reached {x : Analysis α} (hx : MakesCalls x) {given : List (List String)} {scopes : Scopes}
    (h : Reached given scopes) : ∃ given', Reached given' (x scopes).state := by
  obtain ⟨calls, -, hstate⟩ := hx scopes
  rw [hstate]
  exact ⟨_, h.foldl_after calls⟩

/-- The scopes of an analysis have a history. -/
theorem reached_checkProgram (program : Program) : ∃ given, Reached given (checkProgram program start).state := by
  rw [state_checkProgram]
  exact (walkClosed_makesCalls.checkBlock program.block).reached (.ofBuiltins globalName _)

/-- A lookup finds what the recorded parents lead to, whatever scopes an analysis has open. -/
theorem result_lookup_eq_follow (name : String) (scopes : Scopes) :
    (lookup name scopes).result.map some =
      .ok (scopes.follow name false scopes.inward.length (some scopes.currentIndex)) := by
  rw [scopes.follow_eq_lookup]
  rfl

end Analysis

end MiniPascal
