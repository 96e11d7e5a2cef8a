import LoxLang.Proofs.Effect
import LoxLang.Proofs.Scoping.Depth
import LoxLang.Session

/-!
# Where returns end

A return statement is for the nearest call. Resolution walks through a program with the kind of function that
surrounds a place, and rejects a return outside of all functions and one with a value in an initializer. What
it accepts in a setting ends, whenever it runs, as that setting allows. Bodies of declared functions and
methods have settings of their own, and none of them runs as a part of the statement that declares it; what a
called function returns is the value of the call and goes no further.
-/

namespace LoxLang

/-- The ways in which statements may end inside a function of a kind. -/
def Flow.Allowed : FunctionSetting → Flow → Prop
  | .outside, flow => flow = .normal
  | .initializer, flow => flow = .normal ∨ flow = .returned .nil
  | _, _ => True

theorem Flow.allowed_normal (kind : FunctionSetting) : Flow.normal.Allowed kind := by
  cases kind with
  | outside => rfl
  | initializer => exact .inl rfl
  | function | method => trivial

/-! ## Values of effects -/

/-- Whenever the effect ends with a value, the value has the property. -/
def EndsWith {α : Type} (P : α → Prop) (effect : Effect α) : Prop :=
  ∀ m a after, effect m = .done a after → P a

namespace EndsWith
variable {α β : Type} {P : α → Prop} {Q : β → Prop} {effect : Effect α} {next : α → Effect β}

theorem yield {a : α} (h : P a) : EndsWith P (pure a) := by
  intro m b after hr
  cases hr
  exact h

theorem exhausted : EndsWith P Effect.exhausted := by
  intro m a after hr
  cases hr

theorem bind (he : EndsWith P effect) (hn : ∀ a, P a → EndsWith Q (next a)) : EndsWith Q (effect >>= next) := by
  intro m b after hr
  change Effect.andThen effect next m = .done b after at hr
  unfold Effect.andThen at hr
  cases hm : effect m with
  | done a mid =>
    rw [hm] at hr
    exact hn a (he m a mid hm) mid b after hr
  | failed e mid =>
    rw [hm] at hr
    cases hr
  | outOfFuel mid =>
    rw [hm] at hr
    cases hr

/-- Nothing needs to be known of what comes before. -/
theorem behind (hn : ∀ a, EndsWith Q (next a)) : EndsWith Q (effect >>= next) :=
  bind (fun _ _ _ _ => trivial) fun a (_ : True) => hn a

theorem within (scope : ScopeId) (h : EndsWith P effect) : EndsWith P (Effect.within scope effect) := by
  intro m a after hr
  unfold Effect.within at hr
  cases hm : effect { m with current := scope } with
  | done b mid =>
    rw [hm] at hr
    cases hr
    exact h _ _ _ hm
  | failed e mid =>
    rw [hm] at hr
    cases hr
  | outOfFuel mid =>
    rw [hm] at hr
    cases hr

end EndsWith

/-! ## What resolution accepts -/

/-- Resolution, coming to the part in some state, goes through it without having found an error. Only
statements can return, so nothing is said of expressions. -/
def Piece.Accepted (setting : Setting) : Piece → Prop
  | .expr _ => True
  | p => ∃ r, (p.walk setting r).errors = []

namespace Piece.Accepted
variable {setting : Setting} {s t : Stmt} {rest body : List Stmt} {condition : Expr} {o : Option Stmt}

theorem head (h : (Piece.body (s :: rest)).Accepted setting) : (Piece.stmt s).Accepted setting := by
  obtain ⟨r, he⟩ := h
  exact ⟨r, (stmts_grows setting rest).silent he⟩

theorem tail (h : (Piece.body (s :: rest)).Accepted setting) : (Piece.body rest).Accepted setting := by
  obtain ⟨r, he⟩ := h
  exact ⟨Resolution.stmt setting s r, he⟩

theorem block (h : (Piece.stmt (.block body)).Accepted setting) : (Piece.body body).Accepted setting := by
  obtain ⟨r, he⟩ := h
  exact ⟨r.enter [], he⟩

theorem thenBranch (h : (Piece.stmt (.branch condition s o)).Accepted setting) :
    (Piece.stmt s).Accepted setting := by
  obtain ⟨r, he⟩ := h
  exact ⟨Resolution.expr setting condition r, (else_grows setting o).silent he⟩

theorem elseBranch (h : (Piece.stmt (.branch condition s (some t))).Accepted setting) :
    (Piece.stmt t).Accepted setting := by
  obtain ⟨r, he⟩ := h
  exact ⟨Resolution.stmt setting s (Resolution.expr setting condition r), he⟩

theorem loopBody (h : (Piece.stmt (.loop condition s)).Accepted setting) :
    (Piece.stmt s).Accepted setting := by
  obtain ⟨r, he⟩ := h
  exact ⟨Resolution.expr setting condition r, he⟩

theorem function {f : FunctionDecl} (h : (Piece.stmt (.function f)).Accepted setting) :
    (Piece.function f).Accepted { setting with function := .function } := by
  obtain ⟨r, he⟩ := h
  exact ⟨(r.declare f.name).define f.name, he⟩

theorem method {name : Name} {superclass : Option Reference} {methods : List FunctionDecl} {f : FunctionDecl}
    (h : (Piece.stmt (.declareClass name superclass methods)).Accepted setting) (hf : f ∈ methods) :
    (Piece.function f).Accepted
      (Resolution.methodSetting (Resolution.classSetting superclass) f.name) := by
  obtain ⟨r, he⟩ := h
  obtain ⟨front, back, rfl⟩ := List.append_of_mem hf
  have hmethods : ∃ r, (Resolution.methods (Resolution.classSetting superclass) (front ++ f :: back)
      r).errors = [] := by
    cases superclass with
    | none => exact ⟨_, leave_grows.silent he⟩
    | some target => exact ⟨_, (leave_grows.comp leave_grows).silent he⟩
  obtain ⟨r, he⟩ := hmethods
  rw [methods_append] at he
  exact ⟨_, (methods_grows _ back).silent he⟩

theorem functionBody {f : FunctionDecl} (h : (Piece.function f).Accepted setting) :
    (Piece.body f.body).Accepted setting := by
  obtain ⟨name, params, body⟩ := f
  obtain ⟨r, he⟩ := h
  exact ⟨(r.enter []).parameters params, leave_grows.silent he⟩

/-- A return that is accepted stands in a function, and in an initializer it has no value. -/
theorem giveBack {keyword : Name} {value : Option Expr}
    (h : (Piece.stmt (.giveBack keyword value)).Accepted setting) :
    setting.function ≠ .outside ∧ (setting.function = .initializer → value = none) := by
  obtain ⟨r, he⟩ := h
  have hcheck : (r.checkReturn setting keyword value.isSome).errors = [] :=
    (optional_grows setting value).silent he
  unfold Resolution.checkReturn at hcheck
  constructor
  · intro hk
    rw [hk] at hcheck
    cases hcheck
  · intro hk
    rw [hk] at hcheck
    cases value with
    | none => rfl
    | some e => cases hcheck

end Piece.Accepted

theorem Context.behind_setting (c : Context) (s : Stmt) : (c.behind s).setting = c.setting := by
  cases s <;> simp [Context.behind]

/-- Every part of a program without errors of scope is accepted where it stands. -/
theorem Stands.accepted {program : List Stmt} {c : Context} {p : Piece} (h : Stands program c p)
    (he : (resolve program).errors = []) : p.Accepted c.setting := by
  induction h with
  | program => exact ⟨{}, he⟩
  | head _ ih => exact ih.head
  | tail _ ih =>
    rw [Context.behind_setting]
    exact ih.tail
  | block _ ih => exact ih.block
  | thenBranch _ ih => exact ih.thenBranch
  | elseBranch _ ih => exact ih.elseBranch
  | loopBody _ ih => exact ih.loopBody
  | @function c f _ ih =>
    have hsetting : (c.function f).setting = { c.setting with function := .function } := by
      simp [Context.function]
    rw [hsetting]
    exact ih.function
  | method _ hf ih => exact ih.method hf
  | functionBody _ ih => exact ih.functionBody
  | _ => trivial

/-! ## How accepted statements end -/

/-- With this fuel, what is accepted in a setting ends as the setting allows. -/
structure EndsAllowed (fuel : Nat) : Prop where
  execute {setting : Setting} {s : Stmt} : (Piece.stmt s).Accepted setting →
    EndsWith (Flow.Allowed setting.function) (execute fuel s)
  executeAll {setting : Setting} {body : List Stmt} : (Piece.body body).Accepted setting →
    EndsWith (Flow.Allowed setting.function) (executeAll fuel body)
  executeLoop {setting : Setting} {condition : Expr} {body : Stmt} : (Piece.stmt body).Accepted setting →
    EndsWith (Flow.Allowed setting.function) (executeLoop fuel condition body)

namespace EndsAllowed
variable {fuel : Nat} {setting : Setting}

theorem normal : EndsWith (Flow.Allowed setting.function) (pure .normal) := .yield (Flow.allowed_normal _)

theorem giveBack {keyword : Name} {value : Option Expr}
    (h : (Piece.stmt (.giveBack keyword value)).Accepted setting) :
    EndsWith (Flow.Allowed setting.function) (LoxLang.execute (fuel + 1) (.giveBack keyword value)) := by
  obtain ⟨hinside, hplain⟩ := h.giveBack
  cases hk : setting.function with
  | outside => exact absurd hk hinside
  | initializer =>
    cases hplain hk
    exact .yield (.inr rfl)
  | function | method => exact fun _ _ _ _ => trivial

theorem stmt (ih : EndsAllowed fuel) {s : Stmt} (h : (Piece.stmt s).Accepted setting) :
    EndsWith (Flow.Allowed setting.function) (LoxLang.execute (fuel + 1) s) := by
  cases s with
  | expression value => exact .behind fun _ => normal
  | declare name initializer =>
    cases initializer with
    | some e => exact .behind fun _ => .behind fun _ => normal
    | none => exact .behind fun _ => .behind fun _ => normal
  | block body => exact .behind fun _ => .behind fun scope => .within scope (ih.executeAll h.block)
  | branch condition thenBranch elseBranch =>
    refine .behind fun value => ?_
    split
    · exact ih.execute h.thenBranch
    · cases elseBranch with
      | some elseBranch => exact ih.execute h.elseBranch
      | none => exact normal
  | loop condition body => exact ih.executeLoop h.loopBody
  | function declaration => exact .behind fun _ => .behind fun _ => .behind fun _ => normal
  | giveBack keyword value => exact giveBack h
  | declareClass name superclass methods => exact .behind fun _ => normal

/-- A flow that stops the statements behind it is passed on as it is. -/
theorem onward {effect next : Effect Flow} (he : EndsWith (Flow.Allowed setting.function) effect)
    (hn : EndsWith (Flow.Allowed setting.function) next) :
    EndsWith (Flow.Allowed setting.function) (do
      match ← effect with
      | .returned value => pure (.returned value)
      | .normal => next) := by
  refine he.bind fun flow hflow => ?_
  cases flow with
  | normal => exact hn
  | returned value => exact .yield hflow

end EndsAllowed

theorem endsAllowed : ∀ fuel, EndsAllowed fuel
  | 0 => ⟨fun _ => .exhausted, fun _ => .exhausted, fun _ => .exhausted⟩
  | fuel + 1 => by
    have ih := endsAllowed fuel
    refine ⟨ih.stmt, ?_, ?_⟩
    · intro setting body h
      cases body with
      | nil => exact EndsAllowed.normal
      | cons s rest => exact EndsAllowed.onward (ih.execute h.head) (ih.executeAll h.tail)
    · intro setting condition body h
      refine .behind fun value => ?_
      split
      · exact EndsAllowed.onward (ih.execute h) (ih.executeLoop h)
      · exact EndsAllowed.normal

/-! ## Programs -/

/-- Runs top-level statements up to the first one that returns, and tells how they ended. -/
def runToReturn (fuel : Nat) : List Stmt → Effect Flow
  | [] => pure .normal
  | s :: rest => do
    match ← execute fuel s with
    | .returned value => pure (.returned value)
    | .normal => runToReturn fuel rest

/-- Where no statement returns, nothing is lost if only the errors are looked at. -/
theorem runToReturn_eq {fuel : Nat} {program : List Stmt}
    (h : ∀ s ∈ program, EndsWith (fun flow => flow = .normal) (execute fuel s)) (m : Machine) :
    runToReturn fuel program m = (runProgram fuel program >>= fun _ => pure .normal) m := by
  induction program generalizing m with
  | nil => rfl
  | cons s rest ih =>
    obtain ⟨hs, hrest⟩ := List.forall_mem_cons.1 h
    change Effect.andThen (execute fuel s) _ m =
      Effect.andThen (Effect.andThen (execute fuel s) fun _ => runProgram fuel rest) _ m
    unfold Effect.andThen
    cases hm : execute fuel s m with
    | done flow after =>
      cases hs m flow after hm
      exact ih hrest after
    | failed e after => rfl
    | outOfFuel after => rfl

theorem Stands.of_mem {program rest : List Stmt} {c : Context} {s : Stmt}
    (h : Stands program c (.body rest)) (hs : s ∈ rest) : ∃ c', Stands program c' (.stmt s) ∧
      c'.setting = c.setting := by
  induction rest generalizing c with
  | nil => cases hs
  | cons first rest ih =>
    rcases List.mem_cons.1 hs with rfl | hs
    · exact ⟨c, h.head, rfl⟩
    · obtain ⟨c', hc', hsetting⟩ := ih h.tail hs
      exact ⟨c', hc', hsetting.trans (c.behind_setting first)⟩

/-- No return of a program without errors of scope gets out of a function. Each of its top-level statements,
whenever it ends without an error, ends normally, so a run that stopped at a return would be the same as one
that does not look for returns. The body of an initializer, wherever its class stands, returns at most
`nil`. -/
theorem returns_stay_in_functions {program : List Stmt} (h : (resolve program).errors = []) :
    (∀ s ∈ program, ∀ fuel m flow after, execute fuel s m = .done flow after → flow = .normal) ∧
    (∀ fuel m, runToReturn fuel program m = (runProgram fuel program >>= fun _ => pure .normal) m) ∧
    ∀ c name superclass methods f, Stands program c (.stmt (.declareClass name superclass methods)) →
      f ∈ methods → f.name.text = initializerName → ∀ fuel m value after,
        executeAll fuel f.body m = .done (.returned value) after → value = .nil := by
  have hnormal : ∀ s ∈ program, ∀ fuel, EndsWith (fun flow => flow = .normal) (execute fuel s) := by
    intro s hs fuel
    obtain ⟨c, hc, hsetting⟩ := Stands.program.of_mem hs
    have hends := (endsAllowed fuel).execute (hc.accepted h)
    rw [hsetting] at hends
    exact hends
  refine ⟨fun s hs fuel => hnormal s hs fuel, fun fuel => runToReturn_eq fun s hs => hnormal s hs fuel, ?_⟩
  intro c name superclass methods f hc hf hname fuel m value after hr
  have haccepted := ((hc.accepted h).method hf).functionBody
  have hallowed := (endsAllowed fuel).executeAll haccepted m _ after hr
  simp only [Resolution.methodSetting, if_pos hname] at hallowed
  rcases hallowed with hflow | hflow
  · cases hflow
  · cases hflow
    rfl

/-- An initializer that returns early if it is given nothing. -/
def earlyInit : FunctionDecl where
  name := ⟨"init", 1⟩
  params := [⟨"x", 1⟩]
  body := [.branch (.reference ⟨0, ⟨"x", 1⟩⟩) (.block []) (some (.giveBack ⟨"return", 1⟩ none))]

/-- A machine with a global `x` that is `nil`. -/
def Machine.ofNothing : Machine :=
  let (globals, store) := Store.newScope {} [("x", .nil)] none
  { store, current := globals, globals }

theorem returns_stay_in_functions_early :
    (∃ after, executeAll 3 earlyInit.body Machine.ofNothing = .done (.returned .nil) after) ∧
    (∀ fuel m flow after, execute fuel (.declareClass ⟨"A", 1⟩ none [earlyInit]) m = .done flow after →
      flow = .normal) ∧
    ∀ fuel m value after, executeAll fuel earlyInit.body m = .done (.returned value) after → value = .nil := by
  have hclass := @returns_stay_in_functions [.declareClass ⟨"A", 1⟩ none [earlyInit]] (by decide +kernel)
  exact ⟨⟨Machine.ofNothing, rfl⟩, hclass.1 _ (List.mem_singleton_self _),
    hclass.2.2 _ _ _ _ _ (.head .program) (List.mem_singleton_self _) rfl⟩

end LoxLang
