/-
  MailMerge.Proofs.Mentions — what a tree renders to depends on the names it mentions only.

  A tree mentions the first names of its paths (`Node.heads`) and the functions that it calls
  (`Node.called`), wherever they stand: also in branches that are not taken and in bodies of
  loops that are never run.

  Proved: two renderings agree, in their text or in their error, when registries and scopes
  agree on what is mentioned (`renderNodes_congr`). A loop binds the same name in both scopes, so
  its body is rendered in scopes that agree again (`Expr.Agrees.bind`). For whole templates: the
  caller's variables without a mention do not matter, nor do functions that are not called
  (`render_depends_on_mentions`).
-/

import MailMerge.Proofs.Drafts
import MailMerge.Proofs.ExprRules
import MailMerge.Proofs.Rendering

namespace MailMerge

/-! ## What is mentioned -/

namespace Expr

/-- The first names of the paths in the expression. -/
def heads : Expr → List Text
  | .call _ _ arg => arg.heads
  | .var _ path _ => path.head?.toList
  | .compare _ _ left right => left.heads ++ right.heads
  | .literal .. | .unsupported _ => []

/-- The names of the functions that the expression calls. -/
def called : Expr → List Text
  | .call _ name arg => name :: arg.called
  | .compare _ _ left right => left.called ++ right.called
  | .var .. | .literal .. | .unsupported _ => []

end Expr

namespace Node

mutual

/-- The expressions that stand anywhere in the node. -/
def exprs : Node → List Expr
  | .text _ => []
  | .expr e => [e]
  | .cond branches otherwise => exprsOfBranches branches ++ exprsOfNodes otherwise
  | .loop _ collection body => collection :: exprsOfNodes body

def exprsOfNodes : List Node → List Expr
  | [] => []
  | n :: nodes => n.exprs ++ exprsOfNodes nodes

def exprsOfBranches : List Branch → List Expr
  | [] => []
  | ⟨test, body⟩ :: branches => test :: (exprsOfNodes body ++ exprsOfBranches branches)

end

/-- The first names of all paths in the nodes. -/
def heads (nodes : List Node) : List Text := (exprsOfNodes nodes).flatMap Expr.heads

/-- The names of all functions that the nodes call. -/
def called (nodes : List Node) : List Text := (exprsOfNodes nodes).flatMap Expr.called

end Node

/-! ## Expressions -/

/-- Two registries and two scopes agree on what the expression mentions. -/
structure Expr.Agrees (f g : Registry) (s s' : Scope) (e : Expr) : Prop where
  names : ∀ h ∈ e.heads, s.get? h = s'.get? h
  functions : ∀ n ∈ e.called, f.get? n = g.get? n

section
variable {f g : Registry} {s s' : Scope}

theorem Scope.lookup?_congr {path : List Text} (h : ∀ x ∈ path.head?, s.get? x = s'.get? x) :
    s.lookup? path = s'.lookup? path := by
  cases path with
  | nil => rfl
  | cons x keys => rw [lookup?, lookup?, h x rfl]

theorem Expr.eval_congr {e : Expr} (h : e.Agrees f g s s') : e.eval f s = e.eval g s' := by
  induction e with
  | literal source v => rfl
  | unsupported source => rfl
  | var source path fallback =>
    have hlookup : s.lookup? path = s'.lookup? path := by
      refine Scope.lookup?_congr fun x hx => h.names x ?_
      exact Option.mem_toList.mpr hx
    rw [eval, eval, hlookup]
  | call source name arg ih =>
    have hname : f.get? name = g.get? name := h.functions name (List.mem_cons_self ..)
    have harg : arg.eval f s = arg.eval g s' :=
      ih ⟨h.names, fun n hn => h.functions n (List.mem_cons_of_mem _ hn)⟩
    rw [eval, eval, hname, harg]
  | compare source op left right ihl ihr =>
    have hleft : left.eval f s = left.eval g s' :=
      ihl ⟨fun x hx => h.names x (List.mem_append_left _ hx), fun n hn => h.functions n (List.mem_append_left _ hn)⟩
    have hright : right.eval f s = right.eval g s' :=
      ihr ⟨fun x hx => h.names x (List.mem_append_right _ hx), fun n hn => h.functions n (List.mem_append_right _ hn)⟩
    rw [eval, eval, hleft, hright]

/-- A new binding hides the same name on both sides. -/
theorem Expr.Agrees.bind {e : Expr} (h : e.Agrees f g s s') (item : Text) (v : Value) :
    e.Agrees f g (s.bind item v) (s'.bind item v) := by
  refine ⟨fun x hx => ?_, h.functions⟩
  rw [Scope.get?_bind, Scope.get?_bind, h.names x hx]

end

/-! ## Trees -/

namespace Node

mutual

theorem render_congr {f g : Registry} {s s' : Scope} : ∀ {n : Node},
    (∀ e ∈ n.exprs, e.Agrees f g s s') → n.render f s = n.render g s'
  | .text t, _ => rfl
  | .expr e, h => by
    rw [render, render, Expr.eval_congr (h e (List.mem_cons_self ..))]
  | .cond branches otherwise, h => by
    have hbranches := renderBranches_congr fun e he => h e (List.mem_append_left _ he)
    have hotherwise := renderNodes_congr fun e he => h e (List.mem_append_right _ he)
    rw [render, render, hbranches, hotherwise]
  | .loop item collection body, h => by
    obtain ⟨hcollection, hbody⟩ := List.forall_mem_cons.mp h
    have helement (v : Value) : renderNodes f (s.bind item v) body = renderNodes g (s'.bind item v) body :=
      renderNodes_congr fun e he => (hbody e he).bind item v
    simp only [render, Expr.eval_congr hcollection, helement]

theorem renderNodes_congr {f g : Registry} {s s' : Scope} : ∀ {nodes : List Node},
    (∀ e ∈ exprsOfNodes nodes, e.Agrees f g s s') → renderNodes f s nodes = renderNodes g s' nodes
  | [], _ => rfl
  | n :: nodes, h => by
    have hn := render_congr fun e he => h e (List.mem_append_left _ he)
    have hnodes := renderNodes_congr fun e he => h e (List.mem_append_right _ he)
    rw [renderNodes, renderNodes, hn, hnodes]

theorem renderBranches_congr {f g : Registry} {s s' : Scope} : ∀ {branches : List Branch},
    (∀ e ∈ exprsOfBranches branches, e.Agrees f g s s') → renderBranches f s branches = renderBranches g s' branches
  | [], _ => rfl
  | ⟨test, body⟩ :: branches, h => by
    obtain ⟨htest, h⟩ := List.forall_mem_cons.mp h
    have hbody := renderNodes_congr fun e he => h e (List.mem_append_left _ he)
    have hbranches := renderBranches_congr fun e he => h e (List.mem_append_right _ he)
    rw [renderBranches, renderBranches, Expr.eval_congr htest, hbody, hbranches]

end

end Node

/-! ## Whole templates -/

namespace Merger

/-- The merger after registrations one after another; one that is refused changes nothing. -/
def registerAll (m : Merger) (fs : List (Text × Function)) : Merger :=
  fs.foldl (fun m e => (m.register e.1 e.2).toOption.getD m) m

theorem registerAll_append (m : Merger) (fs gs : List (Text × Function)) :
    m.registerAll (fs ++ gs) = (m.registerAll fs).registerAll gs := List.foldl_append

theorem registerAll_cons_of_ok {m m' : Merger} {e : Text × Function} (h : m.register e.1 e.2 = .ok m')
    (fs : List (Text × Function)) : m.registerAll (e :: fs) = m'.registerAll fs := by
  rw [registerAll, List.foldl_cons, h]
  rfl

theorem registerAll_cons_of_error {m : Merger} {e : Text × Function} {err : Error} (h : m.register e.1 e.2 = .error err)
    (fs : List (Text × Function)) : m.registerAll (e :: fs) = m.registerAll fs := by
  rw [registerAll, List.foldl_cons, h]
  rfl

/-- A registration that is accepted changes what stands under its own name only. -/
theorem get?_of_register {m m' : Merger} {name : Text} {fn : Function} (h : m.register name fn = .ok m') (n : Text) :
    m'.functions.get? n = if n = name then some fn else m.functions.get? n := by
  cases hr : m.functions.register name fn with
  | error e =>
    rw [register, hr] at h
    cases h
  | ok r =>
    rw [register, hr] at h
    cases h
    exact Registry.get?_register hr n

theorem get?_register_of_ne {m : Merger} {name n : Text} (fn : Function) (h : n ≠ name) :
    ((m.register name fn).toOption.getD m).functions.get? n = m.functions.get? n := by
  cases hr : m.register name fn with
  | error e => rfl
  | ok m' =>
    show m'.functions.get? n = m.functions.get? n
    rw [get?_of_register hr, if_neg h]

theorem get?_registerAll {m : Merger} {n : Text} {fs : List (Text × Function)} (h : ∀ e ∈ fs, e.1 ≠ n) :
    (m.registerAll fs).functions.get? n = m.functions.get? n := by
  induction fs generalizing m with
  | nil => rfl
  | cons e fs ih =>
    obtain ⟨he, hfs⟩ := List.forall_mem_cons.mp h
    show (((m.register e.1 e.2).toOption.getD m).registerAll fs).functions.get? n = _
    rw [ih hfs, get?_register_of_ne _ (Ne.symm he)]

section
variable {T : List Node}

theorem renderNodes_congr_mentions {f g : Registry} {s s' : Scope} (hnames : ∀ h ∈ Node.heads T, s.get? h = s'.get? h)
    (hfunctions : ∀ n ∈ Node.called T, f.get? n = g.get? n) : Node.renderNodes f s T = Node.renderNodes g s' T := by
  refine Node.renderNodes_congr fun e he => ⟨fun h hh => hnames h ?_, fun n hn => hfunctions n ?_⟩
  · exact List.mem_flatMap.mpr ⟨e, he, hh⟩
  · exact List.mem_flatMap.mpr ⟨e, he, hn⟩

/-- Variables that the tree does not mention do not matter. -/
theorem render_congr_variables (m : Merger) {d d' : Data} {fields fields' : Keyed.Table Value}
    (hd : d.toValue = .ok (.map fields)) (hd' : d'.toValue = .ok (.map fields'))
    (h : ∀ n, callerMark ++ n ∈ Node.heads T → fields.get? n = fields'.get? n) :
    m.render T d = m.render T d' := by
  rw [render_of_toValue hd, render_of_toValue hd']
  refine renderNodes_congr_mentions (fun x hx => ?_) fun _ _ => rfl
  show (marked fields).get? x = (marked fields').get? x
  by_cases hmark : ∃ n, x = callerMark ++ n
  · obtain ⟨n, rfl⟩ := hmark
    rw [get?_marked, get?_marked, h n hx]
  · rw [get?_marked_of_bare (not_exists.mp hmark), get?_marked_of_bare (not_exists.mp hmark)]

/-- Functions that the tree does not call do not matter. -/
theorem render_congr_functions {m m' : Merger} (d : Data)
    (h : ∀ n ∈ Node.called T, m.functions.get? n = m'.functions.get? n) : m.render T d = m'.render T d := by
  rw [render, render]
  cases d.toValue with
  | error e => rfl
  | ok v =>
    show (rootNames v >>= fun root => _) = (rootNames v >>= fun root => _)
    cases rootNames v with
    | error e => rfl
    | ok root => exact renderNodes_congr_mentions (fun _ _ => rfl) h

end

/-- What a tree renders to, or the error that it fails with, depends on the names and functions that
    it mentions only: any two scopes and registries that agree on these give the same. So variables
    that a template does not mention do not matter, and functions that it does not call may be registered. -/
theorem render_depends_on_mentions :
    (∀ (T : List Node) (f g : Registry) (s s' : Scope), (∀ h ∈ Node.heads T, s.get? h = s'.get? h) →
      (∀ n ∈ Node.called T, f.get? n = g.get? n) → Node.renderNodes f s T = Node.renderNodes g s' T) ∧
    (∀ (m : Merger) (t : Text) (T : List Node) (d d' : Data) (fields fields' : Keyed.Table Value),
      Tree.read t = .ok T → d.toValue = .ok (.map fields) → d'.toValue = .ok (.map fields') →
      (∀ n, callerMark ++ n ∈ Node.heads T → fields.get? n = fields'.get? n) → m.merge t d = m.merge t d') ∧
    ∀ (m : Merger) (t : Text) (fs : List (Text × Function)) (d : Data),
      (∀ T, Tree.read t = .ok T → ∀ e ∈ fs, e.1 ∉ Node.called T) → (m.registerAll fs).merge t d = m.merge t d := by
  refine ⟨fun T f g s s' hnames hfunctions => renderNodes_congr_mentions hnames hfunctions, ?_, ?_⟩
  · intro m t T d d' fields fields' hT hd hd' h
    rw [merge_of_read hT, merge_of_read hT, render_congr_variables m hd hd' h]
  · intro m t fs d h
    cases hT : Tree.read t with
    | error e => rw [merge_of_read_error hT, merge_of_read_error hT]
    | ok T =>
      rw [merge_of_read hT, merge_of_read hT]
      refine render_congr_functions d fun n hn => get?_registerAll fun e he heq => ?_
      exact h T hT e he (heq ▸ hn)

/-- Names and functions without a mention, in the root, in the bindings and in the registry. -/
theorem merge_ignores_unmentioned :
    let tree : List Node := [.loop "x".toList (.var [] ["l".toList] none)
      [.expr (.call [] "F".toList (.var [] ["x".toList, "k".toList] none)), .expr (.var [] ["x".toList] none)]]
    let f : Registry := ⟨.ofList [("F".toList, Registry.escape)]⟩
    let g : Registry := ⟨.ofList [("E".toList, fun v => .ok v), ("F".toList, Registry.escape)]⟩
    let s : Scope := ⟨.ofList [("l".toList, .list [.str "a".toList])], []⟩
    let s' : Scope := ⟨.ofList [("l".toList, .list [.str "a".toList]), ("z".toList, .null)], [("y".toList, .bool true)]⟩
    let t := Lexeme.join [.expression " var:a ".toList, .content "!".toList]
    let T : List Node := [.expr (.var "var:a".toList ["var:a".toList] none), .text "!".toList]
    let d : Data := .object [("a".toList, .str "x".toList), ("b".toList, .str "y".toList)]
    let d' : Data := .object [("a".toList, .str "x".toList)]
    ((∀ h ∈ Node.heads tree, s.get? h = s'.get? h) ∧ (∀ n ∈ Node.called tree, f.get? n = g.get? n) ∧
      Node.renderNodes f s tree = Node.renderNodes g s' tree) ∧
    (Tree.read t = .ok T ∧ (∀ n, callerMark ++ n ∈ Node.heads T → n = "a".toList) ∧
      standard.merge t d = standard.merge t d') ∧
    (standard.registerAll [("F".toList, Registry.escape), ("f".toList, Registry.escape)]).merge t d = standard.merge t d := by
  intro tree f g s s' t T d d'
  have hnames : ∀ h ∈ Node.heads tree, s.get? h = s'.get? h :=
    List.forall_mem_cons.mpr ⟨rfl, List.forall_mem_cons.mpr ⟨rfl, List.forall_mem_cons.mpr ⟨rfl, fun _ h => nomatch h⟩⟩⟩
  have hfunctions : ∀ n ∈ Node.called tree, f.get? n = g.get? n :=
    List.forall_mem_cons.mpr ⟨rfl, fun _ h => nomatch h⟩
  have hexpr : Expr.read "var:a".toList = .var "var:a".toList ["var:a".toList] none :=
    Expr.read_marked (x := "a".toList) (by decide)
  have hread : Tree.read t = .ok T := by
    have hrow : Lexeme.InFront [.expression " var:a ".toList, .content "!".toList] [] := by decide
    rw [Draft.read_join hrow rfl]
    show Except.ok [Node.expr (.read "var:a".toList), .text "!".toList] = _
    rw [hexpr]
  have hmarked : ∀ n, callerMark ++ n ∈ Node.heads T → n = "a".toList := fun n hn =>
    List.append_cancel_left (List.mem_singleton.mp hn : callerMark ++ n = callerMark ++ "a".toList)
  have hcalled : Node.called T = [] := rfl
  refine ⟨⟨hnames, hfunctions, render_depends_on_mentions.1 tree f g s s' hnames hfunctions⟩, ⟨hread, hmarked, ?_⟩, ?_⟩
  · refine render_depends_on_mentions.2.1 standard t T d d' _ _ hread rfl rfl fun n hn => ?_
    rw [hmarked n hn]
    rfl
  · refine render_depends_on_mentions.2.2 standard t _ d fun T' hT' e _ => ?_
    rw [hread] at hT'
    cases hT'
    rw [hcalled]
    exact List.not_mem_nil

end Merger

end MailMerge
