import Mathlib.Data.List.Forall2
import ChatTemplate.Node
import ChatTemplate.Proofs.Grammar.Parts

/-!
# The shape of the tree

`schema` is a table of the kinds of nodes: what children a node of each kind has. The tree of a
program follows it at every node (`Stmt.conforms_node`), as far as filters are concerned in one of
two ways (`FilterRule`): as the table has it, a filter is a name or the call of a name; the grammar
takes more.
-/

namespace ChatTemplate

/-! ### The table -/

/-- What may stand for a filter: a name or the call of a name, or all that the grammar takes. -/
inductive FilterRule
  | documented
  | accepted

/-- What a child of a node may be. -/
inductive Child
  | tree (kinds : List String)
  | token (kind : String)
  | flag
  | optional (child : Child)
  /-- The filter behind `|`. -/
  | filter
  /-- The filter of a block. -/
  | blockFilter

/-- What children a node has. -/
inductive Children
  | exactly (cs : List Child)
  /-- Any number of children of one kind. -/
  | any (c : Child)

def expressionKinds : List String :=
  ["identifier", "integer_literal", "float_literal", "string_literal", "boolean_literal",
    "null_literal", "array_literal", "tuple_literal", "object_literal", "binary_expression",
    "unary_expression", "member_expression", "call_expression", "filter_expression",
    "test_expression", "select_expression", "ternary_expression"]

/-- An expression is a statement, too: that of its value. -/
def statementKinds : List String :=
  ["comment", "string_literal", "if_stmt", "for_stmt", "set_stmt", "macro_stmt", "call_stmt",
    "filter_stmt", "break_stmt", "continue_stmt"] ++ expressionKinds

namespace Child

def expr : Child := .tree expressionKinds

def stmt : Child := .tree statementKinds

def name : Child := .tree ["identifier"]

end Child

open Child Children in
/-- The kinds of nodes. -/
def schema : List (String × Children) :=
  [("program", any stmt), ("body", any stmt), ("alternate", any stmt), ("default", any stmt),
    ("comment", exactly [token "COMMENT"]),
    ("string_literal", exactly [token "STRING"]),
    ("if_stmt", exactly [expr, tree ["body"], tree ["alternate"]]),
    ("for_stmt", exactly [tree ["identifier", "tuple_literal"], expr, tree ["body"],
      tree ["default"]]),
    ("set_stmt", exactly [expr, optional expr, tree ["body"]]),
    ("macro_stmt", exactly [name, tree ["args"], tree ["body"]]),
    ("call_stmt", exactly [tree ["call_expression"], optional (tree ["args"]), tree ["body"]]),
    ("filter_stmt", exactly [blockFilter, tree ["body"]]),
    ("break_stmt", exactly [token "BREAK"]),
    ("continue_stmt", exactly [token "CONTINUE"]),
    ("identifier", exactly [token "NAME"]),
    ("integer_literal", exactly [token "INT"]),
    ("float_literal", exactly [token "FLOAT"]),
    ("boolean_literal", exactly [token "BOOL"]),
    ("null_literal", exactly [token "NONE"]),
    ("array_literal", any expr),
    ("tuple_literal", any expr),
    ("object_literal", any (tree ["pair"])),
    ("pair", exactly [expr, expr]),
    ("binary_expression", exactly [expr, token "OP", expr]),
    ("unary_expression", exactly [token "OP", expr]),
    ("member_expression", exactly [expr, tree ("slice_expression" :: expressionKinds), flag]),
    ("slice_expression", exactly [optional expr, optional expr, optional expr]),
    ("call_expression", exactly [expr, tree ["args"]]),
    ("args", any (tree ("keyword_argument" :: "spread_expression" :: expressionKinds))),
    ("keyword_argument", exactly [name, expr]),
    ("spread_expression", exactly [expr]),
    ("filter_expression", exactly [expr, filter]),
    ("test_expression", exactly [expr, flag, name]),
    ("select_expression", exactly [expr, expr]),
    ("ternary_expression", exactly [expr, expr, expr])]

/-! ### Nodes that follow it -/

namespace Node

/-- Is the node of one of these kinds? -/
def isOf (kinds : List String) (n : Node) : Bool := n.kind?.any kinds.contains

/-- Is the node an identifier, or a call of one? -/
def namesFilter : Node → Bool
  | .tree kind children =>
    kind == "identifier" ||
      kind == "call_expression" && children.head?.any (isOf ["identifier"])
  | _ => false

/-- Is the node a call of an identifier, or calls, members and subscripts behind one? -/
def invoked : Node → Bool
  | .tree kind (n :: _) =>
    kind == "call_expression" && (n.isOf ["identifier"] || n.invoked) ||
      kind == "member_expression" && n.invoked
  | _ => false

end Node

namespace Child

def admits (rule : FilterRule) : Child → Node → Bool
  | .tree kinds, n => n.isOf kinds
  | .token kind, .token kind' _ => kind == kind'
  | .flag, .flag _ => true
  | .optional _, .absent => true
  | .optional c, .tree kind ns => c.admits rule (.tree kind ns)
  | .filter, n =>
    match rule with
    | .documented => n.namesFilter
    | .accepted => n.isOf ["identifier"] || n.invoked
  | .blockFilter, n =>
    match rule with
    | .documented => n.namesFilter
    | .accepted => n.isOf expressionKinds
  | _, _ => false

end Child

/-- Are these the children? -/
def Children.accept (rule : FilterRule) : Children → List Node → Bool
  | .exactly cs, ns => cs.length == ns.length && (cs.zip ns).all fun p => p.1.admits rule p.2
  | .any c, ns => ns.all (c.admits rule)

mutual

/-- Every node has the children that the table has for its kind. -/
def Node.conforms (rule : FilterRule) : Node → Bool
  | .tree kind children =>
    (schema.lookup kind).any (·.accept rule children) && Node.allConform rule children
  | _ => true

def Node.allConform (rule : FilterRule) : List Node → Bool
  | [] => true
  | n :: ns => n.conforms rule && Node.allConform rule ns

end

/-! ### Trees of expressions -/

variable {rule : FilterRule}

/-- A filter is what the rule allows. -/
def Expr.filtersBy (rule : FilterRule) : Expr → Prop
  | .filter _ f => f.filterForm ∧ (rule = .documented → f.namesFilter)
  | _ => True

def Stmt.filtersBy (rule : FilterRule) : Stmt → Prop
  | .filterBlock f _ => rule = .documented → f.namesFilter
  | _ => True

theorem Expr.nodes_eq_map : ∀ es : List Expr, Expr.nodes es = es.map Expr.node
  | [] => rfl
  | e :: es => congrArg (e.node :: ·) (nodes_eq_map es)

theorem Expr.entryNodes_eq_map : ∀ entries : List (Expr × Expr),
    Expr.entryNodes entries = entries.map Expr.entryNode
  | [] => rfl
  | p :: entries => congrArg (Expr.entryNode p :: ·) (entryNodes_eq_map entries)

theorem Arg.nodes_eq_map : ∀ as : List Arg, Arg.nodes as = as.map Arg.node
  | [] => rfl
  | a :: as => congrArg (a.node :: ·) (nodes_eq_map as)

theorem Stmt.nodes_eq_map : ∀ ss : List Stmt, Stmt.nodes ss = ss.map Stmt.node
  | [] => rfl
  | s :: ss => congrArg (s.node :: ·) (nodes_eq_map ss)

namespace Node

@[simp] theorem allConform_iff {ns : List Node} :
    Node.allConform rule ns ↔ ∀ n ∈ ns, n.conforms rule := by
  induction ns with
  | nil => simp [Node.allConform]
  | cons n ns ih => simp [Node.allConform, ih]

theorem conforms_exactly {kind : String} {cs : List Child} {ns : List Node}
    (hrow : schema.lookup kind = some (.exactly cs))
    (hfits : List.Forall₂ (fun c n => c.admits rule n) cs ns)
    (hchildren : ∀ n ∈ ns, n.conforms rule) : (Node.tree kind ns).conforms rule := by
  obtain ⟨hlength, hzip⟩ := List.forall₂_iff_zip.mp hfits
  rw [Node.conforms, hrow, Option.any_some, Bool.and_eq_true, allConform_iff, Children.accept,
    Bool.and_eq_true, beq_iff_eq, List.all_eq_true]
  exact ⟨⟨hlength, fun p hp => hzip hp⟩, hchildren⟩

theorem conforms_any {kind : String} {c : Child} {α : Type} {f : α → Node} {as : List α}
    (hrow : schema.lookup kind = some (.any c)) (hfits : ∀ a ∈ as, c.admits rule (f a))
    (hchildren : ∀ a ∈ as, (f a).conforms rule) : (Node.tree kind (as.map f)).conforms rule := by
  rw [Node.conforms, hrow, Option.any_some, Bool.and_eq_true, allConform_iff, Children.accept,
    List.all_eq_true]
  exact ⟨List.forall_mem_map.mpr hfits, List.forall_mem_map.mpr hchildren⟩

@[simp] theorem conforms_token (kind : String) (w : Word) : (token kind w).conforms rule := rfl

@[simp] theorem conforms_flag (b : Bool) : (flag b).conforms rule := rfl

@[simp] theorem conforms_absent : absent.conforms rule := rfl

@[simp] theorem conforms_identifier (w : Word) : (identifier w).conforms rule := rfl

end Node

theorem Node.isOf_mono {kinds kinds' : List String} (h : kinds ⊆ kinds') {n : Node}
    (hn : n.isOf kinds) : n.isOf kinds' := by
  cases n with
  | tree kind children => exact List.contains_iff_mem.mpr (h (List.contains_iff_mem.mp hn))
  | _ => cases hn

theorem Expr.isOf_node (e : Expr) : e.node.isOf expressionKinds := by
  cases e <;> rfl

@[simp] theorem Child.admits_expr (e : Expr) : Child.expr.admits rule e.node := e.isOf_node

theorem Expr.node_isIdentifier (e : Expr) : e.node.isOf ["identifier"] = e.isName := by
  cases e <;> rfl

theorem Expr.node_namesFilter (e : Expr) : e.node.namesFilter = e.namesFilter := by
  cases e with
  | call f as =>
    show f.node.isOf ["identifier"] = _
    rw [f.node_isIdentifier]
    cases f <;> rfl
  | _ => rfl

theorem Expr.node_invoked : ∀ e : Expr, e.node.invoked = e.invoked
  | .call f as => by
    simp [Expr.node, Node.invoked, Expr.invoked, f.node_isIdentifier, f.node_invoked]
  | .member e w => by simp [Expr.node, Node.invoked, Expr.invoked, e.node_invoked]
  | .index e k => by simp [Expr.node, Node.invoked, Expr.invoked, e.node_invoked]
  | .slice e a b c => by simp [Expr.node, Node.invoked, Expr.invoked, e.node_invoked]
  | .array [] | .array (_ :: _) | .tuple [] | .tuple (_ :: _) | .object [] | .object (_ :: _) => rfl
  | .name _ | .int _ | .float _ | .string _ | .bool _ | .null _ | .binary .. | .unary ..
  | .filter .. | .test .. | .select .. | .ternary .. => rfl

section
variable {kind : String}

@[simp] theorem Child.admits_tree (ns : List Node) :
    (Child.tree [kind]).admits rule (.tree kind ns) := by
  simp [admits, Node.isOf, Node.kind?]

@[simp] theorem Child.admits_token (w : Word) : (Child.token kind).admits rule (.token kind w) :=
  beq_self_eq_true kind

@[simp] theorem Child.admits_flag (b : Bool) : Child.flag.admits rule (.flag b) := rfl

@[simp] theorem Child.admits_name (w : Word) : Child.name.admits rule (.identifier w) := rfl

@[simp] theorem Child.admits_absent (c : Child) : (Child.optional c).admits rule .absent := rfl

@[simp] theorem Child.admits_optional_tree (ns : List Node) :
    (Child.optional (.tree [kind])).admits rule (.tree kind ns) := by
  rw [admits, admits_tree]

end

theorem Child.admits_optional_expr (e : Expr) : (Child.optional .expr).admits rule e.node := by
  have he := e.isOf_node
  cases e <;> exact he

@[simp] theorem Child.admits_optional (o : Option Expr) :
    (Child.optional .expr).admits rule (Expr.optionNode o) := by
  cases o with
  | none => rfl
  | some e => exact admits_optional_expr e

theorem Child.admits_expr_of_subset {kinds : List String} (h : expressionKinds ⊆ kinds) (e : Expr) :
    (Child.tree kinds).admits rule e.node :=
  Node.isOf_mono h e.isOf_node

/-- An argument follows the table if its value does. -/
theorem Arg.conforms_node {a : Arg} (h : a.value.node.conforms rule) : a.node.conforms rule := by
  cases a with
  | positional e => exact h
  | keyword w e =>
    have he : e.node.conforms rule := h
    exact Node.conforms_exactly rfl (by simp) (by simp [he])
  | spread e =>
    have he : e.node.conforms rule := h
    exact Node.conforms_exactly rfl (by simp) (by simp [he])

theorem Arg.conforms_args {as : List Arg} (h : ∀ a ∈ as, a.value.node.conforms rule) :
    (Node.tree "args" (Arg.nodes as)).conforms rule := by
  rw [Arg.nodes_eq_map]
  refine Node.conforms_any rfl (fun a _ => ?_) fun a ha => Arg.conforms_node (h a ha)
  cases a with
  | positional e => exact Child.admits_expr_of_subset (by simp) e
  | keyword w e => rfl
  | spread e => rfl

theorem Expr.conforms_optionNode {o : Option Expr} (h : ∀ e, o = some e → e.node.conforms rule) :
    (Expr.optionNode o).conforms rule := by
  cases o with
  | none => rfl
  | some e => exact h e rfl

theorem Expr.conforms_slice {a b c : Option Expr}
    (h : ∀ e, a = some e ∨ b = some e ∨ c = some e → e.node.conforms rule) :
    (Node.tree "slice_expression" [Expr.optionNode a, Expr.optionNode b, Expr.optionNode c]).conforms
      rule := by
  have ha := conforms_optionNode fun e he => h e (.inl he)
  have hb := conforms_optionNode fun e he => h e (.inr (.inl he))
  have hc := conforms_optionNode fun e he => h e (.inr (.inr he))
  exact Node.conforms_exactly rfl (by simp) (by simp [ha, hb, hc])

/-- The filter is one that the rule allows. -/
theorem Child.admits_filter {e f : Expr} (h : (Expr.filter e f).filtersBy rule) :
    Child.filter.admits rule f.node := by
  cases rule with
  | documented => exact f.node_namesFilter.trans (h.2 rfl)
  | accepted =>
    show (_ || _) = true
    rw [f.node_isIdentifier, f.node_invoked]
    exact h.1

/-- The tree of an expression follows the table if its filters are what the rule allows. -/
theorem Expr.conforms_node {e : Expr} (h : e.All (Expr.filtersBy rule)) : e.node.conforms rule := by
  induction h with
  | @node e here parts ih =>
    cases e with
    | name w | int w | float w | string w | bool w | null w => rfl
    | array es | tuple es =>
      rw [Expr.node, Expr.nodes_eq_map]
      exact Node.conforms_any rfl (fun e _ => Child.admits_expr e) ih
    | object entries =>
      rw [Expr.node, Expr.entryNodes_eq_map]
      refine Node.conforms_any rfl (fun (k, v) _ => rfl) fun (k, v) hp => ?_
      have hk := ih k (List.mem_flatMap.mpr ⟨_, hp, by simp⟩)
      have hv := ih v (List.mem_flatMap.mpr ⟨_, hp, by simp⟩)
      exact Node.conforms_exactly rfl (by simp) (by simp [hk, hv])
    | slice e a b c =>
      simp only [Expr.parts, List.forall_mem_cons] at ih
      obtain ⟨he, hparts⟩ := ih
      have hslice : (Node.tree "slice_expression"
          [Expr.optionNode a, Expr.optionNode b, Expr.optionNode c]).conforms rule :=
        conforms_slice fun e' he' => hparts e' (by simpa using he')
      exact Node.conforms_exactly rfl (by simp; rfl) (by simp [he, hslice])
    | call f as =>
      have hf := ih f List.mem_cons_self
      have hargs := Arg.conforms_args fun a ha =>
        ih _ (List.mem_cons_of_mem _ (List.mem_map_of_mem ha))
      exact Node.conforms_exactly rfl (by simp) (by simp [hf, hargs])
    | filter e f =>
      simp only [Expr.parts, List.forall_mem_cons] at ih
      exact Node.conforms_exactly rfl (by simp [Child.admits_filter here]) (by simp [ih])
    | index e k =>
      simp only [Expr.parts, List.forall_mem_cons] at ih
      have hk : (Child.tree ("slice_expression" :: expressionKinds)).admits rule k.node :=
        Child.admits_expr_of_subset (by simp) k
      exact Node.conforms_exactly rfl (by simp [hk]) (by simp [ih])
    | member e w =>
      simp only [Expr.parts, List.forall_mem_cons] at ih
      exact Node.conforms_exactly rfl (by simp; rfl) (by simp [ih])
    | binary l op r | unary op e | test e negated w | select v t | ternary t y n =>
      simp only [Expr.parts, List.forall_mem_cons] at ih
      exact Node.conforms_exactly rfl (by simp) (by simp [ih])

/-! ### Trees of statements -/

theorem Child.admits_stmt (s : Stmt) : Child.stmt.admits rule s.node := by
  cases s with
  | output e => exact Child.admits_expr_of_subset (List.subset_append_right _ _) e
  | control signal w => cases signal <;> rfl
  | callBlock w as params body => cases params <;> rfl
  | _ => rfl

/-- Blocks of statements, of whatever kind. -/
theorem Stmt.conforms_block {kind : String} (hrow : schema.lookup kind = some (.any .stmt))
    {ss : List Stmt} (h : ∀ s ∈ ss, s.node.conforms rule) :
    (Node.tree kind (Stmt.nodes ss)).conforms rule := by
  rw [Stmt.nodes_eq_map]
  exact Node.conforms_any hrow (fun s _ => Child.admits_stmt s) h

theorem Target.conforms_node {t : Target} (h : ∀ e ∈ t.items, e.node.conforms rule) :
    t.node.conforms rule := by
  cases t with
  | name w => rfl
  | tuple es =>
    rw [Target.node, Expr.nodes_eq_map]
    exact Node.conforms_any rfl (fun e _ => Child.admits_expr e) h

theorem Child.admits_target (t : Target) :
    (Child.tree ["identifier", "tuple_literal"]).admits rule t.node := by
  cases t <;> rfl

theorem Child.admits_call (f : Expr) (as : List Arg) :
    (Child.tree ["call_expression"]).admits rule (Expr.call f as).node :=
  rfl

theorem Child.admits_blockFilter {f : Expr} {body : List Stmt}
    (h : (Stmt.filterBlock f body).filtersBy rule) : Child.blockFilter.admits rule f.node := by
  cases rule with
  | documented => exact f.node_namesFilter.trans (h rfl)
  | accepted => exact f.isOf_node

/-- The tree of a statement follows the table if the filters in it are what the rule allows. -/
theorem Stmt.conforms_node {inside : Bool} {s : Stmt}
    (h : s.Holds (Expr.filtersBy rule) (fun _ => Stmt.filtersBy rule) inside) :
    s.node.conforms rule := by
  induction h with
  | @node inside s here exprs blocks ih =>
    replace exprs : ∀ e ∈ s.exprs, e.node.conforms rule :=
      fun e he => Expr.conforms_node (exprs e he)
    have hblock {kind : String} (hrow : schema.lookup kind = some (.any .stmt)) (b : Bool)
        {ss : List Stmt} (h : ∀ s' ∈ ss, (b, s') ∈ s.blocks inside) :
        (Node.tree kind (Stmt.nodes ss)).conforms rule :=
      Stmt.conforms_block hrow fun s' hs' => ih (b, s') (h s' hs')
    cases s with
    | comment w | text w => rfl
    | control signal w => cases signal <;> rfl
    | output e => exact exprs e (List.mem_singleton_self e)
    | choice t body alternate =>
      have hbody := @hblock "body" rfl inside body (by simp +contextual [Stmt.blocks])
      have halternate := @hblock "alternate" rfl inside alternate
        (by simp +contextual [Stmt.blocks])
      simp only [Stmt.exprs, List.forall_mem_cons] at exprs
      exact Node.conforms_exactly rfl (by simp) (by simp [exprs, hbody, halternate])
    | loop t e body default =>
      have hbody := @hblock "body" rfl true body (by simp +contextual [Stmt.blocks])
      have hdefault := @hblock "default" rfl inside default (by simp +contextual [Stmt.blocks])
      simp only [Stmt.exprs, List.forall_mem_cons] at exprs
      obtain ⟨he, hitems⟩ := exprs
      exact Node.conforms_exactly rfl (by simp [Child.admits_target])
        (by simp [he, Target.conforms_node hitems, hbody, hdefault])
    | assign t v =>
      have hbody : (Node.tree "body" []).conforms rule := rfl
      simp only [Stmt.exprs, List.forall_mem_cons] at exprs
      exact Node.conforms_exactly rfl (by simp [Child.admits_optional_expr])
        (by simp [exprs, hbody])
    | capture t body =>
      have hbody := @hblock "body" rfl false body (by simp +contextual [Stmt.blocks])
      simp only [Stmt.exprs, List.forall_mem_cons] at exprs
      exact Node.conforms_exactly rfl (by simp) (by simp [exprs, hbody])
    | defineMacro w params body =>
      have hbody := @hblock "body" rfl false body (by simp +contextual [Stmt.blocks])
      have hparams := Arg.conforms_args (List.forall_mem_map.mp exprs)
      exact Node.conforms_exactly rfl (by simp) (by simp [hparams, hbody])
    | filterBlock f body =>
      have hbody := @hblock "body" rfl false body (by simp +contextual [Stmt.blocks])
      simp only [Stmt.exprs, List.forall_mem_cons] at exprs
      exact Node.conforms_exactly rfl (by simp [Child.admits_blockFilter here])
        (by simp [exprs, hbody])
    | callBlock w as params body =>
      have hbody := @hblock "body" rfl false body (by simp +contextual [Stmt.blocks])
      obtain ⟨hargs, hparams⟩ := List.forall_mem_append.mp exprs
      have hcall : (Expr.call (.name w) as).node.conforms rule := Node.conforms_exactly rfl
        (by simp) (by simp [Expr.node, Arg.conforms_args (List.forall_mem_map.mp hargs)])
      cases params with
      | none =>
        exact Node.conforms_exactly rfl (by simp [Child.admits_call]) (by simp [hcall, hbody])
      | some params =>
        have hargs : (Node.tree "args" (Arg.nodes params)).conforms rule :=
          Arg.conforms_args (List.forall_mem_map.mp hparams)
        exact Node.conforms_exactly rfl (by simp [Child.admits_call])
          (by simp [hcall, hargs, hbody])

end ChatTemplate
