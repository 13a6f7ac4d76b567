import ChatTemplate.Node
import ChatTemplate.Proofs.Grammar.StmtSound

/-!
# The leaves of a program are the tokens of its text

The leaves of the tree of a program are its words (`Program.leaves_node`), and the words of a phrase
are those that its chunks become, each as often (`Spelled.words_perm`). With `Program.exists_spelled`
every token of an accepted text is accounted for: it is a leaf of the tree, it is a part of one
(string literals side by side), it is a keyword or a mark, or it belongs to an expression behind the
key of a subscript (`Chunk.Crowded`).
-/

namespace ChatTemplate

/-! ### Leaves of the tree -/

mutual

/-- The words of the tokens of a tree. -/
def Node.leaves : Node → List Word
  | .tree _ children => Node.leavesOfList children
  | .token _ w => [w]
  | .flag _ | .absent => []

def Node.leavesOfList : List Node → List Word
  | [] => []
  | n :: ns => n.leaves ++ Node.leavesOfList ns

end

@[simp] theorem Node.leaves_tree (kind : String) (ns : List Node) :
    (tree kind ns).leaves = leavesOfList ns := rfl

@[simp] theorem Node.leaves_token (kind : String) (w : Word) : (token kind w).leaves = [w] := rfl

@[simp] theorem Node.leaves_identifier (w : Word) : (identifier w).leaves = [w] := rfl

@[simp] theorem Node.leaves_flag (b : Bool) : (flag b).leaves = [] := rfl

@[simp] theorem Node.leaves_absent : absent.leaves = [] := rfl

@[simp] theorem Node.leavesOfList_nil : leavesOfList [] = [] := rfl

@[simp] theorem Node.leavesOfList_cons (n : Node) (ns : List Node) :
    leavesOfList (n :: ns) = n.leaves ++ leavesOfList ns := rfl

mutual

theorem Expr.leaves_node : ∀ e : Expr, e.node.leaves = e.words
  | .name _ | .int _ | .float _ | .string _ | .bool _ | .null _ => rfl
  | .array es | .tuple es => Expr.leaves_nodes es
  | .object entries => Expr.leaves_entryNodes entries
  | .binary l op r => by simp [Expr.node, Expr.words, l.leaves_node, r.leaves_node]
  | .unary op e => by simp [Expr.node, Expr.words, e.leaves_node]
  | .member e w => by simp [Expr.node, Expr.words, e.leaves_node]
  | .index e k => by simp [Expr.node, Expr.words, e.leaves_node, k.leaves_node]
  | .slice e a b c => by
    simp [Expr.node, Expr.words, e.leaves_node, Expr.leaves_optionNode a, Expr.leaves_optionNode b,
      Expr.leaves_optionNode c]
  | .call f as => by simp [Expr.node, Expr.words, f.leaves_node, Arg.leaves_nodes as]
  | .filter e f => by simp [Expr.node, Expr.words, e.leaves_node, f.leaves_node]
  | .test e _ w => by simp [Expr.node, Expr.words, e.leaves_node]
  | .select v t => by simp [Expr.node, Expr.words, v.leaves_node, t.leaves_node]
  | .ternary t y n => by
    simp [Expr.node, Expr.words, t.leaves_node, y.leaves_node, n.leaves_node]

theorem Expr.leaves_nodes : ∀ es : List Expr,
    Node.leavesOfList (Expr.nodes es) = Expr.wordsOfList es
  | [] => rfl
  | e :: es => by simp [Expr.nodes, Expr.wordsOfList, e.leaves_node, Expr.leaves_nodes es]

theorem Expr.leaves_optionNode : ∀ o : Option Expr,
    (Expr.optionNode o).leaves = Expr.wordsOfOption o
  | none => rfl
  | some e => e.leaves_node

theorem Expr.leaves_entryNodes : ∀ entries : List (Expr × Expr),
    Node.leavesOfList (Expr.entryNodes entries) = Expr.wordsOfEntries entries
  | [] => rfl
  | (k, v) :: entries => by
    simp [Expr.entryNodes, Expr.entryNode, Expr.wordsOfEntries, Expr.wordsOfEntry, k.leaves_node,
      v.leaves_node, Expr.leaves_entryNodes entries]

theorem Arg.leaves_node : ∀ a : Arg, a.node.leaves = a.words
  | .positional e => e.leaves_node
  | .keyword w e => by simp [Arg.node, Arg.words, e.leaves_node]
  | .spread e => by simp [Arg.node, Arg.words, e.leaves_node]

theorem Arg.leaves_nodes : ∀ as : List Arg, Node.leavesOfList (Arg.nodes as) = Arg.wordsOfList as
  | [] => rfl
  | a :: as => by simp [Arg.nodes, Arg.wordsOfList, a.leaves_node, Arg.leaves_nodes as]

end

theorem Target.leaves_node (t : Target) : t.node.leaves = t.words := by
  cases t with
  | name w => rfl
  | tuple es => exact Expr.leaves_nodes es

mutual

theorem Stmt.leaves_node : ∀ s : Stmt, s.node.leaves = s.words
  | .comment _ | .text _ | .control .break _ | .control .continue _ => rfl
  | .output e => e.leaves_node
  | .choice t body alternate => by
    simp [Stmt.node, Stmt.words, t.leaves_node, Stmt.leaves_nodes body, Stmt.leaves_nodes alternate]
  | .loop t e body default => by
    simp [Stmt.node, Stmt.words, t.leaves_node, e.leaves_node, Stmt.leaves_nodes body,
      Stmt.leaves_nodes default]
  | .assign t v => by simp [Stmt.node, Stmt.words, t.leaves_node, v.leaves_node]
  | .capture t body => by simp [Stmt.node, Stmt.words, t.leaves_node, Stmt.leaves_nodes body]
  | .defineMacro w params body => by
    simp [Stmt.node, Stmt.words, Arg.leaves_nodes params, Stmt.leaves_nodes body]
  | .callBlock w as none body => by
    simp [Stmt.node, Stmt.words, Expr.leaves_node, Expr.words, Arg.wordsOfList,
      Stmt.leaves_nodes body]
  | .callBlock w as (some params) body => by
    simp [Stmt.node, Stmt.words, Expr.leaves_node, Expr.words, Arg.leaves_nodes params,
      Stmt.leaves_nodes body]
  | .filterBlock f body => by simp [Stmt.node, Stmt.words, f.leaves_node, Stmt.leaves_nodes body]

theorem Stmt.leaves_nodes : ∀ ss : List Stmt,
    Node.leavesOfList (Stmt.nodes ss) = Stmt.wordsOfList ss
  | [] => rfl
  | s :: ss => by simp [Stmt.nodes, Stmt.wordsOfList, s.leaves_node, Stmt.leaves_nodes ss]

end

/-- The leaves of the tree of a program are its words. -/
theorem Program.leaves_node (p : Program) : p.node.leaves = Stmt.wordsOfList p :=
  Stmt.leaves_nodes p

/-! ### The words of a phrase -/

mutual

/-- The words of a phrase. -/
def Phrase.words : Phrase → List Word
  | .expr e => e.words
  | .entry k v => k.words ++ v.words
  | .arg a => a.words
  | .list xs => Phrase.wordsOfList xs
  | .args as => Arg.wordsOfList (as.getD [])
  | .parts _ es => es.flatMap Expr.wordsOfOption
  | .stmt s | .choice s => s.words
  | .block ss | .otherwise ss => Stmt.wordsOfList ss

def Phrase.wordsOfList : List Phrase → List Word
  | [] => []
  | x :: xs => x.words ++ Phrase.wordsOfList xs

end

theorem Phrase.wordsOfList_exprs (es : List Expr) :
    Phrase.wordsOfList (es.map .expr) = Expr.wordsOfList es := by
  induction es with
  | nil => rfl
  | cons e es ih => rw [List.map_cons, Phrase.wordsOfList, ih]; rfl

theorem Phrase.wordsOfList_entries (entries : List (Expr × Expr)) :
    Phrase.wordsOfList (entries.map fun p => .entry p.1 p.2) = Expr.wordsOfEntries entries := by
  induction entries with
  | nil => rfl
  | cons p ps ih => rw [List.map_cons, Phrase.wordsOfList, ih, Expr.wordsOfEntries]; cases p; rfl

theorem Phrase.wordsOfList_args (as : List Arg) :
    Phrase.wordsOfList (as.map .arg) = Arg.wordsOfList as := by
  induction as with
  | nil => rfl
  | cons a as ih => rw [List.map_cons, Phrase.wordsOfList, ih]; rfl

theorem Expr.target?_words {e : Expr} {t : Target} (h : e.target? = some t) : t.words = e.words := by
  cases e <;> cases h <;> rfl

/-- The words of a slice of up to three parts. -/
theorem words_slice {parts : List (Option Expr)} (h : parts.length ≤ 3) :
    Expr.wordsOfOption parts[0]?.join ++ (Expr.wordsOfOption parts[1]?.join ++
      Expr.wordsOfOption parts[2]?.join) = parts.flatMap Expr.wordsOfOption := by
  match parts, h with
  | [], _ => rfl
  | [a], _ => simp [Expr.wordsOfOption]
  | [a, b], _ => simp [Expr.wordsOfOption]
  | [a, b, c], _ => simp

namespace Chunk

@[simp] theorem words_nil : words [] = [] := rfl

@[simp] theorem words_append (ps qs : List Chunk) : words (ps ++ qs) = words ps ++ words qs :=
  List.filterMap_append ..

@[simp] theorem words_leaf {kind : TokenKind} (w : Word) (ps : List Chunk)
    (h : kind.hasContent ∨ kind.isOperator) : words (.leaf kind w h :: ps) = w :: words ps := rfl

@[simp] theorem words_strings (w : Word) (more : List Word) (ps : List Chunk) :
    words (.strings w more :: ps) = joined w more :: words ps := rfl

@[simp] theorem words_notIn (pos inPos : Pos) (ps : List Chunk) :
    words (.notIn pos inPos :: ps) = ⟨"not in", pos⟩ :: words ps := rfl

@[simp] theorem words_keyword {text : String} (pos : Pos) (ps : List Chunk) (h : text ∈ keywords) :
    words (.keyword text pos h :: ps) = words ps := rfl

@[simp] theorem words_mark {kind : TokenKind} (w : Word) (ps : List Chunk) (h : kind.isMark) :
    words (.mark kind w h :: ps) = words ps := rfl

@[simp] theorem words_dropped (ps : List Chunk) : words (ps.map .dropped) = [] := by
  induction ps with
  | nil => rfl
  | cons p ps ih => exact ih

@[simp] theorem words_between {o c : TokenKind} (wo wc : Word) (ps : List Chunk) (ho : o.isMark)
    (hc : c.isMark) : words (between wo wc ps ho hc) = words ps := by
  simp [between]

@[simp] theorem words_opening {text : String} (o : Word) (pos : Pos) (h : text ∈ keywords) :
    words (opening o text pos h) = [] := rfl

@[simp] theorem words_close (c : Word) (ps : List Chunk) : words (close c :: ps) = words ps := rfl

@[simp] theorem words_ending {text : String} (o c : Word) (pos : Pos) (h : text ∈ keywords) :
    words (ending o c text pos h) = [] := rfl

end Chunk

open Chunk List in
/-- The chunks become the words of the phrase, each as often as it stands there. -/
theorem Spelled.words_perm {x : Phrase} {ps : List Chunk} (h : Spelled x ps) :
    words ps ~ x.words := by
  induction h with
  | name | bool | null | int | float | string | comment | text | control => exact .refl _
  | noItem | noArgs | noPart | noStmt | noElse => exact .refl _
  | parens _ ih => simpa using ih
  | tuple _ ih => exact ih.trans (.of_eq (Phrase.wordsOfList_exprs _))
  | array _ ih =>
    simpa [Phrase.words, Expr.words] using ih.trans (.of_eq (Phrase.wordsOfList_exprs _))
  | object _ ih =>
    simpa [Phrase.words, Expr.words] using ih.trans (.of_eq (Phrase.wordsOfList_entries _))
  | binary _ _ ihl ihr | notIn _ _ ihl ihr =>
    simpa [Phrase.words, Expr.words] using ihl.append (ihr.cons _)
  | unary _ ih => exact ih.cons _
  | member _ ih => simpa [Phrase.words, Expr.words] using ih.append_right _
  | index _ _ _ ih ihkey => simpa [Phrase.words, Expr.words] using ih.append ihkey
  | slice _ _ hlength ih ihparts =>
    simpa [Phrase.words, Expr.words] using
      ih.append (ihparts.trans (.of_eq (words_slice hlength).symm))
  | call _ _ ih ihargs => simpa [Phrase.words, Expr.words] using ih.append ihargs
  | filter _ _ _ ih ihf => simpa [Phrase.words, Expr.words] using ih.append ihf
  | test _ ih | testNot _ ih => simpa [Phrase.words, Expr.words] using ih.append_right _
  | select _ _ ihv iht => simpa [Phrase.words, Expr.words] using ihv.append iht
  | ternary _ _ _ ihy iht ihn =>
    -- The condition comes first in the tree.
    simpa [Phrase.words, Expr.words] using
      (ihy.append (iht.append ihn)).trans (perm_append_comm_assoc ..)
  | entry _ _ ihk ihv => simpa [Phrase.words] using ihk.append ihv
  | positional _ ih | spread _ ih => exact ih
  | keyword _ _ ihw ih => simpa [Phrase.words, Arg.words, Expr.words] using ihw.append ih
  | lastItem _ ih => simpa [Phrase.words, Phrase.wordsOfList] using ih
  | item _ _ ih ihs => simpa [Phrase.words, Phrase.wordsOfList] using ih.append ihs
  | args _ ih => simpa [Phrase.words] using ih.trans (.of_eq (Phrase.wordsOfList_args _))
  | absentPart _ ih => exact ih
  | lastPart _ _ ih ihs | part _ _ ih ihs =>
    simpa [Phrase.words, Expr.wordsOfOption] using ih.append ihs
  | output _ ih => simpa [Phrase.words, Stmt.words] using ih
  | assign _ _ iht ihv => simpa [Phrase.words, Stmt.words] using iht.append ihv
  | capture _ _ iht ihbody => simpa [Phrase.words, Stmt.words] using iht.append ihbody
  | ofChoice _ ih => simpa [Phrase.words] using ih
  | choice _ _ _ iht ihbody ihalt | choiceElif _ _ _ iht ihbody ihalt =>
    simpa [Phrase.words, Stmt.words, Stmt.wordsOfList] using iht.append (ihbody.append ihalt)
  | loop _ htarget _ _ _ ihe ihi ihbody ihdefault =>
    simpa [Phrase.words, Stmt.words, Expr.target?_words htarget] using
      ihe.append (ihi.append (ihbody.append ihdefault))
  | defineMacro _ _ _ ihw ihparams ihbody =>
    simpa [Phrase.words, Stmt.words, Expr.words] using ihw.append (ihparams.append ihbody)
  | callBlock _ _ _ _ ihparams ihw ihargs ihbody =>
    -- The tree keeps the parameters behind the call.
    have hkept := ihw.append (ihargs.append (ihparams.append ihbody))
    have hmoved := ((perm_append_comm_assoc _ _ _).append_left _).trans hkept
    simpa [Phrase.words, Stmt.words, Expr.words] using (perm_append_comm_assoc _ _ _).trans hmoved
  | filterBlock _ _ _ ihf ihbody => simpa [Phrase.words, Stmt.words] using ihf.append ihbody
  | stmts _ _ ih ihs => simpa [Phrase.words, Stmt.wordsOfList] using ih.append ihs
  | otherwise _ ih => exact ih

/-! ### What is dropped -/

namespace Chunk

def isDropped : Chunk → Bool
  | .dropped _ => true
  | _ => false

/-- Among the chunks are square brackets around a key and further expressions, with no colon. -/
def Crowded (ps : List Chunk) : Prop :=
  ∃ (o c : Word) (key : Expr) (more : List (Option Expr)) (qs rs : List Chunk),
    Spelled (.expr key) qs ∧ Spelled (.parts false more) rs ∧ more ≠ [] ∧
      between o c (qs ++ rs.map .dropped) (o := .openSquare) (c := .closeSquare) <:+: ps

theorem Crowded.mono {ps qs : List Chunk} (h : Crowded ps) (hsub : ps <:+: qs) : Crowded qs := by
  obtain ⟨o, c, key, more, qs', rs, hkey, hmore, hne, hps⟩ := h
  exact ⟨o, c, key, more, qs', rs, hkey, hmore, hne, hps.trans hsub⟩

theorem Crowded.append_left {ps : List Chunk} (h : Crowded ps) (qs : List Chunk) :
    Crowded (ps ++ qs) :=
  h.mono (List.prefix_append ..).isInfix

theorem Crowded.append_right {qs : List Chunk} (h : Crowded qs) (ps : List Chunk) :
    Crowded (ps ++ qs) :=
  h.mono (List.suffix_append ..).isInfix

theorem Crowded.cons {ps : List Chunk} (h : Crowded ps) (p : Chunk) : Crowded (p :: ps) :=
  h.mono (List.suffix_cons ..).isInfix

end Chunk

open Chunk in
theorem Spelled.crowded {x : Phrase} {ps : List Chunk} (h : Spelled x ps)
    (hdropped : ps.any isDropped) : Crowded ps := by
  induction h with
  | @index e key more ps qs rs o c he hkey hmore ih ihkey =>
    cases more with
    | nil =>
      cases hmore
      simp only [between, isDropped, List.any_append, List.any_cons, List.any_nil, List.map_nil,
        List.append_nil] at hdropped ⊢
      grind [Crowded.append_left, Crowded.append_right, Crowded.cons]
    | cons part more =>
      exact Crowded.append_right ⟨o, c, key, _, qs, rs, hkey, hmore,
        List.cons_ne_nil part more, ⟨[], [], by simp⟩⟩ ps
  | tuple _ ih | positional _ ih | lastItem _ ih => exact ih hdropped
  | _ =>
    simp only [between, opening, ending, close, isDropped, List.any_append, List.any_cons,
      List.any_nil] at hdropped ⊢
    grind [Crowded.append_left, Crowded.append_right, Crowded.cons]

/-! ### The tokens of a program -/

/-- The tokens of an accepted text are those of chunks that spell the program; the words that the
chunks become are the leaves of the tree, each as often. What is dropped are the expressions behind
the key of a subscript without a colon. -/
theorem Program.tokens_accounted {ts : List Token} {e : Token} {p : Program}
    (hts : ∀ t ∈ ts, t.kind ≠ .eof) (he : e.kind = .eof) (h : ofTokens (ts ++ [e]) = .ok p) :
    ∃ ps, ts = Chunk.flat ps ∧ Spelled (.block p) ps ∧ (Chunk.words ps).Perm p.node.leaves ∧
      (ps.any Chunk.isDropped → Chunk.Crowded ps) := by
  obtain ⟨ps, rfl, hps⟩ := exists_spelled hts he h
  rw [p.leaves_node]
  exact ⟨ps, rfl, hps, hps.words_perm, hps.crowded⟩

/-- `{{ a[0 1] }}` -/
def twoKeys : List Token :=
  [⟨.openExpression, "\x7b\x7b", ⟨1, 1⟩⟩, ⟨.name, "a", ⟨1, 4⟩⟩, ⟨.openSquare, "[", ⟨1, 5⟩⟩,
    ⟨.number, "0", ⟨1, 6⟩⟩, ⟨.number, "1", ⟨1, 8⟩⟩, ⟨.closeSquare, "]", ⟨1, 9⟩⟩,
    ⟨.closeExpression, "\x7d\x7d", ⟨1, 11⟩⟩]

/-- The program of `twoKeys`, which is that of `{{ a[0] }}`. -/
def firstKey : Program := [.output (.index (.name ⟨"a", ⟨1, 4⟩⟩) (.int ⟨"0", ⟨1, 6⟩⟩))]

theorem twoKeys_accounted : ∃ ps, twoKeys = Chunk.flat ps ∧ Spelled (.block firstKey) ps ∧
    (Chunk.words ps).Perm (Program.node firstKey).leaves ∧
    (ps.any Chunk.isDropped → Chunk.Crowded ps) :=
  Program.tokens_accounted (e := ⟨.eof, "", ⟨1, 13⟩⟩) (by decide) rfl rfl

theorem second_key_dropped : Program.ofTokens (twoKeys ++ [⟨.eof, "", ⟨1, 13⟩⟩]) = .ok firstKey ∧
    ∃ t ∈ twoKeys, t.kind = .number ∧ ∀ w ∈ (Program.node firstKey).leaves, w.text ≠ t.value :=
  ⟨rfl, ⟨.number, "1", ⟨1, 8⟩⟩, by decide, rfl, by decide⟩

end ChatTemplate
