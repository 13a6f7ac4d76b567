import ChatTemplate.Proofs.Grammar.FilterCalls
import ChatTemplate.Proofs.Grammar.StmtSound
import ChatTemplate.Proofs.Template.Escapes

/-!
# Filters that are names

`Program.node_follows_schema`: the tree of an accepted text follows the table of the kinds of nodes,
with what the grammar takes for a filter. Where all filters are written as names or calls of names,
it follows the table as it stands, and no rendering fails for a filter that is none. A filter whose
call goes on is accepted and fails (`chained_filter_fails`).
-/

namespace ChatTemplate
open Chunk Grammar

/-- The filter has no name, and is reported by the kind of its node. -/
def Cause.isFilterKind : Cause → Bool
  | .unknownFilter _ none => true
  | _ => false

/-- The failure is none of a filter without a name. -/
def Fault.NamesFilters (f : Fault) : Prop := f.Avoids Cause.isFilterKind

theorem Fault.namesFilters_permits : Permits Fault.NamesFilters :=
  Fault.avoids_permits fun cause hcause => by
    cases cause with
    | unknownFilter name operand =>
      cases operand with
      | none => cases hcause
      | some kind => rfl
    | _ => rfl

theorem Expr.tame_of_filtersBy {e : Expr} (h : e.filtersBy .documented) :
    e.Tame Fault.NamesFilters := by
  cases e with
  | int w | float w => exact .inr (Fault.avoids_escape _)
  | filter e f => exact .inl (h.2 rfl)
  | _ => exact trivial

theorem Stmt.tame_of_filtersBy {s : Stmt} (h : s.filtersBy .documented) (inside : Bool) :
    s.Tame Fault.NamesFilters inside := by
  cases s with
  | control signal w => exact .inr (Fault.avoids_error none rfl)
  | filterBlock f body => exact .inl (h rfl)
  | _ => exact trivial

/-- The tree of an accepted text has the children that the table gives for each kind of node, if a
filter may be any call that begins with a name, and the filter of a block any operand. If filters
are written as names and calls of names, they are such in the tree, and the program does not fail
for another filter; neither do functions in the store if they do not have one, nor the host. -/
theorem Program.node_follows_schema {ts : List Token} {p : Program} (h : ofTokens ts = .ok p) :
    p.node.conforms .accepted ∧ (PlainFilters ts → p.node.conforms .documented ∧
      ∀ (host : Host) (depth : Nat) (vars keywords : Variables) (st : Store),
        host.FailsWith Fault.NamesFilters → st.Tame host Fault.NamesFilters → ∀ kind pos,
          ((Template.mk p).render host depth vars keywords).result st ≠
            .error (.error (.unknownFilter kind none) pos)) := by
  obtain ⟨ps, rest, rfl, hps, -⟩ := exists_spelled_front h
  have hconforms {rule : FilterRule} (hplain : rule = .documented → PlainFilters (flat ps)) :
      p.node.conforms rule :=
    Stmt.conforms_block rfl fun s hs => Stmt.conforms_node (hps.filtersBy hplain false s hs)
  refine ⟨hconforms nofun, fun hplain => ?_⟩
  replace hplain : PlainFilters (flat ps) :=
    fun us hus => hplain us (hus.trans (List.prefix_append ..).isInfix)
  refine ⟨hconforms fun _ => hplain, ?_⟩
  intro host depth vars keywords st hhost hst kind pos hfail
  have htame : Stmt.AllTame Fault.NamesFilters false p := fun s hs =>
    (hps.filtersBy (fun _ => hplain) false s hs).mono (fun _ => Expr.tame_of_filtersBy)
      fun inside s h => Stmt.tame_of_filtersBy h inside
  have hmeets : Eval.Meets (.tame host Fault.NamesFilters)
      ((Template.mk p).render host depth vars keywords) :=
    Eval.Tame.render (Contract.tame_liberal Fault.namesFilters_permits) depth htame
      (.inl (Contract.tame_open ⟨Fault.avoids_escape _, hhost⟩))
  have hresult := (hmeets st hst).2
  rw [hfail] at hresult
  cases hresult _ pos rfl

/-- The tokens of `{{ a | join(",") }}`. -/
def joinedList : List Token :=
  [⟨.openExpression, "\x7b\x7b", ⟨1, 1⟩⟩, ⟨.name, "a", ⟨1, 4⟩⟩, ⟨.pipe, "|", ⟨1, 6⟩⟩,
    ⟨.name, "join", ⟨1, 8⟩⟩, ⟨.openParen, "(", ⟨1, 12⟩⟩, ⟨.string, ",", ⟨1, 13⟩⟩,
    ⟨.closeParen, ")", ⟨1, 16⟩⟩, ⟨.closeExpression, "\x7d\x7d", ⟨1, 18⟩⟩, ⟨.eof, "", ⟨1, 20⟩⟩]

/-- The program of `joinedList`. -/
def joinedListProgram : Program :=
  [.output (.filter (.name ⟨"a", ⟨1, 4⟩⟩) (.call (.name ⟨"join", ⟨1, 8⟩⟩)
    [.positional (.string ⟨",", ⟨1, 13⟩⟩)]))]

theorem joinedList_follows_schema :
    (Program.node joinedListProgram).conforms .documented ∧
      ∀ kind pos, ((Template.mk joinedListProgram).render Host.none 5 [("a", .string "bc")] []).result
        Store.initial ≠ .error (.error (.unknownFilter kind none) pos) := by
  have hplain : PlainFilters joinedList := .of_isChain (by decide) (by decide)
  have hfollows := (@Program.node_follows_schema joinedList joinedListProgram rfl).2 hplain
  exact ⟨hfollows.1, hfollows.2 _ _ _ _ _
    (Host.none_failsWith (Fault.avoids_escape _)) (Store.initial_tame _ _)⟩

/-- The tokens of `{{ "a" | upper().x }}`. -/
def chainedFilter : List Token :=
  [⟨.openExpression, "\x7b\x7b", ⟨1, 1⟩⟩, ⟨.string, "a", ⟨1, 4⟩⟩, ⟨.pipe, "|", ⟨1, 8⟩⟩,
    ⟨.name, "upper", ⟨1, 10⟩⟩, ⟨.openParen, "(", ⟨1, 15⟩⟩, ⟨.closeParen, ")", ⟨1, 16⟩⟩,
    ⟨.dot, ".", ⟨1, 17⟩⟩, ⟨.name, "x", ⟨1, 18⟩⟩, ⟨.closeExpression, "\x7d\x7d", ⟨1, 20⟩⟩,
    ⟨.eof, "", ⟨1, 22⟩⟩]

/-- The program of `chainedFilter`. -/
def chainedFilterProgram : Program :=
  [.output (.filter (.string ⟨"a", ⟨1, 4⟩⟩)
    (.member (.call (.name ⟨"upper", ⟨1, 10⟩⟩) []) ⟨"x", ⟨1, 18⟩⟩))]

/-- The grammar takes for a filter what the table does not have, and the evaluation reports the kind
of its node. -/
theorem chained_filter_fails :
    Program.ofTokens chainedFilter = .ok chainedFilterProgram ∧
      (Program.node chainedFilterProgram).conforms .documented = false ∧
      ((Template.mk chainedFilterProgram).render Host.none 5 [] []).result Store.initial =
        .error (.error (.unknownFilter "member_expression" none) (some ⟨1, 4⟩)) :=
  ⟨rfl, by rfl, by rfl⟩

end ChatTemplate
