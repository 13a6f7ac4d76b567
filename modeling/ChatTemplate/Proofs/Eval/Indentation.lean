import ChatTemplate.Proofs.Eval.Steps
import ChatTemplate.Proofs.Text.Pieces

/-!
# Indented texts

The filter `indent` joins the pieces of a text by newlines, each with what it is indented by or
without (`Eval.indent_filter`). Of a text that ends with a carriage return it loses the empty piece
at the end (`Eval.indent_loses_line`).
-/

namespace ChatTemplate
namespace Eval
variable {cs indentation : List Codepoint} {ps : List (List Codepoint)} {first blank : Bool}

/-- The pieces of a text, indented: the first one where `first` says so, an empty one further on where
`blank` does, and every other one. -/
def indented (indentation : List Codepoint) (first blank : Bool) :
    List (List Codepoint) → List (List Codepoint)
  | [] => []
  | piece :: ps =>
    (if first then indentation ++ piece else piece) ::
      ps.map fun piece => if blank || !piece.isEmpty then indentation ++ piece else piece

theorem indented_nil (first blank : Bool) (ps : List (List Codepoint)) :
    indented [] first blank ps = ps := by
  cases ps <;> simp [indented]

/-- What an argument indents by; without one, four blanks. -/
inductive IndentsBy : Option Value → List Codepoint → Prop
  | default : IndentsBy none (List.replicate 4 (.ofChar ' '))
  | width {n : Int} (h : -maxSize - 1 ≤ n ∧ n ≤ maxSize) :
      IndentsBy (some (.int n)) (List.replicate n.toNat (.ofChar ' '))
  | text (s : Text) : IndentsBy (some (.string s)) s.toList

theorem intercalate_newline (piece : List Codepoint) (ps : List (List Codepoint)) :
    [Codepoint.ofChar '\n'].intercalate (piece :: ps) =
      piece ++ (ps.map (Codepoint.ofChar '\n' :: ·)).flatten := by
  induction ps generalizing piece with
  | nil => simp
  | cons next ps ih => rw [List.intercalate_cons_cons, ih]; simp

theorem indentLines_eq (h : Text.Pieces cs ps) : indentLines indentation first blank cs =
    [Codepoint.ofChar '\n'].intercalate (indented indentation first blank
      (if cs.getLast? = some (.ofChar '\r') then ps.dropLast else ps)) := by
  rw [indentLines, h.lines_concat]
  split
  case h_1 hnil => rw [hnil]; rfl
  case h_2 piece ps hcons => rw [hcons, indented, intercalate_newline]

/-! ### The filter -/

variable {st : Store} {a : Args} {picked : Slots String Value}

theorem leads_indentFilter (hpick : (a.pick "indent" ["width", "first", "blank"]).result st = .ok picked)
    (hwidth : IndentsBy (picked.lookup "width") indentation) (s : Text) :
    Leads (indentFilter s a) st
      (.ofPoints (indentLines indentation (st.flag picked "first") (st.flag picked "blank") s.toList))
      st := by
  have hflags : Leads
      (do
        let blank ← truthy ((picked.lookup "blank").getD (.bool false))
        let first ← truthy ((picked.lookup "first").getD (.bool false))
        return Value.ofPoints (indentLines indentation first blank s.toList)) st
      (.ofPoints (indentLines indentation (st.flag picked "first") (st.flag picked "blank") s.toList))
      st :=
    (leads_flag picked "blank" st).bind ((leads_flag picked "first" st).bind (.pure _ _))
  refine (leads_pick hpick).bind ?_
  dsimp only
  generalize picked.lookup "width" = width at hwidth ⊢
  cases hwidth with
  | default => exact Leads.bind (.pure _ _) hflags
  | width h => exact (leads_expectWidth h).bind (.bind (.pure _ _) hflags)
  | text => exact Leads.bind (.pure _ _) hflags

/-- The filter `indent` joins the pieces of a text by newlines: the first one is indented if and only if
`first` is true, any other one if and only if `blank` is true or it is not empty. Where there is
nothing to indent by, only the line boundaries change. Of a text that ends with a carriage return the
piece at the end, which is empty, is missing. -/
theorem indent_filter (host : Host) (scope : Scope)
    (hpick : (a.pick "indent" ["width", "first", "blank"]).result st = .ok picked)
    (hwidth : IndentsBy (picked.lookup "width") indentation) (s : Text) :
    let indent := applyFilter host scope a.keywords "indent" a.positional (.string s)
    let joined ps := Value.ofPoints ([Codepoint.ofChar '\n'].intercalate ps)
    let first := st.flag picked "first"
    let blank := st.flag picked "blank"
    (∃ ps, Text.Pieces s.toList ps) ∧
    ∀ ps, Text.Pieces s.toList ps →
      (s.toList.getLast? ≠ some (.ofChar '\r') →
        Leads indent st (joined (indented indentation first blank ps)) st ∧
        (indentation = [] → Leads indent st (joined ps) st)) ∧
      (s.toList.getLast? = some (.ofChar '\r') →
        ps.getLast? = some [] ∧
        Leads indent st (joined (indented indentation first blank ps.dropLast)) st) := by
  have happly : applyFilter host scope a.keywords "indent" a.positional (.string s) =
      indentFilter s a := applyFilter_of_ne_map (by decide) host scope (.string s) a
  dsimp only
  rw [happly]
  have hindent := leads_indentFilter hpick hwidth s
  refine ⟨Text.exists_pieces s.toList, fun ps hps => ⟨fun hlast => ?_, fun hlast => ⟨?_, ?_⟩⟩⟩
  · rw [indentLines_eq hps, if_neg hlast] at hindent
    refine ⟨hindent, ?_⟩
    rintro rfl
    rwa [indented_nil] at hindent
  · exact hps.getLast?_of_return hlast
  · rwa [indentLines_eq hps, if_pos hlast] at hindent

/-- An empty line is indented, and so is one at the end. -/
theorem indent_filter_blank :
    let a : Args := ⟨[.int 2, .bool false, .bool true], []⟩
    let ps : List (List Codepoint) := [[.ofChar 'a'], [], []]
    Text.Pieces (Text.ofString "a\n\n").toList ps ∧
      Leads (applyFilter Host.none default a.keywords "indent" a.positional (.string "a\n\n"))
        Store.initial (.ofPoints ([Codepoint.ofChar '\n'].intercalate
          (indented (List.replicate 2 (.ofChar ' ')) false true ps))) Store.initial := by
  intro a ps
  have hpick : (a.pick "indent" ["width", "first", "blank"]).result Store.initial =
      .ok [("width", .int 2), ("first", .bool false), ("blank", .bool true)] := rfl
  have hletter : Text.Unbroken [.ofChar 'a'] := List.forall_mem_singleton.mpr (by decide)
  have hnewline (rest : List Codepoint) : Text.Boundary [.ofChar '\n'] rest :=
    .single (by decide) fun h => absurd h (by decide)
  have hps : Text.Pieces (Text.ofString "a\n\n").toList ps :=
    .cons hletter (hnewline _) (.cons Text.unbroken_nil (hnewline _) (.last Text.unbroken_nil))
  exact ⟨hps, (((indent_filter Host.none default hpick (.width (by decide)) "a\n\n").2 ps hps).1
    (by decide)).1⟩

/-- Of a text that ends with a carriage return the empty line at the end is lost. -/
theorem indent_loses_line :
    let ps : List (List Codepoint) := [[.ofChar 'x'], []]
    let indent := applyFilter Host.none default [] "indent" [] (.string "x\r")
    Text.Pieces (Text.ofString "x\r").toList ps ∧
      Leads indent Store.initial (.string "x") Store.initial ∧
      ¬ Leads indent Store.initial (.ofPoints ([Codepoint.ofChar '\n'].intercalate
        (indented (List.replicate 4 (.ofChar ' ')) false false ps))) Store.initial := by
  intro ps indent
  have hletter : Text.Unbroken [.ofChar 'x'] := List.forall_mem_singleton.mpr (by decide)
  have hreturn : Text.Boundary [.ofChar '\r'] [] := .single (by decide) fun _ => nofun
  have hindent : Leads indent Store.initial (.string "x") Store.initial := ⟨rfl, rfl⟩
  refine ⟨.cons hletter hreturn (.last Text.unbroken_nil), hindent, fun hkept => ?_⟩
  have hsame := Value.string.inj (Except.ok.inj (hindent.result.symm.trans hkept.result))
  exact absurd hsame (by decide)

end Eval
end ChatTemplate
