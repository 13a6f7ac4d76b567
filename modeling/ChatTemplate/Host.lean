import ChatTemplate.Fault

/-!
# What a host offers

Functions and tests of a host may fail in any way: for a reason of their own, or with an error of a
template, which may come from another text and have a place there already. They answer the same
whenever they are asked the same.
-/

namespace ChatTemplate

structure Host where
  call : HostFunction → List HostValue → List (String × HostValue) → Except Fault HostValue
  test : String → Store → Value → List Value → Except Fault Bool

namespace Host

/-- A host that offers nothing. -/
def none : Host where
  call _ _ _ := .error (.escape .badCall)
  test _ _ _ _ := .error (.escape .badCall)

/-- A function or a test of the host fails with `f`. -/
inductive Raises (host : Host) (f : Fault) : Prop
  | call {function : HostFunction} {positional : List HostValue}
      {keywords : List (String × HostValue)}
      (h : host.call function positional keywords = .error f)
  | test {key : String} {st : Store} {v : Value} {args : List Value}
      (h : host.test key st v args = .error f)

/-- All that the functions and tests of the host fail with satisfies `Q`. -/
def FailsWith (host : Host) (Q : Fault → Prop) : Prop := ∀ f, host.Raises f → Q f

theorem none_failsWith {Q : Fault → Prop} (h : Q (.escape .badCall)) : none.FailsWith Q := by
  rintro f (hcall | htest)
  · cases hcall
    exact h
  · cases htest
    exact h

end Host
end ChatTemplate
