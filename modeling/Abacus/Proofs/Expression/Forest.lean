import Abacus.Proofs.Expression.Basic
import Abacus.Proofs.Program.Refinement
import Abacus.Sink.Bytes

/-
  Every run that returns evaluates expressions.

  Tokens build expressions in the way in which they compute
  values: a constant is a leaf, and a negation or an
  operator is a node above the last one or two expressions.
  At each step of a run the code so far is the code of the
  expressions that were built, and the stack holds their
  values. Code is read back to the expressions that it is
  the code of, so no other expressions have the same code.

  Main declarations:
    * `Token.build`
    * `Program.build_code`
    * `Expr.flatMap_code_inj`
    * `Machine.Explains`
    * `Machine.Explains.next`
    * `Machine.interpret_forest`
-/

------------------------------------------------------------
-- Building Expressions
------------------------------------------------------------

namespace Abacus

namespace Token

/- What a token makes of expressions, the last one first. -/
def build :
    Token → List Expr → Option (List Expr)
| .constant index, es => some (.leaf index :: es)
| .negate, [] => none
| .negate, e :: es => some (.neg e :: es)
| .binary _, [] => none
| .binary _, [_] => none
| .binary operator, right :: left :: es =>
    some (.bin operator left right :: es)
| .ret, _ => none

/- The code of what a token builds ends with its bytes. -/
theorem code_of_build
    {token : Token}
    {es es' : List Expr}
    (hBuild : token.build es = some es') :
    es'.reverse.flatMap Expr.code =
      es.reverse.flatMap Expr.code ++ token.bytes := by
  cases token with
  | constant index =>
      cases hBuild
      simp [Expr.code]
  | negate =>
      cases es with
      | nil => cases hBuild
      | cons e es =>
          cases hBuild
          simp [Expr.code]
  | binary operator =>
      rcases es with _ | ⟨right, _ | ⟨left, es⟩⟩
      · cases hBuild
      · cases hBuild
      · cases hBuild
        simp [Expr.code]
  | ret => cases hBuild

/-
  A token that goes on from the values of expressions builds
  expressions, and these have the values that it leaves.
-/
theorem build_of_effect_ok
    {token : Token}
    {pool : Array Number}
    {es : List Expr}
    {values : List Number}
    (hWithin : ∀ e ∈ es, e.Within pool.size)
    (hEffect :
      token.effect pool.toList
          (es.map (Expr.eval pool)) =
        .ok values) :
    ∃ es',
      token.build es = some es' ∧
        (∀ e ∈ es', e.Within pool.size) ∧
        es'.map (Expr.eval pool) = values := by
  cases token with
  | constant index =>
      by_cases hIndex : index.toNat < pool.size
      · refine ⟨.leaf index :: es, rfl, ?_, ?_⟩
        · exact List.forall_mem_cons.mpr ⟨hIndex, hWithin⟩
        · simp only [effect, Array.getElem?_toList,
            Array.getElem?_eq_getElem hIndex] at hEffect
          split at hEffect
          · cases hEffect
            simp [Expr.eval, hIndex]
          · cases hEffect
      · -- An index behind the pool would have been a fault.
        have hNone : pool.toList[index.toNat]? = none := by
          simpa using hIndex
        simp [effect, hNone] at hEffect
  | negate =>
      cases es with
      | nil => cases hEffect
      | cons e es =>
          cases hEffect
          rcases List.forall_mem_cons.mp hWithin with
            ⟨hArg, hBelow⟩
          exact ⟨.neg e :: es, rfl,
            List.forall_mem_cons.mpr ⟨hArg, hBelow⟩, rfl⟩
  | binary operator =>
      rcases es with _ | ⟨right, _ | ⟨left, es⟩⟩
      · rw [effect_binary_of_few (by simp)] at hEffect
        cases hEffect
      · rw [effect_binary_of_few (by simp)] at hEffect
        cases hEffect
      · have hValues :=
          Expr.effect_bin pool operator left right
            (es.map (Expr.eval pool))
        cases hValues.symm.trans hEffect
        rcases List.forall_mem_cons.mp hWithin with
          ⟨hRight, hRest⟩
        rcases List.forall_mem_cons.mp hRest with
          ⟨hLeft, hBelow⟩
        exact ⟨.bin operator left right :: es, rfl,
          List.forall_mem_cons.mpr
            ⟨⟨hLeft, hRight⟩, hBelow⟩,
          rfl⟩
  | ret => cases hEffect

end Token

end Abacus

------------------------------------------------------------
-- Reading Code Back
------------------------------------------------------------

namespace Abacus

namespace Program

/- The expressions that the tokens of a program build. -/
def build
    (p : Program)
    (es : List Expr) : Option (List Expr) :=
  p.tokens.foldlM (fun es token => token.2.build es) es

/- A token in front builds first. -/
theorem build_cons
    {token : Token}
    {es es' : List Expr}
    (hBuild : token.build es = some es')
    (offset : Nat)
    (p : Program) :
    (p.cons offset token).build es = p.build es' := by
  simp [build, cons, hBuild]

/-
  The code of an expression builds this expression, above
  all that was built before and whatever code follows.
-/
theorem build_code
    (e : Expr)
    (offset : Nat)
    (rest : List UInt8)
    (es : List Expr) :
    (decode offset (e.code ++ rest)).build es =
      (decode (offset + e.code.length) rest).build
        (e :: es) := by
  induction e generalizing offset rest es with
  | leaf index =>
      rw [Expr.code, decode_token_append, build_cons rfl]
      rfl
  | neg arg ih =>
      rw [Expr.code, List.append_assoc, ih,
        decode_token_append, build_cons rfl,
        List.length_append]
      rfl
  | bin operator left right ihLeft ihRight =>
      rw [Expr.code, List.append_assoc, List.append_assoc,
        ihLeft, ihRight, decode_token_append,
        build_cons rfl, List.length_append,
        List.length_append]
      simp only [Token.width, Nat.add_assoc]

/- The code of several expressions builds all of them. -/
theorem build_flatMap_code
    (forest : List Expr)
    (offset : Nat)
    (es : List Expr) :
    (decode offset (forest.flatMap Expr.code)).build es =
      some (forest.reverse ++ es) := by
  induction forest generalizing offset es with
  | nil => simp [decode, build]
  | cons e forest ih =>
      rw [List.flatMap_cons, build_code, ih]
      simp

end Program

namespace Expr

/- Code is the code of at most one list of expressions. -/
theorem flatMap_code_inj
    {forest other : List Expr}
    (hCode :
      forest.flatMap code = other.flatMap code) :
    forest = other := by
  have hForest := Program.build_flatMap_code forest 0 []
  have hOther := Program.build_flatMap_code other 0 []
  rw [hCode, hOther] at hForest
  have hReverse := Option.some.inj hForest
  simpa using hReverse.symm

end Expr

end Abacus

------------------------------------------------------------
-- Runs And Expressions
------------------------------------------------------------

namespace Abacus

namespace Machine

variable {c : Chunk}
variable {m m' : Machine}

/-
  Expressions, the last one first, that explain a machine:
  the code before its offset is theirs, and so are the
  values on its stack.
-/
structure Explains
    (c : Chunk)
    (m : Machine)
    (es : List Expr) : Prop where
  within : ∀ e ∈ es, e.Within c.constants.size
  code_eq :
    c.code.toList.take m.offset =
      es.reverse.flatMap Expr.code
  values_eq :
    m.stack.values = es.map (Expr.eval c.constants)

/- A machine that starts is explained by no expressions. -/
theorem explains_reset
    (c : Chunk)
    (m : Machine) :
    m.reset.Explains c [] where
  within := by
    intro e hMem
    cases hMem
  code_eq := rfl
  values_eq := by
    simp [reset]

/- A step that goes on is explained by one more node. -/
theorem Explains.next
    {es : List Expr}
    (hExplains : m.Explains c es)
    (hStep : m.step c = .next m') :
    ∃ es', m'.Explains c es' := by
  rcases exists_token_of_next hStep with
    ⟨token, rest, hCode, hOffset, hEffect⟩
  rw [hExplains.values_eq] at hEffect
  rcases Token.build_of_effect_ok hExplains.within hEffect
    with
    ⟨es', hBuild, hWithin, hValues⟩
  refine ⟨es', hWithin, ?_, hValues.symm⟩
  rw [hOffset, Chunk.take_of_token hCode, hExplains.code_eq,
    Token.code_of_build hBuild]

/- So are all steps of a run. -/
theorem exists_explains_of_mem_history
    {s : Machine}
    {es : List Expr}
    (hExplains : m.Explains c es)
    (hMem : s ∈ m.history c) :
    ∃ es', s.Explains c es' := by
  refine holds_of_mem_history
    (P := fun s => ∃ es', s.Explains c es')
    ?_ ⟨es, hExplains⟩ hMem
  rintro s s' hStep ⟨es', hHere⟩
  exact hHere.next hStep

end Machine

end Abacus

------------------------------------------------------------
-- Runs That Return
------------------------------------------------------------

namespace Abacus

namespace Machine

/- A step that returns reads one byte and keeps the stack. -/
theorem returned_spec
    {c : Chunk}
    {m m' : Machine}
    (hStep : m.step c = .returned m') :
    c.code[m.offset]? = some Opcode.ret.toByte ∧
      m'.offset = m.offset + 1 ∧
      m'.stack = m.stack := by
  have hCase := step_case c m
  rw [hStep] at hCase
  cases hCase with
  | returned hAllowed hFetch =>
      exact ⟨(Chunk.code_of_fetch_ok hFetch).1,
        (Chunk.fetch_ok hFetch).1, rfl⟩

variable {σ : Type}
variable [Sink σ]

/- An interpretation that is ok ends with a return. -/
theorem exists_returned_of_ok
    {m : Machine}
    {c : Chunk}
    {sink : σ}
    (hOk : (m.interpret c sink).verdict = .ok) :
    ∃ last ∈ (m.reset.history c).getLast?,
      last.step c =
        .returned
          (run c (m.opened c sink) m.reset).machine := by
  rcases run_of_getLast_history c (m.opened c sink)
      m.reset with
    ⟨last, hLast, ⟨_, hReturned⟩ | ⟨cause, hFault, _⟩⟩
  · exact ⟨last, hLast, hReturned⟩
  · rw [verdict_of_fault, hFault] at hOk
    cases hOk

/-
  If a run of any bytes returns, the code before the return
  is the code of expressions over the pool, of one list of
  expressions only, and the stack holds their values, the
  first one at the bottom.
-/
theorem interpret_forest
    (m : Machine)
    (c : Chunk)
    (sink : σ)
    (hOk : (m.interpret c sink).verdict = .ok) :
    ∃ last ∈ (m.reset.history c).getLast?,
      c.code[last.offset]? = some Opcode.ret.toByte ∧
        (m.interpret c sink).machine.offset =
          last.offset + 1 ∧
        ∃ forest : List Expr,
          (∀ e ∈ forest, e.Within c.constants.size) ∧
            c.code.toList.take last.offset =
              forest.flatMap Expr.code ∧
            (m.interpret c sink).machine.stack.toList =
              forest.map (Expr.eval c.constants) ∧
            ∀ other : List Expr,
              c.code.toList.take last.offset =
                  other.flatMap Expr.code →
                other = forest := by
  rcases exists_returned_of_ok hOk with
    ⟨last, hLast, hReturned⟩
  rcases returned_spec hReturned with
    ⟨hByte, hOffset, hStack⟩
  rcases exists_explains_of_mem_history
      (explains_reset c m) (List.mem_of_getLast? hLast) with
    ⟨es, hWithin, hCode, hValues⟩
  refine ⟨last, hLast, hByte, hOffset, es.reverse, ?_,
    hCode, ?_, ?_⟩
  · intro e hMem
    exact hWithin e (List.mem_reverse.mp hMem)
  · rw [interpret_machine]
    dsimp only
    rw [hStack, ← Stack.reverse_values, hValues,
      List.map_reverse]
  · intro other hOther
    exact Expr.flatMap_code_inj (hOther.symm.trans hCode)

/-
  The operand of the first constant is the byte of a return,
  and a byte behind the return is no opcode. The values are
  the opposite of seven minus two, and one.
-/
theorem interpret_forest_operand :
    ((Machine.new {}).interpret
          { code := #[0, 6, 0, 1, 3, 1, 0, 0, 6, 9]
            constants := #[1, 2, 3, 4, 5, 6, 7] }
          ({} : ByteSink)).verdict =
        .ok ∧
      ((Machine.new {}).interpret
          { code := #[0, 6, 0, 1, 3, 1, 0, 0, 6, 9]
            constants := #[1, 2, 3, 4, 5, 6, 7] }
          ({} : ByteSink)).machine.stack.toList =
        [Number.ofFloat (-5), Number.ofFloat 1] := by
  have hOk :
      ((Machine.new {}).interpret
          { code := #[0, 6, 0, 1, 3, 1, 0, 0, 6, 9]
            constants := #[1, 2, 3, 4, 5, 6, 7] }
          ({} : ByteSink)).verdict =
        .ok := by
    decide +kernel
  have hReturn :
      ((Machine.new {}).reset.history
          { code := #[0, 6, 0, 1, 3, 1, 0, 0, 6, 9]
            constants :=
              #[1, 2, 3, 4, 5, 6, 7] }).getLast?.map
          Machine.offset =
        some 8 := by
    decide +kernel
  rcases interpret_forest (Machine.new {})
      { code := #[0, 6, 0, 1, 3, 1, 0, 0, 6, 9]
        constants := #[1, 2, 3, 4, 5, 6, 7] }
      ({} : ByteSink) hOk with
    ⟨last, hLast, _, _, forest, _, _, hStack, hUnique⟩
  rw [Option.mem_def.mp hLast] at hReturn
  have hOffset : last.offset = 8 := Option.some.inj hReturn
  rw [hOffset] at hUnique
  have hForest :=
    hUnique
      [ .neg (.bin .subtract (.leaf 6) (.leaf 1)),
        .leaf 0 ]
      rfl
  have hValues :
      [ Expr.neg
          (.bin .subtract (.leaf 6) (.leaf 1)),
        .leaf 0 ].map
          (Expr.eval #[1, 2, 3, 4, 5, 6, 7]) =
        [Number.ofFloat (-5), Number.ofFloat 1] := by
    decide +kernel
  rw [← hForest] at hStack
  exact ⟨hOk, hStack.trans hValues⟩

end Machine

end Abacus
