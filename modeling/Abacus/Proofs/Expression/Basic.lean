import Abacus.Proofs.Program.Encoding

/-
  Expressions over a pool of constants.

  A leaf is an index into the pool, an inner node negates or
  applies an operator. The code of an expression lists its
  nodes in postorder. `need` is the number of slots that
  running this code takes, and a leaf has a depth, the
  number of values that lie on the stack when it is reached.

  Main declarations:
    * `Expr`
    * `Expr.code`
    * `Expr.eval` and `Expr.effect_bin`
    * `Expr.need`
    * `Expr.leaves`
    * `Expr.depth_lt_of_mem_leavesFrom`
-/

------------------------------------------------------------
-- Expressions
------------------------------------------------------------

namespace Abacus

/- An expression, its leaves by their index in a pool. -/
inductive Expr where
| leaf (index : UInt8)
| neg (arg : Expr)
| bin (operator : Operator) (left right : Expr)
deriving DecidableEq

namespace Expr

/- Every leaf is an index into a pool of `size` constants. -/
def Within
    (size : Nat) :
    Expr → Prop
| .leaf index => index.toNat < size
| .neg arg => arg.Within size
| .bin _ left right => left.Within size ∧ right.Within size

instance decidableWithin
    (size : Nat) :
    (e : Expr) → Decidable (e.Within size)
| .leaf index =>
    inferInstanceAs (Decidable (index.toNat < size))
| .neg arg => decidableWithin size arg
| .bin _ left right =>
    have := decidableWithin size left
    have := decidableWithin size right
    inferInstanceAs
      (Decidable (left.Within size ∧ right.Within size))

/- The bytes of the nodes in postorder. -/
def code :
    Expr → List UInt8
| .leaf index => (Token.constant index).bytes
| .neg arg => arg.code ++ Token.negate.bytes
| .bin operator left right =>
    left.code ++ right.code ++ (Token.binary operator).bytes

/-
  The value of an expression over a pool. An operator is
  applied to the value on its left and that on its right.
-/
def eval
    (pool : Array Number) :
    Expr → Number
| .leaf index => pool.getD index.toNat 0
| .neg arg => (arg.eval pool).opposite
| .bin .add left right =>
    Number.binary64 (· + ·)
      (left.eval pool) (right.eval pool)
| .bin .subtract left right =>
    Number.binary64 (· - ·)
      (left.eval pool) (right.eval pool)
| .bin .multiply left right =>
    Number.binary64 (· * ·)
      (left.eval pool) (right.eval pool)
| .bin .divide left right =>
    Number.binary64 (· / ·)
      (left.eval pool) (right.eval pool)

/- The token of a node computes its value. -/
theorem effect_bin
    (pool : Array Number)
    (operator : Operator)
    (left right : Expr)
    (rest : List Number) :
    (Token.binary operator).effect pool.toList
        (right.eval pool :: left.eval pool :: rest) =
      .ok
        ((bin operator left right).eval pool :: rest) := by
  cases operator <;> rfl

/- The number of nodes. -/
def size :
    Expr → Nat
| .leaf _ => 1
| .neg arg => arg.size + 1
| .bin _ left right => left.size + right.size + 1

end Expr

end Abacus

------------------------------------------------------------
-- Slots
------------------------------------------------------------

namespace Abacus

namespace Expr

/- The number of slots that an expression needs. -/
def need :
    Expr → Nat
| .leaf _ => 1
| .neg arg => arg.need
| .bin _ left right => max left.need (1 + right.need)

/- A sum of `n + 1` leaves, nested to the right. -/
def nested :
    Nat → Expr
| 0 => .leaf 0
| n + 1 => .bin .add (.leaf 0) (nested n)

/- Every expression needs a slot for its value. -/
theorem need_pos
    (e : Expr) :
    0 < e.need := by
  induction e with
  | leaf index => exact Nat.one_pos
  | neg arg ih => exact ih
  | bin operator left right ihLeft ihRight =>
      simp only [need]
      omega

/- The place of a leaf in the code, and what lies below it. -/
structure Leaf where
  offset : Nat
  depth : Nat
deriving DecidableEq

/-
  The leaves in postorder, of code that starts at `offset`
  with `depth` values below. The right argument of a node
  has the value of the left one below it.
-/
def leavesFrom
    (offset depth : Nat) :
    Expr → List Leaf
| .leaf _ => [⟨offset, depth⟩]
| .neg arg => arg.leavesFrom offset depth
| .bin _ left right =>
    left.leavesFrom offset depth ++
      right.leavesFrom
        (offset + left.code.length) (depth + 1)

/- The leaves of an expression that is run by itself. -/
def leaves
    (e : Expr) : List Leaf :=
  e.leavesFrom 0 0

/- The first leaf with a full stack below it. -/
def overflow?
    (offset depth : Nat)
    (e : Expr) : Option Leaf :=
  (e.leavesFrom offset depth).find?
    fun leaf => leaf.depth = Stack.capacity

/- No leaf lies above the slots that are needed. -/
theorem depth_lt_of_mem_leavesFrom
    {e : Expr}
    {offset depth : Nat}
    {leaf : Leaf}
    (hLeaf : leaf ∈ e.leavesFrom offset depth) :
    leaf.depth < depth + e.need := by
  induction e generalizing offset depth with
  | leaf index =>
      simp only [leavesFrom, List.mem_singleton] at hLeaf
      subst hLeaf
      simp [need]
  | neg arg ih => exact ih hLeaf
  | bin operator left right ihLeft ihRight =>
      simp only [leavesFrom, List.mem_append] at hLeaf
      simp only [need]
      rcases hLeaf with hLeft | hRight
      · have hLt := ihLeft hLeft
        omega
      · have hLt := ihRight hRight
        omega

/- An expression that has room overflows at no leaf. -/
theorem overflow?_eq_none
    {e : Expr}
    {offset depth : Nat}
    (hRoom : depth + e.need ≤ Stack.capacity) :
    e.overflow? offset depth = none := by
  apply List.find?_eq_none.mpr
  intro leaf hLeaf
  have hLt := depth_lt_of_mem_leavesFrom hLeaf
  simp only [decide_eq_true_eq]
  omega

/- The left argument is the first to overflow. -/
theorem overflow?_bin
    (operator : Operator)
    (left right : Expr)
    (offset depth : Nat) :
    (bin operator left right).overflow? offset depth =
      (left.overflow? offset depth).or
        (right.overflow?
          (offset + left.code.length) (depth + 1)) := by
  simp [overflow?, leavesFrom, List.find?_append]

end Expr

end Abacus
