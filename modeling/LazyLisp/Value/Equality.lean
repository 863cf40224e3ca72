import LazyLisp.Value.Basic

/-!
# Equality — structural equality of values

Two values are equal when they are built alike from equal parts.  Numbers are equal as numbers,
symbols by name, maps by keys and entries.  Functions and suspended work equal nothing, not even
themselves, so a value that holds one is not equal to itself.
-/

namespace LazyLisp

mutual

/-- Structural equality. -/
def Value.equal : Value → Value → Bool
  | .nil, .nil => true
  | .bool a, .bool b => a == b
  | .number a, .number b => a.equal b
  | .text a, .text b => a == b
  | .symbol a, .symbol b => a.name == b.name
  | .key a, .key b => a == b
  | .list as, .list bs => Value.equalAll as bs
  | .vector as, .vector bs => Value.equalAll as bs
  | .map as, .map bs => Entries.equal as bs
  | _, _ => false

/-- Equality of sequences: as many elements, and equal ones at each place. -/
def Value.equalAll : List Value → List Value → Bool
  | [], [] => true
  | a :: as, b :: bs => Value.equal a b && Value.equalAll as bs
  | _, _ => false

/-- Equality of entries in the order of their keys: the same keys, with equal values. -/
def Entries.equal : List (Key × Value) → List (Key × Value) → Bool
  | [], [] => true
  | (k, a) :: as, (l, b) :: bs => k == l && Value.equal a b && Entries.equal as bs
  | _, _ => false

end

end LazyLisp
