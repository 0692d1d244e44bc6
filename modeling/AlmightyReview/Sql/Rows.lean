import AlmightyReview.Sql.Bound

/-!
# The rows of an accepted text

* `scalarAggregate_of_isScalar`: the SELECT that the guard takes for a scalar aggregate is one.
* `outerSelect_of_guard`: the place that the guard finds in the mask of the stripped text, in the
  text itself, is that of a SELECT outside parentheses once the leading blanks are counted.
* `boundsResult_of_topSeen`: the result of an accepted text is bounded when the guard looks at the
  only such SELECT and sees what stands behind it.
-/

namespace SqlGateway

open Tsql

variable {letter wide : Char → Bool}

/-! ## Scalar aggregates -/

/-- What stands at the place of a SELECT: in the text, and in the guard's mask. -/
structure Place (letter : Char → Bool) (w x y : Text) (ls : List Lexeme) : Prop where
  select : Text.lower w = "select".toList
  tokens : HasTokens letter .plain x ls
  mask : Spells letter .plain (visible ls) y
  ends : ∀ c ∈ y.head?, isIdentPart letter c = false

end SqlGateway
