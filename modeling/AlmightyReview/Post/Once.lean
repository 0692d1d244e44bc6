import AlmightyReview.Post.Reserve
import AlmightyReview.Post.World

/-!
# A posting is on GitHub at most once

* `marker_of_infix_fullBody`: a comment carries its own marker only.
* `Once`: the inductive invariant of the world. `single` is the result; `holds` and `absent` say
  that an attempt that is about to write a review holds the claim of its operation, and that no
  review carries the marker yet.
* `Moves`: what one step does to the operations.
* `posted_once`: in every run in which a claim is only taken over from an attempt that has stopped,
  and in which no text quotes a marker.
-/

namespace Post

open Sql World

/-! ## Markers -/

theorem length_operationMarker (r : PostRequest) : (operationMarker r).length = 65 := by
  have hlen : (sha256 (Json.dumps (identityCore r))).length = 64 := Sha256.length_hexdigest _
  unfold operationMarker
  rw [List.length_append, List.length_append, List.length_take, hlen]
  rfl

theorem newline_not_mem_operationMarker (r : PostRequest) : '\n' ∉ operationMarker r := by
  unfold operationMarker
  rw [List.mem_append, List.mem_append]
  rintro ((h | h) | h)
  · exact absurd h (by decide)
  · have := Sha256.mem_hexdigest (List.mem_of_mem_take h)
    exact absurd this (by decide)
  · exact absurd h (by decide)

/-- A comment whose text quotes no marker carries its own marker only. -/
theorem marker_of_infix_fullBody {r r' : PostRequest} {body : Text} (hb : Unmarked body)
    (h : operationMarker r <:+: fullBody body (operationMarker r')) :
    operationMarker r = operationMarker r' := by
  have hn := newline_not_mem_operationMarker r
  have hsplit : fullBody body (operationMarker r') =
      body ++ '\n' :: ([] ++ '\n' :: operationMarker r') := by
    simp [fullBody]
  rw [hsplit] at h
  rcases Text.infix_of_append_cons hn h with h | h
  · exact absurd h (hb r)
  · rcases Text.infix_of_append_cons hn h with h | h
    · have hnil : operationMarker r = [] := List.infix_nil.mp h
      have hlen := length_operationMarker r
      rw [hnil] at hlen
      cases hlen
    · exact h.eq_of_length (by rw [length_operationMarker, length_operationMarker])

/-- A text without the lead of a marker quotes none. -/
theorem unmarked_of_lead {text : Text} (h : ¬markerLead <:+: text) : Unmarked text := by
  intro r hr
  have hlead : markerLead <:+: operationMarker r :=
    List.infix_append_of_infix_left (List.infix_append_left)
  exact h (hlead.trans hr)

/-! ## The invariant -/

namespace Phase

/-- The operation of the attempt, as `prepare` returned it. -/
def operation : Phase → Option PostOperation
  | .prepared op | .claimed op | .missing op | .noPrevious op | .failed op => some op
  | .found op _ _ | .applied op _ _ => some op
  | .begun | .stopped => none

/-- The operation that the attempt holds the claim of. -/
def holding : Phase → Option PostOperation
  | .claimed op | .missing op | .noPrevious op | .failed op => some op
  | .found op _ _ => some op
  | _ => none

/-- The operation that the attempt is about to write a review for. -/
def acting : Phase → Option PostOperation
  | .missing op | .noPrevious op => some op
  | _ => none

/-- The operation that the attempt found to be applied on GitHub. -/
def finishing : Phase → Option PostOperation
  | .prepared op => if op.status = .remoteApplied then some op else none
  | .applied op _ _ => some op
  | _ => none

theorem operation_of_holding {phase : Phase} {op : PostOperation} (h : phase.holding = some op) :
    phase.operation = some op := by
  cases phase <;> first | exact h | cases h

theorem operation_of_finishing {phase : Phase} {op : PostOperation}
    (h : phase.finishing = some op) : phase.operation = some op := by
  cases phase with
  | prepared o =>
    simp only [finishing] at h
    split at h
    · exact h
    · cases h
  | applied => exact h
  | _ => cases h

theorem holding_of_acting {phase : Phase} {op : PostOperation} (h : phase.acting = some op) :
    phase.holding = some op := by
  cases phase <;> first | exact h | cases h

end Phase

/-- What an attempt may rely on of its operation. -/
structure Known (ops : Table PostOperation) (op : PostOperation) : Prop where
  old : op.id < ops.nextId
  marked : ∃ r, op.marker = operationMarker r
  unmarked : Unmarked op.body
  agrees : ∀ o ∈ ops, o.id = op.id → o.marker = op.marker

/-- The operation was applied on GitHub. -/
def Applied (ops : Table PostOperation) (op : PostOperation) : Prop :=
  ∀ o ∈ ops, o.id = op.id → o.status = .remoteApplied ∨ o.status = .succeeded

/-- The attempt `token` holds the claim of the operation. -/
def Held (ops : Table PostOperation) (op : PostOperation) (token : Text) : Prop :=
  ∃ o ∈ ops, o.id = op.id ∧ o.status = .applying ∧ o.ownerToken = some token

/-- What holds of an attempt between any two steps. -/
structure Sound (ops : Table PostOperation) (reviews : Target → Table RemoteReview) (token : Text)
    (a : Attempt) : Prop where
  unquoted : Unmarked a.request.body
  known : ∀ op, a.phase.operation = some op → Known ops op
  holds : ∀ op, a.phase.holding = some op → Held ops op token
  finishes : ∀ op, a.phase.finishing = some op → Applied ops op
  absent : ∀ op, a.phase.acting = some op →
    ∀ v ∈ reviews a.request.target, ¬op.marker <:+: v.body

/-- What holds of the world between any two steps. -/
structure Once (w : World) : Prop where
  markers : ∀ o₁ ∈ w.db.postOperations, ∀ o₂ ∈ w.db.postOperations, o₁.marker = o₂.marker → o₁ = o₂
  stored : ∀ o ∈ w.db.postOperations, Known w.db.postOperations o
  sound : ∀ token a, w.attempts token = some a → Sound w.db.postOperations w.reviews token a
  single : ∀ target r, ∀ v₁ ∈ w.reviews target, ∀ v₂ ∈ w.reviews target,
    operationMarker r <:+: v₁.body → operationMarker r <:+: v₂.body → v₁ = v₂

/-- A phase in which nothing is promised. -/
theorem sound_stopped {ops : Table PostOperation} {reviews : Target → Table RemoteReview}
    {token : Text} {a : Attempt} (h : Unmarked a.request.body) :
    Sound ops reviews token { a with phase := .stopped } where
  unquoted := h
  known := by simp [Phase.operation]
  holds := by simp [Phase.holding]
  finishes := by simp [Phase.finishing]
  absent := by simp [Phase.acting]

/-! ### Reviews on GitHub -/

/-- The rows of an updated review. -/
theorem update_rows {reviews : Table RemoteReview} {reviewId body : Text} :
    ∃ k, ∀ v ∈ reviews.update (fun v => Text.ofNat v.id == reviewId)
        (fun v => { v with body := body }), v ∈ reviews ∨ (v.id = k ∧ v.body = body) := by
  by_cases hx : ∃ v ∈ reviews, Text.ofNat v.id = reviewId
  · obtain ⟨v₀, -, hv₀⟩ := hx
    refine ⟨v₀.id, fun v hv => ?_⟩
    obtain ⟨v₁, hv₁, rfl⟩ := Table.mem_update.mp hv
    by_cases hp : Text.ofNat v₁.id = reviewId
    · rw [if_pos (by simpa using hp)]
      exact .inr ⟨Text.ofNat_injective (hp.trans hv₀.symm), rfl⟩
    · rw [if_neg (by simpa using hp)]
      exact .inl hv₁
  · refine ⟨0, fun v hv => ?_⟩
    obtain ⟨v₁, hv₁, rfl⟩ := Table.mem_update.mp hv
    rw [if_neg fun hp => hx ⟨v₁, hv₁, by simpa using hp⟩]
    exact .inl hv₁

/-- The rows after a creation. -/
theorem create_rows {reviews : Table RemoteReview} {url body : Text} :
    ∀ v ∈ reviews.insert (fun id => ⟨id, body, url⟩),
      v ∈ reviews ∨ (v.id = reviews.nextId ∧ v.body = body) := by
  intro v hv
  rcases Table.mem_insert.mp hv with hv | rfl
  · exact .inl hv
  · exact .inr ⟨rfl, rfl⟩

/-- A search that finds nothing: no review carries the marker. -/
theorem findRemoteReview_eq_none {reviews : Table RemoteReview} {marker : Text} :
    findRemoteReview reviews.rows marker = none ↔ ∀ v ∈ reviews, ¬marker <:+: v.body := by
  unfold findRemoteReview
  rw [List.find?_eq_none]
  simp [Table.mem_def]

/-! ### The operations change -/

/-- Rows go or change their state; their identity stays. -/
structure SameRows (ops ops' : Table PostOperation) : Prop where
  rows : ∀ o' ∈ ops', ∃ o ∈ ops, o'.id = o.id ∧ o'.marker = o.marker ∧ o'.body = o.body
  nextId : ops.nextId ≤ ops'.nextId

theorem SameRows.refl (ops : Table PostOperation) : SameRows ops ops :=
  ⟨fun o ho => ⟨o, ho, rfl, rfl, rfl⟩, le_rfl⟩

theorem SameRows.known {ops ops' : Table PostOperation} (h : SameRows ops ops')
    {op : PostOperation} (hk : Known ops op) : Known ops' op where
  old := lt_of_lt_of_le hk.old h.nextId
  marked := hk.marked
  unmarked := hk.unmarked
  agrees := by
    intro o' ho' hid
    obtain ⟨o, ho, e₁, e₂, -⟩ := h.rows o' ho'
    exact e₂.trans (hk.agrees o ho (e₁.symm.trans hid))

namespace Once

variable {w : World}

/-- The attempt `token` goes to another phase with another state of the operations. -/
theorem move (h : Once w) {db : Db} {token : Text} {a : Attempt} {phase : Phase}
    (hrows : SameRows w.db.postOperations db.postOperations)
    (hholds : ∀ t b op, t ≠ token → w.attempts t = some b → b.phase.holding = some op →
      Held db.postOperations op t)
    (hfinishes : ∀ t b op, t ≠ token → w.attempts t = some b → b.phase.finishing = some op →
      Applied db.postOperations op)
    (hself : Sound db.postOperations w.reviews token { a with phase := phase }) :
    Once ((w.withDb db).enter token a phase) where
  markers := by
    intro o₁' h₁' o₂' h₂' hm
    obtain ⟨o₁, h₁, i₁, m₁, -⟩ := hrows.rows o₁' h₁'
    obtain ⟨o₂, h₂, i₂, m₂, -⟩ := hrows.rows o₂' h₂'
    have heq : o₁ = o₂ := h.markers o₁ h₁ o₂ h₂ (m₁.symm.trans (hm.trans m₂))
    exact Table.eq_of_id h₁' h₂' (i₁.trans ((congrArg PostOperation.id heq).trans i₂.symm))
  stored := by
    intro o' ho'
    obtain ⟨o, ho, hid, hm, hb⟩ := hrows.rows o' ho'
    obtain ⟨hold, hmark, hun, -⟩ := hrows.known (h.stored o ho)
    exact ⟨hid ▸ hold, hm ▸ hmark, hb ▸ hun, fun o₂ h₂ h' => congrArg _ (Table.eq_of_id h₂ ho' h')⟩
  sound := by
    intro t b hb
    simp only [World.enter, World.withDb] at hb
    by_cases ht : t = token
    · rw [if_pos ht] at hb
      cases hb
      exact ht ▸ hself
    · rw [if_neg ht] at hb
      have hs := h.sound t b hb
      exact ⟨hs.unquoted, fun op hop => hrows.known (hs.known op hop),
        fun op hop => hholds t b op ht hb hop, fun op hop => hfinishes t b op ht hb hop, hs.absent⟩
  single := h.single

/-- Only the phase of one attempt changes. -/
theorem enter (h : Once w) {token : Text} {a : Attempt} {phase : Phase}
    (hself : Sound w.db.postOperations w.reviews token { a with phase := phase }) :
    Once (w.enter token a phase) :=
  h.move (SameRows.refl _) (fun t b op _ hb => (h.sound t b hb).holds op)
    (fun t b op _ hb => (h.sound t b hb).finishes op) hself

/-- An attempt that goes on has not stopped. -/
theorem running_of_holding {token : Text} {a : Attempt} {op : PostOperation}
    (ha : w.attempts token = some a) (hop : a.phase.holding = some op) : w.Running token := by
  refine ⟨a, ha, fun hs => ?_⟩
  rw [hs] at hop
  cases hop

/-! ### One operation changes its state -/

/-- An `UPDATE` of operations that keeps their identity. -/
theorem sameRows_update {ops ops' : Table PostOperation} {p : PostOperation → Bool}
    {f : PostOperation → PostOperation}
    (hops : ∀ o', o' ∈ ops' ↔ ∃ o ∈ ops, o' = if p o then f o else o)
    (hnext : ops'.nextId = ops.nextId)
    (hf : ∀ o, (f o).id = o.id ∧ (f o).marker = o.marker ∧ (f o).body = o.body) :
    SameRows ops ops' := by
  refine ⟨fun o' ho' => ?_, hnext.ge⟩
  obtain ⟨o, ho, rfl⟩ := (hops o').mp ho'
  refine ⟨o, ho, ?_⟩
  split
  · exact hf o
  · exact ⟨rfl, rfl, rfl⟩

/-- The attempt `token` updates rows of its operation. What the other attempts hold is theirs
still, when the rows that change are no one else's. -/
theorem moveUpdate (h : Once w) {db : Db} {token : Text} {a : Attempt} {phase : Phase}
    {p : PostOperation → Bool} {f : PostOperation → PostOperation}
    (hops : ∀ o', o' ∈ db.postOperations ↔ ∃ o ∈ w.db.postOperations, o' = if p o then f o else o)
    (hnext : db.postOperations.nextId = w.db.postOperations.nextId)
    (hf : ∀ o, (f o).id = o.id ∧ (f o).marker = o.marker ∧ (f o).body = o.body)
    (hholds : ∀ t, t ≠ token → w.Running t → ∀ o ∈ w.db.postOperations, p o = true →
      o.status = .applying → o.ownerToken = some t →
      (f o).status = .applying ∧ (f o).ownerToken = some t)
    (hfinishes : ∀ o ∈ w.db.postOperations, p o = true →
      o.status = .remoteApplied ∨ o.status = .succeeded →
      (f o).status = .remoteApplied ∨ (f o).status = .succeeded)
    (hself : Sound db.postOperations w.reviews token { a with phase := phase }) :
    Once ((w.withDb db).enter token a phase) := by
  refine h.move (sameRows_update hops hnext hf) ?_ ?_ hself
  · intro t b op ht hb hop
    obtain ⟨o, ho, hid, hs, hown⟩ := (h.sound t b hb).holds op hop
    refine ⟨_, (hops _).mpr ⟨o, ho, rfl⟩, ?_⟩
    by_cases hp : p o = true
    · rw [if_pos hp]
      exact ⟨(hf o).1.trans hid, hholds t ht (running_of_holding hb hop) o ho hp hs hown⟩
    · rw [if_neg hp]
      exact ⟨hid, hs, hown⟩
  · intro t b op ht hb hop o' ho' hid
    obtain ⟨o, ho, rfl⟩ := (hops o').mp ho'
    by_cases hp : p o = true
    · rw [if_pos hp] at hid ⊢
      exact hfinishes o ho hp ((h.sound t b hb).finishes op hop o ho ((hf o).1.symm.trans hid))
    · rw [if_neg hp] at hid ⊢
      exact (h.sound t b hb).finishes op hop o ho hid

/-- A claim: a claim that is taken over was that of an attempt that has stopped. -/
theorem claim (h : Once w) {token : Text} {a : Attempt} {op : PostOperation}
    (ha : w.attempts token = some a) (hop : a.phase = .prepared op)
    (hassumed : w.Assumed (.claim token)) :
    Once ((w.withDb ((Post.claim op.id token).run w.db).2).enter token a
      (afterClaim op ((Post.claim op.id token).run w.db).1)) := by
  have hs := h.sound token a ha
  have hknown : Known w.db.postOperations op := hs.known op (by rw [hop]; rfl)
  refine h.moveUpdate (fun _ => mem_claim_operations) rfl (fun _ => ⟨rfl, rfl, rfl⟩) ?_ ?_ ?_
  · intro t ht hrun o ho hp hst hown
    simp only [Bool.and_eq_true, beq_iff_eq] at hp
    exact absurd hrun (hassumed a op ha hop o ho hp.1 hst hp.2 t hown)
  · intro o _ hp hst
    simp only [Bool.and_eq_true] at hp
    rcases status_of_claimable hp.2 with h' | h' <;> rw [h'] at hst <;> simp at hst
  · have hsame : SameRows w.db.postOperations
        ((Post.claim op.id token).run w.db).2.postOperations :=
      sameRows_update (fun _ => mem_claim_operations) rfl fun _ => ⟨rfl, rfl, rfl⟩
    by_cases hok : ((Post.claim op.id token).run w.db).1 = .ok true
    · rw [hok]
      refine ⟨hs.unquoted, ?_, ?_, by simp [afterClaim, Phase.finishing],
        by simp [afterClaim, Phase.acting]⟩
      · intro op' hop'
        cases hop'
        exact hsame.known hknown
      · intro op' hop'
        cases hop'
        obtain ⟨o, ho, hid, hc⟩ := claim_eq_true.mp hok
        refine ⟨_, mem_claim_operations.mpr ⟨o, ho, rfl⟩, ?_⟩
        rw [if_pos (by simp [hid, hc])]
        exact ⟨hid, rfl, rfl⟩
    · have hstop : afterClaim op ((Post.claim op.id token).run w.db).1 = .stopped := by
        unfold afterClaim
        split
        · contradiction
        · rfl
      rw [hstop]
      exact sound_stopped hs.unquoted

theorem markRemote (h : Once w) {token reviewId url : Text} {a : Attempt} {op : PostOperation}
    (ha : w.attempts token = some a) (hop : a.phase = .found op reviewId url) :
    Once ((w.withDb ((Post.markRemote op.id reviewId url token).run w.db).2).enter token a
      (afterMarkRemote op reviewId url
        ((Post.markRemote op.id reviewId url token).run w.db).1)) := by
  have hs := h.sound token a ha
  obtain ⟨o, ho, hid, hst, hown⟩ := hs.holds op (by rw [hop]; rfl)
  have hheld : heldBy op.id token o = true := by simp [heldBy, hid, hst, hown]
  have hrun := run_markRemote op.id reviewId url token w.db
  rw [if_pos ⟨o, ho, hheld⟩] at hrun
  have hops : ∀ o', o' ∈ ((Post.markRemote op.id reviewId url token).run w.db).2.postOperations ↔
      ∃ o ∈ w.db.postOperations, o' = if heldBy op.id token o then
        remoteApplied reviewId url w.db.now o else o := fun _ => mem_markRemote_operations ho hheld
  rw [hrun] at hops ⊢
  refine h.moveUpdate hops rfl (fun _ => ⟨rfl, rfl, rfl⟩) ?_ ?_ ?_
  · intro t ht _ o' _ hp _ hown'
    -- the row is the one that `token` holds
    simp only [heldBy, Bool.and_eq_true, beq_iff_eq] at hp
    rw [hown', Option.some.injEq] at hp
    exact absurd hp.2 ht
  · intro o' _ hp _
    exact .inl rfl
  · refine ⟨hs.unquoted, ?_, by simp [afterMarkRemote, Phase.holding], ?_,
      by simp [afterMarkRemote, Phase.acting]⟩
    · intro op' hop'
      cases hop'
      exact (sameRows_update hops rfl fun _ => ⟨rfl, rfl, rfl⟩).known
        (hs.known op (by rw [hop]; rfl))
    · intro op' hop' o' ho' hid'
      cases hop'
      obtain ⟨o₁, ho₁, rfl⟩ := (hops o').mp ho'
      have hid₁ : o₁.id = op.id := by
        split at hid' <;> exact hid'
      have heq : o₁ = o := Table.eq_of_id ho₁ ho (hid₁.trans hid.symm)
      rw [heq, if_pos hheld]
      exact .inl rfl

theorem markError (h : Once w) {token error : Text} {a : Attempt} {op : PostOperation}
    (ha : w.attempts token = some a) :
    Once ((w.withDb ((Post.markError op.id error token).run w.db).2).enter token a .stopped) := by
  refine h.moveUpdate (fun _ => mem_markError_operations) rfl (fun _ => ⟨rfl, rfl, rfl⟩) ?_ ?_
    (sound_stopped (h.sound token a ha).unquoted)
  · exact fun _ _ _ _ _ _ hst hown => ⟨hst, hown⟩
  · exact fun _ _ _ hst => hst

/-- An operation that was applied on GitHub succeeds. -/
theorem finalize (h : Once w) {token reviewId url : Text} {a : Attempt} {op : PostOperation}
    (ha : w.attempts token = some a) (hop : a.phase = .applied op reviewId url) :
    Once ((w.withDb ((finalizePosting (World.posting a op reviewId url)).run w.db).2).enter token a
      .stopped) := by
  have hs := h.sound token a ha
  have hstop : Sound w.db.postOperations w.reviews token { a with phase := .stopped } :=
    sound_stopped hs.unquoted
  have ho := finalize_outcome (World.posting a op reviewId url) w.db
  generalize (finalizePosting (World.posting a op reviewId url)).run w.db = out at ho ⊢
  cases ho with
  | missing _ => exact h.enter hstop
  | lost _ _ _ => exact h.enter hstop
  | done _ _ =>
    refine h.moveUpdate (fun _ => mem_finalized_operations) rfl (fun _ => ⟨rfl, rfl, rfl⟩) ?_ ?_
      (sound_stopped hs.unquoted)
    · intro t _ _ o ho hp hst _
      have happ := hs.finishes op (by rw [hop]; rfl) o ho (beq_iff_eq.mp hp)
      rw [hst] at happ
      simp at happ
    · exact fun _ _ _ _ => .inr rfl

/-- The operation of the attempt is deleted. -/
theorem abortUnapplied (h : Once w) {token : Text} {a : Attempt} {op : PostOperation}
    (ha : w.attempts token = some a) (hop : a.phase = .noPrevious op) :
    Once ((w.withDb ((Post.abortUnapplied op.id token).run w.db).2).enter token a .stopped) := by
  have hs := h.sound token a ha
  obtain ⟨o, ho, hid, hst, hown⟩ := hs.holds op (by rw [hop]; rfl)
  rw [run_abortUnapplied]
  split
  · refine h.move ⟨fun o' ho' => ?_, le_rfl⟩ ?_ ?_ (sound_stopped hs.unquoted)
    · exact ⟨o', (mem_aborted_operations.mp ho').1, rfl, rfl, rfl⟩
    · intro t b op' ht hb hop'
      obtain ⟨o', ho', hid', hst', hown'⟩ := (h.sound t b hb).holds op' hop'
      refine ⟨o', mem_aborted_operations.mpr ⟨ho', fun heq => ?_⟩, hid', hst', hown'⟩
      have hoo : o' = o := Table.eq_of_id ho' ho (heq.trans hid.symm)
      rw [hoo, hown, Option.some.injEq] at hown'
      exact ht hown'.symm
    · intro t b op' _ hb hop' o' ho'
      exact (h.sound t b hb).finishes op' hop' o' (mem_aborted_operations.mp ho').1
  · exact h.enter (sound_stopped hs.unquoted)

/-! ### Prepare -/

/-- The operation that `prepare` returns, stored before or new. -/
theorem prepare (h : Once w) {token : Text} {a : Attempt} (ha : w.attempts token = some a) :
    Once ((w.withDb ((Post.prepare a.request).run w.db).2).enter token a
      (afterPrepare ((Post.prepare a.request).run w.db).1)) := by
  have hs := h.sound token a ha
  have ho := prepare_outcome a.request w.db
  generalize (Post.prepare a.request).run w.db = out at ho ⊢
  cases ho with
  | @existing o he =>
    have hmem : o ∈ w.db.postOperations := Table.mem_of_find? he
    refine h.enter ⟨hs.unquoted, ?_, by simp [afterPrepare, Phase.holding], ?_,
      by simp [afterPrepare, Phase.acting]⟩
    · intro op hop
      cases hop
      exact h.stored o hmem
    · intro op hop o' ho' hid
      simp only [afterPrepare, Phase.finishing] at hop
      split at hop
      · rename_i hst
        cases hop
        have heq : o' = o := Table.eq_of_id ho' hmem hid
        exact heq ▸ .inl hst
      · cases hop
  | taken _ _ => exact h.enter (sound_stopped hs.unquoted)
  | conflict _ _ _ _ => exact h.enter (sound_stopped hs.unquoted)
  | new _ hm _ =>
    have hfree : ∀ o ∈ w.db.postOperations, o.marker ≠ (operationIdentity a.request).marker := by
      intro o ho heq
      have hnone : w.db.postOperations.find? (fun o => o.marker ==
          (operationIdentity a.request).marker) = none := by
        simpa [markerTaken] using hm
      simpa [heq] using Table.find?_eq_none.mp hnone o ho
    have hold : ∀ o ∈ w.db.postOperations, o.id < w.db.postOperations.nextId :=
      fun o ho => Table.lt_nextId ho
    -- what was known of an operation is known still: the new row has another id
    have hknown : ∀ op, Known w.db.postOperations op →
        Known (prepared a.request w.db).postOperations op := by
      refine fun op hk => ⟨Nat.lt_succ_of_lt hk.old, hk.marked, hk.unmarked, fun o ho hid => ?_⟩
      rcases mem_prepared_operations.mp ho with ho | rfl
      · exact hk.agrees o ho hid
      · exact absurd hid (Nat.ne_of_gt hk.old)
    have hnew : Known (prepared a.request w.db).postOperations
        (preparedOperation a.request w.db) := by
      refine ⟨Nat.lt_succ_self _, ⟨a.request, rfl⟩, hs.unquoted, fun o ho hid => ?_⟩
      rcases mem_prepared_operations.mp ho with ho | rfl
      · exact absurd hid (Nat.ne_of_lt (hold o ho))
      · rfl
    refine ⟨?_, ?_, ?_, h.single⟩
    · intro o₁ h₁ o₂ h₂ heq
      rcases mem_prepared_operations.mp h₁ with h₁ | rfl <;>
        rcases mem_prepared_operations.mp h₂ with h₂ | rfl
      · exact h.markers o₁ h₁ o₂ h₂ heq
      · exact absurd heq (hfree o₁ h₁)
      · exact absurd heq.symm (hfree o₂ h₂)
      · rfl
    · intro o ho
      rcases mem_prepared_operations.mp ho with ho | rfl
      · exact hknown o (h.stored o ho)
      · exact hnew
    · intro t b hb
      simp only [World.enter, World.withDb] at hb
      by_cases ht : t = token
      · rw [if_pos ht] at hb
        cases hb
        refine ⟨hs.unquoted, ?_, by simp [afterPrepare, Phase.holding],
          by simp [afterPrepare, Phase.finishing, preparedOperation, newOperation],
          by simp [afterPrepare, Phase.acting]⟩
        intro op hop
        cases hop
        exact hnew
      · rw [if_neg ht] at hb
        have hb' := h.sound t b hb
        refine ⟨hb'.unquoted, fun op hop => hknown op (hb'.known op hop), ?_, ?_, hb'.absent⟩
        · intro op hop
          obtain ⟨o, ho, hrest⟩ := hb'.holds op hop
          exact ⟨o, mem_prepared_operations.mpr (.inl ho), hrest⟩
        · intro op hop o ho hid
          rcases mem_prepared_operations.mp ho with ho | rfl
          · exact hb'.finishes op hop o ho hid
          · have hlt := (hb'.known op (Phase.operation_of_finishing hop)).old
            exact absurd hid (Nat.ne_of_gt hlt)

/-! ### A review is written -/

/-- Two attempts that hold operations with one marker are one attempt. -/
theorem token_eq_of_marker (h : Once w) {t₁ t₂ : Text} {a₁ a₂ : Attempt} {op₁ op₂ : PostOperation}
    (h₁ : w.attempts t₁ = some a₁) (h₂ : w.attempts t₂ = some a₂)
    (hop₁ : a₁.phase.holding = some op₁) (hop₂ : a₂.phase.holding = some op₂)
    (hm : op₁.marker = op₂.marker) : t₁ = t₂ := by
  obtain ⟨o₁, ho₁, hid₁, -, hown₁⟩ := (h.sound t₁ a₁ h₁).holds op₁ hop₁
  obtain ⟨o₂, ho₂, hid₂, -, hown₂⟩ := (h.sound t₂ a₂ h₂).holds op₂ hop₂
  have hk₁ := (h.sound t₁ a₁ h₁).known op₁ (Phase.operation_of_holding hop₁)
  have hk₂ := (h.sound t₂ a₂ h₂).known op₂ (Phase.operation_of_holding hop₂)
  have hmo : o₁.marker = o₂.marker :=
    calc o₁.marker = op₁.marker := hk₁.agrees o₁ ho₁ hid₁
      _ = op₂.marker := hm
      _ = o₂.marker := (hk₂.agrees o₂ ho₂ hid₂).symm
  rw [h.markers o₁ ho₁ o₂ ho₂ hmo, hown₂, Option.some.injEq] at hown₁
  exact hown₁.symm

/-- An attempt that has found no review with its marker writes one. -/
theorem write (h : Once w) {token : Text} {a : Attempt} {op : PostOperation} {phase : Phase}
    (ha : w.attempts token = some a) (hact : a.phase.acting = some op)
    {reviews : Table RemoteReview} {k : Nat}
    (hrows : ∀ v ∈ reviews, v ∈ w.reviews a.request.target ∨
      (v.id = k ∧ v.body = fullBody op.body op.marker))
    (hphase : phase.operation = some op ∧ phase.holding = some op ∧ phase.finishing = none ∧
      phase.acting = none) :
    Once ((w.withReviews a.request.target reviews).enter token a phase) := by
  have hs := h.sound token a ha
  have hhold := Phase.holding_of_acting hact
  have hk := hs.known op (Phase.operation_of_holding hhold)
  obtain ⟨r₀, hr₀⟩ := hk.marked
  -- a marker that the new review carries is its own
  have hown : ∀ r, operationMarker r <:+: fullBody op.body op.marker →
      operationMarker r = op.marker := by
    intro r hr
    rw [hr₀] at hr ⊢
    exact marker_of_infix_fullBody hk.unmarked hr
  have habsent := hs.absent op hact
  obtain ⟨hop, hph, hfin, hacts⟩ := hphase
  refine ⟨h.markers, h.stored, ?_, ?_⟩
  · intro t b hb
    simp only [World.enter, World.withReviews] at hb
    by_cases ht : t = token
    · rw [if_pos ht] at hb
      cases hb
      refine ⟨hs.unquoted, ?_, ?_, ?_, ?_⟩
      · intro op' hop'
        rw [hop, Option.some.injEq] at hop'
        exact hop' ▸ hk
      · intro op' hop'
        rw [hph, Option.some.injEq] at hop'
        rw [← hop', ht]
        exact hs.holds op hhold
      · intro op' hop'
        rw [hfin] at hop'
        cases hop'
      · intro op' hop'
        rw [hacts] at hop'
        cases hop'
    · rw [if_neg ht] at hb
      have hb' := h.sound t b hb
      refine ⟨hb'.unquoted, hb'.known, hb'.holds, hb'.finishes, fun op' hop' v hv hm => ?_⟩
      simp only [World.enter, World.withReviews] at hv
      split at hv
      · rename_i htarget
        rcases hrows v hv with hv | ⟨-, hbody⟩
        · exact hb'.absent op' hop' v (htarget ▸ hv) hm
        · -- another attempt would hold the claim of the same operation
          have hhold' := Phase.holding_of_acting hop'
          obtain ⟨r', hr'⟩ := (hb'.known op' (Phase.operation_of_holding hhold')).marked
          rw [hr', hbody] at hm
          exact ht (h.token_eq_of_marker hb ha hhold' hhold (hr'.trans (hown r' hm)))
      · exact hb'.absent op' hop' v hv hm
  · intro target r v₁ hv₁ v₂ hv₂ hm₁ hm₂
    simp only [World.enter, World.withReviews] at hv₁ hv₂
    split at hv₁
    · rename_i htarget
      rw [if_pos htarget] at hv₂
      rcases hrows v₁ hv₁ with ho₁ | ⟨hk₁, hb₁⟩ <;> rcases hrows v₂ hv₂ with ho₂ | ⟨hk₂, hb₂⟩
      · exact h.single _ r v₁ ho₁ v₂ ho₂ hm₁ hm₂
      · rw [hb₂] at hm₂
        exact absurd (hown r hm₂ ▸ hm₁) (habsent v₁ ho₁)
      · rw [hb₁] at hm₁
        exact absurd (hown r hm₁ ▸ hm₂) (habsent v₂ ho₂)
      · exact Table.eq_of_id hv₁ hv₂ (hk₁.trans hk₂.symm)
    · rename_i htarget
      rw [if_neg htarget] at hv₂
      exact h.single target r v₁ hv₁ v₂ hv₂ hm₁ hm₂

/-- The other users of GitHub write no marker. -/
theorem others (h : Once w) {target : Target} {reviews : Table RemoteReview}
    (hrows : ∀ v ∈ reviews, v ∈ w.reviews target ∨ Unmarked v.body) :
    Once (w.withReviews target reviews) := by
  -- a review that carries a marker was there before
  have hold : ∀ t r, ∀ v ∈ (w.withReviews target reviews).reviews t,
      operationMarker r <:+: v.body → v ∈ w.reviews t := by
    intro t r v hv hm
    simp only [World.withReviews] at hv
    split at hv
    · rename_i ht
      rcases hrows v hv with hv | hu
      · exact ht ▸ hv
      · exact absurd hm (hu r)
    · exact hv
  refine ⟨h.markers, h.stored, fun t b hb => ?_, fun t r v₁ hv₁ v₂ hv₂ hm₁ hm₂ => ?_⟩
  · have hb' := h.sound t b hb
    refine ⟨hb'.unquoted, hb'.known, hb'.holds, hb'.finishes, fun op hop v hv hm => ?_⟩
    obtain ⟨r, hr⟩ :=
      (hb'.known op (Phase.operation_of_holding (Phase.holding_of_acting hop))).marked
    exact hb'.absent op hop v (hold _ r v hv (hr ▸ hm)) hm
  · exact h.single t r v₁ (hold t r v₁ hv₁ hm₁) v₂ (hold t r v₂ hv₂ hm₂) hm₁ hm₂

/-! ### Every step -/

theorem init (h : world.init w) : Once w where
  markers o₁ h₁ := by
    rw [Table.mem_def, h.1] at h₁
    cases h₁
  stored o ho := by
    rw [Table.mem_def, h.1] at ho
    cases ho
  sound token a ha := by
    rw [h.2.1 token] at ha
    cases ha
  single target r v₁ hv₁ := by
    rw [Table.mem_def, h.2.2 target] at hv₁
    cases hv₁

/-- A failed call of GitHub that had no effect, and every other step from a phase in which the
claim is held to one in which it is held and no review is written. -/
theorem keepHolding (h : Once w) {token : Text} {a : Attempt} {op : PostOperation} {phase : Phase}
    (ha : w.attempts token = some a) (hhold : a.phase.holding = some op)
    (hphase : phase.operation = some op ∧ phase.holding = some op ∧ phase.finishing = none)
    (habsent : ∀ op', phase.acting = some op' →
      ∀ v ∈ w.reviews a.request.target, ¬op'.marker <:+: v.body) :
    Once (w.enter token a phase) := by
  have hs := h.sound token a ha
  obtain ⟨hop, hph, hfin⟩ := hphase
  refine h.enter ⟨hs.unquoted, ?_, ?_, ?_, habsent⟩
  · intro op' hop'
    rw [hop, Option.some.injEq] at hop'
    exact hop' ▸ hs.known op (Phase.operation_of_holding hhold)
  · intro op' hop'
    rw [hph, Option.some.injEq] at hop'
    exact hop' ▸ hs.holds op hhold
  · intro op' hop'
    rw [hfin] at hop'
    cases hop'

/-- **The step lemma.** -/
theorem step (h : Once w) {l : Label} {w' : World} (hassumed : w.Assumed l)
    (hunquoted : w.Unquoted l) (hstep : w.Step l w') : Once w' := by
  cases hstep with
  | begin hnone =>
    exact h.enter ⟨hunquoted, by simp [Phase.operation], by simp [Phase.holding],
      by simp [Phase.finishing], by simp [Phase.acting]⟩
  | prepare ha _ => exact h.prepare ha
  | adopt ha hop hst =>
    have hs := h.sound _ _ ha
    refine h.enter ⟨hs.unquoted, ?_, by simp [Phase.holding], ?_, by simp [Phase.acting]⟩
    · intro op hop'
      cases hop'
      exact hs.known _ (by rw [hop]; rfl)
    · intro op hop'
      cases hop'
      exact hs.finishes _ (by rw [hop]; exact if_pos hst)
  | claim ha hop _ => exact h.claim ha hop hassumed
  | @find token a op ha hop =>
    refine h.keepHolding ha (by rw [hop]; rfl) ?_ ?_
    · cases findRemoteReview (w.reviews a.request.target).rows op.marker <;> exact ⟨rfl, rfl, rfl⟩
    · intro op' hop'
      cases hfind : findRemoteReview (w.reviews a.request.target).rows op.marker with
      | some v =>
        rw [hfind] at hop'
        cases hop'
      | none =>
        rw [hfind] at hop'
        cases hop'
        exact findRemoteReview_eq_none.mp hfind
  | findFails ha hop =>
    exact h.keepHolding ha (by rw [hop]; rfl) ⟨rfl, rfl, rfl⟩ (by simp [Phase.acting])
  | update ha hop _ =>
    obtain ⟨k, hk⟩ := update_rows
    exact h.write ha (by rw [hop]; rfl) hk ⟨rfl, rfl, rfl, rfl⟩
  | updateMissing ha hop _ =>
    refine h.keepHolding ha (by rw [hop]; rfl) ⟨rfl, rfl, rfl⟩ fun op' hop' => ?_
    cases hop'
    exact (h.sound _ _ ha).absent _ (by rw [hop]; rfl)
  | updateLost ha hop _ =>
    obtain ⟨k, hk⟩ := update_rows
    exact h.write ha (by rw [hop]; rfl) hk ⟨rfl, rfl, rfl, rfl⟩
  | create ha hop =>
    refine h.write ha ?_ create_rows ⟨rfl, rfl, rfl, rfl⟩
    rcases hop with ⟨hop, -⟩ | hop <;> rw [hop] <;> rfl
  | createLost ha hop =>
    refine h.write ha ?_ create_rows ⟨rfl, rfl, rfl, rfl⟩
    rcases hop with ⟨hop, -⟩ | hop <;> rw [hop] <;> rfl
  | writeFails ha hop =>
    refine h.keepHolding ha ?_ ⟨rfl, rfl, rfl⟩ (by simp [Phase.acting])
    rcases hop with hop | hop <;> rw [hop] <;> rfl
  | abortUnapplied ha hop => exact h.abortUnapplied ha hop
  | markRemote ha hop => exact h.markRemote ha hop
  | markError ha _ => exact h.markError ha
  | finalize ha hop => exact h.finalize ha hop
  | stop ha => exact h.enter (sound_stopped (h.sound _ _ ha).unquoted)
  | elsewhere hdb =>
    refine ⟨?_, ?_, ?_, h.single⟩
    all_goals simp only [World.withDb, hdb]
    · exact h.markers
    · exact h.stored
    · exact h.sound
  | others => exact h.others hunquoted

end Once

/-! ## What a step does to the operations -/

/-- `pending -> applying -> remote_applied -> succeeded`. -/
def nextStatus : OperationStatus → Option OperationStatus
  | .pending => some .applying
  | .applying => some .remoteApplied
  | .remoteApplied => some .succeeded
  | .succeeded => none

/-- The ways in which a step may change the operations. -/
structure Moves (w : World) (l : Label) (w' : World) : Prop where
  status : ∀ o ∈ w.db.postOperations, ∀ o' ∈ w'.db.postOperations, o'.id = o.id →
    o'.status = o.status ∨ nextStatus o.status = some o'.status
  created : ∀ o' ∈ w'.db.postOperations,
    (∃ o ∈ w.db.postOperations, o'.id = o.id) ∨ o'.status = .pending
  /-- Only the owner of the claim moves the operation to `remote_applied`. -/
  applied : ∀ o ∈ w.db.postOperations, ∀ o' ∈ w'.db.postOperations, o'.id = o.id →
    o.status ≠ .remoteApplied → o'.status = .remoteApplied →
    ∃ token, l = .markRemote token ∧ o.status = .applying ∧ o.ownerToken = some token
  /-- The owner of the claim gives the operation up while no review carries its marker. -/
  deleted : ∀ o ∈ w.db.postOperations, (∃ o' ∈ w'.db.postOperations, o'.id = o.id) ∨
    ∃ token a, l = .abortUnapplied token ∧ w.attempts token = some a ∧ o.status = .applying ∧
      o.ownerToken = some token ∧ ∀ v ∈ w.reviews a.request.target, ¬o.marker <:+: v.body

/-- A step that leaves the operations as they are. -/
theorem moves_of_eq {w w' : World} {l : Label}
    (h : w'.db.postOperations = w.db.postOperations) : Moves w l w' where
  status := by
    intro o ho o' ho' hid
    rw [h] at ho'
    exact .inl (congrArg _ (Table.eq_of_id ho' ho hid))
  created := by
    intro o' ho'
    exact .inl ⟨o', h ▸ ho', rfl⟩
  applied := by
    intro o ho o' ho' hid hne hst
    rw [h] at ho'
    exact absurd (Table.eq_of_id ho' ho hid ▸ hst) hne
  deleted := by
    intro o ho
    exact .inl ⟨o, h ▸ ho, rfl⟩

/-- A step that updates the rows that meet `p`. -/
theorem moves_update {w w' : World} {l : Label} {p : PostOperation → Bool}
    {f : PostOperation → PostOperation} (hops : ∀ o', o' ∈ w'.db.postOperations ↔
      ∃ o ∈ w.db.postOperations, o' = if p o then f o else o)
    (hf : ∀ o, (f o).id = o.id)
    (hstatus : ∀ o ∈ w.db.postOperations, p o = true →
      (f o).status = o.status ∨ nextStatus o.status = some (f o).status)
    (happlied : ∀ o ∈ w.db.postOperations, p o = true → (f o).status = .remoteApplied →
      o.status ≠ .remoteApplied →
      ∃ token, l = .markRemote token ∧ o.status = .applying ∧ o.ownerToken = some token) :
    Moves w l w' := by
  have hid : ∀ o, (if p o then f o else o).id = o.id := by
    intro o
    split
    · exact hf o
    · rfl
  -- the row of an operation after the step
  have hrow : ∀ o ∈ w.db.postOperations, ∀ o' ∈ w'.db.postOperations, o'.id = o.id →
      o' = if p o then f o else o := by
    intro o ho o' ho' heq
    obtain ⟨o₁, ho₁, rfl⟩ := (hops o').mp ho'
    rw [Table.eq_of_id ho₁ ho ((hid o₁).symm.trans heq)]
  refine ⟨?_, ?_, ?_, fun o ho => .inl ⟨_, (hops _).mpr ⟨o, ho, rfl⟩, hid o⟩⟩
  · intro o ho o' ho' heq
    rw [hrow o ho o' ho' heq]
    by_cases hp : p o = true
    · rw [if_pos hp]
      exact hstatus o ho hp
    · rw [if_neg hp]
      exact .inl rfl
  · intro o' ho'
    obtain ⟨o, ho, rfl⟩ := (hops o').mp ho'
    exact .inl ⟨o, ho, hid o⟩
  · intro o ho o' ho' heq hne hst
    rw [hrow o ho o' ho' heq] at hst
    by_cases hp : p o = true
    · rw [if_pos hp] at hst
      exact happlied o ho hp hst hne
    · rw [if_neg hp] at hst
      exact absurd hst hne

theorem moves_prepare (w : World) (l : Label) (token : Text) (a : Attempt) (phase : Phase) :
    Moves w l ((w.withDb ((prepare a.request).run w.db).2).enter token a phase) := by
  have ho := prepare_outcome a.request w.db
  generalize (prepare a.request).run w.db = out at ho ⊢
  cases ho with
  | existing _ => exact moves_of_eq rfl
  | taken _ _ => exact moves_of_eq rfl
  | conflict _ _ _ _ => exact moves_of_eq rfl
  | new _ _ _ =>
    have hlt : ∀ o ∈ w.db.postOperations, o.id < w.db.postOperations.nextId :=
      fun o ho => Table.lt_nextId ho
    have hold : ∀ o ∈ w.db.postOperations, ∀ o' ∈ (prepared a.request w.db).postOperations,
        o'.id = o.id → o' = o := by
      intro o ho o' ho' hid
      rcases mem_prepared_operations.mp ho' with ho' | rfl
      · exact Table.eq_of_id ho' ho hid
      · exact absurd hid.symm (Nat.ne_of_lt (hlt o ho))
    refine ⟨?_, ?_, ?_, fun o ho => .inl ⟨o, mem_prepared_operations.mpr (.inl ho), rfl⟩⟩
    · intro o ho o' ho' hid
      exact .inl (congrArg _ (hold o ho o' ho' hid))
    · intro o' ho'
      rcases mem_prepared_operations.mp ho' with ho' | rfl
      · exact .inl ⟨o', ho', rfl⟩
      · exact .inr rfl
    · intro o ho o' ho' hid hne hst
      exact absurd (hold o ho o' ho' hid ▸ hst) hne

/-- What every step from a state of a run does to the operations. -/
theorem Once.moves {w : World} (h : Once w) {l : Label} {w' : World} (hstep : w.Step l w') :
    Moves w l w' := by
  cases hstep with
  | prepare _ _ => exact moves_prepare w _ _ _ _
  | @claim token a op _ _ _ =>
    refine moves_update (p := fun o => o.id == op.id && claimable w.db.now o)
      (f := applying token w.db.now) (fun _ => mem_claim_operations) (fun _ => rfl) ?_ ?_
    · intro o _ hp
      simp only [Bool.and_eq_true] at hp
      rcases status_of_claimable hp.2 with hs | hs <;> rw [hs]
      · exact .inr rfl
      · exact .inl rfl
    · intro o _ _ hst
      cases hst
  | @abortUnapplied token a op ha hop =>
    simp only [run_abortUnapplied]
    split
    · rename_i hab
      obtain ⟨o₀, ho₀, hid₀, hst₀, hown₀⟩ := (h.sound token a ha).holds op (by rw [hop]; rfl)
      have hk := (h.sound token a ha).known op (by rw [hop]; rfl)
      have hmem : ∀ o', o' ∈ (aborted op.id w.db).postOperations ↔
          o' ∈ w.db.postOperations ∧ o'.id ≠ op.id := fun _ => mem_aborted_operations
      refine ⟨?_, ?_, ?_, ?_⟩
      · intro o ho o' ho' hid
        exact .inl (congrArg _ (Table.eq_of_id ((hmem o').mp ho').1 ho hid))
      · intro o' ho'
        exact .inl ⟨o', ((hmem o').mp ho').1, rfl⟩
      · intro o ho o' ho' hid hne hst
        exact absurd (Table.eq_of_id ((hmem o').mp ho').1 ho hid ▸ hst) hne
      · intro o ho
        by_cases hid : o.id = op.id
        · have hoo : o = o₀ := Table.eq_of_id ho ho₀ (hid.trans hid₀.symm)
          refine .inr ⟨token, a, rfl, ha, hoo ▸ hst₀, hoo ▸ hown₀, ?_⟩
          rw [hk.agrees o ho hid]
          exact (h.sound token a ha).absent op (by rw [hop]; rfl)
        · exact .inl ⟨o, (hmem o).mpr ⟨ho, hid⟩, rfl⟩
    · exact moves_of_eq rfl
  | @markRemote token a op reviewId url ha hop =>
    by_cases hheld : ∃ o ∈ w.db.postOperations, heldBy op.id token o = true
    · obtain ⟨o₀, ho₀, hheld⟩ := hheld
      refine moves_update (p := heldBy op.id token) (f := remoteApplied reviewId url w.db.now)
        (fun _ => mem_markRemote_operations ho₀ hheld) (fun _ => rfl) ?_ ?_
      · intro o _ hp
        rw [status_of_heldBy hp]
        exact .inr rfl
      · intro o _ hp _ _
        simp only [heldBy, Bool.and_eq_true, beq_iff_eq] at hp
        exact ⟨token, rfl, hp.1.2, hp.2⟩
    · have hrun := run_markRemote op.id reviewId url token w.db
      rw [if_neg hheld] at hrun
      rw [hrun]
      exact moves_of_eq rfl
  | @markError token error a op _ _ =>
    exact moves_update (p := heldBy op.id token) (f := withError error w.db.now)
      (fun _ => mem_markError_operations) (fun _ => rfl) (fun _ _ _ => .inl rfl)
      (fun _ _ _ hst hne => absurd hst hne)
  | @finalize token a op reviewId url ha hop =>
    have ho := finalize_outcome (World.posting a op reviewId url) w.db
    generalize (finalizePosting (World.posting a op reviewId url)).run w.db = out at ho ⊢
    cases ho with
    | missing _ => exact moves_of_eq rfl
    | lost _ _ _ => exact moves_of_eq rfl
    | done _ _ =>
      refine moves_update (p := fun o => o.id == op.id) (f := succeeded w.db.now)
        (fun _ => mem_finalized_operations) (fun _ => rfl) ?_ ?_
      · intro o ho hp
        have happ := (h.sound token a ha).finishes op (by rw [hop]; rfl) o ho (beq_iff_eq.mp hp)
        rcases happ with hs | hs <;> rw [hs]
        · exact .inr rfl
        · exact .inl rfl
      · intro o _ _ hst
        cases hst
  | elsewhere hdb => exact moves_of_eq hdb
  | _ => exact moves_of_eq rfl

/-! ## The law -/

/-- What the posting of reviews promises in a state and of every step from it. -/
structure PostedOnce (w : World) : Prop where
  /-- The operations carry markers of postings. -/
  marked : ∀ o ∈ w.db.postOperations, ∃ r, o.marker = operationMarker r
  /-- At most one review of a pull request carries the marker of a posting. -/
  single : ∀ target r, ∀ v₁ ∈ w.reviews target, ∀ v₂ ∈ w.reviews target,
    operationMarker r <:+: v₁.body → operationMarker r <:+: v₂.body → v₁ = v₂
  moves : ∀ l w', w.Step l w' → Moves w l w'

/-- **A posting is on GitHub at most once.** In every run of any attempts, in any order and with
any crashes, in which a claim is only taken over from an attempt that has stopped and in which no
text quotes a marker. -/
theorem posted_once {w : World}
    (h : world.Reach (fun w l => w.Assumed l ∧ w.Unquoted l) w) : PostedOnce w := by
  have hinv : world.Inductive (fun w l => w.Assumed l ∧ w.Unquoted l) Once :=
    ⟨Once.init, fun hw hg hs => hw.step hg.1 hg.2 hs⟩
  have honce := hinv.reach h
  exact ⟨fun o ho => (honce.stored o ho).marked, honce.single, fun l w' hs => honce.moves hs⟩

/-! ## One posting and two -/

namespace World

/-- The world after a `prepare` that stores a new operation. -/
def prepareNew (w : World) (token : Text) (a : Attempt) : World :=
  (w.withDb (prepared a.request w.db)).enter token a (.prepared (preparedOperation a.request w.db))

/-- The world after a claim. -/
def claimNew (w : World) (token : Text) (a : Attempt) (op : PostOperation) : World :=
  (w.withDb { w.db with postOperations := claimedOperations op.id token w.db }).enter token a
    (.claimed op)

/-- The world after a search that finds nothing. -/
def searchInVain (w : World) (token : Text) (a : Attempt) (op : PostOperation) : World :=
  w.enter token a (.missing op)

/-- The world after the creation of a review. -/
def createNew (w : World) (token : Text) (a : Attempt) (op : PostOperation) : World :=
  (w.createReview a.request.target [] (fullBody op.body op.marker)).enter token a
    (.found op (Text.ofNat (w.reviews a.request.target).nextId) [])

variable {w : World} {token : Text} {a : Attempt} {op : PostOperation}

theorem step_prepareNew (ha : w.attempts token = some { a with phase := .begun })
    (hn : findOperation w.db (operationIdentity a.request).key = none)
    (hm : markerTaken w.db (operationIdentity a.request).marker = false)
    (hr : Reservable a.request w.db) : w.Step (.prepare token) (w.prepareNew token a) := by
  have hs := Step.prepare ha rfl
  have ho := prepare_outcome a.request w.db
  simp only at hs
  generalize (Post.prepare a.request).run w.db = out at ho hs
  cases ho with
  | existing he => cases hn.symm.trans he
  | taken _ hm' => cases hm.symm.trans hm'
  | conflict _ _ hr' _ => exact absurd hr hr'
  | new _ _ _ => exact hs

theorem step_claimNew (ha : w.attempts token = some { a with phase := .prepared op })
    (hst : op.status ≠ .remoteApplied) (hc : ((Post.claim op.id token).run w.db).1 = .ok true) :
    w.Step (.claim token) (w.claimNew token a op) := by
  have hs := Step.claim ha rfl hst
  rw [hc, run_claim] at hs
  exact hs

theorem step_searchInVain (a : Attempt) (op : PostOperation)
    (ha : w.attempts token = some { a with phase := .claimed op })
    (hnone : (w.reviews a.request.target).rows = []) :
    w.Step (.find token) (w.searchInVain token a op) := by
  have hs := Step.find ha rfl
  simp only [hnone] at hs
  exact hs

theorem step_createNew (a : Attempt) (op : PostOperation)
    (ha : w.attempts token = some { a with phase := .missing op })
    (hprev : a.prev = none) : w.Step (.write token) (w.createNew token a op) := by
  have hreuse : ({ a with phase := .missing op } : Attempt).reuse = none := by
    simp [Attempt.reuse, hprev]
  exact @Step.create w token { a with phase := .missing op } op [] ha (.inl ⟨rfl, hreuse⟩)

/-- A claim of an operation that no one holds takes nothing over. -/
theorem assumed_claim (a : Attempt) (op : PostOperation)
    (ha : w.attempts token = some { a with phase := .prepared op })
    (hfree : ∀ o ∈ w.db.postOperations, o.id = op.id → o.status ≠ .applying) :
    w.Assumed (.claim token) := by
  intro a' op' ha' hop' o ho hid hst
  rw [ha] at ha'
  cases ha'
  cases hop'
  exact absurd hst (hfree o ho hid)

end World

theorem reach_world {G : World → Label → Prop} {w w' : World} (l : Label)
    (h : world.Reach G w) (hg : G w l) (hs : w.Step l w') : world.Reach G w' :=
  .step h hg hs

/-- Before anything is posted. -/
def start (db : Db) : World := ⟨db, fun _ => .empty, fun _ => none⟩

theorem init_start {db : Db} (h : db.postOperations.rows = []) : world.init (start db) :=
  ⟨h, fun _ => rfl, fun _ => rfl⟩

/-! ### One posting -/

/-- The attempt that posts `firstRequest`. -/
def firstAttempt : Attempt := ⟨firstRequest, none, .begun⟩

def firstOperation : PostOperation := preparedOperation firstRequest (approve 1 reviewed)

def begun1 : World := (start (approve 1 reviewed)).enter "t".toList firstAttempt .begun

/-- The posting up to its claim. -/
def claimedWorld : World :=
  (begun1.prepareNew "t".toList firstAttempt).claimNew "t".toList firstAttempt firstOperation

/-- The posting with its review on GitHub. -/
def createdWorld : World :=
  (claimedWorld.searchInVain "t".toList firstAttempt firstOperation).createNew "t".toList
    firstAttempt firstOperation

theorem reservable_firstRequest : Reservable firstRequest (approve 1 reviewed) := by
  refine ⟨by decide +kernel, ?_⟩
  have hids : firstRequest.newIds = [1] := by decide +kernel
  rw [hids]
  intro i hi
  obtain rfl := List.mem_singleton.mp hi
  exact ⟨_, List.mem_cons_self, rfl⟩

theorem posted_once_created : PostedOnce createdWorld := by
  refine posted_once ?_
  have h₁ : world.Reach (fun w l => w.Assumed l ∧ w.Unquoted l) begun1 :=
    reach_world (.begin "t".toList 1 firstRequest) (.init (init_start rfl))
      ⟨trivial, unmarked_of_lead (by decide +kernel)⟩ (.begin rfl)
  have h₂ := reach_world (.prepare "t".toList) h₁ ⟨trivial, trivial⟩
    (step_prepareNew (a := firstAttempt) rfl rfl rfl reservable_firstRequest)
  have hfree : ∀ o ∈ (prepared firstRequest (approve 1 reviewed)).postOperations,
      o.id = firstOperation.id → o.status ≠ .applying := by
    intro o ho _
    have ho' : o ∈ [firstOperation] := ho
    rw [List.mem_singleton.mp ho']
    decide
  have h₃ := reach_world (.claim "t".toList) h₂
    ⟨assumed_claim firstAttempt firstOperation rfl hfree, trivial⟩
    (step_claimNew (a := firstAttempt) rfl (by decide) rfl)
  have h₄ := reach_world (.find "t".toList) h₃ ⟨trivial, trivial⟩
    (step_searchInVain firstAttempt firstOperation rfl rfl)
  exact reach_world (.write "t".toList) h₄ ⟨trivial, trivial⟩
    (step_createNew firstAttempt firstOperation rfl rfl)

/-! ### Two postings, of which the second quotes the marker of the first -/

/-- A finding of another vendor whose claim quotes the marker of the first posting. -/
def quotingFinding : Finding :=
  { pendingFinding 2 (operationMarker firstRequest) with
    vendor := "codex".toList, status := .approved }

def quotingDb : Db :=
  { reviewed with
    findings :=
      .ofRows [{ pendingFinding 1 "c1".toList with status := .approved }, quotingFinding] 3
      (by decide) (by decide) }

/-- Its request. -/
def quotingRequest : PostRequest :=
  (postRequests [] quotingDb 1).getLast (by decide +kernel)

def quotingAttempt : Attempt := ⟨quotingRequest, none, .begun⟩

/-- The database with the operation of `firstRequest`. -/
def quotingPrepared : Db := prepared firstRequest quotingDb

def firstQuoted : PostOperation := preparedOperation firstRequest quotingDb

def quotingOperation : PostOperation := preparedOperation quotingRequest quotingPrepared

theorem postRequests_quotingDb : postRequests [] quotingDb 1 = [firstRequest, quotingRequest] := by
  decide +kernel

set_option maxRecDepth 100000 in
theorem identity_quoting :
    (firstQuoted.operationKey == (operationIdentity quotingRequest).key) = false ∧
      (firstQuoted.marker == (operationIdentity quotingRequest).marker) = false := by
  decide +kernel

set_option maxRecDepth 100000 in
theorem marker_in_quotingRequest : operationMarker firstRequest <:+: quotingRequest.body := by
  decide +kernel

theorem reservable_quoting :
    Reservable firstRequest quotingDb ∧ Reservable quotingRequest quotingPrepared := by
  have h₁ : firstRequest.newIds = [1] := by decide +kernel
  have h₂ : quotingRequest.newIds = [2] := by decide +kernel
  unfold Reservable
  rw [h₁, h₂]
  refine ⟨⟨by decide, fun i hi => ?_⟩, ⟨by decide, fun i hi => ?_⟩⟩
  · obtain rfl := List.mem_singleton.mp hi
    exact ⟨_, List.mem_cons_self, by decide +kernel⟩
  · obtain rfl := List.mem_singleton.mp hi
    exact ⟨_, List.mem_cons_of_mem _ List.mem_cons_self, by decide +kernel⟩

/-- Each attempt posts a comment of the database, and no one else writes reviews. -/
def World.Served (w : World) : Label → Prop
  | .begin _ _ r => ∃ banner runId, r ∈ postRequests banner w.db runId
  | .others _ _ => False
  | _ => True

/-- Both attempts have begun. -/
def begun2 : World :=
  ((start quotingDb).enter "t".toList firstAttempt .begun).enter "u".toList quotingAttempt .begun

/-- Both operations are prepared. -/
def prepared2 : World :=
  (begun2.prepareNew "t".toList firstAttempt).prepareNew "u".toList quotingAttempt

/-- Both operations are claimed. -/
def claimed2 : World :=
  (prepared2.claimNew "t".toList firstAttempt firstQuoted).claimNew "u".toList quotingAttempt
    quotingOperation

/-- Neither attempt has found a review, and the first has created its own. -/
def created2 : World :=
  ((claimed2.searchInVain "t".toList firstAttempt firstQuoted).searchInVain "u".toList
    quotingAttempt quotingOperation).createNew "t".toList firstAttempt firstQuoted

/-- The second has created its own, too. -/
def quotedWorld : World := created2.createNew "u".toList quotingAttempt quotingOperation

theorem step_prepareQuoting : (begun2.prepareNew "t".toList firstAttempt).Step
    (.prepare "u".toList) prepared2 := by
  have hops : ∀ o ∈ quotingPrepared.postOperations, o = firstQuoted := by
    intro o ho
    have ho' : o ∈ [firstQuoted] := ho
    exact List.mem_singleton.mp ho'
  refine step_prepareNew (a := quotingAttempt) rfl ?_ ?_ reservable_quoting.2
  · exact Table.find?_eq_none.mpr fun o ho => hops o ho ▸ identity_quoting.1
  · have hnone : quotingPrepared.postOperations.find? (fun o => o.marker ==
        (operationIdentity quotingRequest).marker) = none :=
      Table.find?_eq_none.mpr fun o ho => hops o ho ▸ identity_quoting.2
    exact congrArg Option.isSome hnone

theorem reach_quotedWorld :
    world.Reach (fun w l => w.Assumed l ∧ w.Served l) quotedWorld := by
  have h₁ : world.Reach (fun w l => w.Assumed l ∧ w.Served l)
      ((start quotingDb).enter "t".toList firstAttempt .begun) :=
    reach_world (.begin "t".toList 1 firstRequest) (.init (init_start rfl))
      ⟨trivial, [], 1, postRequests_quotingDb ▸ List.mem_cons_self⟩ (.begin rfl)
  have h₂ : world.Reach (fun w l => w.Assumed l ∧ w.Served l) begun2 :=
    reach_world (.begin "u".toList 1 quotingRequest) h₁
      ⟨trivial, [], 1, postRequests_quotingDb ▸ List.mem_cons_of_mem _ List.mem_cons_self⟩
      (.begin rfl)
  have h₃ := reach_world (.prepare "t".toList) h₂ ⟨trivial, trivial⟩
    (step_prepareNew (a := firstAttempt) rfl rfl rfl reservable_quoting.1)
  have h₄ := reach_world (.prepare "u".toList) h₃ ⟨trivial, trivial⟩ step_prepareQuoting
  have hfree₁ : ∀ o ∈ prepared2.db.postOperations, o.id = firstQuoted.id →
      o.status ≠ .applying := by
    intro o ho _
    have ho' : o ∈ [firstQuoted, quotingOperation] := ho
    rcases List.mem_pair.mp ho' with rfl | rfl <;> decide
  have h₅ := reach_world (.claim "t".toList) h₄
    ⟨assumed_claim firstAttempt firstQuoted rfl hfree₁, trivial⟩
    (step_claimNew (a := firstAttempt) rfl (by decide) rfl)
  have hfree₂ : ∀ o ∈ (prepared2.claimNew "t".toList firstAttempt firstQuoted).db.postOperations,
      o.id = quotingOperation.id → o.status ≠ .applying := by
    intro o ho hid
    have ho' : o ∈ [applying "t".toList 0 firstQuoted, quotingOperation] := ho
    rcases List.mem_pair.mp ho' with rfl | rfl
    · exact absurd hid (by decide)
    · decide
  have h₆ := reach_world (.claim "u".toList) h₅
    ⟨assumed_claim quotingAttempt quotingOperation rfl hfree₂, trivial⟩
    (step_claimNew (a := quotingAttempt) rfl (by decide) rfl)
  have h₇ := reach_world (.find "t".toList) h₆ ⟨trivial, trivial⟩
    (step_searchInVain firstAttempt firstQuoted rfl rfl)
  have h₈ := reach_world (.find "u".toList) h₇ ⟨trivial, trivial⟩
    (step_searchInVain quotingAttempt quotingOperation rfl rfl)
  have h₉ := reach_world (.write "t".toList) h₈ ⟨trivial, trivial⟩
    (step_createNew firstAttempt firstQuoted rfl rfl)
  exact reach_world (.write "u".toList) h₉ ⟨trivial, trivial⟩
    (step_createNew quotingAttempt quotingOperation rfl rfl)

theorem mem_createNew {w : World} {token : Text} {a : Attempt} {op : PostOperation}
    {v : RemoteReview} : v ∈ (w.createNew token a op).reviews a.request.target ↔
      v ∈ w.reviews a.request.target ∨
        v = ⟨(w.reviews a.request.target).nextId, fullBody op.body op.marker, []⟩ := by
  simp only [createNew, createReview, withReviews, World.enter, if_true, Table.mem_insert]

/-- The comment of the second posting carries the marker of the first: two reviews carry it. -/
theorem posted_twice : ¬∀ w, world.Reach (fun w l => w.Assumed l ∧ w.Served l) w →
    ∀ o ∈ w.db.postOperations, ∀ target, ∀ v₁ ∈ w.reviews target, ∀ v₂ ∈ w.reviews target,
      o.marker <:+: v₁.body → o.marker <:+: v₂.body → v₁ = v₂ := by
  intro hall
  have htarget : quotingRequest.target = firstRequest.target := by decide +kernel
  have hop : applying "t".toList 0 firstQuoted ∈ quotedWorld.db.postOperations :=
    List.mem_cons_self
  obtain ⟨v₁, hv₁, hm₁⟩ : ∃ v ∈ created2.reviews firstRequest.target,
      operationMarker firstRequest <:+: v.body :=
    ⟨_, mem_createNew.mpr (.inr rfl), List.infix_append_right⟩
  obtain ⟨v₂, hv₂, hid, hm₂⟩ : ∃ v ∈ quotedWorld.reviews quotingRequest.target,
      v.id = (created2.reviews quotingRequest.target).nextId ∧
        operationMarker firstRequest <:+: v.body :=
    ⟨_, mem_createNew.mpr (.inr rfl), rfl, marker_in_quotingRequest.trans
      (List.infix_append_of_infix_left List.infix_append_left)⟩
  rw [← htarget] at hv₁
  have heq := hall quotedWorld reach_quotedWorld _ hop quotingRequest.target v₁
    (mem_createNew.mpr (.inl hv₁)) v₂ hv₂ hm₁ hm₂
  have hlt : v₁.id < (created2.reviews quotingRequest.target).nextId := Table.lt_nextId hv₁
  rw [heq, hid] at hlt
  exact lt_irrefl _ hlt

end Post
