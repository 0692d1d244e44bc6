import AlmightyReview.Lib.Lists
import AlmightyReview.Review.Rules

/-!
# Retries converge

What the attempts of a vendor at the chunks of a run add up to.

* `unresolvedOf`: the prompts whose outcome has to be made again. `unresolvedPrompts` computes their
  indexes whatever the prompts are (`unresolvedPrompts_index`).
* `latestReview_append`: the last attempt of an envelope is the one that was appended last.
* `Attempts`: the envelopes that a first review and any number of retries leave.
  `retries_converge`: a retry asks a vendor about exactly the chunks that it never resolved, the
  vendor is done when there are none, and no chunk is resolved twice.
-/

namespace Pipeline

open VendorTelemetry

/-! ## Prompts -/

theorem recordsFrom_index {i : Nat} {seen : Finset (Text × Nat)}
    {chunks : List (Text × SetDict Text Nat)}
    {out : List DiffFilter.DiffChunk × Finset (Text × Nat)}
    (h : DiffFilter.recordsFrom i seen chunks = .ok out) :
    out.1.map DiffFilter.DiffChunk.index = List.range' i out.1.length := by
  induction chunks generalizing i seen out with
  | nil =>
    cases h
    rfl
  | cons c cs ih =>
    unfold DiffFilter.recordsFrom at h
    dsimp only at h
    split at h
    · cases hr : DiffFilter.recordsFrom (i + 1) (seen ∪ c.2.freeze.pairs) cs with
      | error e =>
        rw [hr] at h
        cases h
      | ok r =>
        rw [hr] at h
        cases h
        rw [List.map_cons, ih hr, List.length_cons, List.range'_succ]
    · cases h

/-- The chunks of a diff are numbered. -/
theorem chunkRecords_index {diff : Text} {budget : Nat} {chunks : List DiffFilter.DiffChunk}
    (h : DiffFilter.chunkRecordsByBudget diff budget = .ok chunks) :
    chunks.map DiffFilter.DiffChunk.index = List.range chunks.length := by
  unfold DiffFilter.chunkRecordsByBudget at h
  split at h
  · cases h
  split at h
  · cases h
    rfl
  obtain ⟨blocks, -, h⟩ := Exc.bind_ok h
  obtain ⟨pieces, -, h⟩ := Exc.bind_ok h
  obtain ⟨⟨records, seen⟩, hr, h⟩ := Exc.bind_ok h
  obtain ⟨expected, -, h⟩ := Exc.bind_ok h
  split at h
  · cases h
    rw [List.range_eq_range']
    exact recordsFrom_index hr
  · cases h

/-- The prompts of a review are numbered. -/
theorem buildPromptChunks_index {pr : PullRequest} {diff context : Text}
    {contexts : Option (List (Text × Text))} {nonces : Nat → Option Text}
    {prompts : List PromptChunk}
    (h : buildPromptChunks pr diff context contexts nonces = .ok prompts) :
    prompts.map PromptChunk.index = List.range prompts.length := by
  obtain ⟨chunks, hc, h⟩ := Exc.bind_ok h
  have hall := forall₂_of_mapM h
  have hmap : List.Forall₂ (· = ·) (prompts.map PromptChunk.index)
      (chunks.map DiffFilter.DiffChunk.index) := by
    refine List.forall₂_map_left_iff.mpr (List.forall₂_map_right_iff.mpr ?_)
    refine hall.flip.imp fun p c hp => ?_
    obtain ⟨nonce, -, hp⟩ := Exc.bind_ok hp
    cases hp
    rfl
  rw [List.forall₂_eq_eq_eq] at hmap
  rw [hmap, chunkRecords_index hc, hall.length_eq]

/-! ## Chunks that are not resolved -/

/-- The indexes of the chunks that have to be reviewed again. -/
def unresolvedOf (chunks : List ExecutionChunk) : List Nat :=
  (chunks.filter isUnresolved).map ExecutionChunk.index

theorem unresolvedPrompts_index {prompts : List PromptChunk} {saved : List ExecutionChunk}
    {chunks : List PromptChunk} (h : unresolvedPrompts prompts saved = .ok chunks) :
    chunks.map PromptChunk.index = unresolvedOf saved := by
  induction saved generalizing chunks with
  | nil =>
    cases h
    rfl
  | cons c cs ih =>
    unfold unresolvedPrompts at h
    split at h
    · cases h
    rename_i candidate hfind
    split at h
    · obtain ⟨retry, hretry, h⟩ := Exc.bind_ok h
      cases h
      have hindex : candidate.index = c.index := by simpa using List.find?_some hfind
      unfold unresolvedOf
      by_cases hc : isUnresolved c = true
      · rw [if_pos hc, List.filter_cons_of_pos hc, List.map_cons, List.map_cons, hindex, ih hretry]
        rfl
      · rw [if_neg hc, List.filter_cons_of_neg hc, ih hretry]
        rfl
    · cases h

/-- **A retry** asks about the chunks that the last attempt did not resolve. -/
theorem retryPromptChunks_index {e : ExecutionEnvelope} {a : ExecutionAttempt}
    {prompts chunks : List PromptChunk} (ha : latestReview e = some a)
    (h : retryPromptChunks (some e) prompts = .ok chunks) :
    chunks.map PromptChunk.index = unresolvedOf a.chunks := by
  unfold retryPromptChunks at h
  rw [Option.bind_some, ha] at h
  exact unresolvedPrompts_index h

theorem records_index {prompts : List PromptChunk} {chunks : List ExecutionChunk}
    (h : List.Forall₂ Records prompts chunks) :
    chunks.map ExecutionChunk.index = prompts.map PromptChunk.index := by
  induction h with
  | nil => rfl
  | cons hr _ ih => rw [List.map_cons, List.map_cons, hr.index, ih]

/-! ## Attempts -/

theorem validateAttempts_increasing {previous : Nat} {as : List ExecutionAttempt}
    (h : validateAttempts previous as = .ok ()) :
    (∀ a ∈ as, previous < a.attempt) ∧ as.Pairwise fun a b => a.attempt < b.attempt := by
  induction as generalizing previous with
  | nil => exact ⟨fun a ha => (by cases ha), .nil⟩
  | cons a as ih =>
    obtain ⟨u, hlt, h⟩ := Exc.bind_ok h
    obtain ⟨u', -, h⟩ := Exc.bind_ok h
    obtain ⟨u'', -, h⟩ := Exc.bind_ok h
    obtain ⟨hgt, hpair⟩ := ih h
    have hlt : previous < a.attempt := by simpa using reject_ok hlt
    refine ⟨fun b hb => ?_, List.pairwise_cons.mpr ⟨hgt, hpair⟩⟩
    rcases List.mem_cons.mp hb with rfl | hb
    · exact hlt
    · exact hlt.trans (hgt b hb)

/-- The attempts of a valid envelope are in order. -/
theorem validate_increasing {e : ExecutionEnvelope} (h : validateExecutionEnvelope e = .ok ()) :
    e.attempts.Pairwise fun a b => a.attempt < b.attempt := by
  obtain ⟨u, -, h⟩ := Exc.bind_ok h
  obtain ⟨u', -, h⟩ := Exc.bind_ok h
  obtain ⟨u'', ha, -⟩ := Exc.bind_ok h
  exact (validateAttempts_increasing ha).2

/-- The last of attempts that are in order. -/
theorem head?_latest {as : List ExecutionAttempt} {a : ExecutionAttempt}
    (h : (as ++ [a]).Pairwise fun a b => a.attempt < b.attempt) :
    ((as ++ [a]).insertionSort fun a b => b.attempt ≤ a.attempt).head? = some a := by
  have hperm := List.perm_insertionSort (fun a b : ExecutionAttempt => b.attempt ≤ a.attempt)
    (as ++ [a])
  have hsorted : ((as ++ [a]).insertionSort fun a b => b.attempt ≤ a.attempt).Pairwise
      fun a b => b.attempt ≤ a.attempt := List.pairwise_insertionSort _ _
  have hmem : a ∈ (as ++ [a]).insertionSort fun a b => b.attempt ≤ a.attempt :=
    hperm.mem_iff.mpr (List.mem_append_right _ List.mem_cons_self)
  cases hs : (as ++ [a]).insertionSort fun a b => b.attempt ≤ a.attempt with
  | nil =>
    rw [hs] at hmem
    cases hmem
  | cons b bs =>
    rw [hs] at hsorted hmem hperm
    rcases List.mem_cons.mp hmem with rfl | hmem
    · rfl
    -- the first one is not before the last one
    have hle : a.attempt ≤ b.attempt := (List.pairwise_cons.mp hsorted).1 a hmem
    rcases List.mem_append.mp (hperm.mem_iff.mp List.mem_cons_self) with hb | hb
    · have hlt := (List.pairwise_append.mp h).2.2 b hb a List.mem_cons_self
      exact absurd hle (Nat.not_le.mpr hlt)
    · rw [List.mem_singleton.mp hb]
      rfl

/-- **The last attempt at a review** is the one that was appended last. -/
theorem latestReview_append {e : ExecutionEnvelope} {as vs : List ExecutionAttempt}
    {a : ExecutionAttempt} (hvalid : validateExecutionEnvelope e = .ok ())
    (he : e.attempts = as ++ a :: vs) (ha : a.phase = .review) (hv : ∀ v ∈ vs, v.phase = .verify) :
    latestReview e = some a := by
  have hreview : reviewAttempts e = as.filter (·.phase == .review) ++ [a] := by
    have hvs : vs.filter (·.phase == .review) = [] :=
      List.filter_eq_nil_iff.mpr fun v hv' => by simp [hv v hv']
    unfold reviewAttempts
    rw [he, List.filter_append, List.filter_cons_of_pos (by simp [ha]), hvs]
  have hpair := (validate_increasing hvalid).filter (·.phase == .review)
  unfold latestReview
  rw [hreview]
  refine head?_latest ?_
  rw [← hreview]
  exact hpair

/-- The envelope of an attempt is the attempt, and the verification of its findings. -/
theorem attemptEnvelope_ok {r : VendorRunResult} {i : ExecutionIdentity} {n : Nat}
    {e : ExecutionEnvelope} (h : attemptEnvelope r i n = .ok e) :
    ∃ vs, e.attempts = ⟨n, .review, r.chunks⟩ :: vs ∧ ∀ v ∈ vs, v.phase = .verify := by
  obtain ⟨envelope, henv, h⟩ := Exc.bind_ok h
  have hattempts : envelope.attempts = [⟨n, .review, r.chunks⟩] := by
    unfold vendorExecutionEnvelope at henv
    split at henv
    · rw [(build_ok henv).1]
    · cases henv
  split at h
  · cases h
    exact ⟨[], hattempts, fun v hv => by cases hv⟩
  · obtain ⟨verified, hver, h⟩ := Exc.bind_ok h
    cases h
    refine ⟨verified.attempts, by rw [hattempts]; rfl, fun v hv => ?_⟩
    rw [(build_ok hver).1] at hv
    rw [List.mem_singleton.mp hv]

/-! ## Outcomes -/

/-- How often a chunk was resolved in attempts at its review. -/
def timesResolved (attempts : List ExecutionAttempt) (index : Nat) : Nat :=
  ((attempts.filter (·.phase == .review)).flatMap ExecutionAttempt.chunks).countP
    fun c => c.index == index && c.status == .done

/-- The envelopes and the status that a vendor has after its review of the chunks of a run, and
after any number of retries; each attempt is at the prompts that were to be reviewed. -/
inductive Attempts (total : Nat) : ExecutionEnvelope → VendorStatus → Prop
  | first {pr : PullRequest} {diff context : Text} {contexts : Option (List (Text × Text))}
    {nonces : Nat → Option Text} {prompts : List PromptChunk} {row : VendorRow}
    {r : VendorRunResult} {n : Nat} {addition e : ExecutionEnvelope} :
    buildPromptChunks pr diff context contexts nonces = .ok prompts → prompts.length = total →
    Ran row prompts r → attemptEnvelope r row.identity n = .ok addition →
    appendExecutionAttempt none addition = .ok e → Attempts total e r.status
  | retry {e : ExecutionEnvelope} {s : VendorStatus} {prompts chunks : List PromptChunk}
    {row : VendorRow} {r : VendorRunResult} {n : Nat} {addition e' : ExecutionEnvelope} :
    Attempts total e s → retryPromptChunks (some e) prompts = .ok chunks → Ran row chunks r →
    attemptEnvelope r row.identity n = .ok addition →
    appendExecutionAttempt (some e) addition = .ok e' → Attempts total e' r.status

/-- What the attempts add up to. -/
structure Tracks (total : Nat) (e : ExecutionEnvelope) (s : VendorStatus) : Prop where
  latest : ∃ a, latestReview e = some a ∧ s = runStatus a.chunks ∧
    (a.chunks.map ExecutionChunk.index).Nodup ∧ (∀ c ∈ a.chunks, c.status ≠ .canceled) ∧
    ∀ i, i ∈ unresolvedOf a.chunks ↔ i < total ∧ timesResolved e.attempts i = 0
  once : ∀ i, timesResolved e.attempts i ≤ 1

theorem timesResolved_append {as vs : List ExecutionAttempt} {n : Nat}
    {chunks : List ExecutionChunk}
    (hv : ∀ v ∈ vs, v.phase = .verify) (i : Nat) :
    timesResolved (as ++ ⟨n, .review, chunks⟩ :: vs) i =
      timesResolved as i + chunks.countP fun c => c.index == i && c.status == .done := by
  have hvs : vs.filter (·.phase == .review) = [] :=
    List.filter_eq_nil_iff.mpr fun v hv' => by simp [hv v hv']
  unfold timesResolved
  rw [List.filter_append, List.filter_cons_of_pos (by rfl), hvs, List.flatMap_append,
    List.countP_append]
  simp

section Outcomes

variable {chunks : List ExecutionChunk} {i : Nat}

/-- A chunk has one outcome in an attempt. -/
theorem count_resolved_le (h : (chunks.map ExecutionChunk.index).Nodup) :
    (chunks.countP fun c => c.index == i && c.status == .done) ≤ 1 := by
  calc (chunks.countP fun c => c.index == i && c.status == .done)
      ≤ chunks.countP fun c => c.index == i := List.countP_mono_left fun c _ hc => by
        simp only [Bool.and_eq_true] at hc
        exact hc.1
    _ = (chunks.map ExecutionChunk.index).count i := by
        rw [List.count, List.countP_map]
        rfl
    _ ≤ 1 := List.nodup_iff_count_le_one.mp h i

/-- The chunks of an attempt that have to be reviewed again are those that it did not resolve. -/
theorem mem_unresolvedOf (h : (chunks.map ExecutionChunk.index).Nodup)
    (hc : ∀ c ∈ chunks, c.status ≠ .canceled) :
    i ∈ unresolvedOf chunks ↔ i ∈ chunks.map ExecutionChunk.index ∧
      (chunks.countP fun c => c.index == i && c.status == .done) = 0 := by
  simp only [unresolvedOf, List.mem_map, List.mem_filter, List.countP_eq_zero, Bool.and_eq_true,
    beq_iff_eq, not_and]
  constructor
  · rintro ⟨c, ⟨hmem, hu⟩, rfl⟩
    refine ⟨⟨c, hmem, rfl⟩, fun d hd hid hdone => ?_⟩
    obtain rfl := List.inj_on_of_nodup_map h hd hmem hid
    simp [isUnresolved, hdone] at hu
  · rintro ⟨⟨c, hmem, rfl⟩, hnone⟩
    refine ⟨c, ⟨hmem, ?_⟩, rfl⟩
    have hdone := hnone c hmem rfl
    have hcanceled := hc c hmem
    unfold isUnresolved
    cases hs : c.status <;> simp_all

/-- A vendor is done when it resolved every chunk. -/
theorem runStatus_done (hc : ∀ c ∈ chunks, c.status ≠ .canceled) :
    runStatus chunks = .done ↔ unresolvedOf chunks = [] := by
  have hcount : runStatus chunks = .done ↔ chunks.countP (·.status == .done) = chunks.length := by
    unfold runStatus
    dsimp only
    split
    · rename_i heq
      exact ⟨fun _ => heq, fun _ => rfl⟩
    · rename_i hne
      refine ⟨fun h => ?_, fun h => absurd h hne⟩
      split at h
      · cases h
      split at h <;> cases h
  rw [hcount, List.countP_eq_length, unresolvedOf, List.map_eq_nil_iff, List.filter_eq_nil_iff]
  refine forall₂_congr fun c hmem => ?_
  have hcanceled := hc c hmem
  unfold isUnresolved
  cases hs : c.status <;> simp_all

end Outcomes

/-- **An attempt** at exactly the chunks that were not resolved before. -/
theorem tracks_append {total n : Nat} {e : ExecutionEnvelope} {as vs : List ExecutionAttempt}
    {chunks : List ExecutionChunk} (hvalid : validateExecutionEnvelope e = .ok ())
    (he : e.attempts = as ++ ⟨n, .review, chunks⟩ :: vs) (hv : ∀ v ∈ vs, v.phase = .verify)
    (hnodup : (chunks.map ExecutionChunk.index).Nodup) (hc : ∀ c ∈ chunks, c.status ≠ .canceled)
    (hindex : ∀ i, i ∈ chunks.map ExecutionChunk.index ↔ i < total ∧ timesResolved as i = 0)
    (honce : ∀ i, timesResolved as i ≤ 1) : Tracks total e (runStatus chunks) where
  latest := by
    refine ⟨_, latestReview_append hvalid he rfl hv, rfl, hnodup, hc, fun i => ?_⟩
    rw [mem_unresolvedOf hnodup hc, hindex, he, timesResolved_append hv, Nat.add_eq_zero_iff,
      and_assoc]
  once i := by
    rw [he, timesResolved_append hv]
    by_cases hi : i ∈ chunks.map ExecutionChunk.index
    · rw [((hindex i).mp hi).2, Nat.zero_add]
      exact count_resolved_le hnodup
    · have hnone : (chunks.countP fun c => c.index == i && c.status == .done) = 0 := by
        refine List.countP_eq_zero.mpr fun c hmem hci => hi ?_
        simp only [Bool.and_eq_true, beq_iff_eq] at hci
        exact hci.1 ▸ List.mem_map_of_mem hmem
      rw [hnone]
      exact honce i

theorem Ran.canceled {row : VendorRow} {prompts : List PromptChunk} {r : VendorRunResult}
    (h : Ran row prompts r) : ∀ c ∈ r.chunks, c.status ≠ .canceled := by
  intro c hc
  obtain ⟨p, -, hr⟩ := forall₂_mem_right h.chunks c hc
  exact hr.status

/-! ## What a policy counts -/

/-- An outcome without what the policies count. -/
def uncounted (c : ExecutionChunk) : ExecutionChunk := { c with
  scopeReassigned := 0
  scopeRejected := 0
  duplicateGroups := 0 }

theorem Records.of_uncounted {p : PromptChunk} {c c' : ExecutionChunk}
    (hc : uncounted c' = uncounted c) (h : Records p c) : Records p c' where
  index := (congrArg ExecutionChunk.index hc).trans h.index
  chunkHash := (congrArg ExecutionChunk.chunkHash hc).trans h.chunkHash
  contextHash := (congrArg ExecutionChunk.contextHash hc).trans h.contextHash
  chunkerVersion := (congrArg ExecutionChunk.chunkerVersion hc).trans h.chunkerVersion
  promptNonce := (congrArg ExecutionChunk.promptNonce hc).trans h.promptNonce
  status := by
    have hs : (uncounted c').status = (uncounted c).status := congrArg ExecutionChunk.status hc
    exact fun he => h.status (hs.symm.trans he)

theorem records_of_uncounted {prompts : List PromptChunk} {cs cs' : List ExecutionChunk}
    (h : List.Forall₂ Records prompts cs) (hc : cs'.map uncounted = cs.map uncounted) :
    List.Forall₂ Records prompts cs' := by
  induction h generalizing cs' with
  | nil =>
    obtain rfl := List.map_eq_nil_iff.mp hc
    exact .nil
  | cons hr _ ih =>
    cases cs' with
    | nil => cases hc
    | cons c' cs' =>
      obtain ⟨hc, hcs⟩ := List.cons.inj hc
      exact .cons (hr.of_uncounted hc) (ih hcs)

theorem runStatus_uncounted (chunks : List ExecutionChunk) :
    runStatus (chunks.map uncounted) = runStatus chunks := by
  have hdone : (chunks.map uncounted).countP (·.status == .done) =
      chunks.countP (·.status == .done) := List.countP_map
  have htimeout : (chunks.map uncounted).all (·.status == .timeout) =
      chunks.all (·.status == .timeout) := List.all_map
  unfold runStatus
  simp only [hdone, htimeout, List.length_map, ne_eq, List.map_eq_nil_iff]

theorem uncounted_changeChunk {f : ExecutionChunk → ExecutionChunk}
    (hf : ∀ c, uncounted (f c) = uncounted c) (index : Option Nat) (chunks : List ExecutionChunk) :
    (FindingPolicy.changeChunk index f chunks).map uncounted = chunks.map uncounted := by
  induction chunks with
  | nil => rfl
  | cons c cs ih =>
    unfold FindingPolicy.changeChunk
    split
    · rw [List.map_cons, List.map_cons, hf]
    · rw [List.map_cons, List.map_cons, ih]

theorem uncounted_scopeFinding (prompts : List PromptChunk) (mode : Text) (f : ReviewFinding)
    (c : ExecutionChunk) :
    uncounted ((FindingPolicy.scopeFinding prompts mode f).counts c) = uncounted c := by
  unfold FindingPolicy.scopeFinding
  dsimp only
  split
  · rfl
  · split <;> rfl

/-- The scope of findings changes only what a chunk counts. -/
theorem uncounted_scopeResult (prompts : List PromptChunk) (mode : Text) (r : VendorRunResult) :
    (FindingPolicy.scopeResult prompts mode r).chunks.map uncounted = r.chunks.map uncounted := by
  have hfold : ∀ (fs : List ReviewFinding) (cs : List ExecutionChunk),
      ((fs.map (FindingPolicy.scopeFinding prompts mode)).foldl (fun cs s =>
        FindingPolicy.changeChunk s.finding.sourceChunkIndex s.counts cs) cs).map uncounted =
          cs.map uncounted := by
    intro fs
    induction fs with
    | nil => exact fun _ => rfl
    | cons f fs ih =>
      intro cs
      rw [List.map_cons, List.foldl_cons, ih,
        uncounted_changeChunk (uncounted_scopeFinding prompts mode f)]
  exact hfold r.findings r.chunks

theorem Ran.scoped {row : VendorRow} {prompts : List PromptChunk} {r : VendorRunResult}
    (h : Ran row prompts r) (all : List PromptChunk) (mode : Text) :
    Ran row prompts (FindingPolicy.scopeResult all mode r) where
  vendor := h.vendor
  chunks := records_of_uncounted h.chunks (uncounted_scopeResult all mode r)
  status := by
    show r.status = _
    rw [← runStatus_uncounted, uncounted_scopeResult, runStatus_uncounted]
    exact h.status

/-- **What a retry stores** are outcomes of the chunks that its vendors had. -/
theorem Retries.ran {g : Execution} {b : Rebuilt} {e : RetryEnding} (h : Retries g b e) :
    ∃ chunks, b.Matches g.told chunks ∧
      List.Forall₂ (fun p r => Ran (Prod.fst p) (Prod.snd p) r) (b.active chunks) e.results := by
  obtain ⟨chunks, raw, hm, hran, hscope⟩ := h.results
  refine ⟨chunks, hm, ?_⟩
  unfold FindingPolicy.applyFindingScope at hscope
  split at hscope
  · rw [← Except.ok.inj hscope]
    exact List.forall₂_map_right_iff.mpr (hran.imp fun p r hr => hr.scoped _ _)
  · cases hscope

/-! ## Any number of retries -/

/-- **Every attempt** is tracked. -/
theorem Attempts.tracks {total : Nat} {e : ExecutionEnvelope} {s : VendorStatus}
    (h : Attempts total e s) : Tracks total e s := by
  induction h with
  | first hprompts htotal hran hadd happ =>
    obtain ⟨vs, hvs, hv⟩ := attemptEnvelope_ok hadd
    obtain ⟨hvalid, rfl⟩ : validateExecutionEnvelope _ = .ok () ∧ _ = _ := append_ok happ
    have hindex := (records_index hran.chunks).trans (buildPromptChunks_index hprompts)
    have hattempts := hvs.trans (List.nil_append _).symm
    rw [hran.status]
    refine tracks_append hvalid hattempts hv ?_ hran.canceled (fun i => ?_) fun i => ?_
    · rw [hindex]
      exact List.nodup_range
    · rw [hindex, List.mem_range, htotal]
      exact (and_iff_left rfl).symm
    · exact Nat.zero_le 1
  | retry _ hretry hran hadd happ ih =>
    obtain ⟨vs, hvs, hv⟩ := attemptEnvelope_ok hadd
    obtain ⟨hvalid, -, -, hattempts⟩ := append_ok happ
    obtain ⟨⟨a, ha, -, hnodup, hc, hmem⟩, honce⟩ := ih
    have hindex := (records_index hran.chunks).trans (retryPromptChunks_index ha hretry)
    rw [hran.status]
    refine tracks_append hvalid (hattempts.trans (by rw [hvs])) hv ?_ hran.canceled (fun i => ?_)
      honce
    · rw [hindex]
      exact (hnodup.sublist (List.filter_sublist.map _))
    · rw [hindex]
      exact hmem i

/-- **Retries converge.** Whatever happened in the attempts so far, a retry asks a vendor about
exactly the chunks that it has never resolved; the vendor is done when it has resolved all; and it
never resolves a chunk twice. -/
theorem retries_converge {total : Nat} {e : ExecutionEnvelope} {s : VendorStatus}
    (h : Attempts total e s) :
    (∀ prompts chunks, retryPromptChunks (some e) prompts = .ok chunks →
      ∀ i, i ∈ chunks.map PromptChunk.index ↔ i < total ∧ timesResolved e.attempts i = 0) ∧
    (s = .done ↔ ∀ i < total, timesResolved e.attempts i = 1) ∧
    ∀ i, timesResolved e.attempts i ≤ 1 := by
  obtain ⟨⟨a, ha, rfl, hnodup, hc, hmem⟩, honce⟩ := h.tracks
  refine ⟨fun prompts chunks hretry i => ?_, ?_, honce⟩
  · rw [retryPromptChunks_index ha hretry]
    exact hmem i
  · rw [runStatus_done hc, List.eq_nil_iff_forall_not_mem]
    refine forall_congr' fun i => ?_
    rw [hmem i]
    have := honce i
    omega

/-- A pull request that adds one line. -/
def oneLine : PullRequest where
  id := 1
  repoId := 1
  number := 1
  title := none
  author := none
  headSha := "a".toList
  baseRef := none
  baseSha := none
  state := .opened
  url := none
  createdAt := none
  headRef := none
  body := none
  isDraft := false
  lastReviewedSha := none
  updatedAt := none

def oneLineDiff : Text := "diff --git a/x b/x\n--- a/x\n+++ b/x\n@@ -0,0 +1 @@\n+x\n".toList

def zeroIdentity : ExecutionIdentity where
  protocolVersion := "v1".toList
  vendor := "claude".toList
  model := []
  effort := []
  promptHash := List.replicate 64 '0'
  harnessConfigHash := List.replicate 64 '0'
  adapterName := []
  adapterVersion := []
  adapterConfigHash := List.replicate 64 '0'
  cliVersion := "1".toList
  eventSchemaVersion := []
  diffHash := List.replicate 64 '0'
  contextHash := List.replicate 64 '0'
  chunkerVersion := []
  scopePolicyMode := "observe".toList
  dedupePolicyMode := "observe".toList
  policyDecisionHash := List.replicate 64 '0'
  policyConfigHash := List.replicate 64 '0'

/-- The attempt of a vendor without credentials at the one chunk. -/
def oneFailure : Except Exc (List PromptChunk × ExecutionEnvelope) := do
  let prompts ← buildPromptChunks oneLine oneLineDiff [] none fun _ => some (List.replicate 8 '0')
  let addition ← attemptEnvelope
    (runtimeFailureResult "claude".toList prompts "auth".toList) zeroIdentity 1
  let e ← appendExecutionAttempt none addition
  pure (prompts, e)

theorem retries_converge_oneFailure : ∃ e, Attempts 1 e .failed ∧
    (∀ prompts chunks, retryPromptChunks (some e) prompts = .ok chunks →
      ∀ i, i ∈ chunks.map PromptChunk.index ↔ i < 1 ∧ timesResolved e.attempts i = 0) ∧
    (VendorStatus.failed = .done ↔ ∀ i < 1, timesResolved e.attempts i = 1) ∧
    ∀ i, timesResolved e.attempts i ≤ 1 := by
  have hone : oneFailure.toOption.map (·.1.length) = some 1 := by decide +kernel
  cases hp : oneFailure with
  | error e =>
    rw [hp] at hone
    cases hone
  | ok p =>
    rw [hp] at hone
    have hlength : p.1.length = 1 := Option.some.inj hone
    obtain ⟨prompts, hprompts, h⟩ := Exc.bind_ok hp
    obtain ⟨addition, hadd, h⟩ := Exc.bind_ok h
    obtain ⟨e, happ, h⟩ := Exc.bind_ok h
    cases h
    have hne : prompts ≠ [] := by
      rintro rfl
      cases hlength
    have hran : Ran ⟨"claude".toList, 1, zeroIdentity⟩ prompts
        (runtimeFailureResult "claude".toList prompts "auth".toList) :=
      runtimeFailureResult_ran hne rfl _
    have hattempts : Attempts 1 e .failed := .first hprompts hlength hran hadd happ
    exact ⟨e, hattempts, retries_converge hattempts⟩

end Pipeline
