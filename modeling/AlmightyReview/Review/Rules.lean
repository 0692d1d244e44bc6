import AlmightyReview.Review.History
import AlmightyReview.Review.Signals

/-!
# Rules of the contract

How the programs of the pipeline obey their contract, operation by operation.

* `obeys_read`, `obeys_write`, `obeys_ext`: one operation.
* `obeys_within`: what is entered and left does not change a history.
* `Tells g V`: a part that is told something from outside, and changes nothing else of the history
  `g`. The diffs are (`fullDiff_tells`).
* `Asks I ad prompts`: under `I` a vendor may be asked about prompts. `runVendor_asked`: its run
  keeps `I`, and gives an outcome for each prompt (`Ran`).
-/

namespace Pipeline

open Prog

variable {α β : Type} {g : Execution} {Q : Execution → Except Exc α → Prop}

/-! ## Operations -/

theorem obeys_read {q : Read β} {Q : Execution → Except Exc β → Prop}
    (hok : ∀ db, Q (g.afterRead q (q.query db)) (.ok (q.query db)))
    (herr : ∀ m, Q { g with dbFailed := true } (.error (.operationalError m))) :
    Obeys contract Q g (read q) := by
  refine obeys_perform trivial ?_
  rintro r ⟨db, db', hexec⟩
  cases r with
  | ok b =>
    obtain ⟨-, h | ⟨m, h⟩⟩ := hexec
    · cases h
      exact hok db
    · cases h
  | error e =>
    obtain ⟨m, rfl⟩ := exec_read_error hexec
    exact herr m

theorem obeys_ext {q : Ext β} {Q : Execution → Except Exc β → Prop} (ha : g.AllowsExt q)
    (hok : ∀ b, q.Answers (.ok b) → Q { g with told := g.told.ext q b } (.ok b))
    (herr : ∀ e, Quiet e → Q g (.error e)) : Obeys contract Q g (ext q) := by
  refine obeys_perform ha ?_
  rintro r ⟨db, db', hexec⟩
  cases r with
  | ok b => exact hok b hexec.2
  | error e => exact herr e (exec_ext_error hexec)

/-- A transaction, of which it is known what it raises. -/
theorem obeys_write {q : Write β} {Q : Execution → Except Exc β → Prop} {P : Exc → Prop}
    (ha : g.AllowsWrite q)
    (hP : ∀ {db db' e}, Op.Exec (.write q) db (.error e) db' → P e)
    (hok : ∀ b, Q (g.afterWrite q b) (.ok b)) (herr : ∀ e, P e → Q (g.raised e) (.error e)) :
    Obeys contract Q g (write q) := by
  refine obeys_perform ha ?_
  rintro r ⟨db, db', hexec⟩
  cases r with
  | ok b => exact hok b
  | error e => exact herr e (hP hexec)

/-! ## Resources -/

/-- What is entered is no part of a history. -/
theorem obeys_enter_bind {r : Resource} {f : Unit → Review α}
    (hok : Obeys contract Q g (f ())) (herr : ∀ e, Quiet e → Q g (.error e)) :
    Obeys contract Q g (ext (.enter r) >>= f) := by
  refine obeys_perform_bind trivial (fun _ _ => hok) ?_
  rintro e ⟨db, db', hexec⟩
  exact herr e (exec_ext_error hexec)

theorem obeys_exit_bind {r : Resource} {f : Unit → Review α}
    (hok : Obeys contract Q g (f ())) (herr : ∀ e, Quiet e → Q g (.error e)) :
    Obeys contract Q g (ext (.exit r) >>= f) := by
  refine obeys_perform_bind trivial (fun _ _ => hok) ?_
  rintro e ⟨db, db', hexec⟩
  exact herr e (exec_ext_error hexec)

/-- `with r: p`; entering or leaving may raise. -/
theorem obeys_within {r : Resource} {p : Review α} (hp : Obeys contract Q g p)
    (henter : ∀ e, Quiet e → Q g (.error e))
    (hexit : ∀ g' a e, Q g' a → Quiet e → Q g' (.error e)) :
    Obeys contract Q g (within r p) := by
  refine obeys_enter_bind ?_ henter
  refine obeys_bind (P := Q) (obeys_tryCatch hp (fun _ _ h => h) fun g' e h => ?_)
    (fun g' a h => ?_) fun _ _ h => h
  · exact obeys_exit_bind (obeys_throw h) fun e' he => hexit g' _ e' h he
  · exact obeys_exit_bind (obeys_pure h) fun e' he => hexit g' _ e' h he

/-- The credentials of a vendor; an error of the cleanup is hidden by one of the body. -/
theorem obeys_withCredentials {vendor : Text} {p : Review α} (hp : Obeys contract Q g p)
    (henter : ∀ e, Quiet e → Q g (.error e))
    (hexit : ∀ g' a e, Q g' (.ok a) → Quiet e → Q g' (.error e)) :
    Obeys contract Q g (withCredentials vendor p) := by
  refine obeys_enter_bind ?_ henter
  refine obeys_bind (P := Q) (obeys_tryCatch hp (fun _ _ h => h) fun g' e h => ?_)
    (fun g' a h => ?_) fun _ _ h => h
  · have hcleanup : Obeys contract (fun g'' a => g'' = g' ∧ a = .ok ()) g'
        (tryCatch (ext (.exit (.credentials vendor))) fun _ => pure ()) := by
      refine obeys_tryCatch (R := fun g'' _ => g'' = g')
        (obeys_ext trivial (fun _ _ => rfl) fun _ _ => rfl) (fun _ _ hg => ⟨hg, rfl⟩) ?_
      exact fun _ _ hg => obeys_pure ⟨hg, rfl⟩
    refine obeys_bind hcleanup (fun g'' _ hg => ?_) fun _ _ hg => by cases hg.2
    rw [hg.1]
    exact obeys_throw h
  · exact obeys_exit_bind (obeys_pure h) fun e' he => hexit g' _ e' h he

/-! ## Diffs -/

/-- A part has only been told something; the result meets `V` with what it was told. What it raises
is no signal. -/
def Tells (g : Execution) (V : Told → α → Prop) (g' : Execution) : Except Exc α → Prop
  | .ok a => ∃ t, g' = { g with told := t } ∧ V t a
  | .error e => (∃ t, g' = { g with told := t }) ∧ Quiet e

theorem tells_bind {V : Told → β → Prop} {W : Told → α → Prop} {p : Review β} {f : β → Review α}
    (hp : Obeys contract (Tells g V) g p)
    (hf : ∀ t b, V t b → Obeys contract (Tells { g with told := t } W) { g with told := t } (f b)) :
    Obeys contract (Tells g W) g (p >>= f) := by
  refine obeys_bind hp ?_ fun _ _ h => h
  rintro g' b ⟨t, rfl, hV⟩
  refine (hf t b hV).mono fun g'' r hr => ?_
  cases r with
  | ok a => exact hr
  | error e => exact hr

theorem tells_pure {V : Told → α → Prop} {a : α} (h : V g.told a) :
    Obeys contract (Tells g V) g (pure a) :=
  obeys_pure ⟨g.told, rfl, h⟩

theorem tells_throw {V : Told → α → Prop} {e : Exc} (h : Quiet e) :
    Obeys contract (Tells g V) g (throw e) :=
  obeys_throw ⟨⟨g.told, rfl⟩, h⟩

/-- What a comparison tells. -/
def Told.withText (t : Told) (diff : Option Text) : Told := { t with text := diff.or t.text }

theorem compareDiff_tells {pr : PullRequest} (hpr : g.pr = some pr) (fullName : Text) (base : Sha)
    {handler : Exc → Review (Option Text)}
    (hh : ∀ e, Obeys contract (Tells g fun t r => t = g.told.withText r) g (handler e)) :
    Obeys contract (Tells g fun t r => t = g.told.withText r) g
      (catchException (some <$> ext (.compareDiff fullName base pr.headSha)) handler) := by
  have hcompare : Obeys contract (fun g' r => match r with
      | .ok diff => g' = { g with told := g.told.withText diff }
      | .error e => g' = g ∧ Quiet e) g (some <$> ext (.compareDiff fullName base pr.headSha)) := by
    refine obeys_perform_bind ⟨pr, hpr, rfl⟩ (fun diff _ => obeys_pure rfl) ?_
    rintro e ⟨db, db', hexec⟩
    exact ⟨rfl, exec_ext_error hexec⟩
  refine obeys_tryCatch hcompare (fun g' diff h => ⟨_, h, rfl⟩) fun g' e h => ?_
  obtain ⟨rfl, he⟩ := h
  exact obeys_ite (fun _ => tells_throw he) fun _ => hh e

theorem tryCompare_tells {pr : PullRequest} (hpr : g.pr = some pr) (fullName : Text) (base : Sha) :
    Obeys contract (Tells g fun t r => t = g.told.withText r) g
      (tryCompare fullName base pr.headSha) :=
  compareDiff_tells hpr fullName base fun _ => tells_pure rfl

/-- For a job no diff is fetched that is not pinned to a head. -/
theorem ghDiff_tells (repo : Repo) (pr : PullRequest) {V : Told → Text → Prop} :
    Obeys contract (Tells g V) g (ghDiff repo pr true) := by
  refine tells_bind (V := fun _ _ => False) ?_ fun _ _ h => h.elim
  exact obeys_when (fun _ => tells_throw rfl) fun hn => absurd rfl hn

theorem fullDiff_tells {pr : PullRequest} (hpr : g.pr = some pr) (deps : PipelineDeps)
    (repo : Repo) :
    Obeys contract (Tells g fun t diff => t = g.told.withText (some diff)) g
      (fullDiff deps repo pr true) := by
  refine obeys_ite (fun _ => ?_) fun _ => ghDiff_tells _ _
  refine tells_bind (compareDiff_tells hpr _ _ fun e => ?_) fun t diff ht => ?_
  · refine tells_bind (V := fun _ _ => False) ?_ fun _ _ h => h.elim
    exact obeys_when (fun _ => tells_throw rfl) fun hn => absurd rfl hn
  · cases diff with
    | some diff => exact tells_pure ht
    | none => exact ghDiff_tells _ _

/-! ## Vendors -/

/-- Under `I` a vendor may be asked about its CLI and about the prompts. -/
structure Asks (I : Execution → Prop) (ad : Adapter) (prompts : List PromptChunk) : Prop where
  may : ∀ g, I g → ∀ c ∈ prompts, g.AllowsReview ad.vendor c
  told : ad.probes = true → ∀ g version, I g →
    I { g with told := g.told.tellVersion ad.vendor version }

/-- The history still meets `I`, and the result `V`; what is raised is no signal. -/
def Asked (I : Execution → Prop) (V : α → Prop) (g : Execution) : Except Exc α → Prop
  | .ok a => I g ∧ V a
  | .error e => I g ∧ Quiet e

section Vendors

variable {I : Execution → Prop} {ad : Adapter} {prompts : List PromptChunk}

theorem asked_bind {V : α → Prop} {W : β → Prop} {p : Review α} {f : α → Review β}
    (hp : Obeys contract (Asked I V) g p)
    (hf : ∀ g' a, I g' → V a → Obeys contract (Asked I W) g' (f a)) :
    Obeys contract (Asked I W) g (p >>= f) :=
  obeys_bind hp (fun g' a h => hf g' a h.1 h.2) fun _ _ h => h

theorem Asks.tail {c : PromptChunk} {cs : List PromptChunk} (h : Asks I ad (c :: cs)) :
    Asks I ad cs :=
  ⟨fun g hI d hd => h.may g hI d (List.mem_cons_of_mem _ hd), h.told⟩

theorem probe_asked (h : Asks I ad prompts) (hI : I g) :
    Obeys contract (Asked I fun _ => True) g (probe ad) := by
  refine obeys_ite (fun hprobes => ?_) fun _ => obeys_pure ⟨hI, trivial⟩
  have hext : Obeys contract (Asked I fun _ => True) g (ext (.probeVersion ad.vendor)) :=
    obeys_ext trivial (fun version _ => ⟨h.told hprobes g version hI, trivial⟩)
      fun e he => ⟨hI, he⟩
  exact asked_bind hext fun g' version hI' _ => obeys_pure ⟨hI', trivial⟩

theorem chunkOutcome_records (vendor : Text) (c : PromptChunk) (answer : ChunkAnswer)
    (elapsedMs : Nat) : Records c (chunkOutcome vendor c answer elapsedMs).1 where
  index := rfl
  chunkHash := rfl
  contextHash := rfl
  chunkerVersion := rfl
  promptNonce := rfl
  status := by
    show answerStatus answer ≠ .canceled
    cases answer <;> simp [answerStatus]

theorem reviewChunks_asked (h : Asks I ad prompts) (hI : I g) (expected : Text) :
    Obeys contract (Asked I fun outcomes =>
      List.Forall₂ (fun p o => Records p (Prod.fst o)) prompts outcomes) g
      (reviewChunks ad expected prompts) := by
  induction prompts generalizing g with
  | nil => exact obeys_pure ⟨hI, .nil⟩
  | cons c cs ih =>
    refine asked_bind (probe_asked h hI) fun g₁ version h₁ _ => ?_
    refine asked_bind (V := fun _ => True)
      (obeys_when (fun _ => obeys_throw ⟨h₁, rfl⟩) fun _ => ⟨h₁, trivial⟩) fun g₂ _ h₂ _ => ?_
    refine asked_bind (V := fun _ => True) (obeys_ext (h.may g₂ h₂ c List.mem_cons_self)
      (fun _ _ => ⟨h₂, trivial⟩) fun e he => ⟨h₂, he⟩) fun g₃ answer h₃ _ => ?_
    refine asked_bind (ih h.tail h₃) fun g₄ outcomes h₄ hout => ?_
    exact obeys_pure ⟨h₄, .cons (chunkOutcome_records _ _ _ _) hout⟩

theorem runVendorPrepared_asked (h : Asks I ad prompts) (hI : I g) (expected : Text)
    {row : VendorRow} (hrow : row.vendor = ad.vendor) :
    Obeys contract (Asked I (Ran row prompts)) g (runVendorPrepared ad expected prompts) := by
  refine asked_bind (reviewChunks_asked h hI expected) fun g₁ outcomes h₁ hout => ?_
  refine asked_bind (V := fun _ => True)
    (obeys_ext trivial (fun _ _ => ⟨h₁, trivial⟩) fun e he => ⟨h₁, he⟩) fun g₂ ms h₂ _ => ?_
  refine obeys_pure ⟨h₂, hrow.symm, ?_, rfl⟩
  exact List.forall₂_map_right_iff.mpr hout

/-- Chunks that all failed. -/
theorem runStatus_failed {chunks : List ExecutionChunk} (h : ∀ c ∈ chunks, c.status = .failed)
    (hne : chunks ≠ []) : runStatus chunks = .failed := by
  have hdone : chunks.countP (·.status == .done) = 0 := by
    refine List.countP_eq_zero.mpr fun c hc => ?_
    simp [h c hc]
  have hlength : 0 ≠ chunks.length := fun h₀ => hne (List.length_eq_zero_iff.mp h₀.symm)
  have htimeout : ¬(chunks ≠ [] ∧ chunks.all (·.status == .timeout) = true) := by
    rintro ⟨-, hall⟩
    obtain ⟨c, cs, rfl⟩ := List.exists_cons_of_ne_nil hne
    simp [h c List.mem_cons_self] at hall
  unfold runStatus
  simp only [hdone]
  rw [if_neg hlength, if_neg (Nat.lt_irrefl 0), if_neg htimeout]

/-- A vendor without credentials fails on every chunk. -/
theorem runtimeFailureResult_ran (hp : prompts ≠ []) {row : VendorRow} {vendor : Text}
    (hrow : row.vendor = vendor) (code : Text) :
    Ran row prompts (runtimeFailureResult vendor prompts code) where
  vendor := hrow.symm
  chunks := by
    refine List.forall₂_map_right_iff.mpr (List.forall₂_same.mpr fun c _ => ?_)
    exact ⟨rfl, rfl, rfl, rfl, rfl, by simp [chunkExecutionMeta]⟩
  status := by
    have hstatus : ∀ e ∈ prompts.map fun c => chunkExecutionMeta c ChunkStatus.failed
        (unavailableMeta vendor (fallbackCode .failed (some code)) none),
        e.status = .failed := by
      intro e he
      obtain ⟨c, -, rfl⟩ := List.mem_map.mp he
      rfl
    exact (runStatus_failed hstatus (by simpa using hp)).symm

/-- **The run of a vendor** gives an outcome for each prompt. -/
theorem runVendor_asked (h : Asks I ad prompts) (hI : I g) (hp : prompts ≠ [])
    (expected : Text) {row : VendorRow} (hrow : row.vendor = ad.vendor) :
    Obeys contract (Asked I (Ran row prompts)) g (runVendor ad expected prompts) := by
  refine obeys_tryCatch (R := Asked I (Ran row prompts)) ?_ (fun _ _ h => h) fun g' e he => ?_
  · exact obeys_withCredentials (runVendorPrepared_asked h hI expected hrow)
      (fun e he => ⟨hI, he⟩) fun g' a e ha he => ⟨ha.1, he⟩
  · split
    · exact obeys_pure ⟨he.1, runtimeFailureResult_ran hp hrow _⟩
    · exact obeys_throw he

end Vendors

end Pipeline
