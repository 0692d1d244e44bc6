import AlmightyReview.Db
import AlmightyReview.Diff.Chunk

/-!
# Findings of a run

The pure part of what happens to findings between a vendor and the database.

* `PromptChunk`, `VendorRunResult`: what a vendor gets, and what comes of it.
* `applyFindingScope`: a finding belongs to the chunk that owns its line; in `enforce` mode one
  without an owner is dropped.
* `groupDuplicateCandidates`: findings with one key form a group. The key needs Unicode tables
  (`canonical_claim`), which are an argument here.
* `deterministicMerge`: findings of several vendors at one place are a consensus.
-/

/-- The prompt of one chunk, and what it was made of. -/
structure PromptChunk where
  index : Nat
  prompt : Text
  diffText : Text
  diffHash : Text
  contextHash : Text
  promptNonce : Text
  ownedChangedLines : SetDict Text Nat
  chunkerVersion : Text

/-- What one vendor made of its chunks. -/
structure VendorRunResult where
  vendor : Text
  status : VendorStatus
  findings : List ReviewFinding
  durationMs : Nat
  chunks : List ExecutionChunk
  verifyChunks : List ExecutionChunk := []
  deriving DecidableEq, Repr

/-- `status in {"done", "partial"}`. -/
def VendorRunResult.succeeded (r : VendorRunResult) : Bool :=
  r.status == .done || r.status == .incomplete

namespace FindingPolicy

def observe : Text := "observe".toList
def enforce : Text := "enforce".toList

/-! ## Scope -/

/-- `PurePosixPath(value)`, if it is relative and stays below its root. -/
def normalizeFindingPath (value : Text) : Option Text :=
  let parts := (value.splitOn '/').filter fun p => p != [] && p != ['.']
  if value = [] ∨ '\x00' ∈ value ∨ value.head? = some '/' ∨ "..".toList ∈ parts ∨ parts = [] then
    none
  else some (parts.intersperse ['/']).flatten

/-- No added line has two owners. -/
def ownersDistinct : Finset (Text × Nat) → List PromptChunk → Bool
  | _, [] => true
  | seen, chunk :: chunks =>
    decide (Disjoint chunk.ownedChangedLines.pairs seen) &&
      ownersDistinct (seen ∪ chunk.ownedChangedLines.pairs) chunks

/-- The chunk that owns the line. -/
def ownerOf (chunks : List PromptChunk) (path : Option Text) (line : Int) : Option Nat :=
  match path with
  | none => none
  | some path =>
    (chunks.find? fun c => decide (0 ≤ line ∧ (path, line.toNat) ∈ c.ownedChangedLines.pairs)).map
      PromptChunk.index

/-- A finding after its scope was decided, and what its chunk counts. -/
structure Scoped where
  finding : ReviewFinding
  kept : Bool
  counts : ExecutionChunk → ExecutionChunk

def scopeFinding (chunks : List PromptChunk) (mode : Text) (f : ReviewFinding) : Scoped :=
  let path := normalizeFindingPath f.file
  let owner := ownerOf chunks path f.line
  let found := { f with file := path.getD f.file, ownerChunkIndex := owner }
  if owner = none then
    { finding := { found with
        scopeStatus := some (if mode = enforce then .rejected else .wouldReject)
        postingEligible := false }
      kept := mode != enforce
      counts := fun c => { c with scopeRejected := c.scopeRejected + 1 } }
  else if owner = f.sourceChunkIndex then
    { finding := { found with scopeStatus := some .owned, postingEligible := true }
      kept := true
      counts := id }
  else
    { finding := { found with scopeStatus := some .reassigned, postingEligible := true }
      kept := true
      counts := fun c => { c with scopeReassigned := c.scopeReassigned + 1 } }

/-- The last chunk with this index is changed. -/
def changeChunk (index : Option Nat) (f : ExecutionChunk → ExecutionChunk) :
    List ExecutionChunk → List ExecutionChunk
  | [] => []
  | c :: cs =>
    if some c.index = index ∧ ∀ c' ∈ cs, c'.index ≠ c.index then f c :: cs
    else c :: changeChunk index f cs

def scopeResult (chunks : List PromptChunk) (mode : Text) (r : VendorRunResult) :
    VendorRunResult :=
  let decided := r.findings.map (scopeFinding chunks mode)
  { r with
    findings := (decided.filter Scoped.kept).map Scoped.finding
    chunks := decided.foldl (fun cs s => changeChunk s.finding.sourceChunkIndex s.counts cs)
      r.chunks }

def applyFindingScope (chunks : List PromptChunk) (mode : Text) (results : List VendorRunResult) :
    Except Exc (List VendorRunResult) :=
  if ownersDistinct ∅ chunks then .ok (results.map (scopeResult chunks mode))
  else .error (.valueError "changed line has multiple chunk owners".toList)

/-! ## Duplicates -/

/-- `duplicate_key`. -/
structure DuplicateKey where
  vendor : Text
  path : Option Text
  line : Int
  category : Text
  claim : Text
  deriving DecidableEq, Repr

section Duplicates

-- `canonical_claim`: NFKC, case folding, and runs of other characters as one blank
variable (canonicalClaim : Text → Text)

def duplicateKey (f : ReviewFinding) : DuplicateKey :=
  ⟨f.vendor, normalizeFindingPath f.file, f.line, f.category, canonicalClaim f.claim⟩

def storedKey (f : Finding) : DuplicateKey :=
  ⟨f.vendor, normalizeFindingPath f.file, f.line, f.category, canonicalClaim f.claim⟩

/-- The keys of several findings, in the order of their first findings. -/
def repeated (keys : List DuplicateKey) : List DuplicateKey :=
  (keys.reverse.dedup.reverse).filter fun k => 2 ≤ keys.count k

/-- A finding in its group; `earlier` are the findings before it. -/
def groupFinding (keys : List DuplicateKey) (mode : Text) (earlier : List DuplicateKey)
    (f : ReviewFinding) : ReviewFinding :=
  let key := duplicateKey canonicalClaim f
  if key ∈ repeated keys then
    { f with
      duplicateGroupId := some ((repeated keys).idxOf key + 1)
      duplicateSuggested := true
      postingEligible := f.postingEligible && !(mode == enforce && key ∈ earlier) }
  else f

/-- The findings one after the other. -/
def groupFindings (keys : List DuplicateKey) (mode : Text) :
    List DuplicateKey → List ReviewFinding → List ReviewFinding
  | _, [] => []
  | earlier, f :: fs =>
    groupFinding canonicalClaim keys mode earlier f ::
      groupFindings keys mode (earlier ++ [duplicateKey canonicalClaim f]) fs

/-- The results one after the other. -/
def groupResults (keys : List DuplicateKey) (mode : Text) :
    List DuplicateKey → List VendorRunResult → List VendorRunResult
  | _, [] => []
  | earlier, r :: rs =>
    let findings := groupFindings canonicalClaim keys mode earlier r.findings
    { r with findings } ::
      groupResults keys mode (earlier ++ r.findings.map (duplicateKey canonicalClaim)) rs

/-- Each finding of a group is counted by the chunk of its vendor that it came from. -/
def countDuplicates (findings : List ReviewFinding) (r : VendorRunResult) : VendorRunResult :=
  { r with
    chunks := r.chunks.map fun c =>
      { c with duplicateGroups := c.duplicateGroups + findings.countP fun f =>
          f.duplicateSuggested && f.vendor == r.vendor && f.sourceChunkIndex == some c.index } }

def groupDuplicateCandidates (mode : Text) (results : List VendorRunResult) :
    List VendorRunResult :=
  let keys := (results.flatMap VendorRunResult.findings).map (duplicateKey canonicalClaim)
  let grouped := groupResults canonicalClaim keys mode [] results
  grouped.map (countDuplicates (grouped.flatMap VendorRunResult.findings))

def applyScopeAndDuplicatePolicy (chunks : List PromptChunk) (scopeMode dedupeMode : Text)
    (results : List VendorRunResult) : Except Exc (List VendorRunResult) :=
  (applyFindingScope chunks scopeMode results).map
    (groupDuplicateCandidates canonicalClaim dedupeMode)

end Duplicates

/-! ## Consensus -/

/-- `MergedFinding`, of anything that can be seen as a finding. -/
structure Merged (α : Type) where
  finding : α
  consensus : Consensus
  consensusGroupId : Nat

def lineProximity : Nat := 5

/-- The finding joins the group that begins with `h`. -/
def joins (h f : ReviewFinding) : Bool :=
  h.file == f.file && h.category == f.category && (h.line - f.line).natAbs ≤ lineProximity

section Merge

variable {α : Type} (view : α → ReviewFinding)

/-- The finding is put into the first group that it joins. -/
def place (a : α) : List (List α) → List (List α)
  | [] => [[a]]
  | g :: gs =>
    match g with
    | h :: _ => if joins (view h) (view a) then (g ++ [a]) :: gs else g :: place a gs
    | [] => g :: place a gs

def mergedGroup (g : List α) (gid : Nat) : List (Merged α) :=
  let vendors := (g.map fun a => (view a).vendor).dedup
  let tag := if 1 < vendors.length then Consensus.consensus else .single
  g.map fun a => ⟨a, tag, gid⟩

/-- `deterministic_merge`. -/
def deterministicMerge (findings : List α) : List (Merged α) :=
  let groups := findings.foldl (fun gs a => place view a gs) []
  (groups.zipIdx).flatMap fun g => mergedGroup view g.1 g.2

end Merge

/-! ## What the policies leave alone -/

/-- The chunk with other counters. -/
def SameOutcome (c c' : ExecutionChunk) : Prop :=
  { c' with
    scopeReassigned := c.scopeReassigned
    scopeRejected := c.scopeRejected
    duplicateGroups := c.duplicateGroups } = c

theorem SameOutcome.refl (c : ExecutionChunk) : SameOutcome c c := rfl

theorem SameOutcome.trans {c c' c'' : ExecutionChunk} (h : SameOutcome c c')
    (h' : SameOutcome c' c'') : SameOutcome c c'' := by
  unfold SameOutcome at *
  rw [← h, ← h']

instance : IsTrans ExecutionChunk SameOutcome := ⟨fun _ _ _ => SameOutcome.trans⟩

/-- The policies change findings and counters only. -/
structure SameExecution (r r' : VendorRunResult) : Prop where
  vendor : r'.vendor = r.vendor
  status : r'.status = r.status
  chunks : List.Forall₂ SameOutcome r.chunks r'.chunks
  verifyChunks : r'.verifyChunks = r.verifyChunks

theorem forall₂_map {f : ExecutionChunk → ExecutionChunk} (hf : ∀ c, SameOutcome c (f c))
    (cs : List ExecutionChunk) : List.Forall₂ SameOutcome cs (cs.map f) := by
  induction cs with
  | nil => exact .nil
  | cons c cs ih => exact .cons (hf c) ih

theorem forall₂_trans {α : Type} {R : α → α → Prop} [IsTrans α R]
    {as bs cs : List α} (h : List.Forall₂ R as bs) (h' : List.Forall₂ R bs cs) :
    List.Forall₂ R as cs := by
  induction h generalizing cs with
  | nil => exact h'
  | cons hab _ ih =>
    cases h' with
    | cons hbc h' => exact .cons (trans_of R hab hbc) (ih h')

theorem SameExecution.trans {r r' r'' : VendorRunResult} (h : SameExecution r r')
    (h' : SameExecution r' r'') : SameExecution r r'' :=
  ⟨h'.vendor.trans h.vendor, h'.status.trans h.status, forall₂_trans h.chunks h'.chunks,
    h'.verifyChunks.trans h.verifyChunks⟩

instance : IsTrans VendorRunResult SameExecution := ⟨fun _ _ _ => SameExecution.trans⟩

theorem scopeFinding_counts (chunks : List PromptChunk) (mode : Text) (f : ReviewFinding)
    (c : ExecutionChunk) : SameOutcome c ((scopeFinding chunks mode f).counts c) := by
  simp only [scopeFinding]
  by_cases ho : ownerOf chunks (normalizeFindingPath f.file) f.line = none
  · rw [if_pos ho]
    rfl
  · rw [if_neg ho]
    split <;> rfl

theorem forall₂_changeChunk {f : ExecutionChunk → ExecutionChunk} (hf : ∀ c, SameOutcome c (f c))
    (index : Option Nat) (cs : List ExecutionChunk) :
    List.Forall₂ SameOutcome cs (changeChunk index f cs) := by
  induction cs with
  | nil => exact .nil
  | cons c cs ih =>
    unfold changeChunk
    split
    · exact .cons (hf c) (List.forall₂_same.mpr fun c _ => .refl c)
    · exact .cons (.refl c) ih

theorem scopeResult_same (chunks : List PromptChunk) (mode : Text) (r : VendorRunResult) :
    SameExecution r (scopeResult chunks mode r) := by
  refine ⟨rfl, rfl, ?_, rfl⟩
  show List.Forall₂ SameOutcome r.chunks ((r.findings.map (scopeFinding chunks mode)).foldl
    (fun cs s => changeChunk s.finding.sourceChunkIndex s.counts cs) r.chunks)
  rw [List.foldl_map]
  generalize r.findings = fs
  generalize r.chunks = cs
  induction fs generalizing cs with
  | nil => exact List.forall₂_same.mpr fun c _ => .refl c
  | cons f fs ih =>
    exact forall₂_trans (forall₂_changeChunk (scopeFinding_counts chunks mode f) _ cs) (ih _)

theorem applyFindingScope_same {chunks : List PromptChunk} {mode : Text}
    {results results' : List VendorRunResult}
    (h : applyFindingScope chunks mode results = .ok results') :
    List.Forall₂ SameExecution results results' := by
  unfold applyFindingScope at h
  split at h
  · obtain rfl := Except.ok.inj h
    exact List.forall₂_map_right_iff.mpr (List.forall₂_same.mpr fun r _ => scopeResult_same ..)
  · cases h

theorem groupResults_same (canonicalClaim : Text → Text) (keys : List DuplicateKey) (mode : Text)
    (earlier : List DuplicateKey) (results : List VendorRunResult) :
    List.Forall₂ SameExecution results
      (groupResults canonicalClaim keys mode earlier results) := by
  induction results generalizing earlier with
  | nil => exact .nil
  | cons r rs ih =>
    exact .cons ⟨rfl, rfl, List.forall₂_same.mpr fun c _ => .refl c, rfl⟩ (ih _)

theorem groupDuplicateCandidates_same (canonicalClaim : Text → Text) (mode : Text)
    (results : List VendorRunResult) :
    List.Forall₂ SameExecution results
      (groupDuplicateCandidates canonicalClaim mode results) := by
  refine List.forall₂_map_right_iff.mpr ((groupResults_same canonicalClaim _ mode [] results).imp
    fun r r' h => h.trans ⟨rfl, rfl, forall₂_map (fun c => ?_) _, rfl⟩)
  rfl

/-- **The policies keep the outcomes** of all chunks. -/
theorem applyScopeAndDuplicatePolicy_same {canonicalClaim : Text → Text}
    {chunks : List PromptChunk} {scopeMode dedupeMode : Text}
    {results results' : List VendorRunResult}
    (h : applyScopeAndDuplicatePolicy canonicalClaim chunks scopeMode dedupeMode results =
      .ok results') : List.Forall₂ SameExecution results results' := by
  unfold applyScopeAndDuplicatePolicy at h
  cases hs : applyFindingScope chunks scopeMode results with
  | error e =>
    rw [hs] at h
    cases h
  | ok scoped' =>
    rw [hs] at h
    obtain rfl := Except.ok.inj h
    have h₁ := applyFindingScope_same hs
    have h₂ := groupDuplicateCandidates_same canonicalClaim dedupeMode scoped'
    exact forall₂_trans h₁ h₂

end FindingPolicy
