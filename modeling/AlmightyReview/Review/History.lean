import AlmightyReview.Review.Worker

/-!
# Histories of executions

What an execution of a job was told and has done, as far as its operations say, and what it may do
next.

* `Execution`: the history; `Told` is what a retry is rebuilt from. `Execution.after`: how an answer
  changes it.
* `Concludes`, `Publishes`: the end of a fresh run fits its history. `Rebuilt`: what a retry makes
  of a run, and what it compares (`Rebuilt.Matches`).
* `contract`: what an execution may do with a history.
-/

namespace Pipeline

open FindingPolicy (PolicyConfig PolicySnapshot ValidReport resolvePolicySnapshot)

/-! ## Histories -/

/-- What an execution was told, as far as a retry depends on it. -/
structure Told where
  repo : Option Repo := none
  settings : Option ReviewSettings := none
  harness : Option HarnessProfile := none
  deps : Option PipelineDeps := none
  config : Option (PolicyConfig × Option ValidReport) := none
  /-- The diff that was told last. -/
  text : Option Text := none
  /-- The versions of the vendors' CLIs, as they were told first. -/
  versions : List (Text × Text) := []
  target : Option ReviewRun := none
  /-- A pull request and its last run. -/
  latest : Nat × Option Nat := (0, none)
  /-- A run and its vendors that failed. -/
  failed : Nat × List Text := (0, [])
  /-- The envelopes of vendors in runs. -/
  envelopes : List ((Nat × Text) × Option ExecutionEnvelope) := []
  /-- The results of vendors in runs. -/
  ids : List ((Nat × Text) × Nat) := []

/-- What an execution was told and has done. -/
structure Execution where
  owner : Option ProcessId
  job : Option ReviewJob := none
  /-- The pull request that it works for, as it was read before its run was created. -/
  pr : Option PullRequest := none
  told : Told := {}
  created : Option Nat := none
  policy : Option PolicySnapshot := none
  /-- The vendors' results that were added. -/
  rows : List (Text × Nat) := []
  /-- The run is not running any more, or the retry is stored. -/
  ended : Bool := false
  published : Bool := false
  /-- Its job is not running any more. -/
  released : Bool := false
  /-- The running runs of its job were closed. -/
  cleared : Bool := false
  lost : Bool := false
  dbFailed : Bool := false

def Told.tellVersion (t : Told) (vendor version : Text) : Told :=
  if (t.versions.lookup vendor).isSome then t
  else { t with versions := t.versions ++ [(vendor, version)] }

def Told.read {β : Type} (t : Told) : Read β → β → Told
  | .getRepo _, repo => { t with repo }
  | .getRun _, run => { t with target := run }
  | .latestRunId prId, runId => { t with latest := (prId, runId) }
  | .failedVendors runId, vendors => { t with failed := (runId, vendors) }
  | .vendorExecutionMeta runId vendor, e =>
    { t with envelopes := t.envelopes ++ [((runId, vendor), e)] }
  | .vendorResultId runId vendor, some id => { t with ids := t.ids ++ [((runId, vendor), id)] }
  | _, _ => t

def Told.ext {β : Type} (t : Told) : Ext β → β → Told
  | .settings, settings => { t with settings := some settings }
  | .loadHarness _, harness => { t with harness := some harness }
  | .policyConfig, config => { t with config := some config }
  | .compareDiff .., text => { t with text := some text }
  | .probeVersion vendor, version => t.tellVersion vendor version
  | .buildDeps _, deps => { t with deps := some deps }
  | _, _ => t

namespace Execution

def afterRead {β : Type} (g : Execution) : Read β → β → Execution
  -- after its run was created an execution looks at the head only
  | .getPr _, pr => if g.created.isSome then g else { g with pr := pr }
  | q, b => { g with told := g.told.read q b }

def afterWrite {β : Type} (g : Execution) : Write β → β → Execution
  | .createRun _, id => { g with created := some id }
  | .setPolicySnapshot _ policy, _ => { g with policy := some policy }
  | .addVendorResult _ vendor, id => { g with rows := g.rows ++ [(vendor, id)] }
  | .finishRun .., _ => { g with ended := true }
  | .storeFailed _, _ => { g with ended := true }
  | .publish _, none => { g with
    ended := true
    published := true }
  | .cancelStale _, _ => { g with ended := true }
  | .retryPublish .., _ => { g with ended := true }
  | .claimNext .., job => { g with job }
  | .markDone .., _ => { g with released := true }
  | .markCanceled .., _ => { g with released := true }
  | .markFailed .., _ => { g with released := true }
  | .cancelStaleAndEnqueueLatest .., _ => { g with released := true }
  | .failJobRuns .., _ => { g with cleared := true }
  | _, _ => g

/-- After the database raised. -/
def raised (g : Execution) : Exc → Execution
  | .operationalError _ => { g with dbFailed := true }
  | .pipelineLeaseLost .. => { g with lost := true }
  | .leaseLostError _ => { g with lost := true }
  | _ => g

def after {β : Type} (g : Execution) : Op β → Except Exc β → Execution
  | .read q, .ok b => g.afterRead q b
  | .write q, .ok b => g.afterWrite q b
  | .ext q, .ok b => { g with told := g.told.ext q b }
  | .ext _, .error _ => g
  | _, .error e => g.raised e

end Execution

/-- The version that a vendor's adapter was given. -/
def Told.versionOf (t : Told) (ad : Adapter) : Option Text :=
  if ad.probes then t.versions.lookup ad.vendor else none

/-! ## The end of a run -/

/-- The results of a run are what its policy made of the answers of the vendors. -/
structure Applied (policy : PolicySnapshot) (results : List VendorRunResult) : Prop where
  of : ∃ canonicalClaim prompts raw, FindingPolicy.applyScopeAndDuplicatePolicy canonicalClaim
    prompts policy.scope.effectiveMode policy.dedupe.effectiveMode raw = .ok results

/-- The end of a fresh run fits its history. -/
structure Concludes (g : Execution) (e : Ending) : Prop where
  created : g.created = some e.runId
  ended : g.ended = false
  owner : e.ownerProcessId = g.owner
  pr : ∃ pr, g.pr = some pr ∧ e.prId = pr.id ∧ e.headSha = pr.headSha
  rows : e.rows.map (fun row => (row.vendor, row.vrId)) = g.rows
  vendors : e.results.map VendorRunResult.vendor = e.rows.map VendorRow.vendor
  policy : g.policy.isSome = true

/-- What a run publishes: the results under its policy, and their findings, of which only the
verification has changed something. -/
structure Publishes (g : Execution) (e : Ending) : Prop extends Concludes g e where
  succeeded : e.results.any VendorRunResult.succeeded = true
  applied : ∃ policy results chunks findings verified merge, g.policy = some policy ∧
    Applied policy results ∧ e.results = results.map (withVerifyChunks chunks) ∧
    preparedFindings e.rows results = .ok findings ∧
    List.Forall₂ SameButVerified findings verified ∧ e.items = findingItems merge verified

/-! ## Retries -/

/-- The outcome of a chunk is recorded with what its prompt was made of. -/
structure Records (p : PromptChunk) (c : ExecutionChunk) : Prop where
  index : c.index = p.index
  chunkHash : c.chunkHash = some p.diffHash
  contextHash : c.contextHash = some p.contextHash
  chunkerVersion : c.chunkerVersion = some p.chunkerVersion
  promptNonce : c.promptNonce = p.promptNonce
  status : c.status ≠ .canceled

/-- The result of the vendor of a row on these prompts. -/
structure Ran (row : VendorRow) (prompts : List PromptChunk) (r : VendorRunResult) : Prop where
  vendor : r.vendor = row.vendor
  chunks : List.Forall₂ Records prompts r.chunks
  status : r.status = runStatus r.chunks

/-- The identity of a row is the one that the code computes for its vendor. -/
structure Identified (t : Told) (hp : HarnessProfile) (prompts : List PromptChunk)
    (diff : Text) (policy : PolicySnapshot) (ad : Adapter) (row : VendorRow) : Prop where
  vendor : row.vendor = ad.vendor
  required : requireVendor ad prompts = .ok ()
  identity : executionIdentity ad hp (t.versionOf ad) prompts diff policy = .ok row.identity

/-- The identities of rows, under their vendors. -/
def identitiesOf (rows : List VendorRow) : List (Text × ExecutionIdentity) :=
  rows.map fun row => (row.vendor, row.identity)

/-- The contexts that a run keeps, under the hashes of their chunks; an empty list is none. -/
def keptContexts (run : ReviewRun) : Option (List (Text × Text)) :=
  match ReviewRepo.getContextChunks run with
  | none => none
  | some [] => none
  | some chunks => some (chunks.map fun c => (c.chunkHash, c.text))

/-- What a retry makes of a run before it compares. -/
structure Rebuilt where
  run : ReviewRun
  pr : PullRequest
  repo : Repo
  settings : ReviewSettings
  harness : HarnessProfile
  deps : PipelineDeps
  config : PolicyConfig × Option ValidReport
  failed : List Text
  storedPolicy : PolicySnapshot
  nonces : List (Nat × Text)
  text : Text
  diff : Text
  prompts : List PromptChunk
  rows : List VendorRow

namespace Rebuilt

/-- The vendors that failed. -/
def adapters (b : Rebuilt) : List Adapter :=
  (enabledAdapters b.deps.adapters b.repo).filter fun ad => b.failed.contains ad.vendor

def profile (b : Rebuilt) : HarnessProfile := applyModels b.harness b.repo b.settings

/-- What a retry was told, and what the code computes from it. -/
structure Of (b : Rebuilt) (t : Told) : Prop where
  target : t.target = some b.run
  latest : t.latest = (b.pr.id, some b.run.id)
  done : b.run.status = .done
  head : b.run.headSha = b.pr.headSha
  repo : t.repo = some b.repo
  settings : t.settings = some b.settings
  harness : t.harness = some b.harness
  deps : t.deps = some b.deps
  config : t.config = some b.config
  storedPolicy : FindingPolicy.policySnapshotFromRow b.run.policy = some b.storedPolicy
  failed : t.failed = (b.run.id, b.failed)
  vendors : (b.adapters.map Adapter.vendor).Nodup
  available : ∀ v ∈ b.failed, v ∈ b.adapters.map Adapter.vendor
  envelopes : t.envelopes.map Prod.fst = b.adapters.map fun ad => (b.run.id, ad.vendor)
  nonces : retryPromptNonces (t.envelopes.map Prod.snd) = .ok b.nonces
  text : t.text = some b.text
  diff : DiffFilter.filterReviewable b.text = .ok b.diff
  prompts : buildPromptChunks b.pr b.diff (b.run.contextText.getD []) (keptContexts b.run)
    (b.nonces.lookup ·) = .ok b.prompts
  identified : List.Forall₂ (Identified t b.profile b.prompts b.diff b.storedPolicy)
    b.adapters b.rows
  ids : t.ids = b.rows.map fun row => ((b.run.id, row.vendor), row.vrId)

/-- The policy of now. -/
def policy (b : Rebuilt) : PolicySnapshot :=
  resolvePolicySnapshot b.config.1 b.config.2 b.repo
    (benchmarkRuntimeIdentity (identitiesOf b.rows))

/-- What a retry compares is what was recorded; then `chunks` are what the vendors get. -/
structure Matches (b : Rebuilt) (t : Told) (chunks : List (List PromptChunk)) : Prop where
  policy : samePolicy b.policy b.storedPolicy = true
  identities : List.Forall₂ (fun e row => requireRetryIdentity (Prod.snd e) (VendorRow.identity row)
    = .ok ()) t.envelopes b.rows
  chunks : List.Forall₂ (fun e c => retryPromptChunks (Prod.snd e) b.prompts = .ok c) t.envelopes
    chunks

/-- The rows of the vendors that have chunks to run, with these. -/
def active (b : Rebuilt) (chunks : List (List PromptChunk)) :
    List (VendorRow × List PromptChunk) :=
  (b.rows.zip chunks).filter fun p => !p.2.isEmpty

end Rebuilt

/-- A retry of the pull request that was read. -/
structure Rebuilds (g : Execution) (b : Rebuilt) : Prop where
  created : g.created = none
  pr : g.pr = some b.pr
  of : b.Of g.told

/-- The end of a retry fits what it rebuilt. -/
structure Retries (g : Execution) (b : Rebuilt) (e : RetryEnding) : Prop extends Rebuilds g b where
  ended : g.ended = false
  runId : e.runId = b.run.id
  prId : e.prId = b.pr.id
  headSha : e.headSha = b.pr.headSha
  owner : e.ownerProcessId = g.owner
  rows : e.rows = b.rows
  mode : e.dedupeMode = b.storedPolicy.dedupe.effectiveMode
  results : ∃ chunks raw, b.Matches g.told chunks ∧
    List.Forall₂ (fun p r => Ran (Prod.fst p) (Prod.snd p) r) (b.active chunks) raw ∧
    FindingPolicy.applyFindingScope b.prompts b.storedPolicy.scope.effectiveMode raw =
      .ok e.results

/-! ## What an execution may do -/

/-- No run of the execution is running, as far as it knows. (No run has the id 0.) -/
def Settled (g : Execution) : Prop :=
  g.created.getD 0 = 0 ∨ g.ended = true ∨ g.cleared = true ∨ g.lost = true ∨ g.dbFailed = true

/-- The run of the execution, before its end. -/
structure Owns (g : Execution) (runId : Nat) : Prop where
  created : g.created = some runId
  ended : g.ended = false

/-- The run of the execution, before its vendors are run. -/
structure Prepares (g : Execution) (runId : Nat) : Prop extends Owns g runId where
  rows : g.rows = []

/-- The job of the execution, at whose end no run of it is running. -/
structure Releases (g : Execution) (jobId : Nat) (owner : Option ProcessId) : Prop where
  job : ∃ job, g.job = some job ∧ job.id = jobId
  owner : owner = g.owner
  released : g.released = false ∨ g.dbFailed = true
  settled : Settled g

/-- A new run is of the pull request that was read. -/
structure MayCreate (g : Execution) (run : NewRun) : Prop where
  created : g.created = none
  rows : g.rows = []
  ended : g.ended = false
  published : g.published = false
  policy : g.policy = none
  pr : ∃ pr, g.pr = some pr ∧ run.prId = pr.id ∧ run.headSha = pr.headSha
  owner : run.ownerProcessId = g.owner
  released : g.released = false
  cleared : g.cleared = false
  job : ∀ job, g.job = some job → g.owner.isSome → run.ownerJobId = some job.id

/-- A run is finished by its execution, before or because the execution raises. -/
structure MayFinish (g : Execution) (runId : Nat) (status : RunStatus) : Prop where
  created : g.created = some runId
  published : g.published = false
  status : status = .failed ∨ status = .canceled

namespace Execution

def AllowsWrite {β : Type} (g : Execution) : Write β → Prop
  | .createRun run => MayCreate g run
  | .setBaseSha runId _ => Prepares g runId
  | .finishRun runId status _ => MayFinish g runId status
  | .markReviewed prId headSha => g.ended = true ∧
    ∃ pr, g.pr = some pr ∧ prId = pr.id ∧ headSha = pr.headSha
  | .setContext runId _ => Prepares g runId
  | .setContextChunks runId _ => Prepares g runId
  | .setPolicySnapshot runId _ => Prepares g runId ∧ g.policy = none
  | .addVendorResult runId vendor => Owns g runId ∧ g.policy.isSome = true ∧
    vendor ∉ g.rows.map Prod.fst
  | .storeFailed e => Concludes g e
  | .publish e => Publishes g e
  | .cancelStale e => Concludes g e
  | .retryPublish _ e => ∃ b, Retries g b e
  | .claimNext _ owner => g.job = none ∧ g.created = none ∧ g.released = false ∧ owner = g.owner
  | .markDone jobId _ owner => Releases g jobId owner
  | .markCanceled jobId _ owner => Releases g jobId owner
  | .markFailed jobId error retry _ owner => Releases g jobId owner ∧ retry = isRetryable error
  | .cancelStaleAndEnqueueLatest jobId owner => Releases g jobId owner
  | .failJobRuns jobId _ => ∃ job, g.job = some job ∧ job.id = jobId

/-- A vendor reviews a chunk of a new run only after its policy and the row of the vendor were
stored, and a chunk of a retry only after everything was compared. -/
def AllowsReview (g : Execution) (vendor : Text) (chunk : PromptChunk) : Prop :=
  (g.policy.isSome = true ∧ vendor ∈ g.rows.map Prod.fst) ∨
    ∃ (b : Rebuilt) (chunks : List (List PromptChunk)), Rebuilds g b ∧ b.Matches g.told chunks ∧
      ∃ p ∈ b.active chunks, p.1.vendor = vendor ∧ chunk ∈ p.2

def AllowsExt {β : Type} (g : Execution) : Ext β → Prop
  | .review vendor chunk _ => g.AllowsReview vendor chunk
  | .compareDiff _ _ head => ∃ pr, g.pr = some pr ∧ head = pr.headSha
  -- the diff of a pull request is not pinned to a head
  | .ghDiff .. => False
  | _ => True

def Allows {β : Type} (g : Execution) : Op β → Prop
  | .read _ => True
  | .write q => g.AllowsWrite q
  | .ext q => g.AllowsExt q

end Execution

/-- The contract of an execution. -/
def contract : Prog.Contract Op Exc Execution where
  allowed g o := Execution.Allows g o
  after g o r := Execution.after g o r
  possible o r := ∃ db db', Op.Exec o db r db'

end Pipeline
