import AlmightyReview.Context.CatFile
import AlmightyReview.Lib.OrderedDict

/-!
# The cache of git documents

`_read_git_files` keeps what it has read in a bounded cache, which all runs share.

* `readGitFiles`: one call. What is not in the cache is read with git, and a call that fails stores
  that there is no document.
* `Faithful`: every entry of the cache is the document of its key. A call keeps that unless it fails
  for a document that exists and is not cached (`Harmless`): `faithful_readGitFiles`.
* `transparent_of_harmless`: in a run of harmless calls each call with git at work returns what a
  call without a cache does.
-/

namespace StaticContext

/-- `(cache_scope, revision, path)`. -/
abbrev Key := Text × Text × Text

abbrev Cache := OrderedDict Key (Option Text)

/-- `_MAX_GIT_DOCUMENT_CACHE`. -/
def maxGitDocumentCache : Nat := 512

/-! ## One call -/

/-- How the process ends: `OSError`, `TimeoutExpired` and `ValueError` are one. -/
inductive Outcome where
  | raised
  | exited (code : Int) (stdout : Bytes)

/-- What a call has found in the cache so far. -/
structure Lookup where
  cache : Cache
  out : List (Text × Option Text)
  missing : List Text
  hits : Nat

def lookupPath (scope revision : Text) (l : Lookup) (path : Text) : Lookup :=
  match l.cache.get? (scope, revision, path) with
  | some value => { l with
      out := l.out ++ [(path, value)]
      cache := l.cache.moveToEnd (scope, revision, path)
      hits := l.hits + 1 }
  | none => { l with missing := l.missing ++ [path] }

/-- The documents that the process has read. -/
def parseOutcome (missing : List Text) : Outcome → List (Text × Option Text)
  | .raised => missing.map fun path => (path, none)
  | .exited code stdout => parseCatFileBatch (if code = 0 then stdout else []) missing

def storePath (scope revision : Text) (parsed : List (Text × Option Text))
    (s : Cache × List (Text × Option Text)) (path : Text) : Cache × List (Text × Option Text) :=
  let value := getParsed parsed path
  ((s.1.set (scope, revision, path) value).moveToEnd (scope, revision, path),
    s.2 ++ [(path, value)])

/-- The result of a call: the assignments to its dictionary, and the number of hits. -/
structure Read where
  cache : Cache
  out : List (Text × Option Text)
  hits : Nat

/-- `_read_git_files`; `run` is the process, which is asked for the paths that are missing. -/
def readGitFiles (cache : Cache) (scope revision : Text) (paths : List Text)
    (run : List Text → Outcome) : Read :=
  let l := paths.foldl (lookupPath scope revision) ⟨cache, [], [], 0⟩
  if l.missing = [] then ⟨l.cache, l.out, l.hits⟩
  else
    let parsed := parseOutcome l.missing (run l.missing)
    let s := l.missing.foldl (storePath scope revision parsed) (l.cache, l.out)
    ⟨s.1.trim maxGitDocumentCache, s.2, l.hits⟩

/-- `out.get(path)`, with `none` for a path without an entry. -/
def Read.document (r : Read) (path : Text) : Option (Option Text) := r.out.reverse.lookup path

/-! ## Runs -/

/-- How git does in a call. -/
inductive Git where
  | works
  | raises
  | exits (code : Int) (stdout : Bytes) (failed : code ≠ 0)

structure Call where
  scope : Text
  revision : Text
  paths : List Text
  git : Git

/-- What git finds in the repository of a scope: in a revision, at a path. -/
abbrev Found := Text → Text → Text → Option Blob

def Call.outcome (found : Found) (c : Call) (missing : List Text) : Outcome :=
  match c.git with
  | .works => .exited 0 (batchOutput c.revision (found c.scope c.revision) missing)
  | .raises => .raised
  | .exits code stdout _ => .exited code stdout

/-- The call, after which the next one begins. -/
def Call.read (found : Found) (cache : Cache) (c : Call) : Read :=
  readGitFiles cache c.scope c.revision c.paths (c.outcome found)

/-- The call without a cache, and with git at work. -/
def Call.uncached (found : Found) (c : Call) : Read :=
  Call.read found OrderedDict.empty { c with git := .works }

/-- The document of a key, as it is kept. -/
def kept (found : Found) (k : Key) : Option Text :=
  (found k.1 k.2.1 k.2.2).map fun b => shown b.content

/-- The call asks for paths on one line. When git fails, each of these is in the cache or has no
document. -/
structure Harmless (found : Found) (cache : Cache) (c : Call) : Prop where
  revision : '\n' ∉ c.revision
  paths : ∀ path ∈ c.paths, '\n' ∉ path
  fails : c.git ≠ .works → ∀ path ∈ c.paths,
    cache.get? (c.scope, c.revision, path) ≠ none ∨ found c.scope c.revision path = none

/-- Every call of a run is harmless where it begins. -/
def AllHarmless (found : Found) : Cache → List Call → Prop
  | _, [] => True
  | cache, c :: cs => Harmless found cache c ∧ AllHarmless found (c.read found cache).cache cs

/-- Every call of a run with git at work returns what it would return without a cache. -/
def Transparent (found : Found) : Cache → List Call → Prop
  | _, [] => True
  | cache, c :: cs =>
    (c.git = .works → ∀ path, (c.read found cache).document path =
      (c.uncached found).document path) ∧ Transparent found (c.read found cache).cache cs

/-- The entries of the cache are the documents of their keys. -/
def Faithful (found : Found) (cache : Cache) : Prop := cache.All fun k v => v = kept found k

/-! ## One call is faithful -/

section Call

variable {found : Found} {cache : Cache} {scope revision : Text}

/-- What the lookups leave: documents that are right, and the paths that the cache does not have. -/
structure Looked (found : Found) (cache : Cache) (scope revision : Text) (paths : List Text)
    (l : Lookup) : Prop where
  faithful : Faithful found l.cache
  get? : ∀ k, l.cache.get? k = cache.get? k
  out : ∀ e ∈ l.out, e.2 = kept found (scope, revision, e.1)
  missing : ∀ path ∈ l.missing, cache.get? (scope, revision, path) = none
  covers : ∀ path, path ∈ paths ↔ path ∈ l.out.map Prod.fst ∨ path ∈ l.missing

theorem Looked.step {paths : List Text} {l : Lookup} (h : Looked found cache scope revision paths l)
    (path : Text) :
    Looked found cache scope revision (paths ++ [path]) (lookupPath scope revision l path) := by
  unfold lookupPath
  split
  · next value hvalue =>
    refine ⟨h.faithful.moveToEnd _, fun k => ?_, fun e he => ?_, h.missing, fun q => ?_⟩
    · rw [OrderedDict.get?_moveToEnd, h.get?]
    · rcases List.mem_append.mp he with he | he
      · exact h.out e he
      · rw [List.mem_singleton.mp he]
        exact h.faithful.get? hvalue
    · simp only [List.map_append, List.mem_append, List.map_cons, List.map_nil, List.mem_singleton,
        h.covers q]
      tauto
  · next hvalue =>
    refine ⟨h.faithful, h.get?, h.out, fun q hq => ?_, fun q => ?_⟩
    · rcases List.mem_append.mp hq with hq | hq
      · exact h.missing q hq
      · rw [List.mem_singleton.mp hq, ← h.get?]
        exact hvalue
    · simp only [List.mem_append, List.mem_singleton, h.covers q]
      tauto

theorem looked (hcache : Faithful found cache) (paths : List Text) :
    Looked found cache scope revision paths
      (paths.foldl (lookupPath scope revision) ⟨cache, [], [], 0⟩) := by
  induction paths using List.reverseRecOn with
  | nil => exact ⟨hcache, fun _ => rfl, by simp, by simp, by simp⟩
  | append_singleton paths path ih =>
    rw [List.foldl_append]
    exact ih.step path

theorem parseCatFileBatch_nil (paths : List Text) :
    parseCatFileBatch [] paths = paths.map fun path => (path, none) := by
  induction paths with
  | nil => rfl
  | cons path paths ih => rw [parseCatFileBatch, if_pos (by simp), ih, List.map_cons]

/-- What the process reads is the document. -/
theorem getParsed_outcome {c : Call} {missing : List Text} (h : Harmless found cache c)
    (hsub : ∀ path ∈ missing, path ∈ c.paths)
    (hmissing : ∀ path ∈ missing, cache.get? (c.scope, c.revision, path) = none) :
    ∀ path ∈ missing, getParsed (parseOutcome missing (c.outcome found missing)) path =
      kept found (c.scope, c.revision, path) := by
  intro path hpath
  have hnone : c.git ≠ .works → kept found (c.scope, c.revision, path) = none := by
    intro hfails
    have := (h.fails hfails path (hsub path hpath)).resolve_left (not_not.mpr (hmissing path hpath))
    rw [kept, this]
    rfl
  have hfailed : getParsed (missing.map fun path => (path, none)) path = none :=
    @getParsed_map missing (fun _ => none) path hpath
  unfold Call.outcome
  cases hgit : c.git with
  | works =>
    dsimp only
    rw [parseOutcome, if_pos rfl, parseCatFileBatch_batchOutput h.revision
      fun q hq => h.paths q (hsub q hq), getParsed_map hpath]
    rfl
  | raises =>
    dsimp only
    rw [parseOutcome, hfailed, hnone (by rw [hgit]; simp)]
  | exits code stdout failed =>
    dsimp only
    rw [parseOutcome, if_neg failed, parseCatFileBatch_nil, hfailed, hnone (by rw [hgit]; simp)]

theorem storePath_foldl {parsed : List (Text × Option Text)} (missing : List Text)
    (hparsed : ∀ path ∈ missing, getParsed parsed path = kept found (scope, revision, path))
    {s : Cache × List (Text × Option Text)} (hs : Faithful found s.1) :
    Faithful found (missing.foldl (storePath scope revision parsed) s).1 ∧
      (missing.foldl (storePath scope revision parsed) s).2 =
        s.2 ++ missing.map fun path => (path, getParsed parsed path) := by
  induction missing generalizing s with
  | nil => exact ⟨hs, (List.append_nil _).symm⟩
  | cons path missing ih =>
    have hstep : Faithful found (storePath scope revision parsed s path).1 :=
      (hs.set (hparsed path List.mem_cons_self)).moveToEnd _
    obtain ⟨hfaithful, hout⟩ := ih (fun q hq => hparsed q (List.mem_cons_of_mem _ hq)) hstep
    refine ⟨hfaithful, ?_⟩
    rw [List.foldl_cons, hout, storePath, List.append_assoc]
    rfl

/-- A dictionary whose values are those of a function of the key. -/
theorem lookup_of_forall {l : List (Text × Option Text)} {f : Text → Option Text}
    (h : ∀ e ∈ l, e.2 = f e.1) (path : Text) :
    l.lookup path = if path ∈ l.map Prod.fst then some (f path) else none := by
  induction l with
  | nil => rfl
  | cons e l ih =>
    rw [List.lookup_cons, ih fun e he => h e (List.mem_cons_of_mem _ he), List.map_cons]
    by_cases hp : path = e.1
    · subst hp
      simp [h e List.mem_cons_self]
    · rw [beq_false_of_ne hp]
      exact if_congr (by rw [List.mem_cons, or_iff_right hp]) rfl rfl

/-- **One harmless call** leaves a faithful cache, and returns the documents. -/
theorem read_faithful {c : Call} (hcache : Faithful found cache) (h : Harmless found cache c) :
    Faithful found (c.read found cache).cache ∧ ∀ path, (c.read found cache).document path =
      if path ∈ c.paths then some (kept found (c.scope, c.revision, path)) else none := by
  have hl := @looked found cache c.scope c.revision hcache c.paths
  unfold Call.read readGitFiles Read.document
  dsimp only
  generalize c.paths.foldl (lookupPath c.scope c.revision) ⟨cache, [], [], 0⟩ = l at hl
  have hsub : ∀ path ∈ l.missing, path ∈ c.paths := fun path hp => (hl.covers path).mpr (.inr hp)
  have hdocument : ∀ out : List (Text × Option Text),
      (∀ e ∈ out, e.2 = kept found (c.scope, c.revision, e.1)) →
      (∀ path, path ∈ c.paths ↔ path ∈ out.map Prod.fst) → ∀ path, out.reverse.lookup path =
        if path ∈ c.paths then some (kept found (c.scope, c.revision, path)) else none := by
    intro out hout hkeys path
    rw [@lookup_of_forall _ (fun path => kept found (c.scope, c.revision, path))
      (fun e he => hout e (List.mem_reverse.mp he)) path]
    refine if_congr ?_ rfl rfl
    rw [hkeys, List.map_reverse, List.mem_reverse]
  by_cases hm : l.missing = []
  · rw [if_pos hm]
    refine ⟨hl.faithful, hdocument l.out hl.out fun path => ?_⟩
    rw [hl.covers, hm]
    simp
  · rw [if_neg hm]
    have hparsed := getParsed_outcome h hsub hl.missing
    obtain ⟨hfaithful, hout⟩ :=
      storePath_foldl l.missing hparsed (s := (l.cache, l.out)) hl.faithful
    refine ⟨hfaithful.trim _, hdocument _ ?_ fun path => ?_⟩
    · rw [hout]
      intro e he
      rcases List.mem_append.mp he with he | he
      · exact hl.out e he
      · obtain ⟨path, hp, rfl⟩ := List.mem_map.mp he
        exact hparsed path hp
    · rw [hout, hl.covers, List.map_append, List.mem_append, List.map_map]
      simp

theorem uncached_document {c : Call} (h : Harmless found cache c) (path : Text) :
    (c.uncached found).document path =
      if path ∈ c.paths then some (kept found (c.scope, c.revision, path)) else none := by
  have hharmless : Harmless found OrderedDict.empty { c with git := .works } :=
    ⟨h.revision, h.paths, fun hne => absurd rfl hne⟩
  exact (read_faithful OrderedDict.all_empty hharmless).2 path

end Call

/-! ## A run is transparent -/

theorem transparent_of_faithful {found : Found} {cache : Cache} {calls : List Call}
    (hcache : Faithful found cache) (h : AllHarmless found cache calls) :
    Transparent found cache calls := by
  induction calls generalizing cache with
  | nil => trivial
  | cons c calls ih =>
    obtain ⟨hc, hrest⟩ := h
    obtain ⟨hfaithful, hdocument⟩ := read_faithful hcache hc
    refine ⟨fun _ path => ?_, ih hfaithful hrest⟩
    rw [hdocument, uncached_document hc]

/-- **The cache is transparent** in every run in which git fails only for documents that are cached
or do not exist. -/
theorem transparent_of_harmless (found : Found) (calls : List Call)
    (h : AllHarmless found OrderedDict.empty calls) :
    Transparent found OrderedDict.empty calls :=
  transparent_of_faithful OrderedDict.all_empty h

/-- One document. -/
def oneBlob : Blob := ⟨[], [104, 105], by simp, by decide⟩

theorem transparent_of_harmless_two : Transparent (fun _ _ _ => some oneBlob) OrderedDict.empty
    [⟨[], [], [['a']], .works⟩, ⟨[], [], [['a']], .raises⟩] := by
  refine transparent_of_harmless _ _ ⟨⟨by simp, by simp, fun h => absurd rfl h⟩,
    ⟨by simp, by simp, fun _ path hpath => .inl ?_⟩, trivial⟩
  obtain rfl := List.mem_singleton.mp hpath
  decide +kernel

/-- **A failure is kept**: the document is missing in the call after it. -/
theorem failure_is_kept : ¬∀ (found : Found) (calls : List Call),
    Transparent found OrderedDict.empty calls := by
  intro h
  have hrun := (h (fun _ _ _ => some oneBlob)
    [⟨[], [], [['a']], .raises⟩, ⟨[], [], [['a']], .works⟩]).2.1 rfl ['a']
  exact absurd hrun (by decide +kernel)

end StaticContext
