import AlmightyReview.Db
import Mathlib.Data.List.Sort

/-!
# The comment of a vendor

What a posting puts on the pull request: `formatter.build_comment` renders findings, and
`_comments_to_post` of the API chooses them.

* A comment has the sections of its findings in the order of their severity, cut at `bodyMaxLen`
  characters.
* `commentsToPost`: one comment for each vendor with a newly approved finding. `newIds` are the
  newly approved ones, `allIds` also those that were posted before and stay in the comment.
* The banner of the configuration is the argument `banner`.
-/

namespace Post

/-! ## Texts -/

/-- `f"{q:.2f}"`: two decimals, a tie to the even one. -/
def fixed2 (q : Rat) : Text :=
  let n := q.num.natAbs * 100
  let d := q.den
  let k :=
    if 2 * (n % d) < d then n / d
    else if d < 2 * (n % d) then n / d + 1
    else if n / d % 2 = 0 then n / d else n / d + 1
  let digits := Text.ofNat (k / 100) ++ '.' :: Text.ofNat (k / 10 % 10) ++ Text.ofNat (k % 10)
  if q < 0 then '-' :: digits else digits

def severityText : Severity → Text
  | .critical => "critical".toList
  | .high => "high".toList
  | .medium => "medium".toList
  | .low => "low".toList

/-- `_SEV_ORDER`. -/
def severityOrder : Severity → Nat
  | .critical => 0
  | .high => 1
  | .medium => 2
  | .low => 3

/-- `MARKER` of a vendor: the first line of its comment. -/
def reviewMarker (vendor : Text) : Text :=
  "<!-- almighty-review [".toList ++ vendor ++ "] -->".toList

def bodyMaxLen : Nat := 2600

/-- `_banner()`. -/
def bannerText (banner : Text) : Text :=
  let b := banner.strip
  if b = [] then [] else b ++ "\n\n".toList

/-! ## The body -/

/-- The section of one finding. -/
def sectionText (f : ReviewFinding) : Text :=
  "\n### [".toList ++ severityText f.severity ++ "] `".toList ++ f.file ++ ":".toList ++
    Text.ofInt f.line ++ "` — ".toList ++ f.category ++ "\n- **주장:** ".toList ++ f.claim ++
    "\n- **근거:** ".toList ++ f.rationale ++ "\n- **확신도:** ".toList ++ fixed2 f.confidence ++
    "\n".toList

/-- The note that stands for the `n` findings that are left out. -/
def omittedNote (n : Nat) : Text :=
  "\n_…severity 낮은 ".toList ++ Text.ofNat n ++ "건 생략 — 상세는 인라인 코멘트 참고_\n".toList

/-- The sections from place `i` on; the first is always there. -/
def addSections : List ReviewFinding → Nat → Text → Text
  | [], _, body => body
  | f :: fs, i, body =>
    if 0 < i ∧ bodyMaxLen < body.length + (sectionText f).length then
      body ++ omittedNote (f :: fs).length
    else addSections fs (i + 1) (body ++ sectionText f)

def buildComment (banner vendor : Text) (findings : List ReviewFinding) : Text :=
  let head := bannerText banner ++ reviewMarker vendor ++ "\n## 🤖 ".toList ++ vendor ++
    " 리뷰\n".toList
  match findings.insertionSort fun a b => severityOrder a.severity ≤ severityOrder b.severity with
  | [] => head ++ "\n발견된 이슈 없음. ✅\n".toList
  | top :: ordered =>
    addSections (top :: ordered) 0 (head ++ "> 요약: **".toList ++ Text.ofNat findings.length ++
      "건** · 최고 severity **".toList ++ severityText top.severity ++ "**\n".toList)

/-! ## The findings -/

/-- `confidence DESC`: `NULL` comes last. -/
def confidenceBefore : Option Rat → Option Rat → Bool
  | some a, some b => b < a
  | some _, none => true
  | none, _ => false

def consensusOrder : Consensus → Nat
  | .consensus => 0
  | .single => 1

/-- The order of `list_for_run`: severity, consensus, confidence, file. -/
def listedBefore (a b : Finding) : Prop :=
  severityOrder a.severity < severityOrder b.severity ∨
    severityOrder a.severity = severityOrder b.severity ∧
      (consensusOrder a.consensus < consensusOrder b.consensus ∨
        consensusOrder a.consensus = consensusOrder b.consensus ∧
          (confidenceBefore a.confidence b.confidence = true ∨
            a.confidence = b.confidence ∧ a.file ≤ b.file))

instance : DecidableRel listedBefore := fun a b => by
  unfold listedBefore
  infer_instance

/-- The findings of a run, in the order of the list; ties stay in the order of insertion. -/
def listForRun (db : Db) (runId : Nat) : List Finding :=
  (db.findings.rows.filter fun f => f.runId == runId).insertionSort listedBefore

/-- `POSTABLE_FINDING_STATUSES`. -/
def postable (s : FindingStatus) : Bool := s == .approved || s == .edited

/-- `DISPLAYED_FINDING_STATUSES`. -/
def displayed (s : FindingStatus) : Bool := postable s || s == .posted

/-- `x or y` of two texts. -/
def orText (x : Option Text) (y : Text) : Text :=
  match x with
  | none => y
  | some t => if t = [] then y else t

/-- `_row_to_finding`. -/
def rowToFinding (f : Finding) : ReviewFinding where
  vendor := f.vendor
  file := f.file
  line := f.line
  severity := f.severity
  category := f.category
  claim := orText f.editedText f.claim
  rationale := f.rationale
  confidence := f.confidence.getD 0

/-- What a posting of one vendor puts on the pull request. -/
structure VendorComment where
  vendor : Text
  body : Text
  findings : List ReviewFinding
  newIds : List Nat
  allIds : List Nat
  deriving DecidableEq, Repr

/-- The eligible findings of the run. -/
def eligible (db : Db) (runId : Nat) : List Finding :=
  (listForRun db runId).filter fun f => f.postingEligible

/-- The newly approved findings of the run. -/
def pendingOf (db : Db) (runId : Nat) : List Finding :=
  (eligible db runId).filter fun f => postable f.status

/-- The findings that the comments of the run show. -/
def displayOf (db : Db) (runId : Nat) : List Finding :=
  (eligible db runId).filter fun f => displayed f.status

/-- The comment of one vendor. -/
def vendorComment (banner : Text) (db : Db) (runId : Nat) (vendor : Text) : VendorComment :=
  let pending := (pendingOf db runId).filter fun f => f.vendor == vendor
  let display := (displayOf db runId).filter fun f => f.vendor == vendor
  { vendor := vendor
    body := buildComment banner vendor (display.map rowToFinding)
    findings := display.map rowToFinding
    newIds := pending.map (·.id)
    allIds := display.map (·.id) }

/-- The comments to post, in the order in which the vendors appear. -/
def commentsToPost (banner : Text) (db : Db) (runId : Nat) : List VendorComment :=
  (((pendingOf db runId).map (·.vendor)).eraseDups).map (vendorComment banner db runId)

/-! ## Which findings a comment posts -/

end Post
