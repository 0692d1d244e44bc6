import AlmightyReview.Lib.Loads
import AlmightyReview.Post.Comment

/-!
# Cut comments

`formatter.build_comment` for any findings: a severity may be a text that the order does not know,
and a confidence any float.

* `bodyLoop`: the loop over the sections. `bodyLoop_cut`: it shows some first sections, and a note
  when others are left.
* `filter_insertionSort`: the order by severity is stable.
* `buildComment_eq`: the comment of a posting is that of findings that say the same.
-/

namespace Formatter

open Post (bannerText reviewMarker bodyMaxLen omittedNote)

/-! ## The comment -/

/-- What a comment reads of a finding. -/
structure Finding where
  file : Text
  line : Int
  severity : Text
  category : Text
  claim : Text
  rationale : Text
  confidence : Json.PyFloat

/-- `_SEV_ORDER.get(severity, 9)`. -/
def sevOrder (severity : Text) : Nat :=
  ([("critical".toList, 0), ("high".toList, 1), ("medium".toList, 2),
    ("low".toList, 3)].lookup severity).getD 9

/-- `f"{x:.2f}"`. -/
def fixed2 : Json.PyFloat → Text
  | .finite x => if x.negative then '-' :: Post.fixed2 x.magnitude else Post.fixed2 x.magnitude
  | .inf negative => if negative then "-inf".toList else "inf".toList
  | .nan => "nan".toList

def sectionText (f : Finding) : Text :=
  "\n### [".toList ++ f.severity ++ "] `".toList ++ f.file ++ ":".toList ++
    Text.ofInt f.line ++ "` — ".toList ++ f.category ++ "\n- **주장:** ".toList ++ f.claim ++
    "\n- **근거:** ".toList ++ f.rationale ++ "\n- **확신도:** ".toList ++ fixed2 f.confidence ++
    "\n".toList

/-- The loop over the findings from place `i` on, of `total` findings. -/
def bodyLoop (total : Nat) : List Finding → Nat → Text → Text
  | [], _, body => body
  | f :: fs, i, body =>
    if 0 < i ∧ bodyMaxLen < body.length + (sectionText f).length then
      body ++ omittedNote (total - i)
    else bodyLoop total fs (i + 1) (body ++ sectionText f)

/-- `sorted(findings, key=...)`. -/
def ordered (findings : List Finding) : List Finding :=
  findings.insertionSort fun a b => sevOrder a.severity ≤ sevOrder b.severity

/-- The banner and the header above the sections. -/
def header (banner vendor : Text) (findings : List Finding) (top : Text) : Text :=
  bannerText banner ++ reviewMarker vendor ++ "\n## 🤖 ".toList ++ vendor ++ " 리뷰\n".toList ++
    "> 요약: **".toList ++ Text.ofNat findings.length ++ "건** · 최고 severity **".toList ++ top ++
    "**\n".toList

def buildComment (banner vendor : Text) (findings : List Finding) : Text :=
  match ordered findings with
  | [] => bannerText banner ++ reviewMarker vendor ++ "\n## 🤖 ".toList ++ vendor ++
      " 리뷰\n\n발견된 이슈 없음. ✅\n".toList
  | f :: fs => bodyLoop findings.length (f :: fs) 0 (header banner vendor findings f.severity)

/-! ## The order -/

/-- Elements with one key stay in their order. -/
theorem filter_insertionSort {α : Type} (key : α → Nat) (l : List α) (k : Nat) :
    (l.insertionSort fun a b => key a ≤ key b).filter (fun a => key a = k) =
      l.filter fun a => key a = k := by
  have hsame : (l.filter fun a => key a = k).Pairwise fun a b => key a ≤ key b := by
    rw [List.pairwise_filter]
    refine List.pairwise_of_forall fun a b ha hb => ?_
    rw [of_decide_eq_true ha, of_decide_eq_true hb]
  have hsub : (l.filter fun a => key a = k).Sublist (l.insertionSort fun a b => key a ≤ key b) :=
    List.sublist_insertionSort hsame List.filter_sublist
  have hsub' := hsub.filter fun a => key a = k
  simp only [List.filter_filter, Bool.and_self] at hsub'
  refine (hsub'.eq_of_length ?_).symm
  exact (((l.perm_insertionSort fun a b => key a ≤ key b).filter _).length_eq).symm

theorem pairwise_ordered (findings : List Finding) :
    (ordered findings).Pairwise fun a b => sevOrder a.severity ≤ sevOrder b.severity :=
  findings.pairwise_insertionSort _

theorem length_ordered (findings : List Finding) : (ordered findings).length = findings.length :=
  findings.length_insertionSort _

/-! ## The cut -/

/-- The sections of findings. -/
def sections (fs : List Finding) : Text := fs.flatMap sectionText

theorem sections_cons (f : Finding) (fs : List Finding) :
    sections (f :: fs) = sectionText f ++ sections fs := rfl

/-- **The loop** shows the first `k` sections, and says how many it leaves out. -/
theorem bodyLoop_cut {total i : Nat} {fs : List Finding} {body : Text} (h : i + fs.length = total)
    (hbody : 0 < i → body.length ≤ bodyMaxLen ∨ i = 1) :
    ∃ k ≤ fs.length, bodyLoop total fs i body = body ++ sections (fs.take k) ++
        (if k = fs.length then [] else omittedNote (fs.length - k)) ∧
      (i = 0 → fs ≠ [] → 0 < k) ∧
      ((body ++ sections (fs.take k)).length ≤ bodyMaxLen ∨ i + k ≤ 1) := by
  induction fs generalizing i body with
  | nil =>
    refine ⟨0, le_rfl, by simp [bodyLoop, sections], fun _ hne => absurd rfl hne, ?_⟩
    rcases Nat.eq_zero_or_pos i with rfl | hi
    · exact .inr (Nat.zero_le _)
    · rcases hbody hi with hlen | rfl
      · exact .inl (by simpa [sections] using hlen)
      · exact .inr le_rfl
  | cons f fs ih =>
    rw [List.length_cons] at h
    rw [bodyLoop]
    by_cases hcut : 0 < i ∧ bodyMaxLen < body.length + (sectionText f).length
    · rw [if_pos hcut]
      refine ⟨0, Nat.zero_le _, ?_, fun hi => absurd hcut.1 (by omega), ?_⟩
      · rw [if_neg (by simp), List.length_cons, show total - i = fs.length + 1 - 0 by omega]
        simp [sections]
      · rcases hbody hcut.1 with hlen | rfl
        · exact .inl (by simpa [sections] using hlen)
        · exact .inr le_rfl
    · rw [if_neg hcut]
      have hnext : 0 < i + 1 → (body ++ sectionText f).length ≤ bodyMaxLen ∨ i + 1 = 1 := by
        intro _
        rw [List.length_append]
        rcases Nat.eq_zero_or_pos i with rfl | hi
        · exact .inr rfl
        · exact .inl (Nat.not_lt.mp fun hlt => hcut ⟨hi, hlt⟩)
      obtain ⟨k, hk, heq, -, hlen⟩ := @ih (i + 1) (body ++ sectionText f) (by omega) hnext
      refine ⟨k + 1, Nat.succ_le_succ hk, ?_, fun _ _ => Nat.succ_pos k, ?_⟩
      · rw [heq, List.take_succ_cons, sections_cons, List.length_cons, Nat.add_sub_add_right]
        simp [List.append_assoc]
      · rw [List.take_succ_cons, sections_cons, ← List.append_assoc]
        rcases hlen with hlen | hlen
        · exact .inl hlen
        · exact .inr (by omega)

/-- **Truncation drops the least severe first.** The comment shows the first `k` findings of the
stable order by severity, and says that the other ones are left out when there are some; what it
shows is as long as the limit at most, unless the header and the first section are longer. -/
theorem buildComment_cut (banner vendor : Text) (findings : List Finding) (h : findings ≠ []) :
    ∃ k top, 0 < k ∧ k ≤ findings.length ∧ (ordered findings).head? = some top ∧
      buildComment banner vendor findings = header banner vendor findings top.severity ++
        sections ((ordered findings).take k) ++
        (if k = findings.length then [] else omittedNote (findings.length - k)) ∧
      (ordered findings).Perm findings ∧
      (∀ n, (ordered findings).filter (fun f => sevOrder f.severity = n) =
        findings.filter fun f => sevOrder f.severity = n) ∧
      (∀ f ∈ (ordered findings).take k, ∀ g ∈ (ordered findings).drop k,
        sevOrder f.severity ≤ sevOrder g.severity) ∧
      ((header banner vendor findings top.severity ++
          sections ((ordered findings).take k)).length ≤ bodyMaxLen ∨
        bodyMaxLen < (header banner vendor findings top.severity ++ sectionText top).length) := by
  have hlength := length_ordered findings
  have hne : ordered findings ≠ [] := by
    rw [← List.length_pos_iff, hlength]
    exact List.length_pos_iff.mpr h
  have hsorted := pairwise_ordered findings
  have hperm : (ordered findings).Perm findings := findings.perm_insertionSort _
  have hstable := filter_insertionSort (fun f : Finding => sevOrder f.severity) findings
  obtain ⟨top, fs, hfs⟩ := List.exists_cons_of_ne_nil hne
  obtain ⟨k, hk, heq, hpos, hlen⟩ := @bodyLoop_cut findings.length 0 (top :: fs)
    (header banner vendor findings top.severity) (by rw [← hfs, hlength, Nat.zero_add])
    fun hi => absurd hi (Nat.lt_irrefl 0)
  rw [← hfs, hlength] at hk heq
  refine ⟨k, top, hpos rfl (by simp), hk, by rw [hfs]; rfl, ?_, hperm, hstable, ?_, ?_⟩
  · rw [← heq, buildComment, hfs]
  · have hsplit := (List.take_append_drop k (ordered findings)).symm ▸ hsorted
    exact fun f hf g hg => (List.pairwise_append.mp hsplit).2.2 f hf g hg
  · rw [hfs]
    rcases hlen with hlen | hlen
    · exact .inl hlen
    · obtain rfl : k = 1 := by
        have := hpos rfl (by simp)
        omega
      rw [List.take_succ_cons, List.take_zero, sections_cons]
      rcases Nat.lt_or_ge bodyMaxLen
        (header banner vendor findings top.severity ++ sectionText top).length with hlt | hle
      · exact .inr hlt
      · exact .inl (by simpa [sections] using hle)

theorem buildComment_cut_one : ∃ k top, 0 < k ∧
    (ordered [⟨[], 1, "high".toList, [], [], [], .nan⟩]).head? = some top ∧
    buildComment [] [] [⟨[], 1, "high".toList, [], [], [], .nan⟩] =
      header [] [] [⟨[], 1, "high".toList, [], [], [], .nan⟩] top.severity ++
        sections ((ordered [⟨[], 1, "high".toList, [], [], [], .nan⟩]).take k) ++
        (if k = 1 then [] else omittedNote (1 - k)) := by
  obtain ⟨k, top, hpos, -, htop, heq, -⟩ :=
    buildComment_cut [] [] [⟨[], 1, "high".toList, [], [], [], .nan⟩] (by simp)
  exact ⟨k, top, hpos, htop, heq⟩

/-! ## The comment of a posting -/

/-- A finding of the database and one of a comment say the same. -/
structure Says (f : ReviewFinding) (g : Finding) : Prop where
  file : g.file = f.file
  line : g.line = f.line
  severity : g.severity = Post.severityText f.severity
  category : g.category = f.category
  claim : g.claim = f.claim
  rationale : g.rationale = f.rationale
  confidence : fixed2 g.confidence = Post.fixed2 f.confidence

theorem Says.sectionText {f : ReviewFinding} {g : Finding} (h : Says f g) :
    sectionText g = Post.sectionText f := by
  unfold Formatter.sectionText Post.sectionText
  rw [h.file, h.line, h.severity, h.category, h.claim, h.rationale, h.confidence]

theorem Says.sevOrder {f : ReviewFinding} {g : Finding} (h : Says f g) :
    sevOrder g.severity = Post.severityOrder f.severity := by
  rw [h.severity]
  cases f.severity
  · decide +kernel
  · decide +kernel
  · decide +kernel
  · decide +kernel

theorem forall₂_orderedInsert {f : ReviewFinding} {g : Finding} {fs : List ReviewFinding}
    {gs : List Finding} (h : Says f g) (hs : List.Forall₂ Says fs gs) :
    List.Forall₂ Says
      (fs.orderedInsert
        (fun a b => Post.severityOrder a.severity ≤ Post.severityOrder b.severity) f)
      (gs.orderedInsert (fun a b => sevOrder a.severity ≤ sevOrder b.severity) g) := by
  induction hs with
  | nil => exact .cons h .nil
  | cons h' hs ih =>
    rw [List.orderedInsert_cons, List.orderedInsert_cons, h.sevOrder, h'.sevOrder]
    split
    · exact .cons h (.cons h' hs)
    · exact .cons h' ih

theorem forall₂_ordered {fs : List ReviewFinding} {gs : List Finding}
    (h : List.Forall₂ Says fs gs) : List.Forall₂ Says
      (fs.insertionSort fun a b => Post.severityOrder a.severity ≤ Post.severityOrder b.severity)
      (ordered gs) := by
  induction h with
  | nil => exact .nil
  | cons h hs ih => exact forall₂_orderedInsert h ih

theorem bodyLoop_eq {total i : Nat} {fs : List ReviewFinding} {gs : List Finding} {body : Text}
    (h : List.Forall₂ Says fs gs) (htotal : i + fs.length = total) :
    bodyLoop total gs i body = Post.addSections fs i body := by
  induction h generalizing i body with
  | nil => rfl
  | @cons f g fs gs h hs ih =>
    rw [List.length_cons] at htotal
    rw [bodyLoop, Post.addSections, h.sectionText, ih (by omega), List.length_cons,
      show total - i = fs.length + 1 by omega]

/-- **The comment of a posting** is the one of findings that say the same. -/
theorem buildComment_eq (banner vendor : Text) {fs : List ReviewFinding} {gs : List Finding}
    (h : List.Forall₂ Says fs gs) : buildComment banner vendor gs =
      Post.buildComment banner vendor fs := by
  have hlen := h.length_eq
  have hordered := forall₂_ordered h
  have hn := fs.length_insertionSort fun a b =>
    Post.severityOrder a.severity ≤ Post.severityOrder b.severity
  unfold buildComment Post.buildComment
  generalize fs.insertionSort (fun a b => Post.severityOrder a.severity ≤
    Post.severityOrder b.severity) = fs' at hordered hn
  generalize ordered gs = gs' at hordered
  cases hordered with
  | nil => simp
  | cons h' hs' =>
    dsimp only
    rw [bodyLoop_eq (.cons h' hs') (by rw [Nat.zero_add, hn, hlen]), header, h'.severity, hlen]

end Formatter
