import AlmightyReview.Diff.Quote

/-!
# Changed files of a diff

`parse_changed_files` of the context providers reads the paths of the changed files with a pattern
of its own.

* `headerFile`: what the pattern `^diff --git .* "?b/(.+?)"?$` captures of a line. The blank before
  `b/` is the last one that leaves something to capture.
* `parseChangedFiles`: the captured paths in order, without repetitions.
* `escaped`: a path as git writes it between quotes. The pattern leaves the escapes as they are
  (`parseChangedFiles_render`), and `splitFileBlocks` decodes them.
* `changedFiles_agree`: where both find the paths they have the same ones, up to these escapes.
-/

namespace DiffFilter

open Unified

/-! ## The pattern -/

/-- `(.+?)"?$` -/
def captured (s : Text) : Option Text :=
  if s = [] then none
  else if 2 ≤ s.length ∧ s.getLast? = some '"' then some s.dropLast
  else some s

/-- `"?b/(.+?)"?$` -/
def targetHere : Text → Option Text
  | '"' :: 'b' :: '/' :: s => captured s
  | 'b' :: '/' :: s => captured s
  | _ => none

/-- `.* "?b/(.+?)"?$`, where `.*` takes as much as it can. -/
def lastTarget : Text → Option Text
  | [] => none
  | c :: s => (lastTarget s).or (if c = ' ' then targetHere s else none)

/-- What the pattern captures of a line. -/
def headerFile (line : Text) : Option Text :=
  if line.startsWith "diff --git ".toList then lastTarget (line.drop 11) else none

/-- The step of the loop: a path that is not empty and was not seen. -/
def addFile (seen : List Text) (path : Text) : List Text :=
  if path ≠ [] ∧ path ∉ seen then seen ++ [path] else seen

def parseChangedFiles (diff : Text) : List Text :=
  ((Text.lines diff).filterMap fun line => headerFile (headerText line)).foldl
    (fun seen g => addFile seen g.strip) []

example : parseChangedFiles "diff --git a/x b/x\n+y\ndiff --git a/x \"b/\\351\"\n".toList =
    ["x".toList, "\\351".toList] := by decide +kernel

/-- The target paths of blocks, in order and without repetitions. -/
def targetPaths (blocks : List (Text × Text)) : List Text :=
  (blocks.map Prod.fst).foldl addFile []

/-! ## The last target -/

theorem lastTarget_of_not_mem {u : Text} (h : ' ' ∉ u) (s : Text) :
    lastTarget (u ++ s) = lastTarget s := by
  induction u with
  | nil => rfl
  | cons c u ih =>
    rw [List.mem_cons, not_or] at h
    rw [List.cons_append, lastTarget, ih h.2, if_neg (Ne.symm h.1), Option.or_none]

/-- A target with none after it is the last one. -/
theorem lastTarget_append {u s g : Text} (hs : lastTarget s = none) (hg : targetHere s = some g) :
    lastTarget (u ++ ' ' :: s) = some g := by
  induction u with
  | nil => rw [List.nil_append, lastTarget, hs, if_pos rfl, hg, Option.none_or]
  | cons c u ih => rw [List.cons_append, lastTarget, ih, Option.some_or]

/-! ## Paths as git writes them -/

/-- The path as git writes it, without the quotes around it. -/
def escaped (path : Text) : Text := (Text.encode path).flatMap escapeByte

def escapeChar (c : Char) : Text := (Text.utf8 c).flatMap escapeByte

theorem escaped_cons (c : Char) (path : Text) :
    escaped (c :: path) = escapeChar c ++ escaped path := by
  rw [escaped, Text.encode, List.flatMap_cons, List.flatMap_append]
  rfl

theorem escapeChar_plain {c : Char} (h : isPlainPathChar c = true) : escapeChar c = [c] := by
  obtain ⟨hrange, h34, h92⟩ := toNat_of_plain h
  rw [escapeChar, utf8_of_lt (by omega), List.flatMap_singleton, escapeByte_plain hrange h34 h92,
    Char.ofNat_toNat]

/-- The escape of a byte begins with a backslash and has no blank. -/
theorem escapeByte_special {b : Nat} (h : ¬(32 ≤ b ∧ b < 127) ∨ b = 34 ∨ b = 92) :
    ∃ t, escapeByte b = '\\' :: t ∧ ' ' ∉ t := by
  by_cases hl : 7 ≤ b ∧ b ≤ 13
  · obtain ⟨h₁, h₂⟩ := hl
    interval_cases b <;> exact ⟨_, rfl, by decide⟩
  rcases h with h | rfl | rfl
  · refine ⟨_, escapeByte_octal hl h, ?_⟩
    have hd : ∀ n, ' ' ≠ Nat.digitChar (n % 8) := by
      intro n he
      have := toNat_digitChar n
      rw [← he] at this
      have : ' '.toNat = 32 := rfl
      omega
    simp [hd]
  · exact ⟨_, rfl, by decide⟩
  · exact ⟨_, rfl, by decide⟩

theorem escapeChar_special {c : Char} (h : isPlainPathChar c = false) :
    ∃ t, escapeChar c = '\\' :: t ∧ ' ' ∉ t := by
  have hbytes : ∀ b ∈ Text.utf8 c, ¬(32 ≤ b ∧ b < 127) ∨ b = 34 ∨ b = 92 := by
    intro b hb
    by_cases hc : c.toNat < 0x80
    · rw [utf8_of_lt hc, List.mem_singleton] at hb
      subst hb
      by_contra hno
      simp only [not_or, not_not] at hno
      have hplain : isPlainPathChar c = true := by
        simp only [isPlainPathChar, Bool.and_eq_true, decide_eq_true_eq, bne_iff_ne]
        exact ⟨⟨hno.1, fun he => hno.2.1 (he ▸ rfl)⟩, fun he => hno.2.2 (he ▸ rfl)⟩
      rw [hplain] at h
      cases h
    · have := mem_utf8_wide (by omega) hb
      exact .inl (by omega)
  have hall : ∀ bytes : List Nat, (∀ b ∈ bytes, ¬(32 ≤ b ∧ b < 127) ∨ b = 34 ∨ b = 92) →
      ' ' ∉ bytes.flatMap escapeByte := by
    intro bytes hb hm
    obtain ⟨b, hbm, hm⟩ := List.mem_flatMap.mp hm
    obtain ⟨t, ht, hno⟩ := escapeByte_special (hb b hbm)
    rw [ht] at hm
    rcases List.mem_cons.mp hm with hm | hm
    · exact absurd hm (by decide)
    · exact hno hm
  obtain ⟨b, bs, hutf⟩ := List.exists_cons_of_ne_nil (Text.utf8_ne_nil c)
  rw [hutf] at hbytes
  obtain ⟨t, ht, hno⟩ := escapeByte_special (hbytes b List.mem_cons_self)
  refine ⟨t ++ bs.flatMap escapeByte, ?_, ?_⟩
  · rw [escapeChar, hutf, List.flatMap_cons, ht]
    rfl
  · rw [List.mem_append, not_or]
    exact ⟨hno, hall bs fun b hb => hbytes b (List.mem_cons_of_mem _ hb)⟩

/-- A path without quotes is written as it is. -/
theorem escaped_plain {path : Text} (h : path.all isPlainPathChar = true) :
    escaped path = path := by
  induction path with
  | nil => rfl
  | cons c path ih =>
    rw [List.all_cons, Bool.and_eq_true] at h
    rw [escaped_cons, escapeChar_plain h.1, ih h.2]
    rfl

/-! ## Paths that the pattern finds -/

/-- **Found**: nothing in the path looks like the beginning of the target, and the path has no
blank at its ends, which `strip` would take. -/
structure Found (path : Text) : Prop where
  inner : ¬ " b/".toList <:+: path
  head : path.head? ≠ some ' '
  last : path.getLast? ≠ some ' '

/-- What a written path begins with. -/
theorem escaped_head {c : Char} {path t : Text} (hc : c ≠ '\\') (h : escaped path = c :: t) :
    ∃ path', path = c :: path' ∧ t = escaped path' := by
  cases path with
  | nil => cases h
  | cons d path =>
    rw [escaped_cons] at h
    by_cases hd : isPlainPathChar d = true
    · rw [escapeChar_plain hd, List.singleton_append] at h
      obtain ⟨rfl, rfl⟩ := List.cons.inj h
      exact ⟨path, rfl, rfl⟩
    · obtain ⟨u, hu, -⟩ := escapeChar_special (by simpa using hd)
      rw [hu, List.cons_append] at h
      exact absurd (List.cons.inj h).1.symm hc

theorem escaped_append_head {c : Char} {path tail t : Text} (htail : tail = [] ∨ tail = ['"'])
    (hs : c ≠ '\\') (hq : c ≠ '"') (h : escaped path ++ tail = c :: t) :
    ∃ path', path = c :: path' ∧ t = escaped path' ++ tail := by
  cases hp : escaped path with
  | nil =>
    rw [hp, List.nil_append] at h
    rcases htail with rfl | rfl
    · cases h
    · exact absurd (List.cons.inj h).1.symm hq
  | cons d u =>
    rw [hp, List.cons_append] at h
    obtain ⟨rfl, rfl⟩ := List.cons.inj h
    obtain ⟨path', hpath, rfl⟩ := escaped_head hs hp
    exact ⟨path', hpath, rfl⟩

/-- The rest of a written path is no target unless the path has one there. -/
theorem targetHere_escaped {path tail : Text} (htail : tail = [] ∨ tail = ['"'])
    (h : ¬ ['b', '/'] <+: path) : targetHere (escaped path ++ tail) = none := by
  unfold targetHere
  split
  · -- a quote is written with an escape
    rename_i s he
    exfalso
    cases hp : escaped path with
    | nil =>
      rw [hp, List.nil_append] at he
      rcases htail with rfl | rfl
      · cases he
      · cases he
    | cons d u =>
      rw [hp, List.cons_append] at he
      obtain ⟨rfl, -⟩ := List.cons.inj he
      obtain ⟨path', rfl, -⟩ := escaped_head (by decide) hp
      have hquote : escapeChar '"' = ['\\', '"'] := by decide
      rw [escaped_cons, hquote, List.cons_append] at hp
      exact absurd (List.cons.inj hp).1 (by decide)
  · rename_i s he
    obtain ⟨path', rfl, he'⟩ := escaped_append_head htail (by decide) (by decide) he
    obtain ⟨path'', rfl, -⟩ := escaped_append_head htail (by decide) (by decide) he'.symm
    exact absurd ⟨path'', rfl⟩ h
  · rfl

theorem lastTarget_escaped {path tail : Text} (htail : tail = [] ∨ tail = ['"'])
    (h : ¬ [' ', 'b', '/'] <:+: path) : lastTarget (escaped path ++ tail) = none := by
  induction path with
  | nil => rcases htail with rfl | rfl <;> rfl
  | cons c path ih =>
    have hpath : lastTarget (escaped path ++ tail) = none :=
      ih fun hi => h (hi.trans (List.suffix_cons c path).isInfix)
    rw [escaped_cons, List.append_assoc]
    by_cases hc : c = ' '
    · subst hc
      have hnone : targetHere (escaped path ++ tail) = none :=
        targetHere_escaped htail fun hp => h ((List.prefix_cons_inj ' ').mpr hp).isInfix
      rw [escapeChar_plain (by decide), List.singleton_append, lastTarget, hpath, hnone]
      rfl
    · by_cases hp : isPlainPathChar c = true
      · rw [escapeChar_plain hp, lastTarget_of_not_mem (by simpa using Ne.symm hc), hpath]
      · obtain ⟨t, ht, hno⟩ := escapeChar_special (by simpa using hp)
        rw [ht, lastTarget_of_not_mem (by simp [hno]), hpath]

theorem getLast?_escaped {path : Text} (h : path.getLast? ≠ some ' ') :
    (escaped path).getLast? ≠ some ' ' := by
  rcases List.eq_nil_or_concat path with rfl | ⟨init, c, rfl⟩
  · simp [escaped, Text.encode]
  rw [List.concat_eq_append, List.getLast?_concat] at h
  have hsplit : escaped (init.concat c) = escaped init ++ escapeChar c := by
    rw [List.concat_eq_append, escaped, Text.encode, List.flatMap_append, List.flatMap_append,
      List.flatMap_singleton]
    rfl
  rw [hsplit]
  by_cases hp : isPlainPathChar c = true
  · rwa [escapeChar_plain hp, List.getLast?_concat]
  · obtain ⟨t, ht, hno⟩ := escapeChar_special (by simpa using hp)
    rw [ht]
    intro hm
    rw [List.getLast?_append_of_ne_nil _ (List.cons_ne_nil _ _)] at hm
    rcases List.mem_cons.mp (List.mem_of_getLast? hm) with hm | hm
    · exact absurd hm (by decide)
    · exact hno hm

theorem printable_escaped (path : Text) : Printable (escaped path) := by
  intro c hc
  obtain ⟨b, -, hc⟩ := List.mem_flatMap.mp hc
  exact printable_escapeByte b c hc

/-- `strip` takes only blanks from a printable text. -/
theorem strip_printable {s : Text} (h : Printable s) (hhead : s.head? ≠ some ' ')
    (hlast : s.getLast? ≠ some ' ') : s.strip = s := by
  have hspace : ∀ c ∈ s, c ≠ ' ' → Text.isSpace c = false := by
    intro c hc hne
    obtain ⟨h₁, h₂⟩ := h c hc
    have h32 : c.toNat ≠ 32 := fun he => hne (Char.toNat_inj.mp (he.trans (by rfl)))
    simp only [Text.isSpace, Bool.or_eq_false_iff, Bool.and_eq_false_iff, decide_eq_false_iff_not,
      beq_eq_false_iff_ne]
    omega
  have hstart : ∀ u : Text, (∀ c ∈ u.head?, Text.isSpace c = false) →
      u.dropWhile Text.isSpace = u := by
    intro u hu
    cases u with
    | nil => rfl
    | cons c u => rw [List.dropWhile_cons_of_neg (by simp [hu c rfl])]
  have hl : s.lstrip = s := by
    refine hstart s fun c hc => hspace c (List.mem_of_mem_head? hc) ?_
    rintro rfl
    exact hhead hc
  have hr : s.reverse.dropWhile Text.isSpace = s.reverse := by
    refine hstart _ fun c hc => ?_
    rw [List.head?_reverse] at hc
    refine hspace c (List.mem_of_getLast? hc) ?_
    rintro rfl
    exact hlast hc
  rw [Text.strip, hl, Text.rstrip, hr, List.reverse_reverse]

theorem escaped_b (path : Text) : escaped ("b/".toList ++ path) = 'b' :: '/' :: escaped path := by
  show escaped ('b' :: '/' :: path) = _
  rw [escaped_cons, escaped_cons, escapeChar_plain (by decide), escapeChar_plain (by decide)]
  rfl

theorem escaped_ne_nil {path : Text} (h : path ≠ []) : escaped path ≠ [] := by
  obtain ⟨c, path, rfl⟩ := List.exists_cons_of_ne_nil h
  rw [escaped_cons]
  by_cases hp : isPlainPathChar c = true
  · rw [escapeChar_plain hp]
    exact List.cons_ne_nil _ _
  · obtain ⟨t, ht, -⟩ := escapeChar_special (by simpa using hp)
    rw [ht]
    exact List.cons_ne_nil _ _

theorem headerFile_append (s : Text) : headerFile ("diff --git ".toList ++ s) = lastTarget s := by
  have hlen : "diff --git ".toList.length = 11 := by decide +kernel
  have hstart : Text.startsWith ("diff --git ".toList ++ s) "diff --git ".toList = true :=
    List.isPrefixOf_iff_prefix.mpr (List.prefix_append _ _)
  rw [headerFile, if_pos hstart, ← hlen, List.drop_left]

theorem header_eq (f : File) : f.header = "diff --git ".toList ++
    (quotePath ("a/".toList ++ f.oldPath) ++ ' ' :: quotePath ("b/".toList ++ f.newPath)) :=
  List.append_assoc _ _ _

/-- **The pattern captures** the path of the new side, as git writes it. -/
theorem headerFile_header {f : File} (h : Found f.newPath) :
    headerFile f.header = some (escaped f.newPath) := by
  have hne := escaped_ne_nil f.newPath_ok
  have hinner : ¬ [' ', 'b', '/'] <:+: f.newPath := h.inner
  rw [header_eq, headerFile_append]
  by_cases hall : ("b/".toList ++ f.newPath).all isPlainPathChar = true
  · have hplain : f.newPath.all isPlainPathChar = true := by
      rw [List.all_append, Bool.and_eq_true] at hall
      exact hall.2
    have hwritten := escaped_plain hplain
    rw [quotePath, quotePath, if_pos hall, hwritten]
    refine lastTarget_append ?_ ?_
    · have hnone := lastTarget_escaped (.inl rfl) hinner
      rw [List.append_nil, hwritten] at hnone
      rw [lastTarget_of_not_mem (by decide), hnone]
    · show captured f.newPath = _
      rw [captured, if_neg f.newPath_ok, if_neg]
      rintro ⟨-, hquote⟩
      have := List.all_eq_true.mp hplain _ (List.mem_of_getLast? hquote)
      exact absurd this (by decide)
  · rw [quotePath, quotePath, if_neg hall]
    show lastTarget (_ ++ ' ' :: '"' :: (escaped ("b/".toList ++ f.newPath) ++ ['"'])) = _
    rw [escaped_b, List.cons_append, List.cons_append]
    refine lastTarget_append ?_ ?_
    · have hnone := lastTarget_escaped (.inr rfl) hinner
      exact (lastTarget_of_not_mem (u := ['"', 'b', '/']) (by decide) _).trans hnone
    · show captured (escaped f.newPath ++ ['"']) = _
      rw [captured, if_neg (by simp), if_pos, List.dropLast_concat]
      refine ⟨?_, List.getLast?_concat⟩
      have := List.length_pos_iff.mpr hne
      rw [List.length_append, List.length_singleton]
      omega

/-! ## The paths of a diff -/

/-- **`parse_changed_files`** gives the target paths as git writes them. -/
theorem parseChangedFiles_render {files : List File} (h : ∀ f ∈ files, Found f.newPath) :
    parseChangedFiles (render files) =
      (files.map fun f => escaped f.newPath).foldl addFile [] := by
  have hbody : ∀ f : File, (f.bodies.map ended).filterMap
      (fun line => headerFile (headerText line)) = [] := by
    intro f
    rw [List.filterMap_map, List.filterMap_eq_nil_iff]
    intro s hs
    obtain ⟨hn, hstart⟩ := bodies_ok hs
    rw [Function.comp_apply, headerText_ended hn, headerFile, hstart]
    rfl
  have hcaptured : (Text.lines (render files)).filterMap
      (fun line => headerFile (headerText line)) = files.map fun f => escaped f.newPath := by
    rw [lines_render]
    induction files with
    | nil => rfl
    | cons f files ih =>
      rw [List.flatMap_cons, List.map_append, List.filterMap_append,
        ih fun f hf => h f (List.mem_cons_of_mem _ hf), List.map_cons, List.filterMap_cons,
        headerText_ended (printable_header f).unbroken.not_mem,
        headerFile_header (h f List.mem_cons_self), hbody]
      rfl
  rw [parseChangedFiles, hcaptured, List.foldl_map, List.foldl_map]
  refine List.foldl_ext _ _ _ fun seen f hf => ?_
  have hf := h f hf
  have hhead : (escaped f.newPath).head? ≠ some ' ' := by
    intro he
    obtain ⟨t, ht⟩ : ∃ t, escaped f.newPath = ' ' :: t := by
      cases hp : escaped f.newPath with
      | nil => rw [hp] at he; cases he
      | cons c t =>
        rw [hp] at he
        exact ⟨t, by rw [show c = ' ' from Option.some.inj he]⟩
    obtain ⟨path', hpath, -⟩ := escaped_head (by decide) ht
    exact hf.head (by rw [hpath]; rfl)
  rw [strip_printable (printable_escaped _) hhead (getLast?_escaped hf.last)]

/-- What is written in quotes gives what `shlex` leaves of it. -/
theorem shown_of_escaped {p q : Text} (h : escaped p = escaped q) : shown p = shown q := by
  have hword : ∀ path, Text.shlexFrom (.quote '"') [] true (escaped path ++ ['"']) =
      some [shown path] := by
    intro path
    rw [escaped, shlexFrom_escapes, List.nil_append, Text.shlexFrom, if_pos rfl, Text.shlexFrom,
      if_pos (.inr rfl)]
    rfl
  have := (hword p).symm.trans ((congrArg _ (congrArg (· ++ ['"']) h)).trans (hword q))
  exact (List.cons.inj (Option.some.inj this)).1

theorem all_plain_of_escaped {path : Text} (h : '\\' ∉ escaped path) :
    path.all isPlainPathChar = true := by
  induction path with
  | nil => rfl
  | cons c path ih =>
    rw [escaped_cons, List.mem_append, not_or] at h
    rw [List.all_cons, Bool.and_eq_true]
    refine ⟨?_, ih h.2⟩
    by_contra hc
    obtain ⟨t, ht, -⟩ := escapeChar_special (by simpa using hc)
    exact h.1 (ht ▸ List.mem_cons_self)

/-- Paths that are read back are written differently. -/
theorem escaped_injective {p q : Text} (hp : ReadBack p) (hq : ReadBack q)
    (h : escaped p = escaped q) : p = q := by
  have hplain : ∀ {path : Text}, path.all isPlainPathChar = true → '\\' ∉ escaped path := by
    intro path hall hm
    rw [escaped_plain hall] at hm
    exact absurd (List.all_eq_true.mp hall _ hm) (by decide)
  by_cases hall : p.all isPlainPathChar = true
  · have hall' : q.all isPlainPathChar = true := all_plain_of_escaped (h ▸ hplain hall)
    rwa [escaped_plain hall, escaped_plain hall'] at h
  · have hshown := shown_of_escaped h
    have hp := (decodeGitPath_shown_iff p).mpr ⟨hp.noLetter, hp.noEscape⟩
    have hq := (decodeGitPath_shown_iff q).mpr ⟨hq.noLetter, hq.noEscape⟩
    rw [hshown, hq] at hp
    exact (Except.ok.inj hp).symm

/-- Paths that are renamed one by one are gathered as before. -/
theorem foldl_addFile_map {f : Text → Text} {paths seen : List Text}
    (hne : ∀ p ∈ paths, p ≠ [] ∧ f p ≠ [])
    (hinj : ∀ p ∈ paths, ∀ q, q ∈ seen ∨ q ∈ paths → f p = f q → p = q) :
    (paths.map f).foldl addFile (seen.map f) = (paths.foldl addFile seen).map f := by
  induction paths generalizing seen with
  | nil => rfl
  | cons p paths ih =>
    obtain ⟨hp, hfp⟩ := hne p List.mem_cons_self
    have hmem : f p ∈ seen.map f ↔ p ∈ seen := by
      refine ⟨fun hm => ?_, fun hm => List.mem_map_of_mem hm⟩
      obtain ⟨q, hq, hfq⟩ := List.mem_map.mp hm
      rwa [hinj p List.mem_cons_self q (.inl hq) hfq.symm]
    have hstep : addFile (seen.map f) (f p) = (addFile seen p).map f := by
      unfold addFile
      by_cases hm : p ∈ seen
      · rw [if_neg fun h => h.2 (hmem.mpr hm), if_neg fun h => h.2 hm]
      · rw [if_pos ⟨hfp, fun h => hm (hmem.mp h)⟩, if_pos ⟨hp, hm⟩, List.map_append]
        rfl
    rw [List.map_cons, List.foldl_cons, List.foldl_cons, hstep]
    refine ih (fun q hq => hne q (List.mem_cons_of_mem _ hq)) fun q hq r hr => ?_
    refine hinj q (List.mem_cons_of_mem _ hq) r ?_
    rcases hr with hr | hr
    · unfold addFile at hr
      split at hr
      · rcases List.mem_append.mp hr with hr | hr
        · exact .inl hr
        · exact .inr (List.mem_singleton.mp hr ▸ List.mem_cons_self)
      · exact .inl hr
    · exact .inr (List.mem_cons_of_mem _ hr)

/-! ## The two parsers -/

/-- Both parsers find the paths of the file: `split_file_blocks` reads its header, and the pattern
captures all of its target. -/
structure Findable (f : File) : Prop where
  old : OneWord f.oldPath
  read : ReadBack f.newPath
  found : Found f.newPath

theorem mem_foldl_addFile {paths seen : List Text} {p : Text} (h : p ∈ paths.foldl addFile seen) :
    p ∈ seen ∨ p ∈ paths := by
  induction paths generalizing seen with
  | nil => exact .inl h
  | cons q paths ih =>
    rcases ih h with h | h
    · unfold addFile at h
      split at h
      · rcases List.mem_append.mp h with h | h
        · exact .inl h
        · exact .inr (List.mem_singleton.mp h ▸ List.mem_cons_self)
      · exact .inl h
    · exact .inr (List.mem_cons_of_mem _ h)

/-- **The two parsers agree** on the files of a diff, up to the escapes of paths in quotes. -/
theorem changedFiles_agree {files : List File} (h : ∀ f ∈ files, Findable f) :
    ∃ blocks, splitFileBlocks (render files) = .ok blocks ∧
      parseChangedFiles (render files) = (targetPaths blocks).map escaped ∧
      ((∀ f ∈ files, f.newPath.all isPlainPathChar = true) →
        parseChangedFiles (render files) = targetPaths blocks) := by
  have hread : ∀ f ∈ files, f.HeaderRead := fun f hf =>
    headerRead_of_readBack (h f hf).old (h f hf).read
  have htargets : targetPaths (files.map fun f => (f.newPath, f.block.text)) =
      (files.map File.newPath).foldl addFile [] := by
    rw [targetPaths, List.map_map]
    rfl
  have hescaped : parseChangedFiles (render files) =
      ((files.map File.newPath).foldl addFile []).map escaped := by
    rw [parseChangedFiles_render fun f hf => (h f hf).found, ← foldl_addFile_map, List.map_map]
    · rfl
    · intro p hp
      obtain ⟨f, -, rfl⟩ := List.mem_map.mp hp
      exact ⟨f.newPath_ok, escaped_ne_nil f.newPath_ok⟩
    · intro p hp q hq he
      obtain ⟨f, hf, rfl⟩ := List.mem_map.mp hp
      rcases hq with hq | hq
      · cases hq
      obtain ⟨g, hg, rfl⟩ := List.mem_map.mp hq
      exact escaped_injective (h f hf).read (h g hg).read he
  refine ⟨_, splitFileBlocks_render hread, htargets ▸ hescaped, fun hall => ?_⟩
  rw [hescaped, htargets]
  refine (List.map_congr_left fun p hp => ?_).trans (List.map_id _)
  rcases mem_foldl_addFile hp with hp | hp
  · cases hp
  · obtain ⟨f, hf, rfl⟩ := List.mem_map.mp hp
    exact escaped_plain (hall f hf)

/-- Files that are renamed, and whose lines did not change. -/
def renamedPlain : File := ⟨"a.py".toList, "b.py".toList, [], [], by decide⟩

def renamedQuoted : File := ⟨"c.py".toList, "é d.py".toList, [], [], by decide⟩

theorem changedFiles_agree_renamed : ∃ blocks,
    splitFileBlocks (render [renamedPlain, renamedQuoted]) = .ok blocks ∧
      parseChangedFiles (render [renamedPlain, renamedQuoted]) =
        (targetPaths blocks).map escaped := by
  have hone : ∀ path : Text, ' ' ∉ path ∧ '\'' ∉ path → OneWord path := fun _ h _ => h
  have hplain : Findable renamedPlain :=
    ⟨hone _ (by decide +kernel), ⟨hone _ (by decide +kernel), by decide +kernel, by decide +kernel⟩,
      ⟨by decide +kernel, by decide +kernel, by decide +kernel⟩⟩
  have hquoted : Findable renamedQuoted :=
    ⟨hone _ (by decide +kernel), ⟨fun h => absurd h (by decide +kernel), by decide +kernel,
      by decide +kernel⟩, ⟨by decide +kernel, by decide +kernel, by decide +kernel⟩⟩
  have hall : ∀ f ∈ [renamedPlain, renamedQuoted], Findable f := by
    intro f hf
    simp only [List.mem_cons, List.not_mem_nil, or_false] at hf
    rcases hf with rfl | rfl
    · exact hplain
    · exact hquoted
  obtain ⟨blocks, hsplit, hparse, -⟩ := changedFiles_agree hall
  exact ⟨blocks, hsplit, hparse⟩

/-- The pattern leaves the octal escapes of a path in quotes, and `split_file_blocks` decodes
them. -/
theorem changedFiles_differ : ¬∀ files blocks, splitFileBlocks (render files) = .ok blocks →
    parseChangedFiles (render files) = targetPaths blocks := by
  intro h
  have hsplit : splitFileBlocks (render [renamedQuoted]) =
      .ok [("é d.py".toList, renamedQuoted.block.text)] := by decide +kernel
  exact absurd (h _ _ hsplit) (by decide +kernel)

end DiffFilter
