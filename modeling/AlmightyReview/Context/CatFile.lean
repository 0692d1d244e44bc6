import AlmightyReview.Lib.Integer
import AlmightyReview.Lib.Scan

/-!
# Documents of a base revision

The context provider reads the documents of a revision with one `git cat-file --batch`.

* `parseCatFileBatch`: the documents in the output. A record has a header line and as many bytes as
  the header says.
* `batchOutput`: what git writes for the paths, with what it finds at each.
* `parseCatFileBatch_output`: the parser stays in step, whatever bytes the contents are.
-/

namespace StaticContext

/-- `bytes`, each as a number. -/
abbrev Bytes := List Nat

/-- `_MAX_CHARS_PER_DOCUMENT`. -/
def maxCharsPerDocument : Nat := 3000

/-! ## The parser -/

def newline : Nat := 10

def blank : Nat := 32

/-- The bytes of an ASCII text. -/
def ascii (s : Text) : Bytes := s.map Char.toNat

/-- `header.endswith(suffix)`. -/
def endsWith (suffix header : Bytes) : Bool := suffix.isSuffixOf header

/-- `int(header.rsplit(b" ", 1)[1])`; `none` when it raises. -/
def sizeOf (header : Bytes) : Option Int :=
  if blank ∈ header then Integer.ofBytes (header.reverse.takeWhile (· ≠ blank)).reverse else none

/-- A document as it is kept: one character more than the limit, which shows that it was cut. -/
def shown (content : Bytes) : Text := (Text.decodeUtf8 content).take (maxCharsPerDocument + 1)

/-- `_parse_cat_file_batch` of the data from the offset on: the assignments to the dictionary. -/
def parseCatFileBatch : Bytes → List Text → List (Text × Option Text)
  | _, [] => []
  | data, path :: paths =>
    if newline ∉ data then (path, none) :: parseCatFileBatch data paths
    else
      let header := data.takeWhile (· ≠ newline)
      let data := (data.dropWhile (· ≠ newline)).tail
      if endsWith (ascii " missing".toList) header then (path, none) :: parseCatFileBatch data paths
      else
        match sizeOf header with
        | none => (path, none) :: parseCatFileBatch data paths
        | some size =>
          if size < 0 ∨ data.length < size.toNat then (path, none) :: parseCatFileBatch [] paths
          else
            let rest := data.drop size.toNat
            (path, some (shown (data.take size.toNat))) ::
              parseCatFileBatch (if rest.head? = some newline then rest.tail else rest) paths

/-- `parsed.get(path)`: the last assignment counts. -/
def getParsed (parsed : List (Text × Option Text)) (path : Text) : Option Text :=
  (parsed.reverse.lookup path).join

/-! ## What git writes -/

/-- What git finds at a path: the name and the type of the object, and its content. A `bytes` object
has no more than `sys.maxsize` bytes. -/
structure Blob where
  info : Bytes
  content : Bytes
  info_line : newline ∉ info
  length_lt : content.length < 2 ^ 63

/-- The object of a path in a revision, as git is asked for it. -/
def spec (revision path : Text) : Text := revision ++ ':' :: path

/-- The record of one object. -/
def record (revision path : Text) : Option Blob → Bytes
  | none => (spec revision path).encode ++ ascii " missing".toList ++ [newline]
  | some b => b.info ++ [blank] ++ ascii (Text.ofNat b.content.length) ++ [newline] ++ b.content ++
      [newline]

/-- The output of `git cat-file --batch` for the paths. -/
def batchOutput (revision : Text) (found : Text → Option Blob) (paths : List Text) : Bytes :=
  paths.flatMap fun path => record revision path (found path)

/-! ## In step -/

theorem mem_encode {s : Text} (h : newline ∈ s.encode) : '\n' ∈ s := by
  obtain ⟨c, hc, hm⟩ := List.mem_flatMap.mp h
  have hn : c.toNat = 10 := by
    unfold Text.utf8 newline at hm
    dsimp only at hm
    split at hm
    · exact (List.mem_singleton.mp hm).symm
    split at hm
    · simp only [List.mem_cons, List.not_mem_nil, or_false] at hm
      omega
    split at hm
    · simp only [List.mem_cons, List.not_mem_nil, or_false] at hm
      omega
    · simp only [List.mem_cons, List.not_mem_nil, or_false] at hm
      omega
  have : c = '\n' := Char.toNat_inj.mp hn
  exact this ▸ hc

/-- A header line is split off. -/
theorem header_split {header rest : Bytes} (h : newline ∉ header) :
    newline ∈ header ++ newline :: rest ∧
      (header ++ newline :: rest).takeWhile (· ≠ newline) = header ∧
      ((header ++ newline :: rest).dropWhile (· ≠ newline)).tail = rest := by
  have hall : ∀ b ∈ header, decide (b ≠ newline) = true := by
    intro b hb
    simp only [decide_eq_true_eq]
    rintro rfl
    exact h hb
  refine ⟨by simp, ?_, ?_⟩
  · rw [List.takeWhile_append_of_pos hall, List.takeWhile_cons_of_neg (by simp), List.append_nil]
  · rw [List.dropWhile_append_of_pos hall, List.dropWhile_cons_of_neg (by simp)]
    rfl

theorem ascii_digit {n b : Nat} (h : b ∈ ascii (Text.ofNat n)) : 48 ≤ b ∧ b ≤ 57 := by
  obtain ⟨c, hc, rfl⟩ := List.mem_map.mp h
  have := (Decimal.digits_ofNat n).2 c hc
  unfold Decimal.isDigit at this
  simpa only [Bool.and_eq_true, decide_eq_true_eq] using this

/-- The header of a record says how long its content is. -/
theorem sizeOf_header {info : Bytes} {n : Nat} (h : n < 2 ^ 63) :
    sizeOf (info ++ [blank] ++ ascii (Text.ofNat n)) = some (n : Int) := by
  have hdigits : ∀ b ∈ (ascii (Text.ofNat n)).reverse, decide (b ≠ blank) = true := by
    intro b hb
    have := ascii_digit (List.mem_reverse.mp hb)
    unfold blank
    simp only [decide_eq_true_eq]
    omega
  have hlast : ((info ++ [blank] ++ ascii (Text.ofNat n)).reverse.takeWhile
      (· ≠ blank)).reverse = ascii (Text.ofNat n) := by
    have hinfo : (info ++ [blank]).reverse.takeWhile (· ≠ blank) = [] := by
      rw [List.reverse_append, List.reverse_singleton, List.singleton_append,
        List.takeWhile_cons_of_neg (by simp)]
    rw [List.reverse_append, List.takeWhile_append_of_pos hdigits, hinfo, List.append_nil,
      List.reverse_reverse]
  rw [sizeOf, if_pos (by simp), hlast]
  refine Integer.ofBytes_ofNat (lt_of_lt_of_le h ?_)
  exact (by decide : 2 ^ 63 ≤ 10 ^ 19).trans
    (Nat.pow_le_pow_right (by decide) (show 19 ≤ Integer.maxDigits by decide))

/-- A header with a size does not say that the object is missing. -/
theorem not_missing {info : Bytes} {n : Nat} :
    endsWith (ascii " missing".toList) (info ++ [blank] ++ ascii (Text.ofNat n)) = false := by
  rw [Bool.eq_false_iff]
  intro h
  obtain ⟨u, hu⟩ := List.isSuffixOf_iff_suffix.mp h
  have hlast := congrArg List.getLast? hu
  have hne : ascii (Text.ofNat n) ≠ [] := by
    unfold ascii
    rw [Ne, List.map_eq_nil_iff]
    exact (Decimal.digits_ofNat n).1
  rw [List.getLast?_append_of_ne_nil _ hne, List.getLast?_append_of_ne_nil _ (by decide)] at hlast
  have hg : (ascii " missing".toList).getLast? = some 103 := by decide
  rw [hg] at hlast
  have := ascii_digit (List.mem_of_getLast? hlast.symm)
  omega

/-- **One record** is read, whatever follows it. -/
theorem parseCatFileBatch_record {revision path : Text} {rest : Bytes} {paths : List Text}
    (hrevision : '\n' ∉ revision) (hpath : '\n' ∉ path) (found : Option Blob) :
    parseCatFileBatch (record revision path found ++ rest) (path :: paths) =
      (path, found.map fun b => shown b.content) :: parseCatFileBatch rest paths := by
  cases found with
  | none =>
    have hspec : newline ∉ (spec revision path).encode ++ ascii " missing".toList := by
      intro hm
      rcases List.mem_append.mp hm with hm | hm
      · rcases List.mem_append.mp (mem_encode hm) with hm | hm
        · exact hrevision hm
        · rcases List.mem_cons.mp hm with hm | hm
          · exact absurd hm (by decide)
          · exact hpath hm
      · exact absurd hm (by decide)
    obtain ⟨hmem, htake, hdrop⟩ := @header_split _ rest hspec
    rw [record, List.append_assoc, List.singleton_append, parseCatFileBatch,
      if_neg (not_not.mpr hmem)]
    dsimp only
    rw [htake, hdrop]
    exact if_pos (List.isSuffixOf_iff_suffix.mpr (List.suffix_append _ _))
  | some b =>
    have hheader : newline ∉ b.info ++ [blank] ++ ascii (Text.ofNat b.content.length) := by
      intro hm
      rcases List.mem_append.mp hm with hm | hm
      · rcases List.mem_append.mp hm with hm | hm
        · exact b.info_line hm
        · exact absurd hm (by decide)
      · have := ascii_digit hm
        unfold newline at this
        omega
    have hsplit : record revision path (some b) ++ rest =
        (b.info ++ [blank] ++ ascii (Text.ofNat b.content.length)) ++
          newline :: (b.content ++ (newline :: rest)) := by
      rw [record]
      simp only [List.append_assoc, List.cons_append, List.nil_append]
    obtain ⟨hmem, htake, hdrop⟩ := @header_split _ (b.content ++ (newline :: rest)) hheader
    rw [hsplit, parseCatFileBatch, if_neg (not_not.mpr hmem)]
    dsimp only
    rw [htake, hdrop, not_missing, if_neg Bool.false_ne_true, sizeOf_header b.length_lt]
    dsimp only
    rw [if_neg (by simp), Int.toNat_natCast, List.drop_left, List.take_left]
    rfl

theorem parseCatFileBatch_batchOutput {revision : Text} {paths : List Text}
    (hrevision : '\n' ∉ revision) (hpaths : ∀ path ∈ paths, '\n' ∉ path)
    (found : Text → Option Blob) :
    parseCatFileBatch (batchOutput revision found paths) paths =
      paths.map fun path => (path, (found path).map fun b => shown b.content) := by
  induction paths with
  | nil => rfl
  | cons path paths ih =>
    rw [batchOutput, List.flatMap_cons, parseCatFileBatch_record hrevision
      (hpaths path List.mem_cons_self)]
    exact congrArg _ (ih fun path hp => hpaths path (List.mem_cons_of_mem _ hp))

/-- What was assigned to the keys by a function of the key. -/
theorem getParsed_map {paths : List Text} {f : Text → Option Text} {path : Text}
    (h : path ∈ paths) : getParsed (paths.map fun p => (p, f p)) path = f path := by
  have hlookup : ∀ l : List Text, path ∈ l → (l.map fun p => (p, f p)).lookup path =
      some (f path) := by
    intro l hl
    induction l with
    | nil => cases hl
    | cons q l ih =>
      rw [List.map_cons, List.lookup_cons]
      by_cases hq : path = q
      · subst hq
        simp
      · rw [beq_false_of_ne hq]
        exact ih ((List.mem_cons.mp hl).resolve_left hq)
  rw [getParsed, ← List.map_reverse, hlookup _ (List.mem_reverse.mpr h)]
  rfl

/-- **The parser stays in step.** From what git writes for the paths it takes for each of them the
decoded content, cut one character behind the limit, or nothing when the object is missing. -/
theorem getParsed_batchOutput (revision : Text) (paths : List Text) (found : Text → Option Blob)
    (hrevision : '\n' ∉ revision) (hpaths : ∀ path ∈ paths, '\n' ∉ path) :
    ∀ path ∈ paths, getParsed (parseCatFileBatch (batchOutput revision found paths) paths) path =
      (found path).map fun b => (Text.decodeUtf8 b.content).take (maxCharsPerDocument + 1) := by
  intro path hpath
  rw [parseCatFileBatch_batchOutput hrevision hpaths, getParsed_map hpath]
  rfl

/-- A document whose content is a header and has an empty line. -/
theorem getParsed_batchOutput_header :
    getParsed (parseCatFileBatch (batchOutput "r".toList
        (fun path => if path = "a".toList then some ⟨[], ascii "r:b missing\n\n".toList, by simp,
          by decide⟩ else none) ["a".toList, "b".toList]) ["a".toList, "b".toList]) "a".toList =
      ((if "a".toList = "a".toList then some ⟨[], ascii "r:b missing\n\n".toList, by simp,
          by decide⟩ else none : Option Blob)).map fun b =>
        (Text.decodeUtf8 b.content).take (maxCharsPerDocument + 1) :=
  getParsed_batchOutput "r".toList ["a".toList, "b".toList] _ (by decide) (by decide) "a".toList
    (by decide)

theorem length_decodeUtf8_ascii {n b : Nat} (hb : b < 0x80) :
    (Text.decodeUtf8 (List.replicate n b)).length = n := by
  unfold Text.decodeUtf8
  induction n with
  | zero => rfl
  | succ n ih =>
    rw [List.replicate_succ, Text.decodeFrom, Text.nextByte, Text.startSequence, if_pos hb]
    rw [List.length_append, ih]
    exact Nat.add_comm 1 n

/-- **A document over the limit** is not cut to the limit. -/
theorem shown_over_limit : ¬∀ (revision : Text) (paths : List Text) (found : Text → Option Blob),
    '\n' ∉ revision → (∀ path ∈ paths, '\n' ∉ path) →
    ∀ path ∈ paths, getParsed (parseCatFileBatch (batchOutput revision found paths) paths) path =
      (found path).map fun b => (Text.decodeUtf8 b.content).take maxCharsPerDocument := by
  intro h
  have hlen : (List.replicate 3001 97).length < 2 ^ 63 := by
    rw [List.length_replicate]
    decide
  have hcut := h [] [['a']] (fun _ => some ⟨[], List.replicate 3001 97, by simp, hlen⟩) (by simp)
    (by simp) ['a'] List.mem_cons_self
  rw [parseCatFileBatch_batchOutput (by simp) (by simp), getParsed_map List.mem_cons_self] at hcut
  have hshown := congrArg (Option.map List.length) hcut
  simp only [Option.map_some, shown, List.length_take,
    length_decodeUtf8_ascii (show 97 < 0x80 by decide), maxCharsPerDocument] at hshown
  exact absurd (Option.some.inj hshown) (by decide)

end StaticContext
