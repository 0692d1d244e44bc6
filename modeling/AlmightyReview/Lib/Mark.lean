import Mathlib.Data.List.Infix

/-!
# Marks in a sequence

Where a sequence occurs in a concatenation, and what a mark between two pieces shows of them.

* `infix_append`: an occurrence across a seam has an element of each side at the seam.
* `Free`: a sequence does not occur. `Separates`: nor does it reach into this part, because the ends
  of the part do not belong to it. So texts that are free of it may be put around the part.
* `mark c w`: the word `w` between two `c`, where `c` is not in `w`. It overlaps itself in a shared
  `c` only (`border`).
* `joined`: pieces with a mark between them. When no piece has the mark, the occurrences of the mark
  are the seams (`occurs_joined`), so that the pieces can be read back.
-/

universe u

namespace Mark

variable {α : Type u}

/-! ## Occurrences in a concatenation -/

/-- An occurrence in two parts lies in one of them, or ends the first with its first element and
begins the second with its last. -/
theorem infix_append {s xs ys : List α} (h : s <:+: xs ++ ys) :
    s <:+: xs ∨ s <:+: ys ∨ (∃ x ∈ xs.getLast?, x ∈ s) ∧ ∃ y ∈ ys.head?, y ∈ s := by
  rcases List.infix_append_iff_ne_nil.mp h with h | h | ⟨l, r, hl, hr, rfl, hxs, hys⟩
  · exact .inl h
  · exact .inr (.inl h)
  · refine .inr (.inr ⟨⟨l.getLast hl, ?_, ?_⟩, ⟨r.head hr, ?_, ?_⟩⟩)
    · obtain ⟨t, rfl⟩ := hxs
      rw [List.getLast?_append_of_ne_nil _ hl, List.getLast?_eq_some_getLast hl]
      rfl
    · exact List.mem_append_left _ (List.getLast_mem hl)
    · obtain ⟨t, rfl⟩ := hys
      rw [List.head?_append_of_ne_nil _ hr, List.head?_eq_some_head hr]
      rfl
    · exact List.mem_append_right _ (List.head_mem hr)

/-- The sequence `s` does not occur. -/
def Free (s xs : List α) : Prop := ¬s <:+: xs

instance [DecidableEq α] (s xs : List α) : Decidable (Free s xs) := inferInstanceAs (Decidable (¬_))

/-- A part of what it is free of, and of what is free of it. -/
theorem Free.of_infix {s xs ys : List α} (h : Free s ys) (hxs : xs <:+: ys) : Free s xs :=
  fun hs => h (hs.trans hxs)

/-- What occurs in neither part does not occur in both together, when the second part begins with
an element that it does not have. -/
theorem Free.append {s xs ys : List α} (hxs : Free s xs) (hys : Free s ys)
    (hseam : ∀ y ∈ ys.head?, y ∉ s) : Free s (xs ++ ys) := by
  intro h
  rcases infix_append h with h | h | ⟨-, y, hy, hs⟩
  · exact hxs h
  · exact hys h
  · exact hseam y hy hs

/-- The same, when the first part ends with such an element. -/
theorem Free.seam {s xs ys : List α} (hxs : Free s xs) (hys : Free s ys)
    (hseam : ∀ x ∈ xs.getLast?, x ∉ s) : Free s (xs ++ ys) := by
  intro h
  rcases infix_append h with h | h | ⟨⟨x, hx, hs⟩, -⟩
  · exact hxs h
  · exact hys h
  · exact hseam x hx hs

/-- A part that no occurrence of `s` reaches into. -/
structure Separates (s k : List α) : Prop where
  ne_nil : k ≠ []
  free : Free s k
  first : ∀ y ∈ k.head?, y ∉ s
  last : ∀ y ∈ k.getLast?, y ∉ s

section Separates

variable {s k xs ys : List α}

theorem Free.around (hxs : Free s xs) (hk : Separates s k) (hys : Free s ys) :
    Free s (xs ++ (k ++ ys)) := by
  refine hxs.append (hk.free.seam hys hk.last) fun y hy => ?_
  rw [List.head?_append_of_ne_nil _ hk.ne_nil] at hy
  exact hk.first y hy

theorem Free.after (hk : Separates s k) (hys : Free s ys) : Free s (k ++ ys) :=
  hk.free.seam hys hk.last

theorem Free.before (hxs : Free s xs) (hk : Separates s k) : Free s (xs ++ k) :=
  hxs.append hk.free hk.first

/-- A list of parts, with a separating one between them. -/
theorem Free.join (hk : Separates s k) {parts : List (List α)} (h : ∀ p ∈ parts, Free s p) :
    Free s (parts.intersperse k).flatten := by
  induction parts with
  | nil => exact hk.free.of_infix List.nil_infix
  | cons p parts ih =>
    have hp := h p List.mem_cons_self
    have ih := ih fun q hq => h q (List.mem_cons_of_mem _ hq)
    cases parts with
    | nil => simpa using hp
    | cons q parts =>
      rw [List.intersperse_cons_cons, List.flatten_cons, List.flatten_cons]
      exact hp.around hk ih

end Separates

/-! ## Marks -/

/-- The word `w` between two `c`. -/
def mark (c : α) (w : List α) : List α := c :: w ++ [c]

variable {c : α} {w : List α}

/-- A part of a mark at both of its ends is one `c`. -/
theorem border (hc : c ∉ w) {d e : List α} (hd : d ≠ []) (he : e ≠ []) (h : mark c w = d ++ e)
    (hp : e <+: mark c w) : e = [c] := by
  obtain ⟨t, ht⟩ := hp
  cases d with
  | nil => exact absurd rfl hd
  | cons x d =>
    cases e with
    | nil => exact absurd rfl he
    | cons y e =>
      obtain rfl : y = c := (List.cons.inj ht).1
      rcases List.eq_nil_or_concat e with rfl | ⟨e, z, rfl⟩
      · rfl
      · -- the last `c` of the mark is not its first, so the first lies in the word
        have htail : w ++ [y] = (d ++ y :: e) ++ [z] := by
          have := (List.cons.inj h).2
          simpa using this
        have hw : w = d ++ y :: e := (List.append_inj' htail rfl).1
        exact absurd (hw ▸ List.mem_append_right d List.mem_cons_self) hc

/-- Two occurrences of a mark are apart, or share one `c`. -/
theorem overlap (hc : c ∉ w) {d t b : List α} (hd : d ≠ [])
    (h : mark c w ++ t = d ++ (mark c w ++ b)) :
    (∃ d', d = mark c w ++ d' ∧ t = d' ++ (mark c w ++ b)) ∨
      mark c w = d ++ [c] ∧ c :: t = mark c w ++ b := by
  rcases List.append_eq_append_iff.mp h with ⟨d', hd', ht⟩ | ⟨e, he, hb⟩
  · exact .inl ⟨d', hd', ht⟩
  · by_cases hne : e = []
    · subst hne
      exact .inl ⟨[], by simpa using he.symm, by simpa using hb.symm⟩
    · have hlen : e.length ≤ (mark c w).length := by
        rw [he, List.length_append]
        omega
      have hpre : e <+: mark c w :=
        List.prefix_of_prefix_length_le ⟨t, hb.symm⟩ (List.prefix_append _ _) hlen
      obtain rfl := border hc hd hne he hpre
      exact .inr ⟨he, hb.symm⟩

/-- A word that does not occur in a piece does not occur in it as a mark, even if the marks around
the piece lend it a `c`. -/
theorem unmarked {p : List α} (hc : c ∉ w) (hw : w ≠ []) (h : Free w p) :
    Free (mark c w) (c :: p ++ [c]) := by
  intro hm
  have hin : w <:+: c :: p ++ [c] := by
    obtain ⟨a, b, hab⟩ := hm
    exact ⟨a ++ [c], [c] ++ b, by simpa [mark] using hab⟩
  have hsingle : Separates w [c] := by
    refine ⟨List.cons_ne_nil c [], fun hs => ?_, fun y hy => ?_, fun y hy => ?_⟩
    · obtain ⟨x, hx⟩ := List.exists_mem_of_ne_nil w hw
      obtain rfl := List.mem_singleton.mp (hs.subset hx)
      exact hc hx
    · obtain rfl := Option.some.inj hy
      exact hc
    · obtain rfl := Option.some.inj hy
      exact hc
  have hfree : Free w ([c] ++ (p ++ [c])) := Free.after hsingle (h.before hsingle)
  exact hfree (by simpa using hin)

/-! ## Documents with fences -/

/-- A document: texts that end with a heading and a mark, and a last text. A heading and the mark
after it are a fence. -/
def document (m : List α) : List (List α × List α) → List α → List α
  | [], last => last
  | (text, heading) :: rest, last => text ++ heading ++ m ++ document m rest last

variable {last : List α} {fs : List (List α × List α)}

/-- The end of a document is the end of its last text. -/
theorem document_append (m : List α) (fs : List (List α × List α)) (x y : List α) :
    document m fs (x ++ y) = document m fs x ++ y := by
  induction fs with
  | nil => rfl
  | cons f fs ih => rw [document, document, ih, List.append_assoc _ _ y]

/-- The word of the mark occurs in none of the texts. -/
structure Unmarked (w : List α) (fs : List (List α × List α)) (last : List α) : Prop where
  text : ∀ f ∈ fs, Free w (f.1 ++ f.2)
  last : Free w last

theorem Unmarked.tail {f : List α × List α} (h : Unmarked w (f :: fs) last) :
    Unmarked w fs last :=
  ⟨fun g hg => h.text g (List.mem_cons_of_mem _ hg), h.last⟩

/-- After a mark there is no other one that shares its last `c`. -/
theorem document_ne (hc : c ∉ w) (hw : w ≠ []) {b : List α} (h : Unmarked w fs last) :
    c :: document (mark c w) fs last ≠ mark c w ++ b := by
  intro heq
  cases fs with
  | nil =>
    refine unmarked hc hw h.last ((List.IsPrefix.isInfix ⟨b, heq.symm⟩).trans ?_)
    exact List.infix_append_left
  | cons f rest =>
    have hf := unmarked hc hw (h.text f List.mem_cons_self)
    have heq : mark c w ++ b =
        (c :: (f.1 ++ f.2)) ++ (mark c w ++ document (mark c w) rest last) := by
      rw [← heq]
      simp [document]
    rcases overlap hc (List.cons_ne_nil c _) heq with ⟨d, hd, -⟩ | ⟨hm, -⟩
    · exact hf ((hd ▸ List.infix_append_left).trans List.infix_append_left)
    · exact hf (hm ▸ List.infix_rfl)

/-- **Occurrences of the mark.** It occurs in the fences only. -/
theorem occurs_document (hc : c ∉ w) (hw : w ≠ []) {a b : List α} (hfree : Unmarked w fs last)
    (h : document (mark c w) fs last = a ++ (mark c w ++ b)) :
    ∃ us f vs, fs = us ++ f :: vs ∧ a = document (mark c w) us (f.1 ++ f.2) ∧
      b = document (mark c w) vs last := by
  induction fs generalizing a with
  | nil =>
    refine absurd ?_ (unmarked hc hw hfree.last)
    have hin : mark c w <:+: last := ⟨a, b, by rw [List.append_assoc]; exact h.symm⟩
    exact (List.infix_cons hin).trans List.infix_append_left
  | cons f rest ih =>
    have hf := unmarked hc hw (hfree.text f List.mem_cons_self)
    rw [document, List.append_assoc] at h
    rcases List.append_eq_append_iff.mp h with ⟨d, rfl, hd⟩ | ⟨d, hfd, hd⟩
    · -- the occurrence is in the rest, or the first fence itself
      by_cases hne : d = []
      · subst hne
        exact ⟨[], f, rest, rfl, List.append_nil _, (List.append_cancel_left hd).symm⟩
      rcases overlap hc hne hd with ⟨d', rfl, ht⟩ | ⟨-, ht⟩
      · obtain ⟨us, g, vs, rfl, rfl, rfl⟩ := ih hfree.tail ht
        refine ⟨f :: us, g, vs, rfl, ?_, rfl⟩
        rw [document, List.append_assoc _ (mark c w)]
      · exact absurd ht (document_ne hc hw hfree.tail)
    · -- the occurrence begins in the first text
      by_cases hne : d = []
      · subst hne
        refine ⟨[], f, rest, rfl, ?_, List.append_cancel_left hd⟩
        rw [List.append_nil] at hfd
        exact hfd.symm
      rcases overlap hc hne hd with ⟨d', rfl, -⟩ | ⟨hm, -⟩
      · exact absurd ⟨c :: a, d' ++ [c], by simp [hfd]⟩ hf
      · refine absurd ⟨c :: a, [], ?_⟩ hf
        rw [hm, hfd]
        simp

/-- Neither of two headings ends with the other. -/
def Apart (x y : List α) : Prop := ¬x <:+ y ∧ ¬y <:+ x

instance [DecidableEq α] (x y : List α) : Decidable (Apart x y) :=
  inferInstanceAs (Decidable (_ ∧ _))

theorem Apart.symm {x y : List α} (h : Apart x y) : Apart y x := ⟨h.2, h.1⟩

/-- **A fence occurs once.** A heading that is apart from the others is found, with its mark, only
where the document has it. -/
theorem fence_unique (hc : c ∉ w) (hw : w ≠ []) {us vs : List (List α × List α)}
    {text heading a b : List α} (hfree : Unmarked w (us ++ (text, heading) :: vs) last)
    (hapart : ∀ f ∈ us ++ vs, Apart heading f.2)
    (h : document (mark c w) (us ++ (text, heading) :: vs) last =
      a ++ (heading ++ (mark c w ++ b))) :
    a = document (mark c w) us text ∧ b = document (mark c w) vs last := by
  rw [← List.append_assoc a] at h
  obtain ⟨us', f, vs', hfs, ha, rfl⟩ := occurs_document hc hw hfree h
  rw [document_append] at ha
  -- both headings end the text before the mark
  have hin : f ∉ us ++ vs := by
    intro hf
    have hx : heading <:+ a ++ heading := List.suffix_append a heading
    have hy : f.2 <:+ a ++ heading := ha ▸ List.suffix_append _ _
    rcases List.suffix_or_suffix_of_suffix hx hy with hs | hs
    · exact (hapart f hf).1 hs
    · exact (hapart f hf).2 hs
  have hsame : us' = us ∧ f = (text, heading) ∧ vs' = vs := by
    rcases List.append_eq_append_iff.mp hfs with ⟨d, rfl, hd⟩ | ⟨d, rfl, hd⟩
    · cases d with
      | nil =>
        obtain ⟨hf, hvs⟩ := List.cons.inj hd
        exact ⟨List.append_nil us, hf.symm, hvs.symm⟩
      | cons g d =>
        obtain ⟨-, rfl⟩ := List.cons.inj hd
        exact absurd (by simp) hin
    · cases d with
      | nil =>
        obtain ⟨hf, hvs⟩ := List.cons.inj hd
        exact ⟨(List.append_nil us').symm, hf, hvs⟩
      | cons g d =>
        obtain ⟨rfl, -⟩ := List.cons.inj hd
        exact absurd (by simp) hin
  obtain ⟨rfl, rfl, rfl⟩ := hsame
  exact ⟨List.append_cancel_right ha, rfl⟩

/-- No two headings of the document end alike, so a fence is in one place. -/
theorem fence_eq (hc : c ∉ w) (hw : w ≠ []) {heading a b a' b' : List α}
    (hfree : Unmarked w fs last) (hapart : (fs.map Prod.snd).Pairwise Apart)
    (hmem : heading ∈ fs.map Prod.snd)
    (h : document (mark c w) fs last = a ++ (heading ++ (mark c w ++ b)))
    (h' : document (mark c w) fs last = a' ++ (heading ++ (mark c w ++ b'))) :
    a = a' ∧ b = b' := by
  obtain ⟨⟨text, heading⟩, hf, rfl⟩ := List.mem_map.mp hmem
  obtain ⟨us, vs, rfl⟩ := List.append_of_mem hf
  rw [List.map_append, List.map_cons, List.pairwise_append, List.pairwise_cons] at hapart
  have hall : ∀ f ∈ us ++ vs, Apart heading f.2 := by
    intro f hf
    rcases List.mem_append.mp hf with hf | hf
    · exact (hapart.2.2 f.2 (List.mem_map_of_mem hf) heading List.mem_cons_self).symm
    · exact hapart.2.1.1 f.2 (List.mem_map_of_mem hf)
  obtain ⟨ha, hb⟩ := fence_unique hc hw hfree hall h
  obtain ⟨ha', hb'⟩ := fence_unique hc hw hfree hall h'
  exact ⟨ha.trans ha'.symm, hb.trans hb'.symm⟩

/-- **A region.** What is between two fences, and what is around them, can be read back. -/
theorem region_eq (hc : c ∉ w) (hw : w ≠ []) (hfree : Unmarked w fs last)
    (hapart : (fs.map Prod.snd).Pairwise Apart) {hop hcl op cl yo yc : List α}
    (hopen : op = hop ++ (mark c w ++ yo)) (hclose : cl = hcl ++ (mark c w ++ yc))
    (hmem : hop ∈ fs.map Prod.snd) (hmem' : hcl ∈ fs.map Prod.snd) {a b d a' b' d' : List α}
    (h : document (mark c w) fs last = a ++ op ++ b ++ cl ++ d)
    (h' : document (mark c w) fs last = a' ++ op ++ b' ++ cl ++ d') :
    a = a' ∧ b = b' ∧ d = d' := by
  have hfirst : ∀ x y z : List α, x ++ op ++ y ++ cl ++ z =
      x ++ (hop ++ (mark c w ++ (yo ++ y ++ cl ++ z))) := by
    intro x y z
    rw [hopen]
    simp only [List.append_assoc]
  have hsecond : ∀ x y z : List α, x ++ op ++ y ++ cl ++ z =
      (x ++ op ++ y) ++ (hcl ++ (mark c w ++ (yc ++ z))) := by
    intro x y z
    rw [hclose]
    simp only [List.append_assoc]
  obtain ⟨rfl, -⟩ := fence_eq hc hw hfree hapart hmem (h.trans (hfirst a b d))
    (h'.trans (hfirst a' b' d'))
  obtain ⟨hb, hd⟩ := fence_eq hc hw hfree hapart hmem' (h.trans (hsecond a b d))
    (h'.trans (hsecond a b' d'))
  exact ⟨rfl, List.append_cancel_left hb, List.append_cancel_left hd⟩

/-- A heading that no fence has is nowhere before a mark. -/
theorem fence_absent (hc : c ∉ w) (hw : w ≠ []) {heading a b : List α}
    (hfree : Unmarked w fs last) (hapart : ∀ y ∈ fs.map Prod.snd, Apart heading y) :
    document (mark c w) fs last ≠ a ++ (heading ++ (mark c w ++ b)) := by
  intro h
  rw [← List.append_assoc a] at h
  obtain ⟨us, f, vs, rfl, ha, -⟩ := occurs_document hc hw hfree h
  rw [document_append] at ha
  have hf := hapart f.2 (List.mem_map_of_mem (by simp))
  have hx : heading <:+ a ++ heading := List.suffix_append a heading
  have hy : f.2 <:+ a ++ heading := ha ▸ List.suffix_append _ _
  rcases List.suffix_or_suffix_of_suffix hx hy with hs | hs
  · exact hf.1 hs
  · exact hf.2 hs

end Mark
