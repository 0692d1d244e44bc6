import AlmightyReview.Sql.Guard

/-!
# The copies that the guard looks at

* `maskFrom_items`: the mask is the text with blanks over all that is not a character for the
  server, when no block comment holds another one and no bracketed identifier holds a bracket
  (`Flat`).
* `mask_strip`: the guard masks the stripped text, which only takes blanks away.
* `withoutParams_append`, `names_append`: the copy without parameters and the names of a text are
  those of its parts, where the second part does not go on with a name.
-/

namespace SqlGateway

open Tsql

/-! ## The mask beside the items -/

/-- The item ends where the guard takes it to end: a block comment has no other one in it, and a
bracketed identifier no bracket. -/
def Flat : Item → Prop
  | .comment raw => raw.startsWith ['/', '*'] → ¬['/', '*'] <:+: raw.drop 2
  | .quoted raw => raw.head? = some '[' → ']' ∉ raw.tail.dropLast
  | _ => True

instance : DecidablePred Flat
  | .char _ => inferInstanceAs (Decidable True)
  | .comment raw => inferInstanceAs (Decidable (_ → ¬['/', '*'] <:+: raw.drop 2))
  | .literal _ => inferInstanceAs (Decidable True)
  | .quoted raw => inferInstanceAs (Decidable (_ → ']' ∉ raw.tail.dropLast))

theorem find_singleton (c : Char) (s : Text) :
    Text.find [c] s = if c ∈ s then some (s.takeWhile (· != c)).length else none := by
  induction s with
  | nil => simp [Text.find]
  | cons d s ih =>
    by_cases hd : c = d
    · subst hd
      simp [Text.find]
    · have hd' : ¬d = c := fun h => hd h.symm
      rw [Text.find, ih]
      by_cases hc : c ∈ s <;> simp [hd, hd', hc]

/-- A comment without another one in it ends at the first mark. -/
theorem find_of_commentEnd {s : Text} {n : Nat} (h : commentEnd 0 s = some n)
    (hflat : ¬['/', '*'] <:+: s.take n) :
    ∃ k, Text.find ['*', '/'] s = some k ∧ n = k + 2 := by
  induction s generalizing n with
  | nil => simp [commentEnd] at h
  | cons c s ih =>
    cases s with
    | nil => simp [commentEnd] at h
    | cons d s =>
      rw [commentEnd] at h
      split at h
      · rename_i hcd
        obtain ⟨rfl, rfl⟩ := hcd
        exact ⟨0, by simp [Text.find], by simpa using h.symm⟩
      rename_i hend
      split at h
      · rename_i hcd
        obtain ⟨rfl, rfl⟩ := hcd
        obtain ⟨m, -, rfl⟩ := Option.map_eq_some_iff.mp h
        exact absurd ⟨[], s.take m, by simp⟩ hflat
      · obtain ⟨m, hm, rfl⟩ := Option.map_eq_some_iff.mp h
        rw [List.take_succ_cons] at hflat
        obtain ⟨k, hk, rfl⟩ := ih hm fun hin => hflat (hin.trans (List.suffix_cons _ _).isInfix)
        have hpre : List.isPrefixOf ['*', '/'] (c :: d :: s) = false := by
          rw [← Bool.not_eq_true, List.isPrefixOf_iff_prefix]
          intro hpre
          obtain ⟨t, ht⟩ := hpre
          obtain ⟨rfl, rfl, -⟩ : c = '*' ∧ d = '/' ∧ s = t := by simpa [eq_comm] using ht
          exact hend ⟨rfl, rfl⟩
        exact ⟨k + 1, by rw [Text.find, hpre, hk]; rfl, rfl⟩

theorem closedAt_eq_quoteEnd {closer : Char} (hc : closer ≠ ']') (s : Text) :
    closedAt closer s = quoteEnd closer s := by
  fun_induction quoteEnd closer s with
  | case1 => rfl
  | case2 => simp [closedAt]
  | case3 c hne => simp [closedAt, hne]
  | case4 s ih => simp [closedAt, hc, ih]
  | case5 d s hne => simp [closedAt, hne]
  | case6 c d s hne ih => simp [closedAt, hne, ih]

/-- A bracketed identifier without a bracket in it ends at the first one. -/
theorem closedAt_of_quoteEnd {s : Text} {n : Nat} (h : quoteEnd ']' s = some n)
    (hflat : ']' ∉ (s.take n).dropLast) : closedAt ']' s = some n := by
  induction s generalizing n with
  | nil => simp [quoteEnd] at h
  | cons c s ih =>
    cases s with
    | nil => simpa [quoteEnd, closedAt] using h
    | cons d s =>
      rw [quoteEnd] at h
      rw [closedAt]
      split at h
      · rename_i hc
        split at h
        · rename_i hd
          obtain ⟨m, -, rfl⟩ := Option.map_eq_some_iff.mp h
          exact absurd (by simp [hc]) hflat
        · rename_i hd
          simpa [hc] using h
      · rename_i hc
        obtain ⟨m, hm, rfl⟩ := Option.map_eq_some_iff.mp h
        rw [if_neg hc, ih hm fun hin => hflat ?_]
        · rfl
        · rw [List.take_succ_cons, List.dropLast_cons_of_ne_nil]
          · exact List.mem_cons_of_mem _ hin
          · rintro hnil
            simp [hnil] at hin

/-- The region that begins the text is the item that does. -/
theorem region_of_next {c : Char} {s : Text} {f : Text → Item} {n : Nat}
    (h : next (c :: s) = some (f, n)) (hflat : Flat (f ((c :: s).take n))) :
    (region (c :: s) = .ok 0 ∧ f = (fun _ => .char c) ∧ n = 1) ∨
      (region (c :: s) = .ok n ∧ 0 < n ∧
        ∀ is, blank (f ((c :: s).take n) :: is) =
          ((c :: s).take n).map (fun _ => ' ') ++ blank is) := by
  rw [next] at h
  rw [region]
  split at h
  · -- to the end of the line
    rename_i hdash
    obtain ⟨rfl, rfl⟩ := Prod.mk.inj (Option.some.inj h)
    rw [if_pos hdash]
    obtain ⟨t, ht⟩ := List.isPrefixOf_iff_prefix.mp hdash
    obtain ⟨rfl, rfl⟩ : c = '-' ∧ s = '-' :: t := by simpa [eq_comm] using ht
    refine .inr ⟨?_, by simp, fun is => rfl⟩
    rw [find_singleton]
    by_cases hn : '\n' ∈ t
    · simp [hn]
    · have hall : t.takeWhile (· != '\n') = t := by
        rw [List.takeWhile_eq_self_iff]
        intro d hd
        have hne : d ≠ '\n' := fun h => hn (h ▸ hd)
        simpa using hne
      simp [hn, hall]
  rename_i hdash
  split at h
  · rename_i hopen
    obtain ⟨m, hm, h⟩ := Option.map_eq_some_iff.mp h
    obtain ⟨rfl, rfl⟩ := Prod.mk.inj h
    obtain ⟨t, ht⟩ := List.isPrefixOf_iff_prefix.mp hopen
    obtain ⟨rfl, rfl⟩ : c = '/' ∧ s = '*' :: t := by simpa [eq_comm] using ht
    obtain ⟨k, hk, rfl⟩ := find_of_commentEnd hm (by simpa [Flat, Text.startsWith] using hflat)
    have hk : Text.find ['*', '/'] t = some k := hk
    rw [if_neg hdash, if_pos hopen]
    exact .inr ⟨by simp [hk], by omega, fun is => rfl⟩
  rename_i hopen
  split at h
  · rename_i hc
    obtain ⟨m, hm, h⟩ := Option.map_eq_some_iff.mp h
    obtain ⟨rfl, rfl⟩ := Prod.mk.inj h
    subst hc
    rw [if_neg hdash, if_neg hopen]
    exact .inr ⟨by simp [closedAt_eq_quoteEnd, hm], by omega, fun is => rfl⟩
  split at h
  · rename_i hc
    obtain ⟨m, hm, h⟩ := Option.map_eq_some_iff.mp h
    obtain ⟨rfl, rfl⟩ := Prod.mk.inj h
    subst hc
    rw [if_neg hdash, if_neg hopen]
    exact .inr ⟨by simp [closedAt_eq_quoteEnd, hm], by omega, fun is => rfl⟩
  split at h
  · rename_i hc
    obtain ⟨m, hm, h⟩ := Option.map_eq_some_iff.mp h
    obtain ⟨rfl, rfl⟩ := Prod.mk.inj h
    subst hc
    rw [if_neg hdash, if_neg hopen]
    have hbody : ']' ∉ (s.take m).dropLast := by simpa [Flat] using hflat
    exact .inr ⟨by simp [closedAt_of_quoteEnd hm hbody], by omega, fun is => rfl⟩
  · rename_i h₁ h₂ h₃
    obtain ⟨rfl, rfl⟩ := Prod.mk.inj (Option.some.inj h)
    exact .inl ⟨by rw [if_neg hdash, if_neg hopen, if_neg (by simp [h₁, h₂, h₃])], rfl, rfl⟩

/-- **The mask.** -/
theorem maskFrom_items {k : Nat} {s : Text} {is : List Item} (h : itemsFrom k s = some is)
    (hflat : ∀ i ∈ is, Flat i) :
    maskFrom k s = .ok ((s.take k).map (fun _ => ' ') ++ blank is) := by
  induction s generalizing k is with
  | nil =>
    obtain rfl : is = [] := by cases k <;> simpa [itemsFrom] using h.symm
    cases k <;> rfl
  | cons c s ih =>
    cases k with
    | succ k =>
      rw [maskFrom, ih h hflat]
      rfl
    | zero =>
      rw [itemsFrom] at h
      obtain ⟨⟨f, n⟩, hnext, h⟩ := Option.bind_eq_some_iff.mp h
      obtain ⟨is, his, rfl⟩ := Option.map_eq_some_iff.mp h
      have hrest := ih his fun i hi => hflat i (List.mem_cons_of_mem _ hi)
      rcases region_of_next hnext (hflat _ List.mem_cons_self) with ⟨hr, rfl, rfl⟩ | ⟨hr, hn, hb⟩
      · have hrest : maskFrom 0 s = .ok (blank is) := hrest
        rw [maskFrom, hr]
        simp only [bind, Except.bind, if_pos, hrest]
        rfl
      · rw [maskFrom, hr]
        simp only [bind, Except.bind, hrest, if_neg (Nat.ne_of_gt hn)]
        obtain ⟨n, rfl⟩ : ∃ m, n = m + 1 := ⟨n - 1, by omega⟩
        rw [hb]
        rfl

/-! ## Blanks around the text -/

/-- A text is its stripped one with blanks around. -/
theorem strip_split (s : Text) : ∃ b, s = s.takeWhile Text.isSpace ++ s.strip ++ b ∧
    ∀ c ∈ b, Text.isSpace c = true := by
  refine ⟨(s.lstrip.reverse.takeWhile Text.isSpace).reverse, ?_,
    fun c hc => List.mem_takeWhile_imp (List.mem_reverse.mp hc)⟩
  have hr : s.lstrip = s.strip ++ (s.lstrip.reverse.takeWhile Text.isSpace).reverse := by
    rw [Text.strip, Text.rstrip, ← List.reverse_append, List.takeWhile_append_dropWhile,
      List.reverse_reverse]
  rw [List.append_assoc, ← hr]
  exact List.takeWhile_append_dropWhile.symm

theorem startsWith_pair {c a b : Char} {s : Text} :
    Text.startsWith (c :: s) [a, b] = true ↔ c = a ∧ s.head? = some b := by
  rw [Text.startsWith, List.isPrefixOf_iff_prefix, List.cons_prefix_cons]
  cases s with
  | nil => simp
  | cons d s => rw [List.cons_prefix_cons]; simp [eq_comm]

/-- No region begins with a blank. -/
theorem region_space {c : Char} {s : Text} (hc : Text.isSpace c = true) :
    region (c :: s) = .ok 0 := by
  rw [region, if_neg, if_neg, if_neg]
  · rintro (h | h | h)
    · exact ne_of_isSpace hc rfl h
    · exact ne_of_isSpace hc rfl h
    · exact ne_of_isSpace hc rfl h
  · exact fun h => ne_of_isSpace hc rfl (startsWith_pair.mp h).1
  · exact fun h => ne_of_isSpace hc rfl (startsWith_pair.mp h).1

theorem maskFrom_lead {a s m : Text} (ha : ∀ c ∈ a, Text.isSpace c = true)
    (h : maskFrom 0 (a ++ s) = .ok m) : ∃ m', maskFrom 0 s = .ok m' ∧ m = a ++ m' := by
  induction a generalizing m with
  | nil => exact ⟨m, h, rfl⟩
  | cons c a ih =>
    rw [List.cons_append, maskFrom, region_space (ha c List.mem_cons_self)] at h
    obtain ⟨m₁, hm, rfl⟩ := Exc.map_ok (f := (c :: ·)) h
    obtain ⟨m', hm', rfl⟩ := ih (fun d hd => ha d (List.mem_cons_of_mem _ hd)) hm
    exact ⟨m', hm', rfl⟩

theorem find_append_of_not_mem {u b : Text} (hb : '*' ∉ b ∧ '/' ∉ b) :
    Text.find ['*', '/'] (u ++ b) = Text.find ['*', '/'] u := by
  induction u with
  | nil =>
    have hnone : ∀ v : Text, '*' ∉ v → Text.find ['*', '/'] v = none := by
      intro v hv
      induction v with
      | nil => rfl
      | cons c v ih =>
        have hc : ¬ '*' = c := fun h => hv (h ▸ List.mem_cons_self)
        simp [Text.find, hc, ih fun h => hv (List.mem_cons_of_mem _ h)]
    rw [List.nil_append, hnone b hb.1]
    rfl
  | cons c u ih =>
    have hpre :
        List.isPrefixOf ['*', '/'] (c :: (u ++ b)) = List.isPrefixOf ['*', '/'] (c :: u) := by
      cases u with
      | nil =>
        cases b with
        | nil => rfl
        | cons d b =>
          have hd : '/' ≠ d := fun h => hb.2 (h ▸ List.mem_cons_self)
          rw [List.nil_append, List.isPrefixOf_cons_cons, List.isPrefixOf_cons_cons,
            List.isPrefixOf_cons_cons, beq_false_of_ne hd]
          rfl
      | cons d u =>
        rw [List.cons_append, List.isPrefixOf_cons_cons, List.isPrefixOf_cons_cons,
          List.isPrefixOf_cons_cons, List.isPrefixOf_cons_cons]
        rfl
    rw [List.cons_append, Text.find, Text.find, hpre, ih]

theorem closedAt_append {closer : Char} {u b : Text} {n : Nat} (hb : closer ∉ b)
    (h : closedAt closer (u ++ b) = some n) : closedAt closer u = some n := by
  have hnone : ∀ v : Text, closer ∉ v → closedAt closer v = none := by
    intro v hv
    induction v with
    | nil => rfl
    | cons c v ih =>
      have hc : ¬c = closer := fun h => hv (h ▸ List.mem_cons_self)
      have ih := ih fun h => hv (List.mem_cons_of_mem _ h)
      cases v with
      | nil => simp [closedAt, hc]
      | cons d v => simp [closedAt, hc, ih]
  fun_induction closedAt closer u generalizing n with
  | case1 =>
    rw [List.nil_append, hnone b hb] at h
    cases h
  | case2 =>
    cases b with
    | nil => simpa [closedAt] using h
    | cons d b =>
      have hd : ¬d = closer := fun h => hb (h ▸ List.mem_cons_self)
      simpa [closedAt, hd] using h
  | case3 c hc =>
    cases b with
    | nil => simp [closedAt, hc] at h
    | cons d b => simp [closedAt, hc, hnone _ hb] at h
  | case4 d u hc ih =>
    rw [List.cons_append, List.cons_append, closedAt, if_pos rfl, if_pos hc] at h
    obtain ⟨m, hm, rfl⟩ := Option.map_eq_some_iff.mp h
    rw [ih hm]
    rfl
  | case5 d u hd =>
    rw [List.cons_append, List.cons_append, closedAt, if_pos rfl, if_neg hd] at h
    exact h
  | case6 c d u hc ih =>
    rw [List.cons_append, List.cons_append, closedAt, if_neg hc] at h
    obtain ⟨m, hm, rfl⟩ := Option.map_eq_some_iff.mp h
    rw [ih hm]
    rfl

/-- A region of a text with blanks behind it is one of the text, as far as that goes. -/
theorem region_trail {c : Char} {u b : Text} (hb : ∀ c ∈ b, Text.isSpace c = true) {n : Nat}
    (h : region (c :: (u ++ b)) = .ok n) : ∃ n', region (c :: u) = .ok n' ∧
      (n' = n ∨ u.length < n' ∧ u.length < n) := by
  have hmem : ∀ d, Text.isSpace d = false → d ∉ b := by
    intro d hd hin
    rw [hb d hin] at hd
    cases hd
  have hhead : ∀ d, Text.isSpace d = false → ((u ++ b).head? = some d ↔ u.head? = some d) := by
    intro d hd
    cases u with
    | nil =>
      refine ⟨fun h => absurd (List.mem_of_head? h) (hmem d hd), fun h => ?_⟩
      cases h
    | cons e u => rfl
  have hstart : ∀ a d, Text.isSpace d = false →
      (Text.startsWith (c :: (u ++ b)) [a, d] = true ↔ Text.startsWith (c :: u) [a, d] = true) := by
    intro a d hd
    rw [startsWith_pair, startsWith_pair, hhead d hd]
  rw [region] at h ⊢
  by_cases hdash : Text.startsWith (c :: u) ['-', '-'] = true
  · rw [if_pos ((hstart _ _ rfl).mpr hdash)] at h
    rw [if_pos hdash]
    obtain ⟨rfl, hu⟩ := startsWith_pair.mp hdash
    obtain ⟨d, u, rfl⟩ : ∃ d v, u = d :: v := by
      cases u with
      | nil => cases hu
      | cons d v => exact ⟨d, v, rfl⟩
    simp only [List.cons_append, List.drop_succ_cons, List.drop_zero, find_singleton] at h ⊢
    refine ⟨_, rfl, ?_⟩
    rw [← Except.ok.inj h]
    by_cases hn : '\n' ∈ u
    · left
      have hlen : (u.takeWhile (· != '\n')).length ≠ u.length := by
        intro hlen
        have := List.mem_takeWhile_imp ((List.takeWhile_prefix _).eq_of_length hlen ▸ hn)
        simp at this
      simp [hn, List.takeWhile_append, hlen]
    · right
      have hall : u.takeWhile (· != '\n') = u := by
        rw [List.takeWhile_eq_self_iff]
        intro e he
        have hne : e ≠ '\n' := fun h => hn (h ▸ he)
        simpa using hne
      by_cases hnb : '\n' ∈ b
      · have hmem : '\n' ∈ u ++ b := List.mem_append_right u hnb
        rw [if_neg hn, if_pos hmem, List.takeWhile_append, hall, if_pos rfl, List.length_append]
        simp only [Option.map_none, Option.map_some, Option.getD_none, Option.getD_some,
          List.length_cons]
        omega
      · have hmem : '\n' ∉ u ++ b := fun h => (List.mem_append.mp h).elim hn hnb
        rw [if_neg hn, if_neg hmem, List.length_cons, List.length_cons, List.length_append]
        simp only [Option.map_none, Option.getD_none]
        omega
  rw [if_neg fun h => hdash ((hstart _ _ rfl).mp h)] at h
  rw [if_neg hdash]
  by_cases hopen : Text.startsWith (c :: u) ['/', '*'] = true
  · rw [if_pos ((hstart _ _ rfl).mpr hopen)] at h
    rw [if_pos hopen]
    obtain ⟨d, u, rfl⟩ : ∃ d v, u = d :: v := by
      cases u with
      | nil => cases (startsWith_pair.mp hopen).2
      | cons d v => exact ⟨d, v, rfl⟩
    rw [List.cons_append, List.drop_succ_cons, List.drop_zero,
      find_append_of_not_mem ⟨hmem _ rfl, hmem _ rfl⟩] at h
    exact ⟨n, h, .inl rfl⟩
  rw [if_neg fun h => hopen ((hstart _ _ rfl).mp h)] at h
  rw [if_neg hopen]
  split at h
  · rename_i hc
    rw [if_pos hc]
    have hcloser : (if c = '[' then ']' else c) ∉ b := by
      refine hmem _ ?_
      rcases hc with rfl | rfl | rfl <;> rfl
    split at h
    · cases h
    · rename_i m hm
      rw [closedAt_append hcloser hm]
      exact ⟨n, h, .inl rfl⟩
  · rename_i hc
    rw [if_neg hc]
    exact ⟨n, h, .inl rfl⟩

theorem maskFrom_of_length_le {k : Nat} {s : Text} (h : s.length ≤ k) :
    maskFrom k s = .ok (s.map fun _ => ' ') := by
  induction s generalizing k with
  | nil => cases k <;> rfl
  | cons c s ih =>
    cases k with
    | zero => simp at h
    | succ k =>
      rw [maskFrom, ih (by simpa using h)]
      rfl

/-- The mask of blanks is blank. -/
theorem maskFrom_blanks {k : Nat} {b m : Text} (hb : ∀ c ∈ b, Text.isSpace c = true)
    (h : maskFrom k b = .ok m) : ∀ c ∈ m, Text.isSpace c = true := by
  induction b generalizing k m with
  | nil =>
    obtain rfl : m = [] := by cases k <;> simpa [maskFrom] using h.symm
    simp
  | cons c b ih =>
    have ih := fun k m => @ih k m fun d hd => hb d (List.mem_cons_of_mem _ hd)
    cases k with
    | zero =>
      rw [maskFrom, region_space (hb c List.mem_cons_self)] at h
      obtain ⟨m, hm, rfl⟩ := Exc.map_ok (f := (c :: ·)) h
      exact List.forall_mem_cons.mpr ⟨hb c List.mem_cons_self, ih 0 m hm⟩
    | succ k =>
      rw [maskFrom] at h
      obtain ⟨m, hm, rfl⟩ := Exc.map_ok h
      exact List.forall_mem_cons.mpr ⟨rfl, ih k m hm⟩

theorem maskFrom_trail {k : Nat} {u b m : Text} (hb : ∀ c ∈ b, Text.isSpace c = true)
    (h : maskFrom k (u ++ b) = .ok m) : ∃ m' b', maskFrom k u = .ok m' ∧ m = m' ++ b' ∧
      ∀ c ∈ b', Text.isSpace c = true := by
  induction u generalizing k m with
  | nil => exact ⟨[], m, by cases k <;> rfl, rfl, maskFrom_blanks hb h⟩
  | cons c u ih =>
    -- the mask of what comes after one more character
    have hmap : ∀ {k : Nat} {d : Char}, (maskFrom k (u ++ b)).map (d :: ·) = .ok m →
        ∃ m' b', (maskFrom k u).map (d :: ·) = .ok m' ∧ m = m' ++ b' ∧
          ∀ c ∈ b', Text.isSpace c = true := by
      intro k d h
      obtain ⟨m₁, hm, rfl⟩ := Exc.map_ok h
      obtain ⟨m', b', hm', rfl, hb'⟩ := ih hm
      exact ⟨d :: m', b', by rw [hm']; rfl, rfl, hb'⟩
    cases k with
    | succ k => exact hmap h
    | zero =>
      rw [List.cons_append, maskFrom] at h
      obtain ⟨n, hr, h⟩ := Exc.bind_ok h
      obtain ⟨n', hr', hn⟩ := region_trail hb hr
      rw [maskFrom, hr']
      simp only [bind, Except.bind]
      rcases hn with rfl | ⟨hn', hn⟩
      · split at h
        · rename_i h0
          rw [if_pos h0]
          exact hmap h
        · rename_i h0
          rw [if_neg h0]
          exact hmap h
      · have hsame : maskFrom (n' - 1) u = maskFrom (n - 1) u := by
          rw [maskFrom_of_length_le (by omega), maskFrom_of_length_le (by omega)]
        rw [if_neg (by omega)] at h ⊢
        rw [hsame]
        exact hmap h

/-- **The guard masks the stripped text.** Its mask is that of the text without some blanks around
it. -/
theorem mask_strip {sql m : Text} (h : maskFrom 0 sql = .ok m) : ∃ m' b,
    m = sql.takeWhile Text.isSpace ++ m' ++ b ∧
    maskCommentsLiteralsIdentifiers sql.strip = .ok m' ∧ ∀ c ∈ b, Text.isSpace c = true := by
  obtain ⟨b, hs, hb⟩ := strip_split sql
  rw [hs, List.append_assoc] at h
  obtain ⟨m₁, hm₁, rfl⟩ := maskFrom_lead (fun c hc => List.mem_takeWhile_imp hc) h
  obtain ⟨m', b', hm', rfl, hb'⟩ := maskFrom_trail hb hm₁
  exact ⟨m', b', (List.append_assoc _ _ _).symm, hm', hb'⟩

/-! ## Parameters and names of a text in parts -/

theorem withoutParamsFrom_eq (k : Nat) (s : Text) :
    withoutParamsFrom k s = withoutParams (s.drop k) := by
  induction k generalizing s with
  | zero => rfl
  | succ k ih =>
    cases s with
    | nil => rfl
    | cons c s => exact ih s

theorem withoutParams_cons (c : Char) (s : Text) : withoutParams (c :: s) =
    if c = '@' ∧ s.head?.any isNameStart then ' ' :: withoutParams (s.dropWhile isNamePart)
    else c :: withoutParams s := by
  rw [← drop_length_takeWhile, ← withoutParamsFrom_eq]
  rfl

theorem withoutParams_cons_of_ne {c : Char} (hc : c ≠ '@') (s : Text) :
    withoutParams (c :: s) = c :: withoutParams s := by
  rw [withoutParams_cons, if_neg fun h => hc h.1]

theorem isNamePart_of_isNameStart {c : Char} (h : isNameStart c = true) : isNamePart c = true := by
  simp only [isNameStart, Bool.or_eq_true] at h
  rcases h with h | h
  · simp [isNamePart, Char.isAlphanum, h]
  · simp [isNamePart, h]

theorem isNameStart_eq_false {c : Char} (h : isNamePart c = false) : isNameStart c = false := by
  by_contra hs
  rw [isNamePart_of_isNameStart (by simpa using hs)] at h
  cases h

/-- A parameter does not go on after a character that no name has. -/
theorem withoutParams_append {u v : Text} (hv : ∀ c ∈ v.head?, isNamePart c = false) :
    withoutParams (u ++ v) = withoutParams u ++ withoutParams v := by
  induction hn : u.length using Nat.strong_induction_on generalizing u with
  | h n ih =>
    subst hn
    cases u with
    | nil => rfl
    | cons c u =>
      have hhead : (u ++ v).head?.any isNameStart = u.head?.any isNameStart := by
        cases u with
        | cons d u => rfl
        | nil =>
          cases v with
          | nil => rfl
          | cons d v =>
            have hd := isNameStart_eq_false (hv d rfl)
            simpa using hd
      rw [List.cons_append, withoutParams_cons, withoutParams_cons, hhead]
      split
      · have hlen : (u.dropWhile isNamePart).length < (c :: u).length :=
          Nat.lt_succ_of_le (List.dropWhile_suffix _).length_le
        rw [dropWhile_append_of_head hv, ih _ hlen rfl, List.cons_append]
      · rw [ih u.length (by simp) rfl, List.cons_append]

theorem withoutParams_append_of_not_mem {u : Text} (hu : '@' ∉ u) (v : Text) :
    withoutParams (u ++ v) = u ++ withoutParams v := by
  induction u with
  | nil => rfl
  | cons c u ih =>
    rw [List.mem_cons, not_or] at hu
    rw [List.cons_append, withoutParams_cons_of_ne (Ne.symm hu.1), ih hu.2, List.cons_append]

theorem namesFrom_eq (k : Nat) (s : Text) : namesFrom k s = names (s.drop k) := by
  induction k generalizing s with
  | zero => rfl
  | succ k ih =>
    cases s with
    | nil => rfl
    | cons c s => exact ih s

theorem names_cons (c : Char) (s : Text) : names (c :: s) =
    if isNameStart c then (c :: s.takeWhile isNamePart) :: names (s.dropWhile isNamePart)
    else names s := by
  rw [← drop_length_takeWhile, ← namesFrom_eq]
  rfl

theorem names_append {u v : Text} (hv : ∀ c ∈ v.head?, isNamePart c = false) :
    names (u ++ v) = names u ++ names v := by
  induction hn : u.length using Nat.strong_induction_on generalizing u with
  | h n ih =>
    subst hn
    cases u with
    | nil => rfl
    | cons c u =>
      rw [List.cons_append, names_cons, names_cons]
      split
      · have hlen : (u.dropWhile isNamePart).length < (c :: u).length :=
          Nat.lt_succ_of_le (List.dropWhile_suffix _).length_le
        rw [dropWhile_append_of_head hv, ih _ hlen rfl, takeWhile_append_of_head hv,
          List.cons_append]
      · exact ih u.length (by simp) rfl

/-- A name that does not begin in a run of name characters is found whatever stands before. -/
theorem names_dropWhile_subset (u v : Text) : names (v.dropWhile isNamePart) ⊆ names (u ++ v) := by
  have hself : ∀ v : Text, names (v.dropWhile isNamePart) ⊆ names v := by
    intro v
    induction v with
    | nil => simp
    | cons c v ih =>
      by_cases hc : isNamePart c = true
      · rw [List.dropWhile_cons_of_pos hc, names_cons]
        split
        · exact List.subset_cons_self _ _
        · exact ih
      · rw [List.dropWhile_cons_of_neg hc]
        exact List.Subset.refl _
  induction hn : u.length using Nat.strong_induction_on generalizing u with
  | h n ih =>
    subst hn
    cases u with
    | nil => exact hself v
    | cons c u =>
      rw [List.cons_append, names_cons]
      split
      · refine List.subset_cons_of_subset _ ?_
        rw [List.dropWhile_append]
        split
        · exact List.Subset.refl _
        · exact ih _ (Nat.lt_succ_of_le (List.dropWhile_suffix _).length_le) _ rfl
      · exact ih u.length (by simp) u rfl

end SqlGateway
