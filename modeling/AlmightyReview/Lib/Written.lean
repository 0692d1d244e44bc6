import AlmightyReview.Lib.RoundTrip

/-!
# The length of a JSON text

How long a text is that `json.dumps` writes with `ensure_ascii`.

* `written`: the length of a character in a string; `length_quote`, `length_dumps_obj`: of a string
  and of an object.
* `ascii_dumps`: only ASCII is written, so the bytes are the characters (`encode_of_isAscii`).
-/

namespace Json

/-! ## Lengths -/

/-- The number of characters in which a character is written, with `ensure_ascii`. -/
def written (c : Char) : Nat :=
  let n := c.toNat
  if c = '"' ∨ c = '\\' ∨ n = 8 ∨ n = 9 ∨ n = 10 ∨ n = 12 ∨ n = 13 then 2
  else if 32 ≤ n ∧ n ≤ 126 then 1
  else if n < 0x10000 then 6
  else 12

/-- The same for a text. -/
def writtenText (s : Text) : Nat := (s.map written).sum

theorem length_unicodeEscape (n : Nat) : (unicodeEscape n).length = 6 := rfl

theorem length_escape (c : Char) : (escape c).length = written c := by
  unfold escape written
  dsimp only
  by_cases hshort : c = '"' ∨ c = '\\' ∨ c.toNat = 8 ∨ c.toNat = 9 ∨ c.toNat = 10 ∨ c.toNat = 12 ∨
      c.toNat = 13
  · rw [if_pos hshort]
    repeat' split
    all_goals first
      | rfl
      | exact absurd hshort (by simp_all)
  · rw [if_neg hshort]
    simp only [not_or] at hshort
    obtain ⟨hquote, hback, h8, h9, h10, h12, h13⟩ := hshort
    rw [if_neg hquote, if_neg hback, if_neg h10, if_neg h13, if_neg h9, if_neg h12, if_neg h8]
    split
    · rfl
    split
    · exact length_unicodeEscape _
    · rw [List.length_append, length_unicodeEscape, length_unicodeEscape]

theorem length_quote (s : Text) : (quoteWith true s).length = writtenText s + 2 := by
  unfold quoteWith writtenText
  rw [if_pos rfl, List.length_append, List.length_cons, List.length_flatMap,
    List.map_congr_left fun c _ => length_escape c]
  rfl

theorem length_join (parts : List Text) :
    (join [','] parts).length = (parts.map List.length).sum + (parts.length - 1) := by
  induction parts with
  | nil => rfl
  | cons p ps ih =>
    cases ps with
    | nil => simp [join_singleton]
    | cons q ps =>
      rw [join_cons_cons, List.length_append, List.length_append, ih]
      simp only [List.map_cons, List.sum_cons, List.length_cons, List.length_nil]
      omega

/-- The length of an object, with its fields in whatever order. -/
theorem length_dumps_obj (fields : List (Text × Value)) : ((Value.obj fields).dumps true).length =
    (fields.map fun f => writtenText f.1 + (f.2.dumps true).length + 3).sum +
      (fields.length - 1) + 2 := by
  have hperm : (sortFields fields).Perm fields := List.perm_insertionSort _ _
  have hmember : ∀ f : Text × Value, (memberText true f).length =
      writtenText f.1 + (f.2.dumps true).length + 3 := by
    intro f
    rw [memberText, List.length_append, length_quote, List.length_cons]
    omega
  rw [dumps_obj, List.length_append, List.length_cons, length_join, List.map_map,
    List.length_map, hperm.length_eq, (hperm.map _).sum_nat]
  simp only [Function.comp_def, hmember]
  rfl

/-! ### Characters -/

def IsAscii (s : Text) : Prop := ∀ c ∈ s, c.toNat < 128

theorem isAscii_append {s t : Text} (hs : IsAscii s) (ht : IsAscii t) : IsAscii (s ++ t) :=
  List.forall_mem_append.mpr ⟨hs, ht⟩

theorem isAscii_cons {c : Char} {s : Text} (hc : c.toNat < 128) (hs : IsAscii s) :
    IsAscii (c :: s) :=
  List.forall_mem_cons.mpr ⟨hc, hs⟩

theorem isAscii_hexDigit (n : Nat) : (hexDigit n).toNat < 128 := by
  unfold hexDigit
  rw [List.getD_eq_getElem?_getD]
  rcases h : (['0', '1', '2', '3', '4', '5', '6', '7', '8', '9', 'a', 'b', 'c', 'd', 'e',
      'f'] : List Char)[n]? with _ | c
  · decide
  · have hall : ∀ c ∈ (['0', '1', '2', '3', '4', '5', '6', '7', '8', '9', 'a', 'b', 'c', 'd', 'e',
        'f'] : List Char), c.toNat < 128 := by decide
    exact hall c (List.mem_of_getElem? h)

theorem isAscii_unicodeEscape (n : Nat) : IsAscii (unicodeEscape n) := by
  unfold unicodeEscape IsAscii
  simp only [List.mem_cons, List.not_mem_nil, or_false]
  rintro c (rfl | rfl | rfl | rfl | rfl | rfl)
  · decide
  · decide
  · exact isAscii_hexDigit _
  · exact isAscii_hexDigit _
  · exact isAscii_hexDigit _
  · exact isAscii_hexDigit _

theorem isAscii_escape (c : Char) : IsAscii (escape c) := by
  have hletter : ∀ e : Char, e.toNat < 128 → IsAscii ['\\', e] := fun e he =>
    isAscii_cons (by decide) (isAscii_cons he (List.forall_mem_nil _))
  unfold escape
  dsimp only
  split
  · exact hletter _ (by decide)
  split
  · exact hletter _ (by decide)
  split
  · exact hletter _ (by decide)
  split
  · exact hletter _ (by decide)
  split
  · exact hletter _ (by decide)
  split
  · exact hletter _ (by decide)
  split
  · exact hletter _ (by decide)
  split
  · next h => exact isAscii_cons (by omega) (List.forall_mem_nil _)
  split
  · exact isAscii_unicodeEscape _
  · exact isAscii_append (isAscii_unicodeEscape _) (isAscii_unicodeEscape _)

theorem isAscii_quote (s : Text) : IsAscii (quoteWith true s) := by
  unfold quoteWith
  refine isAscii_append (isAscii_cons (by decide) ?_) (isAscii_cons (by decide)
    (List.forall_mem_nil _))
  intro c hc
  obtain ⟨d, -, hd⟩ := List.mem_flatMap.mp hc
  exact isAscii_escape d c hd

theorem isAscii_join {parts : List Text} (h : ∀ p ∈ parts, IsAscii p) :
    IsAscii (join [','] parts) := by
  intro c hc
  rcases Text.mem_join hc with hcomma | ⟨p, hp, hcp⟩
  · rw [List.mem_singleton.mp hcomma]
    decide
  · exact h p hp c hcp

theorem isAscii_digits {ds : Text} (h : ∀ c ∈ ds, Decimal.isDigit c = true) : IsAscii ds := by
  intro c hc
  have := h c hc
  simp only [Decimal.isDigit, Bool.and_eq_true, decide_eq_true_eq] at this
  omega

theorem isAscii_ofInt (n : Int) : IsAscii (Text.ofInt n) := by
  cases n with
  | ofNat n => exact isAscii_digits (Decimal.digits_ofNat n).2
  | negSucc n => exact isAscii_cons (by decide) (isAscii_digits (Decimal.digits_ofNat (n + 1)).2)

theorem isAscii_decimal {d : Decimal} (h : d.Valid) : IsAscii d.text := by
  have hfrac : IsAscii (Decimal.fracText d.frac) := by
    cases hf : d.frac with
    | none => exact List.forall_mem_nil _
    | some ds => exact isAscii_cons (by decide) (isAscii_digits (h.frac ds hf).2)
  have hexponent : IsAscii (Decimal.exponentText d.exponent) := by
    cases he : d.exponent with
    | none => exact List.forall_mem_nil _
    | some e =>
      obtain ⟨negative, ds⟩ := e
      refine isAscii_cons (by decide) (isAscii_cons ?_ (isAscii_digits (h.exponent _ he).2))
      cases negative <;> decide
  exact isAscii_append (isAscii_digits h.int.1.2) (isAscii_append hfrac hexponent)

theorem isAscii_repr (x : Double) : IsAscii x.repr := by
  have htext := isAscii_decimal (Decimal.shortest_spec x.exact).1
  unfold Double.repr
  cases x.negative with
  | false => exact htext
  | true => exact isAscii_cons (by decide) htext

mutual

/-- With `ensure_ascii` no other character is written. -/
theorem ascii_dumps : (v : Value) → IsAscii (v.dumps true)
  | .null => by rw [Value.dumps]; unfold IsAscii; decide
  | .bool true => by rw [Value.dumps]; unfold IsAscii; decide
  | .bool false => by rw [Value.dumps]; unfold IsAscii; decide
  | .int n => by rw [Value.dumps]; exact isAscii_ofInt n
  | .float x => by rw [Value.dumps]; exact isAscii_repr x
  | .str s => by rw [Value.dumps]; exact isAscii_quote s
  | .arr xs => by
    rw [Value.dumps]
    exact isAscii_append (isAscii_cons (by decide) (isAscii_join (ascii_dumpsEach xs)))
      (isAscii_cons (by decide) (List.forall_mem_nil _))
  | .obj fields => by
    have hfields := ascii_dumpsFields fields
    rw [Value.dumps]
    refine isAscii_append (isAscii_cons (by decide) (isAscii_join ?_))
      (isAscii_cons (by decide) (List.forall_mem_nil _))
    intro p hp
    obtain ⟨f, hf, rfl⟩ := List.mem_map.mp hp
    exact isAscii_append (isAscii_quote f.1) (isAscii_cons (by decide)
      (hfields f (List.mem_insertionSort _ |>.mp hf)))

theorem ascii_dumpsEach : (xs : List Value) → ∀ p ∈ dumpsEach true xs, IsAscii p
  | [] => List.forall_mem_nil _
  | v :: vs => List.forall_mem_cons.mpr ⟨ascii_dumps v, ascii_dumpsEach vs⟩

theorem ascii_dumpsFields : (fields : List (Text × Value)) →
    ∀ f ∈ dumpsFields true fields, IsAscii f.2
  | [] => List.forall_mem_nil _
  | (_, v) :: fields => List.forall_mem_cons.mpr ⟨ascii_dumps v, ascii_dumpsFields fields⟩

end

/-- The bytes of ASCII are its characters. -/
theorem encode_of_isAscii {s : Text} (h : IsAscii s) : s.encode = s.map Char.toNat := by
  unfold Text.encode
  induction s with
  | nil => rfl
  | cons c s ih =>
    have hc : Text.utf8 c = [c.toNat] := if_pos (h c List.mem_cons_self)
    rw [List.flatMap_cons, hc, ih fun d hd => h d (List.mem_cons_of_mem _ hd)]
    rfl

end Json
