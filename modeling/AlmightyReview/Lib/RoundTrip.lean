import AlmightyReview.Lib.Quoted

/-!
# JSON that is written and read again

`json.loads` on what `json.dumps` wrote with `sort_keys=True`, with `ensure_ascii` or without.

* `Value.loaded`: what is read, the fields of an object in the order of their keys.
* `Value.Readable`: the integers are short, the keys of an object are distinct, and there are no
  more than `depth` containers in one another.
* `loads_dumps`: such a value is read as it was written. So two values with one text are read alike
  (`loaded_of_dumps_eq`).
-/

namespace Json

/-! ## Strings -/

/-- The code points that a character is written in. -/
def units (c : Char) : List Nat :=
  if c.toNat < 0x10000 then [c.toNat]
  else [0xd800 + (c.toNat - 0x10000) / 1024, 0xdc00 + (c.toNat - 0x10000) % 1024]

theorem toNat_lt (c : Char) : c.toNat < 0x110000 := by
  have hvalid : c.toNat < 0xd800 ∨ (0xdfff < c.toNat ∧ c.toNat < 0x110000) := c.valid
  omega

theorem scanUnits_escape (c : Char) (s : Text) :
    scanUnits (escape c ++ s) = (scanUnits s).map fun r => (units c ++ r.1, r.2) := by
  have hlt := toNat_lt c
  -- a character that is written by a letter behind a backslash
  have hsimple : ∀ {e : Char}, e ≠ 'u' → simpleEscape e = some c.toNat → c.toNat < 0x10000 →
      scanUnits (['\\', e] ++ s) = (scanUnits s).map fun r => (units c ++ r.1, r.2) := by
    intro e hu he hc
    rw [units, if_pos hc]
    exact scanUnits_simpleEscape hu he s
  unfold escape
  dsimp only
  split
  · next h => subst h; exact hsimple (by decide) rfl (by decide)
  split
  · next h => subst h; exact hsimple (by decide) rfl (by decide)
  split
  · next h => exact hsimple (by decide) (by rw [h]; rfl) (by omega)
  split
  · next h => exact hsimple (by decide) (by rw [h]; rfl) (by omega)
  split
  · next h => exact hsimple (by decide) (by rw [h]; rfl) (by omega)
  split
  · next h => exact hsimple (by decide) (by rw [h]; rfl) (by omega)
  split
  · next h => exact hsimple (by decide) (by rw [h]; rfl) (by omega)
  split
  · next hquote hback _ _ _ _ _ h =>
    rw [units, if_pos (by omega), List.singleton_append, scanUnits]
    · rw [if_neg (by omega)]
      rfl
    · exact hquote
    · exact fun _ _ _ _ _ h _ => hback h
    · exact fun _ _ h _ => hback h
  split
  · next h =>
    rw [units, if_pos h]
    exact scanUnits_unicodeEscape h s
  · next h =>
    rw [units, if_neg h, List.append_assoc, scanUnits_unicodeEscape (by omega),
      scanUnits_unicodeEscape (by omega)]
    cases scanUnits s <;> rfl

/-- The code points that a character is written in, with `ensure_ascii` or without. -/
def unitsWith (ascii : Bool) (c : Char) : List Nat := if ascii then units c else [c.toNat]

theorem scanUnits_quote (ascii : Bool) (s rest : Text) :
    scanUnits (s.flatMap (if ascii then escape else escapeWide) ++ '"' :: rest) =
      some (s.flatMap (unitsWith ascii), rest) := by
  induction s with
  | nil => rfl
  | cons c s ih =>
    rw [List.flatMap_cons, List.append_assoc]
    cases ascii with
    | false =>
      rw [if_neg Bool.false_ne_true] at ih ⊢
      rw [scanUnits_escapeWide, ih]
      simp only [Option.map_some, List.flatMap_cons, unitsWith, Bool.false_eq_true, if_false,
        List.singleton_append]
    | true =>
      rw [if_pos rfl] at ih ⊢
      rw [scanUnits_escape, ih]
      simp only [Option.map_some, List.flatMap_cons, unitsWith, if_true]

theorem ofUnits_cons (c : Char) (us : List Nat) :
    ofUnits (c.toNat :: us) = c :: ofUnits us := by
  obtain ⟨hhigh, hlow⟩ := isHigh_toNat c
  cases us with
  | nil => simp [ofUnits, hhigh, hlow, Char.ofNat_toNat]
  | cons m us => simp [ofUnits, hhigh, hlow, Char.ofNat_toNat]

/-- The code points of characters give the characters. -/
theorem ofUnits_unitsWith (ascii : Bool) (s : Text) :
    ofUnits (s.flatMap (unitsWith ascii)) = s := by
  induction s with
  | nil => rfl
  | cons c s ih =>
    rw [List.flatMap_cons]
    by_cases hc : ascii = false ∨ c.toNat < 0x10000
    · have hunits : unitsWith ascii c = [c.toNat] := by
        unfold unitsWith units
        rcases hc with rfl | hc
        · rfl
        · simp [hc]
      rw [hunits, List.singleton_append, ofUnits_cons, ih]
    · obtain ⟨hascii, hc⟩ := not_or.mp hc
      have hlt := toNat_lt c
      have hpair : (isHigh (0xd800 + (c.toNat - 0x10000) / 1024) &&
          isLow (0xdc00 + (c.toNat - 0x10000) % 1024)) = true := by
        unfold isHigh isLow
        simp only [Bool.and_eq_true, decide_eq_true_eq]
        omega
      have hsum : 0x10000 + 1024 * (0xd800 + (c.toNat - 0x10000) / 1024 - 0xd800) +
          (0xdc00 + (c.toNat - 0x10000) % 1024 - 0xdc00) = c.toNat := by
        omega
      rw [unitsWith, if_pos (by simpa using hascii), units, if_neg hc, List.cons_append,
        List.singleton_append, ofUnits, if_pos hpair, hsum, Char.ofNat_toNat, ih]

/-- **A string that was written is read.** -/
theorem scanString_quote (ascii : Bool) (s rest : Text) :
    scanString (s.flatMap (if ascii then escape else escapeWide) ++ '"' :: rest) =
      .ok (s, rest) := by
  unfold scanString
  rw [scanUnits_quote]
  dsimp only
  rw [ofUnits_unitsWith]

/-! ## Numbers -/

/-- What follows a number does not belong to it. -/
def Stops (rest : Text) : Prop :=
  ∀ c ∈ rest.head?, Decimal.isDigit c = false ∧ c ≠ '.' ∧ c ≠ 'e' ∧ c ≠ 'E'

theorem takeWhile_digits {ds rest : Text} (hds : ∀ c ∈ ds, Decimal.isDigit c = true)
    (hrest : ∀ c ∈ rest.head?, Decimal.isDigit c = false) :
    (ds ++ rest).takeWhile Decimal.isDigit = ds ∧
      (ds ++ rest).dropWhile Decimal.isDigit = rest := by
  rw [List.takeWhile_append_of_pos hds, List.dropWhile_append_of_pos hds]
  cases rest with
  | nil => simp
  | cons c rest => simp [hrest c rfl]

theorem scanInt_append {ds rest : Text} (hds : Decimal.Digits ds)
    (hzero : ds.head? = some '0' → ds = ['0'])
    (hrest : ∀ c ∈ rest.head?, Decimal.isDigit c = false) :
    scanInt (ds ++ rest) = some (ds, rest) := by
  obtain ⟨hne, hdigits⟩ := hds
  obtain ⟨c, ds, rfl⟩ := List.exists_cons_of_ne_nil hne
  by_cases hc : c = '0'
  · subst hc
    obtain rfl := (List.cons.inj (hzero rfl)).2
    rfl
  · obtain ⟨htake, hdrop⟩ :=
      takeWhile_digits (fun d hd => hdigits d (List.mem_cons_of_mem _ hd)) hrest
    rw [List.cons_append, scanInt, if_pos (hdigits c List.mem_cons_self), htake, hdrop]
    exact hc

theorem scanFrac_append {frac : Option Text} {rest : Text} (h : ∀ ds ∈ frac, Decimal.Digits ds)
    (hrest : ∀ c ∈ rest.head?, Decimal.isDigit c = false ∧ c ≠ '.') :
    scanFrac (Decimal.fracText frac ++ rest) = (frac, rest) := by
  cases frac with
  | none =>
    rw [Decimal.fracText, List.nil_append]
    cases rest with
    | nil => rfl
    | cons c rest =>
      rw [scanFrac]
      exact fun d s he => absurd (List.cons.inj he).1 (hrest c rfl).2
  | some ds =>
    obtain ⟨hne, hdigits⟩ := h ds rfl
    obtain ⟨c, ds, rfl⟩ := List.exists_cons_of_ne_nil hne
    obtain ⟨htake, hdrop⟩ := takeWhile_digits
      (fun d hd => hdigits d (List.mem_cons_of_mem _ hd)) fun c hc => (hrest c hc).1
    rw [Decimal.fracText, List.cons_append, List.cons_append, scanFrac,
      if_pos (hdigits c List.mem_cons_self), htake, hdrop]

theorem scanExponent_append {exponent : Option (Bool × Text)} {rest : Text}
    (h : ∀ e ∈ exponent, Decimal.Digits e.2) (hrest : Stops rest) :
    scanExponent (Decimal.exponentText exponent ++ rest) = (exponent, rest) := by
  cases exponent with
  | none =>
    rw [Decimal.exponentText, List.nil_append]
    cases rest with
    | nil => rfl
    | cons c rest =>
      obtain ⟨-, -, he, hE⟩ := hrest c rfl
      simp [scanExponent, he, hE]
  | some e =>
    obtain ⟨negative, ds⟩ := e
    obtain ⟨hne, hdigits⟩ := h _ rfl
    obtain ⟨htake, hdrop⟩ := takeWhile_digits hdigits fun c hc => (hrest c hc).1
    have hsign : scanSign ((if negative then '-' else '+') :: ds ++ rest) =
        (negative, ds ++ rest) := by
      cases negative <;> rfl
    rw [Decimal.exponentText, List.cons_append, scanExponent, hsign]
    dsimp only
    rw [htake, hdrop, if_pos ⟨.inl rfl, hne⟩]

/-- **A decimal that was written is read.** -/
theorem scanUnsigned_text {d : Decimal} {rest : Text} (negative : Bool) (hd : d.Valid)
    (hfloat : (d.frac.isSome || d.exponent.isSome) = true) (hrest : Stops rest) :
    scanUnsigned negative (d.text ++ rest) = .ok (.float (ofDecimal negative d), rest) := by
  have hexponent : ∀ c ∈ (Decimal.exponentText d.exponent ++ rest).head?,
      Decimal.isDigit c = false ∧ c ≠ '.' := by
    cases d.exponent with
    | none => exact fun c hc => ⟨(hrest c hc).1, (hrest c hc).2.1⟩
    | some e =>
      rintro c ⟨⟩
      decide
  have hfrac : ∀ c ∈ (Decimal.fracText d.frac ++ (Decimal.exponentText d.exponent ++ rest)).head?,
      Decimal.isDigit c = false := by
    cases d.frac with
    | none => exact fun c hc => (hexponent c hc).1
    | some ds =>
      rintro c ⟨⟩
      decide
  have hnone : (d.frac.isNone && d.exponent.isNone) = false := by
    rw [← Option.not_isSome, ← Option.not_isSome, ← Bool.not_or, hfloat]
    rfl
  rw [Decimal.text, List.append_assoc, List.append_assoc, scanUnsigned,
    scanInt_append hd.int.1 hd.int.2 hfrac]
  dsimp only
  rw [scanFrac_append hd.frac hexponent]
  dsimp only
  rw [scanExponent_append hd.exponent hrest]
  dsimp only
  rw [hnone]
  rfl

theorem scanUnsigned_ofNat {n : Nat} {rest : Text} (negative : Bool) (hrest : Stops rest) :
    scanUnsigned negative (Text.ofNat n ++ rest) =
      (ofDigits negative (Text.ofNat n)).map fun v => (v, rest) := by
  rw [scanUnsigned, scanInt_append (Decimal.digits_ofNat n) Decimal.ofNat_zero_cases
    fun c hc => (hrest c hc).1]
  dsimp only
  have hfrac : scanFrac (Decimal.fracText none ++ rest) = (none, rest) :=
    scanFrac_append (fun ds hds => by cases hds) fun c hc => ⟨(hrest c hc).1, (hrest c hc).2.1⟩
  have hexponent : scanExponent (Decimal.exponentText none ++ rest) = (none, rest) :=
    scanExponent_append (fun e he => by cases he) hrest
  rw [Decimal.fracText, List.nil_append] at hfrac
  rw [Decimal.exponentText, List.nil_append] at hexponent
  rw [hfrac]
  dsimp only
  rw [hexponent]
  rfl

/-- A text that begins with a digit is read as a number. -/
theorem scanAtom_digit {c : Char} {s : Text} (h : Decimal.isDigit c = true) :
    scanAtom (c :: s) = scanUnsigned false (c :: s) ∧
      scanAtom ('-' :: c :: s) = scanUnsigned true (c :: s) := by
  have hne : c ≠ 'n' ∧ c ≠ 't' ∧ c ≠ 'f' ∧ c ≠ 'N' ∧ c ≠ 'I' ∧ c ≠ '-' := by
    refine ⟨?_, ?_, ?_, ?_, ?_, ?_⟩ <;>
    · rintro rfl
      exact absurd h (by decide)
  obtain ⟨hn, ht, hf, hN, hI, hminus⟩ := hne
  refine ⟨?_, ?_⟩
  · unfold scanAtom
    simp [Text.startsWith, hn.symm, ht.symm, hf.symm, hN.symm, hI.symm, hminus.symm]
    split
    · next h => exact absurd (List.cons.inj h).1 hminus
    · rfl
  · unfold scanAtom
    simp [Text.startsWith, hI.symm]

/-! ## Values -/

mutual

/-- What is read of a text that was written. An integer that is too long is not read; `null` stands
for it here. -/
def Value.loaded : Value → Loaded
  | .null => .null
  | .bool b => .bool b
  | .int n => if h : n.natAbs < intLimit then .int n h else .null
  | .float x => .float (.finite x)
  | .str s => .str s
  | .arr xs => .arr (loadedEach xs)
  | .obj fields => .obj ((loadedFields fields).insertionSort fun a b => a.1 ≤ b.1)

def loadedEach : List Value → List Loaded
  | [] => []
  | v :: vs => v.loaded :: loadedEach vs

def loadedFields : List (Text × Value) → List (Text × Loaded)
  | [] => []
  | (key, v) :: fields => (key, v.loaded) :: loadedFields fields

end

mutual

/-- A value that can be read when `depth` containers in one another can be. -/
def Value.Readable : Value → Nat → Prop
  | .int n, _ => n.natAbs < intLimit
  | .arr _, 0 => False
  | .arr xs, depth + 1 => ReadableEach xs depth
  | .obj _, 0 => False
  | .obj fields, depth + 1 => (fields.map Prod.fst).Nodup ∧ ReadableFields fields depth
  | _, _ => True

def ReadableEach : List Value → Nat → Prop
  | [], _ => True
  | v :: vs, depth => v.Readable depth ∧ ReadableEach vs depth

def ReadableFields : List (Text × Value) → Nat → Prop
  | [], _ => True
  | (_, v) :: fields, depth => v.Readable depth ∧ ReadableFields fields depth

end

theorem loadedEach_eq (xs : List Value) : loadedEach xs = xs.map Value.loaded := by
  induction xs with
  | nil => rfl
  | cons v vs ih =>
    rw [loadedEach, ih]
    rfl

theorem loadedFields_eq (fields : List (Text × Value)) :
    loadedFields fields = fields.map fun f => (f.1, f.2.loaded) := by
  induction fields with
  | nil => rfl
  | cons f fields ih =>
    rw [loadedFields, ih]
    rfl

theorem dumpsEach_eq (ascii : Bool) (xs : List Value) :
    dumpsEach ascii xs = xs.map (Value.dumps ascii) := by
  induction xs with
  | nil => rfl
  | cons v vs ih =>
    rw [dumpsEach, ih]
    rfl

/-- The fields of an object in the order of their keys. -/
def sortFields (fields : List (Text × Value)) : List (Text × Value) :=
  fields.insertionSort fun a b => a.1 ≤ b.1

/-- A field as it is written. -/
def memberText (ascii : Bool) (f : Text × Value) : Text :=
  quoteWith ascii f.1 ++ ':' :: f.2.dumps ascii

variable {ascii : Bool}

theorem dumps_obj (fields : List (Text × Value)) : (Value.obj fields).dumps ascii =
    '{' :: join [','] ((sortFields fields).map (memberText ascii)) ++ ['}'] := by
  have hsort : (dumpsFields ascii fields).insertionSort (fun a b => a.1 ≤ b.1) =
      (sortFields fields).map fun f => (f.1, f.2.dumps ascii) := by
    rw [dumpsFields_eq, sortFields]
    exact (List.map_insertionSort (fun a b : Text × Value => a.1 ≤ b.1)
      (fun a b : Text × Text => a.1 ≤ b.1) (fun f => (f.1, f.2.dumps ascii)) _
      fun a _ b _ => Iff.rfl).symm
  rw [Value.dumps, hsort, List.map_map]
  rfl

theorem loaded_obj (fields : List (Text × Value)) : (Value.obj fields).loaded =
    .obj ((sortFields fields).map fun f => (f.1, f.2.loaded)) := by
  rw [Value.loaded, loadedFields_eq, sortFields]
  exact congrArg Loaded.obj (List.map_insertionSort (fun a b : Text × Value => a.1 ≤ b.1)
    (fun a b : Text × Loaded => a.1 ≤ b.1) (fun f => (f.1, f.2.loaded)) _
    fun a _ b _ => Iff.rfl).symm

/-! ## Beginnings -/

/-- A character that a value can begin with. -/
def Starts (c : Char) : Prop := c ≠ ']' ∧ c ≠ '}' ∧ c ≠ '\uFEFF' ∧ isBlank c = false

theorem starts_digit {c : Char} (h : Decimal.isDigit c = true) : Starts c := by
  unfold Starts isBlank
  simp only [Bool.or_eq_false_iff, beq_eq_false_iff_ne]
  refine ⟨?_, ?_, ?_, ⟨⟨?_, ?_⟩, ?_⟩, ?_⟩ <;>
  · rintro rfl
    exact absurd h (by decide)

theorem exists_digit {ds : Text} (h : Decimal.Digits ds) :
    ∃ c s, ds = c :: s ∧ Decimal.isDigit c = true := by
  obtain ⟨c, s, rfl⟩ := List.exists_cons_of_ne_nil h.1
  exact ⟨c, s, rfl, h.2 c List.mem_cons_self⟩

/-- The decimal of a float begins with a digit. -/
theorem exists_digit_text (x : Double) :
    ∃ c s, (Decimal.shortest x.magnitude).text = c :: s ∧ Decimal.isDigit c = true := by
  obtain ⟨c, s, hs, hc⟩ := exists_digit (Decimal.shortest_spec x.exact).1.int.1
  exact ⟨c, _, by rw [Decimal.text, hs]; rfl, hc⟩

theorem exists_starts (ascii : Bool) (v : Value) : ∃ c s, v.dumps ascii = c :: s ∧ Starts c := by
  cases v with
  | null => exact ⟨'n', _, by rw [Value.dumps]; rfl, by unfold Starts; decide⟩
  | bool b =>
    cases b with
    | false => exact ⟨'f', _, by rw [Value.dumps]; rfl, by unfold Starts; decide⟩
    | true => exact ⟨'t', _, by rw [Value.dumps]; rfl, by unfold Starts; decide⟩
  | int n =>
    cases n with
    | ofNat n =>
      obtain ⟨c, s, hs, hc⟩ := exists_digit (Decimal.digits_ofNat n)
      exact ⟨c, s, by rw [Value.dumps, ← hs]; rfl, starts_digit hc⟩
    | negSucc n => exact ⟨'-', _, by rw [Value.dumps]; rfl, by unfold Starts; decide⟩
  | float x =>
    obtain ⟨c, s, hs, hc⟩ := exists_digit_text x
    cases hx : x.negative with
    | false => exact ⟨c, s, by rw [Value.dumps, Double.repr, hx, hs]; rfl, starts_digit hc⟩
    | true =>
      exact ⟨'-', _, by rw [Value.dumps, Double.repr, hx]; rfl, by unfold Starts; decide⟩
  | str s => exact ⟨'"', _, by rw [Value.dumps]; rfl, by unfold Starts; decide⟩
  | arr xs => exact ⟨'[', _, by rw [Value.dumps]; rfl, by unfold Starts; decide⟩
  | obj fields => exact ⟨'{', _, by rw [Value.dumps]; rfl, by unfold Starts; decide⟩

theorem skipBlanks_cons {c : Char} {s : Text} (h : isBlank c = false) :
    skipBlanks (c :: s) = c :: s := by
  unfold skipBlanks
  exact List.dropWhile_cons_of_neg (by rw [h]; exact Bool.false_ne_true)

theorem skipBlanks_dumps (v : Value) (s : Text) :
    skipBlanks (v.dumps ascii ++ s) = v.dumps ascii ++ s := by
  obtain ⟨c, t, ht, -, -, -, hc⟩ := exists_starts ascii v
  rw [ht, List.cons_append, skipBlanks_cons hc]

theorem join_singleton (sep p : Text) : join sep [p] = p := by
  simp [join]

theorem join_cons_cons (sep p q : Text) (ps : List Text) :
    join sep (p :: q :: ps) = p ++ (sep ++ join sep (q :: ps)) := by
  simp [join, List.intersperse]

/-- What comes first in a joined text. -/
theorem join_cons (sep p : Text) (ps : List Text) : ∃ s, join sep (p :: ps) = p ++ s := by
  cases ps with
  | nil => exact ⟨[], by rw [join_singleton, List.append_nil]⟩
  | cons q ps => exact ⟨_, join_cons_cons sep p q ps⟩

/-! ## Containers -/

/-- The value is read, whatever follows it, when the fuel is enough. -/
def Reads (ascii : Bool) (depth : Nat) (v : Value) : Prop :=
  ∀ rest, Stops rest →
    ∃ need, ∀ fuel ≥ need, scanOnce fuel depth (v.dumps ascii ++ rest) = .ok (v.loaded, rest)

theorem stops_cons {c : Char} {s : Text} (h : c = ',' ∨ c = ']' ∨ c = '}') : Stops (c :: s) := by
  rintro d ⟨⟩
  rcases h with rfl | rfl | rfl <;> decide

section Steps

variable {fuel depth : Nat} {s t u rest key : Text} {v : Loaded} {vs : List Loaded}
  {before after : List (Text × Loaded)}

theorem scanElements_last (h : scanOnce fuel depth s = .ok (v, ']' :: rest)) :
    scanElements (fuel + 1) depth s = .ok ([v], rest) := by
  rw [scanElements, h]
  rfl

theorem scanElements_more (h : scanOnce fuel depth s = .ok (v, ',' :: t)) (ht : skipBlanks t = t)
    (hs : scanElements fuel depth t = .ok (vs, rest)) :
    scanElements (fuel + 1) depth s = .ok (v :: vs, rest) := by
  rw [scanElements, h]
  show (scanElements fuel depth (skipBlanks t) >>= fun r => pure (v :: r.1, r.2)) = _
  rw [ht, hs]
  rfl

theorem scanMembers_last (hkey : scanString s = .ok (key, ':' :: t)) (ht : skipBlanks t = t)
    (h : scanOnce fuel depth t = .ok (v, '}' :: rest)) :
    scanMembers (fuel + 1) depth before ('"' :: s) = .ok (setItem key v before, rest) := by
  rw [scanMembers, hkey]
  show (scanOnce fuel depth (skipBlanks t) >>= _) = _
  rw [ht, h]
  rfl

theorem scanMembers_more (hkey : scanString s = .ok (key, ':' :: t)) (ht : skipBlanks t = t)
    (h : scanOnce fuel depth t = .ok (v, ',' :: u)) (hu : skipBlanks u = u)
    (hs : scanMembers fuel depth (setItem key v before) u = .ok (after, rest)) :
    scanMembers (fuel + 1) depth before ('"' :: s) = .ok (after, rest) := by
  rw [scanMembers, hkey]
  show (scanOnce fuel depth (skipBlanks t) >>= _) = _
  rw [ht, h]
  show scanMembers fuel depth _ (skipBlanks u) = _
  rw [hu, hs]

end Steps

theorem scanElements_dumps {depth : Nat} {xs : List Value} (hne : xs ≠ [])
    (h : ∀ v ∈ xs, Reads ascii depth v) (rest : Text) :
    ∃ need, ∀ fuel ≥ need,
      scanElements fuel depth (join [','] (xs.map (Value.dumps ascii)) ++ ']' :: rest) =
        .ok (xs.map Value.loaded, rest) := by
  induction xs with
  | nil => exact absurd rfl hne
  | cons v vs ih =>
    cases vs with
    | nil =>
      obtain ⟨need, hneed⟩ := h v List.mem_cons_self (']' :: rest) (stops_cons (by simp))
      refine ⟨need + 1, fun fuel hfuel => ?_⟩
      obtain ⟨fuel, rfl⟩ : ∃ n, fuel = n + 1 := ⟨fuel - 1, by omega⟩
      rw [List.map_cons, List.map_nil, join_singleton]
      exact scanElements_last (hneed fuel (by omega))
    | cons w ws =>
      let more := join [','] ((w :: ws).map (Value.dumps ascii)) ++ ']' :: rest
      obtain ⟨needs, hneeds⟩ :=
        ih (List.cons_ne_nil _ _) fun u hu => h u (List.mem_cons_of_mem _ hu)
      obtain ⟨need, hneed⟩ := h v List.mem_cons_self (',' :: more) (stops_cons (by simp))
      refine ⟨max need needs + 1, fun fuel hfuel => ?_⟩
      obtain ⟨fuel, rfl⟩ : ∃ n, fuel = n + 1 := ⟨fuel - 1, by omega⟩
      have hskip : skipBlanks more = more := by
        obtain ⟨s, hs⟩ := join_cons [','] (w.dumps ascii) (ws.map (Value.dumps ascii))
        show skipBlanks (join [','] (w.dumps ascii :: ws.map (Value.dumps ascii)) ++ _) = _
        rw [hs, List.append_assoc, skipBlanks_dumps]
        show _ = join [','] (w.dumps ascii :: ws.map (Value.dumps ascii)) ++ _
        rw [hs, List.append_assoc]
      have htext : join [','] ((v :: w :: ws).map (Value.dumps ascii)) ++ ']' :: rest =
          v.dumps ascii ++ ',' :: more := by
        rw [List.map_cons, List.map_cons, join_cons_cons]
        simp [more]
      rw [htext]
      exact scanElements_more (hneed fuel (by omega)) hskip (hneeds fuel (by omega))

theorem setItem_of_not_mem {key : Text} {v : Loaded} {fields : List (Text × Loaded)}
    (h : key ∉ fields.map Prod.fst) : setItem key v fields = fields ++ [(key, v)] := by
  induction fields with
  | nil => rfl
  | cons f fields ih =>
    rw [List.map_cons, List.mem_cons, not_or] at h
    rw [setItem, if_neg (Ne.symm h.1), ih h.2, List.cons_append]

/-- The key of a member that was written. -/
theorem scanString_memberText (ascii : Bool) (f : Text × Value) (s : Text) : ∃ t,
    memberText ascii f ++ s = '"' :: t ∧
      scanString t = .ok (f.1, ':' :: (f.2.dumps ascii ++ s)) := by
  refine ⟨_, ?_, scanString_quote ascii f.1 (':' :: (f.2.dumps ascii ++ s))⟩
  simp [memberText, quoteWith]

theorem scanMembers_dumps {depth : Nat} {fields : List (Text × Value)} (hne : fields ≠ [])
    (h : ∀ f ∈ fields, Reads ascii depth f.2) (rest : Text) :
    ∃ need, ∀ fuel ≥ need, ∀ before : List (Text × Loaded),
      (before.map Prod.fst ++ fields.map Prod.fst).Nodup →
      scanMembers fuel depth before (join [','] (fields.map (memberText ascii)) ++ '}' :: rest) =
        .ok (before ++ fields.map fun f => (f.1, f.2.loaded), rest) := by
  induction fields with
  | nil => exact absurd rfl hne
  | cons f fields ih =>
    have hset : ∀ before : List (Text × Loaded),
        (before.map Prod.fst ++ (f :: fields).map Prod.fst).Nodup →
          setItem f.1 f.2.loaded before = before ++ [(f.1, f.2.loaded)] := by
      intro before hnodup
      refine setItem_of_not_mem fun hmem => ?_
      exact (List.nodup_append.mp hnodup).2.2 f.1 hmem f.1 (by simp) rfl
    cases fields with
    | nil =>
      obtain ⟨need, hneed⟩ := h f List.mem_cons_self ('}' :: rest) (stops_cons (by simp))
      obtain ⟨t, ht, hkey⟩ := scanString_memberText ascii f ('}' :: rest)
      refine ⟨need + 1, fun fuel hfuel before hnodup => ?_⟩
      obtain ⟨fuel, rfl⟩ : ∃ n, fuel = n + 1 := ⟨fuel - 1, by omega⟩
      rw [List.map_cons, List.map_nil, join_singleton, ht,
        scanMembers_last hkey (skipBlanks_dumps _ _) (hneed fuel (by omega)), hset before hnodup]
      rfl
    | cons g gs =>
      let more := join [','] ((g :: gs).map (memberText ascii)) ++ '}' :: rest
      obtain ⟨needs, hneeds⟩ :=
        ih (List.cons_ne_nil _ _) fun u hu => h u (List.mem_cons_of_mem _ hu)
      obtain ⟨need, hneed⟩ := h f List.mem_cons_self (',' :: more) (stops_cons (by simp))
      obtain ⟨t, ht, hkey⟩ := scanString_memberText ascii f (',' :: more)
      refine ⟨max need needs + 1, fun fuel hfuel before hnodup => ?_⟩
      obtain ⟨fuel, rfl⟩ : ∃ n, fuel = n + 1 := ⟨fuel - 1, by omega⟩
      have htext : join [','] ((f :: g :: gs).map (memberText ascii)) ++ '}' :: rest =
          memberText ascii f ++ ',' :: more := by
        rw [List.map_cons, List.map_cons, join_cons_cons]
        simp [more]
      have hskip : skipBlanks more = more := by
        obtain ⟨s, hs⟩ := join_cons [','] (memberText ascii g) (gs.map (memberText ascii))
        have hmore : ∃ s, more = '"' :: s :=
          ⟨_, by show join [','] (memberText ascii g :: _) ++ _ = _; rw [hs]; rfl⟩
        obtain ⟨s, hs⟩ := hmore
        rw [hs, skipBlanks_cons (by decide)]
      have hrest : ((before ++ [(f.1, f.2.loaded)]).map Prod.fst ++
          (g :: gs).map Prod.fst).Nodup := by
        simpa using hnodup
      have hmore := hneeds fuel (by omega) _ hrest
      rw [← hset before hnodup] at hmore
      rw [htext, ht, scanMembers_more hkey (skipBlanks_dumps _ _) (hneed fuel (by omega)) hskip
        hmore, hset before hnodup]
      simp

/-! ## Values -/

/-- A value is read when its atom is. -/
theorem reads_atom {depth : Nat} {v : Value} {c : Char} {t : Text} (ht : v.dumps ascii = c :: t)
    (hquote : c ≠ '"') (hobj : c ≠ '{') (harr : c ≠ '[')
    (h : ∀ rest, Stops rest → scanAtom (v.dumps ascii ++ rest) = .ok (v.loaded, rest)) :
    Reads ascii depth v := by
  intro rest hrest
  refine ⟨1, fun fuel hfuel => ?_⟩
  obtain ⟨fuel, rfl⟩ : ∃ n, fuel = n + 1 := ⟨fuel - 1, by omega⟩
  have hatom := h rest hrest
  rw [ht, List.cons_append] at hatom ⊢
  rw [scanOnce_atom hquote hobj harr, hatom]

theorem digit_ne {c : Char} (h : Decimal.isDigit c = true) : c ≠ '"' ∧ c ≠ '{' ∧ c ≠ '[' := by
  refine ⟨?_, ?_, ?_⟩ <;>
  · rintro rfl
    exact absurd h (by decide)

theorem ofDigits_ofNat {negative : Bool} {m : Nat} {n : Int}
    (h : (if negative then -(m : Int) else m) = n) (hn : n.natAbs < intLimit) :
    ofDigits negative (Text.ofNat m) = .ok (.int n hn) := by
  subst h
  unfold ofDigits
  simp only [Decimal.digitsValue_ofNat]
  exact dif_pos hn

theorem scanAtom_int {n : Int} (hn : n.natAbs < intLimit) {rest : Text} (hrest : Stops rest) :
    scanAtom (Text.ofInt n ++ rest) = .ok (.int n hn, rest) := by
  cases n with
  | ofNat n =>
    obtain ⟨c, s, hs, hc⟩ := exists_digit (Decimal.digits_ofNat n)
    have hscan := scanUnsigned_ofNat (n := n) false hrest
    rw [ofDigits_ofNat (if_neg Bool.false_ne_true) hn] at hscan
    show scanAtom (Text.ofNat n ++ rest) = _
    rw [hs, List.cons_append] at hscan ⊢
    rw [(scanAtom_digit hc).1, hscan]
    rfl
  | negSucc n =>
    obtain ⟨c, s, hs, hc⟩ := exists_digit (Decimal.digits_ofNat (n + 1))
    have hscan := scanUnsigned_ofNat (n := n + 1) true hrest
    have hneg : (if true then -((n + 1 : Nat) : Int) else (n + 1 : Nat)) = Int.negSucc n := rfl
    rw [ofDigits_ofNat hneg hn] at hscan
    show scanAtom ('-' :: Text.ofNat (n + 1) ++ rest) = _
    rw [hs, List.cons_append] at hscan
    rw [hs, List.cons_append, List.cons_append, (scanAtom_digit hc).2, hscan]
    rfl

theorem scanAtom_float (x : Double) {rest : Text} (hrest : Stops rest) :
    scanAtom (x.repr ++ rest) = .ok (.float (.finite x), rest) := by
  obtain ⟨hvalid, -, hfloat⟩ := Decimal.shortest_spec x.exact
  obtain ⟨c, s, hs, hc⟩ := exists_digit_text x
  have hscan := scanUnsigned_text x.negative hvalid hfloat hrest
  have hof : ofDecimal x.negative (Decimal.shortest x.magnitude) = .finite x := by
    unfold ofDecimal
    simp only [Decimal.ofDecimal_shortest]
  rw [hof] at hscan
  rw [Double.repr]
  rw [hs, List.cons_append] at hscan
  cases hx : x.negative with
  | false =>
    rw [if_neg Bool.false_ne_true, List.nil_append, hs, List.cons_append, (scanAtom_digit hc).1,
      ← hx, hscan]
  | true =>
    rw [if_pos rfl, hs, List.singleton_append, List.cons_append, List.cons_append,
      (scanAtom_digit hc).2, ← hx, hscan]

theorem reads_int {depth : Nat} {n : Int} (hn : n.natAbs < intLimit) :
    Reads ascii depth (.int n) := by
  have hloaded : (Value.int n).loaded = .int n hn := by rw [Value.loaded, dif_pos hn]
  have hscan : ∀ rest, Stops rest →
      scanAtom ((Value.int n).dumps ascii ++ rest) = .ok ((Value.int n).loaded, rest) := by
    intro rest hrest
    rw [hloaded, Value.dumps, scanAtom_int hn hrest]
  cases n with
  | ofNat n =>
    obtain ⟨c, s, hs, hc⟩ := exists_digit (Decimal.digits_ofNat n)
    obtain ⟨hquote, hobj, harr⟩ := digit_ne hc
    exact reads_atom (by rw [Value.dumps, ← hs]; rfl) hquote hobj harr hscan
  | negSucc n =>
    exact reads_atom (by rw [Value.dumps]; rfl) (by decide) (by decide) (by decide) hscan

theorem reads_float {depth : Nat} (x : Double) : Reads ascii depth (.float x) := by
  have hscan : ∀ rest, Stops rest →
      scanAtom ((Value.float x).dumps ascii ++ rest) = .ok ((Value.float x).loaded, rest) := by
    intro rest hrest
    rw [Value.loaded, Value.dumps, scanAtom_float x hrest]
  obtain ⟨c, s, hs, hc⟩ := exists_digit_text x
  obtain ⟨hquote, hobj, harr⟩ := digit_ne hc
  cases hx : x.negative with
  | false => exact reads_atom (by rw [Value.dumps, Double.repr, hx, hs]; rfl) hquote hobj harr hscan
  | true =>
    exact reads_atom (by rw [Value.dumps, Double.repr, hx]; rfl) (by decide) (by decide)
      (by decide) hscan

theorem reads_str {depth : Nat} (s : Text) : Reads ascii depth (.str s) := by
  intro rest _
  refine ⟨1, fun fuel hfuel => ?_⟩
  obtain ⟨fuel, rfl⟩ : ∃ n, fuel = n + 1 := ⟨fuel - 1, by omega⟩
  have htext : (Value.str s).dumps ascii ++ rest =
      '"' :: (s.flatMap (if ascii then escape else escapeWide) ++ '"' :: rest) := by
    simp [Value.dumps, quoteWith]
  rw [htext, scanOnce, scanString_quote, Value.loaded]
  rfl

theorem reads_arr {depth : Nat} {xs : List Value} (h : ∀ v ∈ xs, Reads ascii depth v) :
    Reads ascii (depth + 1) (.arr xs) := by
  intro rest _
  have htext : (Value.arr xs).dumps ascii ++ rest =
      '[' :: (join [','] (xs.map (Value.dumps ascii)) ++ ']' :: rest) := by
    simp [Value.dumps, dumpsEach_eq]
  rw [htext, Value.loaded, loadedEach_eq]
  cases xs with
  | nil =>
    refine ⟨1, fun fuel hfuel => ?_⟩
    obtain ⟨fuel, rfl⟩ : ∃ n, fuel = n + 1 := ⟨fuel - 1, by omega⟩
    rfl
  | cons v vs =>
    obtain ⟨need, hneed⟩ := scanElements_dumps (List.cons_ne_nil v vs) h rest
    refine ⟨need + 1, fun fuel hfuel => ?_⟩
    obtain ⟨fuel, rfl⟩ : ∃ n, fuel = n + 1 := ⟨fuel - 1, by omega⟩
    have hfirst : ∃ c s, join [','] ((v :: vs).map (Value.dumps ascii)) ++ ']' :: rest = c :: s ∧
        Starts c := by
      obtain ⟨c, t, ht, hc⟩ := exists_starts ascii v
      obtain ⟨s, hs⟩ := join_cons [','] (v.dumps ascii) (vs.map (Value.dumps ascii))
      exact ⟨c, _, by rw [List.map_cons, hs, ht]; rfl, hc⟩
    obtain ⟨c, s, hs, hbracket, -, -, hblank⟩ := hfirst
    have helements := hneed fuel (by omega)
    rw [hs] at helements ⊢
    rw [scanOnce, skipBlanks_cons hblank]
    split
    · next h => exact absurd (List.cons.inj h).1 hbracket
    · rw [helements]
      rfl

theorem reads_obj {depth : Nat} {fields : List (Text × Value)}
    (hnodup : (fields.map Prod.fst).Nodup) (h : ∀ f ∈ fields, Reads ascii depth f.2) :
    Reads ascii (depth + 1) (.obj fields) := by
  intro rest _
  have hperm : (sortFields fields).Perm fields := List.perm_insertionSort _ _
  have htext : (Value.obj fields).dumps ascii ++ rest =
      '{' :: (join [','] ((sortFields fields).map (memberText ascii)) ++ '}' :: rest) := by
    rw [dumps_obj]
    simp
  rw [htext, loaded_obj]
  cases hsort : sortFields fields with
  | nil =>
    refine ⟨1, fun fuel hfuel => ?_⟩
    obtain ⟨fuel, rfl⟩ : ∃ n, fuel = n + 1 := ⟨fuel - 1, by omega⟩
    rfl
  | cons f fs =>
    rw [hsort] at hperm
    obtain ⟨need, hneed⟩ := scanMembers_dumps (List.cons_ne_nil f fs)
      (fun g hg => h g (hperm.subset hg)) rest
    refine ⟨need + 1, fun fuel hfuel => ?_⟩
    obtain ⟨fuel, rfl⟩ : ∃ n, fuel = n + 1 := ⟨fuel - 1, by omega⟩
    have hkeys : (([] : List (Text × Loaded)).map Prod.fst ++ (f :: fs).map Prod.fst).Nodup :=
      (hperm.map Prod.fst).nodup_iff.mpr hnodup
    obtain ⟨s, hs⟩ : ∃ s, join [','] ((f :: fs).map (memberText ascii)) ++ '}' :: rest =
        '"' :: s := by
      obtain ⟨s, hs⟩ := join_cons [','] (memberText ascii f) (fs.map (memberText ascii))
      exact ⟨_, by rw [List.map_cons, hs]; rfl⟩
    have hmembers := hneed fuel (by omega) [] hkeys
    rw [hs] at hmembers ⊢
    rw [scanOnce, skipBlanks_cons (by decide)]
    show (scanMembers fuel depth [] ('"' :: s)).map _ = _
    rw [hmembers]
    rfl

mutual

/-- A readable value is read. -/
theorem reads_of_readable : (v : Value) → {depth : Nat} → v.Readable depth → Reads ascii depth v
  | .null, _, _ => reads_atom (by rw [Value.dumps]; rfl) (by decide) (by decide) (by decide)
    fun _ _ => by rw [Value.dumps, Value.loaded]; rfl
  | .bool true, _, _ => reads_atom (by rw [Value.dumps]; rfl) (by decide) (by decide) (by decide)
    fun _ _ => by rw [Value.dumps, Value.loaded]; rfl
  | .bool false, _, _ => reads_atom (by rw [Value.dumps]; rfl) (by decide) (by decide) (by decide)
    fun _ _ => by rw [Value.dumps, Value.loaded]; rfl
  | .int _, _, h => reads_int (by rwa [Value.Readable] at h)
  | .float x, _, _ => reads_float x
  | .str s, _, _ => reads_str s
  | .arr xs, 0, h => by rw [Value.Readable] at h; exact h.elim
  | .arr xs, _ + 1, h => reads_arr (reads_each xs (by rwa [Value.Readable] at h))
  | .obj fields, 0, h => by rw [Value.Readable] at h; exact h.elim
  | .obj fields, _ + 1, h => by
    rw [Value.Readable] at h
    exact reads_obj h.1 (reads_fields fields h.2)

theorem reads_each : (xs : List Value) → {depth : Nat} → ReadableEach xs depth →
    ∀ v ∈ xs, Reads ascii depth v
  | [], _, _ => List.forall_mem_nil _
  | v :: vs, _, h => by
    rw [ReadableEach] at h
    exact List.forall_mem_cons.mpr ⟨reads_of_readable v h.1, reads_each vs h.2⟩

theorem reads_fields : (fields : List (Text × Value)) → {depth : Nat} →
    ReadableFields fields depth → ∀ f ∈ fields, Reads ascii depth f.2
  | [], _, _ => List.forall_mem_nil _
  | (_, v) :: fields, _, h => by
    rw [ReadableFields] at h
    exact List.forall_mem_cons.mpr ⟨reads_of_readable v h.1, reads_fields fields h.2⟩

end

/-- **What was written is read.** -/
theorem loads_dumps {v : Value} {depth : Nat} (h : v.Readable depth) :
    loads depth (v.dumps ascii) = .ok v.loaded := by
  have hreads : Reads ascii depth v := reads_of_readable v h
  obtain ⟨need, hneed⟩ := hreads [] fun c hc => by cases hc
  obtain ⟨c, t, ht, -, -, hbom, hblank⟩ := exists_starts ascii v
  have hskip : skipBlanks (v.dumps ascii) = v.dumps ascii := by
    rw [ht, skipBlanks_cons hblank]
  have hstart : (v.dumps ascii).startsWith ['\uFEFF'] = false := by
    rw [ht]
    simp [Text.startsWith, List.isPrefixOf, hbom.symm]
  have hscan : scanOnce (2 * (v.dumps ascii).length + 1) depth (skipBlanks (v.dumps ascii)) =
      .ok (v.loaded, []) := by
    have hfuel : 2 * (v.dumps ascii).length < max need (2 * (v.dumps ascii).length + 1) := by omega
    rw [← loads_fuel hfuel, hskip]
    have := hneed (max need (2 * (v.dumps ascii).length + 1)) (le_max_left _ _)
    rwa [List.append_nil] at this
  unfold loads
  rw [hstart, hscan]
  rfl

/-- Values that are written alike are read alike. -/
theorem loaded_of_dumps_eq {v w : Value} {depth : Nat} (hv : v.Readable depth)
    (hw : w.Readable depth) (h : v.dumps ascii = w.dumps ascii) : v.loaded = w.loaded :=
  Except.ok.inj ((loads_dumps hv).symm.trans ((congrArg (loads depth) h).trans (loads_dumps hw)))

end Json
